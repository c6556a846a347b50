import NetEngine.Lib.FreeList
import NetEngine.Lib.Machine
import NetEngine.Lib.Regions

/-!
# ObjectPool

The pool of object_pool.h.  The nodes lie one behind the other in `m_poolData`
and the free ones are linked through their headers; when there is none,
`Alloc` asks `operator new` for a block, whose header says that it is not of the
pool.  Headers are read and written by the address of their block.

The trace of a run notes the calls, so which blocks are in use is known from what
`Alloc` returned and from the pointers that `Free` was called with.  `PoolInv` is
what every run of `Alloc` and `Free` preserves.
-/

namespace NetEngine
namespace Pools

/-- Header in front of each object. -/
structure ObjectNode where
  next : Option Nat := none
  id : Int32 := 0
  ref : Int8 := 0
  inPool : Bool := false

/-- `sizeof(ObjectNode)`. -/
def ObjectNode.SIZEOF : Nat := 16

/-- Template arguments: the size of `Type`, and `PoolSize`. -/
structure ObjectType where
  size : Nat
  PoolSize : Nat
  pos : 1 ≤ PoolSize

namespace ObjectType

def realSize (T : ObjectType) : Nat :=
  T.size + ObjectNode.SIZEOF

/-- Nodes of a pool. -/
def nodes (T : ObjectType) (poolData : Nat) : List Nat :=
  strided poolData T.realSize T.PoolSize

end ObjectType

structure ObjectPool where
  header : Option Nat
  poolData : Nat
  nodes : Nat → ObjectNode

inductive PoolEvent where
  /-- `Alloc(size)`, and what `operator new` returns if it is asked. -/
  | alloc (size : UInt64) (block : Nat)
  | free (p : Nat)

namespace ObjectPool

/-- A node as `InitPool` writes it. -/
def newNode (i : Nat) : ObjectNode :=
  { inPool := true, id := Int32.ofNat i, ref := 0, next := none }

def linkNode (header : ObjectNode) (next : Nat) : ObjectNode :=
  { header with next := some next }

/-- `InitPool`, given the array of the nodes and what was in memory. -/
def initPool (T : ObjectType) (poolData : Nat) (memory : Nat → ObjectNode) :
    ObjectPool :=
  { header := some poolData
    poolData := poolData
    nodes := chainBlocks newNode linkNode (blockAt poolData T.realSize)
      T.PoolSize memory }

/-- The header of a block from `operator new`. -/
def outsideNode : ObjectNode :=
  { inPool := false, id := -1, ref := 1, next := none }

def alloc (T : ObjectType) (s : ObjectPool) (size : UInt64) (block : Nat) :
    ObjectPool × List AllocObservation :=
  match s.header with
  | none =>
      ({ s with nodes := Function.update s.nodes block outsideNode },
        [.allocated ⟨block + ObjectNode.SIZEOF, size.toNat, T.size⟩])
  | some ret =>
      let node := s.nodes ret
      let used := { node with ref := node.ref + 1 }
      ({ s with
          header := node.next, nodes := Function.update s.nodes ret used },
        [.asserted (0 = node.ref),
          .allocated ⟨ret + ObjectNode.SIZEOF, size.toNat, T.size⟩])

def free (s : ObjectPool) (p : Nat) : ObjectPool × List AllocObservation :=
  let block := p - ObjectNode.SIZEOF
  let node := s.nodes block
  let ref := node.ref - 1
  let out : List AllocObservation := [.asserted (node.ref > 0)]
  let left := { node with ref := ref }
  if node.inPool then
    if ref ≠ 0 then
      ({ s with nodes := Function.update s.nodes block left }, out)
    else
      let first := { left with next := s.header }
      ({ s with
          header := some block
          nodes := Function.update s.nodes block first }, out)
  else
    -- with no reference left the block goes back to `operator delete`
    ({ s with nodes := Function.update s.nodes block left }, out)

def step (T : ObjectType) (s : ObjectPool) :
    PoolEvent → ObjectPool × List AllocObservation
  | .alloc size block => s.alloc T size block
  | .free p => s.free p

/-- A call, as the trace notes it. -/
def call : PoolEvent → List AllocObservation
  | .alloc size _ => [.asked size.toNat]
  | .free p => [.freed p]

/-- A run of a new pool. -/
def run (T : ObjectType) (poolData : Nat) (memory : Nat → ObjectNode)
    (events : List PoolEvent) : ObjectPool × List AllocObservation :=
  Machine.run (Machine.noting (step T) call) (initPool T poolData memory)
    events

/--
`operator new` returns memory that is not in use, and `Free` is called on
pointers that `Alloc` returned and that have not been freed since.
-/
def Proper (T : ObjectType) (s : ObjectPool) (tr : List AllocObservation) :
    PoolEvent → Prop
  | .alloc _ block =>
      s.header = none →
        Apart block T.realSize s.poolData (T.PoolSize * T.realSize) ∧
          ∀ r ∈ liveRegions tr,
            Apart block T.realSize (r.pointer - ObjectNode.SIZEOF) T.realSize
  | .free p => ∃ r ∈ liveRegions tr, r.pointer = p

instance (T : ObjectType) (s : ObjectPool) (tr : List AllocObservation)
    (e : PoolEvent) : Decidable (Proper T s tr e) :=
  match e with
  | .alloc _ _ => inferInstanceAs (Decidable (_ → _ ∧ _))
  | .free _ => inferInstanceAs (Decidable (∃ r ∈ liveRegions tr, _))

end ObjectPool

section Invariant

variable {T : ObjectType} {data : Nat} {s : ObjectPool}
variable {tr : List AllocObservation} {live live' : Set Nat}

theorem ObjectType.realSize_pos (T : ObjectType) : 0 < T.realSize := by
  simp only [ObjectType.realSize, ObjectNode.SIZEOF]
  omega

/-- Blocks in use. -/
def liveBlocks (tr : List AllocObservation) : Set Nat :=
  blocksOf ObjectNode.SIZEOF (liveRegions tr)

instance (tr : List AllocObservation) :
    DecidablePred (fun a => a ∈ liveBlocks tr) :=
  inferInstanceAs (DecidablePred (fun a => a ∈ blocksOf _ _))

/-- What a header says about its block. -/
structure NodeInv (T : ObjectType) (data : Nat) (live : Set Nat) (a : Nat)
    (node : ObjectNode) : Prop where
  pooled : a ∈ T.nodes data → node.inPool = true
  unused : a ∈ T.nodes data → a ∉ live → node.ref = 0
  used : a ∈ live → node.ref = 1
  outside : a ∈ live → a ∉ T.nodes data → node.inPool = false

/-- One header is written, and its block put in use or given back. -/
theorem NodeInv.update
    {nodes : Nat → ObjectNode} (h : ∀ a, NodeInv T data live a (nodes a))
    {a : Nat} {node : ObjectNode} (hnode : NodeInv T data live' a node)
    (hlive : ∀ b, b ≠ a → (b ∈ live' ↔ b ∈ live)) :
    ∀ b, NodeInv T data live' b (Function.update nodes a node b) := by
  refine (Function.forall_update_iff nodes fun b x =>
    NodeInv T data live' b x).mpr ⟨hnode, fun b hne => ?_⟩
  have hb := h b
  exact ⟨hb.pooled,
    fun hall hnot => hb.unused hall fun hin => hnot ((hlive b hne).mpr hin),
    fun hin => hb.used ((hlive b hne).mp hin),
    fun hin => hb.outside ((hlive b hne).mp hin)⟩

/-- What `Alloc` returns and what its assertion and that of `Free` say. -/
def Sound (T : ObjectType) (data : Nat) (tr : List AllocObservation) :
    AllocObservation → Prop
  | .allocated r =>
      (∀ r' ∈ liveRegions tr, r'.pointer ≠ r.pointer) ∧
        ∃ a, r.pointer = a + ObjectNode.SIZEOF ∧
          (a ∈ T.nodes data ∨ ∀ b ∈ T.nodes data, b ∈ liveBlocks tr)
  | .asserted holds => holds = true
  | .asked _ => True
  | .freed _ => True

/-- What every run preserves. -/
structure PoolInv (T : ObjectType) (data : Nat) (s : ObjectPool)
    (tr : List AllocObservation) : Prop where
  poolData : s.poolData = data
  freeList : FreeList (fun a => (s.nodes a).next) s.header (T.nodes data)
    (liveBlocks tr)
  nodes : ∀ a, NodeInv T data (liveBlocks tr) a (s.nodes a)
  pointers : ∀ r ∈ liveRegions tr, ∃ a, r.pointer = a + ObjectNode.SIZEOF
  sound : Machine.Traced (Sound T data) tr

theorem liveBlocks_allocated (tr : List AllocObservation)
    (a size room : Nat) :
    liveBlocks
        (tr ++ [.allocated ⟨a + ObjectNode.SIZEOF, size, room⟩]) =
      insert a (liveBlocks tr) :=
  blocksOf_allocated _ _ _ _ _

theorem liveBlocks_freed (tr : List AllocObservation) (a : Nat) :
    liveBlocks (tr ++ [.freed (a + ObjectNode.SIZEOF)]) =
      liveBlocks tr \ {a} :=
  blocksOf_freed _ _ _

theorem liveBlocks_asserted (tr : List AllocObservation) (holds : Bool) :
    liveBlocks (tr ++ [.asserted holds]) = liveBlocks tr := by
  rw [liveBlocks, liveRegions_asserted, liveBlocks]

/-- What changes no region changes nothing. -/
theorem PoolInv.noted
    (h : PoolInv T data s tr) {o : AllocObservation}
    (hlive : liveRegions (tr ++ [o]) = liveRegions tr)
    (hsound : Sound T data tr o) :
    PoolInv T data s (tr ++ [o]) := by
  have hblocks : liveBlocks (tr ++ [o]) = liveBlocks tr := by
    rw [liveBlocks, hlive, liveBlocks]
  refine ⟨h.poolData, ?_, ?_, ?_, h.sound.concat hsound⟩
  · rw [hblocks]
    exact h.freeList
  · rw [hblocks]
    exact h.nodes
  · rw [hlive]
    exact h.pointers

theorem PoolInv.asserted (h : PoolInv T data s tr) :
    PoolInv T data s (tr ++ [.asserted true]) :=
  h.noted (liveRegions_asserted tr true) rfl

/-- A block is handed out. -/
theorem PoolInv.allocated
    (h : PoolInv T data s tr) {a : Nat} {header : Option Nat}
    {node : ObjectNode} (size room : Nat)
    (hfree : FreeList (fun b => (Function.update s.nodes a node b).next)
      header (T.nodes data) (insert a (liveBlocks tr)))
    (hnode : NodeInv T data (insert a (liveBlocks tr)) a node)
    (hnew : a ∉ liveBlocks tr)
    (hlast : a ∈ T.nodes data ∨ ∀ b ∈ T.nodes data, b ∈ liveBlocks tr) :
    PoolInv T data
      { s with header := header, nodes := Function.update s.nodes a node }
      (tr ++ [.allocated ⟨a + ObjectNode.SIZEOF, size, room⟩]) := by
  refine ⟨h.poolData, ?_, ?_, ?_, h.sound.concat ⟨?_, a, rfl, hlast⟩⟩
  · rw [liveBlocks_allocated]
    exact hfree
  · rw [liveBlocks_allocated]
    exact NodeInv.update h.nodes hnode fun b => mem_insert_of_ne
  · intro r hr
    rw [liveRegions_append] at hr
    rcases List.mem_cons.mp hr with rfl | hr
    · exact ⟨a, rfl⟩
    · exact h.pointers r hr
  · intro r hr heq
    exact hnew ⟨r, hr, heq⟩

/-- A block is given back. -/
theorem PoolInv.freed
    (h : PoolInv T data s tr) {a : Nat} {header : Option Nat}
    {node : ObjectNode}
    (hfree : FreeList (fun b => (Function.update s.nodes a node b).next)
      header (T.nodes data) (liveBlocks tr \ {a}))
    (hnode : NodeInv T data (liveBlocks tr \ {a}) a node) :
    PoolInv T data
      { s with header := header, nodes := Function.update s.nodes a node }
      (tr ++ [.freed (a + ObjectNode.SIZEOF)]) := by
  refine ⟨h.poolData, ?_, ?_, ?_, h.sound.concat trivial⟩
  · rw [liveBlocks_freed]
    exact hfree
  · rw [liveBlocks_freed]
    exact NodeInv.update h.nodes hnode fun b => mem_remove_of_ne
  · intro r hr
    rw [liveRegions_append] at hr
    exact h.pointers r (List.mem_of_mem_filter hr)

theorem ObjectPool.alloc_outside
    (hheader : s.header = none) (size : UInt64) (block : Nat) :
    s.alloc T size block =
      ({ s with
          header := s.header
          nodes := Function.update s.nodes block ObjectPool.outsideNode },
        [.allocated
          ⟨block + ObjectNode.SIZEOF, size.toNat, T.size⟩]) := by
  simp only [ObjectPool.alloc, hheader]

theorem ObjectPool.alloc_pooled
    {ret : Nat} (hheader : s.header = some ret)
    (hzero : (s.nodes ret).ref = 0) (size : UInt64) (block : Nat) :
    s.alloc T size block =
      ({ s with
          header := (s.nodes ret).next
          nodes := Function.update s.nodes ret
            { s.nodes ret with ref := (s.nodes ret).ref + 1 } },
        [.asserted true, .allocated
          ⟨ret + ObjectNode.SIZEOF, size.toNat, T.size⟩]) := by
  have hassert : decide (0 = (s.nodes ret).ref) = true :=
    decide_eq_true hzero.symm
  simp only [ObjectPool.alloc, hheader, hassert]

/-- All nodes are in use, and the new block is none of them. -/
theorem PoolInv.outside
    (h : PoolInv T data s tr) (hheader : s.header = none) {size : UInt64}
    {block : Nat}
    (hproper : ObjectPool.Proper T s tr (.alloc size block)) :
    PoolInv T data (s.alloc T size block).1
      (tr ++ (s.alloc T size block).2) := by
  have hfree := h.freeList
  obtain ⟨harray, hblocks⟩ := hproper hheader
  rw [h.poolData] at harray
  have hout : block ∉ T.nodes data :=
    harray.not_mem_strided T.realSize_pos T.realSize_pos
  have hnew : block ∉ liveBlocks tr := by
    rintro ⟨r, hr, hpointer⟩
    have hne := (hblocks r hr).ne T.realSize_pos T.realSize_pos
    omega
  rw [ObjectPool.alloc_outside hheader]
  refine h.allocated size.toNat T.size ?_ ?_ hnew ?_
  · exact hfree.frame_update hout fun b => mem_insert_of_ne
  · exact ⟨fun hin => absurd hin hout, fun hin => absurd hin hout,
      fun _ => rfl, fun _ _ => rfl⟩
  · rw [hheader] at hfree
    exact Or.inr fun b hb => hfree.exhausted hb

/-- The first node of the free list is handed out. -/
theorem PoolInv.pop
    (h : PoolInv T data s tr) {ret : Nat} (hheader : s.header = some ret)
    (size : UInt64) (block : Nat) :
    PoolInv T data (s.alloc T size block).1
      (tr ++ (s.alloc T size block).2) := by
  have hfree := h.freeList
  rw [hheader] at hfree
  obtain ⟨hall, hnew, -⟩ := hfree.pop
  have hret := h.nodes ret
  have hzero : (s.nodes ret).ref = 0 := hret.unused hall hnew
  have hnode : NodeInv T data (insert ret (liveBlocks tr)) ret
      { s.nodes ret with ref := (s.nodes ret).ref + 1 } := by
    refine ⟨hret.pooled, fun _ hnot => ?_, fun _ => ?_, fun _ hnot => ?_⟩
    · exact absurd (Set.mem_insert ret _) hnot
    · show (s.nodes ret).ref + 1 = 1
      rw [hzero]
      rfl
    · exact absurd hall hnot
  rw [ObjectPool.alloc_pooled hheader hzero, List.append_cons]
  refine h.asserted.allocated size.toNat T.size ?_ ?_ ?_ (Or.inl hall)
  · rw [liveBlocks_asserted]
    exact hfree.pop_update rfl
  · rw [liveBlocks_asserted]
    exact hnode
  · rw [liveBlocks_asserted]
    exact hnew

theorem ObjectPool.free_pooled
    {a : Nat} (hpool : (s.nodes a).inPool = true)
    (hone : (s.nodes a).ref = 1) :
    s.free (a + ObjectNode.SIZEOF) =
      ({ s with
          header := some a
          nodes := Function.update s.nodes a
            { s.nodes a with
              ref := (s.nodes a).ref - 1, next := s.header } },
        [.asserted true]) := by
  have hassert : decide ((s.nodes a).ref > 0) = true := by
    rw [hone]
    rfl
  have hleft : ¬ (s.nodes a).ref - 1 ≠ 0 := by
    rw [hone]
    exact not_not_intro rfl
  simp only [ObjectPool.free, Nat.add_sub_cancel, hassert]
  rw [if_pos hpool, if_neg hleft]

theorem ObjectPool.free_outside
    {a : Nat} (hpool : (s.nodes a).inPool = false)
    (hone : (s.nodes a).ref = 1) :
    s.free (a + ObjectNode.SIZEOF) =
      ({ s with
          header := s.header
          nodes := Function.update s.nodes a
            { s.nodes a with ref := (s.nodes a).ref - 1 } },
        [.asserted true]) := by
  have hassert : decide ((s.nodes a).ref > 0) = true := by
    rw [hone]
    rfl
  have hout : ¬ (s.nodes a).inPool = true := by
    rw [hpool]
    exact Bool.false_ne_true
  simp only [ObjectPool.free, Nat.add_sub_cancel, hassert]
  rw [if_neg hout]

theorem PoolInv.free
    (h : PoolInv T data s tr) {p : Nat}
    (hproper : ObjectPool.Proper T s tr (.free p)) :
    PoolInv T data (s.free p).1 (tr ++ ((s.free p).2 ++ [.freed p])) := by
  obtain ⟨r, hr, rfl⟩ := hproper
  obtain ⟨a, ha⟩ := h.pointers r hr
  have hlive : a ∈ liveBlocks tr := ⟨r, hr, ha⟩
  have hnode := h.nodes a
  have hone : (s.nodes a).ref = 1 := hnode.used hlive
  have hleft : (s.nodes a).ref - 1 = 0 := by
    rw [hone]
    rfl
  have hgone : a ∉ liveBlocks tr \ {a} := fun hin => hin.2 rfl
  rw [ha]
  cases hpool : (s.nodes a).inPool with
  | true =>
      have hall : a ∈ T.nodes data := by
        by_contra hnot
        have hout := hnode.outside hlive hnot
        rw [hpool] at hout
        cases hout
      rw [ObjectPool.free_pooled hpool hone, ← List.append_assoc]
      refine h.asserted.freed ?_ ?_
      · rw [liveBlocks_asserted]
        exact h.freeList.push_update hall hlive rfl
      · rw [liveBlocks_asserted]
        exact ⟨fun _ => hpool, fun _ _ => hleft,
          fun hin => absurd hin hgone, fun hin => absurd hin hgone⟩
  | false =>
      have hout : a ∉ T.nodes data := by
        intro hall
        have hin := hnode.pooled hall
        rw [hpool] at hin
        cases hin
      rw [ObjectPool.free_outside hpool hone, ← List.append_assoc]
      refine h.asserted.freed ?_ ?_
      · rw [liveBlocks_asserted]
        exact h.freeList.frame_update hout fun b => mem_remove_of_ne
      · rw [liveBlocks_asserted]
        exact ⟨fun hall => absurd hall hout, fun hall => absurd hall hout,
          fun hin => absurd hin hgone, fun hin => absurd hin hgone⟩

theorem PoolInv.step
    (h : PoolInv T data s tr) {e : PoolEvent}
    (hproper : ObjectPool.Proper T s tr e) :
    PoolInv T data (ObjectPool.step T s e).1
      (tr ++ ((ObjectPool.step T s e).2 ++ ObjectPool.call e)) := by
  cases e with
  | alloc size block =>
      have hinv : PoolInv T data (s.alloc T size block).1
          (tr ++ (s.alloc T size block).2) := by
        cases hheader : s.header with
        | none =>
            exact h.outside hheader hproper
        | some ret =>
            exact h.pop hheader size block
      rw [← List.append_assoc]
      exact hinv.noted (liveRegions_asked _ _) trivial
  | free p =>
      exact h.free hproper

/-- Each call of `Alloc` is answered. -/
theorem ObjectPool.step_answered
    (T : ObjectType) (s : ObjectPool) (e : PoolEvent) :
    Answered ((step T s e).2 ++ call e) := by
  cases e with
  | alloc size block =>
      rw [step, alloc]
      cases s.header with
      | none =>
          rfl
      | some ret =>
          rfl
  | free p =>
      rw [step, free]
      dsimp only
      split_ifs
      · rfl
      · rfl
      · rfl

end Invariant

/--
The free list has no cycle and no duplicate, holds unreferenced nodes of the
pool that are not in use, and together with those in use there are `PoolSize`;
when nothing is in use it holds all of them.  Each call of `Alloc` returned, with
a block that was not in use.
-/
structure Integrity (T : ObjectType) (data : Nat) (s : ObjectPool)
    (tr : List AllocObservation) : Prop where
  freeList : ∃ free, Linked (fun a => (s.nodes a).next) s.header free ∧
    free.Nodup ∧
    (∀ a ∈ free,
      a ∈ T.nodes data ∧ (s.nodes a).ref = 0 ∧ a ∉ liveBlocks tr) ∧
    free.length + ((T.nodes data).filter (fun a => a ∈ liveBlocks tr)).length =
      T.PoolSize ∧
    (liveRegions tr = [] → free.Perm (T.nodes data))
  sound : Machine.Traced (Sound T data) tr
  answered : Answered tr

theorem PoolInv.integrity
    {T : ObjectType} {data : Nat} {s : ObjectPool}
    {tr : List AllocObservation} (h : PoolInv T data s tr)
    (hanswered : Answered tr) :
    Integrity T data s tr := by
  obtain ⟨free, hlinked, hnodup, hperm⟩ :=
    h.freeList.perm (strided_nodup T.realSize_pos)
  have hmem : ∀ a ∈ free, a ∈ T.nodes data ∧ a ∉ liveBlocks tr := by
    intro a ha
    have hfilter := List.mem_filter.mp (hperm.mem_iff.mp ha)
    exact ⟨hfilter.1, of_decide_eq_true hfilter.2⟩
  refine ⟨⟨free, hlinked, hnodup, fun a ha => ?_, ?_, fun hnone => ?_⟩,
    h.sound, hanswered⟩
  · obtain ⟨hall, hnot⟩ := hmem a ha
    exact ⟨hall, (h.nodes a).unused hall hnot, hnot⟩
  · have hcount := List.length_eq_length_filter_add
      (l := T.nodes data) (fun a => decide (a ∈ liveBlocks tr))
    have hall : (T.nodes data).length = T.PoolSize := strided_length
    simp only [decide_not] at hperm
    rw [hperm.length_eq]
    omega
  · have hlive : liveBlocks tr = ∅ := by
      rw [liveBlocks, hnone, blocksOf_nil]
    have hkeep : (T.nodes data).filter (fun a => a ∉ liveBlocks tr) =
        T.nodes data :=
      List.filter_eq_self.mpr fun a _ =>
        decide_eq_true (hlive ▸ Set.notMem_empty a)
    rwa [hkeep] at hperm

end Pools
end NetEngine
