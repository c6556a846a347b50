import NetEngine.Pools.MemManager

/-!
# Integrity of MemManager

What every run of `Alloc` and `Free` preserves as long as no size is so large
that adding the header's size to it leaves the range of `size_t`: the regions
are large enough and overlap neither each other nor a header, and every free
list holds the blocks of its pool that are not in use.

A size that is too large makes `Alloc` ask `malloc` for less than the header
takes, so the pointer it returns lies behind the memory it was given.
-/

namespace NetEngine
namespace Pools

section Invariant

variable {data : MemPool → Nat} {s : MemManager}
variable {tr : List AllocObservation} {live live' : Set Nat}

/-- Blocks in use. -/
def usedBlocks (tr : List AllocObservation) : Set Nat :=
  blocksOf s_MemBlockSize (liveRegions tr)

/-- What a header says about its block. -/
structure BlockInv (data : MemPool → Nat) (live : Set Nat) (a : Nat)
    (header : MemBlock) : Prop where
  pooled : ∀ k, a ∈ MemPool.blocks k data →
    header.inPool = true ∧ header.alloc = some k
  unused : ∀ k, a ∈ MemPool.blocks k data → a ∉ live → header.ref = 0
  used : a ∈ live → header.ref = 1
  outside : a ∈ live → (∀ k, a ∉ MemPool.blocks k data) →
    header.inPool = false

theorem BlockInv.update
    {blocks : Nat → MemBlock} (h : ∀ a, BlockInv data live a (blocks a))
    {a : Nat} {header : MemBlock} (hheader : BlockInv data live' a header)
    (hlive : ∀ b, b ≠ a → (b ∈ live' ↔ b ∈ live)) :
    ∀ b, BlockInv data live' b (Function.update blocks a header b) := by
  refine (Function.forall_update_iff blocks fun b x =>
    BlockInv data live' b x).mpr ⟨hheader, fun b hne => ?_⟩
  have hb := h b
  exact ⟨hb.pooled,
    fun k hall hnot => hb.unused k hall fun hin =>
      hnot ((hlive b hne).mpr hin),
    fun hin => hb.used ((hlive b hne).mp hin),
    fun hin => hb.outside ((hlive b hne).mp hin)⟩

/-- A pool keeps what its constructor and its `Init` gave it. -/
structure Kept (data : MemPool → Nat) (k : MemPool) (m : MemAlloc) :
    Prop where
  size : m.size = k.imp.size
  poolData : m.poolData = some (data k)

/-- A block of a pool, or one outside the memory of all pools. -/
def Placed (data : MemPool → Nat) (a room : Nat) : Prop :=
  (∃ k, a ∈ MemPool.blocks k data ∧ room = k.imp.size) ∨
    ∀ k, Apart a (s_MemBlockSize + room) (data k) (MemPool.poolSize k)

/-- A block of a pool does not overlap another block. -/
theorem Placed.apart
    (hapart : PoolsApart data) {k : MemPool} {a b room : Nat}
    (ha : a ∈ k.blocks data) (hb : Placed data b room) (hne : a ≠ b) :
    Apart a k.stride b (s_MemBlockSize + room) := by
  have hbounds := MemPool.blocks_bounds ha
  rcases hb with ⟨k', hb, rfl⟩ | hout
  · have hstride : s_MemBlockSize + k'.imp.size = k'.stride :=
      Nat.add_comm _ _
    rw [hstride]
    by_cases heq : k = k'
    · subst heq
      exact strided_apart ha hb hne
    · have hbounds' := MemPool.blocks_bounds hb
      exact (hapart k k' heq).mono hbounds.1 hbounds.2 hbounds'.1 hbounds'.2
  · exact (hout k).symm.mono hbounds.1 hbounds.2 (Nat.le_refl b)
      (Nat.le_refl _)

/-- Two regions with their headers do not overlap. -/
def BlocksApart (r r' : Region) : Prop :=
  Apart (r.pointer - s_MemBlockSize) (s_MemBlockSize + r.room)
    (r'.pointer - s_MemBlockSize) (s_MemBlockSize + r'.room)

instance : Std.Symm BlocksApart :=
  ⟨fun _ _ h => Apart.symm h⟩

/-- What `Alloc` returns, and what the assertions say. -/
def LargeEnough : AllocObservation → Prop
  | .allocated r => r.size ≤ r.room
  | .asserted holds => holds = true
  | .asked _ => True
  | .freed _ => True

/-- The block freed last is the first one of its pool. -/
def BackHome (data : MemPool → Nat) (s : MemManager)
    (tr : List AllocObservation) : Prop :=
  ∀ before k a, a ∈ MemPool.blocks k data →
    tr = before ++ [.freed (a + s_MemBlockSize)] →
    (s.alloc k).header = some a

/-- What every run preserves while no size is too large. -/
structure MemInv (data : MemPool → Nat) (s : MemManager)
    (tr : List AllocObservation) : Prop where
  szAlloc : ∀ n, n ≤ MemManager.s_max_mem_size →
    ∃ k, s.szAlloc n = some k ∧ n ≤ k.imp.size
  alloc : ∀ k, Kept data k (s.alloc k)
  freeList : ∀ k, FreeList (fun a => (s.blocks a).next) (s.alloc k).header
    (k.blocks data) (usedBlocks tr)
  blocks : ∀ a, BlockInv data (usedBlocks tr) a (s.blocks a)
  regions : ∀ r ∈ liveRegions tr, ∃ a,
    r.pointer = a + s_MemBlockSize ∧ Placed data a r.room
  apart : (liveRegions tr).Pairwise BlocksApart
  large : ∀ o ∈ tr, LargeEnough o
  home : BackHome data s tr

theorem memInv_init
    (hapart : PoolsApart data) (memory : Nat → MemBlock) :
    MemInv data (MemManager.new data memory).1 [] := by
  have hstart := new_started hapart memory
  have hall : ∀ k : MemPool, k ∈ [MemPool.m_mem1024, .m_mem512, .m_mem256,
      .m_mem128, .m_mem64, .m_mem32] := by
    intro k
    cases k <;> decide
  have hused : usedBlocks [] = ∅ := blocksOf_nil _
  refine ⟨fun n => new_szAlloc data memory, fun k => ?_, fun k => ?_,
    fun a => ?_, ?_, List.Pairwise.nil, ?_, ?_⟩
  · rw [hstart.started k (hall k)]
    exact ⟨rfl, rfl⟩
  · rw [hstart.started k (hall k), hused]
    exact FreeList.init (hstart.linked k (hall k))
  · rw [hused]
    refine ⟨fun k ha => ?_, fun k ha _ => ?_, fun hin => hin.elim,
      fun hin => hin.elim⟩
    · obtain ⟨hpool, halloc, -⟩ := hstart.headers k (hall k) a ha
      exact ⟨hpool, halloc⟩
    · exact (hstart.headers k (hall k) a ha).2.2
  · intro r hr
    cases hr
  · intro o ho
    cases ho
  · intro before k a _ hnil
    simp at hnil

theorem usedBlocks_allocated (tr : List AllocObservation)
    (a size room : Nat) :
    usedBlocks (tr ++ [.allocated ⟨a + s_MemBlockSize, size, room⟩]) =
      insert a (usedBlocks tr) :=
  blocksOf_allocated _ _ _ _ _

theorem usedBlocks_freed (tr : List AllocObservation) (a : Nat) :
    usedBlocks (tr ++ [.freed (a + s_MemBlockSize)]) =
      usedBlocks tr \ {a} :=
  blocksOf_freed _ _ _

theorem usedBlocks_asserted (tr : List AllocObservation) (holds : Bool) :
    usedBlocks (tr ++ [.asserted holds]) = usedBlocks tr := by
  rw [usedBlocks, liveRegions_asserted, usedBlocks]

theorem large_append
    {out : List AllocObservation} (h : ∀ o ∈ tr, LargeEnough o)
    (hout : ∀ o ∈ out, LargeEnough o) :
    ∀ o ∈ tr ++ out, LargeEnough o := by
  intro o ho
  rcases List.mem_append.mp ho with ho | ho
  · exact h o ho
  · exact hout o ho

/-- What changes no region changes nothing. -/
theorem MemInv.noted
    (h : MemInv data s tr) {o : AllocObservation}
    (hlive : liveRegions (tr ++ [o]) = liveRegions tr)
    (hlarge : LargeEnough o) (hnot : ∀ p, o ≠ .freed p) :
    MemInv data s (tr ++ [o]) := by
  have hused : usedBlocks (tr ++ [o]) = usedBlocks tr := by
    rw [usedBlocks, hlive, usedBlocks]
  refine ⟨h.szAlloc, h.alloc, ?_, ?_, ?_, ?_, ?_, ?_⟩
  · rw [hused]
    exact h.freeList
  · rw [hused]
    exact h.blocks
  · rw [hlive]
    exact h.regions
  · rw [hlive]
    exact h.apart
  · refine large_append h.large fun o' ho => ?_
    rw [List.mem_singleton.mp ho]
    exact hlarge
  · intro before k a _ heq
    exact absurd (List.cons.inj (List.append_inj' heq rfl).2).1 (hnot _)

theorem MemInv.asserted (h : MemInv data s tr) :
    MemInv data s (tr ++ [.asserted true]) :=
  h.noted (liveRegions_asserted tr true) rfl nofun

/-- A block is handed out. -/
theorem MemInv.allocated
    (h : MemInv data s tr) {a : Nat} {alloc : MemPool → MemAlloc}
    {header : MemBlock} {size room : Nat}
    (halloc : ∀ k, Kept data k (alloc k))
    (hfree : ∀ k, FreeList
      (fun b => (Function.update s.blocks a header b).next) (alloc k).header
      (k.blocks data) (insert a (usedBlocks tr)))
    (hheader : BlockInv data (insert a (usedBlocks tr)) a header)
    (hsize : size ≤ room) (hplaced : Placed data a room)
    (hapart : ∀ r ∈ liveRegions tr,
      BlocksApart ⟨a + s_MemBlockSize, size, room⟩ r) :
    MemInv data
      { s with alloc := alloc, blocks := Function.update s.blocks a header }
      (tr ++ [.allocated ⟨a + s_MemBlockSize, size, room⟩]) := by
  refine ⟨h.szAlloc, halloc, ?_, ?_, ?_, ?_, ?_, ?_⟩
  · rw [usedBlocks_allocated]
    exact hfree
  · rw [usedBlocks_allocated]
    exact BlockInv.update h.blocks hheader fun b => mem_insert_of_ne
  · intro r hr
    rw [liveRegions_append] at hr
    rcases List.mem_cons.mp hr with rfl | hr
    · exact ⟨a, rfl, hplaced⟩
    · exact h.regions r hr
  · rw [liveRegions_append]
    exact List.pairwise_cons.mpr ⟨hapart, h.apart⟩
  · refine large_append h.large fun o ho => ?_
    rw [List.mem_singleton.mp ho]
    exact hsize
  · intro before k b _ heq
    cases (List.append_inj' heq rfl).2

/-- A block is given back. -/
theorem MemInv.freed
    (h : MemInv data s tr) {a : Nat} {alloc : MemPool → MemAlloc}
    {header : MemBlock}
    (halloc : ∀ k, Kept data k (alloc k))
    (hfree : ∀ k, FreeList
      (fun b => (Function.update s.blocks a header b).next) (alloc k).header
      (k.blocks data) (usedBlocks tr \ {a}))
    (hheader : BlockInv data (usedBlocks tr \ {a}) a header)
    (hhome : ∀ k, a ∈ MemPool.blocks k data → (alloc k).header = some a) :
    MemInv data
      { s with alloc := alloc, blocks := Function.update s.blocks a header }
      (tr ++ [.freed (a + s_MemBlockSize)]) := by
  refine ⟨h.szAlloc, halloc, ?_, ?_, ?_, ?_, ?_, ?_⟩
  · rw [usedBlocks_freed]
    exact hfree
  · rw [usedBlocks_freed]
    exact BlockInv.update h.blocks hheader fun b => mem_remove_of_ne
  · intro r hr
    rw [liveRegions_append] at hr
    exact h.regions r (List.mem_of_mem_filter hr)
  · rw [liveRegions_append]
    exact h.apart.filter _
  · refine large_append h.large fun o ho => ?_
    rw [List.mem_singleton.mp ho]
    exact trivial
  · intro before k b hb heq
    have hlast := (List.append_inj' heq rfl).2
    simp only [List.cons.injEq, AllocObservation.freed.injEq, and_true]
      at hlast
    have hab : a = b := by
      omega
    subst hab
    exact hhome k hb

/-- The new header of a block that is handed out. -/
theorem BlockInv.handedOut
    {a : Nat} {header : MemBlock} (hone : header.ref = 1)
    (hpooled : ∀ k, a ∈ MemPool.blocks k data →
      header.inPool = true ∧ header.alloc = some k)
    (hout : (∀ k, a ∉ MemPool.blocks k data) → header.inPool = false) :
    BlockInv data (insert a live) a header :=
  ⟨hpooled, fun _ _ hnot => absurd (Set.mem_insert a live) hnot,
    fun _ => hone, fun _ => hout⟩

/-- The new header of a block that is given back. -/
theorem BlockInv.givenBack
    {a : Nat} {header : MemBlock} (hzero : header.ref = 0)
    (hpooled : ∀ k, a ∈ MemPool.blocks k data →
      header.inPool = true ∧ header.alloc = some k) :
    BlockInv data (live \ {a}) a header :=
  ⟨hpooled, fun _ _ _ => hzero, fun hin => absurd rfl hin.2,
    fun hin => absurd rfl hin.2⟩

/-- The pool of a block changes its list, the others keep theirs. -/
theorem MemInv.kept
    (h : MemInv data s tr) (k : MemPool) (header : Option Nat) :
    ∀ k', Kept data k' (Function.update s.alloc k
      { s.alloc k with header := header } k') :=
  (Function.forall_update_iff s.alloc fun k' m => Kept data k' m).mpr
    ⟨⟨(h.alloc k).size, (h.alloc k).poolData⟩, fun k' _ => h.alloc k'⟩

/-- A block that a pool has left. -/
theorem MemInv.pop
    (h : MemInv data s tr) (hpools : PoolsApart data) {k : MemPool}
    {size : Nat} (hsize : size ≤ k.imp.size) {ret : Nat}
    (hret : (s.alloc k).header = some ret) :
    (s.blocks ret).ref = 0 ∧
      MemInv data
        { s with
          alloc := Function.update s.alloc k
            { s.alloc k with header := (s.blocks ret).next }
          blocks := Function.update s.blocks ret
            { s.blocks ret with ref := (s.blocks ret).ref + 1 } }
        (tr ++ [.allocated
          ⟨ret + s_MemBlockSize, size, (s.alloc k).size⟩]) := by
  have hfree := h.freeList k
  rw [hret] at hfree
  obtain ⟨hall, hnew, -⟩ := hfree.pop
  have hheader := h.blocks ret
  have hzero : (s.blocks ret).ref = 0 := hheader.unused k hall hnew
  have hplaced : Placed data ret k.imp.size := Or.inl ⟨k, hall, rfl⟩
  refine ⟨hzero, ?_⟩
  rw [(h.alloc k).size]
  refine h.allocated (h.kept k _) (fun k' => ?_) ?_ hsize hplaced
    (fun r hr => ?_)
  · by_cases heq : k' = k
    · subst heq
      rw [Function.update_self]
      exact hfree.pop_update rfl
    · rw [Function.update_of_ne heq]
      have hother : ret ∉ k'.blocks data := fun hin =>
        heq (hpools.unique hin hall)
      exact (h.freeList k').frame_update hother fun b => mem_insert_of_ne
  · refine BlockInv.handedOut ?_ hheader.pooled fun hnot =>
      absurd hall (hnot k)
    show (s.blocks ret).ref + 1 = 1
    rw [hzero]
    rfl
  · obtain ⟨a, ha, hplaced'⟩ := h.regions r hr
    have hne : ret ≠ a := by
      rintro rfl
      exact hnew ⟨r, hr, ha⟩
    have hblocks := hplaced'.apart hpools hall hne
    have hstride : k.stride = s_MemBlockSize + k.imp.size :=
      Nat.add_comm _ _
    rw [hstride] at hblocks
    simp only [BlocksApart, ha, Nat.add_sub_cancel]
    exact hblocks

theorem outsideBytes_toNat (size : UInt64) :
    (MemManager.outsideBytes size).toNat =
      (size.toNat + s_MemBlockSize) % 18446744073709551616 :=
  UInt64.toNat_add size (UInt64.ofNat s_MemBlockSize)

/-- Adding the size of the header does not leave the range of `size_t`. -/
def SizeFits : MemEvent → Prop
  | .alloc size _ _ => size.toNat + s_MemBlockSize < 18446744073709551616
  | .free _ => True

/-- A block from `malloc`. -/
theorem MemInv.outside
    (h : MemInv data s tr) {size : UInt64} {block : Nat}
    (hfits : size.toNat + s_MemBlockSize < 18446744073709551616)
    (hpools : ∀ k : MemPool,
      Apart block (MemManager.outsideBytes size).toNat (data k) k.poolSize)
    (hlive : ∀ r ∈ liveRegions tr,
      Apart block (MemManager.outsideBytes size).toNat
        (r.pointer - s_MemBlockSize) (s_MemBlockSize + r.room)) :
    ∃ s', (s.outside size block).1 = some s' ∧
      MemInv data s' (tr ++ (s.outside size block).2) := by
  have hbytes : (MemManager.outsideBytes size).toNat =
      s_MemBlockSize + size.toNat := by
    rw [outsideBytes_toNat, Nat.mod_eq_of_lt hfits, Nat.add_comm]
  have hroom : s_MemBlockSize + size.toNat - s_MemBlockSize = size.toNat :=
    Nat.add_sub_cancel_left _ _
  have henough : ¬ s_MemBlockSize + size.toNat < s_MemBlockSize := by
    omega
  rw [hbytes] at hpools hlive
  have hother : ∀ k : MemPool, block ∉ k.blocks data := fun k =>
    MemPool.not_mem_blocks (hpools k) (by rw [s_MemBlockSize]; omega)
  let ret : MemBlock :=
    { inPool := false, id := -1, ref := 1, alloc := none, next := none }
  have houtside : s.outside size block =
      (some { s with
          alloc := s.alloc, blocks := Function.update s.blocks block ret },
        [.allocated ⟨block + s_MemBlockSize, size.toNat, size.toNat⟩]) := by
    simp only [MemManager.outside, hbytes, hroom, if_neg henough]
    rfl
  rw [houtside]
  refine ⟨_, rfl, h.allocated h.alloc (fun k => ?_) ?_ (Nat.le_refl _)
    (Or.inr hpools) (fun r hr => ?_)⟩
  · exact (h.freeList k).frame_update (hother k) fun b => mem_insert_of_ne
  · exact BlockInv.handedOut rfl (fun k hin => absurd hin (hother k))
      fun _ => rfl
  · simp only [BlocksApart, Nat.add_sub_cancel]
    exact hlive r hr

/-- A size that is too large. -/
theorem MemManager.outside_fault
    (s : MemManager) {size : UInt64} (block : Nat)
    (hfits : ¬ size.toNat + s_MemBlockSize < 18446744073709551616) :
    (s.outside size block).1 = none := by
  have hlt := size.toNat_lt
  have hbytes : (MemManager.outsideBytes size).toNat < s_MemBlockSize := by
    rw [outsideBytes_toNat]
    omega
  simp only [MemManager.outside, if_pos hbytes]

theorem MemInv.started (h : MemInv data s tr) (k : MemPool) :
    ¬ (s.alloc k).poolData = none := by
  rw [(h.alloc k).poolData]
  exact Option.some_ne_none _

/-- `Init` is not called again. -/
theorem MemInv.poolAlloc_none
    (h : MemInv data s tr) {k : MemPool} (hheader : (s.alloc k).header = none)
    (size : UInt64) (a block : Nat) :
    s.poolAlloc k size a block = s.outside size block := by
  simp only [MemManager.poolAlloc, if_neg (h.started k), hheader]
  rfl

theorem MemInv.poolAlloc_some
    (h : MemInv data s tr) {k : MemPool} {ret : Nat}
    (hheader : (s.alloc k).header = some ret)
    (hzero : (s.blocks ret).ref = 0) (size : UInt64) (a block : Nat) :
    s.poolAlloc k size a block =
      (some { s with
          alloc := Function.update s.alloc k
            { s.alloc k with header := (s.blocks ret).next }
          blocks := Function.update s.blocks ret
            { s.blocks ret with ref := (s.blocks ret).ref + 1 } },
        [.asserted true, .allocated
          ⟨ret + s_MemBlockSize, size.toNat, (s.alloc k).size⟩]) := by
  have hassert : decide (0 = (s.blocks ret).ref) = true :=
    decide_eq_true hzero.symm
  simp only [MemManager.poolAlloc, if_neg (h.started k), hheader, hassert]
  rfl

theorem MemInv.allocate
    (h : MemInv data s tr) (hpools : PoolsApart data) {size : UInt64}
    {a block : Nat}
    (hfits : size.toNat + s_MemBlockSize < 18446744073709551616)
    (hproper : MemManager.Proper data (some s) tr (.alloc size a block)) :
    ∃ s', (s.allocate size a block).1 = some s' ∧
      MemInv data s' (tr ++ (s.allocate size a block).2) := by
  by_cases hsmall : size.toNat ≤ MemManager.s_max_mem_size
  · obtain ⟨k, hk, hsize⟩ := h.szAlloc _ hsmall
    have hallocate : s.allocate size a block =
        s.poolAlloc k size a block := by
      simp only [MemManager.allocate, if_pos hsmall, hk]
    rw [hallocate]
    cases hheader : (s.alloc k).header with
    | none =>
        obtain ⟨harrays, hlive⟩ :=
          hproper s rfl (Or.inr ⟨k, hk, hheader⟩)
        rw [h.poolAlloc_none hheader]
        exact h.outside hfits harrays hlive
    | some ret =>
        obtain ⟨hzero, hinv⟩ := h.asserted.pop hpools hsize hheader
        rw [h.poolAlloc_some hheader hzero, List.append_cons]
        exact ⟨_, rfl, hinv⟩
  · obtain ⟨harrays, hlive⟩ := hproper s rfl (Or.inl (by omega))
    have hallocate : s.allocate size a block = s.outside size block := by
      simp only [MemManager.allocate, if_neg hsmall]
    rw [hallocate]
    exact h.outside hfits harrays hlive

theorem MemManager.free_pooled
    {k : MemPool} {a : Nat} (hpool : (s.blocks a).inPool = true)
    (halloc : (s.blocks a).alloc = some k) (hone : (s.blocks a).ref = 1) :
    s.free (a + s_MemBlockSize) =
      (some { s with
          alloc := Function.update s.alloc k
            { s.alloc k with header := some a }
          blocks := Function.update s.blocks a
            { s.blocks a with
              ref := (s.blocks a).ref - 1, next := (s.alloc k).header } },
        [.asserted true]) := by
  have hassert : decide ((s.blocks a).ref > 0) = true := by
    rw [hone]
    rfl
  have hleft : ¬ (s.blocks a).ref - 1 ≠ 0 := by
    rw [hone]
    exact not_not_intro rfl
  have hfree : s.poolFree k (a + s_MemBlockSize) =
      ({ s with
          alloc := Function.update s.alloc k
            { s.alloc k with header := some a }
          blocks := Function.update s.blocks a
            { s.blocks a with
              ref := (s.blocks a).ref - 1, next := (s.alloc k).header } },
        [.asserted true]) := by
    simp only [MemManager.poolFree, Nat.add_sub_cancel, hassert]
    rw [if_pos hpool, if_neg hleft]
  simp only [MemManager.free, Nat.add_sub_cancel]
  rw [if_pos hpool]
  simp only [halloc, hfree]

theorem MemManager.free_outside
    {a : Nat} (hpool : (s.blocks a).inPool = false) :
    s.free (a + s_MemBlockSize) =
      (some { s with
          alloc := s.alloc
          blocks := Function.update s.blocks a
            { s.blocks a with ref := (s.blocks a).ref - 1 } }, []) := by
  have hout : ¬ (s.blocks a).inPool = true := by
    rw [hpool]
    exact Bool.false_ne_true
  simp only [MemManager.free, Nat.add_sub_cancel]
  rw [if_neg hout]

theorem MemInv.free
    (h : MemInv data s tr) (hpools : PoolsApart data) {p : Nat}
    (hproper : MemManager.Proper data (some s) tr (.free p)) :
    ∃ s', (s.free p).1 = some s' ∧
      MemInv data s' (tr ++ ((s.free p).2 ++ [.freed p])) := by
  obtain ⟨r, hr, rfl⟩ := hproper
  obtain ⟨a, ha, -⟩ := h.regions r hr
  have hlive : a ∈ usedBlocks tr := ⟨r, hr, ha⟩
  have hheader := h.blocks a
  have hone : (s.blocks a).ref = 1 := hheader.used hlive
  have hzero : (s.blocks a).ref - 1 = 0 := by
    rw [hone]
    rfl
  rw [ha]
  by_cases hpooled : ∃ k : MemPool, a ∈ k.blocks data
  · obtain ⟨k, hk⟩ := hpooled
    obtain ⟨hpool, halloc⟩ := hheader.pooled k hk
    rw [MemManager.free_pooled hpool halloc hone, ← List.append_assoc]
    refine ⟨_, rfl, h.asserted.freed (h.kept k _) (fun k' => ?_) ?_
      fun k' hk' => ?_⟩
    · rw [usedBlocks_asserted]
      by_cases heq : k' = k
      · subst heq
        rw [Function.update_self]
        exact (h.freeList k').push_update hk hlive rfl
      · rw [Function.update_of_ne heq]
        have hother : a ∉ k'.blocks data := fun hin =>
          heq (hpools.unique hin hk)
        exact (h.freeList k').frame_update hother fun b => mem_remove_of_ne
    · exact BlockInv.givenBack hzero hheader.pooled
    · rw [hpools.unique hk' hk, Function.update_self]
  · have hother : ∀ k : MemPool, a ∉ k.blocks data := fun k hk =>
      hpooled ⟨k, hk⟩
    rw [MemManager.free_outside (hheader.outside hlive hother),
      List.nil_append]
    refine ⟨_, rfl, h.freed h.alloc (fun k => ?_) ?_ fun k hk =>
      absurd hk (hother k)⟩
    · exact (h.freeList k).frame_update (hother k) fun b =>
        mem_remove_of_ne
    · exact BlockInv.givenBack hzero hheader.pooled

theorem MemInv.step
    (h : MemInv data s tr) (hpools : PoolsApart data) {e : MemEvent}
    (hfits : SizeFits e) (hproper : MemManager.Proper data (some s) tr e) :
    ∃ s', (MemManager.step (some s) e).1 = some s' ∧
      MemInv data s'
        (tr ++ ((MemManager.step (some s) e).2 ++ MemManager.call e)) := by
  cases e with
  | alloc size a block =>
      obtain ⟨s', hs', hinv⟩ := h.allocate hpools hfits hproper
      refine ⟨s', hs', ?_⟩
      rw [← List.append_assoc]
      exact hinv.noted (liveRegions_asked _ _) trivial nofun
  | free p =>
      exact h.free hpools hproper

theorem MemManager.step_fault
    (s : MemManager) {e : MemEvent} (hfits : ¬ SizeFits e) :
    (MemManager.step (some s) e).1 = none := by
  cases e with
  | alloc size a block =>
      have hfault := s.outside_fault block hfits
      have hlarge : ¬ size.toNat ≤ MemManager.s_max_mem_size := by
        rw [SizeFits, s_MemBlockSize] at hfits
        rw [MemManager.s_max_mem_size]
        omega
      simp only [MemManager.step, MemManager.allocate, if_neg hlarge]
      exact hfault
  | free p =>
      exact absurd trivial hfits

/-- `malloc` answers for a block that is not of a pool. -/
theorem MemManager.outside_answered
    (s : MemManager) (size : UInt64) (block : Nat) :
    Answered ((s.outside size block).2 ++ [.asked size.toNat]) := by
  rw [outside]
  dsimp only
  split_ifs
  · rfl
  · rfl

theorem MemManager.poolAlloc_answered
    (s : MemManager) (k : MemPool) (size : UInt64) (a block : Nat) :
    Answered ((s.poolAlloc k size a block).2 ++ [.asked size.toNat]) := by
  rw [poolAlloc]
  dsimp only
  -- what `Init` asserts comes first, if the pool was not started
  have hfirst : Answered
      (if (s.alloc k).poolData = none then s.init k a else (s, [])).2 := by
    split_ifs
    · rfl
    · rfl
  generalize (if (s.alloc k).poolData = none then s.init k a else (s, [])) =
    first at hfirst
  split
  · rw [List.append_assoc]
    exact hfirst.append (first.1.outside_answered size block)
  · rw [List.append_assoc]
    exact hfirst.append rfl

/-- `Free` hands nothing out. -/
theorem MemManager.poolFree_answered
    (s : MemManager) (k : MemPool) (p : Nat) :
    Answered ((s.poolFree k p).2 ++ [.freed p]) := by
  rw [poolFree]
  dsimp only
  split_ifs
  · rfl
  · rfl
  · rfl

/-- Each call of `Alloc` that does not fault is answered. -/
theorem MemManager.step_answered
    {e : MemEvent} (h : (step (some s) e).1 ≠ none) :
    Answered ((step (some s) e).2 ++ call e) := by
  cases e with
  | alloc size a block =>
      rw [step, allocate] at h ⊢
      by_cases hsmall : size.toNat ≤ s_max_mem_size
      · rw [if_pos hsmall] at h ⊢
        cases hk : s.szAlloc size.toNat with
        | none =>
            rw [hk] at h
            exact absurd rfl h
        | some k =>
            exact s.poolAlloc_answered k size a block
      · rw [if_neg hsmall]
        exact s.outside_answered size block
  | free p =>
      rw [step, free]
      dsimp only
      split
      · cases (s.blocks (p - s_MemBlockSize)).alloc with
        | none =>
            rfl
        | some k =>
            exact s.poolFree_answered k p
      · rfl

end Invariant

section Runs

variable {data : MemPool → Nat} {memory : Nat → MemBlock}
variable {events : List MemEvent}

/-- A run of a new `MemManager`. -/
def MemManager.run (data : MemPool → Nat) (memory : Nat → MemBlock)
    (events : List MemEvent) : Option MemManager × List AllocObservation :=
  Machine.run (Machine.noting MemManager.step MemManager.call)
    (some (MemManager.new data memory).1) events

/-- Every call of a run is proper. -/
def ProperRun (data : MemPool → Nat) (memory : Nat → MemBlock)
    (events : List MemEvent) : Prop :=
  Machine.Along (Machine.noting MemManager.step MemManager.call)
    (MemManager.Proper data) (some (MemManager.new data memory).1) events

theorem run_memInv
    (hpools : PoolsApart data) (h : ProperRun data memory events)
    (hfits : ∀ e ∈ events, SizeFits e) :
    ∃ s, (MemManager.run data memory events).1 = some s ∧
      MemInv data s (MemManager.run data memory events).2 := by
  induction events using List.reverseRecOn with
  | nil =>
      exact ⟨_, rfl, memInv_init hpools memory⟩
  | append_singleton events e ih =>
      obtain ⟨s, hrun, hinv⟩ := ih h.of_append fun e' he' =>
        hfits e' (List.mem_append_left _ he')
      have hproper := h.last
      rw [MemManager.run] at hrun hinv
      rw [hrun] at hproper
      rw [MemManager.run, Machine.run_concat, hrun]
      exact hinv.step hpools
        (hfits e (List.mem_append_right _ List.mem_cons_self)) hproper

theorem run_fault
    (hpools : PoolsApart data) (h : ProperRun data memory events)
    (hfits : ¬ ∀ e ∈ events, SizeFits e) :
    (MemManager.run data memory events).1 = none := by
  induction events using List.reverseRecOn with
  | nil =>
      exact absurd (fun e he => absurd he List.not_mem_nil) hfits
  | append_singleton events e ih =>
      rw [MemManager.run, Machine.run_concat]
      by_cases hold : ∀ e' ∈ events, SizeFits e'
      · obtain ⟨s, hrun, -⟩ := run_memInv hpools h.of_append hold
        have hlast : ¬ SizeFits e := by
          intro he
          refine hfits fun e' he' => ?_
          rcases List.mem_append.mp he' with hin | hin
          · exact hold e' hin
          · rw [List.mem_singleton.mp hin]
            exact he
        rw [MemManager.run] at hrun
        rw [hrun]
        exact s.step_fault hlast
      · have hnone := ih h.of_append hold
        rw [MemManager.run] at hnone
        rw [hnone]
        rfl

/-- Along a run that does not fault each call of `Alloc` is answered. -/
theorem run_memAnswered
    {s : MemManager} (h : (MemManager.run data memory events).1 = some s) :
    Answered (MemManager.run data memory events).2 := by
  induction events using List.reverseRecOn generalizing s with
  | nil =>
      exact answered_nil
  | append_singleton events e ih =>
      rw [MemManager.run, Machine.run_concat] at h ⊢
      cases hrun : (MemManager.run data memory events).1 with
      | none =>
          rw [MemManager.run] at hrun
          rw [hrun] at h
          cases h
      | some t =>
          have hold := ih hrun
          rw [MemManager.run] at hrun hold
          rw [hrun] at h ⊢
          refine hold.append (MemManager.step_answered fun hnone => ?_)
          rw [Machine.noting, hnone] at h
          cases h

end Runs

/--
Every free list has no cycle and no duplicate and holds the blocks of its pool
that are not in use, the block freed last being back in front; the regions in use
are as large as was asked for and overlap neither each other nor a header.  Each
call of `Alloc` returned one.
-/
structure MemIntegrity (data : MemPool → Nat) (st : Option MemManager)
    (tr : List AllocObservation) : Prop where
  lists : ∃ s, st = some s ∧ BackHome data s tr ∧
    ∀ k : MemPool, ∃ free,
      Linked (fun a => (s.blocks a).next) (s.alloc k).header free ∧
        free.Nodup ∧
        ∀ a, a ∈ free ↔ a ∈ k.blocks data ∧ a ∉ usedBlocks tr
  regions : (liveRegions tr).Pairwise
    (fun r r' => Apart r.pointer r.room r'.pointer r'.room)
  headers : ∀ r ∈ liveRegions tr, ∀ a,
    (∃ k : MemPool, a ∈ k.blocks data) ∨ a ∈ usedBlocks tr →
      Apart r.pointer r.room a s_MemBlockSize
  large : ∀ o ∈ tr, LargeEnough o
  answered : Answered tr

theorem MemInv.integrity
    {data : MemPool → Nat} {s : MemManager} {tr : List AllocObservation}
    (h : MemInv data s tr) (hanswered : Answered tr)
    (hpools : PoolsApart data) :
    MemIntegrity data (some s) tr := by
  have hfits : ∀ r ∈ liveRegions tr, s_MemBlockSize ≤ r.pointer := by
    intro r hr
    obtain ⟨a, ha, -⟩ := h.regions r hr
    omega
  refine ⟨⟨s, rfl, h.home, fun k => ?_⟩, ?_, fun r hr a ha => ?_, h.large,
    hanswered⟩
  · obtain ⟨free, hlinked, hmem⟩ := h.freeList k
    exact ⟨free, hlinked, hlinked.nodup, hmem⟩
  · refine h.apart.imp_of_mem fun hr hr' hblocks => ?_
    have hr := hfits _ hr
    have hr' := hfits _ hr'
    exact hblocks.mono (by omega) (by omega) (by omega) (by omega)
  · obtain ⟨b, hb, hplaced⟩ := h.regions r hr
    by_cases heq : a = b
    · subst heq
      exact Or.inr (by omega)
    · have hblocks : Apart b (s_MemBlockSize + r.room) a s_MemBlockSize := by
        rcases ha with ⟨k, hk⟩ | ⟨r', hr', ha⟩
        · have hstride : s_MemBlockSize ≤ k.stride := Nat.le_add_left _ _
          exact (hplaced.apart hpools hk heq).symm.mono (Nat.le_refl b)
            (Nat.le_refl _) (Nat.le_refl a) (by omega)
        · have hne : r ≠ r' := by
            rintro rfl
            omega
          have hpair : BlocksApart r r' :=
            h.apart.forall hr hr' hne
          exact hpair.mono (by omega) (by omega) (by omega) (by omega)
      exact hblocks.mono (by omega) (by omega) (Nat.le_refl a)
        (Nat.le_refl _)

/--
A run of the allocator is as it should be exactly when the header's size can be
added to every size that is asked for.
-/
theorem memManager_integrity_iff
    {data : MemPool → Nat} {memory : Nat → MemBlock}
    {events : List MemEvent} (hpools : PoolsApart data)
    (h : ProperRun data memory events) :
    MemIntegrity data (MemManager.run data memory events).1
        (MemManager.run data memory events).2 ↔
      ∀ e ∈ events, SizeFits e := by
  constructor
  · intro hintegrity
    by_contra hfits
    obtain ⟨s, hs, -⟩ := hintegrity.lists
    rw [run_fault hpools h hfits] at hs
    cases hs
  · intro hfits
    obtain ⟨s, hrun, hinv⟩ := run_memInv hpools h hfits
    have hanswered := run_memAnswered hrun
    rw [hrun]
    exact hinv.integrity hanswered hpools

/-- Addresses for the pools, with room between them. -/
def spread : MemPool → Nat
  | .m_mem32 => 0
  | .m_mem64 => 1000000000
  | .m_mem128 => 2000000000
  | .m_mem256 => 3000000000
  | .m_mem512 => 4000000000
  | .m_mem1024 => 5000000000

theorem spread_le (k : MemPool) : spread k + k.poolSize ≤ 6000000000 := by
  cases k <;> decide

theorem poolsApart_spread : PoolsApart spread := by
  intro k k' hne
  cases k <;> cases k' <;> first | exact absurd rfl hne | decide

/-- One block from `malloc`, behind all pools. -/
theorem properRun_spread (size : UInt64) :
    ProperRun spread (fun _ => {}) [.alloc size 0 6000000000] := by
  refine (Machine.Along.nil _ _).concat fun s _ _ => ⟨fun k => ?_, ?_⟩
  · exact Or.inr (spread_le k)
  · intro r hr
    cases hr

/-- The first block of the smallest pool. -/
theorem step_pooled (memory : Nat → MemBlock) :
    ∃ s, MemManager.step (some (MemManager.new spread memory).1)
        (.alloc 8 0 6000000000) =
      (some s, [.asserted true, .allocated ⟨32, 8, 32⟩]) := by
  have hstart := new_started poolsApart_spread memory
  have hinv := memInv_init poolsApart_spread memory
  have hk : (MemManager.new spread memory).1.szAlloc (8 : UInt64).toNat =
      some .m_mem32 := by
    simp only [MemManager.new, MemManager.classes, List.foldl_cons,
      List.foldl_nil, initSizes_szAlloc]
    rfl
  have hheader : ((MemManager.new spread memory).1.alloc .m_mem32).header =
      some 0 := by
    rw [hstart.started _ (by decide)]
    rfl
  have hzero : ((MemManager.new spread memory).1.blocks 0).ref = 0 :=
    (hstart.headers .m_mem32 (by decide) 0
      (mem_strided.mpr ⟨0, by decide, rfl⟩)).2.2
  have hsmall : (8 : UInt64).toNat ≤ MemManager.s_max_mem_size := by
    decide
  rw [MemManager.step, MemManager.allocate, if_pos hsmall, hk]
  dsimp only
  rw [hinv.poolAlloc_some hheader hzero, (hinv.alloc .m_mem32).size]
  exact ⟨_, rfl⟩

/-- A block from `malloc`. -/
theorem step_oversize (s : MemManager) :
    ∃ s', MemManager.step (some s) (.alloc 2000 0 6000000000) =
      (some s', [.allocated ⟨6000000032, 2000, 2000⟩]) := by
  exact ⟨_, rfl⟩

/-- A block of a pool and one from `malloc`, and the first one given back. -/
def mixed : List MemEvent :=
  [.alloc 8 0 6000000000, .alloc 2000 0 6000000000, .free 32]

theorem properRun_mixed : ProperRun spread (fun _ => {}) mixed := by
  obtain ⟨s, hpooled⟩ := step_pooled fun _ => {}
  obtain ⟨s', hoversize⟩ := step_oversize s
  refine Machine.Along.cons ?_ (Machine.Along.cons ?_
    (Machine.Along.cons ?_ (Machine.Along.nil _ _)))
  · refine fun _ _ _ => ⟨fun k => Or.inr (spread_le k), ?_⟩
    intro r hr
    cases hr
  · refine fun _ _ _ => ⟨fun k => Or.inr (spread_le k), ?_⟩
    rw [Machine.noting, hpooled]
    intro r hr
    rw [List.mem_singleton.mp hr]
    exact Or.inr (by decide)
  · simp only [Machine.noting, hpooled, hoversize]
    exact ⟨⟨32, 8, 32⟩, List.mem_cons_of_mem _ List.mem_cons_self, rfl⟩

/-- After these calls all is as it should be. -/
theorem memManager_integrity_mixed :
    MemIntegrity spread (MemManager.run spread (fun _ => {}) mixed).1
      (MemManager.run spread (fun _ => {}) mixed).2 := by
  apply (memManager_integrity_iff poolsApart_spread properRun_mixed).mpr
  simp only [mixed, SizeFits, List.forall_mem_cons, List.not_mem_nil,
    false_imp_iff, implies_true, and_true]
  decide

/-- The largest size makes `malloc` return a block of 31 bytes. -/
theorem memManager_not_integrity :
    ¬ ∀ (data : MemPool → Nat) (memory : Nat → MemBlock)
        (events : List MemEvent),
        PoolsApart data → ProperRun data memory events →
          MemIntegrity data (MemManager.run data memory events).1
            (MemManager.run data memory events).2 := by
  intro hall
  have hintegrity := hall spread (fun _ => {})
    [.alloc 18446744073709551615 0 6000000000] poolsApart_spread
    (properRun_spread 18446744073709551615)
  obtain ⟨s, hs, -⟩ := hintegrity.lists
  have hfits :
      ¬ SizeFits (.alloc 18446744073709551615 0 6000000000) := by
    rw [SizeFits]
    decide
  have hnone := (MemManager.new spread (fun _ => {})).1.step_fault hfits
  rw [MemManager.run, Machine.run_cons, Machine.run_nil, Machine.noting,
    hnone] at hs
  cases hs

end Pools
end NetEngine
