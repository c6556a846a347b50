import NetEngine.Lib.FreeList
import NetEngine.Lib.Machine
import NetEngine.Lib.Regions

/-!
# MemManager

The allocator of mem_manager.h and mem_manager.cpp: six pools of blocks of one
size each, a table that gives the pool for every size up to `s_max_mem_size`,
and `malloc` for larger sizes and for pools that have no block left.  `Free`
finds the pool again in the header in front of the region.

A pool's blocks lie one behind the other in the memory that its `Init` asks
for.  Headers are read and written by the address of their block.  The trace of
a run notes the calls besides what `Alloc` returned and what was asserted.
-/

namespace NetEngine
namespace Pools

/-- The six members of `MemManager` that are pools. -/
inductive MemPool where
  | m_mem32
  | m_mem64
  | m_mem128
  | m_mem256
  | m_mem512
  | m_mem1024
deriving DecidableEq

/-- Header in front of each region. -/
structure MemBlock where
  id : Int32 := 0
  ref : Int32 := 0
  alloc : Option MemPool := none
  next : Option Nat := none
  inPool : Bool := false

/-- `s_MemBlockSize`, which is `sizeof(MemBlock)`. -/
def s_MemBlockSize : Nat := 32

structure MemAlloc where
  size : Nat := 0
  blockCount : Nat := 0
  poolData : Option Nat := none
  header : Option Nat := none

/-- `MemAllocImp<size, blockCount>`: the size is rounded up to pointers. -/
def memAllocImp (size blockCount : Nat) : MemAlloc :=
  let n := 8
  { size := size / n * n + (if size % n ≠ 0 then n else 0)
    blockCount := blockCount }

/-- A pool as its constructor leaves it. -/
def MemPool.imp : MemPool → MemAlloc
  | .m_mem32 => memAllocImp 32 3000000
  | .m_mem64 => memAllocImp 64 3000000
  | .m_mem128 => memAllocImp 128 3000000
  | .m_mem256 => memAllocImp 256 100000
  | .m_mem512 => memAllocImp 512 100000
  | .m_mem1024 => memAllocImp 1024 100000

structure MemManager where
  alloc : MemPool → MemAlloc
  /-- The table of pools by size; nothing in it before the constructor. -/
  szAlloc : Nat → Option MemPool
  blocks : Nat → MemBlock

inductive MemEvent where
  /-- `Alloc(size)`; `malloc` would return `data` to `Init`, and `block` for a
  block that is not of a pool. -/
  | alloc (size : UInt64) (data block : Nat)
  | free (p : Nat)

namespace MemManager

def s_max_mem_size : Nat := 1024

/-- A block as `Init` writes it. -/
def newBlock (k : MemPool) (i : Nat) : MemBlock :=
  { inPool := true, id := Int32.ofNat i, ref := 0, alloc := some k,
    next := none }

def linkBlock (header : MemBlock) (next : Nat) : MemBlock :=
  { header with next := some next }

/-- `MemAlloc::Init`, given the memory of the pool. -/
def init (s : MemManager) (k : MemPool) (data : Nat) :
    MemManager × List AllocObservation :=
  let m := s.alloc k
  ({ s with
      alloc := Function.update s.alloc k
        { m with poolData := some data, header := some data }
      blocks := chainBlocks (newBlock k) linkBlock
        (blockAt data (m.size + s_MemBlockSize)) m.blockCount s.blocks },
    [.asserted (m.poolData = none)])

/-- `MemManager::Init`. -/
def initSizes (s : MemManager) (bgn last : Nat) (mem : MemPool)
    (data : Nat) : MemManager × List AllocObservation :=
  let r := s.init mem data
  let szAlloc := (List.range' bgn (last + 1 - bgn)).foldl
    (fun t i => Function.update t i (some mem)) r.1.szAlloc
  ({ r.1 with szAlloc := szAlloc }, r.2)

/-- Calls of `Init` in the constructor. -/
def classes : List (Nat × Nat × MemPool) :=
  [(0, 32, .m_mem32), (33, 64, .m_mem64), (65, 128, .m_mem128),
    (129, 256, .m_mem256), (257, 512, .m_mem512), (513, 1024, .m_mem1024)]

/-- The constructor, given the memory of each pool and what was in memory. -/
def new (data : MemPool → Nat) (memory : Nat → MemBlock) :
    MemManager × List AllocObservation :=
  classes.foldl
    (fun r c =>
      let r' := r.1.initSizes c.1 c.2.1 c.2.2 (data c.2.2)
      (r'.1, r.2 ++ r'.2))
    ({ alloc := MemPool.imp, szAlloc := fun _ => none, blocks := memory }, [])

/-- What is asked of `malloc` for a block that is not of a pool. -/
def outsideBytes (size : UInt64) : UInt64 :=
  size + UInt64.ofNat s_MemBlockSize

/--
A block that is not of a pool; nothing when the returned pointer lies behind the
memory that was asked for.
-/
def outside (s : MemManager) (size : UInt64) (block : Nat) :
    Option MemManager × List AllocObservation :=
  let bytes := (outsideBytes size).toNat
  let out : List AllocObservation :=
    [.allocated ⟨block + s_MemBlockSize, size.toNat, bytes - s_MemBlockSize⟩]
  if bytes < s_MemBlockSize then (none, out)
  else
    let ret : MemBlock :=
      { inPool := false, id := -1, ref := 1, alloc := none, next := none }
    (some { s with blocks := Function.update s.blocks block ret }, out)

/-- `MemAlloc::Alloc`. -/
def poolAlloc (s : MemManager) (k : MemPool) (size : UInt64)
    (data block : Nat) : Option MemManager × List AllocObservation :=
  let first := if (s.alloc k).poolData = none then s.init k data else (s, [])
  let s' := first.1
  let m := s'.alloc k
  match m.header with
  | none =>
      let r := s'.outside size block
      (r.1, first.2 ++ r.2)
  | some ret =>
      let header := s'.blocks ret
      let used := { header with ref := header.ref + 1 }
      (some { s' with
          alloc := Function.update s'.alloc k { m with header := header.next }
          blocks := Function.update s'.blocks ret used },
        first.2 ++ [.asserted (0 = header.ref),
          .allocated ⟨ret + s_MemBlockSize, size.toNat, m.size⟩])

/-- `MemAlloc::Free`. -/
def poolFree (s : MemManager) (k : MemPool) (p : Nat) :
    MemManager × List AllocObservation :=
  let block := p - s_MemBlockSize
  let header := s.blocks block
  let ref := header.ref - 1
  let left := { header with ref := ref }
  let out : List AllocObservation := [.asserted (header.ref > 0)]
  if header.inPool then
    if ref ≠ 0 then
      ({ s with blocks := Function.update s.blocks block left }, out)
    else
      let m := s.alloc k
      let first := { left with next := m.header }
      ({ s with
          alloc := Function.update s.alloc k { m with header := some block }
          blocks := Function.update s.blocks block first }, out)
  else
    -- with no reference left the block goes back to `free`
    ({ s with blocks := Function.update s.blocks block left }, out)

/-- `MemManager::Alloc`; nothing for a size that is not in the table. -/
def allocate (s : MemManager) (size : UInt64) (data block : Nat) :
    Option MemManager × List AllocObservation :=
  if size.toNat ≤ s_max_mem_size then
    match s.szAlloc size.toNat with
    | none => (none, [])
    | some k => s.poolAlloc k size data block
  else s.outside size block

/-- `MemManager::Free`; nothing when the header of a pool's block names none. -/
def free (s : MemManager) (p : Nat) :
    Option MemManager × List AllocObservation :=
  let block := p - s_MemBlockSize
  let header := s.blocks block
  if header.inPool then
    match header.alloc with
    | none => (none, [])
    | some k =>
        let r := s.poolFree k p
        (some r.1, r.2)
  else
    -- with no reference left the block goes back to `free`
    let left := { header with ref := header.ref - 1 }
    (some { s with blocks := Function.update s.blocks block left }, [])

/-- `Alloc(size)` asks `malloc` for a block. -/
def AsksMalloc (s : MemManager) (size : UInt64) : Prop :=
  s_max_mem_size < size.toNat ∨
    ∃ k, s.szAlloc size.toNat = some k ∧ (s.alloc k).header = none

/-- One call; nothing happens after a fault. -/
def step (st : Option MemManager) (e : MemEvent) :
    Option MemManager × List AllocObservation :=
  match st, e with
  | none, _ => (none, [])
  | some s, .alloc size data block => s.allocate size data block
  | some s, .free p => s.free p

/-- A call, as the trace notes it. -/
def call : MemEvent → List AllocObservation
  | .alloc size _ _ => [.asked size.toNat]
  | .free p => [.freed p]

end MemManager

namespace MemPool

/-- Distance of the blocks of a pool. -/
def stride (k : MemPool) : Nat :=
  k.imp.size + s_MemBlockSize

/-- `poolSize` in `Init`. -/
def poolSize (k : MemPool) : Nat :=
  (k.imp.size + s_MemBlockSize) * k.imp.blockCount

/-- Blocks of a pool. -/
def blocks (k : MemPool) (data : MemPool → Nat) : List Nat :=
  strided (data k) k.stride k.imp.blockCount

theorem stride_pos (k : MemPool) : 0 < k.stride := by
  simp only [stride, s_MemBlockSize]
  omega

theorem blockCount_pos (k : MemPool) : 0 < k.imp.blockCount := by
  cases k <;> simp [imp, memAllocImp]

end MemPool

/--
`malloc` returns memory that is not in use, and `Free` is called on pointers that
`Alloc` returned and that have not been freed since.
-/
def MemManager.Proper (data : MemPool → Nat) (st : Option MemManager)
    (tr : List AllocObservation) : MemEvent → Prop
  | .alloc size _ block =>
      ∀ s, st = some s → s.AsksMalloc size →
        (∀ k : MemPool,
          Apart block (outsideBytes size).toNat (data k) k.poolSize) ∧
        ∀ r ∈ liveRegions tr,
          Apart block (outsideBytes size).toNat (r.pointer - s_MemBlockSize)
            (s_MemBlockSize + r.room)
  | .free p => ∃ r ∈ liveRegions tr, r.pointer = p

section Constructor

/-- `malloc` gave the pools memory that does not overlap. -/
def PoolsApart (data : MemPool → Nat) : Prop :=
  ∀ k k', k ≠ k' → Apart (data k) k.poolSize (data k') k'.poolSize

variable {data : MemPool → Nat} {s : MemManager}

/-- A block lies in the memory of its pool. -/
theorem MemPool.blocks_bounds
    {k : MemPool} {a : Nat} (ha : a ∈ k.blocks data) :
    data k ≤ a ∧ a + k.stride ≤ data k + k.poolSize := by
  have hbounds := strided_bounds ha
  rwa [Nat.mul_comm] at hbounds

theorem MemPool.not_mem_blocks
    {k : MemPool} {a m : Nat} (h : Apart a m (data k) k.poolSize)
    (hm : 0 < m) : a ∉ k.blocks data := by
  intro ha
  have hbounds := MemPool.blocks_bounds ha
  have hpos := k.stride_pos
  exact (h.mono (Nat.le_refl a) (Nat.le_refl _) hbounds.1 hbounds.2).ne
    hm hpos rfl

/-- A block is of one pool. -/
theorem PoolsApart.unique
    (h : PoolsApart data) {k k' : MemPool} {a : Nat}
    (ha : a ∈ k.blocks data) (ha' : a ∈ k'.blocks data) : k = k' := by
  by_contra hne
  have hbounds := MemPool.blocks_bounds ha
  have hbounds' := MemPool.blocks_bounds ha'
  have hpos := k.stride_pos
  have hpos' := k'.stride_pos
  rcases h k k' hne with hapart | hapart
  · omega
  · omega

/-- Pools whose `Init` has run. -/
structure Started (data : MemPool → Nat) (ks : List MemPool)
    (s : MemManager) : Prop where
  started : ∀ k ∈ ks, s.alloc k =
    { k.imp with poolData := some (data k), header := some (data k) }
  fresh : ∀ k, k ∉ ks → s.alloc k = k.imp
  linked : ∀ k ∈ ks,
    Linked (fun a => (s.blocks a).next) (some (data k)) (k.blocks data)
  headers : ∀ k ∈ ks, ∀ a ∈ k.blocks data,
    (s.blocks a).inPool = true ∧ (s.blocks a).alloc = some k ∧
      (s.blocks a).ref = 0

theorem Started.init
    {ks : List MemPool} (h : Started data ks s) (hapart : PoolsApart data)
    {k : MemPool} (hk : k ∉ ks) :
    Started data (k :: ks) (s.init k (data k)).1 := by
  have hinj : Function.Injective (blockAt (data k) k.stride) :=
    blockAt_injective k.stride_pos
  have hblocks : (s.init k (data k)).1.blocks =
      chainBlocks (MemManager.newBlock k) MemManager.linkBlock
        (blockAt (data k) k.stride) k.imp.blockCount s.blocks := by
    simp only [MemManager.init, h.fresh k hk]
    rfl
  -- the blocks of the other pools keep their headers
  have hother : ∀ k' ∈ ks, ∀ a ∈ k'.blocks data,
      (s.init k (data k)).1.blocks a = s.blocks a := by
    intro k' hk' a ha
    rw [hblocks]
    refine chainBlocks_of_ne hinj k.blockCount_pos _ fun i hi heq => ?_
    have hmem : a ∈ k.blocks data := mem_strided.mpr ⟨i, hi, heq.symm⟩
    exact hk (hapart.unique hmem ha ▸ hk')
  refine ⟨fun k' hk' => ?_, fun k' hk' => ?_, fun k' hk' => ?_,
    fun k' hk' a ha => ?_⟩
  · simp only [MemManager.init, h.fresh k hk]
    rcases List.mem_cons.mp hk' with rfl | hk'
    · rw [Function.update_self]
    · have hne : k' ≠ k := fun heq => hk (heq ▸ hk')
      rw [Function.update_of_ne hne]
      exact h.started k' hk'
  · rw [List.mem_cons, not_or] at hk'
    simp only [MemManager.init]
    rw [Function.update_of_ne hk'.1]
    exact h.fresh k' hk'.2
  · rcases List.mem_cons.mp hk' with rfl | hk'
    · have hlinked : Linked
          (fun a => ((s.init k' (data k')).1.blocks a).next)
          (some (blockAt (data k') k'.stride 0)) (k'.blocks data) := by
        rw [hblocks]
        exact chainBlocks_linked hinj k'.blockCount_pos s.blocks
          (fun _ => rfl) (fun _ _ => rfl)
      rwa [blockAt_zero] at hlinked
    · refine (h.linked k' hk').congr fun a ha => ?_
      rw [hother k' hk' a ha]
  · rcases List.mem_cons.mp hk' with rfl | hk'
    · rw [hblocks]
      obtain ⟨i, hi, rfl⟩ := mem_strided.mp ha
      rw [chainBlocks_apply hinj hi]
      split_ifs
      · exact ⟨rfl, rfl, rfl⟩
      · exact ⟨rfl, rfl, rfl⟩
    · rw [hother k' hk' a ha]
      exact h.headers k' hk' a ha

theorem Started.initSizes
    {ks : List MemPool} (h : Started data ks s) (hapart : PoolsApart data)
    {k : MemPool} (hk : k ∉ ks) (bgn last : Nat) :
    Started data (k :: ks) (s.initSizes bgn last k (data k)).1 := by
  obtain ⟨hstarted, hfresh, hlinked, hheaders⟩ := h.init hapart hk
  exact ⟨hstarted, hfresh, hlinked, hheaders⟩

/-- The constructor starts every pool. -/
theorem new_started
    (hapart : PoolsApart data) (memory : Nat → MemBlock) :
    Started data [.m_mem1024, .m_mem512, .m_mem256, .m_mem128, .m_mem64,
      .m_mem32] (MemManager.new data memory).1 := by
  have hstart : Started data [] ⟨MemPool.imp, fun _ => none, memory⟩ := by
    refine ⟨fun k hk => ?_, fun _ _ => rfl, fun k hk => ?_, fun k hk => ?_⟩
    · cases hk
    · cases hk
    · cases hk
  have h32 := hstart.initSizes hapart (k := .m_mem32) (by decide) 0 32
  have h64 := h32.initSizes hapart (k := .m_mem64) (by decide) 33 64
  have h128 := h64.initSizes hapart (k := .m_mem128) (by decide) 65 128
  have h256 := h128.initSizes hapart (k := .m_mem256) (by decide) 129 256
  have h512 := h256.initSizes hapart (k := .m_mem512) (by decide) 257 512
  exact h512.initSizes hapart (by decide) 513 1024

theorem foldl_update_range
    (t : Nat → Option MemPool) (k : MemPool) (bgn n i : Nat) :
    (List.range' bgn n).foldl (fun t i => Function.update t i (some k)) t i =
      if bgn ≤ i ∧ i < bgn + n then some k else t i := by
  induction n with
  | zero =>
      rw [if_neg (by omega)]
      rfl
  | succ n ih =>
      rw [List.range'_concat, List.foldl_append, List.foldl_cons,
        List.foldl_nil]
      by_cases hlast : i = bgn + 1 * n
      · rw [hlast, Function.update_self, if_pos (by omega)]
      · rw [Function.update_of_ne hlast, ih]
        exact if_congr (by omega) rfl rfl

theorem initSizes_szAlloc
    (s : MemManager) (bgn last : Nat) (k : MemPool) (a i : Nat) :
    (s.initSizes bgn last k a).1.szAlloc i =
      if bgn ≤ i ∧ i < bgn + (last + 1 - bgn) then some k
      else s.szAlloc i :=
  foldl_update_range _ k bgn (last + 1 - bgn) i

/-- The table gives a pool whose blocks are large enough. -/
theorem new_szAlloc
    (data : MemPool → Nat) (memory : Nat → MemBlock) {n : Nat}
    (hn : n ≤ MemManager.s_max_mem_size) :
    ∃ k, (MemManager.new data memory).1.szAlloc n = some k ∧
      n ≤ k.imp.size := by
  simp only [MemManager.s_max_mem_size] at hn
  simp only [MemManager.new, MemManager.classes, List.foldl_cons,
    List.foldl_nil, initSizes_szAlloc]
  split_ifs with h1024 h512 h256 h128 h64 h32
  · exact ⟨_, rfl, hn⟩
  · exact ⟨_, rfl, Nat.le_of_lt_succ h512.2⟩
  · exact ⟨_, rfl, Nat.le_of_lt_succ h256.2⟩
  · exact ⟨_, rfl, Nat.le_of_lt_succ h128.2⟩
  · exact ⟨_, rfl, Nat.le_of_lt_succ h64.2⟩
  · exact ⟨_, rfl, Nat.le_of_lt_succ h32.2⟩
  · omega

end Constructor

end Pools
end NetEngine
