import NetEngine.Lib.Layout
import NetEngine.Pools.MemManager
import NetEngine.Pools.ObjectPool

/-!
# Layout of the pools

Where `InitPool` of object_pool.h puts its nodes, in the arithmetic of `size_t`.
The distance of two nodes is `sizeof(Type) + sizeof(ObjectNode)` without any
rounding, so the headers behind the first one are aligned exactly for object
sizes that are multiples of 8.  The objects themselves always are.
-/

namespace NetEngine
namespace Pools

namespace ObjectNode

/-- `m_next`, `m_id`, `m_ref`, `m_inPool`, `c1` and `c2`. -/
def members : List ClassMember :=
  [⟨8, 8⟩, ⟨4, 4⟩, ⟨1, 1⟩, ⟨1, 1⟩, ⟨1, 1⟩, ⟨1, 1⟩]

/-- `alignof(ObjectNode)`. -/
def ALIGNOF : Nat := classAlign members

theorem classSize_members : classSize members = SIZEOF := rfl

theorem alignof_eq : ALIGNOF = 8 := rfl

end ObjectNode

section MemBlocks

/-- `m_id`, `m_ref`, `m_alloc`, `m_next`, `m_inPool`, `c1`, `c2` and `c3`. -/
def MemBlock.members : List ClassMember :=
  [⟨4, 4⟩, ⟨4, 4⟩, ⟨8, 8⟩, ⟨8, 8⟩, ⟨1, 1⟩, ⟨1, 1⟩, ⟨1, 1⟩, ⟨1, 1⟩]

theorem MemBlock.classSize_members :
    classSize MemBlock.members = s_MemBlockSize := rfl

end MemBlocks

/-- `sizeof(Type)`, `alignof(Type)`, `PoolSize`, and the array from
`new char[size]`. -/
structure ObjectLayout where
  size : UInt64
  align : Nat
  PoolSize : UInt64
  poolData : Nat
  /-- At most 8. -/
  align_dvd : align ∣ 8
  align_dvd_size : align ∣ size.toNat
  pos : 1 ≤ PoolSize
  poolData_dvd : 16 ∣ poolData

namespace ObjectLayout

def realSize (L : ObjectLayout) : UInt64 :=
  L.size + UInt64.ofNat ObjectNode.SIZEOF

/-- What `InitPool` asks for. -/
def bytes (L : ObjectLayout) : UInt64 :=
  L.PoolSize * L.realSize

def node (L : ObjectLayout) (i : UInt64) : Nat :=
  L.poolData + (i * L.realSize).toNat

/-- Header and object. -/
def nodeSize (L : ObjectLayout) : Nat :=
  L.size.toNat + ObjectNode.SIZEOF

/-- The layout that the pool relies on. -/
structure Valid (L : ObjectLayout) : Prop where
  headers : ∀ i < L.PoolSize, ObjectNode.ALIGNOF ∣ L.node i
  objects : ∀ i < L.PoolSize, L.align ∣ L.node i + ObjectNode.SIZEOF
  apart : ∀ i < L.PoolSize, ∀ j < L.PoolSize, i ≠ j →
    Apart (L.node i) L.nodeSize (L.node j) L.nodeSize
  inside : ∀ i < L.PoolSize,
    L.poolData ≤ L.node i ∧
      L.node i + L.nodeSize ≤ L.poolData + L.bytes.toNat

/-- The size of the array is a `size_t`. -/
def Fits (L : ObjectLayout) : Prop :=
  L.PoolSize.toNat * L.nodeSize < 18446744073709551616

/-- The template arguments. -/
def type (L : ObjectLayout) : ObjectType where
  size := L.size.toNat
  PoolSize := L.PoolSize.toNat
  pos := UInt64.le_iff_toNat_le.mp L.pos

end ObjectLayout

section Layout

variable {L : ObjectLayout} {i : UInt64}

theorem ObjectLayout.toNat_realSize (L : ObjectLayout) :
    L.realSize.toNat = L.nodeSize % 18446744073709551616 :=
  UInt64.toNat_add _ _

theorem ObjectLayout.nodeSize_pos (L : ObjectLayout) : 0 < L.nodeSize :=
  L.type.realSize_pos

/-- A number below `PoolSize` is an index. -/
theorem ObjectLayout.toNat_index {k : Nat} (hk : k < L.PoolSize.toNat) :
    (UInt64.ofNat k).toNat = k := by
  have hlt : L.PoolSize.toNat < UInt64.size := UInt64.toNat_lt L.PoolSize
  exact UInt64.toNat_ofNat_of_lt' (Nat.lt_trans hk hlt)

theorem ObjectLayout.index_lt {k : Nat} (hk : k < L.PoolSize.toNat) :
    UInt64.ofNat k < L.PoolSize := by
  rw [UInt64.lt_iff_toNat_lt, toNat_index hk]
  exact hk

theorem ObjectLayout.Fits.toNat_realSize (h : L.Fits) :
    L.realSize.toNat = L.nodeSize := by
  have hpos : 1 ≤ L.PoolSize.toNat := L.type.pos
  have hle : 1 * L.nodeSize ≤ L.PoolSize.toNat * L.nodeSize :=
    Nat.mul_le_mul_right _ hpos
  unfold Fits at h
  rw [L.toNat_realSize]
  omega

theorem ObjectLayout.Fits.toNat_bytes (h : L.Fits) :
    L.bytes.toNat = L.PoolSize.toNat * L.nodeSize := by
  rw [bytes, UInt64.toNat_mul, h.toNat_realSize]
  exact Nat.mod_eq_of_lt h

/-- No index of a node wraps. -/
theorem ObjectLayout.Fits.node_eq (h : L.Fits) (hi : i < L.PoolSize) :
    L.node i = blockAt L.poolData L.nodeSize i.toNat := by
  have hle : i.toNat * L.nodeSize ≤ L.PoolSize.toNat * L.nodeSize :=
    Nat.mul_le_mul_right _ (Nat.le_of_lt (UInt64.lt_iff_toNat_lt.mp hi))
  unfold Fits at h
  rw [node, UInt64.toNat_mul, Fits.toNat_realSize h, blockAt]
  congr 1
  exact Nat.mod_eq_of_lt (by omega)

/-- The nodes are those of the pool. -/
theorem ObjectLayout.Fits.mem_nodes (h : L.Fits) (hi : i < L.PoolSize) :
    L.node i ∈ L.type.nodes L.poolData :=
  mem_strided.mpr
    ⟨i.toNat, UInt64.lt_iff_toNat_lt.mp hi, (h.node_eq hi).symm⟩

theorem ObjectLayout.Fits.node_injective
    (h : L.Fits) {j : UInt64} (hi : i < L.PoolSize) (hj : j < L.PoolSize)
    (heq : L.node i = L.node j) : i = j := by
  rw [h.node_eq hi, h.node_eq hj] at heq
  exact UInt64.toNat_inj.mp (blockAt_injective L.nodeSize_pos heq)

theorem ObjectLayout.Fits.apart
    (h : L.Fits) {j : UInt64} (hi : i < L.PoolSize) (hj : j < L.PoolSize)
    (hne : i ≠ j) :
    Apart (L.node i) L.nodeSize (L.node j) L.nodeSize :=
  strided_apart (h.mem_nodes hi) (h.mem_nodes hj)
    (fun heq => hne (h.node_injective hi hj heq))

theorem ObjectLayout.Fits.inside (h : L.Fits) (hi : i < L.PoolSize) :
    L.poolData ≤ L.node i ∧
      L.node i + L.nodeSize ≤ L.poolData + L.bytes.toNat := by
  rw [h.toNat_bytes]
  exact strided_bounds (h.mem_nodes hi)

/-- The objects are aligned whatever their size. -/
theorem ObjectLayout.Fits.object_aligned (h : L.Fits) (hi : i < L.PoolSize) :
    L.align ∣ L.node i + ObjectNode.SIZEOF := by
  have h16 : L.align ∣ ObjectNode.SIZEOF := L.align_dvd.trans (by decide)
  rw [h.node_eq hi]
  exact Nat.dvd_add
    (dvd_blockAt (h16.trans L.poolData_dvd)
      (Nat.dvd_add L.align_dvd_size h16) _) h16

/-- The headers are aligned when there is only one, or the distance is. -/
theorem ObjectLayout.Fits.headers_iff (h : L.Fits) :
    (∀ i < L.PoolSize, ObjectNode.ALIGNOF ∣ L.node i) ↔
      L.PoolSize = 1 ∨ 8 ∣ L.size.toNat := by
  have hbase : 8 ∣ L.poolData := Nat.dvd_trans (by decide) L.poolData_dvd
  have hsize : 8 ∣ L.nodeSize ↔ 8 ∣ L.size.toNat :=
    (Nat.dvd_add_iff_left (by decide)).symm
  have hone : L.PoolSize.toNat ≤ 1 ↔ L.PoolSize = 1 := by
    have hpos : 1 ≤ L.PoolSize.toNat := L.type.pos
    rw [← UInt64.toNat_inj]
    exact ⟨fun hle => Nat.le_antisymm hle hpos, fun heq => heq.le⟩
  rw [← hone, ← hsize, ← dvd_blockAt_iff hbase, ObjectNode.alignof_eq]
  constructor
  · intro hall k hk
    have hdvd := hall _ (ObjectLayout.index_lt hk)
    rwa [h.node_eq (ObjectLayout.index_lt hk),
      ObjectLayout.toNat_index hk] at hdvd
  · intro hall i hi
    rw [h.node_eq hi]
    exact hall _ (UInt64.lt_iff_toNat_lt.mp hi)

/-- An array whose size has wrapped is too small for the node in front of its
end. -/
theorem ObjectLayout.fits_of_inside
    (h : ∀ i < L.PoolSize,
      L.node i + L.nodeSize ≤ L.poolData + L.bytes.toNat) : L.Fits := by
  have hbytes : L.bytes.toNat < 18446744073709551616 := UInt64.toNat_lt _
  have hfirst : L.node 0 = L.poolData := by
    simp [node]
  have hpos : (0 : UInt64) < L.PoolSize :=
    UInt64.lt_iff_toNat_lt.mpr L.type.pos
  have hnode : L.nodeSize ≤ L.bytes.toNat := by
    have h0 := h 0 hpos
    omega
  have hreal : L.realSize.toNat = L.nodeSize := by
    rw [L.toNat_realSize]
    omega
  by_contra hfits
  have hover : 18446744073709551616 ≤ L.PoolSize.toNat * L.nodeSize :=
    Nat.le_of_not_lt hfits
  -- the last node that starts where another one would still fit in
  let k := L.bytes.toNat / L.nodeSize
  have hk : k * L.nodeSize ≤ L.bytes.toNat := Nat.div_mul_le_self _ _
  have hnext : L.bytes.toNat < (k + 1) * L.nodeSize :=
    Nat.lt_mul_of_div_lt (Nat.lt_succ_self k) L.nodeSize_pos
  have hcount : k < L.PoolSize.toNat :=
    Nat.lt_of_mul_lt_mul_right (a := L.nodeSize) (by omega)
  have hin := h (UInt64.ofNat k) (index_lt hcount)
  rw [node, UInt64.toNat_mul, toNat_index hcount, hreal,
    Nat.mod_eq_of_lt (by omega)] at hin
  rw [Nat.add_mul, Nat.one_mul] at hnext
  omega

/-- Which object types and pool sizes the layout is valid for. -/
theorem objectPool_valid_iff (L : ObjectLayout) :
    L.Valid ↔
      (L.PoolSize = 1 ∨ 8 ∣ L.size.toNat) ∧
        L.PoolSize.toNat * L.nodeSize < 18446744073709551616 := by
  constructor
  · intro h
    have hfits : L.Fits := L.fits_of_inside (fun i hi => (h.inside i hi).2)
    exact ⟨hfits.headers_iff.mp h.headers, hfits⟩
  · rintro ⟨hsize, hfits⟩
    have hfits : L.Fits := hfits
    exact
      { headers := hfits.headers_iff.mpr hsize
        objects := fun i hi => hfits.object_aligned hi
        apart := fun i hi j hj hne => hfits.apart hi hj hne
        inside := fun i hi => hfits.inside hi }

/-- `TestObjectPool` of TestThread: one `int`, and 100000 objects. -/
def testObjectPool : ObjectLayout where
  size := 4
  align := 4
  PoolSize := 100000
  poolData := 65536
  align_dvd := by decide
  align_dvd_size := by decide
  pos := by decide
  poolData_dvd := by decide

/-- The second header is at distance 20. -/
theorem testObjectPool_not_valid : ¬ testObjectPool.Valid := by
  intro h
  have hsecond : 8 ∣ testObjectPool.node 1 := h.headers 1 (by decide)
  exact absurd hsecond (by decide)

end Layout

end Pools
end NetEngine
