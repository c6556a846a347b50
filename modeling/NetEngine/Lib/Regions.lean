import Mathlib.Data.List.Nodup
import Mathlib.Data.List.Range
import Mathlib.Data.Set.Insert

/-!
# Regions of memory

Ranges of addresses that do not overlap, blocks laid out at equal distances, and
the regions that an allocator has handed out and not taken back.  An allocator
keeps a header in front of each region; the block is the address of the header.
-/

namespace NetEngine

section Apart

/-- The ranges of `m` cells from `a` on and of `n` cells from `b` on. -/
def Apart (a m b n : Nat) : Prop :=
  a + m ≤ b ∨ b + n ≤ a

instance (a m b n : Nat) : Decidable (Apart a m b n) :=
  inferInstanceAs (Decidable (_ ∨ _))

theorem Apart.symm {a m b n : Nat} (h : Apart a m b n) : Apart b n a m :=
  Or.symm h

/-- Parts of ranges. -/
theorem Apart.mono
    {a m b n a' m' b' n' : Nat} (h : Apart a m b n)
    (ha : a ≤ a') (hm : a' + m' ≤ a + m)
    (hb : b ≤ b') (hn : b' + n' ≤ b + n) : Apart a' m' b' n' := by
  rcases h with h | h
  · exact Or.inl (by omega)
  · exact Or.inr (by omega)

theorem Apart.ne
    {a m b n : Nat} (h : Apart a m b n) (hm : 0 < m) (hn : 0 < n) :
    a ≠ b := by
  rcases h with h | h
  · omega
  · omega

end Apart

section Strided

variable {base stride count : Nat}

def blockAt (base stride i : Nat) : Nat :=
  base + i * stride

/-- Blocks one behind the other. -/
def strided (base stride count : Nat) : List Nat :=
  (List.range count).map (blockAt base stride)

@[simp] theorem strided_length :
    (strided base stride count).length = count := by
  simp [strided]

theorem mem_strided {a : Nat} :
    a ∈ strided base stride count ↔
      ∃ i, i < count ∧ blockAt base stride i = a := by
  simp [strided]

theorem blockAt_zero : blockAt base stride 0 = base := by
  simp [blockAt]

theorem blockAt_injective (hstride : 0 < stride) :
    Function.Injective (blockAt base stride) := by
  intro i j hij
  exact Nat.eq_of_mul_eq_mul_right hstride (Nat.add_left_cancel hij)

theorem strided_nodup (hstride : 0 < stride) :
    (strided base stride count).Nodup :=
  List.nodup_range.map (blockAt_injective hstride)

/-- A block lies in the whole range. -/
theorem strided_bounds {a : Nat} (ha : a ∈ strided base stride count) :
    base ≤ a ∧ a + stride ≤ base + count * stride := by
  obtain ⟨i, hi, rfl⟩ := mem_strided.mp ha
  have hle : (i + 1) * stride ≤ count * stride :=
    Nat.mul_le_mul_right stride hi
  rw [Nat.add_mul, Nat.one_mul] at hle
  simp only [blockAt]
  omega

/-- Two blocks do not overlap. -/
theorem strided_apart
    {a b : Nat} (ha : a ∈ strided base stride count)
    (hb : b ∈ strided base stride count) (hne : a ≠ b) :
    Apart a stride b stride := by
  obtain ⟨i, -, rfl⟩ := mem_strided.mp ha
  obtain ⟨j, -, rfl⟩ := mem_strided.mp hb
  have hlater : ∀ k l : Nat, k < l → k * stride + stride ≤ l * stride := by
    intro k l hkl
    have hle : (k + 1) * stride ≤ l * stride :=
      Nat.mul_le_mul_right stride hkl
    rwa [Nat.add_mul, Nat.one_mul] at hle
  simp only [blockAt] at hne ⊢
  rcases Nat.lt_trichotomy i j with hlt | rfl | hlt
  · have hle := hlater i j hlt
    exact Or.inl (by omega)
  · exact absurd rfl hne
  · have hle := hlater j i hlt
    exact Or.inr (by omega)

/-- What lies outside the whole range lies outside its blocks. -/
theorem Apart.not_mem_strided
    {a m : Nat} (h : Apart a m base (count * stride)) (hm : 0 < m)
    (hstride : 0 < stride) : a ∉ strided base stride count := by
  intro ha
  have hbounds := strided_bounds ha
  rcases h with h | h
  · omega
  · omega

end Strided

/-- What an allocator handed out: a pointer, the size asked for, and the room
that there is behind the pointer. -/
structure Region where
  pointer : Nat
  size : Nat
  room : Nat

inductive AllocObservation where
  | allocated (region : Region)
  | asserted (holds : Bool)
  /-- The allocator was asked for a region of this size. -/
  | asked (size : Nat)
  /-- The allocator was given this pointer back. -/
  | freed (pointer : Nat)

section Live

theorem mem_insert_of_ne {a b : Nat} {live : Set Nat} (h : b ≠ a) :
    b ∈ insert a live ↔ b ∈ live :=
  ⟨fun hin => hin.resolve_left h, Or.inr⟩

theorem mem_remove_of_ne {a b : Nat} {live : Set Nat} (h : b ≠ a) :
    b ∈ live \ {a} ↔ b ∈ live :=
  ⟨fun hin => hin.1, fun hin => ⟨hin, h⟩⟩

/-- Regions after one more observation. -/
def AllocObservation.apply (regions : List Region) :
    AllocObservation → List Region
  | .allocated region => region :: regions
  | .asserted _ => regions
  | .asked _ => regions
  | .freed pointer => regions.filter (fun r => r.pointer ≠ pointer)

/-- Regions handed out and not taken back since. -/
def liveRegions (tr : List AllocObservation) : List Region :=
  tr.foldl AllocObservation.apply []

theorem liveRegions_append (tr out : List AllocObservation) :
    liveRegions (tr ++ out) =
      out.foldl AllocObservation.apply (liveRegions tr) :=
  List.foldl_append

theorem liveRegions_asserted (tr : List AllocObservation) (holds : Bool) :
    liveRegions (tr ++ [.asserted holds]) = liveRegions tr :=
  liveRegions_append tr [.asserted holds]

theorem liveRegions_asked (tr : List AllocObservation) (size : Nat) :
    liveRegions (tr ++ [.asked size]) = liveRegions tr :=
  liveRegions_append tr [.asked size]

/-- Blocks of the regions, with a header of the given size. -/
def blocksOf (header : Nat) (regions : List Region) : Set Nat :=
  {a | ∃ r ∈ regions, r.pointer = a + header}

theorem mem_blocksOf {header a : Nat} {regions : List Region} :
    a ∈ blocksOf header regions ↔ ∃ r ∈ regions, r.pointer = a + header :=
  Iff.rfl

instance (header : Nat) (regions : List Region) :
    DecidablePred (fun a => a ∈ blocksOf header regions) :=
  fun a => inferInstanceAs (Decidable (∃ r ∈ regions, r.pointer = a + header))

theorem blocksOf_nil (header : Nat) : blocksOf header [] = ∅ := by
  ext a
  simp [blocksOf]

theorem blocksOf_cons
    {header a : Nat} {r : Region} (h : r.pointer = a + header)
    (regions : List Region) :
    blocksOf header (r :: regions) = insert a (blocksOf header regions) := by
  ext b
  simp only [mem_blocksOf, Set.mem_insert_iff, List.exists_mem_cons_iff, h]
  exact or_congr_left ⟨fun heq => by omega, fun heq => by omega⟩

theorem blocksOf_filter
    (header a : Nat) (regions : List Region) :
    blocksOf header (regions.filter (fun r => r.pointer ≠ a + header)) =
      blocksOf header regions \ {a} := by
  ext b
  simp only [mem_blocksOf, Set.mem_sdiff, Set.mem_singleton_iff,
    List.mem_filter, decide_eq_true_iff]
  constructor
  · rintro ⟨r, ⟨hr, hne⟩, hb⟩
    exact ⟨⟨r, hr, hb⟩, fun heq => hne (by rw [hb, heq])⟩
  · rintro ⟨⟨r, hr, hb⟩, hne⟩
    exact ⟨r, ⟨hr, fun heq => hne (by omega)⟩, hb⟩

/-- A block is handed out. -/
theorem blocksOf_allocated
    (header : Nat) (tr : List AllocObservation) (a size room : Nat) :
    blocksOf header
        (liveRegions (tr ++ [.allocated ⟨a + header, size, room⟩])) =
      insert a (blocksOf header (liveRegions tr)) := by
  rw [liveRegions_append]
  exact blocksOf_cons rfl _

/-- A block is taken back. -/
theorem blocksOf_freed
    (header : Nat) (tr : List AllocObservation) (a : Nat) :
    blocksOf header (liveRegions (tr ++ [.freed (a + header)])) =
      blocksOf header (liveRegions tr) \ {a} := by
  rw [liveRegions_append]
  exact blocksOf_filter _ _ _

end Live

section Answered

def AllocObservation.sizeAsked : AllocObservation → Option Nat
  | .asked size => some size
  | _ => none

def AllocObservation.sizeAllocated : AllocObservation → Option Nat
  | .allocated region => some region.size
  | _ => none

/-- For each call a region was handed out, of the size asked for. -/
def Answered (tr : List AllocObservation) : Prop :=
  tr.filterMap AllocObservation.sizeAllocated =
    tr.filterMap AllocObservation.sizeAsked

theorem answered_nil : Answered [] := by
  rfl

theorem Answered.append
    {tr out : List AllocObservation} (h : Answered tr) (hout : Answered out) :
    Answered (tr ++ out) := by
  rw [Answered, List.filterMap_append, List.filterMap_append, h, hout]

end Answered

end NetEngine
