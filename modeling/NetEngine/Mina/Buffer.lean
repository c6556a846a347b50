import Mathlib.Algebra.Order.Ring.Int
import Mathlib.Data.Nat.Log
import Mathlib.Tactic.NormNum
import NetEngine.Net.ClientSocket

/-!
# Buffer

Buffer.cs of Net/Buffer: a mark, a position, a limit and a capacity, which
setters and index checks keep in order, and `NormalizeCapacity` of IoBuffer.cs,
by which buffers grow.

All four numbers are `Int32` in the source, and so are the arguments, so sums
of an argument and a field wrap.  The properties here are those of the base
class; that the derived ones expand is in `ByteBuffer`.
-/

namespace NetEngine
namespace Mina

open Net

inductive BufferException where
  | argument (message paramName : String)
  | argumentOutOfRange (paramName : String)
  | indexOutOfRange (message : String)
  | bufferUnderflow
  | bufferData (message : String)
  | overflow
  | invalidOperation (message : String)
  | notSupported
  | nullReference
  /-- An access outside the array behind a buffer. -/
  | outside
  /-- The call never returns. -/
  | hangs
deriving DecidableEq

structure Buffer where
  mark : Int
  position : Int
  limit : Int
  capacity : Int
deriving DecidableEq

namespace Buffer

def remaining (b : Buffer) : Int :=
  b.limit - b.position

def hasRemaining (b : Buffer) : Bool :=
  b.position < b.limit

/-- The setter of `Position`. -/
def setPosition (value : Int) (b : Buffer) :
    Except BufferException Buffer :=
  if value > b.limit ∨ value < 0 then
    .error (.argument "Invalid position" "value")
  else
    .ok { b with
      position := value
      mark := if b.mark > value then -1 else b.mark }

/-- The setter of `Limit`. -/
def setLimit (value : Int) (b : Buffer) : Except BufferException Buffer :=
  if value > b.capacity ∨ value < 0 then
    .error (.argument "Invalid limit" "value")
  else
    .ok { b with
      limit := value
      position := if b.position > value then value else b.position
      mark := if b.mark > value then -1 else b.mark }

/-- The constructor's check of the mark, which comes last. -/
def checkMark (mark pos : Int) (b : Buffer) :
    Except BufferException Buffer :=
  if mark ≥ 0 then
    if mark > pos then .error (.argument "Invalid mark position" "mark")
    else .ok { b with mark := mark }
  else .ok b

/-- The constructor. -/
def make (mark pos lim cap : Int) : Except BufferException Buffer :=
  if cap < 0 then
    .error (.argument "Capacity should be >= 0" "cap")
  else
    ((setLimit lim ⟨-1, 0, 0, cap⟩).bind (setPosition pos)).bind
      (checkMark mark pos)

/-- `Mark`. -/
def setMark (b : Buffer) : Buffer :=
  { b with mark := b.position }

def reset (b : Buffer) : Except BufferException Buffer :=
  if b.mark < 0 then .error (.invalidOperation "")
  else .ok { b with position := b.mark }

def clear (b : Buffer) : Buffer :=
  { b with position := 0, limit := b.capacity, mark := -1 }

def flip (b : Buffer) : Buffer :=
  { b with limit := b.position, position := 0, mark := -1 }

def rewind (b : Buffer) : Buffer :=
  { b with position := 0, mark := -1 }

/-- `Recapacity`. -/
def recapacity (capacity : Int) (b : Buffer) : Buffer :=
  { b with capacity := capacity }

/-- `CheckIndex(i, nb)`; `CheckIndex(i)` is the case of one byte. -/
def checkIndex (i nb : Int) (b : Buffer) : Except BufferException Int :=
  if i < 0 ∨ nb > b.limit - i then .error (.indexOutOfRange "")
  else .ok i

/--
`NextGetIndex(nb)` and `NextPutIndex(nb)`, which throw different exceptions; the
forms without an argument are the case of one byte.
-/
def nextIndex (e : BufferException) (nb : Int) (b : Buffer) :
    Except BufferException (Int × Buffer) :=
  if b.limit - b.position < nb then .error e
  else .ok (b.position, { b with position := b.position + nb })

def checkBounds (off len size : Int) : Except BufferException Unit :=
  if off < 0 ∨ len < 0 ∨ int32 (off + len) < 0 ∨
      int32 (size - int32 (off + len)) < 0 then
    .error (.indexOutOfRange "")
  else .ok ()

/-- The numbers are in order. -/
structure Valid (b : Buffer) : Prop where
  mark_ge : -1 ≤ b.mark
  mark_le : b.mark ≤ b.position
  position_ge : 0 ≤ b.position
  position_le : b.position ≤ b.limit
  limit_le : b.limit ≤ b.capacity
  capacity_lt : b.capacity < 2 ^ 31

section Validity

variable {b b' : Buffer} {value : Int}

theorem setPosition_eq_ok
    (h : setPosition value b = .ok b') :
    0 ≤ value ∧ value ≤ b.limit ∧ b' = { b with
      position := value
      mark := if b.mark > value then -1 else b.mark } := by
  unfold setPosition at h
  by_cases hbounds : value > b.limit ∨ value < 0
  · rw [if_pos hbounds] at h
    cases h
  · rw [if_neg hbounds] at h
    cases h
    obtain ⟨hle, hge⟩ := not_or.mp hbounds
    exact ⟨not_lt.mp hge, not_lt.mp hle, rfl⟩

theorem setLimit_eq_ok
    (h : setLimit value b = .ok b') :
    0 ≤ value ∧ value ≤ b.capacity ∧ b' = { b with
      limit := value
      position := if b.position > value then value else b.position
      mark := if b.mark > value then -1 else b.mark } := by
  unfold setLimit at h
  by_cases hbounds : value > b.capacity ∨ value < 0
  · rw [if_pos hbounds] at h
    cases h
  · rw [if_neg hbounds] at h
    cases h
    obtain ⟨hle, hge⟩ := not_or.mp hbounds
    exact ⟨not_lt.mp hge, not_lt.mp hle, rfl⟩

theorem setPosition_of_le (hge : 0 ≤ value) (hle : value ≤ b.limit) :
    setPosition value b = .ok { b with
      position := value
      mark := if b.mark > value then -1 else b.mark } :=
  if_neg (not_or.mpr ⟨not_lt.mpr hle, not_lt.mpr hge⟩)

theorem setLimit_of_le (hge : 0 ≤ value) (hle : value ≤ b.capacity) :
    setLimit value b = .ok { b with
      limit := value
      position := if b.position > value then value else b.position
      mark := if b.mark > value then -1 else b.mark } :=
  if_neg (not_or.mpr ⟨not_lt.mpr hle, not_lt.mpr hge⟩)

theorem Valid.setPosition
    (h : b.Valid) (hset : Buffer.setPosition value b = .ok b') :
    b'.Valid := by
  obtain ⟨hge, hle, rfl⟩ := setPosition_eq_ok hset
  obtain ⟨h₁, h₂, h₃, h₄, h₅, h₆⟩ := h
  refine ⟨?_, ?_, hge, hle, h₅, h₆⟩
  · dsimp only
    split_ifs
    · exact le_refl _
    · exact h₁
  · dsimp only
    split_ifs
    · omega
    · omega

theorem Valid.setLimit
    (h : b.Valid) (hset : Buffer.setLimit value b = .ok b') :
    b'.Valid := by
  obtain ⟨hge, hle, rfl⟩ := setLimit_eq_ok hset
  obtain ⟨h₁, h₂, h₃, h₄, h₅, h₆⟩ := h
  refine ⟨?_, ?_, ?_, ?_, hle, h₆⟩
  · dsimp only
    split_ifs
    · exact le_refl _
    · exact h₁
  · dsimp only
    split_ifs
    · omega
    · omega
    · omega
    · omega
  · dsimp only
    split_ifs
    · exact hge
    · exact h₃
  · dsimp only
    split_ifs
    · exact le_refl _
    · omega

theorem neg_one_le_zero : (-1 : Int) ≤ 0 := by
  decide

theorem Valid.clear (h : b.Valid) : b.clear.Valid :=
  ⟨le_refl _, neg_one_le_zero, le_refl _,
    (h.position_ge.trans h.position_le).trans h.limit_le, le_refl _,
    h.capacity_lt⟩

theorem Valid.flip (h : b.Valid) : b.flip.Valid :=
  ⟨le_refl _, neg_one_le_zero, le_refl _, h.position_ge,
    h.position_le.trans h.limit_le, h.capacity_lt⟩

theorem Valid.rewind (h : b.Valid) : b.rewind.Valid :=
  ⟨le_refl _, neg_one_le_zero, le_refl _,
    h.position_ge.trans h.position_le, h.limit_le, h.capacity_lt⟩

theorem Valid.setMark (h : b.Valid) : b.setMark.Valid :=
  ⟨neg_one_le_zero.trans h.position_ge, le_refl _,
    h.position_ge, h.position_le, h.limit_le, h.capacity_lt⟩

theorem Valid.reset (h : b.Valid) (hreset : Buffer.reset b = .ok b') :
    b'.Valid := by
  unfold Buffer.reset at hreset
  split_ifs at hreset with hmark
  cases hreset
  exact ⟨h.mark_ge, le_refl _, not_lt.mp hmark,
    h.mark_le.trans h.position_le, h.limit_le, h.capacity_lt⟩

/-- Bytes that are there are passed over. -/
theorem nextIndex_eq_ok
    {e : BufferException} {nb p : Int} (h : nextIndex e nb b = .ok (p, b')) :
    p = b.position ∧ b.position + nb ≤ b.limit ∧
      b' = { b with position := b.position + nb } := by
  unfold nextIndex at h
  split_ifs at h with hroom
  cases h
  exact ⟨rfl, by omega, rfl⟩

theorem Valid.nextIndex
    {e : BufferException} {nb p : Int} (h : b.Valid) (hnb : 0 ≤ nb)
    (hnext : Buffer.nextIndex e nb b = .ok (p, b')) :
    b'.Valid := by
  obtain ⟨-, hroom, rfl⟩ := nextIndex_eq_ok hnext
  obtain ⟨h₁, h₂, h₃, h₄, h₅, h₆⟩ := h
  exact ⟨h₁, by dsimp only; omega, by dsimp only; omega, hroom, h₅, h₆⟩

theorem checkIndex_eq_ok
    {i j nb : Int} (h : checkIndex i nb b = .ok j) :
    j = i ∧ 0 ≤ i ∧ i + nb ≤ b.limit := by
  unfold checkIndex at h
  split_ifs at h with hbounds
  cases h
  obtain ⟨hge, hle⟩ := not_or.mp hbounds
  exact ⟨rfl, not_lt.mp hge, by omega⟩

/-- The bounds are those of a range in an array of the given size. -/
theorem checkBounds_eq_ok
    {off len size : Int} (hoff : off < 2 ^ 31) (hlen : len < 2 ^ 31)
    (hsize : 0 ≤ size) (hsize' : size < 2 ^ 31) :
    checkBounds off len size = .ok () ↔
      0 ≤ off ∧ 0 ≤ len ∧ off + len ≤ size := by
  unfold checkBounds int32
  split_ifs with hbounds
  · simp only [false_iff]
    omega
  · simp only [true_iff]
    omega

theorem Valid.checkMark
    {mark : Int} (h : b.Valid)
    (hcheck : Buffer.checkMark mark b.position b = .ok b') :
    b'.Valid ∧ b'.position = b.position ∧ b'.limit = b.limit ∧
      b'.capacity = b.capacity := by
  unfold Buffer.checkMark at hcheck
  split_ifs at hcheck with hmark hover
  · cases hcheck
    exact ⟨⟨neg_one_le_zero.trans hmark, not_lt.mp hover, h.position_ge,
      h.position_le, h.limit_le, h.capacity_lt⟩, rfl, rfl, rfl⟩
  · cases hcheck
    exact ⟨h, rfl, rfl, rfl⟩

/-- A buffer that is made is in order. -/
theorem make_eq_ok
    {mark pos lim cap : Int} (h : make mark pos lim cap = .ok b)
    (hcap : cap < 2 ^ 31) :
    b.Valid ∧ b.position = pos ∧ b.limit = lim ∧ b.capacity = cap := by
  unfold make at h
  split_ifs at h with hneg
  have hinit : Buffer.Valid ⟨-1, 0, 0, cap⟩ :=
    ⟨le_refl _, neg_one_le_zero, le_refl _, le_refl _, not_lt.mp hneg, hcap⟩
  cases hlim : Buffer.setLimit lim ⟨-1, 0, 0, cap⟩ with
  | error e =>
      rw [hlim] at h
      cases h
  | ok b₁ =>
      have hvalid₁ := hinit.setLimit hlim
      obtain ⟨-, -, hb₁⟩ := setLimit_eq_ok hlim
      rw [hlim] at h
      change (Buffer.setPosition pos b₁).bind _ = _ at h
      cases hpos : Buffer.setPosition pos b₁ with
      | error e =>
          rw [hpos] at h
          cases h
      | ok b₂ =>
          have hvalid₂ := hvalid₁.setPosition hpos
          obtain ⟨-, -, hb₂⟩ := setPosition_eq_ok hpos
          have hposition : b₂.position = pos := by
            rw [hb₂]
          rw [hpos] at h
          change Buffer.checkMark mark pos b₂ = _ at h
          rw [← hposition] at h
          obtain ⟨hvalid, h₁, h₂, h₃⟩ := hvalid₂.checkMark h
          refine ⟨hvalid, h₁.trans hposition, h₂.trans ?_, h₃.trans ?_⟩
          · rw [hb₂, hb₁]
          · rw [hb₂, hb₁]

end Validity

end Buffer

section Capacity

/-- `HighestOneBit` of a number that is not negative. -/
def highestOneBit (i : Nat) : Nat :=
  let i := i ||| (i >>> 1)
  let i := i ||| (i >>> 2)
  let i := i ||| (i >>> 4)
  let i := i ||| (i >>> 8)
  let i := i ||| (i >>> 16)
  i - (i >>> 1)

/-- `IoBuffer.NormalizeCapacity`. -/
def normalizeCapacity (requestedCapacity : Int) : Int :=
  if requestedCapacity < 0 then 2 ^ 31 - 1
  else
    let newCapacity : Int := highestOneBit requestedCapacity.toNat
    let newCapacity :=
      if newCapacity < requestedCapacity then int32 (2 * newCapacity)
      else newCapacity
    if newCapacity < 0 then 2 ^ 31 - 1 else newCapacity

/-- No bit above `k` is set, and the `n` bits from `k` downwards are. -/
def Smeared (n k s : Nat) : Prop :=
  (∀ j, k < j → s.testBit j = false) ∧
    ∀ j, j ≤ k → k < j + n → s.testBit j = true

/-- A shift by at most the bits that are set sets as many more. -/
theorem Smeared.shift
    {n k s m : Nat} (h : Smeared n k s) (hm : m ≤ n) :
    Smeared (n + m) k (s ||| (s >>> m)) := by
  obtain ⟨habove, hset⟩ := h
  constructor
  · intro j hj
    rw [Nat.testBit_or, Nat.testBit_shiftRight, habove j hj,
      habove (m + j) (by omega)]
    rfl
  · intro j hj hk
    rw [Nat.testBit_or, Nat.testBit_shiftRight]
    by_cases hnear : k < j + n
    · rw [hset j hj hnear, Bool.true_or]
    · rw [hset (m + j) (by omega) (by omega), Bool.or_true]

theorem smeared_log2 {i : Nat} (hi : i ≠ 0) : Smeared 1 i.log2 i := by
  constructor
  · intro j hj
    apply Nat.testBit_lt_two_pow
    exact (Nat.log2_lt hi).mp hj
  · intro j hj hk
    obtain rfl : j = i.log2 := by omega
    exact Nat.testBit_log2 hi

/-- With all bits from `k` downwards the number is known. -/
theorem Smeared.eq
    {n k s : Nat} (h : Smeared n k s) (hk : k < n) :
    s = 2 ^ (k + 1) - 1 := by
  obtain ⟨habove, hset⟩ := h
  apply Nat.eq_of_testBit_eq
  intro j
  rw [Nat.testBit_two_pow_sub_one]
  by_cases hj : j ≤ k
  · rw [hset j hj (by omega)]
    exact (decide_eq_true (by omega)).symm
  · rw [habove j (by omega)]
    exact (decide_eq_false (by omega)).symm

theorem highestOneBit_eq {i : Nat} (hi : i ≠ 0) (hlt : i < 2 ^ 32) :
    highestOneBit i = 2 ^ i.log2 := by
  have hlog : i.log2 < 32 := (Nat.log2_lt hi).mpr hlt
  have hall := ((((((smeared_log2 hi).shift (le_refl 1)).shift
    (le_refl 2)).shift (le_refl 4)).shift (le_refl 8)).shift
    (le_refl 16)).eq hlog
  unfold highestOneBit
  dsimp only
  rw [hall, Nat.shiftRight_eq_div_pow]
  have hpow : 2 ^ (i.log2 + 1) = 2 * 2 ^ i.log2 := by
    rw [Nat.pow_succ, Nat.mul_comm]
  have hpos : 0 < 2 ^ i.log2 := Nat.two_pow_pos _
  omega

theorem two_pow_le_of_le {k : Nat} (hk : k ≤ 30) :
    (2 : Int) ^ k ≤ 2 ^ 30 :=
  pow_le_pow_right₀ (by decide) hk

/-- A request that fits is answered by the smallest power of two above it. -/
theorem normalizeCapacity_of_le
    {r : Int} (hpos : 0 < r) (hle : r ≤ 2 ^ 30) :
    ∃ k : Nat, k ≤ 30 ∧ normalizeCapacity r = 2 ^ k ∧ r ≤ 2 ^ k ∧
      2 ^ k < 2 * r := by
  obtain ⟨i, rfl⟩ := Int.eq_ofNat_of_zero_le hpos.le
  have hi : i ≠ 0 := by omega
  have hpow : 2 ^ i.log2 ≤ i := Nat.log2_self_le hi
  have hpow' : i < 2 ^ (i.log2 + 1) := Nat.lt_log2_self
  have hbit : (highestOneBit i : Int) = 2 ^ i.log2 := by
    rw [highestOneBit_eq hi (by omega)]
    push_cast
    rfl
  have hsucc : (2 : Int) ^ (i.log2 + 1) = 2 * 2 ^ i.log2 := by
    rw [pow_succ, mul_comm]
  have hlow : (2 : Int) ^ i.log2 ≤ i := by exact_mod_cast hpow
  have hhigh : (i : Int) < 2 ^ (i.log2 + 1) := by exact_mod_cast hpow'
  have hone : (1 : Int) ≤ 2 ^ i.log2 := one_le_pow₀ (by decide)
  have hnot : ¬ (i : Int) < 0 := by omega
  unfold normalizeCapacity
  simp only [if_neg hnot, Int.toNat_natCast, hbit]
  by_cases hlt : (2 : Int) ^ i.log2 < i
  · have hk : i.log2 < 30 := by
      by_contra hge
      have hbig : (2 : Int) ^ 30 ≤ 2 ^ i.log2 :=
        pow_le_pow_right₀ (by decide) (by omega)
      omega
    have hk' := two_pow_le_of_le (k := i.log2 + 1) (by omega)
    refine ⟨i.log2 + 1, by omega, ?_, hhigh.le, by omega⟩
    have hwrap : int32 (2 * 2 ^ i.log2) = 2 * 2 ^ i.log2 :=
      int32_of_bounds (by omega) (by omega)
    rw [if_pos hlt, hwrap, if_neg (by omega), hsucc]
  · have heq : (2 : Int) ^ i.log2 = i := by omega
    have hk : i.log2 ≤ 30 := by
      by_contra hge
      have hbig : (2 : Int) ^ 31 ≤ 2 ^ i.log2 :=
        pow_le_pow_right₀ (by decide) (by omega)
      omega
    refine ⟨i.log2, hk, ?_, heq.ge, by omega⟩
    rw [if_neg hlt, if_neg (by omega)]

/-- A request beyond 2^30, or one that has wrapped, asks for everything. -/
theorem normalizeCapacity_of_gt
    {r : Int} (hout : r < 0 ∨ 2 ^ 30 < r) (hlt : r < 2 ^ 31) :
    normalizeCapacity r = 2 ^ 31 - 1 := by
  unfold normalizeCapacity
  by_cases hneg : r < 0
  · rw [if_pos hneg]
  · rw [if_neg hneg]
    have hgt : 2 ^ 30 < r := hout.resolve_left hneg
    obtain ⟨i, rfl⟩ := Int.eq_ofNat_of_zero_le (not_lt.mp hneg)
    have hi : i ≠ 0 := by omega
    have hlog : i.log2 = 30 := by
      rw [Nat.log2_eq_iff hi]
      omega
    simp only [Int.toNat_natCast]
    rw [highestOneBit_eq hi (by omega), hlog]
    have hbit : ((2 ^ 30 : Nat) : Int) = 2 ^ 30 := by norm_num
    rw [hbit, if_pos hgt, if_pos (by decide)]

theorem normalizeCapacity_zero : normalizeCapacity 0 = 0 := by
  decide

/-- What is asked for is given, unless it is more than there can be. -/
theorem le_normalizeCapacity {r : Int} (hlt : r < 2 ^ 31) :
    r ≤ normalizeCapacity r ∧ 0 ≤ normalizeCapacity r ∧
      normalizeCapacity r < 2 ^ 31 := by
  by_cases hout : r < 0 ∨ 2 ^ 30 < r
  · rw [normalizeCapacity_of_gt hout hlt]
    omega
  · by_cases hzero : r = 0
    · rw [hzero, normalizeCapacity_zero]
      decide
    · obtain ⟨k, hk, heq, hle, -⟩ :=
        normalizeCapacity_of_le (r := r) (by omega) (by omega)
      have hpow := two_pow_le_of_le hk
      have hone : (1 : Int) ≤ 2 ^ k := one_le_pow₀ (by decide)
      rw [heq]
      omega

/--
`NormalizeCapacity` returns the least power of two that is enough, nothing for
nothing, and `Int32.MaxValue` where no power of two that fits is enough.
-/
theorem normalizeCapacity_outcome {r : Int} (hlt : r < 2 ^ 31) :
    (r < 0 ∨ 2 ^ 30 < r → normalizeCapacity r = 2 ^ 31 - 1) ∧
    (r = 0 → normalizeCapacity r = 0) ∧
    (0 < r → r ≤ 2 ^ 30 → ∃ k : Nat, normalizeCapacity r = 2 ^ k ∧
      r ≤ 2 ^ k ∧ ∀ j : Nat, r ≤ 2 ^ j → k ≤ j) := by
  refine ⟨fun hout => normalizeCapacity_of_gt hout hlt, ?_, ?_⟩
  · rintro rfl
    exact normalizeCapacity_zero
  · intro hpos hle
    obtain ⟨k, -, heq, henough, hleast⟩ := normalizeCapacity_of_le hpos hle
    refine ⟨k, heq, henough, fun j hj => ?_⟩
    by_contra hlow
    -- the next lower power of two is too small
    have hstep : (2 : Int) ^ (j + 1) ≤ 2 ^ k :=
      pow_le_pow_right₀ (by norm_num) (by omega)
    rw [pow_succ] at hstep
    omega

theorem normalizeCapacity_outcome_five :
    ∃ k : Nat, normalizeCapacity 5 = 2 ^ k ∧ 5 ≤ (2 : Int) ^ k ∧
      ∀ j : Nat, 5 ≤ (2 : Int) ^ j → k ≤ j :=
  (normalizeCapacity_outcome (by norm_num)).2.2 (by norm_num) (by norm_num)

end Capacity

end Mina
end NetEngine
