import Mathlib.Data.List.PeriodicityLemma

/-!
# Flat memory

A memory gives the cell at every address.  `store` writes a list of cells,
`move` copies a range onto another one as if through a temporary, and
`Holds m a xs` says that the cells from `a` on are `xs`.

Queues are often kept at the front of a buffer: dropping a head of length `n` by
moving only `n` cells leaves the right tail exactly when the tail repeats with
period `n` (`holds_move_head_iff`).  The last section reads and writes numbers
as little-endian bytes.
-/

namespace NetEngine

universe u

variable {β : Type u}

/-- A cell at every address. -/
abbrev Memory (β : Type u) :=
  Nat → β

namespace Memory

/-- Write a list of cells from an address on. -/
def store (m : Memory β) (a : Nat) (xs : List β) : Memory β :=
  fun i => if i < a then m i else (xs[i - a]?).getD (m i)

/-- Copy `n` cells from `src` to `dst`; the ranges may overlap. -/
def move (m : Memory β) (dst src n : Nat) : Memory β :=
  fun i => if dst ≤ i ∧ i < dst + n then m (src + (i - dst)) else m i

/-- The cells from `a` on are the given list. -/
def Holds (m : Memory β) (a : Nat) (xs : List β) : Prop :=
  ∀ i, i < xs.length → xs[i]? = some (m (a + i))

theorem holds_nil (m : Memory β) (a : Nat) : Holds m a [] := by
  intro i hi
  simp at hi

/-- A list is held piece by piece. -/
theorem holds_append_iff
    (m : Memory β) (a : Nat) (xs ys : List β) :
    Holds m a (xs ++ ys) ↔
      Holds m a xs ∧ Holds m (a + xs.length) ys := by
  constructor
  · intro h
    refine ⟨fun i hi => ?_, fun i hi => ?_⟩
    · have hxy := h i (by rw [List.length_append]; omega)
      rwa [List.getElem?_append_left hi] at hxy
    · have hxy := h (xs.length + i) (by rw [List.length_append]; omega)
      rw [List.getElem?_append_right (by omega)] at hxy
      simpa [Nat.add_assoc] using hxy
  · rintro ⟨hx, hy⟩ i hi
    rw [List.length_append] at hi
    by_cases hlt : i < xs.length
    · rw [List.getElem?_append_left hlt]
      exact hx i hlt
    · rw [List.getElem?_append_right (by omega),
        hy (i - xs.length) (by omega)]
      congr 2
      omega

/-- Two memories that agree on a range hold the same list there. -/
theorem Holds.congr
    {m m' : Memory β} {a : Nat} {xs : List β} (h : Holds m a xs)
    (heq : ∀ i, i < xs.length → m' (a + i) = m (a + i)) :
    Holds m' a xs := by
  intro i hi
  rw [heq i hi]
  exact h i hi

theorem store_of_lt
    (m : Memory β) {a i : Nat} (xs : List β) (h : i < a) :
    m.store a xs i = m i := by
  simp [store, h]

theorem store_nil (m : Memory β) (a : Nat) : m.store a [] = m := by
  funext i
  simp [store]

/-- Cells are written one by one. -/
theorem store_cons (m : Memory β) (a : Nat) (x : β) (xs : List β) :
    (m.store a [x]).store (a + 1) xs = m.store a (x :: xs) := by
  funext i
  unfold store
  by_cases hlt : i < a
  · rw [if_pos (by omega), if_pos hlt, if_pos hlt]
  · by_cases heq : i = a
    · subst heq
      simp
    · obtain ⟨d, rfl⟩ := Nat.exists_eq_add_of_lt (show a < i by omega)
      have hone : a + d + 1 - a = d + 1 := by omega
      have hzero : a + d + 1 - (a + 1) = d := by omega
      rw [if_neg (by omega), if_neg (by omega), if_neg (by omega), hone,
        hzero]
      rfl

/-- What is written is held. -/
theorem holds_store (m : Memory β) (a : Nat) (xs : List β) :
    Holds (m.store a xs) a xs := by
  intro i hi
  have hsub : a + i - a = i := by omega
  simp [store, hsub, List.getElem?_eq_getElem hi]

/-- Writing right behind a held list extends it. -/
theorem Holds.store_append
    {m : Memory β} {a : Nat} {xs : List β} (h : Holds m a xs)
    (ys : List β) :
    Holds (m.store (a + xs.length) ys) a (xs ++ ys) := by
  refine (holds_append_iff _ _ _ _).mpr ⟨h.congr ?_, holds_store _ _ _⟩
  intro i hi
  exact store_of_lt m ys (by omega)

section DropHead

/-- Cells of the buffer after moving `n` cells down onto the head. -/
theorem move_head_apply (m : Memory β) (n i : Nat) :
    m.move 0 n n i = if i < n then m (n + i) else m i := by
  simp [move]

/--
Dropping a head by moving as many cells as the head has leaves the tail in
place exactly when the tail has the head's length as a period.
-/
theorem holds_move_head_iff
    {m : Memory β} {xs ys : List β} (h : Holds m 0 (xs ++ ys)) :
    Holds (m.move 0 xs.length xs.length) 0 ys ↔
      ys.HasPeriod xs.length := by
  obtain ⟨-, hy⟩ := (holds_append_iff m 0 xs ys).mp h
  rw [Nat.zero_add] at hy
  rw [List.hasPeriod_iff_getElem?]
  constructor
  · intro hmove i hi
    have hlow := hy i (by omega)
    -- the cell past the moved range still shows the tail one head earlier
    have hhigh := hmove (i + xs.length) (by omega)
    rw [move_head_apply, if_neg (by omega), Nat.zero_add,
      Nat.add_comm i xs.length] at hhigh
    rw [Nat.add_comm i xs.length, hlow, hhigh]
  · intro hper i hi
    rw [move_head_apply, Nat.zero_add]
    split_ifs with hlt
    · exact hy i hi
    · have hback := hper (i - xs.length) (by omega)
      have hcell := hy (i - xs.length) (by omega)
      have hadd : i - xs.length + xs.length = i := by omega
      have hadd' : xs.length + (i - xs.length) = i := by omega
      rw [hadd] at hback
      rw [hadd'] at hcell
      rw [← hback, hcell]

end DropHead

end Memory

/-- The low `k` bytes of a number, least significant first. -/
def leBytes : Nat → Nat → List UInt8
  | 0, _ => []
  | k + 1, n => UInt8.ofNat n :: leBytes k (n / 256)

/-- Number written by a list of bytes, least significant first. -/
def leValue : List UInt8 → Nat
  | [] => 0
  | b :: bs => b.toNat + 256 * leValue bs

@[simp] theorem leBytes_length (k n : Nat) :
    (leBytes k n).length = k := by
  induction k generalizing n with
  | zero =>
      rfl
  | succ k ih =>
      simp [leBytes, ih]

/-- Reading back what was written gives the number, up to its width. -/
theorem leValue_leBytes (k n : Nat) :
    leValue (leBytes k n) = n % 256 ^ k := by
  induction k generalizing n with
  | zero =>
      simp [leBytes, leValue, Nat.mod_one]
  | succ k ih =>
      have hsplit : n % 256 ^ (k + 1) =
          n % 256 + 256 * (n / 256 % 256 ^ k) := by
        rw [Nat.pow_succ', Nat.mod_mul]
      simp [leBytes, leValue, ih, hsplit]

theorem leValue_lt (xs : List UInt8) : leValue xs < 256 ^ xs.length := by
  induction xs with
  | nil =>
      simp [leValue]
  | cons b bs ih =>
      have hb := b.toNat_lt
      rw [leValue, List.length_cons, Nat.pow_succ]
      omega

/-- Writing what was read gives the bytes back. -/
theorem leBytes_leValue (xs : List UInt8) :
    leBytes xs.length (leValue xs) = xs := by
  induction xs with
  | nil =>
      rfl
  | cons b bs ih =>
      have hb := b.toNat_lt
      have hhead : UInt8.ofNat (b.toNat + 256 * leValue bs) = b := by
        apply UInt8.toNat_inj.mp
        rw [UInt8.toNat_ofNat']
        omega
      have htail : (b.toNat + 256 * leValue bs) / 256 = leValue bs := by
        omega
      rw [List.length_cons, leValue, leBytes, hhead, htail, ih]

namespace Memory

/-- The `k` cells from an address on. -/
def read (m : Memory β) (a k : Nat) : List β :=
  (List.range k).map (fun i => m (a + i))

theorem Holds.read_eq
    {m : Memory β} {a : Nat} {xs : List β} (h : Holds m a xs) :
    m.read a xs.length = xs := by
  apply List.ext_getElem?
  intro i
  by_cases hi : i < xs.length
  · rw [h i hi]
    simp [read, hi]
  · simp [read, hi]

@[simp] theorem read_length (m : Memory β) (a k : Nat) :
    (m.read a k).length = k := by
  simp [read]

theorem read_succ (m : Memory β) (a k : Nat) :
    m.read a (k + 1) = m a :: m.read (a + 1) k := by
  rw [read, List.range_succ_eq_map, List.map_cons, List.map_map, read]
  congr 1
  apply List.map_congr_left
  intro i _
  show m (a + (i + 1)) = m (a + 1 + i)
  congr 1
  omega

/-- Cells are read piece by piece. -/
theorem read_add (m : Memory β) (a k n : Nat) :
    m.read a (k + n) = m.read a k ++ m.read (a + k) n := by
  induction k generalizing a with
  | zero =>
      simp [read]
  | succ k ih =>
      rw [Nat.succ_add, read_succ, read_succ, ih, List.cons_append,
        Nat.add_right_comm a 1 k]
      rfl

/-- Fewer cells are the first ones. -/
theorem take_read (m : Memory β) (a : Nat) {k n : Nat} (h : k ≤ n) :
    (m.read a n).take k = m.read a k := by
  obtain ⟨d, rfl⟩ := Nat.exists_eq_add_of_le h
  rw [read_add, List.take_left' (read_length m a k)]

/-- The others begin that much further on. -/
theorem drop_read (m : Memory β) (a k n : Nat) :
    (m.read a n).drop k = m.read (a + k) (n - k) := by
  by_cases h : k ≤ n
  · obtain ⟨d, rfl⟩ := Nat.exists_eq_add_of_le h
    rw [read_add, List.drop_left' (read_length m a k),
      Nat.add_sub_cancel_left]
  · rw [List.drop_of_length_le (by rw [read_length]; omega),
      Nat.sub_eq_zero_of_le (by omega)]
    rfl

/-- The first cells of what was written. -/
theorem read_store
    (m : Memory β) (a : Nat) {xs : List β} {k : Nat} (h : k ≤ xs.length) :
    (m.store a xs).read a k = xs.take k := by
  rw [← take_read _ _ h, (holds_store m a xs).read_eq]

/-- Cells in front of what was written. -/
theorem read_store_of_le
    (m : Memory β) {a b k : Nat} (xs : List β) (h : b + k ≤ a) :
    (m.store a xs).read b k = m.read b k := by
  apply List.map_congr_left
  intro i hi
  have hlt := List.mem_range.mp hi
  exact store_of_lt m xs (by omega)

/-- What is read is held. -/
theorem holds_read (m : Memory β) (a k : Nat) :
    Holds m a (m.read a k) := by
  intro i hi
  rw [read_length] at hi
  simp [read, hi]

/-- Little-endian number in the `k` bytes from an address on. -/
def readLE (m : Memory UInt8) (a k : Nat) : Nat :=
  leValue (m.read a k)

theorem Holds.readLE_leBytes
    {m : Memory UInt8} {a k n : Nat} (h : Holds m a (leBytes k n)) :
    m.readLE a k = n % 256 ^ k := by
  have hread := h.read_eq
  rw [leBytes_length] at hread
  rw [readLE, hread, leValue_leBytes]

/-- A number read from memory is held there. -/
theorem holds_leBytes_readLE (m : Memory UInt8) (a k : Nat) :
    m.Holds a (leBytes k (m.readLE a k)) := by
  have hbytes := leBytes_leValue (m.read a k)
  rw [read_length] at hbytes
  rw [readLE, hbytes]
  exact holds_read m a k

theorem readLE_lt (m : Memory UInt8) (a k : Nat) :
    m.readLE a k < 256 ^ k := by
  have hlt := leValue_lt (m.read a k)
  rwa [read_length] at hlt

/-- A number determines the bytes that it was read from. -/
theorem readLE_inj
    {m m' : Memory UInt8} {a k : Nat}
    (h : m.readLE a k = m'.readLE a k) {i : Nat} (hi : i < k) :
    m (a + i) = m' (a + i) := by
  have hheld := holds_leBytes_readLE m a k i (by rwa [leBytes_length])
  have hheld' := holds_leBytes_readLE m' a k i (by rwa [leBytes_length])
  rw [h, hheld'] at hheld
  exact (Option.some.inj hheld).symm

end Memory
end NetEngine
