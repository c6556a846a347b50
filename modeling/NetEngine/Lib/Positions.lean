import Mathlib.Data.List.Basic

/-!
# Positions in a list

Setting one position splits a list in two parts that stay.

A scan that keeps the candidate until a strictly smaller element comes along
ends at the first of the smallest elements.  In a list ordered by a rank it is
the least element by size and then by rank, so a class of elements wins the
scan exactly when one of its members precedes all elements outside the class.
-/

namespace NetEngine

universe u

variable {α : Type u}

/-- A position splits the list, also after it is set. -/
theorem split_set
    {xs : List α} {i : Nat} {x : α} (h : xs[i]? = some x) :
    ∃ before after, xs = before ++ x :: after ∧
      before.length = i ∧ ∀ y, xs.set i y = before ++ y :: after := by
  obtain ⟨hi, rfl⟩ := List.getElem?_eq_some_iff.mp h
  refine ⟨xs.take i, xs.drop (i + 1), by simp, ?_, ?_⟩
  · exact List.length_take_of_le (Nat.le_of_lt hi)
  · intro y
    rw [List.set_eq_take_append_cons_drop, if_pos hi]

/-- An element of a list with one more is an old one or the last. -/
theorem getElem?_concat_cases
    {xs : List α} {x y : α} {i : Nat} (h : (xs ++ [x])[i]? = some y) :
    xs[i]? = some y ∨ (i = xs.length ∧ y = x) := by
  by_cases hi : i < xs.length
  · rw [List.getElem?_append_left hi] at h
    exact Or.inl h
  · rw [List.getElem?_append_right (Nat.le_of_not_lt hi)] at h
    have hlast := (List.getElem?_eq_some_iff.mp h).1
    rw [List.length_singleton] at hlast
    have hzero : i - xs.length = 0 := by omega
    rw [hzero] at h
    cases h
    exact Or.inr ⟨by omega, rfl⟩

/-- Scan of a list that replaces the candidate by smaller elements. -/
def firstMin (size : α → Nat) (x : α) (xs : List α) : α :=
  xs.foldl (fun m y => if size m > size y then y else m) x

/-- Meeting the candidate itself changes nothing. -/
theorem firstMin_self (size : α → Nat) (x : α) (xs : List α) :
    firstMin size x (x :: xs) = firstMin size x xs := by
  simp [firstMin]

/-- Order by size and then by rank. -/
def Precedes (size rank : α → Nat) (x y : α) : Prop :=
  size x < size y ∨ (size x = size y ∧ rank x < rank y)

theorem Precedes.trans
    {size rank : α → Nat} {x y z : α}
    (hxy : Precedes size rank x y) (hyz : Precedes size rank y z) :
    Precedes size rank x z := by
  unfold Precedes at *
  omega

theorem Precedes.asymm
    {size rank : α → Nat} {x y : α} (hxy : Precedes size rank x y) :
    ¬ Precedes size rank y x := by
  unfold Precedes at *
  omega

/-- The scan ends at the candidate or at an element of the list. -/
theorem firstMin_mem (size : α → Nat) (x : α) (xs : List α) :
    firstMin size x xs ∈ x :: xs := by
  induction xs generalizing x with
  | nil =>
      exact List.mem_cons_self
  | cons y ys ih =>
      have hrest := ih (if size x > size y then y else x)
      show firstMin size (if size x > size y then y else x) ys ∈ x :: y :: ys
      split_ifs at hrest ⊢
      · exact List.mem_cons_of_mem _ hrest
      · rcases List.mem_cons.mp hrest with hx | hmem
        · rw [hx]
          exact List.mem_cons_self
        · exact List.mem_cons_of_mem _ (List.mem_cons_of_mem _ hmem)

/-- In a list ordered by rank the scan ends at the least element. -/
theorem firstMin_precedes
    {size rank : α → Nat} {x : α} {xs : List α}
    (hrank : (x :: xs).Pairwise (fun a b => rank a < rank b)) :
    ∀ y ∈ x :: xs,
      y = firstMin size x xs ∨ Precedes size rank (firstMin size x xs) y := by
  induction xs generalizing x with
  | nil =>
      intro y hy
      exact Or.inl (List.mem_singleton.mp hy)
  | cons z zs ih =>
      obtain ⟨hx, hzs⟩ := List.pairwise_cons.mp hrank
      obtain ⟨hz, htail⟩ := List.pairwise_cons.mp hzs
      have hxz := hx z List.mem_cons_self
      intro y hy
      show y = firstMin size (if size x > size z then z else x) zs ∨
        Precedes size rank
          (firstMin size (if size x > size z then z else x) zs) y
      split_ifs with hlt
      · have hmin := ih hzs
        rcases List.mem_cons.mp hy with rfl | hy
        · have hzy : Precedes size rank z y := Or.inl hlt
          rcases hmin z List.mem_cons_self with hm | hm
          · exact Or.inr (hm ▸ hzy)
          · exact Or.inr (hm.trans hzy)
        · exact hmin y hy
      · have hmin := @ih x (List.pairwise_cons.mpr
          ⟨fun w hw => hx w (List.mem_cons_of_mem _ hw), htail⟩)
        rcases List.mem_cons.mp hy with rfl | hy
        · exact hmin y List.mem_cons_self
        · rcases List.mem_cons.mp hy with rfl | hy
          · have hxy : Precedes size rank x y := by
              unfold Precedes
              omega
            rcases hmin x List.mem_cons_self with hm | hm
            · exact Or.inr (hm ▸ hxy)
            · exact Or.inr (hm.trans hxy)
          · exact hmin y (List.mem_cons_of_mem _ hy)

/--
The scan ends in a class whenever the list meets it exactly when some element
of the class precedes all elements outside it.
-/
theorem firstMin_favours_iff
    {size rank : α → Nat} {x : α} {xs : List α}
    (hrank : (x :: xs).Pairwise (fun a b => rank a < rank b))
    (p : α → Prop) :
    ((∃ y ∈ x :: xs, p y) → p (firstMin size x xs)) ↔
      ((∃ y ∈ x :: xs, p y) → ∃ y ∈ x :: xs, p y ∧
        ∀ z ∈ x :: xs, ¬ p z → Precedes size rank y z) := by
  have hmin := @firstMin_precedes α size rank x xs hrank
  have hmem := firstMin_mem size x xs
  constructor
  · intro hwins hex
    refine ⟨_, hmem, hwins hex, ?_⟩
    intro z hz hout
    rcases hmin z hz with heq | hprec
    · exact absurd (heq ▸ hwins hex) hout
    · exact hprec
  · intro hcond hex
    obtain ⟨y, hy, hpy, hbelow⟩ := hcond hex
    by_contra hout
    have hyz := hbelow _ hmem hout
    rcases hmin y hy with heq | hprec
    · exact hout (heq ▸ hpy)
    · exact hprec.asymm hyz

end NetEngine
