import Mathlib.Logic.Function.Basic
import Mathlib.Tactic.SplitIfs

/-!
# Dictionaries

A dictionary gives at most one value for each key, and adding a key that it has
fails.  Two dictionaries that are inverse to each other stay so when a pair that
is new to both is added, and when a pair is removed from both.
-/

namespace NetEngine

universe u v

abbrev Dictionary (κ : Type u) (ν : Type v) := κ → Option ν

namespace Dictionary

variable {κ : Type u} {ν : Type v}

def empty : Dictionary κ ν := fun _ => none

section Update

variable [DecidableEq κ]

/-- Nothing when the key is in use. -/
def add (d : Dictionary κ ν) (k : κ) (v : ν) : Option (Dictionary κ ν) :=
  match d k with
  | none => some (Function.update d k (some v))
  | some _ => none

def remove (d : Dictionary κ ν) (k : κ) : Dictionary κ ν :=
  Function.update d k none

theorem add_of_none {d : Dictionary κ ν} {k : κ} (h : d k = none) (v : ν) :
    d.add k v = some (Function.update d k (some v)) := by
  simp only [add, h]

theorem add_of_ne_none
    {d : Dictionary κ ν} {k : κ} (h : d k ≠ none) (v : ν) :
    d.add k v = none := by
  obtain ⟨w, hw⟩ := Option.ne_none_iff_exists'.mp h
  simp only [add, hw]

theorem update_ne_none {d : Dictionary κ ν} {k k' : κ} {v : ν} :
    Function.update d k (some v) k' ≠ none ↔ k' = k ∨ d k' ≠ none := by
  rcases eq_or_ne k' k with rfl | hne
  · rw [Function.update_self]
    exact ⟨fun _ => Or.inl rfl, fun _ => Option.some_ne_none v⟩
  · rw [Function.update_of_ne hne, or_iff_right hne]

theorem remove_ne_none {d : Dictionary κ ν} {k k' : κ} :
    d.remove k k' ≠ none ↔ k' ≠ k ∧ d k' ≠ none := by
  rcases eq_or_ne k' k with rfl | hne
  · rw [remove, Function.update_self]
    exact ⟨fun h => absurd rfl h, fun h => absurd rfl h.1⟩
  · rw [remove, Function.update_of_ne hne, and_iff_right hne]

/-- What is left after a key was removed was there before. -/
theorem of_remove {d : Dictionary κ ν} {k k' : κ} {v : ν}
    (h : d.remove k k' = some v) : d k' = some v := by
  rcases eq_or_ne k' k with rfl | hne
  · rw [remove, Function.update_self] at h
    cases h
  · rwa [remove, Function.update_of_ne hne] at h

/-- A key that was added is removed again. -/
theorem remove_update
    {d : Dictionary κ ν} {k : κ} (h : d k = none) (v : ν) :
    remove (Function.update d k (some v)) k = d := by
  rw [remove, Function.update_idem, ← h, Function.update_eq_self]

end Update

/-- Each gives the keys of the other's values. -/
def Inverse (f : Dictionary κ ν) (g : Dictionary ν κ) : Prop :=
  ∀ k v, f k = some v ↔ g v = some k

namespace Inverse

variable {f : Dictionary κ ν} {g : Dictionary ν κ} {k : κ} {v : ν}

theorem of_empty : Inverse (empty : Dictionary κ ν) empty := by
  intro k v
  constructor
  · intro h
    cases h
  · intro h
    cases h

/-- A key without a value is no value's key. -/
theorem ne_of_none (h : Inverse f g) (hk : f k = none) (w : ν) :
    g w ≠ some k := by
  intro hw
  have hfk : f k = some w := (h k w).mpr hw
  rw [hk] at hfk
  cases hfk

theorem symm (h : Inverse f g) : Inverse g f :=
  fun v k => (h k v).symm

variable [DecidableEq κ] [DecidableEq ν]

theorem add (h : Inverse f g) (hk : f k = none) (hv : g v = none) :
    Inverse (Function.update f k (some v)) (Function.update g v (some k)) := by
  intro k' v'
  by_cases hk' : k' = k
  · subst hk'
    rw [Function.update_self]
    by_cases hv' : v' = v
    · subst hv'
      rw [Function.update_self]
      exact ⟨fun _ => rfl, fun _ => rfl⟩
    · rw [Function.update_of_ne hv']
      constructor
      · intro heq
        exact absurd (Option.some.inj heq).symm hv'
      · intro heq
        exact absurd heq (h.ne_of_none hk v')
  · rw [Function.update_of_ne hk']
    by_cases hv' : v' = v
    · subst hv'
      rw [Function.update_self]
      constructor
      · intro heq
        exact absurd heq (h.symm.ne_of_none hv k')
      · intro heq
        exact absurd (Option.some.inj heq).symm hk'
    · rw [Function.update_of_ne hv']
      exact h k' v'

theorem remove (h : Inverse f g) (hkv : f k = some v) :
    Inverse (f.remove k) (g.remove v) := by
  intro k' v'
  have hvk : g v = some k := (h k v).mp hkv
  simp only [Dictionary.remove, Function.update_apply]
  split_ifs with hk' hv' hv'
  · exact Iff.rfl
  · subst hk'
    constructor
    · intro heq
      cases heq
    · intro heq
      have hv : f k' = some v' := (h k' v').mpr heq
      rw [hkv] at hv
      exact absurd (Option.some.inj hv).symm hv'
  · subst hv'
    constructor
    · intro heq
      have hk : g v' = some k' := (h k' v').mp heq
      rw [hvk] at hk
      exact absurd (Option.some.inj hk).symm hk'
    · intro heq
      cases heq
  · exact h k' v'

end Inverse

end Dictionary

end NetEngine
