import Mathlib.Order.Basic

/-!
# Operations that may throw

An operation on an object returns a value or throws, and in either case leaves
the object in some state.  A contract says what all operations of a kind have in
common: an invariant, a relation between the state before and the state after,
and the exceptions they throw.  It is kept on both exits.

`Keeps` adds a precondition and a postcondition on the returned value, so that
an operation can be proved from the ones it calls; the relation is a preorder
and takes care of itself.
-/

namespace NetEngine

universe u

variable {ε σ α β : Type u}

section Steps

variable {x : EStateM ε σ α} {f : α → EStateM ε σ β} {s t : σ}

theorem Fallible.bind_ok {a : α} (h : x s = .ok a t) :
    (x >>= f) s = f a t := by
  show EStateM.bind x f s = _
  rw [EStateM.bind, h]

theorem Fallible.bind_error {e : ε} (h : x s = .error e t) :
    (x >>= f) s = .error e t := by
  show EStateM.bind x f s = _
  rw [EStateM.bind, h]

theorem Fallible.get_bind {g : σ → EStateM ε σ β} :
    (MonadState.get >>= g) s = g s s := by
  rfl

end Steps

/-- What operations of a kind have in common. -/
structure Contract (ε σ : Type u) where
  inv : σ → Prop
  rel : σ → σ → Prop
  err : ε → Prop
  refl : ∀ s, rel s s
  trans : ∀ {s t r}, rel s t → rel t r → rel s r

namespace Contract

variable (c : Contract ε σ)

/-- How an operation ends from a state. -/
inductive Ends (s : σ) (Q : α → σ → Prop) : EStateM.Result ε σ α → Prop
  | ok {a : α} {t : σ} (hinv : c.inv t) (hrel : c.rel s t) (hQ : Q a t) :
      Ends s Q (.ok a t)
  | error {e : ε} {t : σ} (herr : c.err e) (hinv : c.inv t)
      (hrel : c.rel s t) :
      Ends s Q (.error e t)

/-- An operation keeps the contract; `P` holds before and `Q` of its result. -/
def Keeps (P : σ → Prop) (x : EStateM ε σ α) (Q : α → σ → Prop) : Prop :=
  ∀ s, c.inv s → P s → c.Ends s Q (x s)

/-- An operation keeps the contract from every state. -/
abbrev Total (x : EStateM ε σ α) : Prop :=
  c.Keeps (fun _ => True) x (fun _ _ => True)

variable {c}

/-- What is known after an operation that has returned. -/
theorem Keeps.returned
    {P : σ → Prop} {x : EStateM ε σ α} {Q : α → σ → Prop}
    (h : c.Keeps P x Q) {s t : σ} {a : α} (hinv : c.inv s) (hP : P s)
    (hres : x s = .ok a t) : c.inv t ∧ c.rel s t ∧ Q a t := by
  have hend := h s hinv hP
  rw [hres] at hend
  cases hend with
  | ok hinv' hrel hQ =>
      exact ⟨hinv', hrel, hQ⟩

theorem Keeps.pure
    {P : σ → Prop} {Q : α → σ → Prop} (a : α) (h : ∀ s, P s → Q a s) :
    c.Keeps P (pure a) Q :=
  fun s hinv hP => .ok hinv (c.refl s) (h s hP)

theorem Keeps.throw
    {P : σ → Prop} {Q : α → σ → Prop} {e : ε} (h : c.err e) :
    c.Keeps P (throw e) Q :=
  fun s hinv _ => .error h hinv (c.refl s)

theorem Keeps.modify
    {P : σ → Prop} {f : σ → σ} {Q : PUnit → σ → Prop}
    (h : ∀ s, c.inv s → P s →
      c.inv (f s) ∧ c.rel s (f s) ∧ Q ⟨⟩ (f s)) :
    c.Keeps P (modify f) Q :=
  fun s hinv hP => .ok (h s hinv hP).1 (h s hinv hP).2.1 (h s hinv hP).2.2

/-- An operation continues where another one ends. -/
theorem Ends.bind
    {s t : σ} (hrel : c.rel s t) {Q : α → σ → Prop}
    {r : EStateM.Result ε σ α} (h : c.Ends t Q r) :
    c.Ends s Q r := by
  cases h with
  | ok hinv hrel' hQ =>
      exact .ok hinv (c.trans hrel hrel') hQ
  | error herr hinv hrel' =>
      exact .error herr hinv (c.trans hrel hrel')

theorem Ends.weaken
    {s : σ} {Q Q' : α → σ → Prop} {r : EStateM.Result ε σ α}
    (h : c.Ends s Q r)
    (hQ : ∀ a t, c.inv t → c.rel s t → Q a t → Q' a t) :
    c.Ends s Q' r := by
  cases h with
  | ok hinv hrel hres =>
      exact .ok hinv hrel (hQ _ _ hinv hrel hres)
  | error herr hinv hrel =>
      exact .error herr hinv hrel

theorem Keeps.bind
    {P : σ → Prop} {x : EStateM ε σ α} {Q : α → σ → Prop}
    {f : α → EStateM ε σ β} {S : β → σ → Prop}
    (hx : c.Keeps P x Q) (hf : ∀ a, c.Keeps (Q a) (f a) S) :
    c.Keeps P (x >>= f) S := by
  intro s hinv hP
  have hfirst := hx s hinv hP
  cases hres : x s with
  | ok a t =>
      rw [Fallible.bind_ok hres]
      rw [hres] at hfirst
      cases hfirst with
      | ok hinv' hrel hQ =>
          exact (hf a t hinv' hQ).bind hrel
  | error e t =>
      rw [Fallible.bind_error hres]
      rw [hres] at hfirst
      cases hfirst with
      | error herr hinv' hrel =>
          exact .error herr hinv' hrel

/-- An operation that looks at the state goes on from a known one. -/
theorem Keeps.get_bind
    {P : σ → Prop} {f : σ → EStateM ε σ α} {Q : α → σ → Prop}
    (h : ∀ t, c.inv t → P t → c.Keeps (fun s => s = t) (f t) Q) :
    c.Keeps P (MonadState.get >>= f) Q :=
  fun s hinv hP => h s hinv hP s hinv rfl

/-- A step whose result is known. -/
theorem Keeps.known_bind
    {t : σ} {x : EStateM ε σ α} {a : α} {f : α → EStateM ε σ β}
    {Q : β → σ → Prop} (hx : x t = .ok a t)
    (h : c.Keeps (fun s => s = t) (f a) Q) :
    c.Keeps (fun s => s = t) (x >>= f) Q := by
  rintro s hinv rfl
  rw [Fallible.bind_ok hx]
  exact h s hinv rfl

/-- The precondition may be stronger and the postcondition weaker. -/
theorem Keeps.weaken
    {P P' : σ → Prop} {x : EStateM ε σ α} {Q Q' : α → σ → Prop}
    (h : c.Keeps P x Q) (hP : ∀ s, c.inv s → P' s → P s)
    (hQ : ∀ a s, c.inv s → Q a s → Q' a s) :
    c.Keeps P' x Q' :=
  fun s hinv hP' => (h s hinv (hP s hinv hP')).weaken
    (fun a t hinv' _ => hQ a t hinv')

/-- What the relation carries over still holds afterwards. -/
theorem Keeps.stable
    {P : σ → Prop} {x : EStateM ε σ α} {Q : α → σ → Prop}
    (h : c.Keeps P x Q) (hcarry : ∀ s t, P s → c.rel s t → P t) :
    c.Keeps P x (fun _ => P) :=
  fun s hinv hP => (h s hinv hP).weaken
    (fun _ t _ hrel _ => hcarry s t hP hrel)

/-- A precondition that some value meets in every state. -/
theorem Keeps.of_each
    {ι : Type u} {P : ι → σ → Prop} {x : EStateM ε σ α}
    {Q : α → σ → Prop} (f : σ → ι) (hf : ∀ s, P (f s) s)
    (h : ∀ i, c.Keeps (P i) x Q) {P' : σ → Prop} :
    c.Keeps P' x Q :=
  fun s hinv _ => h (f s) s hinv (hf s)

theorem Keeps.total
    {P : σ → Prop} {x : EStateM ε σ α} (h : c.Total x) :
    c.Keeps P x (fun _ _ => True) :=
  h.weaken (fun _ _ _ => trivial) (fun _ _ _ _ => trivial)

/-- The result is not looked at. -/
theorem Keeps.forget
    {P : σ → Prop} {x : EStateM ε σ α} {Q : α → σ → Prop}
    (h : c.Keeps P x Q) :
    c.Keeps P x (fun _ _ => True) :=
  h.weaken (fun _ _ => id) (fun _ _ _ _ => trivial)

theorem Keeps.ite
    {p : Prop} [Decidable p] {P : σ → Prop} {x y : EStateM ε σ α}
    {Q : α → σ → Prop} (hx : p → c.Keeps P x Q)
    (hy : ¬ p → c.Keeps P y Q) :
    c.Keeps P (if p then x else y) Q := by
  by_cases hp : p
  · rw [if_pos hp]
    exact hx hp
  · rw [if_neg hp]
    exact hy hp

/-- How `try … finally` ends: the exception of the cleanup wins. -/
theorem tryFinally_apply (x : EStateM ε σ α) (y : EStateM ε σ β) (s : σ) :
    tryFinally x y s =
      match x s with
      | .ok a t =>
          match y t with
          | .ok _ r => .ok a r
          | .error e r => .error e r
      | .error e t =>
          match y t with
          | .ok _ r => .error e r
          | .error e' r => .error e' r := by
  simp only [tryFinally, tryFinally', Functor.map, EStateM.map]
  cases x s with
  | ok a t =>
      dsimp only
      cases y t <;> rfl
  | error e t =>
      dsimp only
      cases y t <;> rfl

/-- The cleanup of `try … finally` runs on both exits. -/
theorem Keeps.tryFinally
    {P : σ → Prop} {x : EStateM ε σ α} {y : EStateM ε σ β}
    {Q : α → σ → Prop} (hx : c.Keeps P x Q) (hy : c.Total y) :
    c.Keeps P (tryFinally x y) (fun _ _ => True) := by
  intro s hinv hP
  have hfirst := hx s hinv hP
  rw [tryFinally_apply]
  cases hres : x s with
  | ok a t =>
      rw [hres] at hfirst
      cases hfirst with
      | ok hinv' hrel _ =>
          have hlast := hy t hinv' trivial
          dsimp only
          cases hres' : y t with
          | ok b r =>
              rw [hres'] at hlast
              cases hlast with
              | ok hinv'' hrel' _ =>
                  exact .ok hinv'' (c.trans hrel hrel') trivial
          | error e r =>
              rw [hres'] at hlast
              cases hlast with
              | error herr hinv'' hrel' =>
                  exact .error herr hinv'' (c.trans hrel hrel')
  | error e t =>
      rw [hres] at hfirst
      cases hfirst with
      | error herr hinv' hrel =>
          have hlast := hy t hinv' trivial
          dsimp only
          cases hres' : y t with
          | ok b r =>
              rw [hres'] at hlast
              cases hlast with
              | ok hinv'' hrel' _ =>
                  exact .error herr hinv'' (c.trans hrel hrel')
          | error e' r =>
              rw [hres'] at hlast
              cases hlast with
              | error herr' hinv'' hrel' =>
                  exact .error herr' hinv'' (c.trans hrel hrel')

end Contract

end NetEngine
