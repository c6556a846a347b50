import Mathlib.Data.List.Induction

/-!
# Runs of a machine

A machine takes events one at a time and emits a list of observations at each
step.  `run` folds the step over a list of events and concatenates what was
emitted, so a run is a pair of the last state and the whole trace.

An invariant may speak about the trace as well as the state.  `run_invariant`
lifts it from one step to every run, and `run_invariant_along` does so for the
runs in which every step meets a guard.
-/

namespace NetEngine
namespace Machine

universe u v w

/-- A position in a list with one more element is the last or an old one. -/
theorem split_concat
    {α : Type u} {xs before after : List α} {x y : α}
    (h : xs ++ [x] = before ++ y :: after) :
    (before = xs ∧ y = x) ∨ ∃ after', xs = before ++ y :: after' := by
  rcases List.eq_nil_or_concat after with rfl | ⟨after', last, rfl⟩
  · obtain ⟨rfl, hlast⟩ := List.append_inj' h rfl
    cases hlast
    exact Or.inl ⟨rfl, rfl⟩
  · have h' : xs ++ [x] = (before ++ y :: after') ++ [last] := by
      simpa using h
    obtain ⟨rfl, -⟩ := List.append_inj' h' rfl
    exact Or.inr ⟨after', rfl⟩

variable {σ : Type u} {ε : Type v} {ο : Type w}
variable (step : σ → ε → σ × List ο)

/-- Last state and whole trace of a list of events. -/
def run (s : σ) : List ε → σ × List ο
  | [] => (s, [])
  | e :: es =>
      ((run (step s e).1 es).1,
        (step s e).2 ++ (run (step s e).1 es).2)

@[simp] theorem run_nil (s : σ) : run step s [] = (s, []) := by
  rfl

theorem run_cons (s : σ) (e : ε) (es : List ε) :
    run step s (e :: es) =
      ((run step (step s e).1 es).1,
        (step s e).2 ++ (run step (step s e).1 es).2) := by
  rfl

/-- A run continues from the state the first part leaves. -/
theorem run_append (s : σ) (es fs : List ε) :
    run step s (es ++ fs) =
      ((run step (run step s es).1 fs).1,
        (run step s es).2 ++ (run step (run step s es).1 fs).2) := by
  induction es generalizing s with
  | nil =>
      rfl
  | cons e es ih =>
      rw [List.cons_append, run_cons, run_cons, ih, List.append_assoc]

/-- Append one more event to a run. -/
theorem run_concat (s : σ) (es : List ε) (e : ε) :
    run step s (es ++ [e]) =
      ((step (run step s es).1 e).1,
        (run step s es).2 ++ (step (run step s es).1 e).2) := by
  rw [run_append, run_cons, run_nil, List.append_nil]

/--
The machine whose trace also says which events were taken: each is noted behind
what its step emitted.
-/
def noting (note : ε → List ο) (s : σ) (e : ε) : σ × List ο :=
  ((step s e).1, (step s e).2 ++ note e)

/--
Every step along a run meets a guard on the state it is taken in, the trace so
far and the event.
-/
def Along (P : σ → List ο → ε → Prop) (s : σ) (es : List ε) : Prop :=
  ∀ before e after, es = before ++ e :: after →
    P (run step s before).1 (run step s before).2 e

variable {step}

/-- A guard that holds along a run holds along each beginning of it. -/
theorem Along.of_append
    {P : σ → List ο → ε → Prop} {s : σ} {es fs : List ε}
    (h : Along step P s (es ++ fs)) :
    Along step P s es := by
  rintro before e after rfl
  exact h before e (after ++ fs) (by simp)

/-- The last step of a guarded run meets the guard. -/
theorem Along.last
    {P : σ → List ο → ε → Prop} {s : σ} {es : List ε} {e : ε}
    (h : Along step P s (es ++ [e])) :
    P (run step s es).1 (run step s es).2 e :=
  h es e [] rfl

/-- A guarded run is extended by a step that meets the guard. -/
theorem Along.concat
    {P : σ → List ο → ε → Prop} {s : σ} {es : List ε} {e : ε}
    (h : Along step P s es)
    (hlast : P (run step s es).1 (run step s es).2 e) :
    Along step P s (es ++ [e]) := by
  intro before e' after heq
  rcases split_concat heq with ⟨rfl, rfl⟩ | ⟨after', rfl⟩
  · exact hlast
  · exact h before e' after' rfl

/-- A run of no events meets every guard. -/
theorem Along.nil (P : σ → List ο → ε → Prop) (s : σ) :
    Along step P s [] := by
  intro before e after heq
  simp at heq

/-- A guarded run is a guarded first step and a guarded rest. -/
theorem Along.cons
    {P : σ → List ο → ε → Prop} {s : σ} {e : ε} {es : List ε}
    (hfirst : P s [] e)
    (hrest : Along step (fun t tr e' => P t ((step s e).2 ++ tr) e')
      (step s e).1 es) :
    Along step P s (e :: es) := by
  intro before e' after heq
  cases before with
  | nil =>
      cases heq
      exact hfirst
  | cons first before =>
      cases heq
      exact hrest before e' after rfl

/-- Guards that agree along a run guard the same runs. -/
theorem along_congr
    {P Q : σ → List ο → ε → Prop} {s : σ} {es : List ε}
    (h : ∀ before e after, es = before ++ e :: after →
      (P (run step s before).1 (run step s before).2 e ↔
        Q (run step s before).1 (run step s before).2 e)) :
    Along step P s es ↔ Along step Q s es := by
  constructor
  · intro hP before e after heq
    exact (h before e after heq).mp (hP before e after heq)
  · intro hQ before e after heq
    exact (h before e after heq).mpr (hQ before e after heq)

/--
A property of beginnings of a run that a step keeps exactly when it meets the
guard holds of all of them exactly when the run is guarded.
-/
theorem forall_prefix_iff_along
    {P : σ → List ο → ε → Prop} {I : List ε → Prop} {s : σ}
    (hinit : I [])
    (hstep : ∀ es e, I es →
      (I (es ++ [e]) ↔ P (run step s es).1 (run step s es).2 e))
    (es : List ε) :
    (∀ before, before <+: es → I before) ↔ Along step P s es := by
  induction es using List.reverseRecOn with
  | nil =>
      constructor
      · intro _
        exact Along.nil P s
      · intro _ before hbefore
        rw [List.prefix_nil.mp hbefore]
        exact hinit
  | append_singleton es e ih =>
      constructor
      · intro h
        have hes := h es (List.prefix_append _ _)
        have hlast := h (es ++ [e]) (List.prefix_refl _)
        refine (ih.mp fun before hbefore => ?_).concat
          ((hstep es e hes).mp hlast)
        exact h before (hbefore.trans (List.prefix_append _ _))
      · intro h before hbefore
        have hold := ih.mpr h.of_append
        rcases List.prefix_concat_iff.mp hbefore with rfl | hbefore
        · exact (hstep es e (hold es (List.prefix_refl _))).mpr h.last
        · exact hold before hbefore

/-- A guarded run, position by position. -/
theorem along_iff_forall_lt
    (P : σ → List ο → ε → Prop) (s : σ) (es : List ε) :
    Along step P s es ↔
      ∀ i, (h : i < es.length) →
        P (run step s (es.take i)).1 (run step s (es.take i)).2 es[i] := by
  constructor
  · intro halong i hi
    exact halong (es.take i) es[i] (es.drop (i + 1)) (by simp)
  · rintro hat before e after rfl
    have hlast := hat before.length (by simp)
    simpa using hlast

instance
    {P : σ → List ο → ε → Prop} [∀ s tr e, Decidable (P s tr e)]
    (s : σ) (es : List ε) :
    Decidable (Along step P s es) :=
  decidable_of_iff' _ (along_iff_forall_lt P s es)

/--
An invariant of state and trace that each guarded step preserves holds at the
end of every guarded run.
-/
theorem run_invariant_along
    {P : σ → List ο → ε → Prop} {I : σ → List ο → Prop} {s : σ}
    (hinit : I s [])
    (hstep : ∀ t out e, P t out e → I t out →
      I (step t e).1 (out ++ (step t e).2))
    {es : List ε} (h : Along step P s es) :
    I (run step s es).1 (run step s es).2 := by
  induction es using List.reverseRecOn with
  | nil =>
      exact hinit
  | append_singleton es e ih =>
      rw [run_concat]
      exact hstep _ _ _ h.last (ih h.of_append)

/-- A run that meets two guards. -/
theorem Along.and
    {P Q : σ → List ο → ε → Prop} {s : σ} {es : List ε}
    (hP : Along step P s es) (hQ : Along step Q s es) :
    Along step (fun t out e => P t out e ∧ Q t out e) s es :=
  fun before e after heq =>
    ⟨hP before e after heq, hQ before e after heq⟩

/--
A property of the states of a run that an invariant gives, and that a step
outside the guard ends, holds all along exactly when the run is guarded.
-/
theorem forall_prefix_iff_along_of_invariant
    {P Q : σ → List ο → ε → Prop} {I C : σ → List ο → Prop} {s : σ}
    (hinit : I s [])
    (hstep : ∀ t out e, Q t out e ∧ P t out e → I t out →
      I (step t e).1 (out ++ (step t e).2))
    (hgives : ∀ t out, I t out → C t out)
    (hends : ∀ t out e, I t out → ¬ P t out e →
      ¬ C (step t e).1 (out ++ (step t e).2))
    {es : List ε} (hQ : Along step Q s es) :
    (∀ before, before <+: es →
      C (run step s before).1 (run step s before).2) ↔
    Along step P s es := by
  constructor
  · intro h
    induction es using List.reverseRecOn with
    | nil =>
        exact Along.nil P s
    | append_singleton es e ih =>
        have hold : Along step P s es := ih hQ.of_append
          fun before hbefore => h before (hbefore.trans (List.prefix_append _ _))
        have hinv := run_invariant_along hinit hstep (hQ.of_append.and hold)
        refine hold.concat ?_
        by_contra hlast
        have hafter := h (es ++ [e]) (List.prefix_refl _)
        rw [run_concat] at hafter
        exact hends _ _ e hinv hlast hafter
  · rintro h before ⟨after, rfl⟩
    exact hgives _ _
      (run_invariant_along hinit hstep (hQ.of_append.and h.of_append))

/-- An invariant of state and trace that each step preserves. -/
theorem run_invariant
    {I : σ → List ο → Prop} {s : σ}
    (hinit : I s [])
    (hstep : ∀ t out e, I t out → I (step t e).1 (out ++ (step t e).2))
    (es : List ε) :
    I (run step s es).1 (run step s es).2 :=
  run_invariant_along (P := fun _ _ _ => True) hinit
    (fun t out e _ => hstep t out e) (fun _ _ _ _ => trivial)

/-- Every observation of a trace suits the trace before it. -/
def Traced (P : List ο → ο → Prop) (tr : List ο) : Prop :=
  ∀ before o after, tr = before ++ o :: after → P before o

theorem Traced.nil (P : List ο → ο → Prop) : Traced P [] := by
  intro before o after heq
  simp at heq

theorem Traced.concat
    {P : List ο → ο → Prop} {tr : List ο} {o : ο}
    (h : Traced P tr) (hlast : P tr o) : Traced P (tr ++ [o]) := by
  intro before o' after heq
  rcases split_concat heq with ⟨rfl, rfl⟩ | ⟨after', hafter⟩
  · exact hlast
  · exact h before o' after' hafter

/-- Observations that suit whatever comes before them. -/
theorem Traced.append
    {P : List ο → ο → Prop} {tr out : List ο} (h : Traced P tr)
    (hout : ∀ o ∈ out, ∀ before, P before o) : Traced P (tr ++ out) := by
  induction out using List.reverseRecOn with
  | nil =>
      rwa [List.append_nil]
  | append_singleton out o ih =>
      rw [← List.append_assoc]
      refine (ih fun o' ho' => ?_).concat ?_
      · exact hout o' (List.mem_append_left _ ho')
      · exact hout o (List.mem_append_right _ List.mem_cons_self) _

end Machine
end NetEngine
