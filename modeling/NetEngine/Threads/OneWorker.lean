import NetEngine.Threads.CloseJoins

/-!
# One worker at a time

`m_isRun` says that the service is to run, not that a thread is in `OnWork`.  A
`Start` that finds it clear makes a thread, whatever became of the last one.

The counter `m_wait_ref` tells the difference: at such a `Start` it is the
number of stops by `CloseWithoutWait` less the threads still inside.  So there
is never more than one worker exactly in the runs in which each `Start` that
makes a thread finds the counter equal to the number of these stops.
-/

namespace NetEngine
namespace Threads

/-- At most one thread is between the beginning of `OnWork` and `Weakup`. -/
def OneWorker (s : CellThreadService) : Prop :=
  s.inside ≤ 1

instance (s : CellThreadService) : Decidable (OneWorker s) :=
  inferInstanceAs (Decidable (_ ≤ _))

/--
A `Start` that finds `m_isRun` clear finds `m_wait_ref` equal to the number of
stops by `CloseWithoutWait`.
-/
def StartsAlone (s : CellThreadService) (tr : List ThreadObservation)
    (e : ThreadEvent) : Prop :=
  e = .owner → s.owner = .locked .start → s.isRun = false →
    s.sem.waitRef = selfStops tr

/-- What the counter lacks at a `Start` are the threads still inside. -/
theorem SemInv.startsAlone_iff
    {s : CellThreadService} {tr : List ThreadObservation}
    (h : SemInv s tr) (howner : s.owner = .locked .start)
    (hrun : s.isRun = false) :
    s.sem.waitRef = selfStops tr ↔ s.inside = 0 := by
  have hbalance := h.balance
  rw [howner, hrun] at hbalance
  simp only [Bool.false_eq_true, if_false, reduceCtorEq] at hbalance
  constructor
  · intro href
    omega
  · intro hzero
    omega

/-- A run without `CloseWithoutWait` has no other threads at a `Start`. -/
theorem SemInv.startsAlone
    {s : CellThreadService} {tr : List ThreadObservation}
    (h : SemInv s tr) (hnone : selfStops tr = 0) (e : ThreadEvent) :
    StartsAlone s tr e := by
  intro _ howner hrun
  have hbalance := h.balance
  have hcalm := h.calm (by rw [howner]; simp)
  rw [howner, hrun] at hbalance
  simp only [Bool.false_eq_true, if_false, reduceCtorEq] at hbalance
  omega

theorem step_start
    {s : CellThreadService} (howner : s.owner = .locked .start)
    (hrun : s.isRun = false) :
    (s.step .owner).1.inside = s.inside + 1 := by
  simp [CellThreadService.step, CellThreadService.ownerStep, howner, hrun,
    CellThreadService.inside]

/-- Only a `Start` that finds `m_isRun` clear adds a thread. -/
theorem ThreadMove.inside_le
    {e : ThreadEvent} {s s' : CellThreadService}
    {out : List ThreadObservation} (h : ThreadMove e s out s') :
    s'.inside ≤ s.inside ∨
      (e = .owner ∧ s.owner = .locked .start ∧ s.isRun = false) := by
  cases h with
  | start s howner hrun =>
      exact Or.inr ⟨rfl, howner, hrun⟩
  | idle | call | lock | ignored | closed | stop | closeWithoutWait | passed
  | wait | wake =>
      exact Or.inl (Nat.le_refl _)
  | advance _ s i w w' before after hworkers hi he hw hw' hcall hlock =>
      left
      rw [inside_split hworkers, @inside_split _ before after w' rfl,
        if_neg hw, if_neg hw']
  | workerCloses s i before after hworkers hi hrun =>
      left
      rw [inside_split hworkers, @inside_split _ before after .onRun rfl]
      simp
  | weakup s i before after hworkers hi =>
      left
      rw [inside_split hworkers, @inside_split _ before after .ended rfl]
      simp

theorem run_oneWorker_concat
    {es : List ThreadEvent} {e : ThreadEvent}
    (h : OneWorker (CellThreadService.run es).1) :
    OneWorker (CellThreadService.run (es ++ [e])).1 ↔
      StartsAlone (CellThreadService.run es).1
        (CellThreadService.run es).2 e := by
  have hsem := semInv_run es
  rw [CellThreadService.run, Machine.run_concat]
  show OneWorker ((CellThreadService.run es).1.step e).1 ↔ _
  rcases (threadStep_move (CellThreadService.run es).1 e).inside_le with
    hle | ⟨rfl, howner, hrun⟩
  · constructor
    · rintro - rfl howner hrun
      rw [step_start howner hrun] at hle
      omega
    · intro _
      exact Nat.le_trans hle h
  · constructor
    · intro hone _ _ _
      rw [OneWorker, step_start howner hrun] at hone
      exact (hsem.startsAlone_iff howner hrun).mpr (by omega)
    · intro hguard
      have hzero := (hsem.startsAlone_iff howner hrun).mp
        (hguard rfl howner hrun)
      rw [OneWorker, step_start howner hrun, hzero]

/-- A service none of whose threads is stopped without waiting. -/
theorem oneWorker_of_no_selfStops
    {events : List ThreadEvent}
    (h : selfStops (CellThreadService.run events).2 = 0) :
    OneWorker (CellThreadService.run events).1 := by
  induction events using List.reverseRecOn with
  | nil =>
      exact Nat.zero_le 1
  | append_singleton es e ih =>
      rw [CellThreadService.run, Machine.run_append, selfStops_append] at h
      have hzero := (Nat.add_eq_zero_iff.mp h).1
      exact (run_oneWorker_concat (ih hzero)).mpr
        ((semInv_run es).startsAlone hzero e)

/--
There is never more than one worker exactly when every `Start` that makes a
thread finds `m_wait_ref` equal to the number of stops by `CloseWithoutWait`.
-/
theorem oneWorker_iff (events : List ThreadEvent) :
    (∀ before, before <+: events →
      OneWorker (CellThreadService.run before).1) ↔
      Machine.Along CellThreadService.step StartsAlone {} events := by
  refine Machine.forall_prefix_iff_along ?_ ?_ events
  · exact Nat.zero_le 1
  · intro es e hone
    exact run_oneWorker_concat hone

/-- A thread stops the service, is not yet back, and `Start` makes another. -/
theorem two_workers :
    ¬ ∀ events : List ThreadEvent,
      OneWorker (CellThreadService.run events).1 := by
  intro h
  have hone := h
    [.call .start, .owner, .owner, .worker 0, .closeWithoutWait 0,
      .worker 0, .worker 0, .call .start, .owner, .owner, .worker 1]
  exact absurd hone (by decide)

end Threads
end NetEngine
