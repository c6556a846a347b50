import NetEngine.Threads.CloseJoins

/-!
# Deadlock of Close

`Close` keeps `m_mutex` while it waits for the thread's `Weakup`, and
`CloseWithoutWait` takes the same mutex.  When both are under way at once, the
owner waits for the thread and the thread for the owner.

A deadlocked state is stuck for good.  Crossing calls lead to one unless
somebody else can still provide the `Weakup`, so the runs without a deadlock in
reach are exactly those in which calls cross only then.
-/

namespace NetEngine
namespace Threads

section Deadlock

/--
The owner waits for a `Weakup` that nobody has made, and every thread that has
not ended needs the mutex that the owner holds.
-/
structure Deadlocked (s : CellThreadService) : Prop where
  waiting : s.owner = .waiting
  noWeakup : s.sem.weakupRef ≤ 0
  blocked : .calling ∈ s.workers
  others : ∀ w ∈ s.workers, w = .calling ∨ w = .ended

/-- No step leads out of a deadlock. -/
theorem Deadlocked.step
    {s : CellThreadService} (h : Deadlocked s) (e : ThreadEvent) :
    (s.step e).1 = s := by
  have hlocked : s.mutexFree = false := by
    simp [CellThreadService.mutexFree, h.waiting, OwnerPc.holdsMutex]
  cases e with
  | call f =>
      simp [CellThreadService.step, h.waiting]
  | owner =>
      have hnone : s.sem.wake = none := by
        rw [Semaphore.wake, if_neg]
        exact Int.not_lt.mpr h.noWeakup
      simp [CellThreadService.step, CellThreadService.ownerStep, h.waiting,
        hnone]
  | worker i =>
      simp only [CellThreadService.step]
      cases hw : s.workers[i]? with
      | none =>
          rfl
      | some w =>
          rcases h.others w (List.mem_of_getElem? hw) with rfl | rfl
          · simp [CellThreadService.workerStep, hlocked]
          · rfl
  | closeWithoutWait i =>
      simp only [CellThreadService.step]
      rw [if_neg]
      intro hw
      rcases h.others .onRun (List.mem_of_getElem? hw) with hw | hw
      · cases hw
      · cases hw

/-- A deadlock is forever. -/
theorem Deadlocked.run
    {s : CellThreadService} (h : Deadlocked s) (events : List ThreadEvent) :
    (Machine.run CellThreadService.step s events).1 = s := by
  induction events with
  | nil =>
      rfl
  | cons e es ih =>
      rw [Machine.run_cons, h.step e]
      exact ih

/-- Some thread is inside `OnWork` and does not wait for the mutex. -/
def GoesOn (workers : List WorkerPc) : Prop :=
  ∃ w ∈ workers, w ≠ .ended ∧ w ≠ .calling

/-- There is a `Weakup` that the owner's `Wait` can take. -/
def SpareWeakup (s : CellThreadService) : Prop :=
  if s.owner = .waiting then 0 < s.sem.weakupRef else 1 ≤ s.sem.waitRef

/--
Calls cross only with help at hand.  They cross when a run function calls
`CloseWithoutWait` while `Close` is between its test and its return, or when
`Close` finds the service running while a thread waits for the mutex in
`CloseWithoutWait`; help is another thread that goes on or a spare `Weakup`.
-/
def CrossesHelped (s : CellThreadService) : ThreadEvent → Prop
  | .closeWithoutWait i =>
      s.workers[i]? = some .onRun → s.owner.Closing →
        GoesOn (s.workers.eraseIdx i) ∨ SpareWeakup s
  | .owner =>
      s.owner = .locked .close → s.isRun = true → .calling ∈ s.workers →
        GoesOn s.workers ∨ SpareWeakup s
  | _ => True

/-- Where calls have crossed there is help. -/
structure HelpInv (s : CellThreadService) (tr : List ThreadObservation) :
    Prop where
  sem : SemInv s tr
  helped : s.owner.Closing → .calling ∈ s.workers →
    GoesOn s.workers ∨ SpareWeakup s

theorem HelpInv.not_deadlocked
    {s : CellThreadService} {tr : List ThreadObservation}
    (h : HelpInv s tr) :
    ¬ Deadlocked s := by
  intro hdead
  rcases h.helped (Or.inr hdead.waiting) hdead.blocked with hgoes | hspare
  · obtain ⟨w, hmem, hended, hcalling⟩ := hgoes
    rcases hdead.others w hmem with hw | hw
    · exact hcalling hw
    · exact hended hw
  · rw [SpareWeakup, if_pos hdead.waiting] at hspare
    have hnone := hdead.noWeakup
    omega

/-- A `Weakup` is there for the owner that is about to wait or waits. -/
theorem SemInv.spareWeakup_weakup
    {s : CellThreadService} {tr : List ThreadObservation}
    (h : SemInv s tr) {workers : List WorkerPc} :
    SpareWeakup { s with sem := s.sem.weakup, workers := workers } := by
  rw [SpareWeakup]
  split_ifs with howner
  · rcases h.waiting howner with ⟨hneg, hzero⟩ | ⟨hpos, hone⟩
    · rw [Semaphore.weakup_of_neg (by omega), hzero]
      exact Int.zero_lt_one
    · rw [Semaphore.weakup_of_nonneg hpos, hone]
      exact Int.zero_lt_one
  · have hpos := (h.calm howner).1
    rw [Semaphore.weakup_of_nonneg hpos]
    show 1 ≤ s.sem.waitRef + 1
    omega

theorem HelpInv.move
    {e : ThreadEvent} {s s' : CellThreadService}
    {tr out : List ThreadObservation}
    (h : HelpInv s tr) (hguard : CrossesHelped s e)
    (hmove : ThreadMove e s out s') :
    HelpInv s' (tr ++ out) := by
  refine ⟨h.sem.move hmove, ?_⟩
  cases hmove with
  | idle =>
      exact h.helped
  | call s f howner | lock s f howner hfree | start s howner hrun
  | ignored s f howner hf hrun | closed s howner hrun
  | closeWithoutWait s howner hrun | passed s howner href
  | wake s howner href =>
      rintro (hc | hc)
      · cases hc
      · cases hc
  | stop s howner hrun =>
      intro _ hblocked
      rcases hguard howner hrun hblocked with hgoes | hspare
      · exact Or.inl hgoes
      · rw [SpareWeakup, howner] at hspare
        exact Or.inr hspare
  | wait s howner href =>
      intro _ hblocked
      rcases h.helped (Or.inl howner) hblocked with hgoes | hspare
      · exact Or.inl hgoes
      · rw [SpareWeakup, howner, if_neg (by simp)] at hspare
        omega
  | advance _ s i w w' before after hworkers hi he hw hw' hcall hlock =>
      intro hc _
      by_cases hcalls : w' = .calling
      · obtain ⟨rfl, rfl⟩ := hcall hcalls
        have hat : s.workers[i]? = some .onRun := by
          rw [hworkers, ← hi, List.getElem?_append_right (le_refl _),
            Nat.sub_self]
          rfl
        have hrest : s.workers.eraseIdx i = before ++ after := by
          rw [hworkers, ← hi, List.eraseIdx_append_of_length_le (le_refl _),
            Nat.sub_self]
          rfl
        rcases hguard hat hc with ⟨v, hmem, hv⟩ | hspare
        · left
          rw [hrest] at hmem
          refine ⟨v, ?_, hv⟩
          rcases List.mem_append.mp hmem with hmem | hmem
          · exact List.mem_append_left _ hmem
          · exact List.mem_append_right _ (List.mem_cons_of_mem _ hmem)
        · exact Or.inr hspare
      · left
        exact ⟨w', List.mem_append_right _ List.mem_cons_self, hw', hcalls⟩
  | workerCloses s i before after hworkers hi hrun =>
      intro hc
      rw [h.sem.closing hc] at hrun
      cases hrun
  | weakup s i before after hworkers hi =>
      intro _ _
      exact Or.inr h.sem.spareWeakup_weakup

/-- No state of a run is deadlocked, nor is it after the owner's next step. -/
def DeadlockFree (events : List ThreadEvent) : Prop :=
  ∀ before after, events = before ++ after →
    ¬ Deadlocked (CellThreadService.run before).1 ∧
      ¬ Deadlocked (CellThreadService.run (before ++ [.owner])).1

/-- A crossing without help is a deadlock, at the latest when the owner waits. -/
theorem deadlocked_of_crossing
    {s : CellThreadService} {tr : List ThreadObservation}
    (hsem : SemInv s tr) (hclosing : s.owner.Closing)
    (hblocked : .calling ∈ s.workers) (hgoes : ¬ GoesOn s.workers)
    (hspare : ¬ SpareWeakup s) :
    Deadlocked s ∨ Deadlocked (s.step .owner).1 := by
  have hothers : ∀ w ∈ s.workers, w = .calling ∨ w = .ended := by
    intro w hmem
    by_contra hne
    rw [not_or] at hne
    exact hgoes ⟨w, hmem, hne.2, hne.1⟩
  rcases hclosing with howner | howner
  · right
    rw [SpareWeakup, howner, if_neg (by simp)] at hspare
    have hzero := (hsem.calm (by rw [howner]; simp)).2
    have hwaits : s.sem.waitRef - 1 < 0 := by omega
    have hstep : (s.step .owner).1 =
        { s with
          sem := { s.sem with waitRef := s.sem.waitRef - 1 }
          owner := .waiting } := by
      simp [CellThreadService.step, CellThreadService.ownerStep, howner,
        Semaphore.wait, hwaits]
    rw [hstep]
    exact ⟨rfl, hzero.le, hblocked, hothers⟩
  · left
    rw [SpareWeakup, if_pos howner] at hspare
    exact ⟨howner, Int.not_lt.mp hspare, hblocked, hothers⟩

/-- A step that crosses without help brings a deadlock into reach. -/
theorem crossing_of_not_helped
    {s : CellThreadService} {e : ThreadEvent} (h : ¬ CrossesHelped s e) :
    (s.step e).1.owner.Closing ∧ .calling ∈ (s.step e).1.workers ∧
      ¬ GoesOn (s.step e).1.workers ∧ ¬ SpareWeakup (s.step e).1 := by
  cases e with
  | call f =>
      exact absurd trivial h
  | worker i =>
      exact absurd trivial h
  | owner =>
      simp only [CrossesHelped, Classical.not_imp, not_or] at h
      obtain ⟨howner, hrun, hblocked, hgoes, hspare⟩ := h
      have hstep : (s.step .owner).1 =
          { s with isRun := false, owner := .stopped } := by
        simp [CellThreadService.step, CellThreadService.ownerStep, howner,
          hrun]
      rw [hstep]
      rw [SpareWeakup, howner] at hspare
      exact ⟨Or.inl rfl, hblocked, hgoes, hspare⟩
  | closeWithoutWait i =>
      simp only [CrossesHelped, Classical.not_imp, not_or] at h
      obtain ⟨hrun, hclosing, hgoes, hspare⟩ := h
      obtain ⟨before, after, hworkers, hi, hset⟩ := split_set hrun
      have hstep : (s.step (.closeWithoutWait i)).1 =
          { s with workers := before ++ .calling :: after } := by
        simp [CellThreadService.step, hrun, hset]
      have hrest : s.workers.eraseIdx i = before ++ after := by
        rw [hworkers, ← hi, List.eraseIdx_append_of_length_le (le_refl _),
          Nat.sub_self]
        rfl
      rw [hstep]
      refine ⟨hclosing, List.mem_append_right _ List.mem_cons_self, ?_,
        hspare⟩
      rintro ⟨v, hmem, hended, hcalling⟩
      refine hgoes ⟨v, ?_, hended, hcalling⟩
      rw [hrest]
      rcases List.mem_append.mp hmem with hmem | hmem
      · exact List.mem_append_left _ hmem
      · rcases List.mem_cons.mp hmem with hv | hmem
        · exact absurd hv hcalling
        · exact List.mem_append_right _ hmem

theorem helpInv_init : HelpInv {} [] := by
  refine ⟨semInv_init, ?_⟩
  intro _ hblocked
  cases hblocked

theorem helpInv_run
    {events : List ThreadEvent}
    (h : Machine.Along CellThreadService.step
      (fun s _ e => CrossesHelped s e) {} events) :
    HelpInv (CellThreadService.run events).1
      (CellThreadService.run events).2 :=
  Machine.run_invariant_along helpInv_init
    (fun s _ e hguard hI => hI.move hguard (threadStep_move s e)) h

/--
A run is free of deadlocks exactly when calls cross only where another thread or
a spare `Weakup` helps the owner out.
-/
theorem deadlockFree_iff (events : List ThreadEvent) :
    DeadlockFree events ↔
      Machine.Along CellThreadService.step
        (fun s _ e => CrossesHelped s e) {} events := by
  constructor
  · rintro hfree before e after rfl
    by_contra hcross
    obtain ⟨hclosing, hblocked, hgoes, hspare⟩ :=
      crossing_of_not_helped hcross
    have hnext := hfree (before ++ [e]) after (by simp)
    have hsem := semInv_run (before ++ [e])
    rw [CellThreadService.run, CellThreadService.run,
      Machine.run_concat _ _ (before ++ [e]), Machine.run_concat] at hnext
    rw [CellThreadService.run, Machine.run_concat] at hsem
    rcases deadlocked_of_crossing hsem hclosing hblocked hgoes hspare
      with hdead | hdead
    · exact hnext.1 hdead
    · exact hnext.2 hdead
  · rintro hhelped before after rfl
    have hbefore := helpInv_run hhelped.of_append
    refine ⟨hbefore.not_deadlocked, ?_⟩
    by_cases hcross :
        CrossesHelped (CellThreadService.run before).1 .owner
    · exact (helpInv_run (hhelped.of_append.concat hcross)).not_deadlocked
    · -- the owner has just passed its test and does not wait yet
      simp only [CrossesHelped, Classical.not_imp] at hcross
      intro hdead
      have hwaiting := hdead.waiting
      rw [CellThreadService.run, Machine.run_concat] at hwaiting
      rw [CellThreadService.run] at hcross
      simp [CellThreadService.step, CellThreadService.ownerStep,
        hcross.1, hcross.2.1] at hwaiting

/-- The select fails while the owner is on its way to the semaphore. -/
theorem close_deadlocks :
    ¬ ∀ events : List ThreadEvent,
      ¬ Deadlocked (CellThreadService.run events).1 := by
  intro h
  have hfree := h
    [.call .start, .owner, .owner, .worker 0, .call .close, .owner, .owner,
      .closeWithoutWait 0, .owner]
  refine hfree ⟨rfl, Int.le_refl 0, List.mem_singleton_self _, ?_⟩
  intro w hmem
  exact Or.inl (List.mem_singleton.mp hmem)

end Deadlock

end Threads
end NetEngine
