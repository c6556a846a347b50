import Mathlib.Tactic.Ring
import NetEngine.Threads.ThreadService

/-!
# Close as a join

The semaphore counts `Weakup` calls against `Wait` calls.  A thread that was
stopped by `CloseWithoutWait` makes a `Weakup` that no `Wait` belongs to, and
until it makes it a `Close` sees a stopped service and returns at once.

`SemInv` keeps the accounts over all runs: threads inside `OnWork`, spare
`Weakup`s and threads stopped without waiting.  `Close` joins in every run in
which it finds nobody inside or a running service none of whose threads was
stopped without waiting.
-/

namespace NetEngine
namespace Threads

section Accounts

/-- How often `CloseWithoutWait` has stopped the service. -/
def selfStops (tr : List ThreadObservation) : Nat :=
  tr.count .closedWithoutWait

/-- `Close` is between its test and its return. -/
def OwnerPc.Closing (pc : OwnerPc) : Prop :=
  pc = .stopped ∨ pc = .waiting

/-- Accounts of the semaphore. -/
structure SemInv (s : CellThreadService) (tr : List ThreadObservation) :
    Prop where
  balance : (s.inside : Int) + s.sem.waitRef =
    (if s.isRun then 1 else 0) + selfStops tr +
      (if s.owner = .stopped then 1 else 0)
  calm : s.owner ≠ .waiting → 0 ≤ s.sem.waitRef ∧ s.sem.weakupRef = 0
  waiting : s.owner = .waiting →
    (s.sem.waitRef = -1 ∧ s.sem.weakupRef = 0) ∨
      (0 ≤ s.sem.waitRef ∧ s.sem.weakupRef = 1)
  closing : s.owner.Closing → s.isRun = false

theorem selfStops_append (tr out : List ThreadObservation) :
    selfStops (tr ++ out) = selfStops tr + selfStops out :=
  List.count_append

theorem inside_split
    {s : CellThreadService} {before after : List WorkerPc} {w : WorkerPc}
    (h : s.workers = before ++ w :: after) :
    s.inside = before.countP (fun w => w ≠ .ended) +
      after.countP (fun w => w ≠ .ended) +
        (if w = .ended then 0 else 1) := by
  rw [CellThreadService.inside, h, List.countP_append, List.countP_cons]
  by_cases hw : w = .ended
  · simp [hw]
  · simp [hw]
    omega

theorem semInv_init : SemInv {} [] := by
  refine ⟨rfl, fun _ => ⟨Int.le_refl 0, rfl⟩, ?_, fun _ => rfl⟩
  intro h
  cases h

/-- Outside of `Close` only `m_isRun` and the semaphore matter. -/
theorem SemInv.quiet
    {s s' : CellThreadService} {tr out : List ThreadObservation}
    (h : SemInv s tr) (hinside : s'.inside = s.inside)
    (hsem : s'.sem = s.sem) (hrun : s'.isRun = s.isRun)
    (hout : selfStops out = 0)
    (howner : s'.owner = s.owner ∨
      (¬ s.owner.Closing ∧ ¬ s'.owner.Closing)) :
    SemInv s' (tr ++ out) := by
  rcases howner with howner | ⟨hopen, hopen'⟩
  · refine ⟨?_, ?_, ?_, ?_⟩
    · rw [hinside, hsem, hrun, howner, selfStops_append, hout]
      exact h.balance
    · rw [hsem, howner]
      exact h.calm
    · rw [hsem, howner]
      exact h.waiting
    · rw [hrun, howner]
      exact h.closing
  · rw [OwnerPc.Closing, not_or] at hopen hopen'
    refine ⟨?_, ?_, ?_, ?_⟩
    · have hbalance := h.balance
      rw [if_neg hopen.1] at hbalance
      rw [hinside, hsem, hrun, if_neg hopen'.1, selfStops_append, hout]
      exact hbalance
    · rw [hsem]
      exact fun _ => h.calm hopen.2
    · exact fun hw => absurd hw hopen'.2
    · exact fun hc => absurd hc (not_or.mpr hopen')

theorem SemInv.start
    {s : CellThreadService} {tr : List ThreadObservation}
    (h : SemInv s tr) (howner : s.owner = .locked .start)
    (hrun : s.isRun = false) :
    SemInv
      { s with
        isRun := true
        owner := .idle
        workers := s.workers ++ [.onCreate] } (tr ++ []) := by
  have hbalance := h.balance
  have hcalm := h.calm (by rw [howner]; simp)
  rw [List.append_nil]
  refine ⟨?_, fun _ => hcalm, (fun hw => by cases hw), ?_⟩
  · simp only [CellThreadService.inside, howner, hrun] at hbalance
    simp [CellThreadService.inside]
    simp at hbalance
    omega
  · rintro (hc | hc)
    · cases hc
    · cases hc

/-- `m_isRun` is cleared by `Close`, who then waits, or without waiting. -/
theorem SemInv.cleared
    {s s' : CellThreadService} {tr out : List ThreadObservation}
    (h : SemInv s tr) (hrun : s.isRun = true)
    (hrun' : s'.isRun = false) (hinside : s'.inside = s.inside)
    (hsem : s'.sem = s.sem) (hwait : s'.owner ≠ .waiting)
    (hout : selfStops out + (if s'.owner = .stopped then 1 else 0) = 1) :
    SemInv s' (tr ++ out) := by
  have hbalance := h.balance
  have hopen : ¬ s.owner.Closing := by
    intro hc
    rw [h.closing hc] at hrun
    cases hrun
  rw [OwnerPc.Closing, not_or] at hopen
  refine ⟨?_, ?_, fun hw => absurd hw hwait, fun _ => hrun'⟩
  · rw [hrun, if_pos rfl, if_neg hopen.1] at hbalance
    rw [hinside, hsem, hrun', selfStops_append, hbalance]
    simp only [Bool.false_eq_true, if_false]
    split_ifs at hout ⊢ <;> push_cast <;> omega
  · rw [hsem]
    exact fun _ => h.calm hopen.2

theorem SemInv.passed
    {s : CellThreadService} {tr : List ThreadObservation}
    (h : SemInv s tr) (howner : s.owner = .stopped)
    (href : s.sem.waitRef ≥ 1) (stopped : Bool) (inside : Nat) :
    SemInv
      { s with
        sem := { s.sem with waitRef := s.sem.waitRef - 1 }
        owner := .idle } (tr ++ [.closeReturned stopped inside]) := by
  have hbalance := h.balance
  have hcalm := h.calm (by rw [howner]; simp)
  have hrun := h.closing (Or.inl howner)
  refine ⟨?_, ?_, (fun hw => by cases hw), fun _ => hrun⟩
  · rw [howner, hrun] at hbalance
    rw [selfStops_append]
    simp [hrun, selfStops, CellThreadService.inside] at hbalance ⊢
    omega
  · intro _
    refine ⟨?_, hcalm.2⟩
    show 0 ≤ s.sem.waitRef - 1
    omega

theorem SemInv.wait
    {s : CellThreadService} {tr : List ThreadObservation}
    (h : SemInv s tr) (howner : s.owner = .stopped)
    (href : s.sem.waitRef < 1) :
    SemInv
      { s with
        sem := { s.sem with waitRef := s.sem.waitRef - 1 }
        owner := .waiting } (tr ++ []) := by
  have hbalance := h.balance
  have hcalm := h.calm (by rw [howner]; simp)
  have hrun := h.closing (Or.inl howner)
  rw [List.append_nil]
  refine ⟨?_, fun hw => absurd rfl hw, ?_, fun _ => hrun⟩
  · rw [howner, hrun] at hbalance
    simp [hrun, CellThreadService.inside] at hbalance ⊢
    omega
  · intro _
    refine Or.inl ⟨?_, hcalm.2⟩
    show s.sem.waitRef - 1 = -1
    omega

theorem SemInv.wake
    {s : CellThreadService} {tr : List ThreadObservation}
    (h : SemInv s tr) (howner : s.owner = .waiting)
    (href : s.sem.weakupRef > 0) (stopped : Bool) (inside : Nat) :
    SemInv
      { s with
        sem := { s.sem with weakupRef := s.sem.weakupRef - 1 }
        owner := .idle } (tr ++ [.closeReturned stopped inside]) := by
  have hbalance := h.balance
  have hrun := h.closing (Or.inr howner)
  have hspare : 0 ≤ s.sem.waitRef ∧ s.sem.weakupRef = 1 := by
    rcases h.waiting howner with hnone | hone
    · omega
    · exact hone
  refine ⟨?_, ?_, (fun hw => by cases hw), fun _ => hrun⟩
  · rw [howner, hrun] at hbalance
    rw [selfStops_append]
    simp [hrun, selfStops, CellThreadService.inside] at hbalance ⊢
    omega
  · intro _
    refine ⟨hspare.1, ?_⟩
    show s.sem.weakupRef - 1 = 0
    omega

theorem Semaphore.weakup_of_neg
    {sem : Semaphore} (h : sem.waitRef < 0) :
    sem.weakup =
      { waitRef := sem.waitRef + 1, weakupRef := sem.weakupRef + 1 } := by
  have hle : sem.waitRef + 1 ≤ 0 := h
  simp [Semaphore.weakup, hle]

theorem Semaphore.weakup_of_nonneg
    {sem : Semaphore} (h : 0 ≤ sem.waitRef) :
    sem.weakup = { sem with waitRef := sem.waitRef + 1 } := by
  have hle : ¬ sem.waitRef + 1 ≤ 0 := by omega
  simp [Semaphore.weakup, hle]

theorem SemInv.weakup
    {s : CellThreadService} {tr : List ThreadObservation}
    (h : SemInv s tr) {before after : List WorkerPc}
    (hworkers : s.workers = before ++ .weakup :: after) :
    SemInv
      { s with
        sem := s.sem.weakup
        workers := before ++ .ended :: after } (tr ++ []) := by
  have hbalance := h.balance
  have hinside : s.inside = CellThreadService.inside
      { s with
        sem := s.sem.weakup
        workers := before ++ .ended :: after } + 1 := by
    rw [inside_split hworkers, @inside_split _ before after .ended rfl]
    simp
  rw [hinside] at hbalance
  rw [List.append_nil]
  refine ⟨?_, ?_, ?_, h.closing⟩
  · have hwaitRef : s.sem.weakup.waitRef = s.sem.waitRef + 1 := by
      by_cases hneg : s.sem.waitRef < 0
      · rw [Semaphore.weakup_of_neg hneg]
      · rw [Semaphore.weakup_of_nonneg (by omega)]
    show _ + s.sem.weakup.waitRef = _
    rw [hwaitRef]
    push_cast at hbalance
    rw [← hbalance]
    ring
  · intro howner
    obtain ⟨hpos, hzero⟩ := h.calm howner
    show 0 ≤ s.sem.weakup.waitRef ∧ s.sem.weakup.weakupRef = 0
    rw [Semaphore.weakup_of_nonneg hpos]
    exact ⟨Int.le_add_one hpos, hzero⟩
  · intro howner
    right
    show 0 ≤ s.sem.weakup.waitRef ∧ s.sem.weakup.weakupRef = 1
    rcases h.waiting howner with ⟨hneg, hzero⟩ | ⟨hpos, hone⟩
    · rw [Semaphore.weakup_of_neg (by omega), hneg, hzero]
      exact ⟨Int.le_refl 0, rfl⟩
    · rw [Semaphore.weakup_of_nonneg hpos]
      exact ⟨Int.le_add_one hpos, hone⟩

theorem SemInv.move
    {e : ThreadEvent} {s s' : CellThreadService}
    {tr out : List ThreadObservation}
    (h : SemInv s tr) (hmove : ThreadMove e s out s') :
    SemInv s' (tr ++ out) := by
  cases hmove with
  | idle =>
      rwa [List.append_nil]
  | call s f howner =>
      refine h.quiet rfl rfl rfl rfl (Or.inr ⟨?_, ?_⟩)
      · simp [OwnerPc.Closing, howner]
      · simp [OwnerPc.Closing]
  | lock s f howner hfree =>
      refine h.quiet rfl rfl rfl rfl (Or.inr ⟨?_, ?_⟩)
      · simp [OwnerPc.Closing, howner]
      · simp [OwnerPc.Closing]
  | start s howner hrun =>
      exact h.start howner hrun
  | ignored s f howner hf hrun =>
      refine h.quiet rfl rfl rfl rfl (Or.inr ⟨?_, ?_⟩)
      · simp [OwnerPc.Closing, howner]
      · simp [OwnerPc.Closing]
  | closed s howner hrun =>
      refine h.quiet rfl rfl rfl rfl (Or.inr ⟨?_, ?_⟩)
      · simp [OwnerPc.Closing, howner]
      · simp [OwnerPc.Closing]
  | stop s howner hrun =>
      exact h.cleared hrun rfl rfl rfl (by simp) rfl
  | closeWithoutWait s howner hrun =>
      exact h.cleared hrun rfl rfl rfl (by simp) rfl
  | passed s howner href =>
      exact h.passed howner href true s.inside
  | wait s howner href =>
      exact h.wait howner href
  | wake s howner href =>
      exact h.wake howner href true s.inside
  | advance _ s i w w' before after hworkers hi he hw hw' hcall hlock =>
      refine h.quiet ?_ rfl rfl rfl (Or.inl rfl)
      rw [inside_split hworkers, @inside_split _ before after w' rfl,
        if_neg hw, if_neg hw']
  | workerCloses s i before after hworkers hi hrun =>
      have hopen : ¬ s.owner.Closing := by
        intro hc
        rw [h.closing hc] at hrun
        cases hrun
      rw [OwnerPc.Closing, not_or] at hopen
      refine h.cleared hrun rfl ?_ rfl hopen.2 ?_
      · rw [inside_split hworkers, @inside_split _ before after .onRun rfl]
        rfl
      · rw [if_neg hopen.1]
        rfl
  | weakup s i before after hworkers hi =>
      exact h.weakup hworkers

theorem semInv_run (events : List ThreadEvent) :
    SemInv (CellThreadService.run events).1
      (CellThreadService.run events).2 :=
  Machine.run_invariant semInv_init
    (fun s _ e h => h.move (threadStep_move s e)) events

/-- A spare count means that the only thread has made its `Weakup`. -/
theorem SemInv.passed_inside
    {s : CellThreadService} {tr : List ThreadObservation}
    (h : SemInv s tr) (hnone : selfStops tr = 0)
    (howner : s.owner = .stopped) (href : s.sem.waitRef ≥ 1) :
    s.inside = 0 := by
  have hbalance := h.balance
  have hrun := h.closing (Or.inl howner)
  rw [howner, hrun, hnone] at hbalance
  simp at hbalance
  omega

theorem SemInv.wake_inside
    {s : CellThreadService} {tr : List ThreadObservation}
    (h : SemInv s tr) (hnone : selfStops tr = 0)
    (howner : s.owner = .waiting) (href : s.sem.weakupRef > 0) :
    s.inside = 0 := by
  have hbalance := h.balance
  have hrun := h.closing (Or.inr howner)
  rw [howner, hrun, hnone] at hbalance
  simp at hbalance
  rcases h.waiting howner with hcount | hcount
  · omega
  · omega

end Accounts

section Join

/-- Whenever `Close` returned, no thread was inside `OnWork`. -/
def Joins (tr : List ThreadObservation) : Prop :=
  ∀ stopped inside, .closeReturned stopped inside ∈ tr → inside = 0

/--
When `Close` tests `m_isRun`, no thread is inside `OnWork`, or the service is
running and `CloseWithoutWait` has stopped none of its threads.
-/
def ClosesInTime (s : CellThreadService) (tr : List ThreadObservation)
    (e : ThreadEvent) : Prop :=
  e = .owner → s.owner = .locked .close →
    s.inside = 0 ∨ (s.isRun = true ∧ selfStops tr = 0)

instance (s : CellThreadService) (tr : List ThreadObservation)
    (e : ThreadEvent) : Decidable (ClosesInTime s tr e) :=
  inferInstanceAs (Decidable (_ → _ → _ ∨ _))

/-- `Close` is entitled to return as soon as it does. -/
structure JoinInv (s : CellThreadService) (tr : List ThreadObservation) :
    Prop where
  sem : SemInv s tr
  joins : Joins tr
  closing : s.owner.Closing → s.inside = 0 ∨ selfStops tr = 0

theorem Joins.append
    {tr out : List ThreadObservation} (h : Joins tr) (hout : Joins out) :
    Joins (tr ++ out) := by
  intro stopped inside hmem
  rcases List.mem_append.mp hmem with hmem | hmem
  · exact h stopped inside hmem
  · exact hout stopped inside hmem

theorem joins_nil : Joins [] := by
  intro stopped inside hmem
  cases hmem

theorem joins_returned {stopped : Bool} {inside : Nat} (h : inside = 0) :
    Joins [.closeReturned stopped inside] := by
  intro stopped' inside' hmem
  cases List.mem_singleton.mp hmem
  exact h

theorem joins_closedWithoutWait : Joins [.closedWithoutWait] := by
  intro stopped inside hmem
  cases List.mem_singleton.mp hmem

/-- Outside of `Close` nothing is owed. -/
theorem JoinInv.of_open
    {s : CellThreadService} {tr : List ThreadObservation}
    (hsem : SemInv s tr) (hjoins : Joins tr) (hopen : ¬ s.owner.Closing) :
    JoinInv s tr :=
  ⟨hsem, hjoins, fun hc => absurd hc hopen⟩

theorem JoinInv.move
    {e : ThreadEvent} {s s' : CellThreadService}
    {tr out : List ThreadObservation}
    (h : JoinInv s tr) (hguard : ClosesInTime s tr e)
    (hmove : ThreadMove e s out s') :
    JoinInv s' (tr ++ out) := by
  have hsem := h.sem.move hmove
  cases hmove with
  | idle =>
      rwa [List.append_nil]
  | call s f howner | lock s f howner hfree | start s howner hrun
  | ignored s f howner hf hrun =>
      refine JoinInv.of_open hsem (h.joins.append joins_nil) ?_
      simp [OwnerPc.Closing]
  | closed s howner hrun =>
      have hzero : s.inside = 0 := by
        rcases hguard rfl howner with hzero | ⟨htrue, -⟩
        · exact hzero
        · rw [hrun] at htrue
          cases htrue
      refine JoinInv.of_open hsem (h.joins.append (joins_returned hzero)) ?_
      simp [OwnerPc.Closing]
  | stop s howner hrun =>
      refine ⟨hsem, h.joins.append joins_nil, fun _ => ?_⟩
      rw [List.append_nil]
      rcases hguard rfl howner with hzero | ⟨-, hnone⟩
      · exact Or.inl hzero
      · exact Or.inr hnone
  | closeWithoutWait s howner hrun =>
      refine JoinInv.of_open hsem
        (h.joins.append joins_closedWithoutWait) ?_
      simp [OwnerPc.Closing]
  | passed s howner href =>
      have hzero : s.inside = 0 := by
        rcases h.closing (Or.inl howner) with hzero | hnone
        · exact hzero
        · exact h.sem.passed_inside hnone howner href
      refine JoinInv.of_open hsem (h.joins.append (joins_returned hzero)) ?_
      simp [OwnerPc.Closing]
  | wait s howner href =>
      refine ⟨hsem, h.joins.append joins_nil, fun _ => ?_⟩
      rw [List.append_nil]
      exact h.closing (Or.inl howner)
  | wake s howner href =>
      have hzero : s.inside = 0 := by
        rcases h.closing (Or.inr howner) with hzero | hnone
        · exact hzero
        · exact h.sem.wake_inside hnone howner href
      refine JoinInv.of_open hsem (h.joins.append (joins_returned hzero)) ?_
      simp [OwnerPc.Closing]
  | advance _ s i w w' before after hworkers hi he hw hw' hcall hlock =>
      refine ⟨hsem, h.joins.append joins_nil, ?_⟩
      intro hc
      have hinside : CellThreadService.inside
          { s with workers := before ++ w' :: after } = s.inside := by
        rw [inside_split hworkers, @inside_split _ before after w' rfl,
          if_neg hw, if_neg hw']
      rw [List.append_nil, hinside]
      exact h.closing hc
  | workerCloses s i before after hworkers hi hrun =>
      refine ⟨hsem, h.joins.append joins_closedWithoutWait, ?_⟩
      intro hc
      have hstopped := h.sem.closing hc
      rw [hrun] at hstopped
      cases hstopped
  | weakup s i before after hworkers hi =>
      refine ⟨hsem, h.joins.append joins_nil, ?_⟩
      intro hc
      rw [List.append_nil]
      rcases h.closing hc with hzero | hnone
      · rw [inside_split hworkers] at hzero
        simp at hzero
      · exact Or.inr hnone

/--
In every run in which `Close` finds nobody inside `OnWork`, or a running
service none of whose threads was stopped without waiting, `Close` is a join.
-/
theorem close_joins
    {events : List ThreadEvent}
    (h : Machine.Along CellThreadService.step ClosesInTime {} events) :
    Joins (CellThreadService.run events).2 := by
  have hinit : JoinInv {} [] := by
    refine ⟨semInv_init, joins_nil, ?_⟩
    rintro (hc | hc)
    · cases hc
    · cases hc
  have hinv := Machine.run_invariant_along hinit
    (fun s _ e hguard hI => hI.move hguard (threadStep_move s e)) h
  exact hinv.joins

/-- A service is started, runs, and is closed while its thread works. -/
def closedOnce : List ThreadEvent :=
  [.call .start, .owner, .owner, .worker 0, .call .close, .owner, .owner,
    .owner, .worker 0, .worker 0, .worker 0, .owner]

theorem close_joins_once :
    Joins (CellThreadService.run closedOnce).2 :=
  close_joins (by decide)

/-- A thread that stopped itself is still inside when `Close` returns. -/
theorem close_not_join :
    ¬ ∀ events : List ThreadEvent,
      Joins (CellThreadService.run events).2 := by
  intro h
  have hjoins := h
    [.call .start, .owner, .owner, .worker 0, .closeWithoutWait 0,
      .worker 0, .worker 0, .call .close, .owner, .owner]
  exact absurd (hjoins false 1 (by decide)) (by decide)

end Join

end Threads
end NetEngine
