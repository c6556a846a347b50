import NetEngine.Threads.TaskService

/-!
# Order of the tasks

Added tasks wait in the buffer, move to the pool and are executed from there;
what is left in the buffer when the loop has ended is executed in place and
stays there.  `TaskInv` says at every position of `OnRun` which tasks have been
executed and which are pending, so that together they are the tasks added, in
order.

A task that stays in the buffer is executed again by the next round, and a task
that is added behind the last loop is not executed before `Close` returns.
Without these two, every task is executed once, in order and in time.
-/

namespace NetEngine
namespace Threads

section Ledger

def ranOf : TaskObservation → Option Nat
  | .ran task => some task
  | .closeReturned _ _ => none

/-- Tasks executed, in order. -/
def ranTasks (tr : List TaskObservation) : List Nat :=
  tr.filterMap ranOf

@[simp] theorem ranTasks_append (tr out : List TaskObservation) :
    ranTasks (tr ++ out) = ranTasks tr ++ ranTasks out :=
  List.filterMap_append

/-- A `Close` that stops the service returns behind all tasks added by then. -/
def Executed (tr : List TaskObservation) : Prop :=
  ∀ before after added, tr = before ++ .closeReturned true added :: after →
    ∀ task < added, task ∈ ranTasks before

/-- No task is executed twice, out of order or too late. -/
structure OnceInOrder (tr : List TaskObservation) : Prop where
  increasing : (ranTasks tr).Pairwise (fun a b => a < b)
  executed : Executed tr

/-- Some thread will still look into the buffer. -/
def Draining (s : CellTaskService) : Prop :=
  ∃ i < s.thread.workers.length, s.thread.workers[i]? = some .onCreate ∨
    (s.thread.workers[i]? = some .onRun ∧ s.onRun i ≠ .returned)

/--
`Start` makes no thread while an executed task is in the buffer, and no task is
added between the end of `OnRun` and the return of `Close`.
-/
def InTime (s : CellTaskService) (tr : List TaskObservation) :
    TaskEvent → Prop
  | .addTask => s.thread.owner.Closing → Draining s
  | .owner =>
      s.thread.owner = .locked .start → s.thread.isRun = false →
        ∀ task ∈ s.taskBuff, task ∉ ranTasks tr
  | _ => True

/-- The state once `OnRun` has returned. -/
structure Settled (s : CellTaskService) (ran : List Nat) : Prop where
  stopped : s.thread.isRun = false
  pool : s.taskPool = []
  buff : ∃ spent rest, s.taskBuff = spent ++ rest ∧
    (∀ task ∈ spent, task ∈ ran) ∧ ran ++ rest = List.range s.added ∧
    (s.thread.owner.Closing → rest = [])

/-- Executed and pending tasks at a position of `OnRun`. -/
def Ledger (s : CellTaskService) (ran : List Nat) : RunPc → Prop
  | .test | .drain =>
      s.taskPool = [] ∧ ran ++ s.taskBuff = List.range s.added
  | .poolTest =>
      ran ++ (s.taskPool ++ s.taskBuff) = List.range s.added
  | .running k =>
      ran ++ (s.taskPool.drop k ++ s.taskBuff) = List.range s.added
  | .final k =>
      s.thread.isRun = false ∧ s.taskPool = [] ∧ k ≤ s.taskBuff.length ∧
        ran ++ s.taskBuff.drop k = List.range s.added ∧
        ∀ task ∈ s.taskBuff.take k, task ∈ ran
  | .returned => Settled s ran

/-- Executed and pending tasks at a position of `OnWork`. -/
def WorkerLedger (s : CellTaskService) (ran : List Nat) (i : Nat) :
    WorkerPc → Prop
  | .onCreate => s.onRun i = .test ∧ Ledger s ran .test
  | .onRun => Ledger s ran (s.onRun i)
  | .onDestory | .weakup | .ended => Settled s ran
  | .calling | .locked => False

/-- At most one thread has not ended, and it accounts for the tasks. -/
inductive Work (s : CellTaskService) (ran : List Nat) : Prop
  | resting (hended : ∀ w ∈ s.thread.workers, w = .ended)
      (hsettled : Settled s ran)
  | busy (i : Nat) (w : WorkerPc) (hi : s.thread.workers[i]? = some w)
      (hw : w ≠ .ended)
      (hothers : ∀ j v, j ≠ i → s.thread.workers[j]? = some v → v = .ended)
      (hledger : WorkerLedger s ran i w)

/-- The accounts of the thread service, none of whose threads stops itself. -/
def ThreadAccounts (t : CellThreadService) : Prop :=
  ∃ tr, SemInv t tr ∧ selfStops tr = 0

structure TaskInv (s : CellTaskService) (tr : List TaskObservation) :
    Prop where
  accounts : ThreadAccounts s.thread
  calls : s.thread.owner ≠ .calling .closeWithoutWait ∧
    s.thread.owner ≠ .locked .closeWithoutWait
  unused : ∀ i, s.thread.workers.length ≤ i → s.onRun i = .test
  work : Work s (ranTasks tr)
  executed : Executed tr

theorem Settled.pending
    {s : CellTaskService} {ran : List Nat} (h : Settled s ran) :
    ∃ rest, ran ++ rest = List.range s.added := by
  obtain ⟨spent, rest, -, -, hall, -⟩ := h.buff
  exact ⟨rest, hall⟩

/-- Executed tasks are the first ones that were added. -/
theorem Work.pending
    {s : CellTaskService} {ran : List Nat} (h : Work s ran) :
    ∃ rest, ran ++ rest = List.range s.added := by
  cases h with
  | resting hended hsettled =>
      exact hsettled.pending
  | busy i w hi hw hothers hledger =>
      cases w with
      | onCreate =>
          exact ⟨_, hledger.2.2⟩
      | onRun =>
          rw [WorkerLedger] at hledger
          cases hpc : s.onRun i with
          | test | drain =>
              rw [hpc] at hledger
              exact ⟨_, hledger.2⟩
          | poolTest | running k =>
              rw [hpc] at hledger
              exact ⟨_, hledger⟩
          | final k =>
              rw [hpc] at hledger
              exact ⟨_, hledger.2.2.2.1⟩
          | returned =>
              rw [hpc] at hledger
              exact Settled.pending hledger
      | onDestory | weakup | ended =>
          exact Settled.pending hledger
      | calling | locked =>
          exact absurd hledger id

theorem Work.increasing
    {s : CellTaskService} {ran : List Nat} (h : Work s ran) :
    ran.Pairwise (fun a b => a < b) := by
  obtain ⟨rest, hall⟩ := h.pending
  have hrange : (ran ++ rest).Pairwise (fun a b => a < b) := by
    rw [hall]
    exact List.pairwise_lt_range
  exact (List.pairwise_append.mp hrange).1

/-- Without a thread inside `OnWork` the tasks are settled. -/
theorem Work.settled
    {s : CellTaskService} {ran : List Nat} (h : Work s ran)
    (hzero : s.thread.inside = 0) :
    (∀ w ∈ s.thread.workers, w = .ended) ∧ Settled s ran := by
  cases h with
  | resting hended hsettled =>
      exact ⟨hended, hsettled⟩
  | busy i w hi hw hothers hledger =>
      have hall := List.countP_eq_zero.mp hzero w (List.mem_of_getElem? hi)
      simp [hw] at hall

theorem ThreadAccounts.passed
    {t : CellThreadService} (h : ThreadAccounts t)
    (howner : t.owner = .stopped) (href : t.sem.waitRef ≥ 1) :
    t.inside = 0 := by
  obtain ⟨tr, hsem, hnone⟩ := h
  exact hsem.passed_inside hnone howner href

theorem ThreadAccounts.wake
    {t : CellThreadService} (h : ThreadAccounts t)
    (howner : t.owner = .waiting) (href : t.sem.weakupRef > 0) :
    t.inside = 0 := by
  obtain ⟨tr, hsem, hnone⟩ := h
  exact hsem.wake_inside hnone howner href

theorem ThreadAccounts.stopped
    {t : CellThreadService} (h : ThreadAccounts t)
    (hrun : t.isRun = false) (howner : ¬ t.owner.Closing) :
    t.inside = 0 := by
  obtain ⟨tr, hsem, hnone⟩ := h
  rw [OwnerPc.Closing, not_or] at howner
  have hbalance := hsem.balance
  have hcalm := (hsem.calm howner.2).1
  rw [hrun, hnone, if_neg howner.1] at hbalance
  simp at hbalance
  omega

/-- The thread service goes on and none of its threads stops itself. -/
theorem ThreadAccounts.move
    {t t' : CellThreadService} (h : ThreadAccounts t) {e : ThreadEvent}
    {out : List ThreadObservation} (hmove : ThreadMove e t out t')
    (hout : selfStops out = 0) :
    ThreadAccounts t' := by
  obtain ⟨tr, hsem, hnone⟩ := h
  refine ⟨_, hsem.move hmove, ?_⟩
  rw [selfStops_append, hnone, hout]

/-- Settled tasks do not depend on where the threads are. -/
theorem Settled.withThread
    {s : CellTaskService} {ran : List Nat} (h : Settled s ran)
    {t : CellThreadService} (hrun : t.isRun = false)
    (hclosing : t.owner.Closing → s.thread.owner.Closing) :
    Settled { s with thread := t } ran := by
  obtain ⟨spent, rest, hbuff, hspent, hall, hnone⟩ := h.buff
  exact ⟨hrun, h.pool, spent, rest, hbuff, hspent, hall,
    fun hc => hnone (hclosing hc)⟩

theorem Ledger.withThread
    {s : CellTaskService} {ran : List Nat} {pc : RunPc}
    (h : Ledger s ran pc) {t : CellThreadService}
    (hrun : s.thread.isRun = false → t.isRun = false ∧
      (t.owner.Closing → s.thread.owner.Closing)) :
    Ledger { s with thread := t } ran pc := by
  cases pc with
  | test | drain | poolTest | running k =>
      exact h
  | final k =>
      obtain ⟨hstopped, hrest⟩ := h
      exact ⟨(hrun hstopped).1, hrest⟩
  | returned =>
      have hsettled : Settled s ran := h
      obtain ⟨hstopped, hclosing⟩ := hrun hsettled.stopped
      exact hsettled.withThread hstopped hclosing

theorem WorkerLedger.withThread
    {s : CellTaskService} {ran : List Nat} {i : Nat} {w : WorkerPc}
    (h : WorkerLedger s ran i w) {t : CellThreadService}
    (hrun : s.thread.isRun = false → t.isRun = false ∧
      (t.owner.Closing → s.thread.owner.Closing)) :
    WorkerLedger { s with thread := t } ran i w := by
  cases w with
  | onCreate =>
      exact ⟨h.1, Ledger.withThread h.2 hrun⟩
  | onRun =>
      exact Ledger.withThread h hrun
  | onDestory | weakup | ended =>
      have hsettled : Settled s ran := h
      obtain ⟨hstopped, hclosing⟩ := hrun hsettled.stopped
      exact hsettled.withThread hstopped hclosing
  | calling | locked =>
      exact h

/-- The owner's steps leave the threads where they are. -/
theorem Work.withThread
    {s : CellTaskService} {ran : List Nat} (h : Work s ran)
    {t : CellThreadService} (hworkers : t.workers = s.thread.workers)
    (hrun : s.thread.isRun = false → t.isRun = false ∧
      (t.owner.Closing → s.thread.owner.Closing)) :
    Work { s with thread := t } ran := by
  cases h with
  | resting hended hsettled =>
      obtain ⟨hstopped, hclosing⟩ := hrun hsettled.stopped
      exact Work.resting (hworkers ▸ hended)
        (hsettled.withThread hstopped hclosing)
  | busy i w hi hw hothers hledger =>
      refine Work.busy i w ?_ hw ?_ (hledger.withThread hrun)
      · rwa [← hworkers] at hi
      · rwa [← hworkers] at hothers

end Ledger

section RunSteps

variable (s : CellTaskService) (i : Nat) (pc : RunPc)

@[simp] theorem setPc_onRun : (s.setPc i pc).onRun i = pc := by
  simp [CellTaskService.setPc]

@[simp] theorem setPc_thread : (s.setPc i pc).thread = s.thread := by
  rfl

@[simp] theorem setPc_taskPool : (s.setPc i pc).taskPool = s.taskPool := by
  rfl

@[simp] theorem setPc_taskBuff : (s.setPc i pc).taskBuff = s.taskBuff := by
  rfl

@[simp] theorem setPc_added : (s.setPc i pc).added = s.added := by
  rfl

theorem setPc_onRun_of_ne {j : Nat} (h : j ≠ i) :
    (s.setPc i pc).onRun j = s.onRun j := by
  simp [CellTaskService.setPc, h]

variable {s i pc}

/-- One more task of a list has been executed. -/
theorem append_drop_succ
    {ran tasks rest : List Nat} {k task : Nat}
    (h : tasks[k]? = some task) :
    (ran ++ [task]) ++ (tasks.drop (k + 1) ++ rest) =
      ran ++ (tasks.drop k ++ rest) := by
  obtain ⟨hk, rfl⟩ := List.getElem?_eq_some_iff.mp h
  rw [List.drop_eq_getElem_cons hk, List.append_assoc]
  rfl

/-- What is left in the buffer is executed in place. -/
theorem Ledger.final_next
    {s : CellTaskService} {ran : List Nat} {k task : Nat}
    (h : Ledger s ran (.final k)) (htask : s.taskBuff[k]? = some task) :
    Ledger s (ran ++ [task]) (.final (k + 1)) := by
  obtain ⟨hstopped, hpool, -, hall, hspent⟩ := h
  obtain ⟨hlt, -⟩ := List.getElem?_eq_some_iff.mp htask
  refine ⟨hstopped, hpool, hlt, ?_, ?_⟩
  · have hnext := @append_drop_succ ran s.taskBuff [] k task htask
    rw [List.append_nil, List.append_nil] at hnext
    exact hnext.trans hall
  · intro task' hmem
    have htake : s.taskBuff.take (k + 1) = s.taskBuff.take k ++ [task] := by
      rw [List.take_add_one, htask]
      rfl
    rw [htake] at hmem
    rcases List.mem_append.mp hmem with hmem | hmem
    · exact List.mem_append_left _ (hspent task' hmem)
    · exact List.mem_append_right _ hmem

/-- Behind the last task of the buffer everything is settled. -/
theorem Ledger.final_end
    {s : CellTaskService} {ran : List Nat} {k : Nat}
    (h : Ledger s ran (.final k)) (htask : s.taskBuff[k]? = none) :
    Settled s ran := by
  obtain ⟨hstopped, hpool, -, hall, hspent⟩ := h
  have hlen := List.getElem?_eq_none_iff.mp htask
  rw [List.drop_eq_nil_of_le hlen] at hall
  rw [List.take_of_length_le hlen] at hspent
  exact ⟨hstopped, hpool, s.taskBuff, [], (List.append_nil _).symm, hspent,
    hall, fun _ => rfl⟩

/-- A step inside `OnRun` keeps executed and pending tasks together. -/
theorem Ledger.onRunStep
    {s : CellTaskService} {ran : List Nat} {i : Nat}
    (h : Ledger s ran (s.onRun i)) :
    Ledger (s.onRunStep i).1 (ran ++ ranTasks (s.onRunStep i).2)
      ((s.onRunStep i).1.onRun i) := by
  rw [CellTaskService.onRunStep]
  cases hpc : s.onRun i with
  | test =>
      rw [hpc] at h
      dsimp only
      split_ifs with hrun
      · rw [setPc_onRun]
        refine ⟨h.1, ?_⟩
        simpa [ranTasks] using h.2
      · have hstopped : s.thread.isRun = false := by simpa using hrun
        rw [setPc_onRun]
        refine ⟨hstopped, h.1, Nat.zero_le _, ?_, ?_⟩
        · simpa [ranTasks] using h.2
        · intro task htask
          simp at htask
  | drain =>
      rw [hpc] at h
      dsimp only
      rw [setPc_onRun]
      show ran ++ [] ++ (s.taskPool ++ s.taskBuff ++ []) = _
      rw [h.1]
      simpa using h.2
  | poolTest =>
      rw [hpc] at h
      dsimp only
      split_ifs with hpool
      · rw [setPc_onRun]
        refine ⟨hpool, ?_⟩
        have hall : ran ++ (s.taskPool ++ s.taskBuff) = _ := h
        rw [hpool] at hall
        simpa [ranTasks] using hall
      · rw [setPc_onRun]
        have hall : ran ++ (s.taskPool ++ s.taskBuff) = _ := h
        show ran ++ [] ++ (s.taskPool ++ s.taskBuff) = _
        rwa [List.append_nil]
  | running k =>
      rw [hpc] at h
      dsimp only
      cases htask : s.taskPool[k]? with
      | some task =>
          dsimp only
          rw [setPc_onRun]
          have hall : ran ++ (s.taskPool.drop k ++ s.taskBuff) = _ := h
          rw [← append_drop_succ htask] at hall
          exact hall
      | none =>
          dsimp only
          rw [setPc_onRun]
          have hlen := List.getElem?_eq_none_iff.mp htask
          have hall : ran ++ (s.taskPool.drop k ++ s.taskBuff) = _ := h
          rw [List.drop_eq_nil_of_le hlen] at hall
          refine ⟨rfl, ?_⟩
          simpa [ranTasks] using hall
  | final k =>
      rw [hpc] at h
      dsimp only
      cases htask : s.taskBuff[k]? with
      | some task =>
          dsimp only
          rw [setPc_onRun]
          exact h.final_next htask
      | none =>
          dsimp only
          rw [setPc_onRun, ranTasks, List.filterMap_nil, List.append_nil]
          have hsettled := Ledger.final_end h htask
          exact ⟨hsettled.stopped, hsettled.pool, hsettled.buff⟩
  | returned =>
      rw [hpc] at h
      dsimp only
      rw [hpc]
      simpa [ranTasks] using h

end RunSteps

section AddTask

variable {s : CellTaskService} {ran : List Nat}

/-- The task added last comes behind the pending ones. -/
theorem append_added {pending : List Nat}
    (h : ran ++ pending = List.range s.added) :
    ran ++ (pending ++ [s.added]) = List.range s.addTask.added := by
  show _ = List.range (s.added + 1)
  rw [List.range_succ, ← h, List.append_assoc]

theorem Settled.addTask
    (h : Settled s ran) (hopen : ¬ s.thread.owner.Closing) :
    Settled s.addTask ran := by
  obtain ⟨spent, rest, hbuff, hspent, hall, -⟩ := h.buff
  refine ⟨h.stopped, h.pool, spent, rest ++ [s.added], ?_, hspent,
    append_added hall, fun hc => absurd hc hopen⟩
  show s.taskBuff ++ [s.added] = _
  rw [hbuff, List.append_assoc]

theorem Ledger.addTask {pc : RunPc}
    (h : Ledger s ran pc)
    (hopen : pc = .returned → ¬ s.thread.owner.Closing) :
    Ledger s.addTask ran pc := by
  cases pc with
  | test | drain =>
      exact ⟨h.1, append_added h.2⟩
  | poolTest | running k =>
      have hall := append_added h
      rwa [List.append_assoc] at hall
  | final k =>
      obtain ⟨hstopped, hpool, hk, hall, hspent⟩ := h
      refine ⟨hstopped, hpool, ?_, ?_, ?_⟩
      · show k ≤ (s.taskBuff ++ [s.added]).length
        rw [List.length_append]
        exact Nat.le_add_right_of_le hk
      · show ran ++ (s.taskBuff ++ [s.added]).drop k = _
        rw [List.drop_append_of_le_length hk]
        exact append_added hall
      · show ∀ task ∈ (s.taskBuff ++ [s.added]).take k, task ∈ ran
        rwa [List.take_append_of_le_length hk]
  | returned =>
      exact Settled.addTask h (hopen rfl)

/-- The only thread that has not ended is the one that will look. -/
theorem Draining.live
    (h : Draining s) {i : Nat} {w : WorkerPc}
    (hi : s.thread.workers[i]? = some w)
    (hothers : ∀ j v, j ≠ i → s.thread.workers[j]? = some v → v = .ended) :
    w = .onCreate ∨ (w = .onRun ∧ s.onRun i ≠ .returned) := by
  obtain ⟨j, -, hj⟩ := h
  by_cases hji : j = i
  · subst hji
    rw [hi] at hj
    rcases hj with hj | ⟨hj, hpc⟩
    · exact Or.inl (Option.some.inj hj)
    · exact Or.inr ⟨Option.some.inj hj, hpc⟩
  · rcases hj with hj | ⟨hj, -⟩
    · exact absurd (hothers j _ hji hj) (by simp)
    · exact absurd (hothers j _ hji hj) (by simp)

/-- A task that is added in time is pending at every position. -/
theorem Work.addTask
    (h : Work s ran) (htime : s.thread.owner.Closing → Draining s) :
    Work s.addTask ran := by
  cases h with
  | resting hended hsettled =>
      refine Work.resting hended (hsettled.addTask fun hc => ?_)
      obtain ⟨i, -, hi⟩ := htime hc
      rcases hi with hi | ⟨hi, -⟩
      · exact absurd (hended _ (List.mem_of_getElem? hi)) (by simp)
      · exact absurd (hended _ (List.mem_of_getElem? hi)) (by simp)
  | busy i w hi hw hothers hledger =>
      refine Work.busy i w hi hw hothers ?_
      have hlive := fun hc => (htime hc).live hi hothers
      cases w with
      | onCreate =>
          exact ⟨hledger.1, Ledger.addTask hledger.2 (by simp)⟩
      | onRun =>
          refine Ledger.addTask hledger fun hpc hc => ?_
          rcases hlive hc with hcreate | ⟨-, hne⟩
          · cases hcreate
          · exact hne hpc
      | onDestory | weakup | ended =>
          refine Settled.addTask hledger fun hc => ?_
          rcases hlive hc with hcreate | ⟨hrun, -⟩
          · cases hcreate
          · cases hrun
      | calling | locked =>
          exact hledger

end AddTask

section OwnerSteps

theorem Executed.concat
    {tr : List TaskObservation} (h : Executed tr) {o : TaskObservation}
    (ho : ∀ added, o = .closeReturned true added →
      ∀ task < added, task ∈ ranTasks tr) :
    Executed (tr ++ [o]) := by
  intro before after added heq
  rcases Machine.split_concat heq with ⟨rfl, hlast⟩ | ⟨after', rfl⟩
  · exact ho added hlast.symm
  · exact h before after' added rfl

variable {s : CellTaskService} {tr : List TaskObservation}

/-- A step of the owner that leaves the threads alone. -/
theorem TaskInv.quiet
    (h : TaskInv s tr) {t : CellThreadService} (haccounts : ThreadAccounts t)
    (hcalls : t.owner ≠ .calling .closeWithoutWait ∧
      t.owner ≠ .locked .closeWithoutWait)
    (hworkers : t.workers = s.thread.workers)
    (hrun : s.thread.isRun = false → t.isRun = false ∧
      (t.owner.Closing → s.thread.owner.Closing)) :
    TaskInv { s with thread := t } tr where
  accounts := haccounts
  calls := hcalls
  unused := by
    intro i hi
    rw [hworkers] at hi
    exact h.unused i hi
  work := h.work.withThread hworkers hrun
  executed := h.executed

/-- `Close` returns without having stopped the service. -/
theorem TaskInv.observe
    (h : TaskInv s tr) (added : Nat) :
    TaskInv s (tr ++ [.closeReturned false added]) where
  accounts := h.accounts
  calls := h.calls
  unused := h.unused
  work := by
    rw [ranTasks_append]
    show Work s (ranTasks tr ++ [])
    rw [List.append_nil]
    exact h.work
  executed := by
    refine h.executed.concat ?_
    intro added' heq
    cases heq

/-- `Close` returns after the last thread has settled the tasks. -/
theorem TaskInv.returned
    (h : TaskInv s tr) {t : CellThreadService} (haccounts : ThreadAccounts t)
    (howner : t.owner = .idle) (hworkers : t.workers = s.thread.workers)
    (hrun : t.isRun = s.thread.isRun) (hclosing : s.thread.owner.Closing)
    (hzero : s.thread.inside = 0) :
    TaskInv { s with thread := t }
      (tr ++ [.closeReturned true s.added]) where
  accounts := haccounts
  calls := by
    show t.owner ≠ _ ∧ t.owner ≠ _
    simp [howner]
  unused := by
    intro i hi
    rw [hworkers] at hi
    exact h.unused i hi
  work := by
    rw [ranTasks_append]
    show Work _ (ranTasks tr ++ [])
    rw [List.append_nil]
    refine h.work.withThread hworkers fun hstopped => ⟨hrun ▸ hstopped, ?_⟩
    simp [OwnerPc.Closing, howner]
  executed := by
    refine h.executed.concat ?_
    intro added heq task htask
    cases heq
    obtain ⟨spent, rest, -, -, hall, hnone⟩ := (h.work.settled hzero).2.buff
    rw [hnone hclosing, List.append_nil] at hall
    rw [hall]
    exact List.mem_range.mpr htask

/-- `Start` makes a thread, which finds only pending tasks in the buffer. -/
theorem TaskInv.start
    (h : TaskInv s tr) (howner : s.thread.owner = .locked .start)
    (hrun : s.thread.isRun = false)
    (hguard : ∀ task ∈ s.taskBuff, task ∉ ranTasks tr)
    {t : CellThreadService} (haccounts : ThreadAccounts t)
    (hidle : t.owner = .idle)
    (hworkers : t.workers = s.thread.workers ++ [.onCreate]) :
    TaskInv { s with thread := t } tr := by
  have hopen : ¬ s.thread.owner.Closing := by
    simp [OwnerPc.Closing, howner]
  obtain ⟨hended, hsettled⟩ := h.work.settled (h.accounts.stopped hrun hopen)
  obtain ⟨spent, rest, hbuff, hspent, hall, -⟩ := hsettled.buff
  have hfresh : spent = [] := by
    refine List.eq_nil_iff_forall_not_mem.mpr fun task htask => ?_
    refine hguard task ?_ (hspent task htask)
    rw [hbuff]
    exact List.mem_append_left _ htask
  rw [hfresh, List.nil_append] at hbuff
  rw [← hbuff] at hall
  refine ⟨haccounts, ?_, ?_, ?_, h.executed⟩
  · show t.owner ≠ _ ∧ t.owner ≠ _
    simp [hidle]
  · intro i hi
    refine h.unused i (Nat.le_trans ?_ hi)
    show _ ≤ t.workers.length
    rw [hworkers, List.length_append]
    exact Nat.le_add_right _ _
  · refine Work.busy s.thread.workers.length .onCreate ?_ (by simp) ?_ ?_
    · show t.workers[_]? = _
      rw [hworkers, List.getElem?_append_right (Nat.le_refl _)]
      simp
    · intro j v hj hv
      replace hv : t.workers[j]? = some v := hv
      rw [hworkers] at hv
      rcases Nat.lt_or_gt_of_ne hj with hlt | hgt
      · rw [List.getElem?_append_left hlt] at hv
        exact hended v (List.mem_of_getElem? hv)
      · rw [List.getElem?_eq_none (by simp; omega)] at hv
        cases hv
    · exact ⟨h.unused _ (Nat.le_refl _), hsettled.pool, hall⟩

/-- The owner's steps and calls, without `CloseWithoutWait`. -/
theorem TaskInv.ownerMove
    {e : ThreadEvent} {out : List ThreadObservation}
    {t t' : CellThreadService}
    (h : TaskInv s tr) (ht : s.thread = t) (hmove : ThreadMove e t out t')
    (he : e = .owner ∨ e = .call .start ∨ e = .call .close)
    (hguard : e = .owner → InTime s tr .owner) :
    TaskInv { s with thread := t' }
      (tr ++ out.filterMap (CellTaskService.observed s.added)) := by
  have haccounts := fun hout =>
    ThreadAccounts.move (ht ▸ h.accounts) hmove hout
  cases hmove with
  | idle =>
      subst ht
      rw [List.filterMap_nil, List.append_nil]
      exact h
  | call s' f howner =>
      subst ht
      rw [List.filterMap_nil, List.append_nil]
      refine h.quiet (haccounts rfl) ?_ rfl fun hstopped => ⟨hstopped, ?_⟩
      · rcases he with he | he | he
        · cases he
        · cases he
          simp
        · cases he
          simp
      · simp [OwnerPc.Closing]
  | lock s' f howner hfree =>
      subst ht
      rw [List.filterMap_nil, List.append_nil]
      refine h.quiet (haccounts rfl) ?_ rfl fun hstopped => ⟨hstopped, ?_⟩
      · have hcalls := h.calls.1
        rw [howner] at hcalls
        simpa using hcalls
      · simp [OwnerPc.Closing]
  | start s' howner hrun =>
      subst ht
      rw [List.filterMap_nil, List.append_nil]
      exact h.start howner hrun (hguard rfl howner hrun) (haccounts rfl) rfl
        rfl
  | ignored s' f howner hf hrun =>
      subst ht
      rw [List.filterMap_nil, List.append_nil]
      refine h.quiet (haccounts rfl) (by simp) rfl
        fun hstopped => ⟨hstopped, ?_⟩
      simp [OwnerPc.Closing]
  | closed s' howner hrun =>
      subst ht
      refine TaskInv.observe ?_ _
      refine h.quiet (haccounts rfl) (by simp) rfl
        fun hstopped => ⟨hstopped, ?_⟩
      simp [OwnerPc.Closing]
  | stop s' howner hrun =>
      subst ht
      rw [List.filterMap_nil, List.append_nil]
      refine h.quiet (haccounts rfl) (by simp) rfl fun hstopped => ?_
      rw [hrun] at hstopped
      cases hstopped
  | closeWithoutWait s' howner hrun =>
      subst ht
      exact absurd howner h.calls.2
  | passed s' howner href =>
      subst ht
      exact h.returned (haccounts rfl) rfl rfl rfl (Or.inl howner)
        (h.accounts.passed howner href)
  | wait s' howner href =>
      subst ht
      rw [List.filterMap_nil, List.append_nil]
      refine h.quiet (haccounts rfl) (by simp) rfl
        fun hstopped => ⟨hstopped, fun _ => ?_⟩
      exact Or.inl howner
  | wake s' howner href =>
      subst ht
      exact h.returned (haccounts rfl) rfl rfl rfl (Or.inr howner)
        (h.accounts.wake howner href)
  | advance _ s' i w w' before after hworkers hi hworker =>
      rcases hworker with rfl | rfl
      · simp at he
      · simp at he
  | workerCloses | weakup =>
      simp at he

end OwnerSteps

section WorkerSteps

variable {s : CellTaskService} {tr : List TaskObservation} {i : Nat}

/-- What a step inside `OnRun` leaves alone. -/
theorem onRunStep_frame (s : CellTaskService) (i : Nat) :
    (s.onRunStep i).1.thread = s.thread ∧
      (∀ j, j ≠ i → (s.onRunStep i).1.onRun j = s.onRun j) ∧
      ((s.onRunStep i).2 = [] ∨ ∃ task, (s.onRunStep i).2 = [.ran task]) := by
  rw [CellTaskService.onRunStep]
  cases s.onRun i with
  | test | poolTest =>
      dsimp only
      split_ifs
      · exact ⟨rfl, fun j hj => setPc_onRun_of_ne _ _ _ hj, Or.inl rfl⟩
      · exact ⟨rfl, fun j hj => setPc_onRun_of_ne _ _ _ hj, Or.inl rfl⟩
  | drain =>
      exact ⟨rfl, fun j hj => setPc_onRun_of_ne _ _ _ hj, Or.inl rfl⟩
  | running k =>
      dsimp only
      cases s.taskPool[k]? with
      | some task =>
          exact ⟨rfl, fun j hj => setPc_onRun_of_ne _ _ _ hj,
            Or.inr ⟨task, rfl⟩⟩
      | none =>
          exact ⟨rfl, fun j hj => setPc_onRun_of_ne _ _ _ hj, Or.inl rfl⟩
  | final k =>
      dsimp only
      cases s.taskBuff[k]? with
      | some task =>
          exact ⟨rfl, fun j hj => setPc_onRun_of_ne _ _ _ hj,
            Or.inr ⟨task, rfl⟩⟩
      | none =>
          exact ⟨rfl, fun j hj => setPc_onRun_of_ne _ _ _ hj, Or.inl rfl⟩
  | returned =>
      exact ⟨rfl, fun _ _ => rfl, Or.inl rfl⟩

/-- A thread that has not ended is the one that accounts for the tasks. -/
theorem Work.live
    {ran : List Nat} (h : Work s ran) {w : WorkerPc}
    (hi : s.thread.workers[i]? = some w) (hw : w ≠ .ended) :
    WorkerLedger s ran i w ∧
      ∀ j v, j ≠ i → s.thread.workers[j]? = some v → v = .ended := by
  cases h with
  | resting hended hsettled =>
      exact absurd (hended w (List.mem_of_getElem? hi)) hw
  | busy j v hj hv hothers hledger =>
      by_cases hij : i = j
      · subst hij
        rw [hi] at hj
        cases hj
        exact ⟨hledger, hothers⟩
      · exact absurd (hothers i w hij hi) hw

/-- The thread that accounts for the tasks goes on. -/
theorem Work.set
    {ran : List Nat} {t : CellThreadService} {w : WorkerPc}
    (hworkers : t.workers = s.thread.workers.set i w)
    (hlt : i < s.thread.workers.length)
    (hothers : ∀ j v, j ≠ i → s.thread.workers[j]? = some v → v = .ended)
    (hledger : WorkerLedger { s with thread := t } ran i w) :
    Work { s with thread := t } ran := by
  have hget : t.workers[i]? = some w := by
    rw [hworkers, List.getElem?_set_self hlt]
  have hrest : ∀ j v, j ≠ i → t.workers[j]? = some v → v = .ended := by
    intro j v hj hv
    rw [hworkers, List.getElem?_set_ne (Ne.symm hj)] at hv
    exact hothers j v hj hv
  by_cases hw : w = .ended
  · subst hw
    refine Work.resting ?_ hledger
    intro v hv
    obtain ⟨j, hj⟩ := List.mem_iff_getElem?.mp hv
    by_cases hji : j = i
    · subst hji
      replace hj : t.workers[j]? = some v := hj
      rw [hget] at hj
      exact (Option.some.inj hj).symm
    · exact hrest j v hji hj
  · exact Work.busy i w hget hw hrest hledger

/-- A thread goes on outside of `OnRun`. -/
theorem TaskInv.advance
    (h : TaskInv s tr) {t : CellThreadService} (haccounts : ThreadAccounts t)
    {w w' : WorkerPc} (hi : s.thread.workers[i]? = some w)
    (hw : w ≠ .ended) (howner : t.owner = s.thread.owner)
    (hrun : t.isRun = s.thread.isRun)
    (hworkers : t.workers = s.thread.workers.set i w')
    (hledger : WorkerLedger s (ranTasks tr) i w →
      WorkerLedger s (ranTasks tr) i w') :
    TaskInv { s with thread := t } tr := by
  obtain ⟨hold, hothers⟩ := h.work.live hi hw
  obtain ⟨hlt, -⟩ := List.getElem?_eq_some_iff.mp hi
  refine ⟨haccounts, ?_, ?_, ?_, h.executed⟩
  · show t.owner ≠ _ ∧ t.owner ≠ _
    rw [howner]
    exact h.calls
  · intro j hj
    replace hj : t.workers.length ≤ j := hj
    rw [hworkers, List.length_set] at hj
    exact h.unused j hj
  · refine Work.set hworkers hlt hothers ((hledger hold).withThread ?_)
    rw [howner, hrun]
    exact fun hstopped => ⟨hstopped, id⟩

/-- The parts of `OnWork` around `OnRun`. -/
theorem TaskInv.workerStep
    (h : TaskInv s tr)
    (hpc : ¬ (s.thread.workers[i]? = some .onRun ∧ s.onRun i ≠ .returned)) :
    TaskInv (s.threadStep (.worker i)).1
      (tr ++ (s.threadStep (.worker i)).2) := by
  have hmove := threadStep_move s.thread (.worker i)
  rw [CellTaskService.threadStep]
  simp only [CellThreadService.step] at hmove ⊢
  cases hi : s.thread.workers[i]? with
  | none =>
      simpa using h
  | some w =>
      rw [hi] at hmove
      cases w with
      | onCreate =>
          simp only [CellThreadService.workerStep, List.filterMap_nil,
            List.append_nil] at hmove ⊢
          refine h.advance (h.accounts.move hmove rfl) hi (by simp) rfl rfl
            rfl fun hledger => ?_
          show Ledger s _ (s.onRun i)
          rw [hledger.1]
          exact hledger.2
      | onRun =>
          have hreturned : s.onRun i = .returned := by
            by_contra hne
            exact hpc ⟨hi, hne⟩
          simp only [CellThreadService.workerStep, List.filterMap_nil,
            List.append_nil] at hmove ⊢
          refine h.advance (h.accounts.move hmove rfl) hi (by simp) rfl rfl
            rfl fun hledger => ?_
          rw [WorkerLedger, hreturned] at hledger
          exact hledger
      | onDestory | weakup =>
          simp only [CellThreadService.workerStep, List.filterMap_nil,
            List.append_nil] at hmove ⊢
          exact h.advance (h.accounts.move hmove rfl) hi (by simp) rfl rfl
            rfl id
      | calling | locked =>
          exact absurd (h.work.live hi (by simp)).1 id
      | ended =>
          simpa [CellThreadService.workerStep] using h

/-- A thread goes on inside `OnRun`. -/
theorem TaskInv.onRunStep
    (h : TaskInv s tr) (hi : s.thread.workers[i]? = some .onRun) :
    TaskInv (s.onRunStep i).1 (tr ++ (s.onRunStep i).2) := by
  obtain ⟨hthread, hframe, hout⟩ := onRunStep_frame s i
  obtain ⟨hledger, hothers⟩ := h.work.live hi (by simp)
  obtain ⟨hlt, -⟩ := List.getElem?_eq_some_iff.mp hi
  refine ⟨?_, ?_, ?_, ?_, ?_⟩
  · rw [hthread]
    exact h.accounts
  · rw [hthread]
    exact h.calls
  · intro j hj
    rw [hthread] at hj
    rw [hframe j (by omega)]
    exact h.unused j hj
  · rw [ranTasks_append]
    refine Work.busy i .onRun ?_ (by simp) ?_ ?_
    · rwa [hthread]
    · rwa [hthread]
    · exact Ledger.onRunStep hledger
  · rcases hout with hout | ⟨task, hout⟩
    · rw [hout, List.append_nil]
      exact h.executed
    · rw [hout]
      refine h.executed.concat ?_
      intro added heq
      cases heq

/-- Every step in time preserves the accounts of the tasks. -/
theorem TaskInv.step
    (h : TaskInv s tr) {e : TaskEvent} (hguard : InTime s tr e) :
    TaskInv (s.step e).1 (tr ++ (s.step e).2) := by
  cases e with
  | addTask =>
      simp only [CellTaskService.step, List.append_nil]
      exact ⟨h.accounts, h.calls, h.unused, h.work.addTask hguard,
        h.executed⟩
  | start =>
      exact h.ownerMove rfl (threadStep_move s.thread _)
        (Or.inr (Or.inl rfl)) (by simp)
  | close =>
      exact h.ownerMove rfl (threadStep_move s.thread _)
        (Or.inr (Or.inr rfl)) (by simp)
  | owner =>
      exact h.ownerMove rfl (threadStep_move s.thread _) (Or.inl rfl)
        fun _ => hguard
  | worker i =>
      simp only [CellTaskService.step]
      split_ifs with hpc
      · exact h.onRunStep hpc.1
      · exact h.workerStep hpc

theorem taskInv_init : TaskInv {} [] where
  accounts := ⟨[], semInv_init, rfl⟩
  calls := by simp
  unused := fun _ _ => rfl
  work := by
    refine Work.resting ?_ ⟨rfl, rfl, [], [], rfl, ?_, rfl, fun _ => rfl⟩
    · intro w hw
      cases hw
    · intro task htask
      cases htask
  executed := by
    intro before after added heq
    simp at heq

end WorkerSteps

section Rounds

instance (pc : OwnerPc) : Decidable pc.Closing :=
  inferInstanceAs (Decidable (_ ∨ _))

instance (s : CellTaskService) : Decidable (Draining s) :=
  inferInstanceAs (Decidable (∃ _ < _, _))

instance (s : CellTaskService) (tr : List TaskObservation) :
    (e : TaskEvent) → Decidable (InTime s tr e)
  | .addTask => inferInstanceAs (Decidable (_ → _))
  | .owner => inferInstanceAs (Decidable (_ → _ → ∀ _ ∈ _, _))
  | .start | .close | .worker _ => .isTrue trivial

/--
In every run in which `Start` finds no executed task in the buffer and no task
is added behind the last loop of a thread that `Close` waits for, each task is
executed once, in order and before `Close` returns.
-/
theorem tasks_onceInOrder
    {events : List TaskEvent}
    (h : Machine.Along CellTaskService.step InTime {} events) :
    OnceInOrder (CellTaskService.run events).2 := by
  have hinv := Machine.run_invariant_along taskInv_init
    (fun s _ e hguard hI => hI.step hguard) h
  exact ⟨hinv.work.increasing, hinv.executed⟩

/-- A round whose second task is left to the loop behind the main loop. -/
def taskRound : List TaskEvent :=
  [.addTask, .start, .owner, .owner] ++ List.replicate 6 (.worker 0) ++
    [.close, .owner, .owner, .addTask, .owner] ++
    List.replicate 6 (.worker 0) ++ [.owner]

theorem tasks_onceInOrder_round :
    OnceInOrder (CellTaskService.run taskRound).2 :=
  tasks_onceInOrder (by decide)

/-- The task that was left stays in the buffer, and is executed again. -/
theorem tasks_not_onceInOrder :
    ¬ ∀ events : List TaskEvent,
      OnceInOrder (CellTaskService.run events).2 := by
  intro h
  have honce := h (taskRound ++ [.start, .owner, .owner] ++
    List.replicate 5 (.worker 1))
  exact absurd honce.increasing (by decide)

end Rounds

end Threads
end NetEngine
