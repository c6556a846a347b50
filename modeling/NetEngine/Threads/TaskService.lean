import NetEngine.Threads.CloseJoins

/-!
# CellTaskService

cell_task.cpp on top of the thread service.  A task is known by its number: how
many tasks were added before it.  `AddTask` comes from any thread and holds the
lock for all it does; each statement of `OnRun` that another thread could see
half done is a step of its own.

Nobody calls `CloseWithoutWait` on the thread of a task service.
-/

namespace NetEngine
namespace Threads

/-- Where a thread is in `CellTaskService::OnRun`. -/
inductive RunPc where
  /-- The loop tests `IsRun`. -/
  | test
  /-- The lock block moves `m_taskBuff` to `m_taskPool`. -/
  | drain
  /-- The test whether `m_taskPool` is empty. -/
  | poolTest
  /-- The loop over `m_taskPool` is at a position. -/
  | running (i : Nat)
  /-- The loop over `m_taskBuff` behind the main loop is at a position. -/
  | final (i : Nat)
  | returned
deriving DecidableEq

structure CellTaskService where
  thread : CellThreadService := {}
  taskPool : List Nat := []
  taskBuff : List Nat := []
  /-- Number of tasks added so far. -/
  added : Nat := 0
  /-- Position in `OnRun` of each thread. -/
  onRun : Nat → RunPc := fun _ => .test

inductive TaskEvent where
  | addTask
  /-- The owner calls `Start`. -/
  | start
  /-- The owner calls `Close`. -/
  | close
  /-- The owner goes on with its call. -/
  | owner
  /-- A thread goes on. -/
  | worker (i : Nat)
deriving DecidableEq

inductive TaskObservation where
  /-- A task was executed. -/
  | ran (task : Nat)
  /-- `Close` returned: whether it stopped the service, and the number of tasks
  added by then. -/
  | closeReturned (stopped : Bool) (added : Nat)
deriving DecidableEq

namespace CellTaskService

/-- What the owner's callers see of the thread service. -/
def observed (added : Nat) : ThreadObservation → Option TaskObservation
  | .closeReturned stopped _ => some (.closeReturned stopped added)
  | .closedWithoutWait => none

def threadStep (s : CellTaskService) (e : ThreadEvent) :
    CellTaskService × List TaskObservation :=
  let r := s.thread.step e
  ({ s with thread := r.1 }, r.2.filterMap (observed s.added))

def addTask (s : CellTaskService) : CellTaskService :=
  { s with taskBuff := s.taskBuff ++ [s.added], added := s.added + 1 }

def setPc (s : CellTaskService) (i : Nat) (pc : RunPc) : CellTaskService :=
  { s with onRun := Function.update s.onRun i pc }

/-- The next step of a thread inside `OnRun`. -/
def onRunStep (s : CellTaskService) (i : Nat) :
    CellTaskService × List TaskObservation :=
  match s.onRun i with
  | .test =>
      if s.thread.isRun then (s.setPc i .drain, [])
      else (s.setPc i (.final 0), [])
  | .drain =>
      ({ s with taskPool := s.taskPool ++ s.taskBuff, taskBuff := [] }.setPc
        i .poolTest, [])
  | .poolTest =>
      if s.taskPool = [] then (s.setPc i .test, [])
      else (s.setPc i (.running 0), [])
  | .running k =>
      match s.taskPool[k]? with
      | some task => (s.setPc i (.running (k + 1)), [.ran task])
      | none => ({ s with taskPool := [] }.setPc i .test, [])
  | .final k =>
      match s.taskBuff[k]? with
      | some task => (s.setPc i (.final (k + 1)), [.ran task])
      | none => (s.setPc i .returned, [])
  | .returned => (s, [])

/-- One step; `m_onRun` of a thread returns when its `OnRun` has. -/
def step (s : CellTaskService) :
    TaskEvent → CellTaskService × List TaskObservation
  | .addTask => (s.addTask, [])
  | .start => s.threadStep (.call .start)
  | .close => s.threadStep (.call .close)
  | .owner => s.threadStep .owner
  | .worker i =>
      if s.thread.workers[i]? = some .onRun ∧ s.onRun i ≠ .returned then
        s.onRunStep i
      else s.threadStep (.worker i)

/-- A fresh service, after a list of events. -/
def run (events : List TaskEvent) :
    CellTaskService × List TaskObservation :=
  Machine.run step {} events

end CellTaskService

end Threads
end NetEngine
