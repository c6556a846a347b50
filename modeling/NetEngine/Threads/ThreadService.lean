import NetEngine.Lib.Machine
import NetEngine.Lib.Positions

/-!
# CellThreadService

semaphore.cpp and cell_thread.cpp as a machine of an owner, who calls `Start`,
`Close` and `CloseWithoutWait` one after the other, and the threads that were
started.  Taking `m_mutex`, the test of `m_isRun`, each critical section of the
semaphore and each part of `OnWork` are steps of their own.

`m_mutex` is held from the step that takes it to the end of the function, so
who holds it can be read off the positions.  The run function is any function:
it may call `CloseWithoutWait` and return when it likes.
-/

namespace NetEngine
namespace Threads

structure Semaphore where
  waitRef : Int := 0
  weakupRef : Int := 0
deriving DecidableEq

namespace Semaphore

/-- `Wait` up to the condition variable, and whether it waits there. -/
def wait (sem : Semaphore) : Semaphore × Bool :=
  let waitRef := sem.waitRef - 1
  ({ sem with waitRef := waitRef }, waitRef < 0)

/-- `Wait` from the condition variable on, once its predicate holds. -/
def wake (sem : Semaphore) : Option Semaphore :=
  if sem.weakupRef > 0 then some { sem with weakupRef := sem.weakupRef - 1 }
  else none

def weakup (sem : Semaphore) : Semaphore :=
  let waitRef := sem.waitRef + 1
  if waitRef ≤ 0 then
    { waitRef := waitRef, weakupRef := sem.weakupRef + 1 }
  else { sem with waitRef := waitRef }

end Semaphore

inductive Call where
  | start
  | close
  | closeWithoutWait
deriving DecidableEq

/-- Where the owner is. -/
inductive OwnerPc where
  | idle
  /-- It made a call and needs `m_mutex`. -/
  | calling (f : Call)
  /-- It has `m_mutex` and tests `m_isRun` next. -/
  | locked (f : Call)
  /-- `Close` has cleared `m_isRun` and calls `Wait` next. -/
  | stopped
  /-- `Close` waits at the condition variable. -/
  | waiting
deriving DecidableEq

/-- Where a thread is in `OnWork`. -/
inductive WorkerPc where
  | onCreate
  | onRun
  /-- The run function called `CloseWithoutWait` and needs `m_mutex`. -/
  | calling
  /-- `CloseWithoutWait` has `m_mutex`. -/
  | locked
  | onDestory
  /-- `OnWork` calls `Weakup` next. -/
  | weakup
  | ended
deriving DecidableEq

structure CellThreadService where
  isRun : Bool := false
  sem : Semaphore := {}
  owner : OwnerPc := .idle
  /-- The threads that `Start` made, in order. -/
  workers : List WorkerPc := []
deriving DecidableEq

inductive ThreadEvent where
  /-- The owner makes a call. -/
  | call (f : Call)
  /-- The owner goes on with its call. -/
  | owner
  /-- A thread goes on with `OnWork`. -/
  | worker (i : Nat)
  /-- The run function of a thread calls `CloseWithoutWait`. -/
  | closeWithoutWait (i : Nat)
deriving DecidableEq

inductive ThreadObservation where
  /-- `Close` returned: whether it stopped the service, and how many threads
  were inside `OnWork` before their `Weakup`. -/
  | closeReturned (stopped : Bool) (inside : Nat)
  /-- `CloseWithoutWait` found `m_isRun` set. -/
  | closedWithoutWait
deriving DecidableEq

def OwnerPc.holdsMutex : OwnerPc → Bool
  | .idle | .calling _ => false
  | .locked _ | .stopped | .waiting => true

def WorkerPc.holdsMutex : WorkerPc → Bool
  | .locked => true
  | _ => false

namespace CellThreadService

/-- Nobody holds `m_mutex`. -/
def mutexFree (s : CellThreadService) : Bool :=
  ! s.owner.holdsMutex && s.workers.all (fun w => ! w.holdsMutex)

/-- Number of threads inside `OnWork` before their `Weakup`. -/
def inside (s : CellThreadService) : Nat :=
  s.workers.countP (fun w => w ≠ .ended)

def closeReturns (s : CellThreadService) (stopped : Bool) :
    CellThreadService × List ThreadObservation :=
  ({ s with owner := .idle }, [.closeReturned stopped s.inside])

/-- The next step of the owner's call. -/
def ownerStep (s : CellThreadService) :
    CellThreadService × List ThreadObservation :=
  match s.owner with
  | .idle => (s, [])
  | .calling f =>
      if s.mutexFree then ({ s with owner := .locked f }, []) else (s, [])
  | .locked .start =>
      if s.isRun then ({ s with owner := .idle }, [])
      else
        ({ s with
            isRun := true
            owner := .idle
            workers := s.workers ++ [.onCreate] }, [])
  | .locked .close =>
      if s.isRun then ({ s with isRun := false, owner := .stopped }, [])
      else s.closeReturns false
  | .locked .closeWithoutWait =>
      if s.isRun then
        ({ s with isRun := false, owner := .idle }, [.closedWithoutWait])
      else ({ s with owner := .idle }, [])
  | .stopped =>
      let r := s.sem.wait
      if r.2 then ({ s with sem := r.1, owner := .waiting }, [])
      else { s with sem := r.1 }.closeReturns true
  | .waiting =>
      match s.sem.wake with
      | none => (s, [])
      | some sem => { s with sem := sem }.closeReturns true

/-- The next step of a thread. -/
def workerStep (s : CellThreadService) (i : Nat) (w : WorkerPc) :
    CellThreadService × List ThreadObservation :=
  match w with
  | .onCreate => ({ s with workers := s.workers.set i .onRun }, [])
  | .onRun => ({ s with workers := s.workers.set i .onDestory }, [])
  | .calling =>
      if s.mutexFree then ({ s with workers := s.workers.set i .locked }, [])
      else (s, [])
  | .locked =>
      if s.isRun then
        ({ s with isRun := false, workers := s.workers.set i .onRun },
          [.closedWithoutWait])
      else ({ s with workers := s.workers.set i .onRun }, [])
  | .onDestory => ({ s with workers := s.workers.set i .weakup }, [])
  | .weakup =>
      ({ s with sem := s.sem.weakup, workers := s.workers.set i .ended }, [])
  | .ended => (s, [])

/-- One step; a party that cannot go on stays where it is. -/
def step (s : CellThreadService) :
    ThreadEvent → CellThreadService × List ThreadObservation
  | .call f =>
      if s.owner = .idle then ({ s with owner := .calling f }, [])
      else (s, [])
  | .owner => s.ownerStep
  | .worker i =>
      match s.workers[i]? with
      | none => (s, [])
      | some w => s.workerStep i w
  | .closeWithoutWait i =>
      if s.workers[i]? = some .onRun then
        ({ s with workers := s.workers.set i .calling }, [])
      else (s, [])

/-- A fresh service, after a list of events. -/
def run (events : List ThreadEvent) :
    CellThreadService × List ThreadObservation :=
  Machine.run step {} events

end CellThreadService

/-- What a step can do, for each kind of event. -/
inductive ThreadMove : ThreadEvent → CellThreadService →
    List ThreadObservation → CellThreadService → Prop
  | idle (e : ThreadEvent) (s : CellThreadService) : ThreadMove e s [] s
  | call (s : CellThreadService) (f : Call) (howner : s.owner = .idle) :
      ThreadMove (.call f) s [] { s with owner := .calling f }
  | lock (s : CellThreadService) (f : Call) (howner : s.owner = .calling f)
      (hfree : s.mutexFree = true) :
      ThreadMove .owner s [] { s with owner := .locked f }
  | start (s : CellThreadService) (howner : s.owner = .locked .start)
      (hrun : s.isRun = false) :
      ThreadMove .owner s []
        { s with
          isRun := true
          owner := .idle
          workers := s.workers ++ [.onCreate] }
  | ignored (s : CellThreadService) (f : Call)
      (howner : s.owner = .locked f) (hf : f ≠ .close)
      (hrun : s.isRun = true ↔ f = .start) :
      ThreadMove .owner s [] { s with owner := .idle }
  | closed (s : CellThreadService) (howner : s.owner = .locked .close)
      (hrun : s.isRun = false) :
      ThreadMove .owner s [.closeReturned false s.inside] { s with owner := .idle }
  | stop (s : CellThreadService) (howner : s.owner = .locked .close)
      (hrun : s.isRun = true) :
      ThreadMove .owner s [] { s with isRun := false, owner := .stopped }
  | closeWithoutWait (s : CellThreadService)
      (howner : s.owner = .locked .closeWithoutWait)
      (hrun : s.isRun = true) :
      ThreadMove .owner s [.closedWithoutWait]
        { s with isRun := false, owner := .idle }
  | passed (s : CellThreadService) (howner : s.owner = .stopped)
      (href : s.sem.waitRef ≥ 1) :
      ThreadMove .owner s [.closeReturned true s.inside]
        { s with
          sem := { s.sem with waitRef := s.sem.waitRef - 1 }
          owner := .idle }
  | wait (s : CellThreadService) (howner : s.owner = .stopped)
      (href : s.sem.waitRef < 1) :
      ThreadMove .owner s []
        { s with
          sem := { s.sem with waitRef := s.sem.waitRef - 1 }
          owner := .waiting }
  | wake (s : CellThreadService) (howner : s.owner = .waiting)
      (href : s.sem.weakupRef > 0) :
      ThreadMove .owner s [.closeReturned true s.inside]
        { s with
          sem := { s.sem with weakupRef := s.sem.weakupRef - 1 }
          owner := .idle }
  | advance (e : ThreadEvent) (s : CellThreadService) (i : Nat)
      (w w' : WorkerPc)
      (before after : List WorkerPc)
      (hworkers : s.workers = before ++ w :: after)
      (hi : before.length = i)
      (he : e = .worker i ∨ e = .closeWithoutWait i)
      (hw : w ≠ .ended) (hw' : w' ≠ .ended)
      (hcall : w' = .calling → e = .closeWithoutWait i ∧ w = .onRun)
      (hlock : w' = .locked → s.mutexFree = true) :
      ThreadMove e s [] { s with workers := before ++ w' :: after }
  | workerCloses (s : CellThreadService) (i : Nat)
      (before after : List WorkerPc)
      (hworkers : s.workers = before ++ .locked :: after)
      (hi : before.length = i) (hrun : s.isRun = true) :
      ThreadMove (.worker i) s [.closedWithoutWait]
        { s with isRun := false, workers := before ++ .onRun :: after }
  | weakup (s : CellThreadService) (i : Nat)
      (before after : List WorkerPc)
      (hworkers : s.workers = before ++ .weakup :: after)
      (hi : before.length = i) :
      ThreadMove (.worker i) s []
        { s with
          sem := s.sem.weakup
          workers := before ++ .ended :: after }

section Inversion

theorem ownerStep_move (s : CellThreadService) :
    ThreadMove .owner s s.ownerStep.2 s.ownerStep.1 := by
  rw [CellThreadService.ownerStep]
  cases howner : s.owner with
  | idle =>
      exact ThreadMove.idle _ s
  | calling f =>
      dsimp only
      split_ifs with hfree
      · exact ThreadMove.lock s f howner hfree
      · exact ThreadMove.idle _ s
  | locked f =>
      cases f with
      | start =>
          dsimp only
          split_ifs with hrun
          · exact ThreadMove.ignored s .start howner (by decide)
              (by simp [hrun])
          · exact ThreadMove.start s howner (by simpa using hrun)
      | close =>
          dsimp only
          split_ifs with hrun
          · exact ThreadMove.stop s howner hrun
          · exact ThreadMove.closed s howner (by simpa using hrun)
      | closeWithoutWait =>
          dsimp only
          split_ifs with hrun
          · exact ThreadMove.closeWithoutWait s howner hrun
          · exact ThreadMove.ignored s .closeWithoutWait howner (by decide)
              (by simp [hrun])
  | stopped =>
      simp only [Semaphore.wait, decide_eq_true_eq]
      split_ifs with href
      · exact ThreadMove.wait s howner (by omega)
      · exact ThreadMove.passed s howner (by omega)
  | waiting =>
      simp only [Semaphore.wake]
      split_ifs with href
      · exact ThreadMove.wake s howner href
      · exact ThreadMove.idle _ s

theorem workerStep_move
    {s : CellThreadService} {i : Nat} {w : WorkerPc}
    (hw : s.workers[i]? = some w) :
    ThreadMove (.worker i) s (s.workerStep i w).2
      (s.workerStep i w).1 := by
  obtain ⟨before, after, hworkers, hi, hset⟩ := split_set hw
  cases w with
  | onCreate | onRun | onDestory =>
      simp only [CellThreadService.workerStep, hset]
      exact ThreadMove.advance _ s i _ _ before after hworkers hi
        (Or.inl rfl) (by simp) (by simp) (by simp) (by simp)
  | calling =>
      simp only [CellThreadService.workerStep, hset]
      split_ifs with hfree
      · exact ThreadMove.advance _ s i _ _ before after hworkers hi
          (Or.inl rfl) (by simp) (by simp) (by simp) (fun _ => hfree)
      · exact ThreadMove.idle _ s
  | locked =>
      simp only [CellThreadService.workerStep, hset]
      split_ifs with hrun
      · exact ThreadMove.workerCloses s i before after hworkers hi hrun
      · exact ThreadMove.advance _ s i _ _ before after hworkers hi
          (Or.inl rfl) (by simp) (by simp) (by simp) (by simp)
  | weakup =>
      simp only [CellThreadService.workerStep, hset]
      exact ThreadMove.weakup s i before after hworkers hi
  | ended =>
      exact ThreadMove.idle _ s

/-- Every step is a move. -/
theorem threadStep_move (s : CellThreadService) (e : ThreadEvent) :
    ThreadMove e s (s.step e).2 (s.step e).1 := by
  cases e with
  | call f =>
      simp only [CellThreadService.step]
      split_ifs with howner
      · exact ThreadMove.call s f howner
      · exact ThreadMove.idle _ s
  | owner =>
      exact ownerStep_move s
  | worker i =>
      simp only [CellThreadService.step]
      cases hw : s.workers[i]? with
      | none =>
          exact ThreadMove.idle _ s
      | some w =>
          exact workerStep_move hw
  | closeWithoutWait i =>
      simp only [CellThreadService.step]
      split_ifs with hw
      · obtain ⟨before, after, hworkers, hi, hset⟩ := split_set hw
        rw [hset]
        exact ThreadMove.advance _ s i _ _ before after hworkers hi
          (Or.inr rfl) (by simp) (by simp) (fun _ => ⟨rfl, rfl⟩) (by simp)
      · exact ThreadMove.idle _ s

end Inversion

end Threads
end NetEngine
