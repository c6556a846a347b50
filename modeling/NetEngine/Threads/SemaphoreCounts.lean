import NetEngine.Threads.ThreadService

/-!
# Counts of the semaphore

Any number of threads call `Wait` and `Weakup` of one semaphore.  A critical
section is a step; `m_cv.wait` gives `m_mutex` back while its thread is
blocked, and a thread that was unblocked, by `notify_one` or by nobody, takes
`m_mutex` again and tests the predicate.  Who is unblocked, and when it goes on,
is free, and a newcomer tests the predicate before it blocks, so it may find a
wakeup that was meant for another.

Let `V` calls of `Weakup` have been made, `R` calls of `Wait` have returned and
`b` threads be in the waiting branch.  The counters are `V - R - b` and
`min b (V - R)`, and there are at least as many unblocked threads as wakeups.

The counters are `int`.  They stay in its range while fewer than 2^31 wakeups are
unused and at most 2^31 threads wait; beyond it the code has no meaning, and the
counts here go on.
-/

namespace NetEngine
namespace Threads

/-- A semaphore and the threads in the waiting branch of `Wait`. -/
structure Waiters where
  sem : Semaphore := {}
  /-- Threads blocked at the condition variable. -/
  blocked : List Nat := []
  /-- Threads that were unblocked and test the predicate next. -/
  awake : List Nat := []
deriving DecidableEq

inductive SemaphoreEvent where
  /-- A thread calls `Wait`. -/
  | wait (t : Nat)
  /-- Somebody calls `Weakup`; `k` chooses whom `notify_one` unblocks. -/
  | weakup (k : Nat)
  /-- A blocked thread is unblocked by nobody. -/
  | spurious (t : Nat)
  /-- An unblocked thread has `m_mutex` and tests the predicate. -/
  | resume (t : Nat)
deriving DecidableEq

inductive SemaphoreObservation where
  | waitReturned (t : Nat)
  | weakupCalled
deriving DecidableEq

namespace Waiters

/-- Threads in the waiting branch. -/
def inside (w : Waiters) : List Nat :=
  w.blocked ++ w.awake

def unblock (w : Waiters) (t : Nat) : Waiters :=
  { w with blocked := w.blocked.erase t, awake := w.awake ++ [t] }

def blockAgain (w : Waiters) (t : Nat) : Waiters :=
  { w with blocked := w.blocked ++ [t], awake := w.awake.erase t }

def notifyOne (w : Waiters) (k : Nat) : Waiters :=
  match w.blocked[k % w.blocked.length]? with
  | some t => w.unblock t
  | none => w

/-- A thread that is not waiting calls `Wait`. -/
def wait (w : Waiters) (t : Nat) :
    Waiters × List SemaphoreObservation :=
  let (sem, waits) := w.sem.wait
  if waits then
    match sem.wake with
    | some sem' => ({ w with sem := sem' }, [.waitReturned t])
    | none => ({ w with sem := sem, blocked := w.blocked ++ [t] }, [])
  else ({ w with sem := sem }, [.waitReturned t])

def weakup (w : Waiters) (k : Nat) : Waiters :=
  let w' := { w with sem := w.sem.weakup }
  if w'.sem.waitRef ≤ 0 then w'.notifyOne k else w'

/-- A thread that was unblocked tests the predicate. -/
def resume (w : Waiters) (t : Nat) :
    Waiters × List SemaphoreObservation :=
  match w.sem.wake with
  | some sem =>
      ({ w with sem := sem, awake := w.awake.erase t }, [.waitReturned t])
  | none => (w.blockAgain t, [])

def step (w : Waiters) :
    SemaphoreEvent → Waiters × List SemaphoreObservation
  | .wait t => if t ∈ w.inside then (w, []) else w.wait t
  | .weakup k => (w.weakup k, [.weakupCalled])
  | .spurious t => (if t ∈ w.blocked then w.unblock t else w, [])
  | .resume t => if t ∈ w.awake then w.resume t else (w, [])

/-- Threads at a semaphore nobody has used, after a list of events. -/
def run (events : List SemaphoreEvent) :
    Waiters × List SemaphoreObservation :=
  Machine.run step {} events

end Waiters

section Moves

/-- What a step can do to the semaphore and its threads. -/
inductive WaitersMove :
    Waiters → List SemaphoreObservation → Waiters → Prop
  | idle (w : Waiters) : WaitersMove w [] w
  | pass (w : Waiters) (t : Nat) (href : 0 < w.sem.waitRef) :
      WaitersMove w [.waitReturned t]
        { w with sem := { w.sem with waitRef := w.sem.waitRef - 1 } }
  | overtake (w : Waiters) (t : Nat) (href : w.sem.waitRef ≤ 0)
      (hwake : 0 < w.sem.weakupRef) :
      WaitersMove w [.waitReturned t]
        { w with
          sem :=
            { waitRef := w.sem.waitRef - 1
              weakupRef := w.sem.weakupRef - 1 } }
  | block (w : Waiters) (t : Nat) (hnew : t ∉ w.inside)
      (href : w.sem.waitRef ≤ 0) (hwake : w.sem.weakupRef ≤ 0) :
      WaitersMove w []
        { w with
          sem := { w.sem with waitRef := w.sem.waitRef - 1 }
          blocked := w.blocked ++ [t] }
  | store (w : Waiters) (href : 0 ≤ w.sem.waitRef) :
      WaitersMove w [.weakupCalled]
        { w with sem := { w.sem with waitRef := w.sem.waitRef + 1 } }
  | notify (w : Waiters) (t : Nat) (ht : t ∈ w.blocked)
      (href : w.sem.waitRef < 0) :
      WaitersMove w [.weakupCalled]
        { w.unblock t with
          sem :=
            { waitRef := w.sem.waitRef + 1
              weakupRef := w.sem.weakupRef + 1 } }
  | notifyNobody (w : Waiters) (hnobody : w.blocked = [])
      (href : w.sem.waitRef < 0) :
      WaitersMove w [.weakupCalled]
        { w with
          sem :=
            { waitRef := w.sem.waitRef + 1
              weakupRef := w.sem.weakupRef + 1 } }
  | unblock (w : Waiters) (t : Nat) (ht : t ∈ w.blocked) :
      WaitersMove w [] (w.unblock t)
  | leave (w : Waiters) (t : Nat) (ht : t ∈ w.awake)
      (hwake : 0 < w.sem.weakupRef) :
      WaitersMove w [.waitReturned t]
        { w with
          sem := { w.sem with weakupRef := w.sem.weakupRef - 1 }
          awake := w.awake.erase t }
  | blockAgain (w : Waiters) (t : Nat) (ht : t ∈ w.awake)
      (hwake : w.sem.weakupRef ≤ 0) :
      WaitersMove w [] (w.blockAgain t)

theorem wait_move
    (w : Waiters) {t : Nat} (hnew : t ∉ w.inside) :
    WaitersMove w (w.wait t).2 (w.wait t).1 := by
  by_cases href : 0 < w.sem.waitRef
  · have hpass : ¬ w.sem.waitRef - 1 < 0 := by omega
    simpa [Waiters.wait, Semaphore.wait, hpass] using
      WaitersMove.pass w t href
  · have hwaits : w.sem.waitRef - 1 < 0 := by omega
    by_cases hwake : 0 < w.sem.weakupRef
    · simpa [Waiters.wait, Semaphore.wait, Semaphore.wake, hwaits, hwake]
        using WaitersMove.overtake w t (Int.not_lt.mp href) hwake
    · simpa [Waiters.wait, Semaphore.wait, Semaphore.wake, hwaits, hwake]
        using WaitersMove.block w t hnew (Int.not_lt.mp href)
          (Int.not_lt.mp hwake)

theorem weakup_move (w : Waiters) (k : Nat) :
    WaitersMove w [.weakupCalled] (w.weakup k) := by
  by_cases href : w.sem.waitRef < 0
  · have hle : w.sem.waitRef + 1 ≤ 0 := by omega
    cases hnotified : w.blocked[k % w.blocked.length]? with
    | none =>
        have hnobody : w.blocked = [] := by
          have hlen := List.getElem?_eq_none_iff.mp hnotified
          by_contra hsome
          have hpos := List.length_pos_iff.mpr hsome
          have hlt := Nat.mod_lt k hpos
          omega
        simpa [Waiters.weakup, Waiters.notifyOne, Semaphore.weakup, hle,
          hnotified] using WaitersMove.notifyNobody w hnobody href
    | some t =>
        have ht := List.mem_of_getElem? hnotified
        simpa [Waiters.weakup, Waiters.notifyOne, Waiters.unblock,
          Semaphore.weakup, hle, hnotified] using
          WaitersMove.notify w t ht href
  · have hlt : ¬ w.sem.waitRef + 1 ≤ 0 := by omega
    simpa [Waiters.weakup, Semaphore.weakup, hlt] using
      WaitersMove.store w (Int.not_lt.mp href)

theorem resume_move
    (w : Waiters) {t : Nat} (ht : t ∈ w.awake) :
    WaitersMove w (w.resume t).2 (w.resume t).1 := by
  by_cases hwake : 0 < w.sem.weakupRef
  · simpa [Waiters.resume, Semaphore.wake, hwake] using
      WaitersMove.leave w t ht hwake
  · simpa [Waiters.resume, Semaphore.wake, hwake] using
      WaitersMove.blockAgain w t ht (Int.not_lt.mp hwake)

theorem waiters_step_move (w : Waiters) (e : SemaphoreEvent) :
    WaitersMove w (w.step e).2 (w.step e).1 := by
  cases e with
  | wait t =>
      by_cases ht : t ∈ w.inside
      · simpa [Waiters.step, ht] using WaitersMove.idle w
      · simpa [Waiters.step, ht] using wait_move w ht
  | weakup k =>
      exact weakup_move w k
  | spurious t =>
      by_cases ht : t ∈ w.blocked
      · simpa [Waiters.step, ht] using WaitersMove.unblock w t ht
      · simpa [Waiters.step, ht] using WaitersMove.idle w
  | resume t =>
      by_cases ht : t ∈ w.awake
      · simpa [Waiters.step, ht] using resume_move w ht
      · simpa [Waiters.step, ht] using WaitersMove.idle w

end Moves

section Places

/-- Unblocking moves a thread inside the waiting branch. -/
theorem unblock_inside
    {w : Waiters} {t : Nat} (ht : t ∈ w.blocked) :
    (w.unblock t).inside.Perm w.inside := by
  have hblocked := (List.perm_cons_erase ht).symm
  have hmiddle :
      (w.blocked.erase t ++ (w.awake ++ [t])).Perm
        (t :: w.blocked.erase t ++ w.awake) := by
    rw [← List.append_assoc]
    exact List.perm_append_singleton t _
  exact hmiddle.trans (hblocked.append_right w.awake)

/-- So does blocking again. -/
theorem blockAgain_inside
    {w : Waiters} {t : Nat} (ht : t ∈ w.awake) :
    (w.blockAgain t).inside.Perm w.inside := by
  have hawake := (List.perm_cons_erase ht).symm
  have hmiddle :
      (w.blocked ++ [t] ++ w.awake.erase t).Perm
        (w.blocked ++ (t :: w.awake.erase t)) := by
    simp
  exact hmiddle.trans (hawake.append_left w.blocked)

/-- A thread that leaves was inside. -/
theorem leave_inside
    {w : Waiters} {t : Nat} (ht : t ∈ w.awake) :
    w.inside.Perm (t :: (w.blocked ++ w.awake.erase t)) := by
  have hawake := List.perm_cons_erase ht
  exact (hawake.append_left w.blocked).trans List.perm_middle

end Places

section Counts

/-- Number of `Weakup` calls made. -/
def weakups (tr : List SemaphoreObservation) : Nat :=
  tr.countP (fun o =>
    match o with
    | .weakupCalled => true
    | .waitReturned _ => false)

/-- Number of `Wait` calls returned. -/
def waitsReturned (tr : List SemaphoreObservation) : Nat :=
  tr.countP (fun o =>
    match o with
    | .weakupCalled => false
    | .waitReturned _ => true)

@[simp] theorem weakups_returned
    (tr : List SemaphoreObservation) (t : Nat) :
    weakups (tr ++ [.waitReturned t]) = weakups tr := by
  simp [weakups]

@[simp] theorem weakups_called (tr : List SemaphoreObservation) :
    weakups (tr ++ [.weakupCalled]) = weakups tr + 1 := by
  simp [weakups]

@[simp] theorem waitsReturned_returned
    (tr : List SemaphoreObservation) (t : Nat) :
    waitsReturned (tr ++ [.waitReturned t]) = waitsReturned tr + 1 := by
  simp [waitsReturned]

@[simp] theorem waitsReturned_called (tr : List SemaphoreObservation) :
    waitsReturned (tr ++ [.weakupCalled]) = waitsReturned tr := by
  simp [waitsReturned]

/-- The counters, and how many threads are about to look at them. -/
structure CountsInv (w : Waiters)
    (tr : List SemaphoreObservation) : Prop where
  distinct : w.inside.Nodup
  waitRef : w.sem.waitRef =
    (weakups tr : Int) - waitsReturned tr - w.inside.length
  weakupRef : w.sem.weakupRef =
    min (w.inside.length : Int) ((weakups tr : Int) - waitsReturned tr)
  returned : waitsReturned tr ≤ weakups tr
  noticed : w.sem.weakupRef ≤ w.awake.length

theorem countsInv_init : CountsInv {} [] where
  distinct := List.nodup_nil
  waitRef := rfl
  weakupRef := rfl
  returned := Nat.le_refl 0
  noticed := Int.le_refl 0

/-- One move keeps the counts. -/
theorem CountsInv.move
    {w w' : Waiters} {tr out : List SemaphoreObservation}
    (h : CountsInv w tr) (hmove : WaitersMove w out w') :
    CountsInv w' (tr ++ out) := by
  obtain ⟨hdistinct, hwait, hweakup, hreturned, hnoticed⟩ := h
  have hlength : w.inside.length = w.blocked.length + w.awake.length :=
    List.length_append
  cases hmove with
  | idle =>
      rw [List.append_nil]
      exact ⟨hdistinct, hwait, hweakup, hreturned, hnoticed⟩
  | pass t href =>
      -- more wakeups than threads inside, and one of them is used up
      refine ⟨hdistinct, ?_, ?_, ?_, hnoticed⟩
      all_goals simp only [weakups_returned, waitsReturned_returned]
      all_goals simp only [Waiters.inside] at *
      all_goals omega
  | overtake t href hwake =>
      -- the wakeup was meant for a thread inside, who stays there
      refine ⟨hdistinct, ?_, ?_, ?_, ?_⟩
      all_goals simp only [weakups_returned, waitsReturned_returned]
      all_goals simp only [Waiters.inside] at *
      all_goals omega
  | block t hnew href hwake =>
      have hinside : (w.blocked ++ [t] ++ w.awake).Perm (t :: w.inside) := by
        simp [Waiters.inside]
      have hone := hinside.length_eq
      refine ⟨?_, ?_, ?_, ?_, ?_⟩
      · exact hinside.nodup_iff.mpr (List.nodup_cons.mpr ⟨hnew, hdistinct⟩)
      all_goals simp only [List.append_nil]
      all_goals simp only [Waiters.inside, List.length_cons] at *
      all_goals omega
  | store href =>
      -- at least as many wakeups as threads inside, who all are told already
      refine ⟨hdistinct, ?_, ?_, ?_, hnoticed⟩
      all_goals simp only [weakups_called, waitsReturned_called]
      all_goals simp only [Waiters.inside] at *
      all_goals omega
  | notify t ht href =>
      have hinside := unblock_inside ht
      have hsame := hinside.length_eq
      have hawake : (w.unblock t).awake.length = w.awake.length + 1 :=
        List.length_append
      refine ⟨hinside.nodup_iff.mpr hdistinct, ?_, ?_, ?_, ?_⟩
      all_goals simp only [weakups_called, waitsReturned_called]
      all_goals simp only [Waiters.inside] at *
      all_goals omega
  | notifyNobody hnobody href =>
      -- everybody inside is awake, and there are fewer wakeups than threads
      rw [hnobody] at hlength
      refine ⟨hdistinct, ?_, ?_, ?_, ?_⟩
      all_goals simp only [weakups_called, waitsReturned_called]
      all_goals simp only [Waiters.inside, List.length_nil] at *
      all_goals omega
  | unblock t ht =>
      have hinside := unblock_inside ht
      have hsame := hinside.length_eq
      have hawake : (w.unblock t).awake.length = w.awake.length + 1 :=
        List.length_append
      rw [List.append_nil]
      refine ⟨hinside.nodup_iff.mpr hdistinct, ?_, ?_, hreturned, ?_⟩
      · rw [hsame]
        exact hwait
      · rw [hsame]
        exact hweakup
      · have hsem : (w.unblock t).sem = w.sem := rfl
        rw [hawake, hsem]
        omega
  | leave t ht hwake =>
      have hinside := leave_inside ht
      have hone := hinside.length_eq
      have hawake := List.length_erase_of_mem ht
      refine ⟨?_, ?_, ?_, ?_, ?_⟩
      · exact (hinside.nodup_iff.mp hdistinct).of_cons
      all_goals simp only [weakups_returned, waitsReturned_returned]
      all_goals simp only [Waiters.inside, List.length_cons] at *
      all_goals omega
  | blockAgain t ht hwake =>
      have hinside := blockAgain_inside ht
      have hsame := hinside.length_eq
      rw [List.append_nil]
      refine ⟨hinside.nodup_iff.mpr hdistinct, ?_, ?_, hreturned, ?_⟩
      · rw [hsame]
        exact hwait
      · rw [hsame]
        exact hweakup
      · exact Int.le_trans hwake (Int.natCast_nonneg _)

theorem countsInv_run (events : List SemaphoreEvent) :
    CountsInv (Waiters.run events).1 (Waiters.run events).2 :=
  Machine.run_invariant countsInv_init
    (fun w _ e h => h.move (waiters_step_move w e)) events

/-- The counters fit their type. -/
theorem CountsInv.fits_int
    {w : Waiters} {tr : List SemaphoreObservation} (h : CountsInv w tr)
    (hunused : weakups tr ≤ waitsReturned tr + 2147483647)
    (hthreads : w.inside.length ≤ 2147483648) :
    (-2147483648 ≤ w.sem.waitRef ∧ w.sem.waitRef ≤ 2147483647) ∧
      (0 ≤ w.sem.weakupRef ∧ w.sem.weakupRef ≤ 2147483647) := by
  obtain ⟨-, hwait, hweakup, hreturned, -⟩ := h
  constructor
  · rw [hwait]
    omega
  · rw [hweakup]
    omega

/-- What the counters count, and that no wakeup is lost. -/
structure CountsCorrectly (w : Waiters)
    (tr : List SemaphoreObservation) : Prop extends CountsInv w tr where
  /-- An unused wakeup is seen by whoever looks, and somebody will. -/
  notLost : 0 < w.inside.length → waitsReturned tr < weakups tr →
    0 < w.sem.weakupRef ∧ w.awake ≠ []
  /-- The counters fit their type. -/
  fits : weakups tr ≤ waitsReturned tr + 2147483647 →
    w.inside.length ≤ 2147483648 →
    (-2147483648 ≤ w.sem.waitRef ∧ w.sem.waitRef ≤ 2147483647) ∧
      (0 ≤ w.sem.weakupRef ∧ w.sem.weakupRef ≤ 2147483647)

/-- The semaphore counts correctly in every interleaving. -/
theorem semaphore_countsCorrectly (events : List SemaphoreEvent) :
    CountsCorrectly (Waiters.run events).1 (Waiters.run events).2 := by
  have h := countsInv_run events
  refine ⟨h, ?_, fun hunused hthreads => h.fits_int hunused hthreads⟩
  intro hwaiting hunused
  have hpos : 0 < (Waiters.run events).1.sem.weakupRef := by
    rw [h.weakupRef]
    omega
  refine ⟨hpos, ?_⟩
  intro hnobody
  have hnoticed := h.noticed
  rw [hnobody, List.length_nil] at hnoticed
  omega

/-- A newcomer takes the wakeup of a thread that waits, which blocks again. -/
example :
    (Waiters.run [.wait 1, .weakup 0, .wait 2, .resume 1]).1 =
      ⟨⟨-1, 0⟩, [1], []⟩ := by
  decide

end Counts

end Threads
end NetEngine
