import NetEngine.Lib.Machine
import NetEngine.Net.ReadWriteData

/-!
# The loop of a cell

`Cell::OnRun` on POSIX: the join block, the shortcut for a cell without clients,
`select` over a set that is built again only when `m_connDelta` is up, and
`ReadData`.  `WriteData` is commented out of the loop.

Other threads call `AddClient` between any two steps.  What `IsRun`, `select`
and `Recv` return is an argument of the step that calls them.  A socket that has
no bit in an `fd_set` leaves the code without a meaning.
-/

namespace NetEngine
namespace Net

universe u v

open CellClient (sockfd)

section FdSets

/-- Descriptors that an `fd_set` has bits for, on POSIX. -/
def FD_SETSIZE : Nat := 1024

/-- `fd_set`: a bit for each descriptor. -/
abbrev FdSet :=
  Fin FD_SETSIZE → Bool

def fdZero : FdSet :=
  fun _ => false

/-- Bit of a descriptor, if it has one. -/
def fdBit (fd : SOCKET) : Option (Fin FD_SETSIZE) :=
  if h : 0 ≤ fd.toInt ∧ fd.toInt < FD_SETSIZE then
    some ⟨fd.toInt.toNat, by omega⟩
  else none

def fdSet (fd : SOCKET) (fds : FdSet) : Option FdSet :=
  (fdBit fd).map (fun b => Function.update fds b true)

def fdIsSet (fd : SOCKET) (fds : FdSet) : Bool :=
  (fdBit fd).any fds

/-- A socket that an `fd_set` can hold. -/
def Selectable (fd : SOCKET) : Prop :=
  0 ≤ fd.toInt ∧ fd.toInt < FD_SETSIZE

instance (fd : SOCKET) : Decidable (Selectable fd) :=
  inferInstanceAs (Decidable (_ ∧ _))

theorem fdBit_eq_some_iff (fd : SOCKET) (b : Fin FD_SETSIZE) :
    fdBit fd = some b ↔ fd.toInt = b.val := by
  have hb := b.isLt
  rw [fdBit]
  split_ifs with h
  · rw [Option.some.injEq, Fin.ext_iff]
    dsimp only
    omega
  · simp only [false_iff]
    omega

theorem fdSet_spec {fd : SOCKET} (h : Selectable fd) (fds : FdSet) :
    ∃ fds', fdSet fd fds = some fds' ∧
      ∀ b : Fin FD_SETSIZE,
        fds' b = true ↔ fds b = true ∨ fd.toInt = b.val := by
  obtain ⟨hlow, hhigh⟩ := h
  obtain ⟨bit, hbit⟩ : ∃ bit, fdBit fd = some bit :=
    ⟨⟨fd.toInt.toNat, by omega⟩, by
      rw [fdBit_eq_some_iff]
      dsimp only
      omega⟩
  refine ⟨Function.update fds bit true, by rw [fdSet, hbit]; rfl, ?_⟩
  intro b
  rw [← fdBit_eq_some_iff, hbit, Option.some.injEq, Function.update_apply]
  by_cases hb : b = bit
  · simp [hb]
  · simp [hb, Ne.symm hb]

end FdSets

/-- Where the thread is in `OnRun`. -/
inductive LoopPc where
  /-- It asks `IsRun` next. -/
  | head
  /-- It looks at the size of `m_clientsBuff` next. -/
  | buff
  | join
  /-- It tests `m_clients.empty()` next and may get to `select`. -/
  | clients
  /-- `select` has returned. -/
  | readData (fdRead fdWrite : FdSet)
  /-- The loop has ended. -/
  | clrClient
  | returned
  /-- `FD_SET` was given a socket without a bit. -/
  | undefined

structure CellLoop (γ : Type u) where
  pool : CellClients γ := {}
  clientsBuff : List γ := []
  fdReadBak : FdSet := fdZero
  maxSock : SOCKET := -1
  pc : LoopPc := .head

/-- What the calls of one step return. -/
structure LoopCalls (γ : Type u) (ο : Type v) [CellClient γ] where
  isRun : Bool
  /-- Return value of `select`, and which sockets it may leave set. -/
  ret : Int
  readable : FdSet
  writable : FdSet
  recv : ClientCall γ ο

inductive LoopEvent (γ : Type u) (ο : Type v) [CellClient γ] where
  | addClient (client : γ)
  /-- The thread goes on with `OnRun`. -/
  | thread (calls : LoopCalls γ ο)

inductive LoopObservation (γ : Type u) (ο : Type v) where
  | onJoin (client : γ)
  /-- `select` is called while these are the clients in `m_clients`. -/
  | select (nfds : Int) (fdRead fdWrite : FdSet) (clients : List γ)
  | pass (o : PassObservation γ ο)

namespace CellLoop

variable {γ : Type u} {ο : Type v} [CellClient γ]

/-- The beginning of `OnRun`, whatever an earlier run has left. -/
def onRun (s : CellLoop γ) : CellLoop γ :=
  { s with pool := { s.pool with connDelta := true }, pc := .head }

def addClient (s : CellLoop γ) (client : γ) : CellLoop γ :=
  { s with clientsBuff := s.clientsBuff ++ [client] }

def joinBlock (s : CellLoop γ) :
    CellLoop γ × List (LoopObservation γ ο) :=
  let joined := s.clientsBuff.foldl CellClients.add s.pool
  ({ s with
      pool := { joined with connDelta := true }
      clientsBuff := []
      pc := .clients },
    s.clientsBuff.map .onJoin)

/-- The loop that sets the bits and looks for the largest socket. -/
def fdSetLoop : List γ → FdSet × SOCKET → Option (FdSet × SOCKET)
  | [], r => some r
  | c :: rest, (fds, maxSock) =>
      match fdSet (sockfd c) fds with
      | none => none
      | some fds' =>
          fdSetLoop rest
            (fds', if maxSock < sockfd c then sockfd c else maxSock)

/-- `fdRead` and what is kept, for the clients in `m_clients`. -/
def prepare (s : CellLoop γ) (first : γ) (rest : List γ) :
    Option (FdSet × CellLoop γ) :=
  if s.pool.connDelta then
    (fdSetLoop (first :: rest) (fdZero, sockfd first)).map fun r =>
      (r.1,
        { s with
          pool := { s.pool with connDelta := false }
          maxSock := r.2
          fdReadBak := r.1 })
  else some (s.fdReadBak, s)

/-- From the test of `m_clients.empty()` to the return of `select`. -/
def selectStep (s : CellLoop γ) (calls : LoopCalls γ ο) :
    CellLoop γ × List (LoopObservation γ ο) :=
  match s.pool.clients.values with
  | [] => ({ s with pc := .head }, [])
  | first :: rest =>
      match s.prepare first rest with
      | none => ({ s with pc := .undefined }, [])
      | some (fdRead, s') =>
          let fdWrite := s'.fdReadBak
          ({ s' with
              pc :=
                if calls.ret < 0 then .clrClient
                else
                  .readData (fun b => fdRead b && calls.readable b)
                    (fun b => fdWrite b && calls.writable b) },
            [.select (int32 (s'.maxSock.toInt + 1)) fdRead fdWrite
              (first :: rest)])

def readDataStep (s : CellLoop γ) (fdRead : FdSet)
    (calls : LoopCalls γ ο) : CellLoop γ × List (LoopObservation γ ο) :=
  let r := s.pool.readData calls.recv (fun k => fdIsSet k fdRead)
  ({ s with pool := r.1, pc := .head }, r.2.map .pass)

def clrClient (s : CellLoop γ) : CellLoop γ :=
  { s with
    pool := { s.pool with clients := .empty }
    clientsBuff := []
    pc := .returned }

/-- The next step of the thread. -/
def threadStep (s : CellLoop γ) (calls : LoopCalls γ ο) :
    CellLoop γ × List (LoopObservation γ ο) :=
  match s.pc with
  | .head =>
      ({ s with pc := if calls.isRun then .buff else .clrClient }, [])
  | .buff =>
      ({ s with pc := if s.clientsBuff.length > 0 then .join else .clients },
        [])
  | .join => s.joinBlock
  | .clients => s.selectStep calls
  | .readData fdRead _ => s.readDataStep fdRead calls
  | .clrClient => (s.clrClient, [])
  | .returned => (s, [])
  | .undefined => (s, [])

def step (s : CellLoop γ) :
    LoopEvent γ ο → CellLoop γ × List (LoopObservation γ ο)
  | .addClient client => (s.addClient client, [])
  | .thread calls => s.threadStep calls

/-- A run of `OnRun`, from any state of the cell. -/
def run (s : CellLoop γ) (events : List (LoopEvent γ ο)) :
    CellLoop γ × List (LoopObservation γ ο) :=
  Machine.run step s.onRun events

section SelectSet

/-- Bits of exactly these sockets, and the largest of them. -/
structure Caches (fds : FdSet) (maxSock : SOCKET) (socks : List SOCKET) :
    Prop where
  bits : ∀ b : Fin FD_SETSIZE, fds b = true ↔ ∃ k ∈ socks, k.toInt = b.val
  last : maxSock ∈ socks
  above : ∀ k ∈ socks, k.toInt ≤ maxSock.toInt

/-- Bits and maximum after the loop, from those before it. -/
theorem fdSetLoop_spec
    {cs : List γ} (h : ∀ c ∈ cs, Selectable (sockfd c))
    (fds : FdSet) (maxSock : SOCKET) :
    ∃ fds' maxSock', fdSetLoop cs (fds, maxSock) = some (fds', maxSock') ∧
      (∀ b : Fin FD_SETSIZE, fds' b = true ↔
        fds b = true ∨ ∃ k ∈ cs.map sockfd, k.toInt = b.val) ∧
      maxSock' ∈ maxSock :: cs.map sockfd ∧
      ∀ k ∈ maxSock :: cs.map sockfd, k.toInt ≤ maxSock'.toInt := by
  induction cs generalizing fds maxSock with
  | nil =>
      exact ⟨fds, maxSock, rfl, by simp, by simp, by simp⟩
  | cons c cs ih =>
      obtain ⟨hc, hcs⟩ := List.forall_mem_cons.mp h
      obtain ⟨fds₁, hset, hbits₁⟩ := fdSet_spec hc fds
      obtain ⟨fds', maxSock', hloop, hbits, hlast, habove⟩ := ih hcs fds₁
        (if maxSock < sockfd c then sockfd c else maxSock)
      obtain ⟨hmax, habove⟩ := List.forall_mem_cons.mp habove
      refine ⟨fds', maxSock', ?_, ?_, ?_, ?_⟩
      · rw [fdSetLoop, hset]
        exact hloop
      · intro b
        rw [hbits, hbits₁, List.map_cons, List.exists_mem_cons_iff, or_assoc]
      · split_ifs at hlast with hlt
        · exact List.mem_cons_of_mem _ hlast
        · rcases List.mem_cons.mp hlast with heq | hmem
          · exact heq ▸ List.mem_cons_self
          · exact List.mem_cons_of_mem _ (List.mem_cons_of_mem _ hmem)
      · rw [List.map_cons, List.forall_mem_cons, List.forall_mem_cons]
        split_ifs at hmax with hlt
        · rw [Int32.lt_iff_toInt_lt] at hlt
          exact ⟨by omega, hmax, habove⟩
        · rw [Int32.lt_iff_toInt_lt] at hlt
          exact ⟨hmax, by omega, habove⟩

/-- The first argument and both sets of a call of `select` fit the clients. -/
structure SelectExact (nfds : Int) (fdRead fdWrite : FdSet)
    (clients : List γ) : Prop where
  read : ∀ b : Fin FD_SETSIZE,
    fdRead b = true ↔ ∃ c ∈ clients, (sockfd c).toInt = b.val
  write : ∀ b : Fin FD_SETSIZE,
    fdWrite b = true ↔ ∃ c ∈ clients, (sockfd c).toInt = b.val
  last : ∃ c ∈ clients, nfds = (sockfd c).toInt + 1
  above : ∀ c ∈ clients, (sockfd c).toInt + 1 ≤ nfds

/-- What holds between the steps of the loop. -/
structure LoopInv (s : CellLoop γ) : Prop where
  keyed : s.pool.Keyed
  clients : ∀ k ∈ s.pool.clients.keys, Selectable k
  buff : ∀ c ∈ s.clientsBuff, Selectable (sockfd c)
  cached : s.pc ≠ .returned → s.pool.connDelta = false →
    Caches s.fdReadBak s.maxSock s.pool.clients.keys
  defined : s.pc ≠ .undefined

theorem SelectExact.of_caches
    {fds : FdSet} {maxSock : SOCKET} {clients : List γ}
    (h : Caches fds maxSock (clients.map sockfd))
    (hsel : ∀ k ∈ clients.map sockfd, Selectable k) :
    SelectExact (int32 (maxSock.toInt + 1)) fds fds clients := by
  obtain ⟨hlow, hhigh⟩ := hsel maxSock h.last
  have hnfds : int32 (maxSock.toInt + 1) = maxSock.toInt + 1 := by
    rw [FD_SETSIZE] at hhigh
    apply int32_of_bounds
    · omega
    · omega
  have hbits : ∀ b : Fin FD_SETSIZE,
      fds b = true ↔ ∃ c ∈ clients, (sockfd c).toInt = b.val := by
    intro b
    simpa using h.bits b
  obtain ⟨c, hc, hlast⟩ := List.mem_map.mp h.last
  refine ⟨hbits, hbits, ⟨c, hc, ?_⟩, fun d hd => ?_⟩
  · rw [hnfds, hlast]
  · have habove := h.above _ (List.mem_map_of_mem hd)
    omega

/-- The set passed to `select` is the one kept, and it fits the clients. -/
theorem LoopInv.prepare
    {s : CellLoop γ} (h : s.LoopInv) (hpc : s.pc ≠ .returned) {first : γ} {rest : List γ}
    (hvalues : s.pool.clients.values = first :: rest) :
    ∃ s', s.prepare first rest = some (s'.fdReadBak, s') ∧ s'.LoopInv ∧
      s'.pc = s.pc ∧ Caches s'.fdReadBak s'.maxSock s.pool.clients.keys := by
  have hkeys := h.keyed.values_sockfd
  rw [CellLoop.prepare]
  by_cases hdelta : s.pool.connDelta = true
  · have hsel : ∀ c ∈ first :: rest, Selectable (sockfd c) := by
      intro c hc
      apply h.clients
      rw [← hkeys, hvalues]
      exact List.mem_map_of_mem hc
    obtain ⟨fds, maxSock, hloop, hbits, hlast, habove⟩ :=
      fdSetLoop_spec hsel fdZero (sockfd first)
    have hcaches : Caches fds maxSock s.pool.clients.keys := by
      rw [← hkeys, hvalues]
      refine ⟨fun b => ?_, ?_, ?_⟩
      · simpa [fdZero] using hbits b
      · rcases List.mem_cons.mp hlast with rfl | hlast
        · exact List.mem_cons_self
        · exact hlast
      · exact (List.forall_mem_cons.mp habove).2
    rw [if_pos hdelta, hloop]
    exact ⟨
      { s with
        pool := { s.pool with connDelta := false }
        maxSock := maxSock
        fdReadBak := fds }, rfl,
      ⟨h.keyed, h.clients, h.buff, fun _ _ => hcaches, h.defined⟩, rfl, hcaches⟩
  · rw [if_neg hdelta]
    have hcached := h.cached hpc (by simpa using hdelta)
    exact ⟨s, rfl, h, rfl, hcached⟩

/-- Every call of `select` that was seen fits the clients at that moment. -/
def SelectsExact (tr : List (LoopObservation γ ο)) : Prop :=
  ∀ nfds fdRead fdWrite clients,
    .select nfds fdRead fdWrite clients ∈ tr →
      SelectExact nfds fdRead fdWrite clients

/-- A step keeps what holds between the steps, and its `select` is exact. -/
def Safe (r : CellLoop γ × List (LoopObservation γ ο)) : Prop :=
  r.1.LoopInv ∧ SelectsExact r.2

theorem selectsExact_nil :
    SelectsExact ([] : List (LoopObservation γ ο)) := by
  intro nfds fdRead fdWrite clients hmem
  cases hmem

theorem LoopInv.goto {s : CellLoop γ} (h : s.LoopInv)
    (hold : s.pc ≠ .returned) {pc : LoopPc} (hpc : pc ≠ .undefined) :
    LoopInv { s with pc := pc } :=
  ⟨h.keyed, h.clients, h.buff, fun _ => h.cached hold, hpc⟩

/-- Inserting clients keeps the map in order. -/
theorem foldl_add
    {cs : List γ} (hcs : ∀ c ∈ cs, Selectable (sockfd c))
    {p : CellClients γ} (hkeyed : p.Keyed)
    (hkeys : ∀ k ∈ p.clients.keys, Selectable k) :
    (cs.foldl CellClients.add p).Keyed ∧
      ∀ k ∈ (cs.foldl CellClients.add p).clients.keys, Selectable k := by
  induction cs generalizing p with
  | nil =>
      exact ⟨hkeyed, hkeys⟩
  | cons c cs ih =>
      obtain ⟨hc, hcs⟩ := List.forall_mem_cons.mp hcs
      refine ih hcs (hkeyed.add c) ?_
      intro k hk
      obtain ⟨d, hd⟩ := ((p.add c).clients.mem_keys_iff k).mp hk
      rw [← hkeyed.add c k d hd]
      simp only [CellClients.add, OrderedMap.find?_set] at hd
      split_ifs at hd with hsock
      · cases hd
        exact hc
      · rw [hkeyed k d hd]
        exact hkeys k ((p.clients.mem_keys_iff k).mpr ⟨d, hd⟩)

theorem LoopInv.join {s : CellLoop γ} (h : s.LoopInv) :
    Safe (ο := ο) s.joinBlock := by
  obtain ⟨hkeyed, hkeys⟩ := foldl_add h.buff h.keyed h.clients
  refine ⟨⟨hkeyed, hkeys, ?_, ?_, ?_⟩, ?_⟩
  · intro c hc
    cases hc
  · intro _ hdelta
    cases hdelta
  · simp [joinBlock]
  · intro nfds fdRead fdWrite clients hmem
    simp [joinBlock] at hmem

theorem LoopInv.selectStep {s : CellLoop γ} (h : s.LoopInv)
    (hpc : s.pc ≠ .returned) (calls : LoopCalls γ ο) :
    Safe (s.selectStep calls) := by
  rw [CellLoop.selectStep]
  cases hvalues : s.pool.clients.values with
  | nil =>
      exact ⟨h.goto hpc (by simp), selectsExact_nil⟩
  | cons first rest =>
      obtain ⟨s', hprepare, hinv, hpc', hcaches⟩ := h.prepare hpc hvalues
      rw [← h.keyed.values_sockfd, hvalues] at hcaches
      have hsel := h.clients
      rw [← h.keyed.values_sockfd, hvalues] at hsel
      simp only [hprepare]
      refine ⟨hinv.goto (by rwa [hpc']) ?_, ?_⟩
      · split_ifs <;> simp
      · intro nfds fdRead fdWrite clients hmem
        cases List.mem_singleton.mp hmem
        exact SelectExact.of_caches hcaches hsel

theorem LoopInv.readDataStep {s : CellLoop γ} (h : s.LoopInv)
    (hpc : s.pc ≠ .returned) (fdRead : FdSet) (calls : LoopCalls γ ο) :
    Safe (s.readDataStep fdRead calls) := by
  have hquiet := CellClients.readData_quieter calls.recv h.keyed
    (fun k => fdIsSet k fdRead)
  refine ⟨⟨hquiet.keyed, ?_, h.buff, ?_, by simp [CellLoop.readDataStep]⟩, ?_⟩
  · intro k hk
    exact h.clients k (hquiet.keys hk)
  · intro _ hdelta
    obtain ⟨hold, hkeys⟩ := hquiet.quiet hdelta
    have hcached := h.cached hpc hold
    rw [← hkeys] at hcached
    exact hcached
  · intro nfds fdRead' fdWrite clients hmem
    simp [CellLoop.readDataStep] at hmem

theorem clrClient_loopInv (s : CellLoop γ) : s.clrClient.LoopInv := by
  refine ⟨CellClients.keyed_empty _, ?_, ?_, ?_, by simp [CellLoop.clrClient]⟩
  · intro k hk
    cases hk
  · intro c hc
    cases hc
  · intro hpc
    exact absurd rfl hpc

theorem LoopInv.threadStep {s : CellLoop γ} (h : s.LoopInv)
    (calls : LoopCalls γ ο) : Safe (s.threadStep calls) := by
  rw [CellLoop.threadStep]
  cases hpc : s.pc with
  | head =>
      refine ⟨h.goto (by simp [hpc]) ?_, selectsExact_nil⟩
      split_ifs <;> simp
  | buff =>
      refine ⟨h.goto (by simp [hpc]) ?_, selectsExact_nil⟩
      split_ifs <;> simp
  | join =>
      exact h.join
  | clients =>
      exact h.selectStep (by simp [hpc]) calls
  | readData fdRead fdWrite =>
      exact h.readDataStep (by simp [hpc]) fdRead calls
  | clrClient =>
      exact ⟨s.clrClient_loopInv, selectsExact_nil⟩
  | returned =>
      exact ⟨h, selectsExact_nil⟩
  | undefined =>
      exact absurd hpc h.defined

/-- Only sockets that have a bit are added. -/
def AddsSelectable (_ : CellLoop γ) (_ : List (LoopObservation γ ο)) :
    LoopEvent γ ο → Prop
  | .addClient client => Selectable (sockfd client)
  | .thread _ => True

theorem LoopInv.step {s : CellLoop γ} (h : s.LoopInv)
    {tr : List (LoopObservation γ ο)} {e : LoopEvent γ ο}
    (hguard : AddsSelectable s tr e) : Safe (s.step e) := by
  cases e with
  | addClient client =>
      refine ⟨⟨h.keyed, h.clients, ?_, h.cached, h.defined⟩, selectsExact_nil⟩
      intro c hc
      rcases List.mem_append.mp hc with hc | hc
      · exact h.buff c hc
      · rw [List.mem_singleton.mp hc]
        exact hguard
  | thread calls =>
      exact h.threadStep calls

end SelectSet

/--
In every run of `OnRun` on clients whose sockets have a bit in an `fd_set`, the
loop stays defined, and at every `select` both sets are the sockets of the
clients in `m_clients` and the first argument is one more than the largest.
-/
theorem selectSet_exact
    {s : CellLoop γ} (hkeyed : s.pool.Keyed)
    (hclients : ∀ k ∈ s.pool.clients.keys, Selectable k)
    (hbuff : ∀ c ∈ s.clientsBuff, Selectable (sockfd c))
    {events : List (LoopEvent γ ο)}
    (hadd : ∀ c, .addClient c ∈ events → Selectable (sockfd c)) :
    (s.run events).1.pc ≠ .undefined ∧
      ∀ nfds fdRead fdWrite clients,
        .select nfds fdRead fdWrite clients ∈ (s.run events).2 →
          SelectExact nfds fdRead fdWrite clients := by
  have hinit : LoopInv s.onRun := by
    refine ⟨hkeyed, hclients, hbuff, ?_, by simp [onRun]⟩
    intro _ hdelta
    cases hdelta
  have halong : Machine.Along step AddsSelectable s.onRun events := by
    rintro before e after rfl
    cases e with
    | addClient client =>
        exact hadd client (by simp)
    | thread calls =>
        trivial
  have hinv := Machine.run_invariant_along
    (I := fun t tr => t.LoopInv ∧ SelectsExact tr)
    ⟨hinit, selectsExact_nil⟩ ?_ halong
  · exact ⟨hinv.1.defined, hinv.2⟩
  · rintro t tr e hguard ⟨hloop, hexact⟩
    obtain ⟨hloop', hexact'⟩ := hloop.step hguard
    refine ⟨hloop', ?_⟩
    intro nfds fdRead fdWrite clients hmem
    rcases List.mem_append.mp hmem with hmem | hmem
    · exact hexact _ _ _ _ hmem
    · exact hexact' _ _ _ _ hmem

/-- The loop runs, `select` reports every socket, and `Recv` succeeds. -/
def busyCalls : LoopCalls ClientSocket MessageBody where
  isRun := true
  ret := 1
  readable _ := true
  writable _ := true
  recv := closedPeer 5

/-- Two clients join, the second one leaves, and `select` is called again. -/
def twoClients : List (LoopEvent ClientSocket MessageBody) :=
  [.addClient { sockfd := 4 }, .addClient { sockfd := 5 }] ++
    List.replicate 9 (.thread busyCalls)

theorem selectSet_exact_twoClients :
    (run {} twoClients).1.pc ≠ .undefined ∧
      ∀ nfds fdRead fdWrite clients,
        .select nfds fdRead fdWrite clients ∈ (run {} twoClients).2 →
          SelectExact nfds fdRead fdWrite clients := by
  refine selectSet_exact (CellClients.keyed_empty true) ?_ ?_ ?_
  · intro k hk
    cases hk
  · intro c hc
    cases hc
  · intro c hc
    simp [twoClients] at hc
    rcases hc with rfl | rfl
    · decide
    · decide

end CellLoop

end Net
end NetEngine
