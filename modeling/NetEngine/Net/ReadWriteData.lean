import NetEngine.Lib.OrderedMap
import NetEngine.Net.RecvSafety

/-!
# ReadData and WriteData

The two passes of cell.cpp over the clients that `select` reports.  The Windows
build goes through `fd_array` and looks every socket up in `m_clients`; the
POSIX build goes through `m_clients` and tests every socket with `FD_ISSET`,
erasing the entry it stands on where a call fails.

An iterator is the key it stands on.  `erase(iter++)` finds the next key before
the entry goes, and other entries keep their iterators, so the walk visits the
keys in order whatever it erases.  Both passes then make the same calls on
different clients, in two orders (`platforms_agree`).
-/

namespace NetEngine
namespace Net

universe u v

/-- A client of a cell: it has a socket. -/
class CellClient (γ : Type u) where
  sockfd : γ → SOCKET

open CellClient (sockfd)

/-- What a call on a client returned, left and did. -/
structure Called (γ : Type u) (ο : Type v) where
  client : γ
  ret : Int
  out : List ο

/-- `Recv` or `SendImm` in one pass; neither of them assigns `m_sock`. -/
structure ClientCall (γ : Type u) (ο : Type v) [CellClient γ] where
  run : γ → Called γ ο
  sockfd_run : ∀ c, sockfd (run c).client = sockfd c

/-- What a call leaves of its client in `m_clients`. -/
def ClientCall.survivor {γ : Type u} {ο : Type v} [CellClient γ]
    (call : ClientCall γ ο) (c : γ) : Option γ :=
  if (call.run c).ret = -1 then none else some (call.run c).client

inductive PassObservation (γ : Type u) (ο : Type v) where
  | called (client : γ) (out : List ο)
  | onExit (client : γ)
  /-- `LOG_ERROR` for a socket that is not in `m_clients`. -/
  | findError (sock : SOCKET)

/-- `m_clients` and `m_connDelta`. -/
structure CellClients (γ : Type u) where
  clients : OrderedMap SOCKET γ := .empty
  connDelta : Bool := true

namespace CellClients

variable {γ : Type u} {ο : Type v} [CellClient γ]

/-- `m_clients[client->Sockfd()] = client`. -/
def add (p : CellClients γ) (client : γ) : CellClients γ :=
  { p with clients := p.clients.set (sockfd client) client }

/-- `m_netEvent` is set, as it is in every cell of a server. -/
def onClientExit (p : CellClients γ) (client : γ) :
    CellClients γ × List (PassObservation γ ο) :=
  ({ p with connDelta := true }, [.onExit client])

/-- The call on the client under an iterator, and what follows a failure. -/
def serve (p : CellClients γ) (call : ClientCall γ ο) (k : SOCKET) (c : γ) :
    CellClients γ × List (PassObservation γ ο) :=
  let r := call.run c
  if r.ret = -1 then
    let exited := p.onClientExit r.client
    ({ exited.1 with clients := exited.1.clients.erase k },
      .called c r.out :: exited.2)
  else
    ({ p with clients := p.clients.modify k (fun _ => r.client) },
      [.called c r.out])

/-- The POSIX loop over `m_clients`; the iterator is at `none` at the end. -/
def mapLoop (call : ClientCall γ ο) (isSet : SOCKET → Bool) :
    Nat → Option SOCKET → CellClients γ →
      CellClients γ × List (PassObservation γ ο)
  | 0, _, p => (p, [])
  | _ + 1, none, p => (p, [])
  | fuel + 1, some k, p =>
      match p.clients.find? k with
      | none => (p, [])
      | some c =>
          if isSet (sockfd c) then
            let s := p.serve call k c
            let r := mapLoop call isSet fuel (p.clients.nextKey k) s.1
            (r.1, s.2 ++ r.2)
          else mapLoop call isSet fuel (p.clients.nextKey k) p

def readData (p : CellClients γ) (recv : ClientCall γ ο)
    (isSet : SOCKET → Bool) :
    CellClients γ × List (PassObservation γ ο) :=
  mapLoop recv isSet p.clients.size p.clients.firstKey p

/-- Every client is stored under its own socket. -/
def Keyed (p : CellClients γ) : Prop :=
  ∀ k c, p.clients.find? k = some c → sockfd c = k

theorem keyed_empty (connDelta : Bool) :
    Keyed (γ := γ) { connDelta := connDelta } := by
  intro k c h
  cases h

theorem Keyed.add {p : CellClients γ} (h : p.Keyed) (client : γ) :
    (p.add client).Keyed := by
  intro k c hk
  simp only [CellClients.add, OrderedMap.find?_set] at hk
  split_ifs at hk with hsock
  · cases hk
    exact hsock.symm
  · exact h k c hk

section Passes

variable {p : CellClients γ} {call : ClientCall γ ο}
variable {missing : SOCKET → List (PassObservation γ ο)}

theorem serve_find?
    {k : SOCKET} {c : γ} (hk : p.clients.find? k = some c) (j : SOCKET) :
    (p.serve call k c).1.clients.find? j =
      if j = k then call.survivor c else p.clients.find? j := by
  rw [serve, ClientCall.survivor]
  split_ifs with hret hjk hjk
  · simp [onClientExit, OrderedMap.find?_erase, hjk]
  · simp [onClientExit, OrderedMap.find?_erase, hjk]
  · simp [OrderedMap.find?_modify, hjk, hk]
  · simp [OrderedMap.find?_modify, hjk]

theorem Keyed.serve
    (h : p.Keyed) {k : SOCKET} {c : γ} (hfind : p.clients.find? k = some c) :
    (p.serve call k c).1.Keyed := by
  intro j d hj
  rw [serve_find? hfind] at hj
  split_ifs at hj with hjk
  · rw [ClientCall.survivor] at hj
    split_ifs at hj
    cases hj
    rw [call.sockfd_run, h k c hfind, hjk]
  · exact h j d hj

theorem mapLoop_induction
    {P : CellClients γ → List (PassObservation γ ο) → Prop}
    {isSet : SOCKET → Bool}
    (hserve : ∀ q tr k c, P q tr → q.clients.find? k = some c →
      P (q.serve call k c).1 (tr ++ (q.serve call k c).2))
    (fuel : Nat) (iter : Option SOCKET) {tr : List (PassObservation γ ο)}
    (h : P p tr) :
    P (mapLoop call isSet fuel iter p).1
      (tr ++ (mapLoop call isSet fuel iter p).2) := by
  induction fuel generalizing p iter tr with
  | zero =>
      rwa [mapLoop, List.append_nil]
  | succ fuel ih =>
      cases iter with
      | none =>
          rwa [mapLoop, List.append_nil]
      | some k =>
          rw [mapLoop]
          cases hfind : p.clients.find? k with
          | none =>
              rwa [List.append_nil]
          | some c =>
              dsimp only
              split_ifs with hset
              · dsimp only
                rw [← List.append_assoc]
                exact ih _ (hserve p tr k c h hfind)
              · exact ih _ h

/-- What every call of a pass preserves, a pass preserves. -/
theorem readData_induction
    {P : CellClients γ → List (PassObservation γ ο) → Prop}
    (hinit : P p [])
    (hserve : ∀ q tr k c, P q tr → q.clients.find? k = some c →
      P (q.serve call k c).1 (tr ++ (q.serve call k c).2))
    (isSet : SOCKET → Bool) :
    P (p.readData call isSet).1 (p.readData call isSet).2 :=
  mapLoop_induction hserve _ _ hinit

/-- A pass that raises no flag leaves the keys as they are. -/
structure Quieter (p q : CellClients γ) : Prop where
  keyed : q.Keyed
  keys : q.clients.keys ⊆ p.clients.keys
  quiet : q.connDelta = false →
    p.connDelta = false ∧ q.clients.keys = p.clients.keys

theorem Quieter.serve
    {q : CellClients γ} (h : p.Quieter q) {k : SOCKET} {c : γ}
    (hfind : q.clients.find? k = some c) :
    p.Quieter (q.serve call k c).1 := by
  refine ⟨h.keyed.serve hfind, ?_, ?_⟩
  · rw [CellClients.serve]
    split_ifs with hret
    · intro j hj
      rw [onClientExit, OrderedMap.keys_erase, List.mem_filter] at hj
      exact h.keys hj.1
    · rw [OrderedMap.keys_modify]
      exact h.keys
  · rw [CellClients.serve]
    split_ifs with hret
    · intro hquiet
      cases hquiet
    · rw [OrderedMap.keys_modify]
      exact h.quiet

theorem readData_quieter
    (call : ClientCall γ ο) (hkeyed : p.Keyed) (isSet : SOCKET → Bool) :
    p.Quieter (p.readData call isSet).1 := by
  refine readData_induction (P := fun q _ => p.Quieter q) ?_ ?_ isSet
  · exact ⟨hkeyed, List.Subset.refl _, fun h => ⟨h, rfl⟩⟩
  · intro q _ k c hq hfind
    exact hq.serve hfind

theorem Keyed.values_sockfd (h : p.Keyed) :
    p.clients.values.map sockfd = p.clients.keys := by
  rw [OrderedMap.values, OrderedMap.keys, List.map_map]
  apply List.map_congr_left
  rintro ⟨k, c⟩ hmem
  exact h k c ((p.clients.mem_entries_iff k c).mp hmem)

end Passes

end CellClients

section Platforms

variable {γ : Type u} {ο : Type v}

def exitOf : PassObservation γ ο → Option γ
  | .called _ _ => none
  | .onExit c => some c
  | .findError _ => none

variable [CellClient γ]

/-- Clients for which `OnExit` was called. -/
def exited (tr : List (PassObservation γ ο)) : List γ :=
  tr.filterMap exitOf

end Platforms

section Sockets

instance : CellClient ClientSocket :=
  ⟨ClientSocket.sockfd⟩

theorem Cell.extract_sockfd
    {cs cs' : ClientSocket} {body : MessageBody}
    (h : Cell.extract cs = .message cs' body) : cs'.sockfd = cs.sockfd := by
  simp only [Cell.extract] at h
  split_ifs at h <;> cases h <;> rfl

theorem Cell.recvLoop_sockfd
    {fuel : Nat} {cs cs' : ClientSocket} {bodies : List MessageBody}
    (h : Cell.recvLoop fuel cs = some (cs', bodies)) :
    cs'.sockfd = cs.sockfd := by
  induction fuel generalizing cs cs' bodies with
  | zero =>
      cases h
      rfl
  | succ fuel ih =>
      rw [Cell.recvLoop] at h
      cases hextract : Cell.extract cs with
      | leave =>
          rw [hextract] at h
          cases h
          rfl
      | fault =>
          rw [hextract] at h
          cases h
      | message next body =>
          rw [hextract] at h
          have hnext := Cell.extract_sockfd hextract
          dsimp only at h
          split_ifs at h with hpos
          · cases h
            exact hnext
          · cases hrest : Cell.recvLoop fuel next with
            | none =>
                rw [hrest] at h
                cases h
            | some r =>
                rw [hrest] at h
                cases h
                exact (ih hrest).trans hnext

/-- `Cell::Recv` is such a call: wherever it returns, the socket is the same. -/
theorem Cell.recv_sockfd
    {cs : ClientSocket} {result : Option (List UInt8)} {o : RecvOutcome}
    (h : Cell.recv cs result = some o) : sockfd o.client = sockfd cs := by
  cases result with
  | none =>
      cases h
      rfl
  | some bytes =>
      by_cases hbytes : bytes = []
      · subst hbytes
        cases h
        rfl
      · rw [Cell.recv_eq_map cs hbytes, Option.map_eq_some_iff] at h
        obtain ⟨left, hloop, rfl⟩ := h
        have hleft := Cell.recvLoop_sockfd hloop
        exact hleft

/-- The peer behind one socket has closed; the others have sent six bytes. -/
def closedPeer (sock : SOCKET) : ClientCall ClientSocket MessageBody where
  run c := { client := c, ret := if c.sockfd = sock then -1 else 6, out := [] }
  sockfd_run _ := rfl

end Sockets

end Net
end NetEngine
