import NetEngine.Lib.Positions
import NetEngine.Net.CellLoop
import NetEngine.Net.Framing
import NetEngine.Net.SendImage

/-!
# The echo server

my_server.cpp on the cells of a server: every message is answered by a reply of
ten bytes, which `OnMessage` puts into the client's send buffer.

Nothing takes it out again.  `WriteData`, the only caller of `SendImm` in the
loop of a cell, is commented out, so the buffer holds the replies to the first
`SEND_BUFFER_SIZE / 10` requests of a connection and `Send` refuses all others,
however often `select` reports the socket writable.

A connection is the number of its `ClientSocket` object.  What `Recv` returns
for each client of a pass, and the messages that it hands on, are arguments.
-/

namespace NetEngine
namespace Net

open CellClient (sockfd)

/-- A `ClientSocket` as far as the replies go. -/
structure EchoClient where
  id : Nat
  sock : SOCKET
  buffer : SendBuffer := {}

instance : CellClient EchoClient :=
  ⟨EchoClient.sock⟩

/-- A request of a connection, and what `Send` returned for its reply. -/
structure EchoReply where
  id : Nat
  ret : Option Int
deriving DecidableEq

namespace MyServer

/-- `s2cMsg` of `OnMessage`. -/
def reply (body : MessageBody) : MessageBody :=
  let size := 4
  let tmp := leBytes size 66
  { size := UInt32.ofNat (size + MessageBody.HEADER_TYPE_BYTES)
    type := body.type + 1
    data := fun i => (tmp[i]?).getD 0 }

/-- `OnMessage`; a `Send` that faults returns nothing. -/
def onMessage (client : EchoClient) (body : MessageBody) :
    EchoClient × EchoReply :=
  match client.buffer.send (reply body) with
  | none => (client, { id := client.id, ret := none })
  | some (ret, buffer) =>
      ({ client with buffer := buffer }, { id := client.id, ret := some ret })

/-- `OnMessage` for the messages of one `Recv`. -/
def messageLoop (client : EchoClient) :
    List MessageBody → EchoClient × List EchoReply
  | [] => (client, [])
  | body :: bodies =>
      let first := onMessage client body
      let r := messageLoop first.1 bodies
      (r.1, first.2 :: r.2)

/-- The clients have the same socket after their messages. -/
theorem messageLoop_sock (client : EchoClient) (bodies : List MessageBody) :
    (messageLoop client bodies).1.sock = client.sock := by
  induction bodies generalizing client with
  | nil =>
      rfl
  | cons body bodies ih =>
      rw [messageLoop, ih, onMessage]
      cases client.buffer.send (reply body) with
      | none =>
          rfl
      | some r =>
          rfl

end MyServer

/-- What the calls of one step of a cell return. -/
structure EchoCalls where
  isRun : Bool
  ret : Int
  readable : FdSet
  writable : FdSet
  /-- What `Recv` returns for a socket, and the messages it hands on. -/
  received : SOCKET → Int × List MessageBody

def EchoCalls.recv (calls : EchoCalls) : ClientCall EchoClient EchoReply where
  run c :=
    let left := MyServer.messageLoop c (calls.received c.sock).2
    { client := left.1, ret := (calls.received c.sock).1, out := left.2 }
  sockfd_run c := MyServer.messageLoop_sock c _

def EchoCalls.loopCalls (calls : EchoCalls) :
    LoopCalls EchoClient EchoReply where
  isRun := calls.isRun
  ret := calls.ret
  readable := calls.readable
  writable := calls.writable
  recv := calls.recv

inductive EchoEvent where
  /-- `accept` returned a socket, and the client is given to a cell. -/
  | accept (i : Nat) (sock : SOCKET)
  /-- The thread of a cell goes on. -/
  | cell (i : Nat) (calls : EchoCalls)

structure MyServer where
  cells : List (CellLoop EchoClient)
  /-- Number of ClientSocket objects made so far. -/
  made : Nat := 0

namespace MyServer

/-- `Start`: the cells have begun with `OnRun`. -/
def start (threadCount : Nat) : MyServer :=
  { cells := List.replicate threadCount (CellLoop.onRun {}) }

def step (s : MyServer) :
    EchoEvent → MyServer × List (LoopObservation EchoClient EchoReply)
  | .accept i sock =>
      match s.cells[i]? with
      | none => (s, [])
      | some cell =>
          ({ cells := s.cells.set i
              (cell.addClient { id := s.made, sock := sock })
             made := s.made + 1 }, [])
  | .cell i calls =>
      match s.cells[i]? with
      | none => (s, [])
      | some cell =>
          let r := cell.threadStep calls.loopCalls
          ({ s with cells := s.cells.set i r.1 }, r.2)

/-- A run of the server with some cells. -/
def run (threadCount : Nat) (events : List EchoEvent) :
    MyServer × List (LoopObservation EchoClient EchoReply) :=
  Machine.run step (start threadCount) events

end MyServer

section Replies

/-- Replies that an undrained send buffer has room for. -/
def ROOM : Nat := SEND_BUFFER_SIZE / 10

/-- `Send` took the reply. -/
def EchoReply.Accepted (r : EchoReply) : Prop :=
  ∃ ret, r.ret = some ret ∧ ret ≠ SOCKET_ERROR

/-- Number of requests of a connection. -/
def requests (id : Nat) (replies : List EchoReply) : Nat :=
  replies.countP (fun r => r.id = id)

/-- The send buffer holds the replies to so many requests, as far as it can. -/
def EchoClient.Asked (client : EchoClient) (n : Nat) : Prop :=
  client.buffer.lastSendPos = 10 * min n ROOM

theorem MyServer.reply_getSize (body : MessageBody) :
    (reply body).getSize = 10 := by
  have hsize : (reply body).size.toNat = 6 := rfl
  have hsized : (reply body).Sized := by
    rw [MessageBody.Sized, hsize]
    decide
  rw [hsized.getSize, hsize]
  rfl

theorem MyServer.onMessage_id (client : EchoClient) (body : MessageBody) :
    (onMessage client body).1.id = client.id ∧
      (onMessage client body).2.id = client.id := by
  rw [onMessage]
  cases client.buffer.send (reply body) with
  | none =>
      exact ⟨rfl, rfl⟩
  | some r =>
      exact ⟨rfl, rfl⟩

/-- One more request: the reply is taken as long as there is room. -/
theorem MyServer.onMessage_asked
    {client : EchoClient} {n : Nat} (h : client.Asked n)
    (body : MessageBody) :
    (onMessage client body).1.Asked (n + 1) ∧
      ((onMessage client body).2.Accepted ↔ n < ROOM) := by
  have hroom : ROOM = 1024 := rfl
  have hsize : SEND_BUFFER_SIZE = 10240 := rfl
  rw [EchoClient.Asked] at h
  have hsums : client.buffer.Sums (reply body) := by
    rw [SendBuffer.Sums, reply_getSize]
    constructor
    · omega
    · omega
  rw [onMessage, SendBuffer.send_eq (by omega) hsums, reply_getSize]
  by_cases hn : n < ROOM
  · rw [if_pos (by omega)]
    refine ⟨?_, fun _ => hn, fun _ => ⟨10, rfl, by simp [SOCKET_ERROR]⟩⟩
    rw [EchoClient.Asked]
    dsimp only
    omega
  · rw [if_neg (by omega)]
    refine ⟨?_, ?_, fun h' => absurd h' hn⟩
    · rw [EchoClient.Asked]
      dsimp only
      omega
    · rintro ⟨ret, hret, hne⟩
      cases hret
      exact absurd rfl hne

end Replies

section Ledger

/--
The clients of a server and the replies so far: connections have numbers of
their own, each send buffer holds what was asked for on its connection, and the
replies taken are the first ones of each connection.
-/
structure Ledger (clients : List EchoClient) (made : Nat)
    (replies : List EchoReply) : Prop where
  nodup : (clients.map EchoClient.id).Nodup
  issued : ∀ c ∈ clients, c.id < made
  known : ∀ r ∈ replies, r.id < made
  asked : ∀ c ∈ clients, c.Asked (requests c.id replies)
  accepted : ∀ id, (∀ r ∈ replies, r.id = id → r.Accepted) ↔
    requests id replies ≤ ROOM

theorem ledger_nil : Ledger [] 0 [] := by
  refine ⟨List.nodup_nil, ?_, ?_, ?_, ?_⟩
  · simp
  · simp
  · simp
  · simp [requests]

variable {clients clients' : List EchoClient} {made : Nat}
variable {replies : List EchoReply}

/-- Clients may leave. -/
theorem Ledger.subperm
    (h : Ledger clients made replies) (hsub : clients'.Subperm clients) :
    Ledger clients' made replies := by
  have hmem : ∀ c ∈ clients', c ∈ clients := fun c hc => hsub.subset hc
  refine ⟨?_, fun c hc => h.issued c (hmem c hc), h.known,
    fun c hc => h.asked c (hmem c hc), h.accepted⟩
  obtain ⟨l, hperm, hlist⟩ := hsub
  rw [← (hperm.map EchoClient.id).nodup_iff]
  exact h.nodup.sublist (hlist.map _)

/-- A new connection has a new number and an empty send buffer. -/
theorem Ledger.accept
    (h : Ledger clients made replies) (sock : SOCKET) :
    Ledger ({ id := made, sock := sock } :: clients) (made + 1) replies := by
  have hnone : requests made replies = 0 := by
    rw [requests, List.countP_eq_zero]
    intro r hr
    have hlt := h.known r hr
    simp only [decide_eq_true_eq]
    omega
  refine ⟨?_, ?_, ?_, ?_, h.accepted⟩
  · rw [List.map_cons, List.nodup_cons]
    refine ⟨?_, h.nodup⟩
    intro hmem
    obtain ⟨c, hc, hid⟩ := List.mem_map.mp hmem
    have hlt := h.issued c hc
    dsimp only at hid
    omega
  · intro c hc
    rcases List.mem_cons.mp hc with rfl | hc
    · exact Nat.lt_succ_self made
    · exact Nat.lt_succ_of_lt (h.issued c hc)
  · intro r hr
    exact Nat.lt_succ_of_lt (h.known r hr)
  · intro c hc
    rcases List.mem_cons.mp hc with rfl | hc
    · show EchoClient.Asked _ (requests made replies)
      rw [hnone]
      rfl
    · exact h.asked c hc

theorem requests_append (id : Nat) (replies out : List EchoReply) :
    requests id (replies ++ out) = requests id replies + requests id out :=
  List.countP_append

/-- One more request on the connection of a client. -/
theorem Ledger.message
    {c : EchoClient} (h : Ledger (c :: clients) made replies)
    (body : MessageBody) :
    Ledger ((MyServer.onMessage c body).1 :: clients) made
      (replies ++ [(MyServer.onMessage c body).2]) := by
  obtain ⟨hclient, hreply⟩ := MyServer.onMessage_id c body
  obtain ⟨hasked, haccepted⟩ :=
    MyServer.onMessage_asked (h.asked c List.mem_cons_self) body
  have hself : requests c.id [(MyServer.onMessage c body).2] = 1 := by
    simp [requests, hreply]
  have hother : ∀ id, id ≠ c.id →
      requests id [(MyServer.onMessage c body).2] = 0 := by
    intro id hid
    simp [requests, hreply, Ne.symm hid]
  obtain ⟨hnew, hnodup⟩ := List.nodup_cons.mp h.nodup
  refine ⟨?_, ?_, ?_, ?_, ?_⟩
  · rw [List.map_cons, hclient]
    exact h.nodup
  · rw [List.forall_mem_cons, hclient]
    exact List.forall_mem_cons.mp h.issued
  · intro r hr
    rcases List.mem_append.mp hr with hr | hr
    · exact h.known r hr
    · rw [List.mem_singleton.mp hr, hreply]
      exact h.issued c List.mem_cons_self
  · intro d hd
    rw [requests_append]
    rcases List.mem_cons.mp hd with rfl | hd
    · rw [hclient, hself]
      exact hasked
    · have hid : d.id ≠ c.id := by
        intro hid
        exact hnew (hid ▸ List.mem_map_of_mem hd)
      rw [hother d.id hid]
      exact h.asked d (List.mem_cons_of_mem _ hd)
  · intro id
    have hold := h.accepted id
    rw [requests_append]
    by_cases hid : id = c.id
    · subst hid
      rw [hself, List.forall_mem_append, List.forall_mem_singleton, hold]
      constructor
      · rintro ⟨-, hlast⟩
        exact haccepted.mp (hlast hreply)
      · intro hle
        exact ⟨by omega, fun _ => haccepted.mpr (by omega)⟩
    · rw [hother id hid, List.forall_mem_append, List.forall_mem_singleton,
        hold]
      constructor
      · rintro ⟨hle, -⟩
        exact hle
      · intro hle
        exact ⟨hle, fun hlast => absurd (hlast.symm.trans hreply) hid⟩

theorem Ledger.messageLoop
    {c : EchoClient} (h : Ledger (c :: clients) made replies)
    (bodies : List MessageBody) :
    Ledger ((MyServer.messageLoop c bodies).1 :: clients) made
      (replies ++ (MyServer.messageLoop c bodies).2) := by
  induction bodies generalizing c replies with
  | nil =>
      rwa [MyServer.messageLoop, List.append_nil]
  | cons body bodies ih =>
      have hrest := ih (h.message body)
      rw [List.append_assoc] at hrest
      exact hrest

end Ledger

section Passes

def passReplyOf : PassObservation EchoClient EchoReply → List EchoReply
  | .called _ out => out
  | .onExit _ => []
  | .findError _ => []

def loopReplyOf : LoopObservation EchoClient EchoReply → List EchoReply
  | .onJoin _ => []
  | .select _ _ _ _ => []
  | .pass o => passReplyOf o

/-- Requests that were answered or not, in order. -/
def repliesOf (tr : List (LoopObservation EchoClient EchoReply)) :
    List EchoReply :=
  tr.flatMap loopReplyOf

theorem repliesOf_append
    (tr out : List (LoopObservation EchoClient EchoReply)) :
    repliesOf (tr ++ out) = repliesOf tr ++ repliesOf out :=
  List.flatMap_append

variable {others : List EchoClient} {made : Nat} {replies : List EchoReply}

/-- `Recv` on one client of a pass, and its exit where it fails. -/
theorem Ledger.serve
    {p : CellClients EchoClient} {k : SOCKET} {c : EchoClient}
    (h : Ledger (p.clients.values ++ others) made replies)
    (hfind : p.clients.find? k = some c) (calls : EchoCalls) :
    Ledger ((p.serve calls.recv k c).1.clients.values ++ others) made
      (replies ++ (p.serve calls.recv k c).2.flatMap passReplyOf) := by
  have hfront := h.subperm
    ((p.clients.values_perm_erase hfind).append_right others).symm.subperm
  have hasked := hfront.messageLoop (calls.received c.sock).2
  rw [CellClients.serve]
  split_ifs with hret
  · have hleft := hasked.subperm (List.sublist_cons_self _ _).subperm
    simp only [CellClients.onClientExit, List.flatMap_cons, passReplyOf,
      List.flatMap_nil, List.append_nil]
    exact hleft
  · have hmodify := p.clients.values_modify_perm hfind
      (fun _ => (calls.recv.run c).client)
    have hleft := hasked.subperm (hmodify.append_right others).subperm
    simp only [List.flatMap_cons, passReplyOf, List.flatMap_nil,
      List.append_nil]
    exact hleft

theorem Ledger.readData
    {p : CellClients EchoClient}
    (h : Ledger (p.clients.values ++ others) made replies)
    (calls : EchoCalls) (isSet : SOCKET → Bool) :
    Ledger ((p.readData calls.recv isSet).1.clients.values ++ others) made
      (replies ++
        (p.readData calls.recv isSet).2.flatMap passReplyOf) := by
  refine CellClients.readData_induction
    (P := fun q tr => Ledger (q.clients.values ++ others) made
      (replies ++ tr.flatMap passReplyOf)) ?_ ?_ isSet
  · rwa [List.flatMap_nil, List.append_nil]
  · intro q tr k c hq hfind
    rw [List.flatMap_append, ← List.append_assoc]
    exact hq.serve hfind calls

/-- The join block drops at most clients that others replace. -/
theorem foldl_add_subperm
    (cs : List EchoClient) (p : CellClients EchoClient) :
    (cs.foldl CellClients.add p).clients.values.Subperm
      (cs ++ p.clients.values) := by
  induction cs generalizing p with
  | nil =>
      exact List.Subperm.refl _
  | cons c cs ih =>
      have hadd := p.clients.values_set_subperm c.sock c
      have hrest := (List.subperm_append_left cs).mpr hadd
      have hswap : (cs ++ c :: p.clients.values).Perm
          (c :: (cs ++ p.clients.values)) := List.perm_middle
      exact ((ih (p.add c)).trans hrest).trans hswap.subperm

end Passes

section Cells

/-- Clients of a cell. -/
def CellLoop.members (s : CellLoop EchoClient) : List EchoClient :=
  s.clientsBuff ++ s.pool.clients.values

variable {s : CellLoop EchoClient}
variable {others : List EchoClient} {made : Nat} {replies : List EchoReply}

theorem CellLoop.addClient_members
    (s : CellLoop EchoClient) (client : EchoClient) :
    (s.addClient client).members.Perm (client :: s.members) := by
  rw [members, addClient, List.append_assoc]
  exact List.perm_middle

/-- Building the set does not touch the clients. -/
theorem CellLoop.prepare_members
    {first : EchoClient} {rest : List EchoClient}
    {fdRead : FdSet} {s' : CellLoop EchoClient}
    (h : s.prepare first rest = some (fdRead, s')) :
    s'.members = s.members := by
  rw [CellLoop.prepare] at h
  split_ifs at h
  · obtain ⟨r, -, hr⟩ := Option.map_eq_some_iff.mp h
    cases hr
    rfl
  · cases h
    rfl

theorem CellLoop.selectStep_members
    (s : CellLoop EchoClient) (calls : LoopCalls EchoClient EchoReply) :
    (s.selectStep calls).1.members = s.members ∧
      repliesOf (s.selectStep calls).2 = [] := by
  rw [CellLoop.selectStep]
  cases s.pool.clients.values with
  | nil =>
      exact ⟨rfl, rfl⟩
  | cons first rest =>
      cases hprepare : s.prepare first rest with
      | none =>
          simp only [hprepare]
          exact ⟨rfl, rfl⟩
      | some r =>
          obtain ⟨fdRead, s'⟩ := r
          have hmembers := CellLoop.prepare_members hprepare
          simp only [hprepare]
          exact ⟨hmembers, rfl⟩

/-- One step of a cell, beside the clients of the other cells. -/
theorem Ledger.threadStep
    (h : Ledger (s.members ++ others) made replies) (calls : EchoCalls) :
    Ledger ((s.threadStep calls.loopCalls).1.members ++ others) made
      (replies ++ repliesOf (s.threadStep calls.loopCalls).2) := by
  have hquiet : ∀ r : CellLoop EchoClient ×
      List (LoopObservation EchoClient EchoReply),
      r.1.members.Subperm s.members → repliesOf r.2 = [] →
        Ledger (r.1.members ++ others) made (replies ++ repliesOf r.2) := by
    intro r hsub hnone
    rw [hnone, List.append_nil]
    exact h.subperm ((List.subperm_append_right others).mpr hsub)
  rw [CellLoop.threadStep]
  cases hpc : s.pc with
  | head =>
      exact hquiet _ (List.Subperm.refl _) rfl
  | buff =>
      exact hquiet _ (List.Subperm.refl _) rfl
  | join =>
      refine hquiet _ (foldl_add_subperm s.clientsBuff s.pool) ?_
      simp [repliesOf, CellLoop.joinBlock, List.flatMap_map, loopReplyOf]
  | clients =>
      obtain ⟨hmembers, hnone⟩ := s.selectStep_members calls.loopCalls
      exact hquiet _ (hmembers ▸ List.Subperm.refl _) hnone
  | readData fdRead fdWrite =>
      have hswap : ∀ values : List EchoClient,
          (s.clientsBuff ++ values ++ others).Perm
            (values ++ (s.clientsBuff ++ others)) := by
        intro values
        rw [← List.append_assoc]
        exact List.perm_append_comm.append_right others
      have hread := Ledger.readData (h.subperm (hswap _).symm.subperm) calls
        (fun k => fdIsSet k fdRead)
      have hreplies : repliesOf
            (s.readDataStep fdRead calls.loopCalls).2 =
          (s.pool.readData calls.recv
            (fun k => fdIsSet k fdRead)).2.flatMap passReplyOf := by
        rw [repliesOf, CellLoop.readDataStep, List.flatMap_map]
        rfl
      rw [hreplies]
      exact hread.subperm (hswap _).subperm
  | clrClient =>
      exact hquiet _ (List.nil_subperm) rfl
  | returned =>
      exact hquiet _ (List.Subperm.refl _) rfl
  | undefined =>
      exact hquiet _ (List.Subperm.refl _) rfl

end Cells

section Server

namespace MyServer

/-- Clients of all cells. -/
def clients (s : MyServer) : List EchoClient :=
  s.cells.flatMap CellLoop.members

/-- The clients of one cell and those of the others. -/
theorem clients_perm
    {s : MyServer} {before after : List (CellLoop EchoClient)}
    {cell : CellLoop EchoClient} (h : s.cells = before ++ cell :: after) :
    s.clients.Perm (cell.members ++
      (before.flatMap CellLoop.members ++ after.flatMap CellLoop.members)) := by
  rw [clients, h, List.flatMap_append, List.flatMap_cons]
  exact List.perm_append_comm_assoc _ _ _

theorem step_ledger
    {s : MyServer} {replies : List EchoReply}
    (h : Ledger s.clients s.made replies) (e : EchoEvent) :
    Ledger (s.step e).1.clients (s.step e).1.made
      (replies ++ repliesOf (s.step e).2) := by
  cases e with
  | accept i sock =>
      rw [step]
      cases hcell : s.cells[i]? with
      | none =>
          rwa [repliesOf, List.flatMap_nil, List.append_nil]
      | some cell =>
          obtain ⟨before, after, hcells, -, hset⟩ := split_set hcell
          have hnew := h.accept sock
          dsimp only
          rw [hset, repliesOf, List.flatMap_nil, List.append_nil]
          have hold := (clients_perm hcells).cons
            { id := s.made, sock := sock }
          have hjoined := (cell.addClient_members
            { id := s.made, sock := sock }).append_right
              (before.flatMap CellLoop.members ++
                after.flatMap CellLoop.members)
          exact hnew.subperm
            (((clients_perm rfl).trans hjoined).trans hold.symm).subperm
  | cell i calls =>
      rw [step]
      cases hcell : s.cells[i]? with
      | none =>
          rwa [repliesOf, List.flatMap_nil, List.append_nil]
      | some cell =>
          obtain ⟨before, after, hcells, -, hset⟩ := split_set hcell
          have hfront := h.subperm (clients_perm hcells).symm.subperm
          have hcell' := hfront.threadStep calls
          dsimp only
          rw [hset]
          exact hcell'.subperm (clients_perm rfl).subperm

theorem run_ledger (threadCount : Nat) (events : List EchoEvent) :
    Ledger (run threadCount events).1.clients
      (run threadCount events).1.made
      (repliesOf (run threadCount events).2) := by
  refine Machine.run_invariant
    (I := fun (s : MyServer) tr => Ledger s.clients s.made (repliesOf tr))
    ?_ ?_ events
  · have hnone : (start threadCount).clients = [] := by
      rw [clients, List.flatMap_eq_nil_iff]
      intro cell hcell
      rw [List.eq_of_mem_replicate hcell]
      rfl
    show Ledger (start threadCount).clients 0 []
    rw [hnone]
    exact ledger_nil
  · intro s tr e h
    rw [repliesOf_append]
    exact step_ledger h e

/-- `Send` has taken the reply to every request. -/
def AllAnswered
    (tr : List (LoopObservation EchoClient EchoReply)) : Prop :=
  ∀ r ∈ repliesOf tr, r.Accepted

/--
The reply to every request is taken exactly when no connection makes more than
`SEND_BUFFER_SIZE / 10` requests.
-/
theorem allAnswered_iff (threadCount : Nat) (events : List EchoEvent) :
    AllAnswered (run threadCount events).2 ↔
      ∀ id, requests id (repliesOf (run threadCount events).2) ≤ ROOM := by
  have hledger := run_ledger threadCount events
  constructor
  · intro hall id
    exact (hledger.accepted id).mp fun r hr _ => hall r hr
  · intro hfew r hr
    exact (hledger.accepted r.id).mpr (hfew r.id) r hr rfl

end MyServer

end Server

section Asking

/-- A frame that arrives alone on an empty buffer is one message for `Recv`. -/
theorem recv_frame
    {cs : ClientSocket} (h : cs.lastPos = 0) (f : Frame) :
    ∃ cs' body, Cell.recv cs (some f.bytes) =
        some ⟨f.bytes.length, cs', [body]⟩ ∧
      body.Shows f ∧ cs'.lastPos = 0 := by
  have hbuf : Buffered (Cell.stored cs f.bytes) (f.bytes ++ []) := by
    rw [List.append_nil]
    exact (buffered_empty h).store f.bytes
  obtain ⟨cs', body, hextract, hshows, hpos, -⟩ := extract_frame hbuf
  have hfuel : ∃ fuel, (Cell.stored cs f.bytes).lastPos.toNat = fuel + 1 := by
    have hlast := hbuf.lastPos
    have hlength := f.bytes_length
    rw [List.append_nil] at hlast
    rw [MessageBody.HEADER_LEN_BYTES] at hlength
    exact ⟨f.length + 3, by omega⟩
  obtain ⟨fuel, hfuel⟩ := hfuel
  refine ⟨cs', body, ?_, hshows, hpos⟩
  rw [Cell.recv_eq_map cs f.bytes_ne_nil, hfuel, Cell.recvLoop, hextract]
  simp [hpos]

namespace MyServer

/--
Every step finds the loop running, every pass delivers one request to each
client, and `select` reports every socket writable.
-/
def askingCalls : EchoCalls where
  isRun := true
  ret := 1
  readable _ := true
  writable _ := true
  received _ := (6, [sixBytes])

def asking (buffer : SendBuffer) : EchoClient :=
  { id := 0, sock := 4, buffer := buffer }

def askingPool (buffer : SendBuffer) : CellClients EchoClient :=
  { clients := ⟨[(4, asking buffer)], List.pairwise_singleton _ _⟩
    connDelta := false }

def askingCell (buffer : SendBuffer) (pc : LoopPc) : CellLoop EchoClient :=
  { pool := askingPool buffer
    clientsBuff := []
    fdReadBak := Function.update fdZero ⟨4, by decide⟩ true
    maxSock := 4
    pc := pc }

/-- A server whose only client is on socket 4. -/
def serving (buffer : SendBuffer) (pc : LoopPc) : MyServer :=
  { cells := [askingCell buffer pc], made := 1 }

/-- One iteration of the loop. -/
def round : List EchoEvent :=
  List.replicate 3 (.cell 0 askingCalls) ++ [.cell 0 askingCalls]

/-- The client is accepted and joins before the first iteration. -/
def opening : List EchoEvent :=
  .accept 0 4 :: List.replicate 4 (.cell 0 askingCalls) ++
    [.cell 0 askingCalls]

/-- So many more iterations. -/
def asks (n : Nat) : List EchoEvent :=
  opening ++ (List.replicate n round).flatten

theorem onMessage_asking (buffer : SendBuffer) :
    ∃ buffer' ret, onMessage (asking buffer) sixBytes =
      (asking buffer', { id := 0, ret := ret }) := by
  rw [onMessage]
  cases (asking buffer).buffer.send (reply sixBytes) with
  | none =>
      exact ⟨buffer, none, rfl⟩
  | some r =>
      exact ⟨r.2, some r.1, rfl⟩

theorem readData_asking
    (buffer : SendBuffer) (isSet : SOCKET → Bool) (h : isSet 4 = true) :
    ∃ buffer' ret, (askingPool buffer).readData askingCalls.recv isSet =
      (askingPool buffer',
        [.called (asking buffer) [{ id := 0, ret := ret }]]) := by
  obtain ⟨buffer', ret, hmessage⟩ := onMessage_asking buffer
  have hrun : askingCalls.recv.run (asking buffer) =
      { client := asking buffer', ret := 6,
        out := [{ id := 0, ret := ret }] } := by
    simp [EchoCalls.recv, askingCalls, messageLoop, hmessage]
  have hfirst : (askingPool buffer).clients.firstKey = some 4 := rfl
  have hsize : (askingPool buffer).clients.size = 1 := rfl
  have hfind : (askingPool buffer).clients.find? 4 = some (asking buffer) :=
    rfl
  have hsock : isSet (sockfd (asking buffer)) = true := h
  refine ⟨buffer', ret, ?_⟩
  rw [CellClients.readData, hfirst, hsize, CellClients.mapLoop]
  simp only [hfind]
  rw [if_pos hsock, CellClients.serve, hrun]
  rfl

/-- What the server sees of the step after `select`: one request. -/
theorem step_readData
    (buffer : SendBuffer) {fdRead fdWrite : FdSet}
    (h : fdIsSet 4 fdRead = true) :
    ∃ buffer' ret,
      (serving buffer (.readData fdRead fdWrite)).step (.cell 0 askingCalls) =
        (serving buffer' .head,
          [.pass (.called (asking buffer) [{ id := 0, ret := ret }])]) := by
  obtain ⟨buffer', ret, hread⟩ :=
    readData_asking buffer (fun k => fdIsSet k fdRead) h
  have hstep : (serving buffer (.readData fdRead fdWrite)).step
        (.cell 0 askingCalls) =
      (({ cells := [((askingCell buffer
            (.readData fdRead fdWrite)).readDataStep fdRead
              askingCalls.loopCalls).1],
          made := 1 } : MyServer),
        ((askingCell buffer (.readData fdRead fdWrite)).readDataStep fdRead
          askingCalls.loopCalls).2) :=
    rfl
  have hrecv : askingCalls.loopCalls.recv = askingCalls.recv := rfl
  have hpool : (askingCell buffer (.readData fdRead fdWrite)).pool =
      askingPool buffer :=
    rfl
  refine ⟨buffer', ret, ?_⟩
  rw [hstep, CellLoop.readDataStep, hrecv, hpool, hread]
  rfl

/-- Events that end with `select` on this client, and one step more. -/
theorem run_readData
    {s : MyServer} {events : List EchoEvent} (buffer : SendBuffer)
    (fdRead : FdSet) (h : fdIsSet 4 fdRead = true)
    (hrun : (Machine.run step s events).1 =
      serving buffer (.readData fdRead fdRead))
    (hnone : repliesOf (Machine.run step s events).2 = []) :
    ∃ buffer', (Machine.run step s
          (events ++ [.cell 0 askingCalls])).1 = serving buffer' .head ∧
      requests 0 (repliesOf (Machine.run step s
        (events ++ [.cell 0 askingCalls])).2) = 1 := by
  obtain ⟨buffer', ret, hstep⟩ := step_readData buffer h
  rw [Machine.run_concat, hrun, hstep]
  refine ⟨buffer', rfl, ?_⟩
  rw [repliesOf_append, hnone]
  rfl

theorem run_round (buffer : SendBuffer) :
    ∃ buffer', (Machine.run step (serving buffer .head) round).1 =
        serving buffer' .head ∧
      requests 0 (repliesOf
        (Machine.run step (serving buffer .head) round).2) = 1 :=
  run_readData buffer
    (fun b => Function.update fdZero ⟨4, by decide⟩ true b && true)
    (by decide) rfl rfl

theorem run_opening :
    ∃ buffer', (run 1 opening).1 = serving buffer' .head ∧
      requests 0 (repliesOf (run 1 opening).2) = 1 :=
  run_readData {}
    (fun b => Function.update fdZero ⟨4, by decide⟩ true b && true)
    (by decide) rfl rfl

/-- Every iteration is one more request. -/
theorem requests_asks (n : Nat) :
    ∃ buffer, (run 1 (asks n)).1 = serving buffer .head ∧
      requests 0 (repliesOf (run 1 (asks n)).2) = n + 1 := by
  induction n with
  | zero =>
      obtain ⟨buffer, hrun, hcount⟩ := run_opening
      rw [asks, List.replicate_zero, List.flatten_nil, List.append_nil]
      exact ⟨buffer, hrun, hcount⟩
  | succ n ih =>
      obtain ⟨buffer, hrun, hcount⟩ := ih
      obtain ⟨buffer', hround, hone⟩ := run_round buffer
      have hsplit : asks (n + 1) = asks n ++ round := by
        rw [asks, asks, List.replicate_succ', List.flatten_concat,
          List.append_assoc]
      rw [hsplit, run, Machine.run_append]
      rw [run] at hrun hcount
      rw [hrun]
      dsimp only
      refine ⟨buffer', hround, ?_⟩
      rw [repliesOf_append, requests_append, hcount]
      omega

/-- `select` succeeds and reports every socket writable. -/
def ReportsWritable (events : List EchoEvent) : Prop :=
  ∀ i calls, .cell i calls ∈ events →
    0 ≤ calls.ret ∧ ∀ b, calls.writable b = true

theorem asks_reportsWritable (n : Nat) : ReportsWritable (asks n) := by
  intro i calls hmem
  have hcalls : calls = askingCalls := by
    simp [asks, opening, round] at hmem
    rcases hmem with hmem | hmem
    · exact hmem.2
    · exact hmem.2.2
  rw [hcalls]
  exact ⟨Int.one_nonneg, fun b => rfl⟩

/-- The last of 1025 requests, one in each iteration, gets no reply. -/
theorem echo_refuses :
    ¬ ∀ threadCount events, ReportsWritable events →
      AllAnswered (run threadCount events).2 := by
  intro h
  have hall := h 1 (asks ROOM) (asks_reportsWritable ROOM)
  obtain ⟨-, -, hcount⟩ := requests_asks ROOM
  have hle := ((run_ledger 1 (asks ROOM)).accepted 0).mp
    fun r hr _ => hall r hr
  omega

end MyServer

end Asking

end Net
end NetEngine
