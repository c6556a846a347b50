import NetEngine.Net.TCPClientCalls

/-!
# Reconnecting

`Conn`, `CloseSock` and `OnRun` of tcp_client.cpp around `Recv`.  Neither
`CloseSock` nor `Conn` touches `m_lastPos` or `m_buffer_recv`, so what an
earlier connection left there takes part in the next one.

A client that has been used is as good as a new one exactly when `m_lastPos` is
0 and `m_buffer_recv` holds zeros from its second byte on; the first byte is
overwritten by whatever comes first.  Anything else shows in the messages: a
position that is not 0 moves the moment of the first one, and a byte that is not
0 gets into it behind five chunks of one byte.
-/

namespace NetEngine
namespace Net

/-- A `TCPClient` with its socket. -/
structure ConnectedClient where
  /-- `m_sock != INVALID_SOCKET`. -/
  valid : Bool := false
  isConn : Bool := false
  client : TCPClient := {}

inductive ClientEvent where
  /-- `CreateSock`: whether `socket` succeeds. -/
  | createSock (created : Bool)
  /-- `Conn`: whether `socket` and `connect` succeed. -/
  | conn (created connected : Bool)
  | closeSock
  /-- `Send`: whether `send` succeeds. -/
  | send (sent : Bool)
  /-- `Recv`: what `recv` delivers. -/
  | recv (result : Option (List UInt8))
  /-- `OnRun`: what `select` returns, whether the socket is readable, and what
  `recv` delivers. -/
  | onRun (ret : Int) (readable : Bool) (result : Option (List UInt8))

namespace ConnectedClient

def closeSock (s : ConnectedClient) : ConnectedClient :=
  { s with valid := false, isConn := false }

def createSock (s : ConnectedClient) (created : Bool) : ConnectedClient :=
  let closed := if s.valid then s.closeSock else s
  { closed with valid := created }

def conn (s : ConnectedClient) (created connected : Bool) :
    ConnectedClient :=
  let s' := if ¬ s.valid then s.createSock created else s
  if connected then { s' with isConn := true } else s'

def isRun (s : ConnectedClient) : Bool :=
  s.valid && s.isConn

def send (s : ConnectedClient) (sent : Bool) : ConnectedClient :=
  if s.isRun ∧ ¬ sent then s.closeSock else s

/-- `Recv`, with what it returns; nothing when it faults. -/
def recv (s : ConnectedClient) (result : Option (List UInt8)) :
    Option (Int × ConnectedClient) × List ClientObservation :=
  let r := s.client.recv result
  (r.1.map (fun left => (left.1, { s with client := left.2 })), r.2)

def onRun (s : ConnectedClient) (ret : Int) (readable : Bool)
    (result : Option (List UInt8)) :
    Option ConnectedClient × List ClientObservation :=
  if ¬ s.isRun then (some s, [])
  else if ret < 0 then (some s.closeSock, [])
  else if readable then
    let r := s.recv result
    (r.1.map (fun left => if left.1 = -1 then left.2.closeSock else left.2),
      r.2)
  else (some s, [])

/-- One call; nothing happens after a fault. -/
def step (st : Option ConnectedClient) (e : ClientEvent) :
    Option ConnectedClient × List ClientObservation :=
  match st, e with
  | none, _ => (none, [])
  | some s, .createSock created => (some (s.createSock created), [])
  | some s, .conn created connected => (some (s.conn created connected), [])
  | some s, .closeSock => (some s.closeSock, [])
  | some s, .send sent => (some (s.send sent), [])
  | some s, .recv result =>
      ((s.recv result).1.map Prod.snd, (s.recv result).2)
  | some s, .onRun ret readable result => s.onRun ret readable result

/-- A new client, after some calls. -/
def run (events : List ClientEvent) :
    Option ConnectedClient × List ClientObservation :=
  Machine.run step (some {}) events

/-- `CloseSock` and a `Conn` that succeeds. -/
def reconnect (s : ConnectedClient) : ConnectedClient :=
  s.closeSock.conn true true

/-- One call of `OnRun` for each result of `recv`. -/
def receives (results : List (Option (List UInt8))) : List ClientEvent :=
  results.map (.onRun 1 true)

/-- Messages handed to `OnMessageProc` on a connection. -/
def handed (s : ConnectedClient) (results : List (Option (List UInt8))) :
    List MessageBody :=
  messagesOf (Machine.run step (some s) (receives results)).2

/-- `recv` delivers at most what it was given room for. -/
def Fits (result : Option (List UInt8)) : Prop :=
  ∀ bytes, result = some bytes → bytes.length ≤ RECV_BUFFER_SIZE

def EventFits : ClientEvent → Prop
  | .createSock _ => True
  | .conn _ _ => True
  | .closeSock => True
  | .send _ => True
  | .recv result => Fits result
  | .onRun _ _ result => Fits result

/-- After a reconnect the client hands on what a new one would. -/
def Clean (s : ConnectedClient) : Prop :=
  ∀ results, (∀ r ∈ results, Fits r) →
    s.reconnect.handed results = (reconnect {}).handed results

end ConnectedClient

section Calls

variable {c : TCPClient} {chunk : List UInt8}

/-- Between two calls of `Recv` fewer than six bytes are accounted for. -/
structure Settled (c : TCPClient) : Prop where
  unwritten : Unwritten c
  lastPos : c.lastPos ≤ 5

/-- Nothing received, or a failure, takes the position down by one at most. -/
theorem recv_failed
    (c : TCPClient) {result : Option (List UInt8)}
    (h : result = none ∨ result = some []) :
    ∃ c', c.recv result = (some (-1, c'), [.access .m_buffer_recv 0 0]) ∧
      c'.memory = c.memory ∧ c'.lastPos ≤ c.lastPos := by
  rcases h with rfl | rfl
  · refine ⟨_, rfl, rfl, ?_⟩
    show c.lastPos + -1 ≤ c.lastPos
    omega
  · refine ⟨_, rfl, rfl, ?_⟩
    show c.lastPos + 0 ≤ c.lastPos
    omega

theorem recv_short (hne : chunk ≠ []) (hshort : c.lastPos + chunk.length < 6) :
    c.recv (some chunk) =
      (some ((chunk.length : Int), storeChunk c chunk),
        [.access .m_buffer_recv 0 chunk.length]) := by
  have hstop : (storeChunk c chunk).lastPos < 6 := hshort
  rw [recv_loop c hne, recvLoop_stop hstop]
  rfl

/-- With six bytes there is a message, and it shows the buffer. -/
theorem recv_long
    (h : Settled c) (hlen : chunk.length ≤ RECV_BUFFER_SIZE)
    (hlong : 6 ≤ c.lastPos + chunk.length) :
    ∃ rest, messagesOf (c.recv (some chunk)).2 =
      MessageBody.ofBytes (storeChunk c chunk).memory
        (c.lastPos + chunk.length).toNat :: rest := by
  obtain ⟨hun, hlast⟩ := h
  have hne : chunk ≠ [] := by
    rintro rfl
    simp at hlong
    omega
  rw [RECV_BUFFER_SIZE] at hlen
  have hpos : (storeChunk c chunk).lastPos =
      ((c.lastPos + chunk.length).toNat : Nat) := by
    show c.lastPos + (chunk.length : Int) = _
    omega
  obtain ⟨fuel, hfuel⟩ : ∃ fuel, (c.lastPos + chunk.length).toNat = fuel + 1 :=
    ⟨(c.lastPos + chunk.length).toNat - 1, by omega⟩
  have hpass := recvLoop_pass (hun.storeChunk hlen) hpos (by omega)
    (by rw [MessageBody.SIZEOF]; omega) fuel
  rw [← hfuel] at hpass
  refine ⟨messagesOf (TCPClient.recvLoop fuel
    (dropFour (storeChunk c chunk))).2, ?_⟩
  rw [recv_loop c hne, hpos, Int.toNat_natCast]
  dsimp only
  rw [hpass]
  rfl

theorem Settled.recv
    (h : Settled c) {result : Option (List UInt8)}
    (hfits : ConnectedClient.Fits result) :
    ∃ ret c', (c.recv result).1 = some (ret, c') ∧ Settled c' := by
  obtain ⟨hun, hlast⟩ := h
  by_cases hfail : result = none ∨ result = some []
  · obtain ⟨c', hrecv, hmemory, hlast'⟩ := recv_failed c hfail
    refine ⟨-1, c', by rw [hrecv], ?_, by omega⟩
    intro i hi
    rw [hmemory]
    exact hun i hi
  · rw [not_or] at hfail
    obtain ⟨chunk, rfl⟩ := Option.ne_none_iff_exists'.mp hfail.1
    have hne : chunk ≠ [] := fun hnil => hfail.2 (by rw [hnil])
    have hlen := hfits chunk rfl
    have hun' := hun.storeChunk hlen
    by_cases hshort : c.lastPos + chunk.length < 6
    · refine ⟨_, _, by rw [recv_short hne hshort], hun', ?_⟩
      show c.lastPos + (chunk.length : Int) ≤ 5
      omega
    · rw [RECV_BUFFER_SIZE] at hlen
      have hpos : (storeChunk c chunk).lastPos =
          ((c.lastPos + chunk.length).toNat : Nat) := by
        show c.lastPos + (chunk.length : Int) = _
        omega
      obtain ⟨c', out, hloop, hun'', hlast', -⟩ := recvLoop_count hun' hpos
        (by rw [MessageBody.SIZEOF]; omega) _ (Nat.le_refl _)
      refine ⟨chunk.length, c', ?_, hun'', by omega⟩
      rw [recv_loop c hne, hpos, Int.toNat_natCast, hloop]
      rfl

end Calls

section Runs

namespace ConnectedClient

/-- A running client. -/
def connected (c : TCPClient) : ConnectedClient :=
  { valid := true, isConn := true, client := c }

theorem reconnect_eq (s : ConnectedClient) :
    s.reconnect = connected s.client := by
  rfl

theorem clean_iff (s : ConnectedClient) :
    Clean s ↔ ∀ results, (∀ r ∈ results, Fits r) →
      (connected s.client).handed results =
        (connected {}).handed results := by
  rw [Clean, reconnect_eq, reconnect_eq]

theorem createSock_client (s : ConnectedClient) (created : Bool) :
    (s.createSock created).client = s.client := by
  simp only [createSock, closeSock]
  split_ifs <;> rfl

theorem conn_client (s : ConnectedClient) (created connected : Bool) :
    (s.conn created connected).client = s.client := by
  simp only [conn, createSock, closeSock]
  split_ifs <;> rfl

theorem send_client (s : ConnectedClient) (sent : Bool) :
    (s.send sent).client = s.client := by
  simp only [send, closeSock]
  split_ifs <;> rfl

/-- What every history leaves. -/
theorem step_settled
    {s : ConnectedClient} (h : Settled s.client) {e : ClientEvent}
    (hfits : EventFits e) :
    ∃ s', (step (some s) e).1 = some s' ∧ Settled s'.client := by
  cases e with
  | createSock created =>
      exact ⟨_, rfl, (s.createSock_client created).symm ▸ h⟩
  | conn created connected =>
      exact ⟨_, rfl, (s.conn_client created connected).symm ▸ h⟩
  | closeSock =>
      exact ⟨_, rfl, h⟩
  | send sent =>
      exact ⟨_, rfl, (s.send_client sent).symm ▸ h⟩
  | recv result =>
      obtain ⟨ret, c', hrecv, hsettled⟩ := h.recv hfits
      exact ⟨{ s with client := c' }, by simp [step, recv, hrecv], hsettled⟩
  | onRun ret readable result =>
      by_cases hrun : s.isRun = true
      · by_cases hret : ret < 0
        · exact ⟨s.closeSock, by simp [step, onRun, hrun, hret], h⟩
        · by_cases hread : readable = true
          · obtain ⟨ret', c', hrecv, hsettled⟩ := h.recv hfits
            refine ⟨_, by
              simp only [step, onRun, recv, hrun, hret, hread, hrecv]
              rfl, ?_⟩
            dsimp only
            split_ifs
            · exact hsettled
            · exact hsettled
          · exact ⟨s, by simp [step, onRun, hrun, hret, hread], h⟩
      · exact ⟨s, by simp [step, onRun, hrun], h⟩

theorem run_settled
    {events : List ClientEvent} (h : ∀ e ∈ events, EventFits e) :
    ∃ s, (run events).1 = some s ∧ Settled s.client := by
  induction events using List.reverseRecOn with
  | nil =>
      exact ⟨{}, rfl, fun _ _ => rfl, Int.natCast_nonneg 5⟩
  | append_singleton events e ih =>
      obtain ⟨s, hrun, hsettled⟩ :=
        ih fun e' he' => h e' (List.mem_append_left _ he')
      rw [run, Machine.run_concat]
      rw [run] at hrun
      rw [hrun]
      exact step_settled hsettled
        (h e (List.mem_append_right _ List.mem_cons_self))

/-- A client that does not run receives nothing. -/
theorem handed_stopped
    {s : ConnectedClient} (h : s.isRun = false)
    (results : List (Option (List UInt8))) : s.handed results = [] := by
  induction results with
  | nil =>
      rfl
  | cons result results ih =>
      have hstep : step (some s) (.onRun 1 true result) = (some s, []) := by
        simp [step, onRun, h]
      rw [handed, receives, List.map_cons, Machine.run_cons, hstep]
      exact ih

/-- The first result on a connection that is up. -/
theorem step_connected (c : TCPClient) (result : Option (List UInt8)) :
    step (some (connected c)) (.onRun 1 true result) =
      ((c.recv result).1.map (fun left =>
        if left.1 = -1 then (connected left.2).closeSock
        else connected left.2), (c.recv result).2) := by
  show (Option.map _ (Option.map _ _), _) = _
  rw [Option.map_map]
  rfl

/-- A failure ends a connection without a message. -/
theorem handed_failed
    (c : TCPClient) {result : Option (List UInt8)}
    (h : result = none ∨ result = some [])
    (results : List (Option (List UInt8))) :
    (connected c).handed (result :: results) = [] := by
  obtain ⟨c', hrecv, -, -⟩ := recv_failed c h
  have hstopped : (connected c').closeSock.isRun = false := rfl
  rw [handed, receives, List.map_cons, Machine.run_cons, step_connected,
    hrecv]
  exact handed_stopped hstopped results

end ConnectedClient

end Runs

section Same

/-- What the next connection can see of an earlier one is as in a new client. -/
structure LikeNew (c : TCPClient) : Prop where
  lastPos : c.lastPos = 0
  zeros : ∀ i, 1 ≤ i → i < RECV_BUFFER_SIZE → c.memory i = 0

/-- The first chunk makes it the same client. -/
theorem LikeNew.storeChunk
    {c : TCPClient} (h : LikeNew c) (hun : Unwritten c)
    {chunk : List UInt8} (hne : chunk ≠ []) :
    storeChunk c chunk = storeChunk {} chunk := by
  have hlen := List.length_pos_iff.mpr hne
  have hmemory : (Net.storeChunk c chunk).memory =
      (Net.storeChunk {} chunk).memory := by
    funext i
    by_cases hi : i < chunk.length
    · rw [storeChunk_apply, storeChunk_apply, List.getElem?_eq_getElem hi]
      rfl
    · rw [storeChunk_of_le c (by omega), storeChunk_of_le {} (by omega)]
      by_cases hbuffer : i < RECV_BUFFER_SIZE
      · exact h.zeros i (by omega) hbuffer
      · exact hun i (by omega)
  have hlast : (Net.storeChunk c chunk).lastPos =
      (Net.storeChunk {} chunk).lastPos := by
    show c.lastPos + (chunk.length : Int) = 0 + (chunk.length : Int)
    rw [h.lastPos]
  calc Net.storeChunk c chunk
      = ⟨(Net.storeChunk c chunk).memory,
          (Net.storeChunk c chunk).lastPos⟩ := rfl
    _ = Net.storeChunk {} chunk := by rw [hmemory, hlast]

theorem LikeNew.handed
    {c : TCPClient} (h : LikeNew c) (hun : Unwritten c)
    (results : List (Option (List UInt8))) :
    (ConnectedClient.connected c).handed results =
      (ConnectedClient.connected {}).handed results := by
  cases results with
  | nil =>
      rfl
  | cons result results =>
      by_cases hfail : result = none ∨ result = some []
      · rw [ConnectedClient.handed_failed c hfail,
          ConnectedClient.handed_failed {} hfail]
      · rw [not_or] at hfail
        obtain ⟨chunk, rfl⟩ := Option.ne_none_iff_exists'.mp hfail.1
        have hne : chunk ≠ [] := fun hnil => hfail.2 (by rw [hnil])
        have hrecv : c.recv (some chunk) = TCPClient.recv {} (some chunk) := by
          rw [recv_loop c hne, recv_loop {} hne, h.storeChunk hun hne]
        rw [ConnectedClient.handed, ConnectedClient.handed,
          ConnectedClient.receives, List.map_cons, Machine.run_cons,
          Machine.run_cons, ConnectedClient.step_connected,
          ConnectedClient.step_connected, hrecv]

end Same

section Different

namespace ConnectedClient

/-- Messages of one chunk on a connection that is up. -/
theorem handed_chunk (c : TCPClient) (chunk : List UInt8) :
    (connected c).handed [some chunk] =
      messagesOf (c.recv (some chunk)).2 := by
  rw [handed, receives, List.map_singleton, Machine.run_cons,
    Machine.run_nil, List.append_nil]
  rfl

end ConnectedClient

/-- A chunk after which one client has six bytes and the other has not. -/
theorem handed_ne
    {c d : TCPClient} (hc : Settled c) {n : Nat} (hn : 0 < n)
    (hlen : n ≤ RECV_BUFFER_SIZE) (hlong : 6 ≤ c.lastPos + n)
    (hshort : d.lastPos + n < 6) :
    (ConnectedClient.connected c).handed [some (List.replicate n 0)] ≠
      (ConnectedClient.connected d).handed [some (List.replicate n 0)] := by
  have hlength : (List.replicate n (0 : UInt8)).length = n :=
    List.length_replicate
  have hne : List.replicate n (0 : UInt8) ≠ [] := by
    rw [← List.length_pos_iff, hlength]
    exact hn
  obtain ⟨rest, hlong⟩ := recv_long hc (by rwa [hlength])
    (by rwa [hlength])
  rw [ConnectedClient.handed_chunk, ConnectedClient.handed_chunk, hlong,
    recv_short hne (by rwa [hlength])]
  exact List.cons_ne_nil _ _

theorem settled_new : Settled {} :=
  ⟨fun _ _ => rfl, Int.natCast_nonneg 5⟩

/-- A position that is not 0 moves the moment of the first message. -/
theorem lastPos_of_clean
    {c : TCPClient} (h : Settled c)
    (hclean : ∀ results, (∀ r ∈ results, ConnectedClient.Fits r) →
      (ConnectedClient.connected c).handed results =
        (ConnectedClient.connected {}).handed results) :
    c.lastPos = 0 := by
  have hlast := h.lastPos
  have hnew : ({} : TCPClient).lastPos = 0 := rfl
  have hsingle : ∀ n : Nat, n ≤ RECV_BUFFER_SIZE →
      ∀ r ∈ [some (List.replicate n (0 : UInt8))],
        ConnectedClient.Fits r := by
    rintro n hn _ hr chunk rfl
    cases List.mem_singleton.mp hr
    rwa [List.length_replicate]
  rcases Int.lt_trichotomy c.lastPos 0 with hneg | hzero | hpos
  · have hsix := hclean [some (List.replicate 6 0)]
      (hsingle 6 (by decide))
    exact absurd hsix.symm (handed_ne settled_new (by omega) (by decide)
      (by omega) (by omega))
  · exact hzero
  · obtain ⟨p, hp⟩ := Int.eq_ofNat_of_zero_le (Int.le_of_lt hpos)
    have hrest := hclean [some (List.replicate (6 - p) 0)]
      (hsingle (6 - p) (by rw [RECV_BUFFER_SIZE]; omega))
    exact absurd hrest (handed_ne h (by omega)
      (by rw [RECV_BUFFER_SIZE]; omega) (by omega) (by omega))

/-- A few chunks of one byte are held back, and touch the first byte only. -/
theorem run_singles
    {c : TCPClient} (h : Settled c) (hzero : c.lastPos = 0)
    {m : Nat} (hm : m ≤ 5) :
    ∃ c' out, Machine.run ConnectedClient.step
          (some (ConnectedClient.connected c))
          (ConnectedClient.receives (List.replicate m (some [0]))) =
        (some (ConnectedClient.connected c'), out) ∧
      messagesOf out = [] ∧ c'.lastPos = m ∧ Unwritten c' ∧
      ∀ i, 1 ≤ i → c'.memory i = c.memory i := by
  induction m with
  | zero =>
      exact ⟨c, [], rfl, rfl, hzero, h.unwritten, fun _ _ => rfl⟩
  | succ m ih =>
      obtain ⟨c', out, hrun, hout, hlast, hun, hsame⟩ := ih (by omega)
      have hone : ([0] : List UInt8).length = 1 := rfl
      have hrecv := recv_short (c := c') (List.cons_ne_nil 0 [])
        (by rw [hone]; omega)
      refine ⟨storeChunk c' [0],
        out ++ [.access .m_buffer_recv 0 1], ?_, ?_, ?_, ?_, ?_⟩
      · rw [ConnectedClient.receives] at hrun ⊢
        rw [List.replicate_succ', List.map_append, List.map_singleton,
          Machine.run_concat, hrun, ConnectedClient.step_connected, hrecv]
        rfl
      · rw [messagesOf_append, hout]
        rfl
      · show c'.lastPos + 1 = _
        omega
      · exact hun.storeChunk (by rw [hone, RECV_BUFFER_SIZE]; omega)
      · intro i hi
        rw [storeChunk_of_le c' (by rwa [hone])]
        exact hsame i hi

/-- Five chunks of one byte and a chunk of zeros. -/
def probe (k : Nat) : List (Option (List UInt8)) :=
  List.replicate 5 (some [0]) ++ [some (List.replicate k 0)]

/-- The first message shows what lay behind the chunk. -/
theorem handed_probe
    {c : TCPClient} (h : Settled c) (hzero : c.lastPos = 0)
    {k : Nat} (hpos : 1 ≤ k) (hk : k ≤ RECV_BUFFER_SIZE) :
    ∃ buffer rest, (ConnectedClient.connected c).handed (probe k) =
        MessageBody.ofBytes buffer (5 + k) :: rest ∧
      ∀ i, k ≤ i → buffer i = c.memory i := by
  obtain ⟨c', out, hrun, hout, hlast, hun, hsame⟩ :=
    run_singles h hzero (Nat.le_refl 5)
  have hlength : (List.replicate k (0 : UInt8)).length = k :=
    List.length_replicate
  have hfits : (List.replicate k (0 : UInt8)).length ≤ RECV_BUFFER_SIZE := by
    rwa [hlength]
  obtain ⟨rest, hlong⟩ := recv_long ⟨hun, Int.le_of_eq hlast⟩ hfits
    (by rw [hlength]; omega)
  have hcount : (c'.lastPos + (k : Int)).toNat = 5 + k := by
    omega
  rw [hlength, hcount] at hlong
  refine ⟨(storeChunk c' (List.replicate k 0)).memory, rest, ?_, ?_⟩
  · rw [ConnectedClient.handed, probe, ConnectedClient.receives,
      List.map_append, List.map_singleton, Machine.run_concat]
    rw [ConnectedClient.receives] at hrun
    rw [hrun, messagesOf_append, hout, List.nil_append]
    exact hlong
  · intro i hi
    rw [storeChunk_of_le c' (by rwa [hlength])]
    exact hsame i (by omega)

theorem fits_probe {k : Nat} (hk : k ≤ RECV_BUFFER_SIZE) :
    ∀ r ∈ probe k, ConnectedClient.Fits r := by
  rintro r hr chunk rfl
  rcases List.mem_append.mp hr with hsingle | hlast
  · cases (List.mem_replicate.mp hsingle).2
    decide
  · cases List.mem_singleton.mp hlast
    rwa [List.length_replicate]

/-- A byte that is not 0 gets into a message. -/
theorem zeros_of_clean
    {c : TCPClient} (h : Settled c) (hzero : c.lastPos = 0)
    (hclean : ∀ results, (∀ r ∈ results, ConnectedClient.Fits r) →
      (ConnectedClient.connected c).handed results =
        (ConnectedClient.connected {}).handed results)
    {i : Nat} (hi : 1 ≤ i) (hbuffer : i < RECV_BUFFER_SIZE) :
    c.memory i = 0 := by
  -- the chunk ends at byte `i` at the latest and brings the position past it
  obtain ⟨k, hpos, hki, hik⟩ : ∃ k, 1 ≤ k ∧ k ≤ i ∧ i < 5 + k := by
    by_cases hfour : i ≤ 4
    · exact ⟨1, by omega, hi, by omega⟩
    · exact ⟨i - 4, by omega, by omega, by omega⟩
  have hk : k ≤ RECV_BUFFER_SIZE := by
    omega
  obtain ⟨buffer, rest, hmessages, hsame⟩ := handed_probe h hzero hpos hk
  obtain ⟨buffer', rest', hmessages', hsame'⟩ :=
    handed_probe settled_new rfl hpos hk
  have hequal := hclean (probe k) (fits_probe hk)
  rw [hmessages, hmessages'] at hequal
  have hfirst := (List.cons.inj hequal).1
  calc c.memory i
      = buffer i := (hsame i hki).symm
    _ = buffer' i := MessageBody.ofBytes_inj hfirst hik
    _ = 0 := hsame' i hki

end Different

/--
After any history the next connection is as good as a new client's exactly when
nothing is accounted for and nothing but zeros lies behind the first byte.
-/
theorem reconnect_clean_iff
    {events : List ClientEvent}
    (h : ∀ e ∈ events, ConnectedClient.EventFits e) :
    ∃ s, (ConnectedClient.run events).1 = some s ∧
      (ConnectedClient.Clean s ↔
        s.client.lastPos = 0 ∧
          ∀ i, 1 ≤ i → i < RECV_BUFFER_SIZE → s.client.memory i = 0) := by
  obtain ⟨s, hrun, hsettled⟩ := ConnectedClient.run_settled h
  refine ⟨s, hrun, ?_⟩
  rw [ConnectedClient.clean_iff]
  constructor
  · intro hclean
    have hlast := lastPos_of_clean hsettled hclean
    exact ⟨hlast, fun i => zeros_of_clean hsettled hlast hclean⟩
  · rintro ⟨hlast, hzeros⟩ results -
    exact LikeNew.handed ⟨hlast, hzeros⟩ hsettled.unwritten results

/-- Three bytes of a frame, and then the connection is closed. -/
def halfFrame : List ClientEvent :=
  [.conn true true, .onRun 1 true (some [9, 0, 0]), .closeSock]

theorem halfFrame_fits :
    ∀ e ∈ halfFrame, ConnectedClient.EventFits e := by
  intro e he
  simp only [halfFrame, List.mem_cons, List.not_mem_nil, or_false] at he
  rcases he with rfl | rfl | rfl
  · trivial
  · intro bytes hbytes
    cases hbytes
    decide
  · trivial

theorem reconnect_clean_halfFrame :
    ∃ s, (ConnectedClient.run halfFrame).1 = some s ∧
      (ConnectedClient.Clean s ↔
        s.client.lastPos = 0 ∧
          ∀ i, 1 ≤ i → i < RECV_BUFFER_SIZE → s.client.memory i = 0) :=
  reconnect_clean_iff halfFrame_fits

/-- The three bytes are still accounted for on the next connection. -/
theorem reconnect_not_clean :
    ¬ ∀ events, (∀ e ∈ events, ConnectedClient.EventFits e) →
        ∀ s, (ConnectedClient.run events).1 = some s →
          ConnectedClient.Clean s := by
  intro hall
  have hclean := hall halfFrame halfFrame_fits _ rfl
  have hthree := hclean [some (List.replicate 3 0)] (by
    rintro _ hr chunk rfl
    cases List.mem_singleton.mp hr
    decide)
  have hcount := congrArg List.length hthree
  exact absurd hcount (by decide)

end Net
end NetEngine
