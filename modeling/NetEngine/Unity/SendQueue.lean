import NetEngine.Unity.ClientSend

/-!
# C_TcpClient: the queue of messages to send

`SendMsg(MessageBody)` enqueues and `Update` sends what is queued, on a socket
that is and stays connected and transmits what `Socket.Send` gets.  All messages
go through one buffer, one array and one write position; an exception leaves
`SendMsg` with the buffer half filled, and `Update` catches it.

Each message is laid out from a cleared buffer, so a message that is too long
costs nothing but itself and the rest of its `Update`.
-/

namespace NetEngine
namespace Unity

open Net IoBuffer CPacket CTcpClient

/-- The sending half of a C_TcpClient. -/
structure CTcpSender where
  /-- An entry can be null. -/
  sendMsgs : List (Option MessageBody) := []
  sendBuffer : IoBuffer
  sendData : Memory UInt8 := fun _ => 0
  currentSendBufferWritePosition : Int := 0

inductive SenderEvent where
  /-- `SendMsg(MessageBody)`. -/
  | sendMsg (msg : Option MessageBody)
  | update

inductive SenderObservation where
  | dequeued (msg : Option MessageBody)
  /-- Bytes given to `Socket.Send`. -/
  | sent (bytes : List UInt8)
deriving DecidableEq

/-- How `SendMsg()` ends. -/
structure SendOutcome where
  sender : CTcpSender
  out : List SenderObservation
  threw : Option IoException

namespace CTcpSender

/-- A sender as the constructor leaves it. -/
def fresh : CTcpSender where
  sendBuffer := IoBuffer.allocate SEND_SOCKET_BUFFER_SIZE

/-- `SendMsg(MessageBody)` puts a message into the queue. -/
def enqueue (s : CTcpSender) (msg : Option MessageBody) : CTcpSender :=
  { s with sendMsgs := s.sendMsgs ++ [msg] }

/-- `SendMsg(byte[])`. -/
def sendBytes (s : CTcpSender) : CTcpSender × List SenderObservation :=
  ({ s with currentSendBufferWritePosition := 0 },
    [.sent (s.sendData.read 0 s.currentSendBufferWritePosition.toNat)])

/-- A message of the queue that is not null, or the exception it throws. -/
def sendOne (s : CTcpSender) (msg : MessageBody) : SendOutcome :=
  let cleared : Memory UInt8 := fun _ => 0
  match sendMsgPass msg s.sendBuffer with
  | .error e buff =>
      ⟨{ s with sendBuffer := buff, sendData := cleared }, [], some e⟩
  | .ok bytes buff =>
      let len := HEADER_TYPE_BYTES + msg.data.length
      let r := sendBytes
        { s with
          sendBuffer := buff
          sendData := cleared.store 0 bytes
          currentSendBufferWritePosition := len + HEADER_LENGTH_BYTES }
      ⟨r.1, r.2, none⟩

/-- The loop of `SendMsg()` on what is left of the queue. -/
def sendLoop (s : CTcpSender) : List (Option MessageBody) → SendOutcome
  | [] => ⟨{ s with sendMsgs := [] }, [], none⟩
  | none :: queue =>
      let r := sendLoop s queue
      ⟨r.sender, .dequeued none :: r.out, r.threw⟩
  | some msg :: queue =>
      let r := s.sendOne msg
      match r.threw with
      | some e =>
          ⟨{ r.sender with sendMsgs := queue },
            .dequeued (some msg) :: r.out, some e⟩
      | none =>
          let r' := sendLoop r.sender queue
          ⟨r'.sender, .dequeued (some msg) :: (r.out ++ r'.out), r'.threw⟩

/-- `SendMsg()`. -/
def sendMsg (s : CTcpSender) : SendOutcome :=
  s.sendLoop s.sendMsgs

/-- `Update` catches what `SendMsg()` throws. -/
def step (s : CTcpSender) :
    SenderEvent → CTcpSender × List SenderObservation
  | .sendMsg msg => (s.enqueue msg, [])
  | .update => (s.sendMsg.sender, s.sendMsg.out)

/-- A fresh sender, after a list of events. -/
def run (events : List SenderEvent) :
    CTcpSender × List SenderObservation :=
  Machine.run step fresh events

end CTcpSender

/-- A queued message that throws nothing: null, or within the send buffer. -/
def Fits (msg : Option MessageBody) : Bool :=
  match msg with
  | none => true
  | some body => body.data.length + 6 ≤ SEND_SOCKET_BUFFER_SIZE

/-- What a queued message gives to `Socket.Send`. -/
def wireOf (msg : Option MessageBody) : Option (List UInt8) :=
  match msg with
  | none => none
  | some body => if Fits (some body) then some (wireBytes body) else none

/-- Messages that one `Update` dequeues: up to the first that throws. -/
def taken (queue : List (Option MessageBody)) : List (Option MessageBody) :=
  queue.takeWhile Fits ++ (queue.dropWhile Fits).take 1

/-- Messages that it leaves. -/
def leftBehind (queue : List (Option MessageBody)) :
    List (Option MessageBody) :=
  (queue.dropWhile Fits).drop 1

section Traces

def dequeuedOf : SenderObservation → Option (Option MessageBody)
  | .dequeued msg => some msg
  | .sent _ => none

def sentOf : SenderObservation → Option (List UInt8)
  | .dequeued _ => none
  | .sent bytes => some bytes

/-- Messages dequeued, in order. -/
def dequeuedMsgs (tr : List SenderObservation) : List (Option MessageBody) :=
  tr.filterMap dequeuedOf

/-- What `Socket.Send` got, call by call. -/
def sentChunks (tr : List SenderObservation) : List (List UInt8) :=
  tr.filterMap sentOf

@[simp] theorem dequeuedMsgs_append (tr out : List SenderObservation) :
    dequeuedMsgs (tr ++ out) = dequeuedMsgs tr ++ dequeuedMsgs out :=
  List.filterMap_append

@[simp] theorem sentChunks_append (tr out : List SenderObservation) :
    sentChunks (tr ++ out) = sentChunks tr ++ sentChunks out :=
  List.filterMap_append

@[simp] theorem dequeuedMsgs_cons_dequeued
    (msg : Option MessageBody) (tr : List SenderObservation) :
    dequeuedMsgs (.dequeued msg :: tr) = msg :: dequeuedMsgs tr := by
  rfl

@[simp] theorem sentChunks_cons_dequeued
    (msg : Option MessageBody) (tr : List SenderObservation) :
    sentChunks (.dequeued msg :: tr) = sentChunks tr := by
  rfl

@[simp] theorem sentChunks_cons_sent
    (bytes : List UInt8) (tr : List SenderObservation) :
    sentChunks (.sent bytes :: tr) = bytes :: sentChunks tr := by
  rfl

end Traces

section Loop

/-- The send buffer keeps its capacity. -/
def Sized (s : CTcpSender) : Prop :=
  s.sendBuffer.capacity = SEND_SOCKET_BUFFER_SIZE

variable {s : CTcpSender} {msg : MessageBody}

/-- A message within the send buffer is sent as its wire image. -/
theorem sendOne_fits (h : Sized s) (hfits : Fits (some msg)) :
    (s.sendOne msg).out = [.sent (wireBytes msg)] ∧
      (s.sendOne msg).threw = none ∧ Sized (s.sendOne msg).sender := by
  rw [Fits, decide_eq_true_iff] at hfits
  obtain ⟨buf, hpass, hcap⟩ := sendMsgPass_ok h hfits (by decide)
  have hlen : ((HEADER_TYPE_BYTES + msg.data.length + HEADER_LENGTH_BYTES :
      Int)).toNat = (wireBytes msg).length := by
    rw [wireBytes_length, headerTypeBytes, headerLengthBytes]
    omega
  rw [CTcpSender.sendOne, hpass]
  refine ⟨?_, rfl, hcap⟩
  simp only [CTcpSender.sendBytes, hlen]
  rw [(Memory.holds_store _ 0 (wireBytes msg)).read_eq]

/-- A longer one throws, and nothing is sent. -/
theorem sendOne_long (h : Sized s) (hlong : ¬ Fits (some msg)) :
    (s.sendOne msg).out = [] ∧ (s.sendOne msg).threw = some .overflow ∧
      Sized (s.sendOne msg).sender := by
  rw [Fits, decide_eq_true_iff] at hlong
  obtain ⟨buf, hpass, hcap⟩ :=
    sendMsgPass_overflow h (by decide) (Nat.lt_of_not_le hlong)
  rw [CTcpSender.sendOne, hpass]
  exact ⟨rfl, rfl, hcap⟩

/-- An entry that throws nothing is sent, and the loop goes on. -/
theorem sendLoop_cons_of_fits
    (h : Sized s) {entry : Option MessageBody} (hfits : Fits entry)
    (queue : List (Option MessageBody)) :
    ∃ s', Sized s' ∧ s.sendLoop (entry :: queue) =
      ⟨(s'.sendLoop queue).sender,
        .dequeued entry ::
          ((wireOf entry).toList.map .sent ++ (s'.sendLoop queue).out),
        (s'.sendLoop queue).threw⟩ := by
  cases entry with
  | none =>
      exact ⟨s, h, rfl⟩
  | some msg =>
      obtain ⟨hout, hnone, hsized⟩ := sendOne_fits h hfits
      refine ⟨(s.sendOne msg).sender, hsized, ?_⟩
      rw [CTcpSender.sendLoop, hnone, hout, wireOf, if_pos hfits]
      rfl

/-- An entry that throws ends the loop. -/
theorem sendLoop_cons_of_long
    (h : Sized s) {entry : Option MessageBody} (hlong : ¬ Fits entry)
    (queue : List (Option MessageBody)) :
    ∃ s', Sized s' ∧ s.sendLoop (entry :: queue) =
      ⟨{ s' with sendMsgs := queue }, [.dequeued entry],
        some .overflow⟩ := by
  cases entry with
  | none =>
      exact absurd rfl hlong
  | some msg =>
      obtain ⟨hout, hsome, hsized⟩ := sendOne_long h hlong
      refine ⟨(s.sendOne msg).sender, hsized, ?_⟩
      rw [CTcpSender.sendLoop, hsome, hout]

theorem wireOf_of_long {entry : Option MessageBody} (hlong : ¬ Fits entry) :
    wireOf entry = none := by
  cases entry with
  | none =>
      rfl
  | some msg =>
      rw [wireOf, if_neg hlong]

theorem taken_cons_of_fits
    {entry : Option MessageBody} (hfits : Fits entry)
    (queue : List (Option MessageBody)) :
    taken (entry :: queue) = entry :: taken queue ∧
      leftBehind (entry :: queue) = leftBehind queue := by
  simp [taken, leftBehind, hfits]

theorem taken_cons_of_long
    {entry : Option MessageBody} (hlong : ¬ Fits entry)
    (queue : List (Option MessageBody)) :
    taken (entry :: queue) = [entry] ∧
      leftBehind (entry :: queue) = queue := by
  simp [taken, leftBehind, hlong]

theorem taken_append_leftBehind (queue : List (Option MessageBody)) :
    taken queue ++ leftBehind queue = queue := by
  rw [taken, leftBehind, List.append_assoc, List.take_append_drop,
    List.takeWhile_append_dropWhile]

@[simp] theorem dequeuedMsgs_map_sent (chunks : List (List UInt8)) :
    dequeuedMsgs (chunks.map .sent) = [] := by
  rw [dequeuedMsgs, List.filterMap_map]
  exact List.filterMap_eq_nil_iff.mpr fun _ _ => rfl

/-- What the loop does to a queue. -/
structure LoopSends (queue : List (Option MessageBody))
    (r : SendOutcome) : Prop where
  sized : Sized r.sender
  left : r.sender.sendMsgs = leftBehind queue
  dequeued : dequeuedMsgs r.out = taken queue
  sent : sentChunks r.out = (taken queue).filterMap wireOf
  threw : r.threw = none ↔ ∀ msg ∈ queue, Fits msg

theorem sendLoop_sends
    (h : Sized s) (queue : List (Option MessageBody)) :
    LoopSends queue (s.sendLoop queue) := by
  induction queue generalizing s with
  | nil =>
      exact ⟨h, rfl, rfl, rfl, by simp [CTcpSender.sendLoop]⟩
  | cons entry queue ih =>
      by_cases hfits : Fits entry
      · obtain ⟨s', hsized, hloop⟩ := sendLoop_cons_of_fits h hfits queue
        obtain ⟨htaken, hleft⟩ := taken_cons_of_fits hfits queue
        have hrest := ih hsized
        rw [hloop]
        constructor
        · exact hrest.sized
        · rw [hleft]
          exact hrest.left
        · simp [htaken, hrest.dequeued]
        · cases hwire : wireOf entry with
          | none | some bytes =>
              simp [htaken, hrest.sent, hwire]
        · rw [List.forall_mem_cons, ← hrest.threw]
          simp [hfits]
      · obtain ⟨s', hsized, hloop⟩ := sendLoop_cons_of_long h hfits queue
        obtain ⟨htaken, hleft⟩ := taken_cons_of_long hfits queue
        rw [hloop]
        constructor
        · exact hsized
        · exact hleft.symm
        · rw [htaken]
          rfl
        · rw [htaken, List.filterMap_cons_none (wireOf_of_long hfits)]
          rfl
        · rw [List.forall_mem_cons]
          simp [hfits]

end Loop

section Runs

/-- Messages put into the queue, in order. -/
def enqueuedMsgs : List SenderEvent → List (Option MessageBody)
  | [] => []
  | .sendMsg msg :: events => msg :: enqueuedMsgs events
  | .update :: events => enqueuedMsgs events

theorem enqueuedMsgs_append (events later : List SenderEvent) :
    enqueuedMsgs (events ++ later) =
      enqueuedMsgs events ++ enqueuedMsgs later := by
  induction events with
  | nil =>
      rfl
  | cons e events ih =>
      cases e with
      | sendMsg msg | update =>
          simp [enqueuedMsgs, ih]

/--
What goes out is the wire format of the messages dequeued, without those that
are too long; every message is dequeued in its turn, and each `Update` dequeues
up to the first that is too long.
-/
structure SendsExactly (events : List SenderEvent) : Prop where
  bytes : (sentChunks (CTcpSender.run events).2).flatten =
    (dequeuedMsgs (CTcpSender.run events).2).flatMap
      (fun msg => (wireOf msg).getD [])
  order : dequeuedMsgs (CTcpSender.run events).2 ++
      (CTcpSender.run events).1.sendMsgs = enqueuedMsgs events
  update : ∀ before after, events = before ++ .update :: after →
    (CTcpSender.run (before ++ [.update])).1.sendMsgs =
      ((CTcpSender.run before).1.sendMsgs.dropWhile Fits).tail

theorem run_concat (events : List SenderEvent) (e : SenderEvent) :
    CTcpSender.run (events ++ [e]) =
      (((CTcpSender.run events).1.step e).1,
        (CTcpSender.run events).2 ++ ((CTcpSender.run events).1.step e).2) :=
  Machine.run_concat _ _ _ _

theorem run_sized (events : List SenderEvent) :
    Sized (CTcpSender.run events).1 := by
  refine Machine.run_invariant (I := fun s _ => Sized s) ?_ ?_ events
  · rfl
  · intro s tr e h
    cases e with
    | sendMsg msg =>
        exact h
    | update =>
        exact (sendLoop_sends h s.sendMsgs).sized

theorem run_sentChunks (events : List SenderEvent) :
    sentChunks (CTcpSender.run events).2 =
      (dequeuedMsgs (CTcpSender.run events).2).filterMap wireOf := by
  induction events using List.reverseRecOn with
  | nil =>
      rfl
  | append_singleton events e ih =>
      rw [run_concat, sentChunks_append, dequeuedMsgs_append,
        List.filterMap_append, ih]
      cases e with
      | sendMsg msg =>
          rfl
      | update =>
          have hloop := sendLoop_sends (run_sized events)
            (CTcpSender.run events).1.sendMsgs
          rw [CTcpSender.step, CTcpSender.sendMsg, hloop.sent,
            hloop.dequeued]

theorem run_order (events : List SenderEvent) :
    dequeuedMsgs (CTcpSender.run events).2 ++
      (CTcpSender.run events).1.sendMsgs = enqueuedMsgs events := by
  induction events using List.reverseRecOn with
  | nil =>
      rfl
  | append_singleton events e ih =>
      rw [run_concat, dequeuedMsgs_append, enqueuedMsgs_append, ← ih,
        List.append_assoc, List.append_assoc]
      cases e with
      | sendMsg msg =>
          rfl
      | update =>
          have hloop := sendLoop_sends (run_sized events)
            (CTcpSender.run events).1.sendMsgs
          rw [CTcpSender.step, CTcpSender.sendMsg, hloop.dequeued,
            hloop.left, taken_append_leftBehind]
          exact congrArg _ (List.append_nil _).symm

/-- The sender writes the wire format and survives messages too long for it. -/
theorem sendsExactly (events : List SenderEvent) : SendsExactly events := by
  constructor
  · rw [run_sentChunks]
    induction dequeuedMsgs (CTcpSender.run events).2 with
    | nil =>
        rfl
    | cons msg msgs ih =>
        cases hwire : wireOf msg with
        | none | some bytes =>
            simp [hwire, ih]
  · exact run_order events
  · rintro before after rfl
    have hloop := sendLoop_sends (run_sized before)
      (CTcpSender.run before).1.sendMsgs
    rw [run_concat, ← List.drop_one]
    exact hloop.left

end Runs

end Unity
end NetEngine
