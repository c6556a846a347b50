import NetEngine.Net.SendImm

/-!
# What the send buffer stands for

On a valid socket the first `m_lastSendPos` bytes of `m_send_buffer` are the
wire images of the messages accepted since the last flush, one behind the
other.  A message whose image does not fit is refused and leaves the buffer as
it is.

The wire image is the little-endian length, the little-endian type and the
`size - 2` bytes that the length counts besides the type.  `Send` does not build
it: it copies the record, whose layout is the image.
-/

namespace NetEngine
namespace Net

/-- Wire image of a message, field by field. -/
def MessageBody.wire (body : MessageBody) : List UInt8 :=
  leBytes HEADER_LEN_BYTES body.size.toNat ++
    (leBytes HEADER_TYPE_BYTES body.type.toNat ++
      body.data.read 0 (body.size.toNat - HEADER_TYPE_BYTES))

/-- The length counts the type and at most what the record has room for. -/
def MessageBody.Sized (body : MessageBody) : Prop :=
  HEADER_TYPE_BYTES ≤ body.size.toNat ∧
    body.size.toNat ≤ DATA_SIZE + HEADER_TYPE_BYTES

section Image

variable {body : MessageBody}

theorem MessageBody.Sized.getSize (h : body.Sized) :
    body.getSize = (body.size.toNat : Int) + HEADER_LEN_BYTES := by
  obtain ⟨-, hhigh⟩ := h
  simp only [DATA_SIZE, HEADER_TYPE_BYTES] at hhigh
  apply int32_of_bounds
  · omega
  · simp only [HEADER_LEN_BYTES]
    omega

/-- Behind what the buffer holds there is no overflow at these lengths. -/
theorem SendBuffer.Held.sums
    {sb : SendBuffer} {bytes : List UInt8} (h : sb.Held bytes)
    (hsized : body.Sized) :
    sb.Sums body := by
  have hpos := h.lastSendPos
  have hfits := h.fits
  have hhigh := hsized.2
  simp only [MessageBody.DATA_SIZE, MessageBody.HEADER_TYPE_BYTES] at hhigh
  simp only [SEND_BUFFER_SIZE] at hfits
  rw [SendBuffer.Sums, hsized.getSize, MessageBody.HEADER_LEN_BYTES]
  constructor
  · omega
  · omega

theorem MessageBody.Sized.wire_length (h : body.Sized) :
    body.wire.length = body.size.toNat + HEADER_LEN_BYTES := by
  obtain ⟨hlow, -⟩ := h
  simp only [wire, List.length_append, leBytes_length, Memory.read_length,
    HEADER_LEN_BYTES, HEADER_TYPE_BYTES] at hlow ⊢
  omega

/-- The record begins with the wire image. -/
theorem MessageBody.image_holds_wire (body : MessageBody) :
    body.image.Holds 0 body.wire := by
  rw [wire, ← List.append_assoc, Memory.holds_append_iff]
  refine ⟨?_, ?_⟩
  · intro i hi
    have hcell := List.getElem?_eq_getElem hi
    rw [Nat.zero_add, image]
    dsimp only
    rw [hcell, Option.getD_some]
  · intro i hi
    rw [Memory.read_length] at hi
    have hcell := List.getElem?_range hi
    simp [image, Memory.read, HEADER_LEN_BYTES, HEADER_TYPE_BYTES,
      HEADER_SIZE] at hcell ⊢
    exact ⟨i, hcell, rfl⟩

/-- The bytes that `Send` copies are the wire image. -/
theorem MessageBody.Sized.frame_eq_wire (h : body.Sized) :
    body.frame = body.wire := by
  have hread := body.image_holds_wire.read_eq
  rw [h.wire_length] at hread
  rw [frame, h.getSize, ← hread]
  rfl

end Image

section Calls

/-- `Send` is called with messages of a length that the record can have. -/
def SendEvent.Sized : SendEvent → Prop
  | .send header => header.Sized
  | .sendImm _ => True
  | .sendImmMessage header _ => header.Sized

/-- Messages accepted since the last flush, after one more call. -/
def acceptedStep (st : Option SendSocket) (accepted : List MessageBody) :
    SendEvent → List MessageBody
  | .send header =>
      match st.bind (fun ss => ss.buffer.send header) with
      | none => accepted
      | some (ret, _) =>
          if ret = SOCKET_ERROR then accepted else accepted ++ [header]
  | .sendImm _ => []
  | .sendImmMessage _ _ => []

/-- Messages accepted since the last flush. -/
def acceptedSince (valid : Bool) (events : List SendEvent) :
    List MessageBody :=
  (events.foldl
    (fun r e => ((SendSocket.step r.1 e).1, acceptedStep r.1 r.2 e))
    (some { valid := valid }, [])).2

/-- The send buffer holds the images of these messages, and nothing more. -/
structure SendBuffer.Stands (sb : SendBuffer) (accepted : List MessageBody) :
    Prop where
  nonneg : 0 ≤ sb.lastSendPos
  fits : sb.lastSendPos ≤ SEND_BUFFER_SIZE
  image : sb.memory.read 0 sb.lastSendPos.toNat =
    accepted.flatMap MessageBody.wire

/-- `Send` takes a message exactly when its image fits. -/
def SendBuffer.Sends (sb : SendBuffer) (header : MessageBody) : Prop :=
  ∃ ret sb', sb.send header = some (ret, sb') ∧
    if sb.lastSendPos + header.wire.length ≤ SEND_BUFFER_SIZE then
      ret = (header.size.toNat : Int) + 4
    else
      ret = SOCKET_ERROR ∧ sb'.memory = sb.memory ∧
        sb'.lastSendPos = sb.lastSendPos

theorem acceptedSince_fold (valid : Bool) (events : List SendEvent) :
    (events.foldl
      (fun r e => ((SendSocket.step r.1 e).1, acceptedStep r.1 r.2 e))
      (some { valid := valid }, [])) =
      ((SendSocket.run valid events).1, acceptedSince valid events) := by
  refine Prod.ext ?_ rfl
  induction events using List.reverseRecOn with
  | nil =>
      rfl
  | append_singleton events e ih =>
      rw [List.foldl_concat, SendSocket.run, Machine.run_concat]
      exact congrArg (fun st => (SendSocket.step st e).1) ih

/-- One more call continues from the state the others leave. -/
theorem acceptedSince_concat
    (valid : Bool) (events : List SendEvent) (e : SendEvent) :
    acceptedSince valid (events ++ [e]) =
      acceptedStep (SendSocket.run valid events).1
        (acceptedSince valid events) e := by
  rw [acceptedSince, List.foldl_concat, acceptedSince_fold]

end Calls

section Steps

variable {bytes : List UInt8} {header : MessageBody}

/-- `Send` on a buffer that holds some bytes, for a message of any length. -/
theorem SendBuffer.Held.send_eq
    {sb : SendBuffer} (h : sb.Held bytes) (hsized : header.Sized) :
    sb.send header =
      if sb.lastSendPos + header.wire.length ≤ SEND_BUFFER_SIZE then
        some ((header.size.toNat : Int) + 4,
          { memory := sb.memory.store bytes.length header.wire
            lastSendPos := sb.lastSendPos + header.wire.length
            sendBuffFullCount :=
              if sb.lastSendPos + header.wire.length = SEND_BUFFER_SIZE
              then sb.sendBuffFullCount + 1 else sb.sendBuffFullCount })
      else
        some (SOCKET_ERROR,
          { sb with sendBuffFullCount := sb.sendBuffFullCount + 1 }) := by
  have hlength : header.getSize = (header.wire.length : Int) := by
    rw [hsized.getSize, hsized.wire_length]
    push_cast
    rfl
  have hlast := h.lastSendPos
  have hpos : sb.lastSendPos.toNat = bytes.length := by
    rw [hlast, Int.toNat_natCast]
  rw [SendBuffer.send_eq (by omega) (h.sums hsized), hlength,
    hsized.frame_eq_wire, hpos, hsized.wire_length]
  rfl

/-- `Send` returns what it should on every buffer that stands for something. -/
theorem SendBuffer.Held.sends
    {sb : SendBuffer} (h : sb.Held bytes) (hsized : header.Sized) :
    sb.Sends header := by
  have hsend := h.send_eq hsized
  by_cases hroom : sb.lastSendPos + header.wire.length ≤ SEND_BUFFER_SIZE
  · rw [if_pos hroom] at hsend
    refine ⟨_, _, hsend, ?_⟩
    rw [if_pos hroom]
  · rw [if_neg hroom] at hsend
    refine ⟨_, _, hsend, ?_⟩
    rw [if_neg hroom]
    exact ⟨rfl, rfl, rfl⟩

/-- Images of accepted messages follow one another. -/
theorem sendStep_held
    {ss : SendSocket} {accepted : List MessageBody}
    (h : ss.buffer.Held (accepted.flatMap MessageBody.wire))
    (hsized : header.Sized) :
    ∃ ss', (ss.sendStep header).1 = some ss' ∧ ss'.valid = ss.valid ∧
      ss'.buffer.Held
        ((acceptedStep (some ss) accepted (.send header)).flatMap
          MessageBody.wire) := by
  obtain ⟨ret, sb', hsend, hheld⟩ := h.send (h.sums hsized)
  rw [SendSocket.sendStep, hsend]
  refine ⟨_, rfl, rfl, ?_⟩
  rw [hsized.frame_eq_wire] at hheld
  simp only [acceptedStep, Option.bind_some, hsend]
  split_ifs at hheld ⊢ with hret
  · simpa using hheld
  · simpa using hheld

/-- A flush on a valid socket leaves an empty buffer. -/
theorem sendImm_held
    {ss : SendSocket} (h : ss.buffer.Held bytes) (hvalid : ss.valid = true)
    (room : Option Nat) :
    (ss.sendImm room).2.1.valid = true ∧
      (ss.sendImm room).2.1.buffer.Held [] := by
  by_cases hpos : ss.buffer.lastSendPos > 0
  · rw [SendSocket.sendImm, if_pos ⟨hpos, hvalid⟩]
    exact ⟨hvalid, rfl, Nat.zero_le _, Memory.holds_nil _ _⟩
  · have hlast := h.lastSendPos
    rw [SendSocket.sendImm, if_neg (fun hsend => hpos hsend.1)]
    refine ⟨hvalid, ?_, Nat.zero_le _, Memory.holds_nil _ _⟩
    show ss.buffer.lastSendPos = 0
    omega

/-- The socket is valid and its buffer holds the images of these messages. -/
def Represents (st : Option SendSocket) (accepted : List MessageBody) : Prop :=
  ∃ ss, st = some ss ∧ ss.valid = true ∧
    ss.buffer.Held (accepted.flatMap MessageBody.wire)

theorem step_represents
    {st : Option SendSocket} {accepted : List MessageBody}
    (h : Represents st accepted) {e : SendEvent} (hsized : e.Sized) :
    Represents (SendSocket.step st e).1 (acceptedStep st accepted e) := by
  obtain ⟨ss, rfl, hvalid, hheld⟩ := h
  cases e with
  | send header =>
      obtain ⟨ss', hstep, hvalid', hheld'⟩ := sendStep_held hheld hsized
      exact ⟨ss', hstep, hvalid'.trans hvalid, hheld'⟩
  | sendImm room =>
      obtain ⟨hvalid', hheld'⟩ := sendImm_held hheld hvalid room
      exact ⟨_, rfl, hvalid', hheld'⟩
  | sendImmMessage header room =>
      obtain ⟨ss', hstep, hvalid', hheld'⟩ := sendStep_held hheld hsized
      obtain ⟨hvalid'', hheld''⟩ :=
        sendImm_held hheld' (hvalid'.trans hvalid) room
      refine ⟨(ss'.sendImm room).2.1, ?_, hvalid'', hheld''⟩
      rw [SendSocket.step, hstep]

theorem run_represents
    {events : List SendEvent} (h : ∀ e ∈ events, e.Sized) :
    Represents (SendSocket.run true events).1 (acceptedSince true events) := by
  induction events using List.reverseRecOn with
  | nil =>
      exact ⟨_, rfl, rfl, rfl, Nat.zero_le _, Memory.holds_nil _ _⟩
  | append_singleton events e ih =>
      have hold := ih fun e' he' => h e' (List.mem_append_left _ he')
      rw [acceptedSince_concat, SendSocket.run, Machine.run_concat]
      exact step_represents hold
        (h e (List.mem_append_right _ List.mem_cons_self))

theorem SendBuffer.Held.stands
    {sb : SendBuffer} {accepted : List MessageBody}
    (h : sb.Held (accepted.flatMap MessageBody.wire)) :
    sb.Stands accepted := by
  have hpos := h.lastSendPos
  have hfits := h.fits
  refine ⟨by omega, by omega, ?_⟩
  rw [hpos, Int.toNat_natCast]
  exact h.holds.read_eq

end Steps

/--
On a valid socket, after any calls with messages of lengths that the record can
have, the send buffer stands for the messages accepted since the last flush,
and `Send` takes the next message exactly when its image fits.
-/
theorem sendBuffer_stands
    {events : List SendEvent} (h : ∀ e ∈ events, e.Sized) :
    ∃ ss, (SendSocket.run true events).1 = some ss ∧
      ss.buffer.Stands (acceptedSince true events) ∧
      ∀ header : MessageBody, header.Sized → ss.buffer.Sends header := by
  obtain ⟨ss, hrun, -, hheld⟩ := run_represents h
  exact ⟨ss, hrun, hheld.stands, fun header => hheld.sends⟩

theorem sixBytes_sized : sixBytes.Sized := by
  simp [MessageBody.Sized, sixBytes, MessageBody.HEADER_TYPE_BYTES,
    MessageBody.DATA_SIZE]

/-- One message, a flush that the kernel cuts short, and another message. -/
theorem sendBuffer_stands_six :
    ∃ ss, (SendSocket.run true
        [.send sixBytes, .sendImm (some 3), .send sixBytes]).1 = some ss ∧
      ss.buffer.Stands (acceptedSince true
        [.send sixBytes, .sendImm (some 3), .send sixBytes]) ∧
      ∀ header : MessageBody, header.Sized → ss.buffer.Sends header := by
  apply sendBuffer_stands
  simp [SendEvent.Sized, sixBytes_sized]

end Net
end NetEngine
