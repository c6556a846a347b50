import NetEngine.Lib.Machine
import NetEngine.Net.SendBuffer

/-!
# SendImm

`SendImm` hands what the send buffer holds to the system call `send` and then
empties the buffer, whatever `send` returned.  The kernel takes as many bytes as
it has room for, or none at all when it fails.

So the bytes of accepted messages reach the kernel in order and without a gap
exactly as long as every `send` takes all it is given (`nothingLost_iff`).
-/

namespace NetEngine
namespace Net

/-- `MessageBody::GetSize`: the bytes that a message has on the wire. -/
def MessageBody.getSize (body : MessageBody) : Int :=
  int32 ((body.size.toNat : Int) + HEADER_LEN_BYTES)

/-- Wire image of a message. -/
def MessageBody.frame (body : MessageBody) : List UInt8 :=
  body.image.read 0 body.getSize.toNat

structure SendSocket where
  /-- `INVALID_SOCKET != m_sock`. -/
  valid : Bool
  buffer : SendBuffer := {}
  lastSendDT : Int := 0

/-- The system call: what it returns and the bytes that it takes. -/
def kernelSend (room : Option Nat) (bytes : List UInt8) :
    Int × List UInt8 :=
  match room with
  | none => (SOCKET_ERROR, [])
  | some n => ((bytes.take n).length, bytes.take n)

inductive SendEvent where
  | send (header : MessageBody)
  /-- `SendImm()`, with the room that the kernel has. -/
  | sendImm (room : Option Nat)
  /-- `SendImm(header)`. -/
  | sendImmMessage (header : MessageBody) (room : Option Nat)

inductive SendObservation where
  /-- `Send` returned success for a message with these bytes. -/
  | accepted (frame : List UInt8)
  /-- `send` took these bytes. -/
  | sent (bytes : List UInt8)
deriving DecidableEq

namespace SendSocket

/-- `ClientSocket::SendImm()`: its return value, and the bytes taken. -/
def sendImm (ss : SendSocket) (room : Option Nat) :
    Int × SendSocket × List SendObservation :=
  if ss.buffer.lastSendPos > 0 ∧ ss.valid then
    let r := kernelSend room
      (ss.buffer.memory.read 0 ss.buffer.lastSendPos.toNat)
    (r.1,
      { ss with
        buffer := { ss.buffer with lastSendPos := 0, sendBuffFullCount := 0 }
        lastSendDT := 0 },
      [.sent r.2])
  else (0, ss, [])

/-- `ClientSocket::Send`; nothing when it faults. -/
def sendStep (ss : SendSocket) (header : MessageBody) :
    Option SendSocket × List SendObservation :=
  match ss.buffer.send header with
  | none => (none, [])
  | some (ret, buffer) =>
      (some { ss with buffer := buffer },
        if ret = SOCKET_ERROR then [] else [.accepted header.frame])

/-- One call; nothing happens after a fault. -/
def step (st : Option SendSocket) (e : SendEvent) :
    Option SendSocket × List SendObservation :=
  match st, e with
  | none, _ => (none, [])
  | some ss, .send header => ss.sendStep header
  | some ss, .sendImm room =>
      (some (ss.sendImm room).2.1, (ss.sendImm room).2.2)
  | some ss, .sendImmMessage header room =>
      let r := ss.sendStep header
      match r.1 with
      | none => (none, r.2)
      | some ss' =>
          (some (ss'.sendImm room).2.1, r.2 ++ (ss'.sendImm room).2.2)

/-- A new socket, after some calls. -/
def run (valid : Bool) (events : List SendEvent) :
    Option SendSocket × List SendObservation :=
  Machine.run step (some { valid := valid }) events

end SendSocket

section Streams

def acceptedOf : SendObservation → Option (List UInt8)
  | .accepted frame => some frame
  | .sent _ => none

def sentOf : SendObservation → Option (List UInt8)
  | .accepted _ => none
  | .sent bytes => some bytes

/-- Bytes of the messages for which `Send` returned success. -/
def acceptedBytes (tr : List SendObservation) : List UInt8 :=
  (tr.filterMap acceptedOf).flatten

/-- Bytes taken by the kernel. -/
def sentBytes (tr : List SendObservation) : List UInt8 :=
  (tr.filterMap sentOf).flatten

@[simp] theorem acceptedBytes_append (tr out : List SendObservation) :
    acceptedBytes (tr ++ out) = acceptedBytes tr ++ acceptedBytes out := by
  rw [acceptedBytes, List.filterMap_append, List.flatten_append]
  rfl

@[simp] theorem sentBytes_append (tr out : List SendObservation) :
    sentBytes (tr ++ out) = sentBytes tr ++ sentBytes out := by
  rw [sentBytes, List.filterMap_append, List.flatten_append]
  rfl

@[simp] theorem acceptedBytes_accepted (frame : List UInt8) :
    acceptedBytes [.accepted frame] = frame := by
  simp [acceptedBytes, acceptedOf]

@[simp] theorem sentBytes_accepted (frame : List UInt8) :
    sentBytes [.accepted frame] = [] := by
  rfl

@[simp] theorem acceptedBytes_sent (bytes : List UInt8) :
    acceptedBytes [.sent bytes] = [] := by
  rfl

@[simp] theorem sentBytes_sent (bytes : List UInt8) :
    sentBytes [.sent bytes] = bytes := by
  simp [sentBytes, sentOf]

/-- The send buffer holds exactly these bytes. -/
structure SendBuffer.Held (sb : SendBuffer) (bytes : List UInt8) : Prop where
  lastSendPos : sb.lastSendPos = bytes.length
  fits : bytes.length ≤ SEND_BUFFER_SIZE
  holds : sb.memory.Holds 0 bytes

/--
What the kernel took is a beginning of what was accepted, and the rest is in the
send buffer.
-/
def NothingLost (st : Option SendSocket) (tr : List SendObservation) : Prop :=
  ∃ ss rest, st = some ss ∧ acceptedBytes tr = sentBytes tr ++ rest ∧
    ss.buffer.Held rest

/-- `send` takes all that the buffer holds. -/
def SendSocket.Takes (ss : SendSocket) (room : Option Nat) : Prop :=
  ss.buffer.lastSendPos > 0 ∧ ss.valid →
    ∃ n, room = some n ∧ ss.buffer.lastSendPos ≤ n

/-- Neither the length of a message nor the tail behind it leaves `int`. -/
def SendBuffer.Sums (sb : SendBuffer) (header : MessageBody) : Prop :=
  0 ≤ header.getSize ∧ sb.lastSendPos + header.getSize < 2 ^ 31

/-- The lengths and sums of `Send` stay in `int`, and `send` takes all. -/
def TakesAll (st : Option SendSocket) (_ : List SendObservation) :
    SendEvent → Prop
  | .send header => ∀ ss, st = some ss → ss.buffer.Sums header
  | .sendImm room => ∀ ss, st = some ss → ss.Takes room
  | .sendImmMessage header room =>
      ∀ ss, st = some ss → ss.buffer.Sums header ∧
        ∀ ss', (ss.sendStep header).1 = some ss' → ss'.Takes room

end Streams

section Steps

variable {ss : SendSocket} {tr : List SendObservation} {bytes : List UInt8}

theorem MessageBody.getSize_bounds (header : MessageBody) :
    -2 ^ 31 ≤ header.getSize ∧ header.getSize < 2 ^ 31 := by
  unfold getSize int32
  omega

/-- `Send` copies the wire image and goes on by its length. -/
theorem SendBuffer.send_eq
    {sb : SendBuffer} (hpos : 0 ≤ sb.lastSendPos) {header : MessageBody}
    (h : sb.Sums header) :
    sb.send header =
      if sb.lastSendPos + header.getSize ≤ SEND_BUFFER_SIZE then
        some (header.getSize,
          { memory := sb.memory.store sb.lastSendPos.toNat header.frame
            lastSendPos := sb.lastSendPos + header.getSize
            sendBuffFullCount :=
              if sb.lastSendPos + header.getSize = SEND_BUFFER_SIZE
              then sb.sendBuffFullCount + 1 else sb.sendBuffFullCount })
      else
        some (SOCKET_ERROR,
          { sb with sendBuffFullCount := sb.sendBuffFullCount + 1 }) := by
  obtain ⟨hsize, hsum⟩ := h
  have htail : int32 (sb.lastSendPos + header.getSize) =
      sb.lastSendPos + header.getSize := by
    apply int32_of_bounds
    · omega
    · exact hsum
  rw [MessageBody.frame]
  rw [MessageBody.getSize] at htail hsize ⊢
  rw [SendBuffer.send, htail]
  by_cases hroom : sb.lastSendPos +
      int32 ((header.size.toNat : Int) + MessageBody.HEADER_LEN_BYTES) ≤
        SEND_BUFFER_SIZE
  · rw [if_pos hroom, if_pos hroom, if_neg (by omega)]
  · rw [if_neg hroom, if_neg hroom]

/-- A message that is accepted goes behind the bytes held. -/
theorem SendBuffer.Held.send
    {sb : SendBuffer} (h : sb.Held bytes) {header : MessageBody}
    (hsums : sb.Sums header) :
    ∃ ret sb', sb.send header = some (ret, sb') ∧
      sb'.Held (bytes ++
        if ret = SOCKET_ERROR then [] else header.frame) := by
  have hpos := h.lastSendPos
  have hsize := hsums.1
  have hlength : header.frame.length = header.getSize.toNat := by
    rw [MessageBody.frame, Memory.read_length]
  have hsend := SendBuffer.send_eq (by omega) hsums
  by_cases hroom : sb.lastSendPos + header.getSize ≤ SEND_BUFFER_SIZE
  · rw [if_pos hroom] at hsend
    refine ⟨_, _, hsend, ?_⟩
    have hret : header.getSize ≠ SOCKET_ERROR := by
      rw [SOCKET_ERROR]
      omega
    have haddr : sb.lastSendPos.toNat = 0 + bytes.length := by
      omega
    rw [if_neg hret, haddr]
    constructor
    · rw [List.length_append, hlength]
      push_cast
      omega
    · rw [List.length_append, hlength]
      omega
    · exact h.holds.store_append header.frame
  · rw [if_neg hroom] at hsend
    refine ⟨_, _, hsend, ?_⟩
    rw [if_pos rfl, List.append_nil]
    exact ⟨h.lastSendPos, h.fits, h.holds⟩

/--
A message whose length is a negative `int` is copied with that count, and one
that makes the sum wrap passes the test and is copied past the buffer.
-/
theorem SendBuffer.Held.send_eq_none
    {sb : SendBuffer} (h : sb.Held bytes) {header : MessageBody}
    (hsums : ¬ sb.Sums header) :
    sb.send header = none := by
  have hpos := h.lastSendPos
  have hfits := h.fits
  have hbounds := header.getSize_bounds
  have hroom : SEND_BUFFER_SIZE = 10240 := rfl
  rw [SendBuffer.Sums, not_and_or] at hsums
  have htail : int32 (sb.lastSendPos + header.getSize) ≤ SEND_BUFFER_SIZE := by
    unfold int32
    omega
  have hout : header.getSize < 0 ∨
      SEND_BUFFER_SIZE < sb.lastSendPos + header.getSize := by
    omega
  rw [MessageBody.getSize] at htail hout
  rw [SendBuffer.send, if_pos htail, if_pos hout]

/-- `Send` keeps what was accepted together, if it returns. -/
theorem sendStep_nothingLost_iff
    (h : NothingLost (some ss) tr) (header : MessageBody) :
    NothingLost (ss.sendStep header).1 (tr ++ (ss.sendStep header).2) ↔
      ss.buffer.Sums header := by
  obtain ⟨_, rest, hss, hbytes, hheld⟩ := h
  cases hss
  constructor
  · rintro ⟨ss', _, hsome, -⟩
    by_contra hsums
    rw [SendSocket.sendStep, hheld.send_eq_none hsums] at hsome
    cases hsome
  · intro hsums
    obtain ⟨ret, sb', hsend, hheld'⟩ := hheld.send hsums
    rw [SendSocket.sendStep, hsend]
    refine ⟨_, _, rfl, ?_, hheld'⟩
    dsimp only
    split_ifs with hret
    · simp [hbytes]
    · simp [hbytes]

/-- The system call takes everything exactly when it has the room. -/
theorem kernelSend_eq_self_iff (room : Option Nat) (hne : bytes ≠ []) :
    (kernelSend room bytes).2 = bytes ↔
      ∃ n, room = some n ∧ bytes.length ≤ n := by
  cases room with
  | none =>
      simp [kernelSend, hne.symm]
  | some n =>
      simp [kernelSend, List.take_eq_self_iff]

/-- `SendImm` loses nothing exactly when `send` takes everything. -/
theorem sendImm_nothingLost_iff
    (h : NothingLost (some ss) tr) (room : Option Nat) :
    NothingLost (some (ss.sendImm room).2.1)
        (tr ++ (ss.sendImm room).2.2) ↔ ss.Takes room := by
  obtain ⟨_, rest, hss, hbytes, hheld⟩ := h
  cases hss
  have hpos := hheld.lastSendPos
  by_cases hsend : ss.buffer.lastSendPos > 0 ∧ ss.valid
  · have hne : rest ≠ [] := by
      rintro rfl
      simp [hpos] at hsend
    have hread : ss.buffer.memory.read 0 ss.buffer.lastSendPos.toNat =
        rest := by
      rw [hpos, Int.toNat_natCast]
      exact hheld.holds.read_eq
    have htakes : ss.Takes room ↔ (kernelSend room rest).2 = rest := by
      rw [kernelSend_eq_self_iff room hne, SendSocket.Takes, hpos]
      rw [hpos] at hsend
      simp only [Int.ofNat_le, hsend, true_implies, and_self]
    rw [SendSocket.sendImm, if_pos hsend, htakes, hread]
    constructor
    · rintro ⟨_, rest', hsome, hbytes', hheld'⟩
      cases hsome
      -- the buffer is empty, so what was taken must be all that was held
      have hnil : rest' = [] := by
        have hzero := hheld'.lastSendPos
        dsimp only at hzero
        rw [← List.length_eq_zero_iff]
        omega
      rw [hnil, acceptedBytes_append, sentBytes_append, hbytes] at hbytes'
      simpa using hbytes'.symm
    · intro htaken
      refine ⟨_, [], rfl, ?_, ?_⟩
      · simp [hbytes, htaken]
      · exact ⟨rfl, by simp, Memory.holds_nil _ _⟩
  · rw [SendSocket.sendImm, if_neg hsend, List.append_nil]
    constructor
    · intro _ hsend'
      exact absurd hsend' hsend
    · intro _
      exact ⟨_, rest, rfl, hbytes, hheld⟩

/-- One call keeps what was accepted together exactly when it is guarded. -/
theorem step_nothingLost_iff
    {st : Option SendSocket} (h : NothingLost st tr) (e : SendEvent) :
    NothingLost (SendSocket.step st e).1 (tr ++ (SendSocket.step st e).2) ↔
      TakesAll st tr e := by
  obtain ⟨ss, rest, rfl, hbytes, hheld⟩ := id h
  cases e with
  | send header =>
      rw [SendSocket.step, sendStep_nothingLost_iff h header]
      constructor
      · rintro hsums _ ⟨⟩
        exact hsums
      · intro hsums
        exact hsums ss rfl
  | sendImm room =>
      rw [SendSocket.step, sendImm_nothingLost_iff h room]
      constructor
      · rintro htakes _ ⟨⟩
        exact htakes
      · intro htakes
        exact htakes ss rfl
  | sendImmMessage header room =>
      have hsend := sendStep_nothingLost_iff h header
      rw [SendSocket.step]
      cases hr : (ss.sendStep header).1 with
      | none =>
          dsimp only
          constructor
          · rintro ⟨_, _, hnone, -⟩
            cases hnone
          · intro htakes
            obtain ⟨_, _, hnone, -⟩ := hsend.mpr (htakes ss rfl).1
            rw [hr] at hnone
            cases hnone
      | some ss' =>
          rw [hr] at hsend
          dsimp only
          rw [← List.append_assoc]
          -- what `Send` did not fault on is kept for `SendImm` to take
          have hkept : NothingLost (some ss') (tr ++ (ss.sendStep header).2) := by
            apply hsend.mpr
            by_contra hsums
            rw [SendSocket.sendStep, hheld.send_eq_none hsums] at hr
            cases hr
          rw [sendImm_nothingLost_iff hkept room]
          constructor
          · rintro htakes _ ⟨⟩
            refine ⟨hsend.mp hkept, ?_⟩
            intro _ hr'
            rw [hr] at hr'
            cases hr'
            exact htakes
          · intro htakes
            exact (htakes ss rfl).2 ss' hr

end Steps

/--
The bytes of accepted messages reach the kernel in order and without a gap, and
the rest stays in the send buffer, after every call, exactly when no message has
a negative length or makes the tail position overflow, and every `send` takes
all the bytes it is given.
-/
theorem nothingLost_iff (valid : Bool) (events : List SendEvent) :
    (∀ calls, calls <+: events →
        NothingLost (SendSocket.run valid calls).1
          (SendSocket.run valid calls).2) ↔
      Machine.Along SendSocket.step TakesAll (some { valid := valid })
        events := by
  apply Machine.forall_prefix_iff_along
    (I := fun calls => NothingLost (SendSocket.run valid calls).1
      (SendSocket.run valid calls).2)
  · exact ⟨_, [], rfl, rfl, ⟨rfl, by simp, Memory.holds_nil _ _⟩⟩
  · intro calls e hkept
    rw [SendSocket.run, Machine.run_concat]
    exact step_nothingLost_iff hkept e

/-- A message of six bytes on the wire. -/
def sixBytes : MessageBody :=
  { size := 2, type := 3, data := fun _ => 0 }

/-- Behind six bytes the largest length makes the sum negative, and is copied. -/
example :
    (SendSocket.run true
      [.send sixBytes, .send { sixBytes with size := 2147483643 }]).1.isNone := by
  decide

/-- `send` takes three of six bytes, and the other three are gone. -/
theorem sendImm_drops_the_rest :
    ¬ ∀ valid events,
      NothingLost (SendSocket.run valid events).1
        (SendSocket.run valid events).2 := by
  intro h
  obtain ⟨ss, rest, hss, hbytes, hheld⟩ :=
    h true [.send sixBytes, .sendImm (some 3)]
  have hzero : (SendSocket.run true
      [.send sixBytes, .sendImm (some 3)]).1.map (·.buffer.lastSendPos) =
        some 0 := by
    rfl
  rw [hss, Option.map_some, Option.some.injEq, hheld.lastSendPos] at hzero
  have hnil : rest = [] := by
    rw [← List.length_eq_zero_iff]
    omega
  rw [hnil] at hbytes
  have hlength := congrArg List.length hbytes
  revert hlength
  decide

end Net
end NetEngine
