import NetEngine.Net.Message

/-!
# ClientSocket and Cell::Recv

The receiving half of client_socket.cpp and the receive loop of cell.cpp.

`memory` is the object's storage from `m_buffer_msg` on: addresses below
`RECV_BUFFER_SIZE` are the receive buffer and the ones behind it belong to the
next member, which the loop's `memmove` can read.  `int` values are integers
and the one addition that can overflow wraps.

`recv` of the socket is an argument: the bytes it delivered, or nothing when it
failed.  A `memmove` whose count is a negative `int` does not return; such a run
of the loop has no result.
-/

namespace NetEngine
namespace Net

/-- Wrap an integer to the range of a 32-bit `int`. -/
def int32 (x : Int) : Int :=
  (x + 2 ^ 31) % 2 ^ 32 - 2 ^ 31

theorem int32_of_bounds
    {x : Int} (hlow : -2 ^ 31 ≤ x) (hhigh : x < 2 ^ 31) :
    int32 x = x := by
  unfold int32
  omega

structure ClientSocket where
  sockfd : SOCKET
  memory : Memory UInt8 := fun _ => 0
  lastPos : Int := 0

namespace ClientSocket

/-- Length of the message at the front of the buffer, or -1. -/
def getPackageLength (cs : ClientSocket) : Int :=
  if cs.lastPos < MessageBody.HEADER_SIZE then -1
  else
    let len := int32 (cs.memory.readLE 0 MessageBody.HEADER_LEN_BYTES)
    if cs.lastPos ≥ int32 (len + MessageBody.HEADER_LEN_BYTES) then len
    else -1

end ClientSocket

/-- One pass through the body of the extraction loop. -/
inductive Extraction where
  | leave
  | fault
  | message (cs : ClientSocket) (body : MessageBody)

namespace Cell

/-- The extraction loop's body, up to `OnMessageProc`. -/
def extract (cs : ClientSocket) : Extraction :=
  if cs.lastPos < MessageBody.HEADER_SIZE then .leave
  else
    let len := cs.getPackageLength
    if len < 0 then .leave
    else
      let copysize : Nat :=
        if (MessageBody.SIZEOF : Int) ≤ cs.lastPos then MessageBody.SIZEOF
        else cs.lastPos.toNat
      let body := MessageBody.ofBytes cs.memory copysize
      let body_size₀ := int32 (len + MessageBody.HEADER_LEN_BYTES)
      let body_size :=
        if body_size₀ > cs.lastPos then cs.lastPos else body_size₀
      if body_size < 0 then .fault
      else
        .message
          { cs with
            memory := cs.memory.move 0 body_size.toNat body_size.toNat
            lastPos := cs.lastPos - body_size }
          body

/--
The extraction loop.  Every message takes at least its length field out of the
buffer, so `lastPos` rounds are enough.
-/
def recvLoop : Nat → ClientSocket →
    Option (ClientSocket × List MessageBody)
  | 0, cs => some (cs, [])
  | fuel + 1, cs =>
      match extract cs with
      | .leave => some (cs, [])
      | .fault => none
      | .message cs' body =>
          if cs'.lastPos ≤ 0 then some (cs', [body])
          else
            match recvLoop fuel cs' with
            | none => none
            | some (cs'', bodies) => some (cs'', body :: bodies)

/-- What `Cell::Recv` leaves: its return value and the messages it handed on. -/
structure RecvOutcome where
  ret : Int
  client : ClientSocket
  messages : List MessageBody

/-- `Cell::Recv`, given what the system call delivers. -/
def recv (cs : ClientSocket) (result : Option (List UInt8)) :
    Option RecvOutcome :=
  let nLen : Int :=
    match result with
    | some bytes => bytes.length
    | none => -1
  let memory :=
    match result with
    | some bytes => cs.memory.store cs.lastPos.toNat bytes
    | none => cs.memory
  let cs' : ClientSocket :=
    { cs with memory := memory, lastPos := cs.lastPos + nLen }
  if nLen ≤ 0 then some ⟨-1, cs', []⟩
  else
    match recvLoop cs'.lastPos.toNat cs' with
    | none => none
    | some (cs'', messages) => some ⟨nLen, cs'', messages⟩

end Cell

end Net
end NetEngine
