import NetEngine.Lib.Machine
import NetEngine.Net.ClientSocket

/-!
# TCPClient

The receiving half of tcp_client.cpp.  `memory` is the object's storage from
`m_buffer_recv` on, behind which `m_buffer_msg` lies.  What `recv`, `memcpy` and
`memmove` read or write is observed, next to the messages handed to
`OnMessageProc`.

New bytes always land at the start of `m_buffer_recv`, and the length is read
from `m_buffer_msg`, into which nothing is ever written: it is 0, so each pass
of the loop drops four bytes.
-/

namespace NetEngine
namespace Net

/-- The buffers of a `TCPClient`. -/
inductive ClientBuffer where
  | m_buffer_recv
  | m_buffer_msg
deriving DecidableEq

namespace ClientBuffer

def size : ClientBuffer → Nat
  | .m_buffer_recv => RECV_BUFFER_SIZE
  | .m_buffer_msg => RECV_BUFFER_SIZE * 10

/-- Address of a buffer in the storage. -/
def address : ClientBuffer → Nat
  | .m_buffer_recv => 0
  | .m_buffer_msg => RECV_BUFFER_SIZE

end ClientBuffer

/--
The client's two buffers.  A failed `recv` takes 1 from `m_lastPos`, which is not
bounded here: its `int` would overflow after more than 2^31 of them.
-/
structure TCPClient where
  memory : Memory UInt8 := fun _ => 0
  lastPos : Int := 0

inductive ClientObservation where
  /-- A range of a buffer was read or written. -/
  | access (buffer : ClientBuffer) (start count : Nat)
  /-- `OnMessageProc` was called. -/
  | message (body : MessageBody)

/-- One pass through the body of the loop in `Recv`. -/
inductive ClientExtraction where
  | leave
  | fault
  | message (c : TCPClient)

namespace TCPClient

/-- Length of the message at the front of the buffer, or -1. -/
def getPackageLength (c : TCPClient) : Int × List ClientObservation :=
  if c.lastPos < MessageBody.HEADER_SIZE then (-1, [])
  else
    let len := int32 (c.memory.readLE ClientBuffer.m_buffer_msg.address
      MessageBody.HEADER_LEN_BYTES)
    (if c.lastPos ≥ int32 (len + MessageBody.HEADER_LEN_BYTES) then len
      else -1,
      [.access .m_buffer_msg 0 MessageBody.HEADER_LEN_BYTES])

/-- The loop's body, `OnMessageProc` included. -/
def extract (c : TCPClient) : ClientExtraction × List ClientObservation :=
  if c.lastPos < MessageBody.HEADER_SIZE then (.leave, [])
  else
    let len := c.getPackageLength
    if len.1 < 0 then (.leave, len.2)
    else
      let copysize : Nat :=
        if (MessageBody.SIZEOF : Int) ≤ c.lastPos then MessageBody.SIZEOF
        else c.lastPos.toNat
      let body := MessageBody.ofBytes c.memory copysize
      let body_size₀ := int32 (len.1 + MessageBody.HEADER_LEN_BYTES)
      let body_size :=
        if body_size₀ > c.lastPos then c.lastPos else body_size₀
      if body_size < 0 then
        (.fault, len.2 ++ [.access .m_buffer_recv 0 copysize])
      else
        (.message
          { memory := c.memory.move 0 body_size.toNat body_size.toNat
            lastPos := c.lastPos - body_size },
          len.2 ++
            [.access .m_buffer_recv 0 copysize,
              .access .m_buffer_recv body_size.toNat body_size.toNat,
              .access .m_buffer_recv 0 body_size.toNat,
              .message body])

/-- The loop in `Recv`; `lastPos` rounds are enough. -/
def recvLoop : Nat → TCPClient →
    Option TCPClient × List ClientObservation
  | 0, c => (some c, [])
  | fuel + 1, c =>
      let pass := extract c
      match pass.1 with
      | .leave => (some c, pass.2)
      | .fault => (none, pass.2)
      | .message c' =>
          if c'.lastPos ≤ 0 then (some c', pass.2)
          else
            let r := recvLoop fuel c'
            (r.1, pass.2 ++ r.2)

/-- `Recv`, given what the system call delivers. -/
def recv (c : TCPClient) (result : Option (List UInt8)) :
    Option (Int × TCPClient) × List ClientObservation :=
  let nLen : Int :=
    match result with
    | some bytes => bytes.length
    | none => -1
  let memory :=
    match result with
    | some bytes =>
        c.memory.store ClientBuffer.m_buffer_recv.address bytes
    | none => c.memory
  let c' : TCPClient := { memory := memory, lastPos := c.lastPos + nLen }
  let out : List ClientObservation :=
    [.access .m_buffer_recv 0 nLen.toNat]
  if nLen ≤ 0 then (some (-1, c'), out)
  else
    let r := recvLoop c'.lastPos.toNat c'
    (r.1.map (fun c'' => (nLen, c'')), out ++ r.2)

/-- One call per result; nothing happens after a fault. -/
def receive (st : Option TCPClient) (chunk : List UInt8) :
    Option TCPClient × List ClientObservation :=
  match st with
  | none => (none, [])
  | some c =>
      let r := c.recv (some chunk)
      (r.1.map Prod.snd, r.2)

/-- A new client, after some calls. -/
def run (chunks : List (List UInt8)) :
    Option TCPClient × List ClientObservation :=
  Machine.run receive (some {}) chunks

end TCPClient

end Net
end NetEngine
