import NetEngine.Net.ClientSocket

/-!
# Send buffer of a ClientSocket

The sending half of client_socket.cpp.  `Send` copies the message record,
byte for byte from its address on, behind what the buffer holds; a message that
does not fit is refused and counted.

The tail position behind the message is the sum of two `int`s, which wraps.  A
`memcpy` whose count is a negative `int`, or that runs past the end of
`m_send_buffer` because the sum has wrapped, does not return; such a call has no
result.
-/

namespace NetEngine
namespace Net

def SEND_BUFFER_SIZE : Nat := 10240

def SOCKET_ERROR : Int := -1

/-- Bytes of a message record, from its address on. -/
def MessageBody.image (body : MessageBody) : Memory UInt8 :=
  let header :=
    leBytes HEADER_LEN_BYTES body.size.toNat ++
      leBytes HEADER_TYPE_BYTES body.type.toNat
  fun i => (header[i]?).getD (body.data (i - HEADER_SIZE))

structure SendBuffer where
  memory : Memory UInt8 := fun _ => 0
  lastSendPos : Int := 0
  sendBuffFullCount : Int := 0

namespace SendBuffer

/-- `ClientSocket::Send`: its return value and the buffer it leaves. -/
def send (sb : SendBuffer) (header : MessageBody) :
    Option (Int × SendBuffer) :=
  let nSendLen :=
    int32 ((header.size.toNat : Int) + MessageBody.HEADER_LEN_BYTES)
  let lastSendPos := int32 (sb.lastSendPos + nSendLen)
  if lastSendPos ≤ SEND_BUFFER_SIZE then
    -- the bytes that `memcpy` writes have to lie in `m_send_buffer`
    if nSendLen < 0 ∨ SEND_BUFFER_SIZE < sb.lastSendPos + nSendLen then none
    else
      some (nSendLen,
        { memory := sb.memory.store sb.lastSendPos.toNat
            (header.image.read 0 nSendLen.toNat)
          lastSendPos := lastSendPos
          sendBuffFullCount :=
            if lastSendPos = SEND_BUFFER_SIZE
            then sb.sendBuffFullCount + 1 else sb.sendBuffFullCount })
  else
    some (SOCKET_ERROR,
      { sb with sendBuffFullCount := sb.sendBuffFullCount + 1 })

/-- A message is accepted when `Send` returns its length. -/
def Accepts (sb : SendBuffer) (header : MessageBody) (len : Nat) : Prop :=
  ∃ sb', sb.send header = some ((len : Int), sb')

/-- An empty buffer accepts the messages that it has room for. -/
theorem accepts_empty_iff
    (header : MessageBody) {n : Nat}
    (hsize : header.size.toNat = n) (hn : n < 2 ^ 30) :
    Accepts {} header (n + MessageBody.HEADER_LEN_BYTES) ↔
      n + MessageBody.HEADER_LEN_BYTES ≤ SEND_BUFFER_SIZE := by
  have hlen :
      int32 ((header.size.toNat : Int) + MessageBody.HEADER_LEN_BYTES) =
        ((n + MessageBody.HEADER_LEN_BYTES : Nat) : Int) := by
    rw [hsize]
    simp only [MessageBody.HEADER_LEN_BYTES]
    push_cast
    apply int32_of_bounds
    · omega
    · omega
  have htail :
      int32 (0 + ((n + MessageBody.HEADER_LEN_BYTES : Nat) : Int)) =
        ((n + MessageBody.HEADER_LEN_BYTES : Nat) : Int) := by
    simp only [MessageBody.HEADER_LEN_BYTES]
    rw [Int.zero_add]
    apply int32_of_bounds
    · omega
    · omega
  simp only [Accepts, send, hlen, htail]
  constructor
  · rintro ⟨sb', h⟩
    by_contra hfull
    rw [if_neg (by omega)] at h
    simp only [Option.some.injEq, Prod.mk.injEq, SOCKET_ERROR] at h
    omega
  · intro hroom
    rw [if_pos (by omega), if_neg (by omega)]
    exact ⟨_, rfl⟩

end SendBuffer

end Net
end NetEngine
