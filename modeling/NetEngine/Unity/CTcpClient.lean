import NetEngine.Lib.Machine
import NetEngine.Unity.CPacket

/-!
# C_TcpClient: receiving

`GetMsg` runs on a timer.  Each pass of its loop takes what one `Receive`
delivers, puts it into the read buffer and adds at most one message.  A step of
the machine is a pass, so the end of a chunk, of a pass and of a call can fall
anywhere.

A message that is added to `m_recievedMsgs` and an exception that leaves
`GetMsg` are observations.
-/

namespace NetEngine
namespace Unity

open Net IoBuffer CPacket

structure MessageBody where
  size : UInt32
  type : UInt16
  data : List UInt8
deriving DecidableEq

structure CTcpClient where
  readBuffer : IoBuffer
  /-- The loop of `GetMsg` is running. -/
  inGetMsg : Bool := false

inductive ReceiveEvent where
  /-- The timer calls `GetMsg`. -/
  | getMsg
  /-- `Available` is positive and `Receive` delivers the data. -/
  | receive (data : List UInt8)
  /-- `Available` is zero, or `Receive` throws. -/
  | unavailable

inductive ReceiveObservation where
  | received (data : List UInt8)
  | added (msg : MessageBody)
  | threw (e : IoException)
deriving DecidableEq

namespace CTcpClient

def READ_SOCKET_BUFFER_SIZE : Nat := 1024 * 128

/-- A client as its constructor leaves it. -/
def fresh : CTcpClient where
  readBuffer := IoBuffer.allocate READ_SOCKET_BUFFER_SIZE

def getPacketLength : IoOp Int := do
  let buff ← MonadState.get
  if buff.remaining < HEADER_TOTAL_BYTES then
    return -1
  let len ← peekPacketLength
  let buff ← MonadState.get
  if buff.remaining ≥ len + HEADER_LENGTH_BYTES then
    return len
  return -1

/-- `new byte[length]`. -/
def newBytes (length : Int) : IoOp Nat :=
  if length < 0 then throw .overflow else pure length.toNat

/--
The loop's body behind `Receive`: the message it adds and `isFinish`, or nothing
when it leaves the loop before.
-/
def getMsgPass (data : List UInt8) : IoOp (Option (MessageBody × Bool)) := do
  put data
  modify flip
  let len ← getPacketLength
  if len < 0 then
    return none
  let size ← popPacketLength
  let type ← popPacketType
  let length ← newBytes (len - HEADER_TYPE_BYTES)
  let data ← IoBuffer.get length
  let msg : MessageBody :=
    { size := UInt32.ofInt size, type := UInt16.ofInt type, data := data }
  let buff ← MonadState.get
  if buff.hasRemaining then
    set buff.compact
    return some (msg, false)
  else
    set buff.clear
    return some (msg, true)

def step (c : CTcpClient) :
    ReceiveEvent → CTcpClient × List ReceiveObservation
  | .getMsg => ({ c with inGetMsg := true }, [])
  | .receive data =>
      if c.inGetMsg then
        match getMsgPass data c.readBuffer with
        | .ok none buff => (⟨buff, false⟩, [.received data])
        | .ok (some (msg, isFinish)) buff =>
            (⟨buff, ! isFinish⟩, [.received data, .added msg])
        | .error e buff => (⟨buff, false⟩, [.received data, .threw e])
      else (c, [])
  | .unavailable => ({ c with inGetMsg := false }, [])

/-- A fresh client, after a list of events. -/
def run (events : List ReceiveEvent) :
    CTcpClient × List ReceiveObservation :=
  Machine.run step fresh events

end CTcpClient

/-- A message as the server sends it, within the limits of `CPacket`. -/
structure Packet where
  type : UInt16
  payload : List UInt8
  positive : type.toNat < 2 ^ 15
  fits : 2 + payload.length ≤ 65535

namespace Packet

/-- Value of the length field: type and payload. -/
def length (p : Packet) : Nat :=
  2 + p.payload.length

/-- Wire image of a packet. -/
def bytes (p : Packet) : List UInt8 :=
  leBytes 4 p.length ++ (leBytes 2 p.type.toNat ++ p.payload)

theorem bytes_length (p : Packet) : p.bytes.length = p.length + 4 := by
  simp [bytes, length]
  omega

theorem bytes_ne_nil (p : Packet) : p.bytes ≠ [] := by
  intro h
  have hlen := p.bytes_length
  rw [h, List.length_nil] at hlen
  omega

theorem length_bounds (p : Packet) : 2 ≤ p.length ∧ p.length ≤ 65535 :=
  ⟨Nat.le_add_right _ _, p.fits⟩

end Packet

/-- A message shows a packet: same size, type and payload. -/
structure MessageBody.Shows (msg : MessageBody) (p : Packet) : Prop where
  size : msg.size.toNat = p.length
  type : msg.type = p.type
  data : msg.data = p.payload

section Pass

variable {cap : Nat} {buf : IoBuffer} {xs ys data : List UInt8}

theorem getPacketLength_ok {n : Nat}
    (h : Reading cap buf (leBytes 4 n ++ ys)) (hmin : 2 ≤ n)
    (hmax : n ≤ 65535) :
    CTcpClient.getPacketLength buf =
      .ok (if n ≤ ys.length then n else -1) buf := by
  have hremaining := h.remaining
  rw [List.length_append, leBytes_length] at hremaining
  rw [CTcpClient.getPacketLength, IoOp.get_bind, if_neg (by simp),
    IoOp.bind_ok (peekPacketLength_ok h hmin hmax), IoOp.get_bind,
    headerLengthBytes]
  split_ifs with hwhole
  · rfl
  · omega
  · omega
  · rfl

/-- A packet at the front of what is held and received is added. -/
theorem getMsgPass_whole {p : Packet}
    (h : Writing cap buf xs) (hfits : xs.length + data.length ≤ cap)
    (hfront : xs ++ data = p.bytes ++ ys) :
    ∃ buf' msg,
      CTcpClient.getMsgPass data buf =
        .ok (some (msg, decide (ys = []))) buf' ∧
      msg.Shows p ∧ Writing cap buf' ys := by
  obtain ⟨hmin, hmax⟩ := p.length_bounds
  obtain ⟨buf₁, hput, hwriting⟩ := h.put data hfits
  have hreading := hwriting.flip
  rw [hfront, Packet.bytes, List.append_assoc, List.append_assoc]
    at hreading
  have hpacket := getPacketLength_ok hreading hmin hmax
  rw [if_pos (by simp [Packet.length])] at hpacket
  obtain ⟨buf₂, hsize, hreading₂⟩ := popPacketLength_ok hreading hmin hmax
  obtain ⟨buf₃, htype, hreading₃⟩ := popPacketType_ok hreading₂ p.positive
  obtain ⟨buf₄, hget, hreading₄⟩ := hreading₃.get
  have hlength :
      CTcpClient.newBytes (p.length - HEADER_TYPE_BYTES) buf₃ =
        .ok p.payload.length buf₃ := by
    have hnat : (p.length : Int) - HEADER_TYPE_BYTES = p.payload.length := by
      rw [headerTypeBytes, Packet.length]
      omega
    rw [hnat, CTcpClient.newBytes, if_neg (by omega)]
    rfl
  have hflip : (modify flip : IoOp Unit) buf₁ = .ok () buf₁.flip := by
    rfl
  rw [CTcpClient.getMsgPass, IoOp.bind_ok hput, IoOp.bind_ok hflip,
    IoOp.bind_ok hpacket, if_neg (by omega), IoOp.bind_ok hsize,
    IoOp.bind_ok htype, IoOp.bind_ok hlength, IoOp.bind_ok hget,
    IoOp.get_bind]
  have hshows : MessageBody.Shows
      ⟨UInt32.ofInt p.length, UInt16.ofInt p.type.toNat, p.payload⟩ p := by
    refine ⟨?_, ?_, rfl⟩
    · show (UInt32.ofInt _).toNat = _
      simp [UInt32.ofInt]
      omega
    · have hpositive := p.positive
      have hmod : ((p.type.toNat : Int) % 2 ^ 16).toNat = p.type.toNat := by
        omega
      show UInt16.ofInt _ = _
      rw [UInt16.ofInt, hmod, UInt16.ofNat_toNat]
  have hmore := hreading₄.hasRemaining
  split_ifs with hremaining
  · refine ⟨buf₄.compact, _, ?_, hshows, hreading₄.compact⟩
    rw [decide_eq_false (hmore.mp hremaining)]
    rfl
  · have hnil : ys = [] := by
      by_contra hne
      exact hremaining (hmore.mpr hne)
    subst hnil
    exact ⟨buf₄.clear, _, rfl, hshows, writing_clear hreading₄.capacity⟩

/--
A packet that is not all there makes `GetMsg` throw, or leave with the buffer
still set to be read.
-/
theorem getMsgPass_short {p : Packet}
    (h : Writing cap buf xs) (hfits : xs.length + data.length ≤ cap)
    (hpre : xs ++ data <+: p.bytes)
    (hshort : (xs ++ data).length < p.bytes.length) :
    ∃ buf', CTcpClient.getMsgPass data buf = .error .bufferUnderflow buf' ∨
      (CTcpClient.getMsgPass data buf = .ok none buf' ∧
        buf'.limit = (xs ++ data).length) := by
  obtain ⟨hmin, hmax⟩ := p.length_bounds
  obtain ⟨buf₁, hput, hwriting⟩ := h.put data hfits
  have hflip : (modify flip : IoOp Unit) buf₁ = .ok () buf₁.flip := by
    rfl
  have hreading := hwriting.flip
  refine ⟨buf₁.flip, ?_⟩
  rw [CTcpClient.getMsgPass, IoOp.bind_ok hput, IoOp.bind_ok hflip]
  by_cases hheader : (xs ++ data).length < 4
  · left
    have hpeek : CTcpClient.getPacketLength buf₁.flip =
        .error .bufferUnderflow buf₁.flip := by
      rw [CTcpClient.getPacketLength, IoOp.get_bind, if_neg (by simp)]
      exact IoOp.bind_error (peekPacketLength_underflow hreading hheader)
    exact IoOp.bind_error hpeek
  · right
    have hfield : leBytes 4 p.length <+: xs ++ data := by
      refine List.prefix_of_prefix_length_le (List.prefix_append _ _) hpre ?_
      rw [leBytes_length]
      omega
    obtain ⟨tail, htail⟩ := hfield
    have hlen := congrArg List.length htail
    rw [List.length_append, leBytes_length] at hlen
    rw [p.bytes_length] at hshort
    rw [← htail] at hreading
    have hpacket := getPacketLength_ok hreading hmin hmax
    rw [if_neg (by omega)] at hpacket
    refine ⟨?_, hwriting.position⟩
    rw [IoOp.bind_ok hpacket, if_pos (by omega)]
    rfl

end Pass

end Unity
end NetEngine
