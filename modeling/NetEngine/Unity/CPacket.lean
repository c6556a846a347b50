import NetEngine.Unity.IoBuffer

/-!
# CPacket

The static fields of CPacket.cs hold what their initialisers leave, run in the
order of the text: `HEADER_TOTAL_BYTES` is the sum of two fields that are still
zero.  So the tests against it in `SeekShort` and `SeekIntFromBuffer` always
pass, and a length field that is not all there makes `GetInt32` throw.
-/

namespace NetEngine
namespace Unity

open Net IoBuffer

/-- Static fields of `CPacket`, zero before they are initialised. -/
structure CPacketFields where
  HEADER_TOTAL_BYTES : Int := 0
  HEADER_LENGTH_BYTES : Int := 0
  HEADER_TYPE_BYTES : Int := 0
  MIN_MESSAGE_LENGTH : Int := 0
  MAX_MESSAGE_LENGTH : Int := 0

namespace CPacket

/-- The initialisers, in the order of the text. -/
def fields : CPacketFields :=
  let s : CPacketFields := {}
  let s := { s with
    HEADER_TOTAL_BYTES := s.HEADER_LENGTH_BYTES + s.HEADER_TYPE_BYTES }
  let s := { s with HEADER_LENGTH_BYTES := 4 }
  let s := { s with HEADER_TYPE_BYTES := 2 }
  let s := { s with MIN_MESSAGE_LENGTH := 2 }
  { s with MAX_MESSAGE_LENGTH := 65535 }

def HEADER_TOTAL_BYTES : Int := fields.HEADER_TOTAL_BYTES

def HEADER_LENGTH_BYTES : Int := fields.HEADER_LENGTH_BYTES

def HEADER_TYPE_BYTES : Int := fields.HEADER_TYPE_BYTES

def MIN_MESSAGE_LENGTH : Int := fields.MIN_MESSAGE_LENGTH

def MAX_MESSAGE_LENGTH : Int := fields.MAX_MESSAGE_LENGTH

@[simp] theorem headerTotalBytes : HEADER_TOTAL_BYTES = 0 := by
  rfl

@[simp] theorem headerLengthBytes : HEADER_LENGTH_BYTES = 4 := by
  rfl

@[simp] theorem headerTypeBytes : HEADER_TYPE_BYTES = 2 := by
  rfl

@[simp] theorem minMessageLength : MIN_MESSAGE_LENGTH = 2 := by
  rfl

@[simp] theorem maxMessageLength : MAX_MESSAGE_LENGTH = 65535 := by
  rfl

def seekIntFromBuffer (peek : Bool) : IoOp Int := do
  let buf ← MonadState.get
  if buf.remaining ≥ HEADER_TOTAL_BYTES then
    let op := buf.position
    let value ← getInt32
    if peek then
      setPosition op
    if value > MAX_MESSAGE_LENGTH then
      throw (.exception "接收消息标记的长度超过最大限定长度")
    return value
  else
    return -1

def seekShort (peek : Bool) : IoOp Int := do
  let buf ← MonadState.get
  if buf.remaining ≥ HEADER_TOTAL_BYTES then
    let op := buf.position
    let value ← getInt16
    if peek then
      setPosition op
    if value < 0 then
      throw (.exception "IO: 获取到非法数据")
    return value
  else
    return -1

def seekType (peek : Bool) : IoOp Int :=
  seekShort peek

def seekLength (peek : Bool) : IoOp Int := do
  let len ← seekIntFromBuffer peek
  if len ≥ 0 ∧ (len < MIN_MESSAGE_LENGTH ∨ len > MAX_MESSAGE_LENGTH) then
    throw (.exception "包长度错误")
  return len

def peekPacketLength : IoOp Int :=
  seekLength true

def popPacketLength : IoOp Int :=
  seekLength false

def popPacketType : IoOp Int :=
  seekType false

/-- `try … finally`. -/
def withFinally {α : Type} (x : IoOp α) (f : IoOp Unit) : IoOp α := fun buf =>
  match x buf with
  | .ok a buf' => (f >>= fun _ => pure a) buf'
  | .error e buf' => (f >>= fun _ => throw e) buf'

def peekPacketType : IoOp Int := do
  let buf ← MonadState.get
  let pos := buf.position
  withFinally (popPacketLength >>= fun _ => popPacketType) (setPosition pos)

section Fields

variable {buf : IoBuffer}

/-- The length field at the position. -/
def lengthField (buf : IoBuffer) : Int :=
  int32 (buf.hb.readLE buf.position 4)

/-- The type field at the position. -/
def typeField (buf : IoBuffer) : Int :=
  int16 (buf.hb.readLE buf.position 2)

/-- The buffer after a field of `nb` bytes has been looked at. -/
def afterField (peek : Bool) (nb : Nat) (hroom : nb ≤ buf.remaining) :
    IoBuffer :=
  if peek then buf else buf.advance nb hroom

theorem seekIntFromBuffer_short (peek : Bool) (hshort : buf.remaining < 4) :
    seekIntFromBuffer peek buf = .error .bufferUnderflow buf := by
  have hget : getInt32 buf = .error .bufferUnderflow buf :=
    dif_neg (by omega)
  rw [seekIntFromBuffer, IoOp.get_bind, if_pos (by simp)]
  exact IoOp.bind_error hget

/-- A length field that is all there. -/
theorem seekIntFromBuffer_eq (peek : Bool) (hroom : 4 ≤ buf.remaining) :
    seekIntFromBuffer peek buf =
      if lengthField buf > 65535 then
        .error (.exception "接收消息标记的长度超过最大限定长度")
          (afterField peek 4 hroom)
      else .ok (lengthField buf) (afterField peek 4 hroom) := by
  have hget : getInt32 buf = .ok (lengthField buf) (buf.advance 4 hroom) :=
    dif_pos hroom
  rw [seekIntFromBuffer, IoOp.get_bind, if_pos (by simp),
    IoOp.bind_ok hget]
  cases peek with
  | false =>
      dsimp only
      rw [if_neg Bool.false_ne_true, maxMessageLength]
      split_ifs
      · rfl
      · rfl
  | true =>
      dsimp only
      rw [if_pos rfl, IoOp.bind_ok (setPosition_advance hroom),
        maxMessageLength]
      split_ifs
      · rfl
      · rfl

theorem seekLength_short (peek : Bool) (hshort : buf.remaining < 4) :
    seekLength peek buf = .error .bufferUnderflow buf :=
  IoOp.bind_error (seekIntFromBuffer_short peek hshort)

/-- A length above the largest one. -/
theorem seekLength_large
    (peek : Bool) (hroom : 4 ≤ buf.remaining)
    (hlarge : lengthField buf > 65535) :
    seekLength peek buf =
      .error (.exception "接收消息标记的长度超过最大限定长度")
        (afterField peek 4 hroom) := by
  have hseek := seekIntFromBuffer_eq peek hroom
  rw [if_pos hlarge] at hseek
  exact IoOp.bind_error hseek

/-- A length below the smallest one that is not negative. -/
theorem seekLength_small
    (peek : Bool) (hroom : 4 ≤ buf.remaining)
    (hnonneg : 0 ≤ lengthField buf) (hsmall : lengthField buf < 2) :
    seekLength peek buf =
      .error (.exception "包长度错误") (afterField peek 4 hroom) := by
  have hseek := seekIntFromBuffer_eq peek hroom
  rw [if_neg (by omega)] at hseek
  rw [seekLength, IoOp.bind_ok hseek, if_pos]
  · rfl
  · rw [minMessageLength]
    exact ⟨hnonneg, Or.inl hsmall⟩

/-- Every other length is returned, a negative one as well. -/
theorem seekLength_value
    (peek : Bool) (hroom : 4 ≤ buf.remaining)
    (hlarge : lengthField buf ≤ 65535)
    (hsmall : 2 ≤ lengthField buf ∨ lengthField buf < 0) :
    seekLength peek buf =
      .ok (lengthField buf) (afterField peek 4 hroom) := by
  have hseek := seekIntFromBuffer_eq peek hroom
  rw [if_neg (by omega)] at hseek
  rw [seekLength, IoOp.bind_ok hseek, if_neg]
  · rfl
  · rw [minMessageLength, maxMessageLength]
    omega

theorem popPacketType_short (hshort : buf.remaining < 2) :
    popPacketType buf = .error .bufferUnderflow buf := by
  have hget : getInt16 buf = .error .bufferUnderflow buf :=
    dif_neg (by omega)
  rw [popPacketType, seekType, seekShort, IoOp.get_bind, if_pos (by simp)]
  exact IoOp.bind_error hget

theorem popPacketType_eq (hroom : 2 ≤ buf.remaining) :
    popPacketType buf =
      if typeField buf < 0 then
        .error (.exception "IO: 获取到非法数据") (buf.advance 2 hroom)
      else .ok (typeField buf) (buf.advance 2 hroom) := by
  have hget : getInt16 buf = .ok (typeField buf) (buf.advance 2 hroom) :=
    dif_pos hroom
  rw [popPacketType, seekType, seekShort, IoOp.get_bind, if_pos (by simp),
    IoOp.bind_ok hget]
  dsimp only
  rw [if_neg Bool.false_ne_true]
  split_ifs
  · rfl
  · rfl

end Fields

section Reads

variable {cap : Nat} {buf : IoBuffer} {xs ys : List UInt8} {n : Nat}

/-- A length in range is read, and left behind unless it was a peek. -/
theorem seekLength_ok
    (h : Reading cap buf (leBytes 4 n ++ ys)) (hmin : 2 ≤ n)
    (hmax : n ≤ 65535) :
    ∃ hroom : 4 ≤ buf.remaining,
      Reading cap (buf.advance 4 hroom) ys ∧
      ∀ peek, seekLength peek buf =
        .ok n (if peek then buf else buf.advance 4 hroom) := by
  obtain ⟨hroom, hread, hnext⟩ := h.number (by omega)
  have hfield : lengthField buf = n := by
    rw [lengthField, hread, int32_of_bounds (by omega) (by omega)]
  refine ⟨hroom, hnext, fun peek => ?_⟩
  rw [seekLength_value peek hroom (by omega) (by omega), hfield]
  rfl

theorem peekPacketLength_ok
    (h : Reading cap buf (leBytes 4 n ++ ys)) (hmin : 2 ≤ n)
    (hmax : n ≤ 65535) :
    peekPacketLength buf = .ok n buf := by
  obtain ⟨hroom, -, hseek⟩ := seekLength_ok h hmin hmax
  exact hseek true

theorem popPacketLength_ok
    (h : Reading cap buf (leBytes 4 n ++ ys)) (hmin : 2 ≤ n)
    (hmax : n ≤ 65535) :
    ∃ buf', popPacketLength buf = .ok n buf' ∧ Reading cap buf' ys := by
  obtain ⟨hroom, hnext, hseek⟩ := seekLength_ok h hmin hmax
  exact ⟨_, hseek false, hnext⟩

/-- A length field that is not all there is read nevertheless. -/
theorem peekPacketLength_underflow
    (h : Reading cap buf xs) (hshort : xs.length < 4) :
    peekPacketLength buf = .error .bufferUnderflow buf := by
  have hremaining := h.remaining
  exact seekLength_short true (by omega)

theorem popPacketType_ok
    (h : Reading cap buf (leBytes 2 n ++ ys)) (hn : n < 2 ^ 15) :
    ∃ buf', popPacketType buf = .ok n buf' ∧ Reading cap buf' ys := by
  obtain ⟨hroom, hread, hnext⟩ := h.number (by omega)
  have hfield : typeField buf = n := by
    rw [typeField, hread, int16_of_bounds (by omega) (by omega)]
  refine ⟨_, ?_, hnext⟩
  rw [popPacketType_eq hroom, hfield, if_neg (by omega)]

end Reads

end CPacket

end Unity
end NetEngine
