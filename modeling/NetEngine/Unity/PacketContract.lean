import NetEngine.Unity.CPacket

/-!
# The contract of CPacket

What the comments of CPacket.cs promise of its four functions.  The fields'
order makes `HEADER_TOTAL_BYTES` 0, so a buffer that is too short is read all
the same, and the test in `SeekLength` lets a negative length pass.  On every
other buffer the functions do what they promise.
-/

namespace NetEngine
namespace Unity

open Net IoBuffer CPacket

section Contract

variable {buf : IoBuffer}

/-- The buffer that an operation leaves, whether it returns or throws. -/
def leftBy {α : Type} : EStateM.Result IoException IoBuffer α → IoBuffer
  | .ok _ buf => buf
  | .error _ buf => buf

/-- The exceptions for a length that is not allowed. -/
def LengthError (e : IoException) : Prop :=
  e = .exception "包长度错误" ∨
    e = .exception "接收消息标记的长度超过最大限定长度"

/-- The length is one that a packet may have. -/
def Allowed (len : Int) : Prop :=
  MIN_MESSAGE_LENGTH ≤ len ∧ len ≤ MAX_MESSAGE_LENGTH

/-- What `PeekPacketLength` and `PopPacketLength` promise. -/
structure ReadsLength (op : IoOp Int) (buf : IoBuffer) : Prop where
  short : op buf = .ok (-1) buf ↔
    buf.remaining < HEADER_LENGTH_BYTES + HEADER_TYPE_BYTES
  value : HEADER_LENGTH_BYTES + HEADER_TYPE_BYTES ≤ buf.remaining →
    Allowed (lengthField buf) →
      ∃ buf', op buf = .ok (lengthField buf) buf'
  error : HEADER_LENGTH_BYTES + HEADER_TYPE_BYTES ≤ buf.remaining →
    ¬ Allowed (lengthField buf) →
      ∃ e buf', op buf = .error e buf' ∧ LengthError e

/-- `PopPacketLength` and `PopPacketType` on a frame that is all there. -/
def PopsFrame (buf : IoBuffer) : Prop :=
  ∀ hroom : 4 ≤ buf.remaining,
    2 ≤ lengthField buf → lengthField buf ≤ 65535 →
    4 + lengthField buf ≤ buf.remaining →
    0 ≤ typeField (buf.advance 4 hroom) →
      ∃ buf₁ buf₂, popPacketLength buf = .ok (lengthField buf) buf₁ ∧
        popPacketType buf₁ =
          .ok (typeField (buf.advance 4 hroom)) buf₂ ∧
        buf₂.position = buf.position + 6 ∧ buf₂.limit = buf.limit ∧
        buf₂.hb = buf.hb

/-- What CPacket.cs promises of a buffer at whose position a packet begins. -/
structure Contract (buf : IoBuffer) : Prop where
  fields : CPacket.fields = ⟨0, 4, 2, 2, 65535⟩
  peekLength : ReadsLength peekPacketLength buf
  popLength : ReadsLength popPacketLength buf
  peekLength_keeps : leftBy (peekPacketLength buf) = buf
  peekType_keeps : leftBy (peekPacketType buf) = buf
  popsFrame : PopsFrame buf

/-- The length field of a buffer that is long enough is read as promised. -/
theorem readsLength_of_nonneg
    (peek : Bool) (hroom : 6 ≤ buf.remaining)
    (hnonneg : 0 ≤ lengthField buf) :
    ReadsLength (seekLength peek) buf := by
  have hfour : 4 ≤ buf.remaining := by
    omega
  refine ⟨?_, fun _ hallowed => ?_, fun _ hnot => ?_⟩
  · rw [headerLengthBytes, headerTypeBytes]
    refine ⟨fun hseek => ?_, fun hshort => by omega⟩
    by_cases hlarge : lengthField buf > 65535
    · rw [seekLength_large peek hfour hlarge] at hseek
      cases hseek
    · by_cases hsmall : lengthField buf < 2
      · rw [seekLength_small peek hfour hnonneg hsmall] at hseek
        cases hseek
      · rw [seekLength_value peek hfour (by omega) (by omega)] at hseek
        have hvalue := (EStateM.Result.ok.inj hseek).1
        omega
  · rw [Allowed, minMessageLength, maxMessageLength] at hallowed
    exact ⟨_, seekLength_value peek hfour hallowed.2 (Or.inl hallowed.1)⟩
  · rw [Allowed, minMessageLength, maxMessageLength] at hnot
    by_cases hlarge : lengthField buf > 65535
    · exact ⟨_, _, seekLength_large peek hfour hlarge, Or.inr rfl⟩
    · exact ⟨_, _, seekLength_small peek hfour hnonneg (by omega),
        Or.inl rfl⟩

/-- A buffer of which `PopPacketLength` keeps the promise. -/
theorem nonneg_of_readsLength (h : ReadsLength popPacketLength buf) :
    6 ≤ buf.remaining ∧ 0 ≤ lengthField buf := by
  obtain ⟨hshort, -, herror⟩ := h
  rw [headerLengthBytes, headerTypeBytes] at hshort herror
  have hroom : 6 ≤ buf.remaining := by
    by_contra hless
    have hpop := hshort.mpr (by omega)
    by_cases hfour : 4 ≤ buf.remaining
    · -- whatever is read, the position has moved
      by_cases hlarge : lengthField buf > 65535
      · rw [popPacketLength, seekLength_large false hfour hlarge] at hpop
        cases hpop
      · by_cases hsmall : 0 ≤ lengthField buf ∧ lengthField buf < 2
        · rw [popPacketLength,
            seekLength_small false hfour hsmall.1 hsmall.2] at hpop
          cases hpop
        · rw [popPacketLength,
            seekLength_value false hfour (by omega) (by omega)] at hpop
          have hposition :=
            congrArg IoBuffer.position (EStateM.Result.ok.inj hpop).2
          have hmoved : buf.position + 4 = buf.position := hposition
          omega
    · rw [popPacketLength, seekLength_short false (by omega)] at hpop
      cases hpop
  refine ⟨hroom, ?_⟩
  by_contra hneg
  have hnot : ¬ Allowed (lengthField buf) := by
    rw [Allowed, minMessageLength]
    omega
  obtain ⟨e, buf', hpop, -⟩ := herror (by omega) hnot
  rw [popPacketLength, seekLength_value false (by omega) (by omega)
    (by omega)] at hpop
  cases hpop

end Contract

section Peeks

variable {buf : IoBuffer} {α β : Type}

/-- An operation that only moves the position forward. -/
def Forward (op : IoOp α) : Prop :=
  ∀ buf : IoBuffer, ∃ nb, ∃ h : nb ≤ buf.remaining,
    leftBy (op buf) = buf.advance nb h

theorem forward_bind
    {x : IoOp α} {f : α → IoOp β} (hx : Forward x)
    (hf : ∀ a, Forward (f a)) : Forward (x >>= f) := by
  intro buf
  obtain ⟨nb, hnb, hleft⟩ := hx buf
  cases hresult : x buf with
  | ok a buf₁ =>
      have hbuf : buf₁ = buf.advance nb hnb := by
        rw [← hleft, hresult]
        rfl
      rw [hbuf] at hresult
      obtain ⟨nb', hnb', hleft'⟩ := hf a (buf.advance nb hnb)
      have hroom : nb + nb' ≤ buf.remaining := by
        have hless : nb' ≤ buf.limit - (buf.position + nb) := hnb'
        unfold IoBuffer.remaining at hnb ⊢
        omega
      refine ⟨nb + nb', hroom, ?_⟩
      rw [IoOp.bind_ok hresult, hleft']
      simp only [IoBuffer.advance, Nat.add_assoc]
  | error e buf₁ =>
      rw [hresult] at hleft
      exact ⟨nb, hnb, by rw [IoOp.bind_error hresult]; exact hleft⟩

/-- Going back to the old position gives the old buffer. -/
theorem leftBy_withFinally
    {op : IoOp α} (h : Forward op) (buf : IoBuffer) :
    leftBy (withFinally op (setPosition buf.position) buf) = buf := by
  obtain ⟨nb, hnb, hleft⟩ := h buf
  have hback := setPosition_advance hnb
  rw [withFinally]
  cases hresult : op buf with
  | ok a buf' =>
      have hbuf : buf' = buf.advance nb hnb := by
        rw [← hleft, hresult]
        rfl
      dsimp only
      rw [hbuf, IoOp.bind_ok hback]
      rfl
  | error e buf' =>
      have hbuf : buf' = buf.advance nb hnb := by
        rw [← hleft, hresult]
        rfl
      dsimp only
      rw [hbuf, IoOp.bind_ok hback]
      rfl

/-- What `SeekLength` leaves, whatever the length field is. -/
theorem leftBy_seekLength (peek : Bool) (hroom : 4 ≤ buf.remaining) :
    leftBy (seekLength peek buf) = afterField peek 4 hroom := by
  by_cases hlarge : lengthField buf > 65535
  · rw [seekLength_large peek hroom hlarge]
    rfl
  · by_cases hsmall : 0 ≤ lengthField buf ∧ lengthField buf < 2
    · rw [seekLength_small peek hroom hsmall.1 hsmall.2]
      rfl
    · rw [seekLength_value peek hroom (by omega) (by omega)]
      rfl

theorem forward_popPacketLength : Forward popPacketLength := by
  intro buf
  by_cases hroom : 4 ≤ buf.remaining
  · exact ⟨4, hroom, leftBy_seekLength false hroom⟩
  · refine ⟨0, Nat.zero_le _, ?_⟩
    rw [popPacketLength, seekLength_short false (by omega)]
    rfl

theorem forward_popPacketType : Forward popPacketType := by
  intro buf
  by_cases hroom : 2 ≤ buf.remaining
  · refine ⟨2, hroom, ?_⟩
    rw [popPacketType_eq hroom]
    split_ifs
    · rfl
    · rfl
  · refine ⟨0, Nat.zero_le _, ?_⟩
    rw [popPacketType_short (by omega)]
    rfl

theorem peekPacketLength_keeps (buf : IoBuffer) :
    leftBy (peekPacketLength buf) = buf := by
  by_cases hroom : 4 ≤ buf.remaining
  · exact leftBy_seekLength true hroom
  · rw [peekPacketLength, seekLength_short true (by omega)]
    rfl

theorem peekPacketType_keeps (buf : IoBuffer) :
    leftBy (peekPacketType buf) = buf := by
  rw [peekPacketType, IoOp.get_bind]
  exact leftBy_withFinally
    (forward_bind forward_popPacketLength fun _ => forward_popPacketType) buf

end Peeks

theorem popsFrame (buf : IoBuffer) : PopsFrame buf := by
  intro hroom hmin hmax hframe htype
  have hnext : 2 ≤ (buf.advance 4 hroom).remaining := by
    show 2 ≤ buf.limit - (buf.position + 4)
    unfold IoBuffer.remaining at hframe
    omega
  refine ⟨buf.advance 4 hroom, (buf.advance 4 hroom).advance 2 hnext,
    seekLength_value false hroom hmax (Or.inl hmin), ?_, rfl, rfl, rfl⟩
  rw [popPacketType_eq hnext, if_neg (by omega)]

/--
The contract is kept exactly when a whole header is there and the length in it is
not negative.
-/
theorem contract_iff (buf : IoBuffer) :
    Contract buf ↔ 6 ≤ buf.remaining ∧ 0 ≤ lengthField buf := by
  constructor
  · intro h
    exact nonneg_of_readsLength h.popLength
  · rintro ⟨hroom, hnonneg⟩
    exact ⟨rfl, readsLength_of_nonneg true hroom hnonneg,
      readsLength_of_nonneg false hroom hnonneg, peekPacketLength_keeps buf,
      peekPacketType_keeps buf, popsFrame buf⟩

/-- With nothing to read, `PopPacketLength` throws instead of returning -1. -/
theorem contract_not_empty : ¬ ∀ buf : IoBuffer, Contract buf := by
  intro hall
  have hshort := (hall (IoBuffer.allocate 0)).popLength.short
  rw [headerLengthBytes, headerTypeBytes] at hshort
  have hpop := hshort.mpr (by decide)
  rw [popPacketLength, seekLength_short false (by decide)] at hpop
  cases hpop

end Unity
end NetEngine
