import NetEngine.Unity.CTcpClient

/-!
# C_TcpClient: sending

A pass of the loop of `SendMsg` lays one message out in the send buffer and
hands the bytes to the socket.  A message that the send buffer has no room for
throws before anything is handed over.
-/

namespace NetEngine
namespace Unity

open Net IoBuffer CPacket

namespace CTcpClient

def SEND_SOCKET_BUFFER_SIZE : Nat := 1024 * 10

/-- The loop's body: the bytes that go to `Socket.Send`. -/
def sendMsgPass (msg : MessageBody) : IoOp (List UInt8) := do
  modify clear
  let len := HEADER_TYPE_BYTES + msg.data.length
  putInt32 len
  putInt16 (int16 msg.type.toNat)
  put msg.data
  modify flip
  IoBuffer.get (len + HEADER_LENGTH_BYTES).toNat

end CTcpClient

/-- Bytes of a message on the wire. -/
def wireBytes (msg : MessageBody) : List UInt8 :=
  leBytes 4 (2 + msg.data.length) ++
    (leBytes 2 msg.type.toNat ++ msg.data)

theorem wireBytes_length (msg : MessageBody) :
    (wireBytes msg).length = msg.data.length + 6 := by
  simp [wireBytes]
  omega

section Send

variable {cap : Nat} {buf : IoBuffer}

/-- The header is put into the cleared buffer. -/
theorem sendMsgPass_header (msg : MessageBody) (hcap : buf.capacity = cap)
    (hroom : 6 ≤ cap) :
    ∃ buf', Writing cap buf'
        (leBytes 4 ((2 + msg.data.length) % 2 ^ 32) ++
          leBytes 2 msg.type.toNat) ∧
      CTcpClient.sendMsgPass msg buf =
        (do
          put msg.data
          modify flip
          IoBuffer.get (msg.data.length + 6) : IoOp (List UInt8)) buf' := by
  have hclear : (modify clear : IoOp Unit) buf = .ok () buf.clear := by
    rfl
  have hlen : ((HEADER_TYPE_BYTES + msg.data.length) % 2 ^ 32).toNat =
      (2 + msg.data.length) % 2 ^ 32 := by
    rw [headerTypeBytes]
    omega
  have htype : (int16 msg.type.toNat % 2 ^ 16).toNat = msg.type.toNat := by
    have hlt := msg.type.toNat_lt
    unfold int16
    omega
  have htotal :
      (HEADER_TYPE_BYTES + msg.data.length + HEADER_LENGTH_BYTES).toNat =
        msg.data.length + 6 := by
    rw [headerTypeBytes, headerLengthBytes]
    omega
  obtain ⟨buf₁, hput₁, hwriting₁⟩ :=
    (writing_clear hcap).put
      (leBytes 4 ((2 + msg.data.length) % 2 ^ 32)) (by simp; omega)
  obtain ⟨buf₂, hput₂, hwriting₂⟩ :=
    hwriting₁.put (leBytes 2 msg.type.toNat) (by simp; omega)
  refine ⟨buf₂, hwriting₂, ?_⟩
  rw [CTcpClient.sendMsgPass, IoOp.bind_ok hclear, putInt32, hlen,
    IoOp.bind_ok hput₁, putInt16, htype, IoOp.bind_ok hput₂, htotal]

/-- A message within the send buffer goes out as its wire image. -/
theorem sendMsgPass_ok {msg : MessageBody} (hcap : buf.capacity = cap)
    (hfits : msg.data.length + 6 ≤ cap) (hsmall : cap < 2 ^ 32) :
    ∃ buf', CTcpClient.sendMsgPass msg buf = .ok (wireBytes msg) buf' ∧
      buf'.capacity = cap := by
  obtain ⟨buf₂, hwriting₂, hpass⟩ :=
    sendMsgPass_header msg hcap (by omega)
  rw [Nat.mod_eq_of_lt (by omega)] at hwriting₂
  obtain ⟨buf₃, hput, hwriting₃⟩ := hwriting₂.put msg.data (by simp; omega)
  have hflip : (modify flip : IoOp Unit) buf₃ = .ok () buf₃.flip := by
    rfl
  have hreading := hwriting₃.flip
  rw [List.append_assoc, ← List.append_nil (_ ++ _)] at hreading
  obtain ⟨buf₄, hget, hreading₄⟩ := hreading.get
  refine ⟨buf₄, ?_, hreading₄.capacity⟩
  rw [hpass, IoOp.bind_ok hput, IoOp.bind_ok hflip, ← wireBytes_length]
  exact hget

/-- A longer message throws, and nothing goes out. -/
theorem sendMsgPass_overflow {msg : MessageBody} (hcap : buf.capacity = cap)
    (hroom : 6 ≤ cap) (hover : cap < msg.data.length + 6) :
    ∃ buf', CTcpClient.sendMsgPass msg buf = .error .overflow buf' ∧
      buf'.capacity = cap := by
  obtain ⟨buf₂, hwriting₂, hpass⟩ := sendMsgPass_header msg hcap hroom
  refine ⟨buf₂, ?_, hwriting₂.capacity⟩
  rw [hpass]
  exact IoOp.bind_error (hwriting₂.put_overflow msg.data (by simp; omega))

/-- What goes out without a throw is the wire image of a short message. -/
theorem sent_eq_wireBytes {msg : MessageBody} {buf' : IoBuffer}
    {wire : List UInt8}
    (hcap : buf.capacity = CTcpClient.SEND_SOCKET_BUFFER_SIZE)
    (hsend : CTcpClient.sendMsgPass msg buf = .ok wire buf') :
    wire = wireBytes msg ∧
      msg.data.length + 6 ≤ CTcpClient.SEND_SOCKET_BUFFER_SIZE := by
  by_cases hfits : msg.data.length + 6 ≤ CTcpClient.SEND_SOCKET_BUFFER_SIZE
  · obtain ⟨buf₁, hok, -⟩ := sendMsgPass_ok hcap hfits (by decide)
    rw [hok] at hsend
    cases hsend
    exact ⟨rfl, hfits⟩
  · obtain ⟨buf₁, hover, -⟩ :=
      sendMsgPass_overflow hcap (by decide) (Nat.lt_of_not_le hfits)
    rw [hover] at hsend
    cases hsend

end Send

end Unity
end NetEngine
