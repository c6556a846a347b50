import NetEngine.Net.TCPClient

/-!
# Calls of TCPClient::Recv

What the loop hands on when `m_buffer_msg` is as the constructor left it: a
message for each four bytes as long as six are there.  So after `n` received
bytes there have been `(n - 2) / 4` messages, whatever the bytes are, and the
`n` bytes have left `n - 4 * ((n - 2) / 4)` behind (`ClientInv`).
-/

namespace NetEngine
namespace Net

section Loop

/-- Nothing was written behind `m_buffer_recv`. -/
def Unwritten (c : TCPClient) : Prop :=
  ∀ i, RECV_BUFFER_SIZE ≤ i → c.memory i = 0

def messageOf : ClientObservation → Option MessageBody
  | .message body => some body
  | .access _ _ _ => none

/-- Messages handed to `OnMessageProc`, in order. -/
def messagesOf (tr : List ClientObservation) : List MessageBody :=
  tr.filterMap messageOf

/-- Every access stays inside the buffer it is to. -/
def InBounds (tr : List ClientObservation) : Prop :=
  ∀ buffer start count, .access buffer start count ∈ tr →
    start + count ≤ buffer.size

@[simp] theorem messagesOf_append (tr out : List ClientObservation) :
    messagesOf (tr ++ out) = messagesOf tr ++ messagesOf out :=
  List.filterMap_append

theorem InBounds.append {tr out : List ClientObservation}
    (h : InBounds tr) (hout : InBounds out) :
    InBounds (tr ++ out) := by
  intro buffer start count hmem
  rcases List.mem_append.mp hmem with hmem | hmem
  · exact h buffer start count hmem
  · exact hout buffer start count hmem

/-- The client after a message has been dropped. -/
def dropFour (c : TCPClient) : TCPClient :=
  { memory := c.memory.move 0 4 4, lastPos := c.lastPos - 4 }

/-- The message at the front and the accesses it takes. -/
def passOut (c : TCPClient) (n : Nat) : List ClientObservation :=
  [.access .m_buffer_msg 0 4, .access .m_buffer_recv 0 n,
    .access .m_buffer_recv 4 4, .access .m_buffer_recv 0 4,
    .message (MessageBody.ofBytes c.memory n)]

theorem Unwritten.dropFour {c : TCPClient} (h : Unwritten c) :
    Unwritten (dropFour c) := by
  intro i hi
  have hfar : ¬ (0 ≤ i ∧ i < 0 + 4) := by
    rw [RECV_BUFFER_SIZE] at hi
    omega
  show c.memory.move 0 4 4 i = 0
  rw [Memory.move, if_neg hfar]
  exact h i hi

/-- The length field of a buffer of zeros. -/
theorem Unwritten.length_zero {c : TCPClient} (h : Unwritten c) :
    int32 (c.memory.readLE ClientBuffer.m_buffer_msg.address
      MessageBody.HEADER_LEN_BYTES) = 0 := by
  have hcell : ∀ i, c.memory (RECV_BUFFER_SIZE + i) = 0 := fun i =>
    h _ (Nat.le_add_right _ _)
  have hread : c.memory.readLE ClientBuffer.m_buffer_msg.address
      MessageBody.HEADER_LEN_BYTES = 0 := by
    simp [Memory.readLE, Memory.read, ClientBuffer.address, hcell,
      MessageBody.HEADER_LEN_BYTES, List.range_succ, leValue]
  rw [hread]
  rfl

theorem extract_pass
    {c : TCPClient} {n : Nat} (h : Unwritten c) (hpos : c.lastPos = n)
    (hn : 6 ≤ n) (hsmall : n < MessageBody.SIZEOF) :
    TCPClient.extract c = (.message (dropFour c), passOut c n) := by
  have hheader : ¬ c.lastPos < MessageBody.HEADER_SIZE := by
    rw [hpos]
    simp only [MessageBody.HEADER_SIZE, MessageBody.HEADER_LEN_BYTES,
      MessageBody.HEADER_TYPE_BYTES]
    omega
  have hfour : int32 (0 + MessageBody.HEADER_LEN_BYTES) = 4 := by
    rfl
  have hpackage : c.getPackageLength =
      (0, [.access .m_buffer_msg 0 4]) := by
    simp only [TCPClient.getPackageLength, if_neg hheader, h.length_zero,
      hfour]
    rw [if_pos (by omega)]
    rfl
  have hcopy : ¬ (MessageBody.SIZEOF : Int) ≤ c.lastPos := by
    omega
  have hclamp : ¬ (4 : Int) > c.lastPos := by
    omega
  have hnat : c.lastPos.toNat = n := by
    omega
  simp only [TCPClient.extract, if_neg hheader, hpackage, if_neg hcopy,
    hfour, if_neg hclamp, hnat]
  rfl

theorem recvLoop_stop
    {c : TCPClient} (hpos : c.lastPos < 6) (fuel : Nat) :
    TCPClient.recvLoop fuel c = (some c, []) := by
  cases fuel with
  | zero =>
      rfl
  | succ fuel =>
      have hleave : TCPClient.extract c = (.leave, []) :=
        if_pos hpos
      rw [TCPClient.recvLoop, hleave]

theorem recvLoop_pass
    {c : TCPClient} {n : Nat} (h : Unwritten c) (hpos : c.lastPos = n)
    (hn : 6 ≤ n) (hsmall : n < MessageBody.SIZEOF) (fuel : Nat) :
    TCPClient.recvLoop (fuel + 1) c =
      ((TCPClient.recvLoop fuel (dropFour c)).1,
        passOut c n ++ (TCPClient.recvLoop fuel (dropFour c)).2) := by
  have hmore : ¬ (dropFour c).lastPos ≤ 0 := by
    show ¬ c.lastPos - 4 ≤ 0
    omega
  rw [TCPClient.recvLoop, extract_pass h hpos hn hsmall]
  simp only [if_neg hmore]

/-- The loop hands on one message for each four bytes above the last two. -/
theorem recvLoop_count
    {c : TCPClient} {n : Nat} (h : Unwritten c) (hpos : c.lastPos = n)
    (hsmall : n < MessageBody.SIZEOF) (fuel : Nat) (hfuel : n ≤ fuel) :
    ∃ c' out, TCPClient.recvLoop fuel c = (some c', out) ∧
      Unwritten c' ∧ c'.lastPos = n - 4 * ((n - 2) / 4 : Nat) ∧
      (messagesOf out).length = (n - 2) / 4 := by
  induction fuel generalizing c n with
  | zero =>
      refine ⟨c, [], rfl, h, ?_, ?_⟩
      · rw [hpos, Nat.le_zero.mp hfuel]
        rfl
      · rw [Nat.le_zero.mp hfuel]
        rfl
  | succ fuel ih =>
      by_cases hn : 6 ≤ n
      · have hpos' : (dropFour c).lastPos = (n - 4 : Nat) := by
          show c.lastPos - 4 = _
          omega
        obtain ⟨c', out, hloop, hun, hlast, hcount⟩ :=
          ih h.dropFour hpos' (by omega) (by omega)
        refine ⟨c', passOut c n ++ out, ?_, hun, ?_, ?_⟩
        · rw [recvLoop_pass h hpos hn hsmall, hloop]
        · rw [hlast]
          omega
        · rw [messagesOf_append, List.length_append, hcount]
          show 1 + _ = _
          omega
      · refine ⟨c, [], recvLoop_stop (by omega) _, h, ?_, ?_⟩
        · rw [hpos]
          omega
        · show 0 = _
          omega

/-- A loop that finds 6 to 9 bytes hands on one message. -/
theorem recvLoop_one
    {c : TCPClient} {n : Nat} (h : Unwritten c) (hpos : c.lastPos = n)
    (hlow : 6 ≤ n) (hhigh : n ≤ 9) {fuel : Nat} (hfuel : n ≤ fuel) :
    (TCPClient.recvLoop fuel c).2 = passOut c n := by
  cases fuel with
  | zero =>
      omega
  | succ fuel =>
      have hstop : (dropFour c).lastPos < 6 := by
        show c.lastPos - 4 < 6
        omega
      rw [recvLoop_pass h hpos hlow
        (by rw [MessageBody.SIZEOF]; omega), recvLoop_stop hstop]
      exact List.append_nil _

/-- A loop that finds 10 to 13 bytes hands on two messages. -/
theorem recvLoop_two
    {c : TCPClient} {n : Nat} (h : Unwritten c) (hpos : c.lastPos = n)
    (hlow : 10 ≤ n) (hhigh : n ≤ 13) {fuel : Nat} (hfuel : n ≤ fuel) :
    (TCPClient.recvLoop fuel c).2 =
      passOut c n ++ passOut (dropFour c) (n - 4) := by
  cases fuel with
  | zero =>
      omega
  | succ fuel =>
      have hpos' : (dropFour c).lastPos = (n - 4 : Nat) := by
        show c.lastPos - 4 = _
        omega
      rw [recvLoop_pass h hpos (by omega)
        (by rw [MessageBody.SIZEOF]; omega)]
      show _ ++ (TCPClient.recvLoop fuel (dropFour c)).2 = _
      rw [recvLoop_one h.dropFour hpos' (by omega) (by omega) (by omega)]

theorem inBounds_passOut {c : TCPClient} {n : Nat}
    (h : n ≤ RECV_BUFFER_SIZE) : InBounds (passOut c n) := by
  intro buffer start count hmem
  simp only [passOut, List.mem_cons, ClientObservation.access.injEq,
    reduceCtorEq, List.not_mem_nil, or_false] at hmem
  rcases hmem with ⟨rfl, rfl, rfl⟩ | ⟨rfl, rfl, rfl⟩ | ⟨rfl, rfl, rfl⟩ |
    ⟨rfl, rfl, rfl⟩
  · decide
  · rw [Nat.zero_add]
    exact h
  · decide
  · decide

end Loop

section Calls

/-- The client after the bytes of a call have been stored. -/
def storeChunk (c : TCPClient) (chunk : List UInt8) : TCPClient :=
  { memory := c.memory.store 0 chunk, lastPos := c.lastPos + chunk.length }

/-- A chunk is stored and the loop runs. -/
theorem recv_loop
    (c : TCPClient) {chunk : List UInt8} (hne : chunk ≠ []) :
    c.recv (some chunk) =
      ((TCPClient.recvLoop (storeChunk c chunk).lastPos.toNat
          (storeChunk c chunk)).1.map
            (fun left => ((chunk.length : Int), left)),
        .access .m_buffer_recv 0 chunk.length ::
          (TCPClient.recvLoop (storeChunk c chunk).lastPos.toNat
            (storeChunk c chunk)).2) := by
  have hpos : ¬ (chunk.length : Int) ≤ 0 := by
    have hlen := List.length_pos_iff.mpr hne
    omega
  simp only [TCPClient.recv, if_neg hpos]
  rfl

/-- So a call leaves what the loop leaves. -/
theorem receive_loop
    (c : TCPClient) {chunk : List UInt8} (hne : chunk ≠ []) :
    TCPClient.receive (some c) chunk =
      ((TCPClient.recvLoop (storeChunk c chunk).lastPos.toNat
          (storeChunk c chunk)).1,
        .access .m_buffer_recv 0 chunk.length ::
          (TCPClient.recvLoop (storeChunk c chunk).lastPos.toNat
            (storeChunk c chunk)).2) := by
  simp only [TCPClient.receive, recv_loop c hne, Option.map_map]
  refine Prod.ext ?_ rfl
  show Option.map (fun a => a) _ = _
  exact Option.map_id'

/-- What every run of calls preserves; `n` bytes have been received. -/
structure ClientInv (n : Nat) (st : Option TCPClient)
    (tr : List ClientObservation) : Prop where
  client : ∃ c, st = some c ∧ Unwritten c ∧
    c.lastPos = n - 4 * ((n - 2) / 4 : Nat) ∧
    (n ≤ 5 → ∀ i, n ≤ i → c.memory i = 0)
  count : (messagesOf tr).length = (n - 2) / 4

theorem clientInv_init : ClientInv 0 (some {}) [] :=
  ⟨⟨{}, rfl, fun _ _ => rfl, rfl, fun _ _ _ => rfl⟩, rfl⟩

theorem storeChunk_apply
    (c : TCPClient) (chunk : List UInt8) (i : Nat) :
    (storeChunk c chunk).memory i = (chunk[i]?).getD (c.memory i) := by
  rfl

theorem storeChunk_of_le
    (c : TCPClient) {chunk : List UInt8} {i : Nat} (h : chunk.length ≤ i) :
    (storeChunk c chunk).memory i = c.memory i := by
  rw [storeChunk_apply, List.getElem?_eq_none h]
  rfl

theorem Unwritten.storeChunk
    {c : TCPClient} (h : Unwritten c) {chunk : List UInt8}
    (hlen : chunk.length ≤ RECV_BUFFER_SIZE) :
    Unwritten (storeChunk c chunk) := by
  intro i hi
  rw [storeChunk_of_le c (by omega)]
  exact h i hi

theorem ClientInv.step
    {n : Nat} {st : Option TCPClient} {tr : List ClientObservation}
    (h : ClientInv n st tr) {chunk : List UInt8} (hne : chunk ≠ [])
    (hlen : chunk.length ≤ RECV_BUFFER_SIZE) :
    ClientInv (n + chunk.length) (TCPClient.receive st chunk).1
      (tr ++ (TCPClient.receive st chunk).2) := by
  obtain ⟨c, rfl, hun, hpos, hzero⟩ := h.client
  have hpos₁ : (storeChunk c chunk).lastPos =
      (n - 4 * ((n - 2) / 4) + chunk.length : Nat) := by
    show c.lastPos + (chunk.length : Int) = _
    omega
  rw [RECV_BUFFER_SIZE] at hlen
  obtain ⟨c', out, hloop, hun', hpos', hcount⟩ :=
    recvLoop_count (hun.storeChunk hlen) hpos₁
      (by rw [MessageBody.SIZEOF]; omega)
      (storeChunk c chunk).lastPos.toNat (by omega)
  have hpositive := List.length_pos_iff.mpr hne
  rw [receive_loop c hne, hloop]
  refine ⟨⟨c', rfl, hun', ?_, fun hshort i hi => ?_⟩, ?_⟩
  · omega
  · have hstop : (storeChunk c chunk).lastPos < 6 := by
      omega
    rw [recvLoop_stop hstop] at hloop
    cases hloop
    rw [storeChunk_of_le c (by omega)]
    exact hzero (by omega) i (by omega)
  · rw [messagesOf_append, List.length_append, h.count]
    show _ + (messagesOf out).length = _
    omega

end Calls

end Net
end NetEngine
