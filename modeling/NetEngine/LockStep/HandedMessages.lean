import NetEngine.LockStep.Proto
import NetEngine.Net.RecvSafety
import NetEngine.Net.SendBuffer

/-!
# Messages that reach the handlers

A message takes the bytes that its length field counts, and four more, out of
the buffer.  Its header is six bytes in any case, so a length of 0 or 1 leaves a
part of the header in the buffer for the next message, and the handlers compute
a negative payload size from it.

Whatever the byte stream and its chunks are, the messages handed on are well
formed exactly when every length field that a message is taken out with counts
the type's two bytes (`handed_wellFormed_iff`).
-/

namespace NetEngine
namespace LockStep

open Net

/-- Addresses that a message's header and payload are read from. -/
def Covers (body : MessageBody) (i : Nat) : Prop :=
  i < MessageBody.HEADER_SIZE ∨
    i < body.size.toNat + MessageBody.HEADER_LEN_BYTES

/-- Where the cells of the buffer were before `size` cells were moved down. -/
def origin (size : Nat) : Memory Nat :=
  Memory.move (fun i => i) 0 size size

/-- A message taken out of the buffer `p`, leaving the buffer `q`. -/
structure WellFormed (p : ClientSocket) (body : MessageBody)
    (q : ClientSocket) : Prop where
  size : MessageBody.HEADER_TYPE_BYTES ≤ body.size.toNat
  removed : p.lastPos =
    body.size.toNat + MessageBody.HEADER_LEN_BYTES + q.lastPos
  /-- The record shows the bytes that it covers. -/
  record : ∀ i, Covers body i → body.image i = p.memory i
  /-- They are among the bytes removed. -/
  inside : ∀ i, Covers body i →
    i < body.size.toNat + MessageBody.HEADER_LEN_BYTES
  left : ∀ j, q.memory j = p.memory
    (origin (body.size.toNat + MessageBody.HEADER_LEN_BYTES) j)
  /-- None of them is left for the next message. -/
  apart : ∀ i, Covers body i → ∀ j : Nat, j < q.lastPos →
    origin (body.size.toNat + MessageBody.HEADER_LEN_BYTES) j ≠ i
  payload : 0 ≤ payloadSize body ∧
    payloadSize body ≤ MessageBody.DATA_SIZE

section OneMessage

variable {p q : ClientSocket} {body : MessageBody}

theorem origin_apply (size j : Nat) :
    origin size j = if j < size then size + j else j := by
  rw [origin, Memory.move_head_apply]

/-- Moving cells is moving addresses. -/
theorem move_eq_origin (m : Memory UInt8) (size j : Nat) :
    m.move 0 size size j = m (origin size j) := by
  rw [Memory.move_head_apply, origin_apply]
  split_ifs <;> rfl

/-- What `ofBytes` lays over a record of zeroes. -/
theorem ofBytes_size (m : Memory UInt8) (n : Nat) :
    (MessageBody.ofBytes m n).size.toNat =
      Memory.readLE (fun i => if i < n then m i else 0) 0
        MessageBody.HEADER_LEN_BYTES := by
  have hlt := Memory.readLE_lt (fun i => if i < n then m i else 0) 0
    MessageBody.HEADER_LEN_BYTES
  simp only [MessageBody.ofBytes, UInt32.toNat_ofNat']
  exact Nat.mod_eq_of_lt hlt

theorem ofBytes_type (m : Memory UInt8) (n : Nat) :
    (MessageBody.ofBytes m n).type.toNat =
      Memory.readLE (fun i => if i < n then m i else 0)
        MessageBody.HEADER_LEN_BYTES MessageBody.HEADER_TYPE_BYTES := by
  have hlt := Memory.readLE_lt (fun i => if i < n then m i else 0)
    MessageBody.HEADER_LEN_BYTES MessageBody.HEADER_TYPE_BYTES
  simp only [MessageBody.ofBytes, UInt16.toNat_ofNat']
  exact Nat.mod_eq_of_lt hlt

/-- The record's length field is the buffer's. -/
theorem ofBytes_lengthField
    (h : MessageBody.HEADER_SIZE ≤ p.lastPos) :
    (MessageBody.ofBytes p.memory p.lastPos.toNat).size.toNat =
      p.lengthField := by
  rw [ofBytes_size, ClientSocket.lengthField, Memory.readLE, Memory.readLE]
  congr 1
  apply List.map_congr_left
  intro i hi
  rw [List.mem_range] at hi
  simp only [MessageBody.HEADER_SIZE, MessageBody.HEADER_LEN_BYTES] at h hi
  exact if_pos (by omega)

/-- The record shows the bytes it was copied from. -/
theorem ofBytes_image (m : Memory UInt8) {n i : Nat} (hi : i < n) :
    (MessageBody.ofBytes m n).image i = m i := by
  have hheader : Memory.Holds (fun i => if i < n then m i else 0) 0
      (leBytes MessageBody.HEADER_LEN_BYTES
          (MessageBody.ofBytes m n).size.toNat ++
        leBytes MessageBody.HEADER_TYPE_BYTES
          (MessageBody.ofBytes m n).type.toNat) := by
    rw [ofBytes_size, ofBytes_type, Memory.holds_append_iff, leBytes_length,
      Nat.zero_add]
    exact ⟨Memory.holds_leBytes_readLE _ _ _,
      Memory.holds_leBytes_readLE _ _ _⟩
  rw [MessageBody.image]
  dsimp only
  by_cases hlow : i < MessageBody.HEADER_SIZE
  · have hlength : i < (leBytes MessageBody.HEADER_LEN_BYTES
          (MessageBody.ofBytes m n).size.toNat ++
        leBytes MessageBody.HEADER_TYPE_BYTES
          (MessageBody.ofBytes m n).type.toNat).length := by
      rw [List.length_append, leBytes_length, leBytes_length]
      exact hlow
    rw [hheader i hlength, Option.getD_some, Nat.zero_add]
    exact if_pos hi
  · rw [List.getElem?_eq_none ?_, Option.getD_none]
    swap
    · rw [List.length_append, leBytes_length, leBytes_length]
      exact Nat.not_lt.mp hlow
    have haddr : MessageBody.HEADER_SIZE + (i - MessageBody.HEADER_SIZE) =
        i := by
      omega
    show (if _ then m _ else 0) = m i
    rw [haddr, if_pos hi]

/-- A message taken out is well formed exactly when it counts its type. -/
theorem wellFormed_iff
    (h : p.InBuffer) (hpass : Cell.extract p = .message q body) :
    WellFormed p body q ↔
      MessageBody.HEADER_TYPE_BYTES ≤ p.lengthField := by
  obtain ⟨hheader, hwhole, rfl, rfl⟩ := Cell.extract_message h hpass
  have hhigh := h.2
  have hsize := ofBytes_lengthField hheader
  have hpos : (Cell.taken p (p.lengthField + 4)).lastPos =
      p.lastPos - (p.lengthField + 4 : Nat) := by
    rfl
  simp only [RECV_BUFFER_SIZE] at hhigh
  constructor
  · intro hformed
    rw [← hsize]
    exact hformed.size
  · intro htype
    have hcovers : ∀ i,
        Covers (MessageBody.ofBytes p.memory p.lastPos.toNat) i →
          i < p.lengthField + 4 := by
      intro i hi
      rw [Covers, hsize] at hi
      simp only [MessageBody.HEADER_SIZE, MessageBody.HEADER_LEN_BYTES,
        MessageBody.HEADER_TYPE_BYTES] at hi htype
      omega
    constructor
    · rw [hsize]
      exact htype
    · rw [hsize, hpos, MessageBody.HEADER_LEN_BYTES]
      push_cast
      omega
    · intro i hi
      have hlt := hcovers i hi
      exact ofBytes_image p.memory (by omega)
    · intro i hi
      rw [hsize]
      exact hcovers i hi
    · intro j
      rw [hsize]
      exact move_eq_origin p.memory _ j
    · intro i hi j hj
      have hlt := hcovers i hi
      rw [hsize, origin_apply, MessageBody.HEADER_LEN_BYTES]
      split_ifs
      · omega
      · omega
    · simp only [MessageBody.HEADER_TYPE_BYTES] at htype
      have hint : payloadSize
          (MessageBody.ofBytes p.memory p.lastPos.toNat) =
            p.lengthField - 2 := by
        rw [payloadSize, hsize]
        apply int32_of_bounds
        · simp only [MessageBody.HEADER_TYPE_BYTES]
          omega
        · simp only [MessageBody.HEADER_TYPE_BYTES]
          omega
      rw [hint, MessageBody.DATA_SIZE]
      omega

end OneMessage

/--
The passes of a call of `Cell::Recv` on a chunk that hand a message on: the
buffer before, the message and the buffer left.
-/
def Hands (st : Option ClientSocket) (chunk : List UInt8)
    (p : ClientSocket) (body : MessageBody) (q : ClientSocket) : Prop :=
  ∃ cs, st = some cs ∧ Cell.Enters (Cell.stored cs chunk) p ∧
    Cell.extract p = .message q body

/-- Every message handed on by a call is of some kind. -/
def HandsOnly
    (P : ClientSocket → MessageBody → ClientSocket → Prop)
    (st : Option ClientSocket) (_ : List MessageBody)
    (chunk : List UInt8) : Prop :=
  ∀ p body q, Hands st chunk p body q → P p body q

section Calls

variable {cs : ClientSocket}

/-- The messages of the loop come from its passes. -/
theorem leaves_hands
    {r : ClientSocket} {bodies : List MessageBody}
    (hleaves : Cell.Leaves cs r bodies) :
    ∀ body ∈ bodies, ∃ p q, Cell.Enters cs p ∧
      Cell.extract p = .message q body := by
  induction hleaves with
  | leave hpass =>
      simp
  | @last cs q body hpass hdone =>
      intro body' hbody
      cases List.mem_singleton.mp hbody
      exact ⟨cs, q, .first, hpass⟩
  | @next cs q r body bodies hpass hmore rest ih =>
      intro body' hbody
      rcases List.mem_cons.mp hbody with rfl | hbody
      · exact ⟨cs, q, .first, hpass⟩
      · obtain ⟨p, q', henters, hpass'⟩ := ih body' hbody
        exact ⟨p, q', henters.of_extract hpass hmore, hpass'⟩

/-- What a call that returns leaves. -/
theorem receive_some
    {chunk : List UInt8} (h : cs.InBuffer) (hne : chunk ≠ [])
    (hroom : cs.lastPos + chunk.length ≤ RECV_BUFFER_SIZE) :
    (receive (some cs) chunk = (none, [])) ∨
      ∃ r bodies, receive (some cs) chunk = (some r, bodies) ∧
        Cell.Leaves (Cell.stored cs chunk) r bodies := by
  have hlow := h.1
  have hlen : 0 < chunk.length := List.length_pos_iff.mpr hne
  have hpos : 0 < (Cell.stored cs chunk).lastPos := by
    show 0 < cs.lastPos + chunk.length
    omega
  rw [receive, Cell.recv_eq_map cs hne]
  cases hloop : Cell.recvLoop (Cell.stored cs chunk).lastPos.toNat
      (Cell.stored cs chunk) with
  | none =>
      exact Or.inl rfl
  | some result =>
      obtain ⟨r, bodies⟩ := result
      exact Or.inr ⟨r, bodies, rfl, Cell.Leaves.of_recvLoop
        (Cell.stored_inBuffer h hroom) (Nat.le_refl _) hpos hloop⟩

end Calls

/-- Before the first fault the position is inside the buffer. -/
def Buffering (st : Option ClientSocket) (_ : List MessageBody) : Prop :=
  ∀ cs, st = some cs → cs.InBuffer

section Runs

variable {st : Option ClientSocket} {messages : List MessageBody}
variable {chunk : List UInt8}

theorem receive_buffering
    (hfits : FitsBuffer st messages chunk) (h : Buffering st messages) :
    Buffering (receive st chunk).1 (messages ++ (receive st chunk).2) := by
  cases st with
  | none =>
      rintro cs ⟨⟩
  | some cs =>
      have hbuffer := h cs rfl
      have hroom := hfits.2 cs rfl
      rcases receive_some hbuffer hfits.1 hroom with
        hnone | ⟨r, bodies, hsome, hleaves⟩
      · rw [hnone]
        rintro _ ⟨⟩
      · rw [hsome]
        rintro _ ⟨⟩
        exact hleaves.inBuffer (Cell.stored_inBuffer hbuffer hroom)

/-- Every message that a call delivers is handed on by one of its passes. -/
theorem mem_receive_hands
    (hfits : FitsBuffer st messages chunk) (h : Buffering st messages) :
    ∀ body ∈ (receive st chunk).2, ∃ p q, Hands st chunk p body q := by
  cases st with
  | none =>
      rintro body ⟨⟩
  | some cs =>
      intro body hbody
      rcases receive_some (h cs rfl) hfits.1 (hfits.2 cs rfl) with
        hnone | ⟨r, bodies, hsome, hleaves⟩
      · rw [hnone] at hbody
        cases hbody
      · rw [hsome] at hbody
        obtain ⟨p, q, henters, hpass⟩ := leaves_hands hleaves body hbody
        exact ⟨p, q, cs, rfl, henters, hpass⟩

/-- One call hands on well-formed messages exactly when they count their types. -/
theorem handsOnly_wellFormed_iff
    (hfits : FitsBuffer st messages chunk) (h : Buffering st messages) :
    HandsOnly WellFormed st messages chunk ↔
      HandsOnly (fun p _ _ => MessageBody.HEADER_TYPE_BYTES ≤ p.lengthField)
        st messages chunk := by
  have hone : ∀ p body q, Hands st chunk p body q →
      (WellFormed p body q ↔
        MessageBody.HEADER_TYPE_BYTES ≤ p.lengthField) := by
    rintro p body q ⟨cs, rfl, henters, hpass⟩
    have hbuffer := Cell.stored_inBuffer (h cs rfl) (hfits.2 cs rfl)
    exact wellFormed_iff (henters.inBuffer hbuffer) hpass
  constructor
  · intro hformed p body q hhands
    exact (hone p body q hhands).mp (hformed p body q hhands)
  · intro htype p body q hhands
    exact (hone p body q hhands).mpr (htype p body q hhands)

end Runs

/--
Whatever the bytes and the chunks, the messages handed on are well formed
exactly when every length field that a message is taken out with counts the
type's two bytes.
-/
theorem handed_wellFormed_iff
    (cs : ClientSocket) (chunks : List (List UInt8))
    (hempty : cs.lastPos = 0)
    (hfits : Machine.Along receive FitsBuffer (some cs) chunks) :
    Machine.Along receive (HandsOnly WellFormed) (some cs) chunks ↔
      Machine.Along receive
        (HandsOnly
          (fun p _ _ => MessageBody.HEADER_TYPE_BYTES ≤ p.lengthField))
        (some cs) chunks := by
  have hinit : Buffering (some cs) [] := by
    rintro _ ⟨⟩
    rw [ClientSocket.InBuffer, hempty]
    decide
  apply Machine.along_congr
  rintro before chunk after rfl
  apply handsOnly_wellFormed_iff
  · exact hfits before chunk after rfl
  · exact Machine.run_invariant_along hinit
      (fun _ _ _ hstep hbuffering => receive_buffering hstep hbuffering)
      hfits.of_append

/-- Chunks of at most `RECV_BUFFER_SIZE` bytes fit an empty buffer. -/
theorem fitsBuffer_freshSocket
    {chunk : List UInt8} (hne : chunk ≠ [])
    (hlen : chunk.length ≤ RECV_BUFFER_SIZE) :
    Machine.Along receive FitsBuffer (some freshSocket) [chunk] := by
  refine (Machine.Along.nil _ _).concat ⟨hne, ?_⟩
  rintro _ ⟨⟩
  rw [show freshSocket.lastPos = 0 from rfl]
  omega

/--
A call that takes at most one message out of the buffer, in terms of position and
length field behind the `recv`.
-/
theorem handsOnly_of_stored
    {st : Option ClientSocket} {messages : List MessageBody}
    {chunk : List UInt8} {pos : Int} {len : Nat} (hne : chunk ≠ [])
    (hstored : st.map (fun cs => ((Cell.stored cs chunk).lastPos,
      (Cell.stored cs chunk).lengthField)) = some (pos, len))
    (hpos : 0 ≤ pos ∧ pos ≤ RECV_BUFFER_SIZE ∧ pos ≤ len + 4)
    (htype : MessageBody.HEADER_TYPE_BYTES ≤ len) :
    FitsBuffer st messages chunk ∧
      HandsOnly (fun p _ _ => MessageBody.HEADER_TYPE_BYTES ≤ p.lengthField)
        st messages chunk := by
  obtain ⟨cs, rfl, hpair⟩ := Option.map_eq_some_iff.mp hstored
  obtain ⟨rfl, rfl⟩ := Prod.mk.inj hpair
  obtain ⟨hlow, hhigh, hwhole⟩ := hpos
  constructor
  · refine ⟨hne, ?_⟩
    rintro _ ⟨⟩
    exact hhigh
  · rintro p body q ⟨_, ⟨⟩, henters, -⟩
    rw [henters.eq_of_done]
    · exact htype
    · intro q' body' hpass
      obtain ⟨-, -, rfl, -⟩ := Cell.extract_message ⟨hlow, hhigh⟩ hpass
      have hleft : (Cell.taken (Cell.stored cs chunk)
          ((Cell.stored cs chunk).lengthField + 4)).lastPos =
            (Cell.stored cs chunk).lastPos -
              ((Cell.stored cs chunk).lengthField + 4) := rfl
      omega

/-- Two messages over four chunks, the second one with a payload. -/
def twoMessages : List (List UInt8) :=
  [[2, 0, 0], [0, 1, 0], [5, 0, 0, 0, 2], [0, 7, 8, 9]]

/-- Both count their type. -/
theorem handed_wellFormed_two :
    Machine.Along receive (HandsOnly WellFormed) (some freshSocket)
      twoMessages := by
  have hbounds : ∀ pair ∈ [((3 : Int), 2), (6, 2), (5, 5), (9, 5)],
      (0 ≤ pair.1 ∧ pair.1 ≤ RECV_BUFFER_SIZE ∧ pair.1 ≤ (pair.2 : Nat) + 4) ∧
        MessageBody.HEADER_TYPE_BYTES ≤ pair.2 := by
    decide
  have hstored : ∀ i, (h : i < twoMessages.length) →
      twoMessages[i] ≠ [] ∧
        ∃ pair ∈ [((3 : Int), 2), (6, 2), (5, 5), (9, 5)],
          (Machine.run receive (some freshSocket)
              (twoMessages.take i)).1.map
            (fun cs => ((Cell.stored cs twoMessages[i]).lastPos,
              (Cell.stored cs twoMessages[i]).lengthField)) = some pair := by
    decide
  have hcalls : ∀ i, (h : i < twoMessages.length) →
      ∀ messages, FitsBuffer (Machine.run receive (some freshSocket)
          (twoMessages.take i)).1 messages twoMessages[i] ∧
        HandsOnly (fun p _ _ => MessageBody.HEADER_TYPE_BYTES ≤ p.lengthField)
          (Machine.run receive (some freshSocket) (twoMessages.take i)).1
          messages twoMessages[i] := by
    intro i hi messages
    obtain ⟨hne, pair, hmem, hpair⟩ := hstored i hi
    obtain ⟨hpos, htype⟩ := hbounds pair hmem
    exact handsOnly_of_stored hne hpair hpos htype
  apply (handed_wellFormed_iff freshSocket twoMessages rfl
    ((Machine.along_iff_forall_lt _ _ _).mpr fun i hi =>
      (hcalls i hi _).1)).mpr
  exact (Machine.along_iff_forall_lt _ _ _).mpr fun i hi => (hcalls i hi _).2

/-- A length of 0 leaves the type to be read again. -/
theorem handed_not_wellFormed :
    ¬ ∀ (cs : ClientSocket) (chunks : List (List UInt8)),
        cs.lastPos = 0 →
        Machine.Along receive FitsBuffer (some cs) chunks →
        Machine.Along receive (HandsOnly WellFormed) (some cs) chunks := by
  intro h
  have hformed := h freshSocket [[0, 0, 0, 0, 1, 0]] rfl
    (fitsBuffer_freshSocket (by decide) (by decide)) [] _ [] rfl
  obtain ⟨q, body, hpass⟩ : ∃ q body,
      Cell.extract (Cell.stored freshSocket [0, 0, 0, 0, 1, 0]) =
        .message q body := by
    rw [← Cell.pass_fst, Cell.pass_eq (by decide), if_neg (by decide),
      if_pos (by decide)]
    exact ⟨_, _, rfl⟩
  have hsize := (wellFormed_iff (by decide) hpass).mp
    (hformed _ _ _ ⟨_, rfl, .first, hpass⟩)
  exact absurd hsize (by decide)

end LockStep
end NetEngine
