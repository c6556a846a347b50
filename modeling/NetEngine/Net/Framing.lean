import NetEngine.Lib.Blocks
import NetEngine.Lib.Machine
import NetEngine.Net.ClientSocket

/-!
# Framing on the server

A client's byte stream is a list of frames; `Cell::Recv` sees it in chunks.
Reception is exact when the messages handed on are the frames wholly received
and the buffer holds the bytes behind them.

The loop drops a message by moving as many bytes as the message has, so the
bytes behind it end up in place exactly when they repeat with the message's
length as period (`extract_frame`); in particular whenever they are no longer
than the message.  `recv_exact` carries this through all calls.
-/

namespace NetEngine
namespace Net

open Blocks

/-- The receive buffer holds exactly these bytes. -/
structure Buffered (cs : ClientSocket) (xs : List UInt8) : Prop where
  lastPos : cs.lastPos = xs.length
  holds : cs.memory.Holds 0 xs

theorem buffered_empty
    {cs : ClientSocket} (h : cs.lastPos = 0) :
    Buffered cs [] :=
  ⟨by simpa using h, Memory.holds_nil _ _⟩

/-- A chunk is stored behind what the buffer holds. -/
theorem Buffered.store
    {cs : ClientSocket} {xs : List UInt8} (h : Buffered cs xs)
    (chunk : List UInt8) :
    Buffered
      { cs with
        memory := cs.memory.store cs.lastPos.toNat chunk
        lastPos := cs.lastPos + chunk.length }
      (xs ++ chunk) := by
  have hpos := h.lastPos
  constructor
  · show cs.lastPos + (chunk.length : Int) = _
    rw [hpos, List.length_append]
    omega
  · have haddr : cs.lastPos.toNat = 0 + xs.length := by
      omega
    show Memory.Holds (cs.memory.store cs.lastPos.toNat chunk) 0 _
    rw [haddr]
    exact h.holds.store_append chunk

/-- Length field read from a buffer that begins with one. -/
theorem readLE_length
    {m : Memory UInt8} {len : Nat} {xs : List UInt8}
    (h : m.Holds 0 xs)
    (hpre : leBytes MessageBody.HEADER_LEN_BYTES len <+: xs)
    (hlen : len < 2 ^ 31) :
    int32 (m.readLE 0 MessageBody.HEADER_LEN_BYTES) = len := by
  obtain ⟨ys, rfl⟩ := hpre
  have hread :=
    ((Memory.holds_append_iff _ _ _ _).mp h).1.readLE_leBytes
  simp only [MessageBody.HEADER_LEN_BYTES] at hread ⊢
  rw [hread, Nat.mod_eq_of_lt (by omega)]
  apply int32_of_bounds
  · omega
  · omega

theorem Frame.length_lt (f : Frame) : f.length < 2 ^ 31 := by
  have hbounds := f.length_bounds
  simp only [MessageBody.HEADER_LEN_BYTES, RECV_BUFFER_SIZE] at hbounds
  omega

/-- Length field and its own four bytes are the size of a frame. -/
theorem Frame.int32_size (f : Frame) :
    int32 (f.length + MessageBody.HEADER_LEN_BYTES) = f.bytes.length := by
  have hbounds := f.length_bounds
  rw [f.bytes_length]
  simp only [MessageBody.HEADER_LEN_BYTES, RECV_BUFFER_SIZE] at hbounds ⊢
  apply int32_of_bounds
  · omega
  · omega

/-- `GetPackageLength` when the header is there: is the message whole? -/
theorem getPackageLength_of_header
    {cs : ClientSocket} {f : Frame}
    (hheader : ¬ cs.lastPos < MessageBody.HEADER_SIZE)
    (hlen : int32 (cs.memory.readLE 0 MessageBody.HEADER_LEN_BYTES) =
      f.length) :
    cs.getPackageLength =
      if cs.lastPos ≥ f.bytes.length then (f.length : Int) else -1 := by
  rw [ClientSocket.getPackageLength, if_neg hheader]
  simp only [hlen, f.int32_size]

/--
A frame at the front of the buffer is handed on whole; what was behind it is in
place afterwards exactly when it has the frame's size as a period.
-/
theorem extract_frame
    {cs : ClientSocket} {f : Frame} {xs : List UInt8}
    (h : Buffered cs (f.bytes ++ xs)) :
    ∃ cs' body,
      Cell.extract cs = .message cs' body ∧
      body.Shows f ∧
      cs'.lastPos = xs.length ∧
      (cs'.memory.Holds 0 xs ↔ xs.HasPeriod f.bytes.length) := by
  have hpos := h.lastPos
  have hbounds := f.length_bounds
  have hsize := f.bytes_length
  rw [List.length_append] at hpos
  have hlen : int32 (cs.memory.readLE 0 MessageBody.HEADER_LEN_BYTES) =
      f.length :=
    readLE_length h.holds ⟨_, (List.append_assoc _ _ _).symm⟩
      f.length_lt
  simp only [MessageBody.HEADER_TYPE_BYTES, MessageBody.HEADER_LEN_BYTES,
    RECV_BUFFER_SIZE] at hbounds hsize
  have hheader : ¬ cs.lastPos < MessageBody.HEADER_SIZE := by
    simp only [MessageBody.HEADER_SIZE, MessageBody.HEADER_LEN_BYTES,
      MessageBody.HEADER_TYPE_BYTES]
    omega
  have hpackage : cs.getPackageLength = f.length := by
    rw [getPackageLength_of_header hheader hlen, if_pos (by omega)]
  have hnonneg : ¬ (f.length : Int) < 0 := by omega
  have hclamp : ¬ (f.bytes.length : Int) > cs.lastPos := by omega
  have hcount : ¬ (f.bytes.length : Int) < 0 := by omega
  rw [Cell.extract, if_neg hheader]
  simp only [hpackage, f.int32_size, if_neg hnonneg, if_neg hclamp, if_neg hcount,
    Int.toNat_natCast]
  refine ⟨_, _, rfl, ?_, ?_, Memory.holds_move_head_iff h.holds⟩
  · apply MessageBody.ofBytes_shows
      ((Memory.holds_append_iff _ _ _ _).mp h.holds).1
    split_ifs
    · simp only [MessageBody.SIZEOF]
      omega
    · omega
  · show cs.lastPos - f.bytes.length = xs.length
    omega

/-- The loop is left while a part of a message is missing. -/
theorem extract_unfinished
    {cs : ClientSocket} {xs : List UInt8} {len : Nat}
    (h : Buffered cs xs)
    (hpre : leBytes MessageBody.HEADER_LEN_BYTES len <+: xs)
    (hshort : xs.length < len + MessageBody.HEADER_LEN_BYTES)
    (hlen : len + MessageBody.HEADER_LEN_BYTES < 2 ^ 31) :
    Cell.extract cs = .leave := by
  have hpos := h.lastPos
  have hfield := readLE_length h.holds hpre (by omega)
  have hsize : int32 (len + MessageBody.HEADER_LEN_BYTES) =
      len + MessageBody.HEADER_LEN_BYTES := by
    apply int32_of_bounds
    · omega
    · omega
  by_cases hheader : cs.lastPos < MessageBody.HEADER_SIZE
  · rw [Cell.extract, if_pos hheader]
  · have hpackage : cs.getPackageLength = -1 := by
      rw [ClientSocket.getPackageLength, if_neg hheader]
      simp only [hfield, hsize]
      rw [if_neg (by omega)]
    rw [Cell.extract, if_neg hheader]
    simp [hpackage]

/-- The loop is left on a buffer that does not hold a whole frame yet. -/
theorem extract_incomplete
    {cs : ClientSocket} {frames : List Frame} {xs : List UInt8}
    (h : Buffered cs xs) (hinc : Incomplete Frame.bytes frames xs) :
    Cell.extract cs = .leave := by
  have hpos := h.lastPos
  by_cases hheader : cs.lastPos < MessageBody.HEADER_SIZE
  · rw [Cell.extract, if_pos hheader]
  · simp only [MessageBody.HEADER_SIZE, MessageBody.HEADER_LEN_BYTES,
      MessageBody.HEADER_TYPE_BYTES] at hheader
    rcases hinc with rfl | ⟨f, -, hpre, hlt⟩
    · simp only [List.length_nil] at hpos
      omega
    · have hbounds := f.length_bounds
      rw [f.bytes_length] at hlt
      have hfield :
          leBytes MessageBody.HEADER_LEN_BYTES f.length <+: xs := by
        refine List.prefix_of_prefix_length_le
          (List.prefix_append _ _) hpre ?_
        rw [leBytes_length]
        simp only [MessageBody.HEADER_LEN_BYTES]
        omega
      refine extract_unfinished h hfield hlt ?_
      simp only [MessageBody.HEADER_LEN_BYTES, RECV_BUFFER_SIZE]
        at hbounds ⊢
      omega

/--
Every one of a list of frames, extracted in turn with `xs` behind the last, has
behind it bytes that repeat with its own size.
-/
def TailsRepeat : List Frame → List UInt8 → Prop
  | [], _ => True
  | f :: fs, xs =>
      (stream Frame.bytes fs ++ xs).HasPeriod f.bytes.length ∧
        TailsRepeat fs xs

/-- The loop on a buffer of whole frames and an unfinished one. -/
theorem recvLoop_frames
    {frames : List Frame} {xs : List UInt8}
    (hinc : Incomplete Frame.bytes frames xs) :
    ∀ (gs : List Frame) (fuel : Nat) (cs : ClientSocket),
      gs.length ≤ fuel →
      Buffered cs (stream Frame.bytes gs ++ xs) →
      TailsRepeat gs xs →
      ∃ cs' bodies,
        Cell.recvLoop fuel cs = some (cs', bodies) ∧
        List.Forall₂ MessageBody.Shows bodies gs ∧
        Buffered cs' xs
  | [], 0, cs, _, hbuf, _ =>
      ⟨cs, [], rfl, List.Forall₂.nil, hbuf⟩
  | [], fuel + 1, cs, _, hbuf, _ => by
      refine ⟨cs, [], ?_, List.Forall₂.nil, hbuf⟩
      rw [Cell.recvLoop, extract_incomplete hbuf hinc]
  | g :: gs, 0, _, hfuel, _, _ => by
      simp at hfuel
  | g :: gs, fuel + 1, cs, hfuel, hbuf, htails => by
      rw [stream_cons, List.append_assoc] at hbuf
      obtain ⟨cs₁, body, hext, hshows, hpos, hholds⟩ :=
        extract_frame hbuf
      have hbuf₁ : Buffered cs₁ (stream Frame.bytes gs ++ xs) :=
        ⟨hpos, hholds.mpr htails.1⟩
      obtain ⟨cs₂, bodies, hloop, hall, hbuf₂⟩ :=
        recvLoop_frames hinc gs fuel cs₁ (by simpa using hfuel)
          hbuf₁ htails.2
      by_cases hdone : cs₁.lastPos ≤ 0
      · -- an emptied buffer means that nothing was behind the frame
        have hempty : stream Frame.bytes gs ++ xs = [] := by
          apply List.eq_nil_of_length_eq_zero
          omega
        obtain ⟨hgs, hxs⟩ := List.append_eq_nil_iff.mp hempty
        have hnil : gs = [] := by
          cases gs with
          | nil =>
              rfl
          | cons g' gs' =>
              rw [stream_cons] at hgs
              exact absurd (List.append_eq_nil_iff.mp hgs).1
                g'.bytes_ne_nil
        subst hnil
        refine ⟨cs₁, [body], ?_,
          List.Forall₂.cons hshows List.Forall₂.nil, ?_⟩
        · rw [Cell.recvLoop, hext]
          simp [hdone]
        · simpa [stream] using hbuf₁
      · refine ⟨cs₂, body :: bodies, ?_,
          List.Forall₂.cons hshows hall, hbuf₂⟩
        rw [Cell.recvLoop, hext]
        simp [hdone, hloop]

/-- One call of `Cell::Recv` per chunk; nothing happens after a fault. -/
def receive (st : Option ClientSocket) (chunk : List UInt8) :
    Option ClientSocket × List MessageBody :=
  match st with
  | none => (none, [])
  | some cs =>
      match Cell.recv cs (some chunk) with
      | none => (none, [])
      | some r => (some r.client, r.messages)

/-- A chunk the system call can deliver: not empty, within the free part. -/
def FitsBuffer (st : Option ClientSocket) (_ : List MessageBody)
    (chunk : List UInt8) : Prop :=
  chunk ≠ [] ∧
    ∀ cs, st = some cs →
      cs.lastPos + chunk.length ≤ RECV_BUFFER_SIZE

/--
Reception is exact: the messages are the frames wholly received and the buffer
holds the bytes behind the last of them.
-/
def Exact (frames : List Frame) (received : List UInt8)
    (st : Option ClientSocket) (messages : List MessageBody) : Prop :=
  ∃ cs, st = some cs ∧
    List.Forall₂ MessageBody.Shows messages
      (whole Frame.bytes frames received.length) ∧
    Buffered cs (rest Frame.bytes frames received)

/-- Frames that a chunk completes, and what it leaves unfinished, repeat. -/
def ChunkRepeats (frames : List Frame)
    (received chunk : List UInt8) : Prop :=
  TailsRepeat
    (newly Frame.bytes frames received.length (received ++ chunk).length)
    (rest Frame.bytes frames (received ++ chunk))

/-- What one call returns and leaves, when it held what came before. -/
theorem recv_chunk
    {frames : List Frame} {received chunk : List UInt8}
    {cs : ClientSocket}
    (hbuf : Buffered cs (rest Frame.bytes frames received))
    (hstream : received ++ chunk <+: stream Frame.bytes frames)
    (hchunk : chunk ≠ [])
    (hrepeat : ChunkRepeats frames received chunk) :
    ∃ cs' bodies,
      Cell.recv cs (some chunk) = some ⟨chunk.length, cs', bodies⟩ ∧
      List.Forall₂ MessageBody.Shows bodies
        (newly Frame.bytes frames received.length
          (received ++ chunk).length) ∧
      Buffered cs' (rest Frame.bytes frames (received ++ chunk)) := by
  have hchunkpos : 0 < chunk.length := List.length_pos_iff.mpr hchunk
  have hsplit := rest_append_chunk Frame.bytes frames hstream
  let cs₁ : ClientSocket :=
    { cs with
      memory := cs.memory.store cs.lastPos.toNat chunk
      lastPos := cs.lastPos + chunk.length }
  have hbuf₁ : Buffered cs₁
      (rest Frame.bytes frames received ++ chunk) :=
    hbuf.store chunk
  have hlong :
      (newly Frame.bytes frames received.length
          (received ++ chunk).length).length ≤
        (stream Frame.bytes
          (newly Frame.bytes frames received.length
            (received ++ chunk).length)).length :=
    length_le_stream_length Frame.bytes
      (fun f _ => f.bytes_ne_nil)
  have hfuel :
      (newly Frame.bytes frames received.length
          (received ++ chunk).length).length ≤ cs₁.lastPos.toNat := by
    have hlen := congrArg List.length hsplit
    rw [List.length_append, List.length_append] at hlen
    have hpos₁ := hbuf₁.lastPos
    rw [List.length_append] at hpos₁
    omega
  rw [hsplit] at hbuf₁
  obtain ⟨cs₂, bodies, hloop, hall, hbuf₂⟩ :=
    recvLoop_frames (received_split Frame.bytes frames hstream).2
      _ _ cs₁ hfuel hbuf₁ hrepeat
  refine ⟨cs₂, bodies, ?_, hall, hbuf₂⟩
  have hret : ¬ (chunk.length : Int) ≤ 0 := by omega
  simp only [Cell.recv, if_neg hret]
  rw [show Cell.recvLoop _ _ = some (cs₂, bodies) from hloop]

/-- The step: one call keeps reception exact. -/
theorem receive_exact
    {frames : List Frame} {received chunk : List UInt8}
    {st : Option ClientSocket} {messages : List MessageBody}
    (hexact : Exact frames received st messages)
    (hstream : received ++ chunk <+: stream Frame.bytes frames)
    (hchunk : chunk ≠ [])
    (hrepeat : ChunkRepeats frames received chunk) :
    Exact frames (received ++ chunk) (receive st chunk).1
      (messages ++ (receive st chunk).2) := by
  obtain ⟨cs, rfl, hall, hbuf⟩ := hexact
  obtain ⟨cs₂, bodies, hrecv, hall₂, hbuf₂⟩ :=
    recv_chunk hbuf hstream hchunk hrepeat
  refine ⟨cs₂, by simp [receive, hrecv], ?_, hbuf₂⟩
  rw [← whole_append_newly Frame.bytes frames
    (show received.length ≤ (received ++ chunk).length by simp)]
  simp only [receive, hrecv]
  exact List.rel_append hall hall₂

/-- After every call the reception is exact. -/
def FramingExact (cs : ClientSocket) (frames : List Frame)
    (chunks : List (List UInt8)) : Prop :=
  ∀ calls, calls <+: chunks →
    Exact frames calls.flatten
      (Machine.run receive (some cs) calls).1
      (Machine.run receive (some cs) calls).2

/-- Chunks that the socket can deliver out of the stream of the frames. -/
structure Delivers (cs : ClientSocket) (frames : List Frame)
    (chunks : List (List UInt8)) : Prop where
  empty : cs.lastPos = 0
  stream : chunks.flatten <+: stream Frame.bytes frames
  fits : Machine.Along receive FitsBuffer (some cs) chunks

/--
Framing is exact in every run in which the bytes behind each extracted frame are
no longer than the frame or repeat with its size.
-/
theorem recv_exact
    {cs : ClientSocket} {frames : List Frame}
    {chunks : List (List UInt8)}
    (hdeliver : Delivers cs frames chunks)
    (hrepeat : ∀ before chunk after,
      chunks = before ++ chunk :: after →
        ChunkRepeats frames before.flatten chunk) :
    FramingExact cs frames chunks := by
  rintro calls ⟨later, rfl⟩
  have hstream := hdeliver.stream
  have hfits := hdeliver.fits.of_append
  rw [List.flatten_append] at hstream
  induction calls using List.reverseRecOn generalizing later with
  | nil =>
      refine ⟨cs, rfl, ?_, ?_⟩
      · rw [List.flatten_nil, List.length_nil, whole_zero_of_nonempty
          Frame.bytes (fun f _ => f.bytes_ne_nil)]
        exact List.Forall₂.nil
      · simpa [rest] using buffered_empty hdeliver.empty
  | append_singleton calls chunk ih =>
      have hassoc :
          (calls ++ [chunk]) ++ later = calls ++ chunk :: later := by
        simp
      rw [hassoc] at hdeliver hrepeat
      rw [List.flatten_append, List.flatten_singleton] at hstream
      have hexact := ih (chunk :: later) hdeliver hrepeat
        (by simpa using hstream) hfits.of_append
      rw [Machine.run_concat, List.flatten_append,
        List.flatten_singleton]
      exact receive_exact hexact
        ((List.prefix_append _ _).trans hstream)
        hfits.last.1 (hrepeat calls chunk later rfl)

/-- Three shortest frames, of types 1, 2 and 3. -/
def shortFrames : List Frame :=
  [⟨1, [], by decide⟩, ⟨2, [], by decide⟩, ⟨3, [], by decide⟩]

/-- A socket as `accept` leaves it. -/
def freshSocket : ClientSocket :=
  { sockfd := 5 }

/-- A single chunk that fits an empty buffer can be delivered. -/
theorem delivers_chunk
    {cs : ClientSocket} {frames : List Frame} {chunk : List UInt8}
    (hempty : cs.lastPos = 0)
    (hstream : chunk <+: stream Frame.bytes frames)
    (hne : chunk ≠ []) (hlen : chunk.length ≤ RECV_BUFFER_SIZE) :
    Delivers cs frames [chunk] := by
  refine ⟨hempty, by simpa using hstream, ?_⟩
  have hnil : Machine.Along receive FitsBuffer (some cs) [] :=
    Machine.Along.nil _ _
  have hfits : FitsBuffer (some cs) [] chunk := by
    refine ⟨hne, ?_⟩
    rintro cs' hcs
    cases hcs
    omega
  exact hnil.concat hfits

theorem recv_exact_two_frames :
    FramingExact freshSocket (shortFrames.take 2)
      [stream Frame.bytes (shortFrames.take 2)] := by
  apply recv_exact
  · exact delivers_chunk rfl (List.prefix_refl _) (by decide) (by decide)
  · intro before chunk after heq
    obtain ⟨rfl, rfl, rfl⟩ :
        before = [] ∧ chunk = stream Frame.bytes (shortFrames.take 2) ∧
          after = [] := by
      cases before with
      | nil =>
          simpa [eq_comm] using heq
      | cons c before =>
          simp at heq
    have hnewly :
        newly Frame.bytes (shortFrames.take 2) 0 12 =
          shortFrames.take 2 := by
      decide
    show TailsRepeat (newly Frame.bytes (shortFrames.take 2) 0 12) _
    rw [hnewly]
    exact ⟨List.hasPeriod_of_length_le _ _ (by decide),
      List.hasPeriod_of_length_le _ _ (by decide), trivial⟩

/-- Messages that show frames have the frames' types. -/
theorem types_of_shows
    {bodies : List MessageBody} {frames : List Frame}
    (h : List.Forall₂ MessageBody.Shows bodies frames) :
    bodies.map (fun b => b.type) = frames.map (fun f => f.type) := by
  induction h with
  | nil =>
      rfl
  | cons hshows _ ih =>
      simp [hshows.type, ih]

/--
Of three coalesced frames the second is handed on twice and the third never.
-/
theorem recv_not_exact :
    ¬ ∀ (cs : ClientSocket) (frames : List Frame)
        (chunks : List (List UInt8)),
        Delivers cs frames chunks → FramingExact cs frames chunks := by
  intro hall
  have hexact := hall freshSocket shortFrames
    [stream Frame.bytes shortFrames]
    (delivers_chunk rfl (List.prefix_refl _) (by decide) (by decide))
  obtain ⟨cs, -, hshows, -⟩ := hexact _ (List.prefix_refl _)
  have htypes := types_of_shows hshows
  have hcode :
      (Machine.run receive (some freshSocket)
          [stream Frame.bytes shortFrames]).2.map (fun b => b.type) =
        [1, 2, 2] := by
    decide
  have hsent :
      (whole Frame.bytes shortFrames
          [stream Frame.bytes shortFrames].flatten.length).map
            (fun f => f.type) = [1, 2, 3] := by
    decide
  rw [hcode, hsent] at htypes
  exact absurd htypes (by decide)

end Net
end NetEngine
