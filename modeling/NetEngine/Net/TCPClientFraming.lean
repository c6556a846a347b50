import NetEngine.Net.Framing
import NetEngine.Net.TCPClientCalls

/-!
# Framing on the C++ client

`TCPClient::Recv` hands on `(n - 2) / 4` messages for `n` received bytes, and no
stream has that many whole frames once fourteen bytes have come in.  On less
than that framing is exact in four cases, which `Harmless` lists: too few bytes
for a message; one or two frames whose bytes each arrive in one call; and a
message that happens to repeat its own length field.
-/

namespace NetEngine
namespace Net

open Blocks

section Headers

theorem ofNat_ne_zero {n : Nat} (hpos : 0 < n) (hlt : n < 256) :
    UInt8.ofNat n ≠ 0 := by
  intro h
  have hnat := congrArg UInt8.toNat h
  rw [UInt8.toNat_ofNat', UInt8.toNat_zero] at hnat
  omega

theorem Frame.bytes_zero (f : Frame) :
    f.bytes[0]? = some (UInt8.ofNat f.length) := by
  rfl

/-- A frame is shorter than 65536 bytes. -/
theorem Frame.bytes_two (f : Frame) : f.bytes[2]? = some 0 := by
  have hbounds := f.length_bounds
  rw [RECV_BUFFER_SIZE] at hbounds
  have hzero : f.length / 256 / 256 = 0 := by
    omega
  show some (UInt8.ofNat (f.length / 256 / 256)) = some 0
  rw [hzero]
  rfl

/-- The length field of a short frame. -/
theorem Frame.bytes_field (f : Frame) (h : f.length < 256) {i : Nat}
    (hi : i < 4) :
    f.bytes[i]? = [UInt8.ofNat f.length, 0, 0, 0][i]? := by
  have hone : f.length / 256 = 0 := by
    omega
  have hfield : leBytes MessageBody.HEADER_LEN_BYTES f.length =
      [UInt8.ofNat f.length, 0, 0, 0] := by
    show [_, UInt8.ofNat (f.length / 256),
      UInt8.ofNat (f.length / 256 / 256),
      UInt8.ofNat (f.length / 256 / 256 / 256)] = _
    rw [hone]
    rfl
  rw [Frame.bytes, hfield]
  exact List.getElem?_append_left hi

theorem Frame.bytes_header (f : Frame) (h : f.length < 256) {i : Nat}
    (hlow : 1 ≤ i) (hhigh : i ≤ 3) :
    f.bytes[i]? = some 0 := by
  rw [f.bytes_field h (by omega)]
  obtain rfl | rfl | rfl : i = 1 ∨ i = 2 ∨ i = 3 := by
    omega
  · rfl
  · rfl
  · rfl

theorem Frame.six_le (f : Frame) : 6 ≤ f.bytes.length := by
  have hbounds := f.length_bounds
  rw [f.bytes_length]
  simp only [MessageBody.HEADER_TYPE_BYTES, MessageBody.HEADER_LEN_BYTES]
    at hbounds ⊢
  omega

theorem getElem?_of_prefix
    {xs ys : List UInt8} (h : xs <+: ys) {i : Nat} (hi : i < xs.length) :
    ys[i]? = xs[i]? := by
  obtain ⟨zs, rfl⟩ := h
  exact List.getElem?_append_left hi

end Headers

section Whole

/-- Whole frames take at least six bytes each. -/
theorem six_mul_whole_le (frames : List Frame) (n : Nat) :
    6 * (whole Frame.bytes frames n).length ≤ n := by
  induction frames generalizing n with
  | nil =>
      exact Nat.zero_le n
  | cons f fs ih =>
      rw [whole]
      split_ifs with hlen
      · have hsix := f.six_le
        have hrest := ih (n - f.bytes.length)
        rw [List.length_cons]
        omega
      · exact Nat.zero_le n

theorem whole_eq_nil {frames : List Frame} {n : Nat} (h : n < 6) :
    whole Frame.bytes frames n = [] := by
  have hsix := six_mul_whole_le frames n
  exact List.eq_nil_of_length_eq_zero (by omega)

/-- Fewer than six bytes behind the first frame: it is the only one. -/
theorem whole_cons_short
    {f : Frame} {fs : List Frame} {n : Nat} (hle : f.bytes.length ≤ n)
    (hlt : n < f.bytes.length + 6) :
    whole Frame.bytes (f :: fs) n = [f] := by
  rw [whole, if_pos hle, whole_eq_nil (by omega)]

theorem whole_eq_one
    {frames : List Frame} {n : Nat}
    (h : (whole Frame.bytes frames n).length = 1) :
    ∃ f fs, frames = f :: fs ∧ f.bytes.length ≤ n ∧
      whole Frame.bytes frames n = [f] := by
  cases frames with
  | nil =>
      cases h
  | cons f fs =>
      rw [whole] at h ⊢
      split_ifs at h ⊢ with hlen
      · refine ⟨f, fs, rfl, hlen, ?_⟩
        rw [List.length_cons, Nat.add_eq_right] at h
        rw [List.eq_nil_of_length_eq_zero h]

theorem whole_eq_two
    {frames : List Frame} {n : Nat}
    (h : (whole Frame.bytes frames n).length = 2) :
    ∃ f g fs, frames = f :: g :: fs ∧
      f.bytes.length + g.bytes.length ≤ n ∧
      whole Frame.bytes frames n = [f, g] := by
  cases frames with
  | nil =>
      cases h
  | cons f fs =>
      rw [whole] at h ⊢
      split_ifs at h ⊢ with hlen
      · rw [List.length_cons, Nat.add_right_cancel_iff] at h
        obtain ⟨g, gs, rfl, hlen', hwhole⟩ := whole_eq_one h
        exact ⟨f, g, gs, rfl, by omega, by rw [hwhole]⟩

end Whole

section Exactness

/-- The messages are the whole frames, and no access was out of bounds. -/
structure ClientExact (frames : List Frame) (n : Nat)
    (tr : List ClientObservation) : Prop where
  shows : List.Forall₂ MessageBody.Shows (messagesOf tr)
    (whole Frame.bytes frames n)
  bounds : InBounds tr

/-- Calls on which framing is exact. -/
inductive Harmless : List Frame → List (List UInt8) → Prop
  /-- Too few bytes for a message. -/
  | short (frames : List Frame) (chunks : List (List UInt8))
      (hlen : chunks.flatten.length ≤ 5) :
      Harmless frames chunks
  /-- The first call has the first frame, and not much follows. -/
  | first (f : Frame) (fs : List Frame) (chunk : List UInt8)
      (chunks : List (List UInt8)) (hfirst : f.bytes.length ≤ chunk.length)
      (hlen : (chunk :: chunks).flatten.length ≤ 9) :
      Harmless (f :: fs) (chunk :: chunks)
  /-- The first call has the first frame alone, the second the second one. -/
  | second (f g : Frame) (fs : List Frame) (chunk chunk' : List UInt8)
      (chunks : List (List UInt8)) (hfirst : chunk.length = f.bytes.length)
      (hsecond : f.bytes.length + g.bytes.length ≤
        chunk.length + chunk'.length)
      (hlen : (chunk :: chunk' :: chunks).flatten.length ≤ 13) :
      Harmless (f :: g :: fs) (chunk :: chunk' :: chunks)
  /-- The last call repeats the length field. -/
  | repeated (frames : List Frame) (chunks : List (List UInt8))
      (len : UInt8) (hlen : len = 3 ∨ len = 4)
      (hchunks : chunks.flatten = [len, 0, 0, 0]) :
      Harmless frames (chunks ++ [[len, 0, 0, 0, len]])

/-- How far an exact reception can have come. -/
theorem exact_totals
    {frames : List Frame} {n : Nat} {st : Option TCPClient}
    {tr : List ClientObservation} (hinv : ClientInv n st tr)
    (h : ClientExact frames n tr) :
    n ≤ 5 ∨
      (6 ≤ n ∧ n ≤ 9 ∧ ∃ f fs, frames = f :: fs ∧ f.bytes.length ≤ n ∧
        whole Frame.bytes frames n = [f]) ∨
      (12 ≤ n ∧ n ≤ 13 ∧ ∃ f g fs, frames = f :: g :: fs ∧
        f.bytes.length + g.bytes.length ≤ n ∧
        whole Frame.bytes frames n = [f, g]) := by
  have hcount := h.shows.length_eq
  have hsix := six_mul_whole_le frames n
  rw [hinv.count] at hcount
  rw [← hcount] at hsix
  rcases Nat.lt_or_ge 5 n with hgt | hle
  · right
    rcases Nat.lt_or_ge 9 n with hmore | hone
    · right
      refine ⟨by omega, by omega, whole_eq_two ?_⟩
      omega
    · left
      refine ⟨by omega, hone, whole_eq_one ?_⟩
      omega
  · exact Or.inl hle

end Exactness

section Messages

variable {c : TCPClient} {chunk : List UInt8} {n : Nat}

/-- Messages of a call that finds `n` bytes with those it stores. -/
theorem messagesOf_receive
    (h : Unwritten c) (hne : chunk ≠ [])
    (hlen : chunk.length ≤ RECV_BUFFER_SIZE)
    (hpos : c.lastPos + chunk.length = n) :
    (n ≤ 5 → messagesOf (TCPClient.receive (some c) chunk).2 = []) ∧
    (6 ≤ n → n ≤ 9 → messagesOf (TCPClient.receive (some c) chunk).2 =
      [MessageBody.ofBytes (storeChunk c chunk).memory n]) ∧
    (10 ≤ n → n ≤ 13 → messagesOf (TCPClient.receive (some c) chunk).2 =
      [MessageBody.ofBytes (storeChunk c chunk).memory n,
        MessageBody.ofBytes ((storeChunk c chunk).memory.move 0 4 4)
          (n - 4)]) := by
  have hun := h.storeChunk hlen
  have hpos' : (storeChunk c chunk).lastPos = n := hpos
  rw [receive_loop c hne]
  refine ⟨fun hshort => ?_, fun hlow hhigh => ?_, fun hlow hhigh => ?_⟩
  · rw [recvLoop_stop (by omega)]
    rfl
  · rw [recvLoop_one hun hpos' hlow hhigh (by omega)]
    rfl
  · rw [recvLoop_two hun hpos' hlow hhigh (by omega)]
    rfl

/-- A call that finds at most 13 bytes stays inside the buffers. -/
theorem inBounds_receive
    (h : Unwritten c) (hne : chunk ≠ [])
    (hlen : chunk.length ≤ RECV_BUFFER_SIZE)
    (hpos : c.lastPos + chunk.length = n) (hsmall : n ≤ 13) :
    InBounds (TCPClient.receive (some c) chunk).2 := by
  have hun := h.storeChunk hlen
  have hpos' : (storeChunk c chunk).lastPos = n := hpos
  have hstore : InBounds [.access .m_buffer_recv 0 chunk.length] := by
    intro buffer start count hmem
    cases List.mem_singleton.mp hmem
    rw [Nat.zero_add]
    exact hlen
  have hnone : InBounds [] := by
    intro buffer start count hmem
    cases hmem
  rw [receive_loop c hne]
  refine hstore.append ?_
  have hroom : n ≤ RECV_BUFFER_SIZE := by
    rw [RECV_BUFFER_SIZE]
    omega
  rcases Nat.lt_or_ge n 6 with hshort | hlow
  · rw [recvLoop_stop (by omega)]
    exact hnone
  · rcases Nat.lt_or_ge n 10 with hone | htwo
    · rw [recvLoop_one hun hpos' hlow (by omega) (by omega)]
      exact inBounds_passOut hroom
    · rw [recvLoop_two hun hpos' htwo hsmall (by omega)]
      exact (inBounds_passOut hroom).append (inBounds_passOut (by omega))

end Messages

section Necessity

variable {frames : List Frame} {chunks : List (List UInt8)}
  {chunk : List UInt8} {f g : Frame} {fs : List Frame}

/-- The first frame is at the front of what was received. -/
theorem first_bytes
    {received : List UInt8}
    (hstream : received <+: stream Frame.bytes (f :: fs))
    (hlen : f.bytes.length ≤ received.length) {i : Nat}
    (hi : i < f.bytes.length) :
    received[i]? = f.bytes[i]? := by
  rw [stream_cons] at hstream
  exact getElem?_of_prefix (List.prefix_of_prefix_length_le
    (List.prefix_append _ _) hstream hlen) hi

/-- The second frame comes right behind the first one. -/
theorem second_bytes
    {received : List UInt8}
    (hstream : received <+: stream Frame.bytes (f :: g :: fs))
    {i : Nat} (hi : i < g.bytes.length)
    (hlen : f.bytes.length + i < received.length) :
    received[f.bytes.length + i]? = g.bytes[i]? := by
  rw [← getElem?_of_prefix hstream hlen, stream_cons, stream_cons,
    List.getElem?_append_right (Nat.le_add_right _ _),
    Nat.add_sub_cancel_left, List.getElem?_append_left hi]

/-- A message that shows a frame has copied it from the stored bytes. -/
theorem stored_bytes
    {c : TCPClient} {n : Nat}
    (hshows : (MessageBody.ofBytes (storeChunk c chunk).memory n).Shows f)
    (hn : f.bytes.length ≤ n) {i : Nat} (hi : i < f.bytes.length) :
    f.bytes[i]? = some ((chunk[i]?).getD (c.memory i)) := by
  have hheld := MessageBody.holds_of_ofBytes_shows hshows hn i hi
  rwa [Nat.zero_add] at hheld

/-- What a later call stores repeats the frame it is taken for. -/
theorem repeated_bytes
    {c : TCPClient} {n : Nat} (received : List UInt8)
    (hshows : (MessageBody.ofBytes (storeChunk c chunk).memory n).Shows f)
    (hn : f.bytes.length ≤ n) {i : Nat} (hi : i < f.bytes.length)
    (hchunk : i < chunk.length) :
    (received ++ chunk)[received.length + i]? = f.bytes[i]? := by
  rw [stored_bytes hshows hn hi,
    List.getElem?_append_right (Nat.le_add_right _ _),
    Nat.add_sub_cancel_left, List.getElem?_eq_getElem hchunk]
  rfl

/-- The message of the first frame comes with a call behind the first one. -/
structure LateFrame (c : TCPClient) (chunks : List (List UInt8))
    (chunk : List UInt8) (f : Frame) (fs : List Frame) (n : Nat) : Prop where
  frames : chunks.flatten ++ chunk <+: stream Frame.bytes (f :: fs)
  started : 1 ≤ chunks.flatten.length
  short : chunks.flatten.length ≤ 5
  nonempty : chunk ≠ []
  total : chunks.flatten.length + chunk.length = n
  whole : f.bytes.length ≤ n
  shows : (MessageBody.ofBytes (storeChunk c chunk).memory n).Shows f

/-- A frame whose message comes with a later call repeats its length field. -/
theorem LateFrame.first
    {c : TCPClient} {n : Nat} (h : LateFrame c chunks chunk f fs n)
    (hn : n ≤ 13) :
    4 ≤ chunks.flatten.length ∧
      f.bytes[chunks.flatten.length]? = some (UInt8.ofNat f.length) := by
  obtain ⟨hstream, hsome, hshort, hne, htotal, hlen, hshows⟩ := h
  have hsix := f.six_le
  have hsize := f.bytes_length
  have hbounds := f.length_bounds
  simp only [MessageBody.HEADER_LEN_BYTES, MessageBody.HEADER_TYPE_BYTES]
    at hsize hbounds
  have hrepeat := repeated_bytes chunks.flatten hshows hlen (i := 0)
    (by omega) (List.length_pos_iff.mpr hne)
  rw [Nat.add_zero, first_bytes hstream (by rw [List.length_append]; omega)
    (by omega), f.bytes_zero] at hrepeat
  refine ⟨?_, hrepeat⟩
  by_contra hlow
  rw [f.bytes_header (by omega) hsome (by omega)] at hrepeat
  exact ofNat_ne_zero (by omega) (by omega) (Option.some.inj hrepeat).symm

/-- When the message comes late, the calls repeat the length field. -/
theorem LateFrame.calls
    {c : TCPClient} {n : Nat} (h : LateFrame c chunks chunk f fs n)
    (hn : n ≤ 9)
    (hzero : ∀ i, chunks.flatten.length ≤ i → c.memory i = 0) :
    chunks.flatten = [UInt8.ofNat f.length, 0, 0, 0] ∧
      chunk = [UInt8.ofNat f.length, 0, 0, 0, UInt8.ofNat f.length] := by
  obtain ⟨hfour, hfield⟩ := h.first (by omega)
  obtain ⟨hstream, hsome, hshort, hne, htotal, hlen, hshows⟩ := h
  have hsix := f.six_le
  have hsize := f.bytes_length
  have hbounds := f.length_bounds
  simp only [MessageBody.HEADER_LEN_BYTES, MessageBody.HEADER_TYPE_BYTES]
    at hsize hbounds
  -- a cell that no call has written would have to hold the length field
  have hwritten : chunks.flatten.length < chunk.length := by
    by_contra hge
    have hstored := stored_bytes hshows hlen
      (i := chunks.flatten.length) (by omega)
    rw [hfield, List.getElem?_eq_none (Nat.le_of_not_lt hge)] at hstored
    exact ofNat_ne_zero (by omega) (by omega)
      ((Option.some.inj hstored).trans (hzero _ (Nat.le_refl _)))
  have hreceived : f.bytes.length ≤ (chunks.flatten ++ chunk).length := by
    rw [List.length_append]
    omega
  have hold : chunks.flatten.length = 4 := by
    omega
  have hnew : chunk.length = 5 := by
    omega
  rw [hold] at hfield
  constructor
  · refine List.ext_getElem? fun i => ?_
    rcases Nat.lt_or_ge i 4 with hi | hi
    · rw [← f.bytes_field (by omega) hi,
        ← first_bytes hstream hreceived (by omega),
        List.getElem?_append_left (by omega)]
    · rw [List.getElem?_eq_none (by omega),
        List.getElem?_eq_none (by simpa using hi)]
  · refine List.ext_getElem? fun i => ?_
    rcases Nat.lt_or_ge i 5 with hi | hi
    · have hrepeat := repeated_bytes chunks.flatten hshows hlen
        (i := i) (by omega) (by omega)
      rw [List.getElem?_append_right (Nat.le_add_right _ _),
        Nat.add_sub_cancel_left] at hrepeat
      rw [hrepeat]
      rcases Nat.lt_or_ge i 4 with hi' | hi'
      · rw [f.bytes_field (by omega) hi']
        exact (@List.getElem?_append_left _ [_, 0, 0, 0] [_] i hi').symm
      · obtain rfl : i = 4 := by
          omega
        exact hfield
    · rw [List.getElem?_eq_none (by omega),
        List.getElem?_eq_none (by simpa using hi)]

/-- The third length field cannot lie in the header of a second frame. -/
theorem repeated_ne_two
    {len : UInt8} (hlen : len ≠ 0)
    (hstream : [len, 0, 0, 0, len, 0, 0, 0, len] <+:
      stream Frame.bytes (f :: fs)) :
    f.length ≠ 2 := by
  intro htwo
  have hsize := f.bytes_length
  simp only [MessageBody.HEADER_LEN_BYTES] at hsize
  cases fs with
  | nil =>
      have hle := hstream.length_le
      rw [stream_cons, List.length_append] at hle
      simp only [stream, List.flatMap_nil, List.length_nil,
        List.length_cons] at hle
      omega
  | cons g gs =>
      have hsix := g.six_le
      have hsecond := second_bytes hstream (i := 2) (by omega)
        (by show _ < 9; omega)
      have height : f.bytes.length + 2 = 8 := by
        omega
      rw [height, g.bytes_two] at hsecond
      exact hlen (Option.some.inj hsecond)

/-- One message that comes late is the case of the repeated length field. -/
theorem LateFrame.repeated
    {c : TCPClient} {n : Nat} (h : LateFrame c chunks chunk f fs n)
    (hn : n ≤ 9)
    (hzero : ∀ i, chunks.flatten.length ≤ i → c.memory i = 0) :
    Harmless (f :: fs) (chunks ++ [chunk]) := by
  obtain ⟨hold, rfl⟩ := h.calls hn hzero
  obtain ⟨hstream, hsome, hshort, hne, htotal, hlen, hshows⟩ := h
  have hsize := f.bytes_length
  have hbounds := f.length_bounds
  simp only [MessageBody.HEADER_LEN_BYTES, MessageBody.HEADER_TYPE_BYTES]
    at hsize hbounds
  have hlength : UInt8.ofNat f.length ≠ 0 :=
    ofNat_ne_zero (by omega) (by omega)
  rw [hold] at hstream hzero
  have hnottwo := repeated_ne_two hlength hstream
  have hnotfive : f.length ≠ 5 := by
    intro hfive
    have hninth := first_bytes hstream (i := 8) (by show _ ≤ 9; omega)
      (by omega)
    rw [stored_bytes hshows hlen (by omega)] at hninth
    exact hlength ((Option.some.inj hninth).trans
      (hzero 8 (by show 4 ≤ 8; omega)))
  refine Harmless.repeated (f :: fs) chunks (UInt8.ofNat f.length) ?_ hold
  rcases (by omega : f.length = 3 ∨ f.length = 4) with hthree | hfour
  · rw [hthree]
    exact Or.inl rfl
  · rw [hfour]
    exact Or.inr rfl

/-- Two messages never come with one call. -/
theorem no_two_messages
    {c : TCPClient} {n : Nat}
    (hstream : chunks.flatten ++ chunk <+:
      stream Frame.bytes (f :: g :: fs))
    (hshort : chunks.flatten.length ≤ 5) (hne : chunk ≠ [])
    (htotal : chunks.flatten.length + chunk.length = n) (hlow : 12 ≤ n)
    (hn : n ≤ 13) (hlen : f.bytes.length + g.bytes.length ≤ n)
    (hfirst : (MessageBody.ofBytes (storeChunk c chunk).memory n).Shows f)
    (hsecond : (MessageBody.ofBytes
      ((storeChunk c chunk).memory.move 0 4 4) (n - 4)).Shows g) :
    False := by
  have hfsix := f.six_le
  have hgsix := g.six_le
  have hfsize := f.bytes_length
  have hgsize := g.bytes_length
  have hbounds := g.length_bounds
  simp only [MessageBody.HEADER_LEN_BYTES, MessageBody.HEADER_TYPE_BYTES]
    at hfsize hgsize hbounds
  have hlength : UInt8.ofNat g.length ≠ 0 :=
    ofNat_ne_zero (by omega) (by omega)
  -- the first byte of the second frame would have to be its length and 0
  have hfield := second_bytes hstream (i := 0) (by omega)
    (by rw [List.length_append]; omega)
  rw [Nat.add_zero, g.bytes_zero] at hfield
  suffices hzero :
      (chunks.flatten ++ chunk)[f.bytes.length]? = some 0 by
    rw [hfield] at hzero
    exact hlength (Option.some.inj hzero)
  rcases Nat.eq_zero_or_pos chunks.flatten.length with hnone | hsome
  · have hheld := MessageBody.holds_of_ofBytes_shows hsecond (by omega)
      (f.bytes.length - 4) (by omega)
    rw [g.bytes_header (by omega) (by omega) (by omega), Nat.zero_add,
      Memory.move_head_apply, if_pos (by omega), storeChunk_apply,
      List.getElem?_eq_getElem (by omega)] at hheld
    have hindex : 4 + (f.bytes.length - 4) = f.bytes.length := by
      omega
    rw [List.eq_nil_of_length_eq_zero hnone, List.nil_append,
      List.getElem?_eq_getElem (by omega), hheld]
    simp only [Option.getD_some, hindex]
  · have hlate : LateFrame c chunks chunk f (g :: fs) n :=
      ⟨hstream, hsome, hshort, hne, htotal, by omega, hfirst⟩
    obtain ⟨hfour, -⟩ := hlate.first hn
    have hrepeat := repeated_bytes chunks.flatten hfirst (by omega)
      (i := f.bytes.length - chunks.flatten.length) (by omega) (by omega)
    rw [f.bytes_header (by omega) (by omega) (by omega)] at hrepeat
    have hindex : chunks.flatten.length +
        (f.bytes.length - chunks.flatten.length) = f.bytes.length := by
      omega
    rwa [hindex] at hrepeat

/-- A second message is right only if the first frame came alone. -/
theorem second_message
    {c : TCPClient} {n : Nat}
    (hstream : chunks.flatten ++ chunk <+:
      stream Frame.bytes (f :: g :: fs))
    (hne : chunk ≠ []) (hfirst : f.bytes.length ≤ chunks.flatten.length)
    (htotal : chunks.flatten.length + chunk.length = n)
    (hlow : 12 ≤ n) (hn : n ≤ 13)
    (hlen : f.bytes.length + g.bytes.length ≤ n)
    (hold : chunks.flatten.length ≤ 9)
    (hshows : (MessageBody.ofBytes
      (storeChunk c chunk).memory (n - 4)).Shows g) :
    chunks.flatten.length = f.bytes.length := by
  have hfsix := f.six_le
  have hgsize := g.bytes_length
  have hbounds := g.length_bounds
  simp only [MessageBody.HEADER_LEN_BYTES, MessageBody.HEADER_TYPE_BYTES]
    at hgsize hbounds
  have hrepeat := repeated_bytes chunks.flatten hshows (by omega)
    (i := 0) (by omega) (List.length_pos_iff.mpr hne)
  rw [Nat.add_zero, g.bytes_zero] at hrepeat
  by_contra hgap
  have hindex : f.bytes.length +
      (chunks.flatten.length - f.bytes.length) = chunks.flatten.length := by
    omega
  have hpositive := List.length_pos_iff.mpr hne
  have hheader := second_bytes hstream
    (i := chunks.flatten.length - f.bytes.length) (by omega)
    (by rw [List.length_append]; omega)
  rw [hindex, hrepeat, g.bytes_header (by omega) (by omega) (by omega)]
    at hheader
  exact ofNat_ne_zero (by omega) (by omega) (Option.some.inj hheader)

/-- A length field in front of a stream is that of its first frame. -/
theorem length_of_header
    {len : UInt8} {rest : List UInt8}
    (hstream : [len, 0, 0, 0] ++ rest <+: stream Frame.bytes (f :: fs)) :
    f.length = len.toNat := by
  have hfield : leBytes MessageBody.HEADER_LEN_BYTES f.length =
      [len, 0, 0, 0] := by
    have hfour := (List.prefix_append [len, 0, 0, 0] rest).trans hstream
    rw [stream_cons, Frame.bytes, List.append_assoc] at hfour
    exact (List.prefix_of_prefix_length_le (List.prefix_append _ _) hfour
      (Nat.le_refl 4)).eq_of_length rfl
  have hvalue := leValue_leBytes MessageBody.HEADER_LEN_BYTES f.length
  have hbounds := f.length_bounds
  rw [hfield] at hvalue
  simp only [leValue, MessageBody.HEADER_LEN_BYTES, UInt8.toNat_zero,
    RECV_BUFFER_SIZE] at hvalue hbounds
  omega

theorem repeated_size
    {len : UInt8} (hlen : len = 3 ∨ len = 4) {rest : List UInt8}
    (hstream : [len, 0, 0, 0] ++ rest <+: stream Frame.bytes (f :: fs)) :
    f.bytes.length = 7 ∨ f.bytes.length = 8 := by
  rw [f.bytes_length, length_of_header hstream]
  rcases hlen with rfl | rfl
  · exact Or.inl rfl
  · exact Or.inr rfl

/-- No second frame is whole behind a repeated length field. -/
theorem repeated_alone
    {len : UInt8} (hlen : len = 3 ∨ len = 4)
    (hstream : [len, 0, 0, 0, len, 0, 0, 0, len] ++ chunk <+:
      stream Frame.bytes (f :: g :: fs)) :
    13 < f.bytes.length + g.bytes.length := by
  have hsix := g.six_le
  have hsize := g.bytes_length
  have hbounds := g.length_bounds
  simp only [MessageBody.HEADER_LEN_BYTES, MessageBody.HEADER_TYPE_BYTES]
    at hsize hbounds
  rcases repeated_size hlen hstream with hseven | height
  · by_contra hle
    have hreceived : 9 ≤
        ([len, 0, 0, 0, len, 0, 0, 0, len] ++ chunk).length := by
      simp
    have hsecond := second_bytes hstream (i := 0) (by omega) (by omega)
    rw [Nat.add_zero, hseven, g.bytes_zero] at hsecond
    exact ofNat_ne_zero (by omega) (by omega)
      (Option.some.inj hsecond).symm
  · omega

/-- Bytes in calls that each have some: none at all means no call. -/
theorem eq_nil_of_flatten
    (hnonempty : ∀ chunk ∈ chunks, chunk ≠ [])
    (h : chunks.flatten.length = 0) : chunks = [] := by
  cases chunks with
  | nil =>
      rfl
  | cons chunk chunks =>
      rw [List.flatten_cons, List.length_append] at h
      have hpos := List.length_pos_iff.mpr
        (hnonempty chunk List.mem_cons_self)
      omega

/-- A second message is right only with the second call. -/
theorem second_of_first
    {c : TCPClient} {first : List UInt8} {body : MessageBody}
    (hun : Unwritten c)
    (hpos : c.lastPos = (first :: chunks).flatten.length - 4)
    (hnonempty : ∀ chunk ∈ chunks, chunk ≠ []) (hne : chunk ≠ [])
    (hlen : chunk.length ≤ RECV_BUFFER_SIZE)
    (hstream : (first :: chunks).flatten ++ chunk <+:
      stream Frame.bytes (f :: g :: fs))
    (hfirst : f.bytes.length ≤ first.length)
    (hold : (first :: chunks).flatten.length ≤ 9)
    (hlow : 12 ≤ (first :: chunks).flatten.length + chunk.length)
    (hhigh : (first :: chunks).flatten.length + chunk.length ≤ 13)
    (hle : f.bytes.length + g.bytes.length ≤
      (first :: chunks).flatten.length + chunk.length)
    (hshows : List.Forall₂ MessageBody.Shows
      ([body] ++ messagesOf (TCPClient.receive (some c) chunk).2) [f, g]) :
    Harmless (f :: g :: fs) ((first :: chunks) ++ [chunk]) := by
  obtain ⟨-, hone, -⟩ := messagesOf_receive hun hne hlen
    (show c.lastPos + chunk.length =
      ((first :: chunks).flatten.length + chunk.length - 4 : Nat) by omega)
  rw [hone (by omega) (by omega)] at hshows
  obtain ⟨-, hrest⟩ := List.forall₂_cons.mp hshows
  have hsecond := (List.forall₂_cons.mp hrest).1
  have hflatten : (first :: chunks).flatten.length =
      first.length + chunks.flatten.length := by
    rw [List.flatten_cons, List.length_append]
  have hexactly := second_message hstream hne (by omega) rfl hlow hhigh
    hle hold hsecond
  have hnil : chunks = [] :=
    eq_nil_of_flatten hnonempty (by omega)
  subst hnil
  simp only [List.flatten_cons, List.flatten_nil, List.append_nil]
    at hexactly hle hhigh
  refine Harmless.second f g fs first chunk [] hexactly hle ?_
  simpa using hhigh

/-- Calls on which framing stays exact are harmless. -/
theorem Harmless.of_exact
    {st : Option TCPClient} {tr : List ClientObservation}
    (hharmless : Harmless frames chunks)
    (hnonempty : ∀ chunk ∈ chunks, chunk ≠ [])
    (hinv : ClientInv chunks.flatten.length st tr) (hne : chunk ≠ [])
    (hlen : chunk.length ≤ RECV_BUFFER_SIZE)
    (hstream : chunks.flatten ++ chunk <+: stream Frame.bytes frames)
    (hexact : ClientExact frames (chunks.flatten.length + chunk.length)
      (tr ++ (TCPClient.receive st chunk).2)) :
    Harmless frames (chunks ++ [chunk]) := by
  have htotals := exact_totals (hinv.step hne hlen) hexact
  have hcount := hinv.count
  have hshows := hexact.shows
  have hflatten : (chunks ++ [chunk]).flatten.length =
      chunks.flatten.length + chunk.length := by
    rw [List.flatten_append, List.flatten_singleton, List.length_append]
  have hpositive := List.length_pos_iff.mpr hne
  obtain ⟨c, rfl, hun, hpos, hzero⟩ := hinv.client
  rw [messagesOf_append] at hshows
  rcases Nat.lt_or_ge 5 chunks.flatten.length with hlong | hshort
  · cases hharmless with
    | short frames chunks hold =>
        omega
    | first f fs first chunks hfirst hold =>
        rcases htotals with htotal | ⟨-, hhigh, -⟩ |
          ⟨hlow, hhigh, f', g, fs', heq, hle, hwhole⟩
        · omega
        · exact Harmless.first f fs first (chunks ++ [chunk]) hfirst
            (by rw [← List.cons_append, hflatten]; exact hhigh)
        · cases heq
          obtain ⟨body, hbody⟩ := List.length_eq_one_iff.mp
            (show (messagesOf tr).length = 1 by omega)
          rw [hbody, hwhole] at hshows
          exact second_of_first hun (by omega)
            (fun d hd => hnonempty d (List.mem_cons_of_mem _ hd)) hne hlen
            hstream hfirst hold hlow hhigh hle hshows
    | second f g fs first second chunks hfirst hsecond hold =>
        have hfsix := f.six_le
        have hgsix := g.six_le
        rw [List.flatten_cons, List.flatten_cons, List.length_append,
          List.length_append] at htotals hlong
        rcases htotals with htotal | ⟨-, hhigh, -⟩ | ⟨-, hhigh, -⟩
        · omega
        · omega
        · refine Harmless.second f g fs first second (chunks ++ [chunk])
            hfirst hsecond ?_
          rw [← List.cons_append, ← List.cons_append, hflatten,
            List.flatten_cons, List.flatten_cons, List.length_append,
            List.length_append]
          exact hhigh
    | repeated frames chunks len hcase hchunks =>
        have hall : (chunks ++ [[len, 0, 0, 0, len]]).flatten =
            [len, 0, 0, 0, len, 0, 0, 0, len] := by
          rw [List.flatten_append, hchunks]
          rfl
        rw [hall] at htotals hstream
        simp only [List.length_cons, List.length_nil] at htotals
        rcases htotals with htotal | ⟨-, hhigh, -⟩ |
          ⟨-, hhigh, f, g, fs, rfl, hle, -⟩
        · omega
        · omega
        · have halone := repeated_alone hcase hstream
          omega
  · have hnone : messagesOf tr = [] := by
      apply List.eq_nil_of_length_eq_zero
      omega
    obtain ⟨-, hone, htwo⟩ := messagesOf_receive hun hne hlen
      (show c.lastPos + chunk.length =
        (chunks.flatten.length + chunk.length : Nat) by omega)
    rw [hnone, List.nil_append] at hshows
    rcases htotals with htotal | ⟨hlow, hhigh, f, fs, rfl, hle, hwhole⟩ |
      ⟨hlow, hhigh, f, g, fs, rfl, hle, hwhole⟩
    · exact Harmless.short _ _ (by omega)
    · rw [hone hlow hhigh, hwhole] at hshows
      have hfirst := (List.forall₂_cons.mp hshows).1
      rcases Nat.eq_zero_or_pos chunks.flatten.length with hempty | hsome
      · have hnil := eq_nil_of_flatten hnonempty hempty
        subst hnil
        exact Harmless.first f fs chunk [] (by simpa using hle)
          (by simpa using hhigh)
      · have hlate : LateFrame c chunks chunk f fs _ :=
          ⟨hstream, hsome, hshort, hne, rfl, hle, hfirst⟩
        exact hlate.repeated hhigh (hzero hshort)
    · rw [htwo (by omega) hhigh, hwhole] at hshows
      obtain ⟨hfirst, hrest⟩ := List.forall₂_cons.mp hshows
      have hsecond := (List.forall₂_cons.mp hrest).1
      exact absurd (no_two_messages hstream hshort hne rfl hlow hhigh hle
        hfirst hsecond) id

end Necessity

section Sufficiency

variable {frames : List Frame} {chunks : List (List UInt8)}
  {chunk : List UInt8} {st : Option TCPClient}
  {tr : List ClientObservation}

/-- Harmless calls receive at most 13 bytes. -/
theorem Harmless.length_le (h : Harmless frames chunks) :
    chunks.flatten.length ≤ 13 := by
  cases h with
  | short frames chunks hlen =>
      omega
  | first f fs chunk chunks hfirst hlen =>
      omega
  | second f g fs chunk chunk' chunks hfirst hsecond hlen =>
      exact hlen
  | repeated frames chunks len hlen hchunks =>
      rw [List.flatten_append, hchunks]
      show 9 ≤ 13
      omega

/-- A first part of harmless calls is harmless. -/
theorem Harmless.of_concat
    (h : Harmless frames (chunks ++ [chunk])) :
    Harmless frames chunks := by
  generalize hall : chunks ++ [chunk] = all at h
  have hflatten := congrArg (fun cs => (List.flatten cs).length) hall
  simp only [List.flatten_append, List.flatten_singleton,
    List.length_append] at hflatten
  cases h with
  | short frames all hlen =>
      exact Harmless.short _ _ (by omega)
  | first f fs first rest hfirst hlen =>
      cases chunks with
      | nil =>
          exact Harmless.short _ _ (Nat.zero_le 5)
      | cons c chunks =>
          obtain ⟨rfl, rfl⟩ := List.cons.inj hall
          exact Harmless.first f fs c chunks hfirst (by omega)
  | second f g fs first second rest hfirst hsecond hlen =>
      cases chunks with
      | nil =>
          exact Harmless.short _ _ (Nat.zero_le 5)
      | cons c chunks =>
          obtain ⟨rfl, hrest⟩ := List.cons.inj hall
          cases chunks with
          | nil =>
              have hgsix := g.six_le
              rw [List.flatten_cons, List.flatten_cons,
                List.length_append, List.length_append] at hlen
              exact Harmless.first f (g :: fs) c [] (by omega)
                (by simp; omega)
          | cons d chunks =>
              obtain ⟨rfl, rfl⟩ := List.cons.inj hrest
              exact Harmless.second f g fs c d chunks hfirst hsecond
                (by omega)
  | repeated frames rest len hlen hchunks =>
      obtain ⟨rfl, -⟩ := List.append_inj' hall rfl
      have hfour : chunks.flatten.length = 4 := by
        rw [hchunks]
        rfl
      exact Harmless.short _ _ (by omega)

/-- A call that shows the frames it completes. -/
theorem ClientExact.append
    {n m : Nat} {out : List ClientObservation} {gs : List Frame}
    (h : ClientExact frames n tr) (hout : InBounds out)
    (hshows : List.Forall₂ MessageBody.Shows (messagesOf out) gs)
    (hwhole : whole Frame.bytes frames m =
      whole Frame.bytes frames n ++ gs) :
    ClientExact frames m (tr ++ out) := by
  refine ⟨?_, h.bounds.append hout⟩
  rw [messagesOf_append, hwhole]
  exact List.rel_append h.shows hshows

/-- Nothing new is whole and nothing is handed on. -/
theorem ClientExact.idle
    {n m : Nat} {out : List ClientObservation}
    (h : ClientExact frames n tr) (hinv : ClientInv n st tr)
    {st' : Option TCPClient} (hinv' : ClientInv m st' (tr ++ out))
    (hout : InBounds out) (hle : n ≤ m) (hsame : (m - 2) / 4 = (n - 2) / 4)
    (hwhole : m / 6 ≤ (n - 2) / 4) :
    ClientExact frames m (tr ++ out) := by
  have hcount := hinv'.count
  rw [messagesOf_append, List.length_append, hinv.count] at hcount
  have hnone : messagesOf out = [] :=
    List.eq_nil_of_length_eq_zero (by omega)
  have hprefix := whole_prefix_of_le Frame.bytes frames hle
  have hsix := six_mul_whole_le frames m
  have hlength := h.shows.length_eq
  rw [hinv.count] at hlength
  have heq := hprefix.eq_of_length
    (Nat.le_antisymm hprefix.length_le (by omega))
  refine h.append hout ?_ (heq.symm.trans (List.append_nil _).symm)
  rw [hnone]
  exact List.Forall₂.nil

/-- A frame at the front of what is stored is shown. -/
theorem stored_shows
    {c : TCPClient} {f : Frame} {n : Nat} (hpre : f.bytes <+: chunk)
    (hn : f.bytes.length ≤ n) :
    (MessageBody.ofBytes (storeChunk c chunk).memory n).Shows f := by
  obtain ⟨rest, rfl⟩ := hpre
  have hheld : (storeChunk c (f.bytes ++ rest)).memory.Holds 0
      (f.bytes ++ rest) := by
    show (c.memory.store 0 (f.bytes ++ rest)).Holds 0 _
    exact Memory.holds_store _ _ _
  exact MessageBody.ofBytes_shows
    ((Memory.holds_append_iff _ _ _ _).mp hheld).1 hn

/-- The first call shows the first frame. -/
theorem first_call
    {f : Frame} {fs : List Frame} {c : TCPClient} (hun : Unwritten c)
    (hpos : c.lastPos = 0) (hne : chunk ≠ [])
    (hlen : chunk.length ≤ RECV_BUFFER_SIZE)
    (hstream : chunk <+: stream Frame.bytes (f :: fs))
    (hfirst : f.bytes.length ≤ chunk.length) (hsmall : chunk.length ≤ 9) :
    List.Forall₂ MessageBody.Shows
      (messagesOf (TCPClient.receive (some c) chunk).2) [f] := by
  have hsix := f.six_le
  obtain ⟨-, hone, -⟩ := messagesOf_receive hun hne hlen
    (show c.lastPos + chunk.length = (chunk.length : Nat) by omega)
  have hfront : f.bytes <+: chunk := by
    rw [stream_cons] at hstream
    exact List.prefix_of_prefix_length_le (List.prefix_append _ _) hstream
      hfirst
  rw [hone (by omega) hsmall]
  exact List.Forall₂.cons (stored_shows hfront hfirst) List.Forall₂.nil

/-- The second call shows the second frame. -/
theorem second_call
    {f g : Frame} {fs : List Frame} {c : TCPClient} {old : List UInt8}
    (hun : Unwritten c) (hpos : c.lastPos = old.length - 4) (hne : chunk ≠ [])
    (hlen : chunk.length ≤ RECV_BUFFER_SIZE)
    (hstream : old ++ chunk <+: stream Frame.bytes (f :: g :: fs))
    (hfirst : old.length = f.bytes.length)
    (hsecond : g.bytes.length ≤ chunk.length)
    (hsmall : old.length + chunk.length ≤ 13) :
    List.Forall₂ MessageBody.Shows
      (messagesOf (TCPClient.receive (some c) chunk).2) [g] := by
  have hfsix := f.six_le
  have hgsix := g.six_le
  obtain ⟨-, hone, -⟩ := messagesOf_receive hun hne hlen
    (show c.lastPos + chunk.length = (old.length + chunk.length - 4 : Nat)
      by omega)
  have hfront : g.bytes <+: chunk := by
    rw [stream_cons, stream_cons] at hstream
    have hold : old = f.bytes :=
      (List.prefix_of_prefix_length_le
        ((List.prefix_append _ _).trans hstream) (List.prefix_append _ _)
        (Nat.le_of_eq hfirst)).eq_of_length hfirst
    rw [hold, List.prefix_append_right_inj] at hstream
    exact List.prefix_of_prefix_length_le (List.prefix_append _ _) hstream
      hsecond
  rw [hone (by omega) (by omega)]
  exact List.Forall₂.cons (stored_shows hfront (by omega)) List.Forall₂.nil

/-- A call that repeats the length field shows the frame it belongs to. -/
theorem repeated_call
    {f : Frame} {fs : List Frame} {c : TCPClient} {len : UInt8}
    (hun : Unwritten c) (hpos : c.lastPos = 4)
    (hzero : ∀ i, 4 ≤ i → c.memory i = 0)
    (hstream : [len, 0, 0, 0, len, 0, 0, 0, len] <+:
      stream Frame.bytes (f :: fs))
    (hlength : f.bytes.length = 7 ∨ f.bytes.length = 8) :
    List.Forall₂ MessageBody.Shows
      (messagesOf (TCPClient.receive (some c) [len, 0, 0, 0, len]).2)
      [f] := by
  have hne : [len, 0, 0, 0, len] ≠ [] :=
    List.cons_ne_nil _ _
  have hlen : [len, 0, 0, 0, len].length ≤ RECV_BUFFER_SIZE := by
    show 5 ≤ 8192
    omega
  have htotal : c.lastPos + [len, 0, 0, 0, len].length = (9 : Nat) := by
    rw [hpos]
    rfl
  obtain ⟨-, hone, -⟩ := messagesOf_receive hun hne hlen htotal
  rw [hone (by omega) (by omega)]
  refine List.Forall₂.cons (MessageBody.ofBytes_shows ?_ (by omega))
    List.Forall₂.nil
  intro i hi
  rw [← first_bytes hstream (by show _ ≤ 9; omega) hi, Nat.zero_add,
    storeChunk_apply]
  -- behind the five bytes of the call the buffer is still zero
  rcases Nat.lt_or_ge i 5 with hlow | hhigh
  · obtain rfl | rfl | rfl | rfl | rfl :
        i = 0 ∨ i = 1 ∨ i = 2 ∨ i = 3 ∨ i = 4 := by
      omega
    · rfl
    · rfl
    · rfl
    · rfl
    · rfl
  · rw [hzero i (by omega)]
    obtain rfl | rfl | rfl : i = 5 ∨ i = 6 ∨ i = 7 := by
      omega
    · rfl
    · rfl
    · rfl

/-- Harmless calls keep framing exact. -/
theorem Harmless.exact
    (hharmless : Harmless frames (chunks ++ [chunk]))
    (hinv : ClientInv chunks.flatten.length st tr) (hne : chunk ≠ [])
    (hlen : chunk.length ≤ RECV_BUFFER_SIZE)
    (hstream : chunks.flatten ++ chunk <+: stream Frame.bytes frames)
    (hexact : ClientExact frames chunks.flatten.length tr) :
    ClientExact frames (chunks.flatten.length + chunk.length)
      (tr ++ (TCPClient.receive st chunk).2) := by
  have hinv' := hinv.step hne hlen
  have hsmall := hharmless.length_le
  rw [List.flatten_append, List.flatten_singleton, List.length_append]
    at hsmall
  obtain ⟨c, rfl, hun, hpos, hzero⟩ := hinv.client
  have hbounds : InBounds (TCPClient.receive (some c) chunk).2 :=
    inBounds_receive hun hne hlen
      (show c.lastPos + chunk.length = (chunks.flatten.length -
        4 * ((chunks.flatten.length - 2) / 4) + chunk.length : Nat)
        by omega) (by omega)
  generalize hall : chunks ++ [chunk] = all at hharmless
  have hflatten := congrArg (fun cs => (List.flatten cs).length) hall
  simp only [List.flatten_append, List.flatten_singleton,
    List.length_append] at hflatten
  cases hharmless with
  | short frames all hshort =>
      exact hexact.idle hinv hinv' hbounds (Nat.le_add_right _ _)
        (by omega) (by omega)
  | first f fs first rest hfirst hshort =>
      have hsix := f.six_le
      cases chunks with
      | nil =>
          obtain ⟨rfl, -⟩ := List.cons.inj hall
          rw [List.flatten_nil, List.length_nil, Nat.zero_add] at *
          refine hexact.append hbounds
            (first_call hun hpos hne hlen hstream hfirst (by omega)) ?_
          rw [whole_cons_short hfirst (by omega), whole_eq_nil (by omega)]
          rfl
      | cons first' chunks =>
          obtain ⟨rfl, -⟩ := List.cons.inj hall
          have hfront : first'.length ≤
              (first' :: chunks).flatten.length := by
            rw [List.flatten_cons, List.length_append]
            omega
          exact hexact.idle hinv hinv' hbounds (Nat.le_add_right _ _)
            (by omega) (by omega)
  | second f g fs first second rest hfirst hsecond hshort =>
      have hfsix := f.six_le
      have hgsix := g.six_le
      rw [List.flatten_cons, List.flatten_cons, List.length_append,
        List.length_append] at hshort
      cases chunks with
      | nil =>
          -- a single call is not two
          cases (List.cons.inj hall).2
      | cons first' chunks =>
          obtain ⟨rfl, hrest⟩ := List.cons.inj hall
          cases chunks with
          | nil =>
              obtain ⟨rfl, -⟩ := List.cons.inj hrest
              rw [List.flatten_singleton] at *
              refine hexact.append hbounds
                (second_call hun (by omega) hne hlen hstream hfirst
                  (by omega) (by omega)) ?_
              rw [whole, if_pos (by omega),
                whole_cons_short (by omega) (by omega),
                whole_cons_short (by omega) (by omega)]
              rfl
          | cons second' chunks =>
              obtain ⟨rfl, -⟩ := List.cons.inj hrest
              have hfront : first'.length + second'.length ≤
                  (first' :: second' :: chunks).flatten.length := by
                rw [List.flatten_cons, List.flatten_cons,
                  List.length_append, List.length_append]
                omega
              exact hexact.idle hinv hinv' hbounds (Nat.le_add_right _ _)
                (by omega) (by omega)
  | repeated frames rest len hcase hchunks =>
      obtain ⟨rfl, hlast⟩ := List.append_inj' hall rfl
      obtain rfl := List.singleton_inj.mp hlast
      have hfour : chunks.flatten.length = 4 := by
        rw [hchunks]
        rfl
      rw [hfour] at hpos hzero hexact ⊢
      rw [hchunks] at hstream
      cases frames with
      | nil =>
          cases List.prefix_nil.mp hstream
      | cons f fs =>
          have hseven := repeated_size hcase hstream
          refine hexact.append hbounds
            (repeated_call hun hpos (hzero (by omega)) hstream hseven) ?_
          show whole Frame.bytes (f :: fs) 9 = _
          rw [whole_cons_short (by omega) (by omega),
            whole_eq_nil (by omega)]
          rfl

end Sufficiency

section Run

/-- Bytes that the socket can deliver out of the stream of the frames. -/
structure ClientDelivers (frames : List Frame)
    (chunks : List (List UInt8)) : Prop where
  nonempty : ∀ chunk ∈ chunks, chunk ≠ []
  fits : ∀ chunk ∈ chunks, chunk.length ≤ RECV_BUFFER_SIZE
  stream : chunks.flatten <+: stream Frame.bytes frames

/-- After every call the messages so far are the frames received so far. -/
def ClientFramingExact (frames : List Frame)
    (chunks : List (List UInt8)) : Prop :=
  ∀ calls, calls <+: chunks →
    ClientExact frames calls.flatten.length (TCPClient.run calls).2

variable {frames : List Frame} {chunks : List (List UInt8)}
  {chunk : List UInt8}

theorem ClientDelivers.init
    (h : ClientDelivers frames (chunks ++ [chunk])) :
    ClientDelivers frames chunks := by
  refine ⟨fun c hc => h.nonempty c (List.mem_append_left _ hc),
    fun c hc => h.fits c (List.mem_append_left _ hc), ?_⟩
  have hstream := h.stream
  rw [List.flatten_append] at hstream
  exact (List.prefix_append _ _).trans hstream

theorem clientFramingExact_concat :
    ClientFramingExact frames (chunks ++ [chunk]) ↔
      ClientFramingExact frames chunks ∧
        ClientExact frames (chunks ++ [chunk]).flatten.length
          (TCPClient.run (chunks ++ [chunk])).2 := by
  constructor
  · intro h
    refine ⟨fun calls hcalls => ?_, h _ (List.prefix_refl _)⟩
    exact h calls (hcalls.trans (List.prefix_append _ _))
  · rintro ⟨h, hlast⟩ calls hcalls
    rcases List.prefix_concat_iff.mp hcalls with rfl | hcalls
    · exact hlast
    · exact h calls hcalls

theorem clientInv_run (h : ClientDelivers frames chunks) :
    ClientInv chunks.flatten.length (TCPClient.run chunks).1
      (TCPClient.run chunks).2 := by
  induction chunks using List.reverseRecOn with
  | nil =>
      exact clientInv_init
  | append_singleton chunks chunk ih =>
      have hmem : chunk ∈ chunks ++ [chunk] :=
        List.mem_append_right _ (List.mem_singleton.mpr rfl)
      rw [List.flatten_append, List.flatten_singleton, List.length_append,
        TCPClient.run, Machine.run_concat]
      exact (ih h.init).step (h.nonempty chunk hmem) (h.fits chunk hmem)

/-- Framing is exact after every call just when the calls are harmless. -/
theorem clientFramingExact_iff (h : ClientDelivers frames chunks) :
    ClientFramingExact frames chunks ↔ Harmless frames chunks := by
  induction chunks using List.reverseRecOn with
  | nil =>
      refine ⟨fun _ => Harmless.short _ _ (Nat.zero_le 5), ?_⟩
      rintro - calls hcalls
      rw [List.prefix_nil.mp hcalls]
      refine ⟨?_, fun _ _ _ hmem => by cases hmem⟩
      rw [List.flatten_nil, List.length_nil, whole_eq_nil (by omega)]
      exact List.Forall₂.nil
  | append_singleton chunks chunk ih =>
      have hmem : chunk ∈ chunks ++ [chunk] :=
        List.mem_append_right _ (List.mem_singleton.mpr rfl)
      have hne := h.nonempty chunk hmem
      have hlen := h.fits chunk hmem
      have hstream := h.stream
      have hinv := clientInv_run h.init
      rw [clientFramingExact_concat, TCPClient.run, Machine.run_concat]
      rw [List.flatten_append, List.flatten_singleton] at hstream ⊢
      rw [List.length_append]
      constructor
      · rintro ⟨hbefore, hlast⟩
        exact ((ih h.init).mp hbefore).of_exact h.init.nonempty hinv hne hlen
          hstream hlast
      · intro hharmless
        have hbefore := (ih h.init).mpr hharmless.of_concat
        exact ⟨hbefore, hharmless.exact hinv hne hlen hstream
          (hbefore chunks (List.prefix_refl _))⟩

instance (frames : List Frame) (chunks : List (List UInt8)) :
    Decidable (ClientDelivers frames chunks) :=
  decidable_of_iff
    ((∀ chunk ∈ chunks, chunk ≠ []) ∧
      (∀ chunk ∈ chunks, chunk.length ≤ RECV_BUFFER_SIZE) ∧
      chunks.flatten <+: stream Frame.bytes frames)
    ⟨fun h => ⟨h.1, h.2.1, h.2.2⟩,
      fun h => ⟨h.nonempty, h.fits, h.stream⟩⟩

/-- The first two short frames, each in a call of its own. -/
theorem clientFramingExact_iff_alone :
    ClientFramingExact shortFrames
      [[2, 0, 0, 0, 1, 0], [2, 0, 0, 0, 2, 0]] :=
  (clientFramingExact_iff (by decide)).mpr
    (Harmless.second _ _ _ [2, 0, 0, 0, 1, 0] [2, 0, 0, 0, 2, 0] [] rfl
      (Nat.le_refl 12) (Nat.le_of_ble_eq_true rfl))

/-- A frame with six bytes of payload. -/
def longFrame : Frame :=
  ⟨3, [1, 2, 3, 4, 5, 6], by decide⟩

/-- A frame with six bytes of payload is handed on as two messages. -/
theorem not_clientFramingExact :
    ¬ ∀ (frames : List Frame) (chunks : List (List UInt8)),
      ClientDelivers frames chunks →
      ClientFramingExact frames chunks := by
  intro hall
  have hexact := hall [longFrame]
    [[8, 0, 0, 0, 3, 0, 1, 2, 3, 4, 5, 6]] (by decide) _
    (List.prefix_refl _)
  have hcode : (messagesOf (TCPClient.run
      [[8, 0, 0, 0, 3, 0, 1, 2, 3, 4, 5, 6]]).2).length = 2 := by
    decide
  have hsent : (whole Frame.bytes [longFrame] 12).length = 1 := by
    decide
  have hcount := hexact.shows.length_eq
  rw [hcode] at hcount
  exact absurd (hcount.trans hsent) (by omega)

end Run

end Net
end NetEngine
