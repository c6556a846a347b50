import NetEngine.Net.Framing
import NetEngine.Unity.ClientSend

/-!
# Sizes on both ends

The client's limit is its send buffer, the server's is its receive buffer, and
the first is larger.  A message between the two fills the receive buffer without
being whole; then `recv` is called with length 0 and its result is taken for a
disconnect.
-/

namespace NetEngine
namespace Unity

open Blocks Net

section Limits

/-- One call of `Cell::Recv`; nothing happens after a fault. -/
def callRecv (st : Option ClientSocket) (result : List UInt8) :
    Option ClientSocket × List Cell.RecvOutcome :=
  match st with
  | none => (none, [])
  | some cs =>
      match Cell.recv cs (some result) with
      | none => (none, [])
      | some r => (some r.client, [r])

/--
On a healthy connection `recv` delivers something within the free part of the
buffer, and nothing only when there is no free part.
-/
def HealthyRecv (st : Option ClientSocket) (_ : List Cell.RecvOutcome)
    (result : List UInt8) : Prop :=
  ∀ cs, st = some cs →
    cs.lastPos + result.length ≤ RECV_BUFFER_SIZE ∧
      (result = [] → cs.lastPos = RECV_BUFFER_SIZE)

/-- Results in which bytes arrive that were sent first on a connection. -/
structure Arrives (cs : ClientSocket) (wire : List UInt8)
    (results : List (List UInt8)) : Prop where
  empty : cs.lastPos = 0
  stream : results.flatten <+: wire
  healthy : Machine.Along callRecv HealthyRecv (some cs) results

/-- The server's message has the size, type and payload of the client's. -/
structure Carries (body : Net.MessageBody) (msg : MessageBody) : Prop where
  size : body.size.toNat = 2 + msg.data.length
  type : body.type = msg.type
  data : body.data.Holds 0 msg.data

/--
However the bytes arrive, no call reports a disconnect, and once they are all
there the message has been handed on.
-/
def Served (cs : ClientSocket) (wire : List UInt8) (msg : MessageBody) :
    Prop :=
  ∀ results, Arrives cs wire results →
    (∀ r ∈ (Machine.run callRecv (some cs) results).2, r.ret ≠ -1) ∧
      (results.flatten = wire → ∃ body,
        (Machine.run callRecv (some cs) results).2.flatMap
          (fun r => r.messages) = [body] ∧ Carries body msg)

/-- Messages handed on by the calls. -/
def handed (tr : List Cell.RecvOutcome) : List Net.MessageBody :=
  tr.flatMap (fun r => r.messages)

/-- Of a single frame nothing or all of it is whole. -/
theorem whole_single (f : Frame) (n : Nat) :
    whole Frame.bytes [f] n = if f.bytes.length ≤ n then [f] else [] := by
  rfl

/-- A single frame has nothing behind it that could be moved wrongly. -/
theorem chunkRepeats_single
    {f : Frame} {received chunk : List UInt8}
    (h : received ++ chunk <+: stream Frame.bytes [f]) :
    ChunkRepeats [f] received chunk := by
  have hstream : stream Frame.bytes [f] = f.bytes := by
    simp [stream]
  rw [hstream] at h
  rw [ChunkRepeats, newly, whole_single f (received ++ chunk).length]
  split_ifs with hwhole
  · have hall : received ++ chunk = f.bytes :=
      h.eq_of_length (Nat.le_antisymm h.length_le hwhole)
    have hrest : rest Frame.bytes [f] (received ++ chunk) = [] := by
      rw [rest, whole_single, if_pos hwhole, hstream, hall]
      exact List.drop_length
    rw [hrest]
    cases (whole Frame.bytes [f] received.length).length with
    | zero =>
        exact ⟨List.hasPeriod_of_length_le _ _ (Nat.zero_le _), trivial⟩
    | succ k =>
        rw [List.drop_succ_cons, List.drop_nil]
        trivial
  · rw [List.drop_nil]
    trivial

/-- What the calls so far have done with a frame that arrives alone. -/
structure Serving (f : Frame) (received : List UInt8)
    (st : Option ClientSocket) (tr : List Cell.RecvOutcome) : Prop where
  buffer : ∃ cs, st = some cs ∧
    Buffered cs (rest Frame.bytes [f] received)
  connected : ∀ r ∈ tr, r.ret ≠ -1
  shows : List.Forall₂ Net.MessageBody.Shows (handed tr)
    (whole Frame.bytes [f] received.length)

/-- A part of a frame that is not whole leaves room in the buffer. -/
theorem rest_single_lt
    {f : Frame} {received : List UInt8}
    (h : received <+: stream Frame.bytes [f]) :
    (rest Frame.bytes [f] received).length < RECV_BUFFER_SIZE := by
  have hbounds := f.length_bounds
  have hlen := f.bytes_length
  rcases (received_split Frame.bytes [f] h).2 with hnil | ⟨g, hg, -, hlt⟩
  · rw [hnil]
    decide
  · rw [List.mem_singleton.mp hg] at hlt
    omega

theorem Serving.step
    {f : Frame} {received result : List UInt8} {st : Option ClientSocket}
    {tr : List Cell.RecvOutcome} (h : Serving f received st tr)
    (hstream : received ++ result <+: stream Frame.bytes [f])
    (hhealthy : HealthyRecv st tr result) :
    Serving f (received ++ result) (callRecv st result).1
      (tr ++ (callRecv st result).2) := by
  obtain ⟨cs, rfl, hbuf⟩ := h.buffer
  have hroom := rest_single_lt ((List.prefix_append _ _).trans hstream)
  have hne : result ≠ [] := by
    intro hnil
    have hfull := (hhealthy cs rfl).2 hnil
    rw [hbuf.lastPos] at hfull
    omega
  obtain ⟨cs', bodies, hrecv, hall, hbuf'⟩ :=
    recv_chunk hbuf hstream hne (chunkRepeats_single hstream)
  simp only [callRecv, hrecv]
  refine ⟨⟨cs', rfl, hbuf'⟩, ?_, ?_⟩
  · intro r hmem
    rcases List.mem_append.mp hmem with hmem | hmem
    · exact h.connected r hmem
    · rw [List.mem_singleton.mp hmem]
      show (result.length : Int) ≠ -1
      omega
  · rw [← whole_append_newly Frame.bytes [f]
      (show received.length ≤ (received ++ result).length by simp)]
    have hhanded : handed (tr ++ [⟨result.length, cs', bodies⟩]) =
        handed tr ++ bodies := by
      simp [handed]
    rw [hhanded]
    exact List.rel_append h.shows hall

theorem serving_run
    {f : Frame} {cs : ClientSocket} {results : List (List UInt8)}
    (h : Arrives cs f.bytes results) :
    Serving f results.flatten (Machine.run callRecv (some cs) results).1
      (Machine.run callRecv (some cs) results).2 := by
  have hbytes : stream Frame.bytes [f] = f.bytes := by
    simp [stream]
  have hstream := h.stream
  have hhealthy := h.healthy
  rw [← hbytes] at hstream
  induction results using List.reverseRecOn with
  | nil =>
      refine ⟨⟨cs, rfl, ?_⟩, ?_, ?_⟩
      · simpa [rest] using buffered_empty h.empty
      · intro r hmem
        cases hmem
      · rw [List.flatten_nil, List.length_nil, whole_zero_of_nonempty
          Frame.bytes (fun g _ => g.bytes_ne_nil)]
        exact List.Forall₂.nil
  | append_singleton results result ih =>
      rw [List.flatten_append, List.flatten_singleton] at hstream
      have hold : Serving f results.flatten
          (Machine.run callRecv (some cs) results).1
          (Machine.run callRecv (some cs) results).2 := by
        have hpre := (List.prefix_append _ _).trans hstream
        refine ih ⟨h.empty, ?_, hhealthy.of_append⟩ hpre hhealthy.of_append
        rwa [hbytes] at hpre
      rw [Machine.run_concat, List.flatten_append, List.flatten_singleton]
      exact hold.step hstream hhealthy.last

/-- The bytes of a message that fits the receive buffer are a frame. -/
theorem served_of_fits
    {msg : MessageBody} {cs : ClientSocket}
    (hfits : msg.data.length + Net.MessageBody.HEADER_SIZE ≤ RECV_BUFFER_SIZE) :
    Served cs (wireBytes msg) msg := by
  let f : Frame := ⟨msg.type, msg.data, hfits⟩
  have hbytes : wireBytes msg = f.bytes := by
    rfl
  rw [hbytes]
  intro results harrives
  have hserving := serving_run harrives
  refine ⟨hserving.connected, fun hall => ?_⟩
  have hshows := hserving.shows
  rw [hall, whole_single, if_pos (Nat.le_refl _)] at hshows
  rcases hhanded : handed (Machine.run callRecv (some cs) results).2 with
    _ | ⟨body, bodies⟩
  · rw [hhanded] at hshows
    cases hshows
  · rw [hhanded] at hshows
    obtain ⟨hbody, hnil⟩ := List.forall₂_cons.mp hshows
    refine ⟨body, ?_, hbody.size, hbody.type, hbody.data⟩
    rw [List.forall₂_nil_right_iff.mp hnil] at hhanded
    exact hhanded

/-- A message of which a part is missing is left in the buffer. -/
theorem recv_unfinished
    {cs : ClientSocket} {xs chunk : List UInt8} {len : Nat}
    (hbuf : Buffered cs xs) (hne : chunk ≠ [])
    (hpre : leBytes Net.MessageBody.HEADER_LEN_BYTES len <+: xs ++ chunk)
    (hshort : (xs ++ chunk).length < len + Net.MessageBody.HEADER_LEN_BYTES)
    (hlen : len + Net.MessageBody.HEADER_LEN_BYTES < 2 ^ 31) :
    ∃ cs', Cell.recv cs (some chunk) = some ⟨chunk.length, cs', []⟩ ∧
      Buffered cs' (xs ++ chunk) := by
  have hbuf' := hbuf.store chunk
  have hleave := extract_unfinished hbuf' hpre hshort hlen
  refine ⟨_, ?_, hbuf'⟩
  have hpos : ¬ (chunk.length : Int) ≤ 0 := by
    have hchunk := List.length_pos_iff.mpr hne
    omega
  simp only [Cell.recv, if_neg hpos]
  cases (cs.lastPos + (chunk.length : Int)).toNat with
  | zero =>
      rfl
  | succ fuel =>
      rw [Cell.recvLoop, hleave]

/-- Nothing received is a disconnect. -/
theorem callRecv_empty (cs : ClientSocket) :
    ∃ cs', callRecv (some cs) [] = (some cs', [⟨-1, cs', []⟩]) :=
  ⟨_, rfl⟩

/-- A longer message fills the buffer, and the next call disconnects. -/
theorem not_served_of_long
    {msg : MessageBody} {cs : ClientSocket} (hempty : cs.lastPos = 0)
    (hlong : RECV_BUFFER_SIZE < msg.data.length + 6)
    (hsmall : msg.data.length < 2 ^ 30) :
    ¬ Served cs (wireBytes msg) msg := by
  intro hserved
  have hlength := wireBytes_length msg
  let chunk := (wireBytes msg).take RECV_BUFFER_SIZE
  have hchunk : chunk.length = RECV_BUFFER_SIZE := by
    rw [List.length_take]
    omega
  have hne : chunk ≠ [] := by
    intro hnil
    rw [hnil] at hchunk
    cases hchunk
  have hfield : leBytes Net.MessageBody.HEADER_LEN_BYTES
      (2 + msg.data.length) <+: [] ++ chunk := by
    refine List.prefix_of_prefix_length_le (List.prefix_append _ _)
      (List.take_prefix _ _) ?_
    rw [leBytes_length, List.nil_append, hchunk]
    decide
  obtain ⟨cs', hrecv, hbuf'⟩ :=
    recv_unfinished (buffered_empty hempty) hne hfield
      (by
        rw [List.nil_append, hchunk]
        simp only [Net.MessageBody.HEADER_LEN_BYTES]
        omega)
      (by
        simp only [Net.MessageBody.HEADER_LEN_BYTES]
        omega)
  have hfull : cs'.lastPos = RECV_BUFFER_SIZE := by
    rw [hbuf'.lastPos, List.nil_append, hchunk]
  have hfirst : callRecv (some cs) chunk =
      (some cs', [⟨chunk.length, cs', []⟩]) := by
    simp only [callRecv, hrecv]
  have harrives : Arrives cs (wireBytes msg) [chunk, []] := by
    refine ⟨hempty, ?_, Machine.Along.cons ?_ (Machine.Along.cons ?_ ?_)⟩
    · rw [List.flatten_cons, List.flatten_singleton, List.append_nil]
      exact List.take_prefix _ _
    · rintro cs₀ hcs
      cases hcs
      refine ⟨by omega, fun hnil => absurd hnil hne⟩
    · rw [hfirst]
      rintro cs₀ hcs
      cases hcs
      exact ⟨by simp [hfull], fun _ => hfull⟩
    · exact Machine.Along.nil _ _
  obtain ⟨hconnected, -⟩ := hserved _ harrives
  obtain ⟨cs'', hsecond⟩ := callRecv_empty cs'
  simp only [Machine.run_cons, hfirst, hsecond, Machine.run_nil]
    at hconnected
  exact hconnected ⟨-1, cs'', []⟩ (by simp) rfl

/--
A message that the client sends is served by the server, however it arrives,
exactly when it fits the server's receive buffer.
-/
theorem served_iff
    {msg : MessageBody} {buf buf' : IoBuffer} {wire : List UInt8}
    {cs : ClientSocket}
    (hcap : buf.capacity = CTcpClient.SEND_SOCKET_BUFFER_SIZE)
    (hsend : CTcpClient.sendMsgPass msg buf = .ok wire buf')
    (hempty : cs.lastPos = 0) :
    Served cs wire msg ↔
      msg.data.length + Net.MessageBody.HEADER_SIZE ≤ RECV_BUFFER_SIZE := by
  obtain ⟨rfl, hadmitted⟩ := sent_eq_wireBytes hcap hsend
  constructor
  · intro hserved
    by_contra hover
    refine not_served_of_long hempty ?_ ?_ hserved
    · exact Nat.lt_of_not_le hover
    · rw [CTcpClient.SEND_SOCKET_BUFFER_SIZE] at hadmitted
      omega
  · exact served_of_fits

theorem served_iff_short :
    Served freshSocket (wireBytes ⟨4, 5, [1, 2]⟩) ⟨4, 5, [1, 2]⟩ := by
  obtain ⟨buf', hsend, -⟩ := @sendMsgPass_ok
    CTcpClient.SEND_SOCKET_BUFFER_SIZE
    (IoBuffer.allocate CTcpClient.SEND_SOCKET_BUFFER_SIZE)
    ⟨4, 5, [1, 2]⟩ rfl (by decide) (by decide)
  exact (served_iff rfl hsend rfl).mpr (by decide)

/-- The client sends a message that the server cannot receive. -/
theorem not_served :
    ¬ ∀ (msg : MessageBody) (buf buf' : IoBuffer) (wire : List UInt8)
        (cs : ClientSocket),
      buf.capacity = CTcpClient.SEND_SOCKET_BUFFER_SIZE →
      CTcpClient.sendMsgPass msg buf = .ok wire buf' →
      cs.lastPos = 0 → Served cs wire msg := by
  intro h
  let msg : MessageBody := ⟨0, 5, List.replicate 10000 0⟩
  have hdata : msg.data.length = 10000 :=
    List.length_replicate
  obtain ⟨buf', hsend, -⟩ := @sendMsgPass_ok
    CTcpClient.SEND_SOCKET_BUFFER_SIZE
    (IoBuffer.allocate CTcpClient.SEND_SOCKET_BUFFER_SIZE) msg rfl
    (by rw [hdata]; decide) (by decide)
  have hserved := h msg _ buf' (wireBytes msg) freshSocket rfl hsend rfl
  refine not_served_of_long rfl ?_ ?_ hserved
  · rw [hdata]
    decide
  · rw [hdata]
    decide

end Limits

end Unity
end NetEngine
