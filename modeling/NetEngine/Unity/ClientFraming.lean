import Mathlib.Algebra.GroupWithZero.Nat
import NetEngine.Lib.Blocks
import NetEngine.Unity.CTcpClient

/-!
# Framing on the client

A pass of `GetMsg` adds one message when the bytes held and received begin with
a whole packet, and the buffer is ready to be written to again.  On anything
less the pass throws or leaves the buffer set to be read, and what comes next
overwrites what was there.

So framing is exact in exactly the runs in which each chunk completes one more
packet: the first `n` chunks contain the first `n` packets.
-/

namespace NetEngine
namespace Unity

open Blocks Net IoBuffer CTcpClient

section Framing

def receivedOf : ReceiveObservation → Option (List UInt8)
  | .received data => some data
  | .added _ | .threw _ => none

def addedOf : ReceiveObservation → Option MessageBody
  | .added msg => some msg
  | .received _ | .threw _ => none

/-- Chunks received, in order. -/
def chunksOf (tr : List ReceiveObservation) : List (List UInt8) :=
  tr.filterMap receivedOf

/-- Messages added, in order. -/
def addedMsgs (tr : List ReceiveObservation) : List MessageBody :=
  tr.filterMap addedOf

@[simp] theorem chunksOf_append (tr out : List ReceiveObservation) :
    chunksOf (tr ++ out) = chunksOf tr ++ chunksOf out :=
  List.filterMap_append

@[simp] theorem addedMsgs_append (tr out : List ReceiveObservation) :
    addedMsgs (tr ++ out) = addedMsgs tr ++ addedMsgs out :=
  List.filterMap_append

/-- What the messages added so far are to be. -/
def expected (packets : List Packet) (tr : List ReceiveObservation) :
    List Packet :=
  packets.take (addedMsgs tr).length

/--
No call threw, the messages added are the first packets, and the read buffer
holds the bytes received behind them and is ready for the next ones.
-/
structure FramingExact (packets : List Packet) (c : CTcpClient)
    (tr : List ReceiveObservation) : Prop where
  quiet : ∀ e, .threw e ∉ tr
  shows : List.Forall₂ MessageBody.Shows (addedMsgs tr) (expected packets tr)
  held : ∃ held, (chunksOf tr).flatten =
      stream Packet.bytes (expected packets tr) ++ held ∧
    Writing READ_SOCKET_BUFFER_SIZE c.readBuffer held

/--
A chunk is not empty, fits the array it is received into, and the bytes not yet
delivered fit the read buffer.
-/
def Receivable (c : CTcpClient) (tr : List ReceiveObservation) :
    ReceiveEvent → Prop
  | .receive data =>
      c.inGetMsg = true →
        data ≠ [] ∧ data.length ≤ READ_SOCKET_BUFFER_SIZE ∧
          ((chunksOf tr).flatten ++ data).length ≤
            ((addedMsgs tr).map (fun msg => msg.size.toNat + 4)).sum +
              READ_SOCKET_BUFFER_SIZE
  | .getMsg | .unavailable => True

/-- The first `n` chunks contain the first `n` packets. -/
def KeepsUp (packets : List Packet) (chunks : List (List UInt8)) : Prop :=
  ∀ n ≤ chunks.length, n ≤ packets.length ∧
    (stream Packet.bytes (packets.take n)).length ≤
      (chunks.take n).flatten.length

theorem keepsUp_concat
    (packets : List Packet) (chunks : List (List UInt8))
    (data : List UInt8) :
    KeepsUp packets (chunks ++ [data]) ↔
      KeepsUp packets chunks ∧ chunks.length < packets.length ∧
        (stream Packet.bytes (packets.take (chunks.length + 1))).length ≤
          (chunks.flatten ++ data).length := by
  have hold : ∀ n ≤ chunks.length,
      (chunks ++ [data]).take n = chunks.take n := fun n hn =>
    List.take_append_of_le_length hn
  have hall : (chunks ++ [data]).take (chunks.length + 1) =
      chunks ++ [data] :=
    List.take_of_length_le (by simp)
  constructor
  · intro h
    refine ⟨fun n hn => ?_, ?_⟩
    · have hn' := h n (by simp; omega)
      rwa [hold n hn] at hn'
    · have hlast := h (chunks.length + 1) (by simp)
      rw [hall] at hlast
      simpa [Nat.add_one_le_iff] using hlast
  · rintro ⟨h, hlt, hlast⟩ n hn
    rw [List.length_append, List.length_singleton] at hn
    rcases Nat.lt_or_ge chunks.length n with hgt | hle
    · obtain rfl : n = chunks.length + 1 := by omega
      rw [hall]
      exact ⟨hlt, by simpa using hlast⟩
    · rw [hold n hle]
      exact h n hle

/-- Sizes of messages that show packets. -/
theorem shows_sizes
    {msgs : List MessageBody} {packets : List Packet}
    (h : List.Forall₂ MessageBody.Shows msgs packets) :
    (msgs.map (fun msg => msg.size.toNat + 4)).sum =
      (stream Packet.bytes packets).length := by
  induction h with
  | nil =>
      rfl
  | cons hshows _ ih =>
      rw [stream_cons, List.length_append, ← ih, Packet.bytes_length,
        ← hshows.size]
      rfl

variable {packets : List Packet} {c : CTcpClient}
  {tr : List ReceiveObservation} {data : List UInt8}

theorem FramingExact.congr
    (h : FramingExact packets c tr) {c' : CTcpClient}
    (hbuffer : c'.readBuffer = c.readBuffer) :
    FramingExact packets c' tr := by
  refine ⟨h.quiet, h.shows, ?_⟩
  rw [hbuffer]
  exact h.held

/-- The packet whose turn it is when a chunk comes in. -/
theorem FramingExact.next
    (h : FramingExact packets c tr) (hin : c.inGetMsg = true)
    (hstream : (chunksOf tr).flatten ++ data <+: stream Packet.bytes packets)
    (hreceive : Receivable c tr (.receive data)) :
    ∃ held p, Writing READ_SOCKET_BUFFER_SIZE c.readBuffer held ∧
      held.length + data.length ≤ READ_SOCKET_BUFFER_SIZE ∧
      (chunksOf tr).flatten =
        stream Packet.bytes (expected packets tr) ++ held ∧
      (addedMsgs tr).length < packets.length ∧
      packets.take ((addedMsgs tr).length + 1) = expected packets tr ++ [p] ∧
      ∃ more, held ++ data <+: p.bytes ++ more := by
  obtain ⟨hne, -, hbound⟩ := hreceive hin
  obtain ⟨held, hreceived, hwriting⟩ := h.held
  have hsizes := shows_sizes h.shows
  rw [hsizes, hreceived, List.length_append, List.length_append] at hbound
  -- the bytes held and received are a beginning of the packets to come
  have hfront : held ++ data <+:
      stream Packet.bytes (packets.drop (addedMsgs tr).length) := by
    have hsplit : packets = expected packets tr ++
        packets.drop (addedMsgs tr).length :=
      (List.take_append_drop _ _).symm
    rw [hreceived, List.append_assoc] at hstream
    nth_rewrite 2 [hsplit] at hstream
    rw [stream_append] at hstream
    exact (List.prefix_append_right_inj _).mp hstream
  cases hdrop : packets.drop (addedMsgs tr).length with
  | nil =>
      rw [hdrop] at hfront
      have hnil := List.prefix_nil.mp hfront
      exact absurd (List.append_eq_nil_iff.mp hnil).2 hne
  | cons p rest =>
      rw [hdrop, stream_cons] at hfront
      refine ⟨held, p, hwriting, by omega, hreceived, ?_, ?_, _, hfront⟩
      · by_contra hge
        rw [List.drop_eq_nil_of_le (by omega)] at hdrop
        cases hdrop
      · rw [List.take_add, hdrop]
        rfl

/-- A chunk that completes the packet whose turn it is adds its message. -/
theorem receive_whole
    (h : FramingExact packets c tr) (hin : c.inGetMsg = true)
    (hstream : (chunksOf tr).flatten ++ data <+: stream Packet.bytes packets)
    (hreceive : Receivable c tr (.receive data))
    (hwhole : (stream Packet.bytes
        (packets.take ((addedMsgs tr).length + 1))).length ≤
      ((chunksOf tr).flatten ++ data).length) :
    ∃ msg, (c.step (.receive data)).2 = [.received data, .added msg] ∧
      FramingExact packets (c.step (.receive data)).1
        (tr ++ [.received data, .added msg]) := by
  obtain ⟨held, p, hwriting, hfits, hreceived, -, hnext, more, hfront⟩ :=
    h.next hin hstream hreceive
  rw [hnext, stream_append, hreceived, List.append_assoc,
    List.length_append, List.length_append] at hwhole
  have hlen : p.bytes.length ≤ (held ++ data).length := by
    simpa [stream] using hwhole
  obtain ⟨ys, hys⟩ := List.prefix_of_prefix_length_le
    (List.prefix_append p.bytes more) hfront hlen
  obtain ⟨buf, msg, hpass, hshows, hwriting'⟩ :=
    getMsgPass_whole hwriting hfits hys.symm
  have hadded : (addedMsgs (tr ++ [.received data, .added msg])) =
      addedMsgs tr ++ [msg] := by
    rw [addedMsgs_append]
    rfl
  have hexpected : expected packets (tr ++ [.received data, .added msg]) =
      expected packets tr ++ [p] := by
    rw [expected, hadded, List.length_append]
    exact hnext
  refine ⟨msg, ?_, ?_, ?_, ?_⟩
  · rw [CTcpClient.step, if_pos hin, hpass]
  · intro e hmem
    rcases List.mem_append.mp hmem with hmem | hmem
    · exact h.quiet e hmem
    · simp at hmem
  · rw [hadded, hexpected]
    exact List.rel_append h.shows
      (List.Forall₂.cons hshows List.Forall₂.nil)
  · refine ⟨ys, ?_, ?_⟩
    · rw [chunksOf_append, List.flatten_append, hreceived, hexpected,
        stream_append, List.append_assoc, List.append_assoc]
      show _ ++ (held ++ [data].flatten) = _ ++ ([p].flatMap _ ++ ys)
      rw [List.flatten_singleton, List.flatMap_singleton, hys]
    · rw [CTcpClient.step, if_pos hin, hpass]
      exact hwriting'

/-- A chunk that leaves the packet incomplete ends exact framing. -/
theorem receive_short
    (h : FramingExact packets c tr) (hin : c.inGetMsg = true)
    (hstream : (chunksOf tr).flatten ++ data <+: stream Packet.bytes packets)
    (hreceive : Receivable c tr (.receive data))
    (hshort : ((chunksOf tr).flatten ++ data).length <
      (stream Packet.bytes
        (packets.take ((addedMsgs tr).length + 1))).length) :
    ¬ FramingExact packets (c.step (.receive data)).1
        (tr ++ (c.step (.receive data)).2) := by
  obtain ⟨held, p, hwriting, hfits, hreceived, -, hnext, more, hfront⟩ :=
    h.next hin hstream hreceive
  rw [hnext, stream_append, hreceived, List.append_assoc,
    List.length_append, List.length_append] at hshort
  have hlen : (held ++ data).length < p.bytes.length := by
    simpa [stream] using hshort
  have hpre : held ++ data <+: p.bytes :=
    List.prefix_of_prefix_length_le hfront (List.prefix_append _ _)
      (Nat.le_of_lt hlen)
  obtain ⟨buf, hpass | ⟨hpass, hlimit⟩⟩ :=
    getMsgPass_short hwriting hfits hpre hlen
  · intro hexact
    refine hexact.quiet .bufferUnderflow (List.mem_append_right _ ?_)
    rw [CTcpClient.step, if_pos hin, hpass]
    simp
  · rintro ⟨-, -, held', -, hwriting'⟩
    rw [CTcpClient.step, if_pos hin, hpass] at hwriting'
    -- a buffer that is set to be read has no room for the next chunk
    have hfull : buf.limit = READ_SOCKET_BUFFER_SIZE := hwriting'.limit
    have hbounds := p.length_bounds
    rw [p.bytes_length] at hlen
    rw [hlimit, READ_SOCKET_BUFFER_SIZE] at hfull
    omega

/-- A pass receives its chunk, whatever becomes of it. -/
theorem chunksOf_receive
    (hin : c.inGetMsg = true) (data : List UInt8) :
    chunksOf (c.step (.receive data)).2 = [data] := by
  rw [CTcpClient.step, if_pos hin]
  cases getMsgPass data c.readBuffer with
  | error e buf =>
      rfl
  | ok result buf =>
      cases result with
      | none =>
          rfl
      | some result =>
          rfl

/-- A chunk keeps framing exact exactly when it completes the next packet. -/
theorem receive_exact_iff
    (h : FramingExact packets c tr) (hin : c.inGetMsg = true)
    (hstream : (chunksOf tr).flatten ++ data <+: stream Packet.bytes packets)
    (hreceive : Receivable c tr (.receive data))
    (hcount : (addedMsgs tr).length = (chunksOf tr).length) :
    (FramingExact packets (c.step (.receive data)).1
        (tr ++ (c.step (.receive data)).2) ↔
      (chunksOf tr).length < packets.length ∧
        (stream Packet.bytes
            (packets.take ((chunksOf tr).length + 1))).length ≤
          ((chunksOf tr).flatten ++ data).length) ∧
    (FramingExact packets (c.step (.receive data)).1
        (tr ++ (c.step (.receive data)).2) →
      (addedMsgs (tr ++ (c.step (.receive data)).2)).length =
        (chunksOf (tr ++ (c.step (.receive data)).2)).length) := by
  obtain ⟨-, -, -, -, -, hlt, -, -⟩ := h.next hin hstream hreceive
  rw [← hcount]
  rcases Nat.lt_or_ge ((chunksOf tr).flatten ++ data).length
    (stream Packet.bytes
      (packets.take ((addedMsgs tr).length + 1))).length with hshort | hwhole
  · have hnot := receive_short h hin hstream hreceive hshort
    refine ⟨⟨fun hexact => absurd hexact hnot, fun hle => ?_⟩,
      fun hexact => absurd hexact hnot⟩
    omega
  · obtain ⟨msg, hout, hexact⟩ := receive_whole h hin hstream hreceive hwhole
    rw [hout]
    refine ⟨⟨fun _ => ⟨hlt, hwhole⟩, fun _ => hexact⟩, fun _ => ?_⟩
    rw [addedMsgs_append, chunksOf_append, List.length_append,
      List.length_append, hcount]
    rfl

end Framing

section Run

theorem framingExact_fresh (packets : List Packet) :
    FramingExact packets CTcpClient.fresh [] := by
  refine ⟨by simp, List.Forall₂.nil, [], rfl, writing_allocate _⟩

/-- Framing is exact after every event of a run. -/
def AlwaysExact (packets : List Packet) (events : List ReceiveEvent) : Prop :=
  ∀ before after, events = before ++ after →
    FramingExact packets (CTcpClient.run before).1 (CTcpClient.run before).2

theorem alwaysExact_concat
    (packets : List Packet) (events : List ReceiveEvent) (e : ReceiveEvent) :
    AlwaysExact packets (events ++ [e]) ↔
      AlwaysExact packets events ∧
        FramingExact packets (CTcpClient.run (events ++ [e])).1
          (CTcpClient.run (events ++ [e])).2 := by
  constructor
  · intro h
    refine ⟨?_, h _ [] (List.append_nil _).symm⟩
    rintro before after rfl
    exact h before (after ++ [e]) (List.append_assoc _ _ _)
  · rintro ⟨h, hlast⟩ before after heq
    rcases List.eq_nil_or_concat after with rfl | ⟨after', e', rfl⟩
    · rw [List.append_nil] at heq
      exact heq ▸ hlast
    · rw [List.concat_eq_append, ← List.append_assoc] at heq
      exact h before after' (List.append_inj' heq rfl).1

/-- Events without a chunk receive nothing and leave the buffer alone. -/
theorem step_idle
    {c : CTcpClient} {e : ReceiveEvent}
    (hidle : ¬ (c.inGetMsg = true ∧ ∃ data, e = .receive data)) :
    (c.step e).2 = [] ∧ (c.step e).1.readBuffer = c.readBuffer := by
  cases e with
  | getMsg | unavailable =>
      exact ⟨rfl, rfl⟩
  | receive data =>
      have hnot : ¬ c.inGetMsg = true := fun hin => hidle ⟨hin, data, rfl⟩
      rw [CTcpClient.step, if_neg hnot]
      exact ⟨rfl, rfl⟩

theorem CTcpClient.run_concat
    (events : List ReceiveEvent) (e : ReceiveEvent) :
    CTcpClient.run (events ++ [e]) =
      (((CTcpClient.run events).1.step e).1,
        (CTcpClient.run events).2 ++
          ((CTcpClient.run events).1.step e).2) :=
  Machine.run_concat _ _ _ _

theorem AlwaysExact.last
    {packets : List Packet} {events : List ReceiveEvent}
    (h : AlwaysExact packets events) :
    FramingExact packets (CTcpClient.run events).1
      (CTcpClient.run events).2 :=
  h events [] (List.append_nil _).symm

/--
Framing is exact throughout a run exactly when each chunk completes one more
packet.
-/
theorem framingExact_iff
    (packets : List Packet) (events : List ReceiveEvent)
    (hstream : (chunksOf (CTcpClient.run events).2).flatten <+:
      stream Packet.bytes packets)
    (hreceive : Machine.Along CTcpClient.step Receivable CTcpClient.fresh
      events) :
    AlwaysExact packets events ↔
      KeepsUp packets (chunksOf (CTcpClient.run events).2) := by
  suffices h : (AlwaysExact packets events ↔
        KeepsUp packets (chunksOf (CTcpClient.run events).2)) ∧
      (AlwaysExact packets events →
        (addedMsgs (CTcpClient.run events).2).length =
          (chunksOf (CTcpClient.run events).2).length) from h.1
  induction events using List.reverseRecOn with
  | nil =>
      refine ⟨⟨fun _ n hn => ?_, ?_⟩, fun _ => rfl⟩
      · obtain rfl : n = 0 := Nat.le_zero.mp hn
        exact ⟨Nat.zero_le _, Nat.le_refl _⟩
      · rintro - before after heq
        obtain ⟨rfl, rfl⟩ := List.append_eq_nil_iff.mp heq.symm
        exact framingExact_fresh packets
  | append_singleton events e ih =>
      rw [alwaysExact_concat, CTcpClient.run_concat]
      rw [CTcpClient.run_concat] at hstream
      simp only [chunksOf_append, List.flatten_append] at hstream
      obtain ⟨hiff, hcount⟩ :=
        ih ((List.prefix_append _ _).trans hstream) hreceive.of_append
      have hlast := hreceive.last
      by_cases hin : (CTcpClient.run events).1.inGetMsg = true ∧
          ∃ data, e = .receive data
      · obtain ⟨hin, data, rfl⟩ := hin
        have hchunks := chunksOf_receive hin data
        rw [hchunks, List.flatten_singleton] at hstream
        rw [chunksOf_append, hchunks, keepsUp_concat, hiff.symm]
        have hstep := fun hall : AlwaysExact packets events =>
          receive_exact_iff hall.last hin hstream hlast (hcount hall)
        refine ⟨⟨?_, ?_⟩, ?_⟩
        · rintro ⟨hall, hexact⟩
          exact ⟨hall, (hstep hall).1.mp hexact⟩
        · rintro ⟨hall, hwhole⟩
          exact ⟨hall, (hstep hall).1.mpr hwhole⟩
        · rintro ⟨hall, hexact⟩
          have hsame := (hstep hall).2 hexact
          rwa [chunksOf_append, hchunks] at hsame
      · obtain ⟨hout, hbuffer⟩ := step_idle hin
        rw [hout, List.append_nil]
        refine ⟨⟨fun h => hiff.mp h.1, fun h => ?_⟩, fun h => hcount h.1⟩
        have hall := hiff.mpr h
        exact ⟨hall, hall.last.congr hbuffer⟩

instance (c : CTcpClient) (tr : List ReceiveObservation) :
    (e : ReceiveEvent) → Decidable (Receivable c tr e)
  | .receive _ => inferInstanceAs (Decidable (_ → _ ∧ _ ∧ _))
  | .getMsg | .unavailable => .isTrue trivial

instance (packets : List Packet) (chunks : List (List UInt8)) :
    Decidable (KeepsUp packets chunks) :=
  inferInstanceAs (Decidable (∀ _ ≤ _, _ ∧ _))

/-- Two short packets and one with a byte of payload. -/
def shortPackets : List Packet :=
  [⟨1, [], by decide, by decide⟩, ⟨2, [7], by decide, by decide⟩,
    ⟨3, [], by decide, by decide⟩]

/-- The first chunk holds two packets, the others cut the third one. -/
def pacedEvents : List ReceiveEvent :=
  [.getMsg, .receive [2, 0, 0, 0, 1, 0, 3, 0, 0, 0, 2, 0, 7], .unavailable,
    .getMsg, .receive [2, 0, 0], .receive [0, 3, 0]]

theorem framingExact_iff_paced : AlwaysExact shortPackets pacedEvents :=
  (framingExact_iff shortPackets pacedEvents (by decide) (by decide)).mpr
    (by decide)

/-- A packet that comes in two parts is not delivered. -/
theorem not_framingExact :
    ¬ ∀ (packets : List Packet) (events : List ReceiveEvent),
      (chunksOf (CTcpClient.run events).2).flatten =
        stream Packet.bytes packets →
      Machine.Along CTcpClient.step Receivable CTcpClient.fresh events →
      AlwaysExact packets events := by
  intro h
  have hexact := h (shortPackets.take 1)
    [.getMsg, .receive [2, 0, 0, 0, 1], .getMsg, .receive [0]]
    (by decide) (by decide)
  exact hexact.last.quiet .bufferUnderflow (by decide)

end Run

end Unity
end NetEngine
