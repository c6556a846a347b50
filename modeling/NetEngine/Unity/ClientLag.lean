import NetEngine.Unity.ClientFraming

/-!
# Frames waiting on the client

A pass of `GetMsg` adds at most one message for what one `Receive` delivers.
When `GetMsg` returns because nothing is available, a frame that came in behind
another one in the same chunk is still in the read buffer, or the number of
messages lags behind by some other frame.

So with chunks of whole frames nothing is left waiting at such a moment exactly
when every chunk so far was a single frame (`noneWaiting_iff`).
-/

namespace NetEngine
namespace Unity

open Blocks Net IoBuffer CTcpClient

section Lists

variable {α : Type}

/-- Lists that are not empty have at least as many elements together. -/
theorem length_le_flatten_length
    {gs : List (List α)} (hne : ∀ g ∈ gs, g ≠ []) :
    gs.length ≤ gs.flatten.length := by
  induction gs with
  | nil =>
      exact Nat.le_refl _
  | cons g gs ih =>
      obtain ⟨hg, hgs⟩ := List.forall_mem_cons.mp hne
      have hpos := List.length_pos_iff.mpr hg
      have hrest := ih hgs
      rw [List.flatten_cons, List.length_append, List.length_cons]
      omega

/-- They have no more exactly when each has one. -/
theorem flatten_length_le_iff
    {gs : List (List α)} (hne : ∀ g ∈ gs, g ≠ []) :
    gs.flatten.length ≤ gs.length ↔ ∀ g ∈ gs, g.length = 1 := by
  induction gs with
  | nil =>
      simp
  | cons g gs ih =>
      obtain ⟨hg, hgs⟩ := List.forall_mem_cons.mp hne
      have hpos := List.length_pos_iff.mpr hg
      have hrest := length_le_flatten_length hgs
      rw [List.forall_mem_cons, ← ih hgs, List.flatten_cons,
        List.length_append, List.length_cons]
      constructor
      · intro hle
        omega
      · rintro ⟨hone, hle⟩
        omega

/-- Lists of one element each are the elements. -/
theorem eq_map_singleton
    {gs : List (List α)} (hone : ∀ g ∈ gs, g.length = 1) :
    gs = gs.flatten.map (fun x => [x]) := by
  induction gs with
  | nil =>
      rfl
  | cons g gs ih =>
      obtain ⟨hg, hgs⟩ := List.forall_mem_cons.mp hone
      obtain ⟨x, rfl⟩ := List.length_eq_one_iff.mp hg
      rw [List.flatten_cons, List.singleton_append, List.map_cons, ← ih hgs]

end Lists

section Lag

/-- Frames in the chunks received so far. -/
def framesReceived (groups : List (List Packet))
    (tr : List ReceiveObservation) : List (List Packet) :=
  groups.take (chunksOf tr).length

/--
When `GetMsg` returns because nothing is available, every frame received has
been added.
-/
def NoneWaiting (groups : List (List Packet)) (c : CTcpClient)
    (tr : List ReceiveObservation) : ReceiveEvent → Prop
  | .unavailable =>
      c.inGetMsg = true →
        List.Forall₂ MessageBody.Shows (addedMsgs tr)
          (framesReceived groups tr).flatten
  | .getMsg | .receive _ => True

/-- When `GetMsg` returns so, each chunk was a single frame. -/
def SingleFrames (groups : List (List Packet)) (c : CTcpClient)
    (tr : List ReceiveObservation) : ReceiveEvent → Prop
  | .unavailable =>
      c.inGetMsg = true → ∀ g ∈ framesReceived groups tr, g.length = 1
  | .getMsg | .receive _ => True

instance (groups : List (List Packet)) (c : CTcpClient)
    (tr : List ReceiveObservation) :
    (e : ReceiveEvent) → Decidable (SingleFrames groups c tr e)
  | .unavailable => inferInstanceAs (Decidable (_ → _))
  | .getMsg | .receive _ => .isTrue trivial

/-- A step adds no more messages than it receives chunks. -/
theorem step_added_length_le (c : CTcpClient) (e : ReceiveEvent) :
    (addedMsgs (c.step e).2).length ≤ (chunksOf (c.step e).2).length := by
  cases e with
  | getMsg | unavailable =>
      exact Nat.le_refl _
  | receive data =>
      rw [CTcpClient.step]
      split_ifs
      · cases getMsgPass data c.readBuffer with
        | error e buf =>
            exact Nat.zero_le _
        | ok result buf =>
            cases result with
            | none =>
                exact Nat.zero_le _
            | some result =>
                exact Nat.le_refl _
      · exact Nat.le_refl _

theorem added_length_le (events : List ReceiveEvent) :
    (addedMsgs (CTcpClient.run events).2).length ≤
      (chunksOf (CTcpClient.run events).2).length := by
  apply Machine.run_invariant
    (I := fun _ tr => (addedMsgs tr).length ≤ (chunksOf tr).length)
    (Nat.le_refl _)
  intro c tr e ih
  have hstep := step_added_length_le c e
  rw [addedMsgs_append, chunksOf_append, List.length_append,
    List.length_append]
  omega

/-- Chunks of single frames are added one by one, and nothing stays behind. -/
theorem run_single_frames
    {events : List ReceiveEvent} {packets : List Packet}
    (hchunks : chunksOf (CTcpClient.run events).2 =
      packets.map Packet.bytes) :
    List.Forall₂ MessageBody.Shows (addedMsgs (CTcpClient.run events).2)
        packets ∧
      Writing READ_SOCKET_BUFFER_SIZE (CTcpClient.run events).1.readBuffer
        [] := by
  induction events using List.reverseRecOn generalizing packets with
  | nil =>
      have hnil : packets = [] := List.map_eq_nil_iff.mp hchunks.symm
      subst hnil
      exact ⟨List.Forall₂.nil, writing_allocate _⟩
  | append_singleton events e ih =>
      rw [CTcpClient.run_concat, chunksOf_append] at hchunks
      rw [CTcpClient.run_concat, addedMsgs_append]
      by_cases hin : (CTcpClient.run events).1.inGetMsg = true ∧
          ∃ data, e = .receive data
      · obtain ⟨hin, data, rfl⟩ := hin
        rw [chunksOf_receive hin data] at hchunks
        obtain ⟨packets', last, rfl, hbefore, hlast⟩ :=
          List.map_eq_append_iff.mp hchunks.symm
        obtain ⟨p, rfl, hdata⟩ := List.map_eq_singleton_iff.mp hlast
        obtain ⟨hshows, hwriting⟩ := ih hbefore.symm
        obtain ⟨hmin, hmax⟩ := p.length_bounds
        have hfits : ([] : List UInt8).length + data.length ≤
            READ_SOCKET_BUFFER_SIZE := by
          rw [← hdata, p.bytes_length, READ_SOCKET_BUFFER_SIZE,
            List.length_nil]
          omega
        have hfront : [] ++ data = p.bytes ++ [] := by
          rw [hdata, List.nil_append, List.append_nil]
        obtain ⟨buf, msg, hpass, hmsg, hwriting'⟩ :=
          getMsgPass_whole hwriting hfits hfront
        rw [CTcpClient.step, if_pos hin, hpass]
        exact ⟨List.rel_append hshows (List.Forall₂.cons hmsg .nil),
          hwriting'⟩
      · obtain ⟨hout, hbuffer⟩ := step_idle hin
        rw [hout] at hchunks
        rw [hout]
        have hold := ih ((List.append_nil _).symm.trans hchunks)
        refine ⟨?_, ?_⟩
        · exact (List.append_nil (addedMsgs _)).symm ▸ hold.1
        · rw [hbuffer]
          exact hold.2

/-- The chunks received so far are those of the first groups of frames. -/
theorem chunksOf_before
    {groups : List (List Packet)} {before after : List ReceiveEvent}
    (hgroups : chunksOf (CTcpClient.run (before ++ after)).2 =
      groups.map (stream Packet.bytes)) :
    chunksOf (CTcpClient.run before).2 =
        (framesReceived groups (CTcpClient.run before).2).map
          (stream Packet.bytes) ∧
      (framesReceived groups (CTcpClient.run before).2).length =
        (chunksOf (CTcpClient.run before).2).length := by
  rw [CTcpClient.run, Machine.run_append, chunksOf_append] at hgroups
  have htake := congrArg
    (List.take (chunksOf (CTcpClient.run before).2).length) hgroups
  rw [← List.map_take] at htake
  have heq : chunksOf (CTcpClient.run before).2 =
      (framesReceived groups (CTcpClient.run before).2).map
        (stream Packet.bytes) :=
    (List.take_left' rfl).symm.trans htake
  refine ⟨heq, ?_⟩
  have hlength := congrArg List.length heq
  rw [List.length_map] at hlength
  exact hlength.symm

/-- No frame is left waiting at a step exactly when no chunk held two. -/
theorem noneWaiting_at_iff
    {groups : List (List Packet)} {before after : List ReceiveEvent}
    (hgroups : chunksOf (CTcpClient.run (before ++ after)).2 =
      groups.map (stream Packet.bytes))
    (hne : ∀ g ∈ groups, g ≠ []) (e : ReceiveEvent) :
    NoneWaiting groups (CTcpClient.run before).1
        (CTcpClient.run before).2 e ↔
      SingleFrames groups (CTcpClient.run before).1
        (CTcpClient.run before).2 e := by
  cases e with
  | getMsg | receive data =>
      exact Iff.rfl
  | unavailable =>
      obtain ⟨hchunks, hlength⟩ := chunksOf_before hgroups
      constructor
      · intro hshows hin
        have hle := added_length_le before
        have hnonempty :
            ∀ g ∈ framesReceived groups (CTcpClient.run before).2, g ≠ [] := by
          intro g hg
          exact hne g (List.mem_of_mem_take hg)
        apply (flatten_length_le_iff hnonempty).mp
        -- as many messages as frames, and no more than chunks
        calc
          _ = (addedMsgs (CTcpClient.run before).2).length :=
            (hshows hin).length_eq.symm
          _ ≤ (chunksOf (CTcpClient.run before).2).length := hle
          _ = _ := hlength.symm
      · intro hsingles hin
        have hone : framesReceived groups (CTcpClient.run before).2 =
            (framesReceived groups (CTcpClient.run before).2).flatten.map
              (fun p => [p]) :=
          eq_map_singleton (hsingles hin)
        have hsingle : chunksOf (CTcpClient.run before).2 =
            (framesReceived groups (CTcpClient.run before).2).flatten.map
              Packet.bytes := by
          rw [hchunks]
          nth_rewrite 1 [hone]
          rw [List.map_map]
          apply List.map_congr_left
          intro p _
          exact List.flatMap_singleton _ _
        exact (run_single_frames hsingle).1

/--
With chunks of whole frames, no frame is left waiting when nothing more is
available exactly when every chunk before was a single frame.
-/
theorem noneWaiting_iff
    (groups : List (List Packet)) (events : List ReceiveEvent)
    (hgroups : chunksOf (CTcpClient.run events).2 =
      groups.map (stream Packet.bytes))
    (hne : ∀ g ∈ groups, g ≠ []) :
    Machine.Along CTcpClient.step (NoneWaiting groups) CTcpClient.fresh
        events ↔
      Machine.Along CTcpClient.step (SingleFrames groups) CTcpClient.fresh
        events := by
  apply Machine.along_congr
  rintro before e after rfl
  exact noneWaiting_at_iff hgroups hne e

/-- Two frames, each in a chunk of its own. -/
def singleEvents : List ReceiveEvent :=
  [.getMsg, .receive [2, 0, 0, 0, 1, 0], .getMsg, .unavailable, .getMsg,
    .receive [3, 0, 0, 0, 2, 0, 7], .getMsg, .unavailable]

theorem noneWaiting_single :
    Machine.Along CTcpClient.step
      (NoneWaiting (shortPackets.take 2 |>.map (fun p => [p])))
      CTcpClient.fresh singleEvents :=
  (noneWaiting_iff (shortPackets.take 2 |>.map (fun p => [p])) singleEvents
    (by decide) (by decide)).mpr (by decide)

/-- Two frames in one chunk leave the second one waiting. -/
theorem not_noneWaiting :
    ¬ ∀ (groups : List (List Packet)) (events : List ReceiveEvent),
        chunksOf (CTcpClient.run events).2 =
          groups.map (stream Packet.bytes) →
        (∀ g ∈ groups, g ≠ []) →
        Machine.Along CTcpClient.step (NoneWaiting groups) CTcpClient.fresh
          events := by
  intro h
  have hshows := h [shortPackets.take 2]
    [.getMsg, .receive [2, 0, 0, 0, 1, 0, 3, 0, 0, 0, 2, 0, 7], .unavailable]
    (by decide) (by decide)
    [.getMsg, .receive [2, 0, 0, 0, 1, 0, 3, 0, 0, 0, 2, 0, 7]]
    .unavailable [] rfl (by decide)
  have hlength := hshows.length_eq
  revert hlength
  decide

end Lag

end Unity
end NetEngine
