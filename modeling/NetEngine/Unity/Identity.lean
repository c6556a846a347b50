import NetEngine.Unity.FrameExecution
import NetEngine.Unity.Sights

/-!
# Under whose name a client sends

`SendKeyInfo` writes the UUID field of its instance into the CSFrame.  An
SCSight leaves that field, in every instance it reaches, at the UUID listed
last.  A client therefore sends under its own UUID as long as that is listed
last in every SCSight, and two frames after any other SCSight it sends under the
UUID that was.
-/

namespace NetEngine
namespace Unity

open LockStep

variable {τ : Type} (engine : Engine τ)

section Sends

/-- Only instances in sync send, each its own keys. -/
theorem send_mem_frameEffects
    {info : FrameInfo} {registry : OrderedMap UInt32 PlayerRef}
    {p : Player τ} {proto : CSFrame}
    (h : .send proto ∈ frameEffects info registry p) :
    proto = p.keyInfo := by
  by_cases hsync : p.curFrameID = info.curFrameID
  · rw [frameEffects_of_inSync registry hsync] at h
    rcases List.mem_cons.mp h with heq | hmove
    · cases heq
      rfl
    · rcases List.mem_map.mp hmove with ⟨call, _, heq⟩
      cases heq
  · rw [frameEffects_of_not_inSync registry hsync] at h
    cases h

theorem send_mem_onFrame
    {s : Scene τ} {frame : SCFrame} {proto : CSFrame}
    (h : .send proto ∈ (s.onFrame engine frame).2) :
    ∃ p ∈ s.players, proto = p.keyInfo := by
  cases hinfo : FrameInfo.ofFrame frame with
  | none =>
      rw [Scene.onFrame_throws engine hinfo] at h
      cases h
  | some info =>
      rw [Scene.onFrame_effects engine hinfo] at h
      obtain ⟨p, hp, hsend⟩ := List.mem_flatMap.mp h
      exact ⟨p, hp, send_mem_frameEffects hsend⟩

/-- An instance in sync sends its keys. -/
theorem send_of_inSync
    {s : Scene τ} {frame : SCFrame}
    (hnodup : (frame.users.map (fun user => user.uuid)).Nodup)
    {p : Player τ} (hp : p ∈ s.players)
    (hsync : p.curFrameID = frame.frameid) :
    .send p.keyInfo ∈ (s.onFrame engine frame).2 := by
  have hinfo := FrameInfo.ofFrame_eq frame
  rw [if_pos hnodup] at hinfo
  rw [Scene.onFrame_effects engine hinfo]
  refine List.mem_flatMap.mpr ⟨p, hp, ?_⟩
  rw [frameEffects_of_inSync s.allPlayer hsync]
  exact List.mem_cons_self

/-- After an SCFrame every instance waits for the next one. -/
theorem next_of_onFrame
    {s : Scene τ} {frame : SCFrame}
    (hnodup : (frame.users.map (fun user => user.uuid)).Nodup)
    {i : PlayerRef} {u : UInt32} (hi : s.uuidAt i = some u) :
    ∃ p ∈ (s.onFrame engine frame).1.players,
      p.UUID = u ∧ p.curFrameID = frame.nextframeid := by
  have hinfo := FrameInfo.ofFrame_eq frame
  rw [if_pos hnodup] at hinfo
  obtain ⟨p, hp, huuid⟩ := Option.map_eq_some_iff.mp hi
  obtain ⟨p', hp', hsame⟩ :=
    (Scene.onFrame_changed engine hinfo s).player i p hp
  exact ⟨p', List.mem_of_getElem? hp', hsame.UUID.trans huuid,
    hsame.curFrameID⟩

end Sends

section Invariant

/-- Every instance carries one UUID. -/
structure AllCarry (u : UInt32) (s : Scene τ) : Prop where
  valid : s.RefsValid
  carry : ∀ p ∈ s.players, p.UUID = u

theorem AllCarry.of_sameIdentities
    {u : UInt32} {s s' : Scene τ} (h : AllCarry u s)
    (hsame : Scene.SameIdentities s s') :
    AllCarry u s' := by
  refine ⟨hsame.refsValid h.valid, ?_⟩
  intro p' hp'
  obtain ⟨i, hi⟩ := List.getElem?_of_mem hp'
  have huuid : s.uuidAt i = some p'.UUID := by
    rw [← hsame.uuid, Scene.uuidAt, hi]
    rfl
  obtain ⟨p, hp, heq⟩ := Option.map_eq_some_iff.mp huuid
  rw [← heq]
  exact h.carry p (List.mem_of_getElem? hp)

/-- Events after which every instance still carries the UUID. -/
def ListsLast (u : UInt32) : SceneEvent → Prop
  | .receive (.SCLogin uuid) => uuid = u
  | .receive (.SCSight infos) =>
      ∀ last, infos.getLast? = some last → last.uuid = u
  | _ => True

theorem AllCarry.step
    {u : UInt32} {s : Scene τ} (h : AllCarry u s) {e : SceneEvent}
    (he : ListsLast u e) :
    AllCarry u (s.step engine e).1 := by
  have hvalid := Scene.refsValid_step engine h.valid e
  cases e with
  | receive msg =>
      cases msg with
      | SCLogin uuid =>
          obtain rfl : uuid = u := he
          refine ⟨hvalid, ?_⟩
          intro p hp
          have hp' : p ∈ (s.onLogin engine uuid).players := hp
          rw [(Scene.onLogin_spec engine uuid s).1] at hp'
          rcases List.mem_append.mp hp' with hp' | hp'
          · exact h.carry p hp'
          · rw [List.mem_singleton.mp hp']
      | SCSight infos =>
          refine ⟨hvalid, ?_⟩
          intro p hp
          have hp' : p ∈ (s.onSight engine infos).players := hp
          rcases List.eq_nil_or_concat' infos with rfl | ⟨init, last, rfl⟩
          · exact h.carry p hp'
          · have hne : init ++ [last] ≠ [] := by
              simp
            have hafter := Scene.onSight_spec engine h.valid hne
            rcases hafter.players p hp' with hold | hlast
            · exact h.carry p hold
            · have hget : (init ++ [last]).getLast? = some last := by
                simp
              rw [hlast last hget]
              exact he last hget
      | SCFrameInit proto =>
          exact h.of_sameIdentities (Scene.onFrameInit_identities proto s)
      | SCFrame proto =>
          exact h.of_sameIdentities
            (Scene.onFrame_identities engine proto s)
  | fixedUpdate i connected w s' a d =>
      exact h.of_sameIdentities
        (Scene.fixedUpdate_identities i connected w s' a d s)

/-- Such a client sends under the UUID only. -/
theorem AllCarry.send
    {u : UInt32} {s : Scene τ} (h : AllCarry u s) {e : SceneEvent}
    {proto : CSFrame} (hsend : .send proto ∈ (s.step engine e).2) :
    proto.uuid = u := by
  cases e with
  | receive msg =>
      cases msg with
      | SCFrame frame =>
          obtain ⟨p, hp, rfl⟩ := send_mem_onFrame engine hsend
          exact h.carry p hp
      | SCLogin | SCSight | SCFrameInit =>
          cases hsend
  | fixedUpdate =>
      cases hsend

theorem allCarry_run
    {u : UInt32} {events : List SceneEvent}
    (hevents : ∀ e ∈ events, ListsLast u e) :
    AllCarry u (Scene.run engine events).1 ∧
      ∀ proto, .send proto ∈ (Scene.run engine events).2 →
        proto.uuid = u := by
  refine Machine.run_invariant_along
    (P := fun _ _ e => ListsLast u e)
    (I := fun (s : Scene τ) tr => AllCarry u s ∧
      ∀ proto, Effect.send proto ∈ tr → proto.uuid = u)
    ?_ ?_ ?_
  · refine ⟨⟨?_, by simp⟩, by simp⟩
    intro u i hi
    cases hi
  · rintro s tr e he ⟨hcarry, hsent⟩
    refine ⟨hcarry.step engine he, ?_⟩
    intro proto hproto
    rcases List.mem_append.mp hproto with hproto | hproto
    · exact hsent proto hproto
    · exact hcarry.send engine hproto
  · rintro before e after rfl
    exact hevents e (by simp)

end Invariant

/-- The first frame handled after an SCSight puts its instance in sync. -/
theorem send_after_sight
    {s : Scene τ} (hvalid : s.RefsValid)
    {infos : List PlayerInfo} {last : PlayerInfo}
    (hlast : infos.getLast? = some last) {frame next : SCFrame}
    (hframe : (frame.users.map (fun user => user.uuid)).Nodup)
    (hnext : (next.users.map (fun user => user.uuid)).Nodup)
    (hid : next.frameid = frame.nextframeid) :
    ∃ proto,
      .send proto ∈ (((s.onSight engine infos).onFrame engine
        frame).1.onFrame engine next).2 ∧
      proto.uuid = last.uuid := by
  have hne : infos ≠ [] := by
    rintro rfl
    cases hlast
  obtain ⟨i, -, hcarry⟩ :=
    (Scene.onSight_spec engine hvalid hne).collapsed
  obtain ⟨p, hp, huuid, hcur⟩ :=
    next_of_onFrame engine hframe (hcarry last hlast)
  exact ⟨p.keyInfo,
    send_of_inSync engine hnext hp (hcur.trans hid.symm), huuid⟩

/--
A client with UUID `u` for which every SCSight, before or after its SCLogin,
lists `u` last reports all input under `u`.  After an SCSight that ends in
another UUID, two consecutive frames make it report under that one.
-/
theorem sends_own_uuid
    (u : UInt32) (before after : List SceneEvent)
    (hlogin : ∀ v, .receive (.SCLogin v) ∉ before ++ after) :
    ((∀ infos last, .receive (.SCSight infos) ∈ before ++ after →
        infos.getLast? = some last → last.uuid = u) →
      ∀ proto,
        .send proto ∈ (Scene.run engine
          (before ++ .receive (.SCLogin u) :: after)).2 →
        proto.uuid = u) ∧
    (∀ infos last frame next,
      infos.getLast? = some last →
      (frame.users.map (fun user => user.uuid)).Nodup →
      (next.users.map (fun user => user.uuid)).Nodup →
      next.frameid = frame.nextframeid →
      ∃ proto,
        .send proto ∈ (Scene.run engine
          (before ++ .receive (.SCLogin u) :: after ++
            [.receive (.SCSight infos), .receive (.SCFrame frame),
              .receive (.SCFrame next)])).2 ∧
        proto.uuid = last.uuid) := by
  constructor
  · intro hlast
    refine (allCarry_run engine ?_).2
    intro e he
    have he' : e ∈ before ++ after ∨ e = .receive (.SCLogin u) := by
      simp only [List.mem_append, List.mem_cons] at he ⊢
      rcases he with he | he | he
      · exact Or.inl (Or.inl he)
      · exact Or.inr he
      · exact Or.inl (Or.inr he)
    rcases he' with he' | rfl
    · cases e with
      | receive msg =>
          cases msg with
          | SCLogin v =>
              exact absurd he' (hlogin v)
          | SCSight infos =>
              exact fun last hget => hlast infos last he' hget
          | SCFrameInit | SCFrame =>
              trivial
      | fixedUpdate =>
          trivial
    · rfl
  · intro infos last frame next hget hframe hnext hid
    have hvalid := Scene.refsValid_run engine
      (before ++ .receive (.SCLogin u) :: after)
    obtain ⟨proto, hsend, huuid⟩ :=
      send_after_sight engine hvalid hget hframe hnext hid
    refine ⟨proto, ?_, huuid⟩
    rw [Scene.run, Machine.run_append]
    refine List.mem_append_right _ ?_
    simp only [Machine.run_cons, Machine.run_nil, Scene.step,
      List.mem_append]
    exact Or.inr (Or.inr (Or.inl hsend))

/--
A client alone in the room reports two frames under its UUID, and two more under
another UUID once that is sighted behind it.
-/
theorem sends_own_uuid_alone :
    (∀ proto,
      .send proto ∈ (Scene.run unitEngine
        ([] ++ .receive (.SCLogin 1) ::
          [.receive (.SCSight [⟨1, 0, 0, 0⟩]),
            .receive (.SCFrame ⟨0, 1, []⟩),
            .receive (.SCFrame ⟨1, 2, []⟩)])).2 →
      proto.uuid = 1) ∧
    ∃ proto,
      .send proto ∈ (Scene.run unitEngine
        ([] ++ .receive (.SCLogin 1) ::
          [.receive (.SCSight [⟨1, 0, 0, 0⟩]),
            .receive (.SCFrame ⟨0, 1, []⟩),
            .receive (.SCFrame ⟨1, 2, []⟩)] ++
          [.receive (.SCSight [⟨1, 0, 0, 0⟩, ⟨2, 0, 0, 0⟩]),
            .receive (.SCFrame ⟨2, 3, []⟩),
            .receive (.SCFrame ⟨3, 4, []⟩)])).2 ∧
      proto.uuid = 2 := by
  obtain ⟨hown, hother⟩ := sends_own_uuid unitEngine 1 []
    [.receive (.SCSight [⟨1, 0, 0, 0⟩]), .receive (.SCFrame ⟨0, 1, []⟩),
      .receive (.SCFrame ⟨1, 2, []⟩)] (by simp)
  constructor
  · apply hown
    intro infos last hmem hlast
    obtain rfl : infos = [⟨1, 0, 0, 0⟩] := by
      simpa using hmem
    cases hlast
    rfl
  · exact hother [⟨1, 0, 0, 0⟩, ⟨2, 0, 0, 0⟩] ⟨2, 0, 0, 0⟩
      ⟨2, 3, []⟩ ⟨3, 4, []⟩ rfl (by decide) (by decide) rfl

/--
A player on a larger socket logs in while the game runs: from the next frame on
the first client reports under that player's UUID.
-/
theorem not_sends_own_uuid :
    ¬ ∀ (codec : Codec) (events : List WorldEvent) (client : Client)
        (u : UInt32) (before after : List SceneEvent),
      (receivedBy client (World.run codec events).2).map
          SceneEvent.receive = before ++ .receive (.SCLogin u) :: after →
      ∀ proto,
        .send proto ∈ (Machine.run (Scene.step unitEngine)
          (Scene.run unitEngine
            (before ++ [.receive (.SCLogin u)])).1 after).2 →
        proto.uuid = u := by
  intro h
  have hreceived :
      receivedBy ⟨0, 4⟩
          (World.run plainCodec
            (soloGame ⟨0, 4⟩ ++ joins ⟨1, 5⟩ ++ [turnTick])).2 =
        [.SCLogin 1, .SCFrameInit ⟨0, 0⟩, .SCSight [⟨1, 0, 0, 0⟩],
          .SCSight [⟨1, 0, 0, 0⟩, ⟨2, 0, 0, 0⟩],
          .SCFrame ⟨0, 1, []⟩] := by
    decide
  have huuid := h plainCodec
    (soloGame ⟨0, 4⟩ ++ joins ⟨1, 5⟩ ++ [turnTick]) ⟨0, 4⟩ 1 []
    [.receive (.SCFrameInit ⟨0, 0⟩), .receive (.SCSight [⟨1, 0, 0, 0⟩]),
      .receive (.SCSight [⟨1, 0, 0, 0⟩, ⟨2, 0, 0, 0⟩]),
      .receive (.SCFrame ⟨0, 1, []⟩)]
    (by rw [hreceived]; rfl) ⟨2, 0, []⟩ (by decide)
  exact absurd huuid (by decide)

end Unity
end NetEngine
