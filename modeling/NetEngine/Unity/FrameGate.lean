import NetEngine.Unity.FrameExecution

/-!
# The frame gate

A Player executes an SCFrame whose number is its `CurFrameID`, but it takes the
number of the next frame over from every SCFrame, executed or not.  So a frame
that is missing stops the execution at the frame behind it, and the frame after
that one is executed again: the gap is jumped over.

With frames in the server's order, a frame executed is the next one of the last
frame executed exactly when no frame out of order came in between
(`noGap_iff`).
-/

namespace NetEngine
namespace Unity

open LockStep

/-- An SCFrame that a Player took over, and what `OnFrameTurn` did. -/
structure Turn where
  frame : SCFrame
  effects : List Effect

/-- A frame executed is reported, so it has an effect. -/
def Turn.executed (turn : Turn) : Bool :=
  ! turn.effects.isEmpty

section Gate

variable {τ : Type} (engine : Engine τ) (i : PlayerRef)

/-- `OnFrameTurn` of one Player; a frame that throws is not taken over. -/
def turnStep (s : Scene τ) (proto : SCFrame) : Scene τ × List Turn :=
  match s.onFrameTurn engine proto i with
  | none => (s, [])
  | some r => (r.1, [⟨proto, r.2⟩])

/-- Frames executed, in order. -/
def executedFrames (tr : List Turn) : List SCFrame :=
  (tr.filter Turn.executed).map Turn.frame

/-- A frame that is executed is the next one of the last executed. -/
def NoGap (s : Scene τ) (tr : List Turn) (proto : SCFrame) : Prop :=
  ∀ turn ∈ (turnStep engine i s proto).2, turn.executed →
    ∀ f, (executedFrames tr).getLast? = some f →
      turn.frame.frameid = f.nextframeid

/-- The Player waits for this frame, and it lists no uuid twice. -/
def InOrder (s : Scene τ) (proto : SCFrame) : Prop :=
  s.players[i]?.map Player.curFrameID = some proto.frameid ∧
    (proto.users.map (fun user => user.uuid)).Nodup

/--
When a frame in order comes in after some frame was executed, the last one taken
over was executed.
-/
def NoneBetween (s : Scene τ) (tr : List Turn) (proto : SCFrame) : Prop :=
  InOrder i s proto → executedFrames tr ≠ [] →
    tr.getLast?.any Turn.executed = true

/-- Frames as the server numbers them, some of them missing. -/
structure FromServer (frames : List SCFrame) : Prop where
  next : ∀ f ∈ frames, f.nextframeid.toNat = f.frameid.toNat + 1
  order : frames.Pairwise (fun f g => f.frameid < g.frameid)

variable {engine : Engine τ} {i : PlayerRef}
variable {s : Scene τ} {tr : List Turn} {proto : SCFrame}

/-- The next frame of the last one taken over is awaited. -/
def Awaits (i : PlayerRef) (s : Scene τ) (tr : List Turn) : Prop :=
  ∀ p turn, s.players[i]? = some p → tr.getLast? = some turn →
    p.curFrameID = turn.frame.nextframeid

/-- What one frame does: nothing, or it is taken over. -/
theorem turnStep_cases (engine : Engine τ) (i : PlayerRef) (s : Scene τ)
    (proto : SCFrame) :
    (¬ (proto.users.map (fun user => user.uuid)).Nodup ∧
        turnStep engine i s proto = (s, [])) ∨
      ∃ s' effects, turnStep engine i s proto = (s', [⟨proto, effects⟩]) ∧
        (Turn.executed ⟨proto, effects⟩ = true ↔ InOrder i s proto) ∧
        ∀ p, s'.players[i]? = some p → p.curFrameID = proto.nextframeid := by
  have hinfo := FrameInfo.ofFrame_eq proto
  split_ifs at hinfo with hnodup
  · right
    obtain ⟨s', hcall, hchanged⟩ := Scene.onFrameTurn_spec engine hinfo s i
    refine ⟨s', _, by rw [turnStep, hcall], ?_, ?_⟩
    · rw [InOrder, Scene.effectsAt]
      cases s.players[i]? with
      | none =>
          simp [Turn.executed]
      | some p =>
          by_cases hsync : p.curFrameID = proto.frameid
          · simp [frameEffects, hsync, hnodup, Turn.executed]
          · simp [frameEffects, hsync, Turn.executed]
    · intro p' hp'
      cases hp : s.players[i]? with
      | none =>
          rw [hchanged.player_none hp] at hp'
          cases hp'
      | some p =>
          obtain ⟨q, hq, hsame⟩ := hchanged.player i p hp
          rw [hq] at hp'
          cases hp'
          rw [hsame.curFrameID, if_pos rfl]
          rfl
  · left
    refine ⟨hnodup, ?_⟩
    rw [turnStep, Scene.onFrameTurn, hinfo]

theorem turnStep_awaits (h : Awaits i s tr) :
    Awaits i (turnStep engine i s proto).1
      (tr ++ (turnStep engine i s proto).2) := by
  rcases turnStep_cases engine i s proto with
    ⟨-, hnothing⟩ | ⟨s', effects, htaken, -, hnext⟩
  · rw [hnothing, List.append_nil]
    exact h
  · rw [htaken]
    intro p turn hp hlast
    rw [List.getLast?_append, List.getLast?_singleton, Option.some_or]
      at hlast
    cases hlast
    exact hnext p hp

/-- Frames taken over, in order. -/
theorem turnStep_frames :
    List.Sublist ((turnStep engine i s proto).2.map Turn.frame)
      [proto] := by
  rcases turnStep_cases engine i s proto with
    ⟨-, hnothing⟩ | ⟨s', effects, htaken, -, -⟩
  · rw [hnothing]
    exact List.nil_sublist _
  · rw [htaken]
    exact List.Sublist.refl _

theorem run_frames
    (engine : Engine τ) (i : PlayerRef) (s : Scene τ)
    (frames : List SCFrame) :
    List.Sublist
      ((Machine.run (turnStep engine i) s frames).2.map Turn.frame)
      frames := by
  induction frames using List.reverseRecOn with
  | nil =>
      exact List.Sublist.refl _
  | append_singleton frames proto ih =>
      rw [Machine.run_concat, List.map_append]
      exact ih.append turnStep_frames

/-- The last frame executed, if the last one taken over was. -/
theorem executedFrames_last
    {before : List Turn} {turn : Turn} (h : turn.executed = true) :
    (executedFrames (before ++ [turn])).getLast? = some turn.frame := by
  simp [executedFrames, List.filter_append, h]

/-- An earlier one, if it was not. -/
theorem executedFrames_earlier
    {before : List Turn} {turn : Turn} (h : ¬ turn.executed = true) :
    executedFrames (before ++ [turn]) = executedFrames before := by
  simp [executedFrames, List.filter_append, h]

theorem executedFrames_mem
    {f : SCFrame} (h : f ∈ executedFrames tr) :
    f ∈ tr.map Turn.frame := by
  obtain ⟨turn, hturn, rfl⟩ := List.mem_map.mp h
  exact List.mem_map_of_mem (List.mem_filter.mp hturn).1

/-- A frame in order is the next one of the last frame taken over. -/
theorem InOrder.frameid
    (h : InOrder i s proto) {before : List Turn} {turn : Turn}
    (hawaits : Awaits i s (before ++ [turn])) :
    proto.frameid = turn.frame.nextframeid := by
  obtain ⟨p, hp, hcur⟩ := Option.map_eq_some_iff.mp h.1
  rw [← hcur]
  exact hawaits p turn hp List.getLast?_concat

/-- The gate lets a frame in order through. -/
theorem noGap_iff_of_inOrder :
    NoGap engine i s tr proto ↔
      (InOrder i s proto → ∀ f, (executedFrames tr).getLast? = some f →
        proto.frameid = f.nextframeid) := by
  rcases turnStep_cases engine i s proto with
    ⟨hdup, hnothing⟩ | ⟨s', effects, htaken, hexecuted, -⟩
  · rw [NoGap, hnothing]
    constructor
    · intro _ horder
      exact absurd horder.2 hdup
    · rintro _ turn ⟨⟩
  · rw [NoGap, htaken, List.forall_mem_singleton, hexecuted]

/-- One frame meets the gate's promise exactly when none came between. -/
theorem step_noGap_iff
    (hawaits : Awaits i s tr) (hserver : FromServer (tr.map Turn.frame)) :
    NoGap engine i s tr proto ↔ NoneBetween i s tr proto := by
  rw [noGap_iff_of_inOrder, NoneBetween]
  refine imp_congr_right fun horder => ?_
  cases tr using List.reverseRecOn with
  | nil =>
      simp [executedFrames]
  | append_singleton before turn =>
      have hframeid := horder.frameid hawaits
      rw [List.getLast?_concat, Option.any_some]
      by_cases hlast : turn.executed = true
      · rw [executedFrames_last hlast]
        constructor
        · intro _ _
          exact hlast
        · rintro - f ⟨⟩
          exact hframeid
      · rw [executedFrames_earlier hlast]
        constructor
        · intro hgap hne
          -- an earlier frame has a smaller number, and so has its next one
          have hmem := executedFrames_mem (List.getLast_mem hne)
          have hnext := hgap _ (List.getLast?_eq_some_getLast hne)
          rw [List.map_append] at hserver
          have hless := (List.pairwise_append.mp hserver.order).2.2 _ hmem
            turn.frame (List.mem_singleton_self _)
          have hsmall := hserver.next _ (List.mem_append_left _ hmem)
          have hlarge := hserver.next turn.frame
            (List.mem_append_right _ (List.mem_singleton_self _))
          rw [hframeid] at hnext
          rw [UInt64.lt_iff_toNat_lt] at hless
          rw [hnext] at hlarge
          omega
        · intro hnone f hf
          have hne : executedFrames before ≠ [] := by
            intro hnil
            rw [hnil] at hf
            cases hf
          exact absurd (hnone hne) hlast

/--
The Player executes no frame across a gap exactly when no frame out of order
comes in between two frames in order.
-/
theorem noGap_iff
    (engine : Engine τ) (i : PlayerRef) (s : Scene τ) (frames : List SCFrame)
    (hserver : FromServer frames) :
    Machine.Along (turnStep engine i) (NoGap engine i) s frames ↔
      Machine.Along (turnStep engine i) (NoneBetween i) s frames := by
  apply Machine.along_congr
  rintro before proto after rfl
  apply step_noGap_iff
  · refine Machine.run_invariant (I := Awaits i) ?_ ?_ before
    · rintro p turn - ⟨⟩
    · intro t tr e h
      exact turnStep_awaits h
  · have hsub := (run_frames engine i s before).trans
      (List.sublist_append_left before (proto :: after))
    constructor
    · intro f hf
      exact hserver.next f (hsub.subset hf)
    · exact hserver.order.sublist hsub

instance (i : PlayerRef) (s : Scene τ) (tr : List Turn) (proto : SCFrame) :
    Decidable (NoneBetween i s tr proto) :=
  inferInstanceAs (Decidable (_ ∧ _ → _))

/-- A scene with one new Player. -/
def oneNewPlayer : Scene Unit :=
  { players := [Player.ofPrefab unitEngine] }

theorem noGap_two_frames :
    Machine.Along (turnStep unitEngine 0) (NoGap unitEngine 0) oneNewPlayer
      [⟨0, 1, []⟩, ⟨1, 2, []⟩] :=
  (noGap_iff unitEngine 0 oneNewPlayer [⟨0, 1, []⟩, ⟨1, 2, []⟩]
    ⟨by decide, by decide⟩).mpr (by decide)

/-- Without frame 1, frame 2 is dropped and frame 3 executed after frame 0. -/
theorem jumps_over_gap :
    ¬ ∀ (scene : Scene Unit) (i : PlayerRef) (frames : List SCFrame),
        FromServer frames →
        Machine.Along (turnStep unitEngine i) (NoGap unitEngine i) scene
          frames := by
  intro h
  have hgap := h oneNewPlayer 0 [⟨0, 1, []⟩, ⟨2, 3, []⟩, ⟨3, 4, []⟩]
    ⟨by decide, by decide⟩ [⟨0, 1, []⟩, ⟨2, 3, []⟩] ⟨3, 4, []⟩ [] rfl
  have hnext := hgap _ (List.mem_singleton_self _) rfl ⟨0, 1, []⟩ rfl
  revert hnext
  decide

end Gate

end Unity
end NetEngine
