import NetEngine.LockStep.WorldRun
import NetEngine.Unity.Frames

/-!
# Executing a frame exactly once

Every instance that is in sync runs the whole SCFrame for all players, so the
moves of a frame are as many copies of one list as there are instances in sync.
`framesOnce_iff` says when a run of a client executes each frame exactly once:
when at most one instance is in sync at each frame that has a key to execute.
-/

namespace NetEngine
namespace Unity

open LockStep

section Statement

/-- Move calls among the effects. -/
def moveCalls (effects : List Effect) : List MoveCall :=
  effects.filterMap (fun effect =>
    match effect with
    | .move call => some call
    | .send _ => none)

/-- Move calls caused by the keys of one uuid. -/
def movesUnder (u : UInt32) (calls : List MoveCall) : List MoveCall :=
  calls.filter (fun call => call.uuid = u)

/-- The keys that a client executes. -/
def isMovementKey (key : UInt32) : Bool :=
  1 ≤ key && key ≤ 4

/-- One move of an instance for each movement key of a user, in order. -/
def oncePerKey (user : UserFrame) (i : PlayerRef) : List MoveCall :=
  (user.keyinfo.filter isMovementKey).map
    (fun key => ⟨user.uuid, .ofKey key, i⟩)

variable {τ : Type}

/--
No key of the frame is executed, or every movement key of every registered user
is executed once.
-/
def ExactlyOnce (s : Scene τ) (proto : SCFrame)
    (effects : List Effect) : Prop :=
  moveCalls effects = [] ∨
    ∀ user ∈ proto.users, ∀ i, s.getPlayer user.uuid = some i →
      movesUnder user.uuid (moveCalls effects) = oncePerKey user i

/-- Number of instances that find the frame to be their current one. -/
def inSync (s : Scene τ) (proto : SCFrame) : Nat :=
  s.players.countP (fun p => p.curFrameID = proto.frameid)

/--
At most one instance is in sync, or there is nothing to execute: no registered
user has a movement key, or a repeated uuid makes every instance refuse.
-/
def AtMostOneRuns (s : Scene τ) (proto : SCFrame) : Prop :=
  inSync s proto ≤ 1 ∨
    (∀ user ∈ proto.users, s.getPlayer user.uuid ≠ none →
      user.keyinfo.filter isMovementKey = []) ∨
    ¬ (proto.users.map (fun user => user.uuid)).Nodup

end Statement

section OneCopy

/-- Movement keys are the keys 1 to 4. -/
theorem moves_ofKey (key : UInt32) :
    (EPlayerEvent.ofKey key).moves = isMovementKey key := by
  unfold EPlayerEvent.ofKey isMovementKey
  split_ifs with h₁ h₂ h₃ h₄
  · subst h₁
    decide
  · subst h₂
    decide
  · subst h₃
    decide
  · subst h₄
    decide
  · have hbounds : ¬ (1 ≤ key ∧ key ≤ 4) := by
      simp only [UInt32.le_iff_toNat_le, ← UInt32.toNat_inj] at *
      simp at *
      omega
    simpa [EPlayerEvent.moves, ← Bool.and_eq_true_iff] using hbounds

/-- The moves for a registered user. -/
theorem movesOfUser_poolEntry
    {registry : OrderedMap UInt32 PlayerRef} {user : UserFrame}
    {i : PlayerRef} (h : registry.find? user.uuid = some i) :
    movesOfUser registry (poolEntry user) = oncePerKey user i := by
  unfold movesOfUser oncePerKey poolEntry
  rw [h]
  dsimp only
  rw [List.filter_map, List.map_map]
  congr 2
  funext key
  exact moves_ofKey key

theorem movesOfUser_uuid
    {registry : OrderedMap UInt32 PlayerRef}
    {user : UInt32 × List EPlayerEvent} {call : MoveCall}
    (h : call ∈ movesOfUser registry user) :
    call.uuid = user.1 := by
  unfold movesOfUser at h
  split at h
  · cases h
  · obtain ⟨e, _, rfl⟩ := List.mem_map.mp h
    rfl

/-- The moves for one entry of a pool are all under its uuid. -/
theorem movesUnder_movesOfUser
    (u : UInt32) (registry : OrderedMap UInt32 PlayerRef)
    (user : UInt32 × List EPlayerEvent) :
    movesUnder u (movesOfUser registry user) =
      if user.1 = u then movesOfUser registry user else [] := by
  unfold movesUnder
  split_ifs with hu
  · rw [List.filter_eq_self]
    intro call hcall
    exact decide_eq_true ((movesOfUser_uuid hcall).trans hu)
  · rw [List.filter_eq_nil_iff]
    intro call hcall
    rw [movesOfUser_uuid hcall]
    exact fun h => hu (of_decide_eq_true h)

theorem movesUnder_cons
    (u : UInt32) (registry : OrderedMap UInt32 PlayerRef)
    (user : UserFrame) (users : List UserFrame) :
    movesUnder u (movesOf registry ((user :: users).map poolEntry)) =
      (if user.uuid = u then movesOfUser registry (poolEntry user)
        else []) ++
        movesUnder u (movesOf registry (users.map poolEntry)) := by
  have hfirst := movesUnder_movesOfUser u registry (poolEntry user)
  simp only [movesUnder, movesOf, List.map_cons, List.flatMap_cons,
    List.filter_append] at hfirst ⊢
  rw [hfirst]
  rfl

/-- A uuid outside the frame causes no move. -/
theorem movesUnder_of_not_mem
    (registry : OrderedMap UInt32 PlayerRef) {users : List UserFrame}
    {u : UInt32} (h : u ∉ users.map (fun user => user.uuid)) :
    movesUnder u (movesOf registry (users.map poolEntry)) = [] := by
  induction users with
  | nil =>
      rfl
  | cons user users ih =>
      rw [List.map_cons, List.mem_cons, not_or] at h
      rw [movesUnder_cons, if_neg (Ne.symm h.1), ih h.2]
      rfl

/-- In a pool without repetition the moves of a uuid are its user's. -/
theorem movesUnder_movesOf
    (registry : OrderedMap UInt32 PlayerRef)
    {users : List UserFrame}
    (hnodup : (users.map (fun user => user.uuid)).Nodup)
    {user : UserFrame} (hmem : user ∈ users) :
    movesUnder user.uuid (movesOf registry (users.map poolEntry)) =
      movesOfUser registry (poolEntry user) := by
  induction users with
  | nil =>
      cases hmem
  | cons first users ih =>
      obtain ⟨hnotin, hnodup'⟩ := List.nodup_cons.mp hnodup
      rw [movesUnder_cons]
      rcases List.mem_cons.mp hmem with rfl | hmem
      · rw [if_pos rfl, movesUnder_of_not_mem registry hnotin,
          List.append_nil]
      · have hne : ¬ first.uuid = user.uuid := by
          intro heq
          exact hnotin (List.mem_map.mpr ⟨user, hmem, heq.symm⟩)
        rw [if_neg hne, List.nil_append, ih hnodup' hmem]

/-- There is something to execute for some registered user. -/
theorem movesOf_eq_nil_iff
    (registry : OrderedMap UInt32 PlayerRef) (users : List UserFrame) :
    movesOf registry (users.map poolEntry) = [] ↔
      ∀ user ∈ users, registry.find? user.uuid ≠ none →
        user.keyinfo.filter isMovementKey = [] := by
  rw [movesOf, List.flatMap_eq_nil_iff]
  constructor
  · intro hnil user huser hregistered
    obtain ⟨i, hi⟩ := Option.ne_none_iff_exists'.mp hregistered
    have huser := hnil _ (List.mem_map_of_mem huser)
    rw [movesOfUser_poolEntry hi] at huser
    exact List.map_eq_nil_iff.mp huser
  · intro hnone entry hentry
    obtain ⟨user, huser, rfl⟩ := List.mem_map.mp hentry
    cases hi : registry.find? user.uuid with
    | none =>
        simp [movesOfUser, poolEntry, hi]
    | some i =>
        rw [movesOfUser_poolEntry hi, oncePerKey,
          hnone user huser (by simp [hi])]
        rfl

end OneCopy

section Copies

variable {τ : Type}

/-- Filtering copies of a list copies the filtered list. -/
theorem movesUnder_copies
    (u : UInt32) (n : Nat) (calls : List MoveCall) :
    movesUnder u (List.replicate n calls).flatten =
      (List.replicate n (movesUnder u calls)).flatten := by
  rw [movesUnder, List.filter_flatten, List.map_replicate]
  rfl

/-- An instance executes the whole frame or nothing. -/
theorem moveCalls_frameEffects
    (info : FrameInfo) (registry : OrderedMap UInt32 PlayerRef)
    (p : Player τ) :
    moveCalls (frameEffects info registry p) =
      if p.curFrameID = info.curFrameID then movesOf registry info.pool
      else [] := by
  split_ifs with hsync
  · rw [frameEffects_of_inSync registry hsync]
    simp [moveCalls, List.filterMap_map]
  · rw [frameEffects_of_not_inSync registry hsync]
    rfl

/-- The moves of a frame: one copy for every instance in sync. -/
theorem moveCalls_players
    (info : FrameInfo) (registry : OrderedMap UInt32 PlayerRef)
    (players : List (Player τ)) :
    moveCalls (players.flatMap (frameEffects info registry)) =
      (List.replicate
        (players.countP (fun p => p.curFrameID = info.curFrameID))
        (movesOf registry info.pool)).flatten := by
  induction players with
  | nil =>
      rfl
  | cons p players ih =>
      have hsplit :
          moveCalls ((p :: players).flatMap (frameEffects info registry)) =
            moveCalls (frameEffects info registry p) ++
              moveCalls
                (players.flatMap (frameEffects info registry)) := by
        simp [moveCalls]
      rw [hsplit, ih, moveCalls_frameEffects]
      split_ifs with hsync
      · rw [List.countP_cons_of_pos (by simpa using hsync),
          List.replicate_succ, List.flatten_cons]
      · rw [List.countP_cons_of_neg (by simpa using hsync)]
        rfl

variable (engine : Engine τ)

theorem moveCalls_onFrame
    (s : Scene τ) {proto : SCFrame}
    (hnodup : (proto.users.map (fun user => user.uuid)).Nodup) :
    moveCalls (s.onFrame engine proto).2 =
      (List.replicate (inSync s proto)
        (movesOf s.allPlayer (proto.users.map poolEntry))).flatten := by
  have hinfo := FrameInfo.ofFrame_eq proto
  rw [if_pos hnodup] at hinfo
  rw [Scene.onFrame_effects engine hinfo s]
  exact moveCalls_players _ _ _

/-- In a frame every instance in sync moves a registered user once a key. -/
theorem movesUnder_onFrame
    (s : Scene τ) {proto : SCFrame}
    (hnodup : (proto.users.map (fun user => user.uuid)).Nodup)
    {user : UserFrame} (huser : user ∈ proto.users)
    {i : PlayerRef} (hi : s.getPlayer user.uuid = some i) :
    movesUnder user.uuid (moveCalls (s.onFrame engine proto).2) =
      (List.replicate (inSync s proto) (oncePerKey user i)).flatten := by
  rw [moveCalls_onFrame engine s hnodup, movesUnder_copies,
    movesUnder_movesOf s.allPlayer hnodup huser,
    movesOfUser_poolEntry hi]

/-- Otherwise several instances run a registered user's movement key. -/
theorem exists_moves_of_not_atMostOneRuns
    {s : Scene τ} {proto : SCFrame} (hmany : ¬ AtMostOneRuns s proto) :
    1 < inSync s proto ∧
    (∃ user ∈ proto.users, ∃ i, s.getPlayer user.uuid = some i ∧
      0 < (oncePerKey user i).length) ∧
    (proto.users.map (fun user => user.uuid)).Nodup := by
  obtain ⟨hcount, hrest⟩ := not_or.mp hmany
  obtain ⟨hkeys, hnodup⟩ := not_or.mp hrest
  refine ⟨Nat.lt_of_not_le hcount, ?_, not_not.mp hnodup⟩
  by_contra hnone
  apply hkeys
  intro user huser hregistered
  obtain ⟨i, hi⟩ := Option.ne_none_iff_exists'.mp hregistered
  by_contra hkey
  refine hnone ⟨user, huser, i, hi, ?_⟩
  rw [oncePerKey, List.length_map]
  exact List.length_pos_iff.mpr hkey

/-- Two instances in sync execute a frame twice or not at all. -/
theorem atMostOneRuns_of_exactlyOnce
    {s : Scene τ} {proto : SCFrame}
    (honce : ExactlyOnce s proto (s.onFrame engine proto).2) :
    AtMostOneRuns s proto := by
  by_contra hmany
  obtain ⟨hcount, ⟨user, huser, i, hi, hlength⟩, hnodup⟩ :=
    exists_moves_of_not_atMostOneRuns hmany
  have hunder := congrArg List.length
    (movesUnder_onFrame engine s hnodup huser hi)
  rw [List.length_flatten, List.map_replicate, List.sum_replicate_nat]
    at hunder
  rcases honce with hempty | honce
  · rw [hempty] at hunder
    have hpos : 0 < inSync s proto * (oncePerKey user i).length :=
      Nat.mul_pos (by omega) hlength
    simp only [movesUnder, List.filter_nil, List.length_nil] at hunder
    omega
  · rw [honce user huser i hi] at hunder
    have hone : inSync s proto = 1 := by
      apply Nat.eq_of_mul_eq_mul_right hlength
      rw [Nat.one_mul]
      exact hunder.symm
    omega

/-- One instance in sync executes a frame once. -/
theorem exactlyOnce_of_atMostOneRuns
    {s : Scene τ} {proto : SCFrame}
    (hone : AtMostOneRuns s proto)
    (hnodup : (proto.users.map (fun user => user.uuid)).Nodup) :
    ExactlyOnce s proto (s.onFrame engine proto).2 := by
  have hmoves := moveCalls_onFrame engine s hnodup
  rcases hone with hcount | hkeys | hdup
  · rcases Nat.le_one_iff_eq_zero_or_eq_one.mp hcount with hzero | hone
    · refine Or.inl ?_
      rw [hmoves, hzero]
      rfl
    · refine Or.inr ?_
      intro user huser i hi
      rw [movesUnder_onFrame engine s hnodup huser hi, hone]
      simp only [List.replicate_one, List.flatten_singleton]
  · refine Or.inl ?_
    rw [hmoves, (movesOf_eq_nil_iff s.allPlayer proto.users).mpr hkeys]
    simp
  · exact absurd hnodup hdup

/-- A frame is executed exactly once when at most one instance runs it. -/
theorem onFrame_exactlyOnce_iff
    (s : Scene τ) (proto : SCFrame) :
    ExactlyOnce s proto (s.onFrame engine proto).2 ↔
      AtMostOneRuns s proto := by
  refine ⟨atMostOneRuns_of_exactlyOnce engine, fun hone => ?_⟩
  by_cases hnodup : (proto.users.map (fun user => user.uuid)).Nodup
  · exact exactlyOnce_of_atMostOneRuns engine hone hnodup
  · have hinfo := FrameInfo.ofFrame_eq proto
    rw [if_neg hnodup] at hinfo
    rw [Scene.onFrame_throws engine hinfo]
    exact Or.inl rfl

end Copies

section Runs

variable {τ : Type} (engine : Engine τ)

/-- Every SCFrame of a run is executed exactly once, or not at all. -/
def FramesOnce (events : List SceneEvent) : Prop :=
  Machine.Along (Scene.step engine)
    (fun s _ e => ∀ proto, e = .receive (.SCFrame proto) →
      ExactlyOnce s proto (s.onFrame engine proto).2)
    {} events

/-- At every SCFrame of a run at most one instance has keys to execute. -/
def OneRunner (events : List SceneEvent) : Prop :=
  Machine.Along (Scene.step engine)
    (fun s _ e => ∀ proto, e = .receive (.SCFrame proto) →
      AtMostOneRuns s proto)
    {} events

/--
If two clients both execute a frame, they perform the same number of moves for
every uuid that is registered on both.
-/
def SameMoves (s₁ s₂ : Scene τ) (proto : SCFrame) : Prop :=
  moveCalls (s₁.onFrame engine proto).2 ≠ [] →
  moveCalls (s₂.onFrame engine proto).2 ≠ [] →
  ∀ u, s₁.getPlayer u ≠ none → s₂.getPlayer u ≠ none →
    (movesUnder u (moveCalls (s₁.onFrame engine proto).2)).length =
      (movesUnder u (moveCalls (s₂.onFrame engine proto).2)).length

/-- A uuid outside the frame is never moved. -/
theorem movesUnder_onFrame_of_not_mem
    (s : Scene τ) {proto : SCFrame} {u : UInt32}
    (h : u ∉ proto.users.map (fun user => user.uuid)) :
    movesUnder u (moveCalls (s.onFrame engine proto).2) = [] := by
  have hinfo := FrameInfo.ofFrame_eq proto
  split_ifs at hinfo with hnodup
  · rw [moveCalls_onFrame engine s hnodup, movesUnder_copies,
      movesUnder_of_not_mem _ h]
    simp
  · rw [Scene.onFrame_throws engine hinfo]
    rfl

theorem sameMoves_of_exactlyOnce
    {s₁ s₂ : Scene τ} {proto : SCFrame}
    (h₁ : ExactlyOnce s₁ proto (s₁.onFrame engine proto).2)
    (h₂ : ExactlyOnce s₂ proto (s₂.onFrame engine proto).2) :
    SameMoves engine s₁ s₂ proto := by
  intro hmoves₁ hmoves₂ u hu₁ hu₂
  obtain ⟨i₁, hi₁⟩ := Option.ne_none_iff_exists'.mp hu₁
  obtain ⟨i₂, hi₂⟩ := Option.ne_none_iff_exists'.mp hu₂
  by_cases hu : u ∈ proto.users.map (fun user => user.uuid)
  · obtain ⟨user, huser, rfl⟩ := List.mem_map.mp hu
    rw [h₁.resolve_left hmoves₁ user huser i₁ hi₁,
      h₂.resolve_left hmoves₂ user huser i₂ hi₂]
    simp [oncePerKey]
  · rw [movesUnder_onFrame_of_not_mem engine s₁ hu,
      movesUnder_onFrame_of_not_mem engine s₂ hu]

/--
A client executes every frame exactly once precisely when at most one instance
has keys to execute at each, and two such clients move the players they both
know equally often.
-/
theorem framesOnce_iff (events : List SceneEvent) :
    (FramesOnce engine events ↔ OneRunner engine events) ∧
    (FramesOnce engine events → ∀ others, FramesOnce engine others →
      ∀ proto before after before' after',
        events = before ++ .receive (.SCFrame proto) :: after →
        others = before' ++ .receive (.SCFrame proto) :: after' →
        SameMoves engine (Scene.run engine before).1
          (Scene.run engine before').1 proto) := by
  constructor
  · apply Machine.along_congr
    intro before e after _
    apply forall₂_congr
    intro proto _
    exact onFrame_exactlyOnce_iff engine _ proto
  · intro honce others honce' proto before after before' after'
      hevents hothers
    exact sameMoves_of_exactlyOnce engine
      (honce before _ after hevents proto rfl)
      (honce' before' _ after' hothers proto rfl)

/-- An engine whose transforms carry nothing. -/
def unitEngine : Engine Unit where
  prefabTransform := ()
  place := fun _ _ _ t => t
  plus := fun _ _ t => t
  minus := fun _ _ t => t
  position := fun _ => (0, 0, 0)

/--
A player logs in on a smaller socket.  The SCSight instantiates a second Player
on the first client, and both run the first frame.
-/
theorem not_framesOnce :
    ¬ ∀ (codec : Codec) (events : List WorldEvent) (client : Client),
      FramesOnce unitEngine
        ((receivedBy client (World.run codec events).2).map
          SceneEvent.receive) := by
  intro h
  have honce := h plainCodec
    (joins ⟨0, 5⟩ ++ joins ⟨1, 4⟩ ++
      dispatched ⟨0, 5⟩ .ECSReady [] ++ dispatched ⟨1, 4⟩ .ECSReady [] ++
        dispatched ⟨0, 5⟩ .ECSFrame [8, 1, 24, 1] ++ [turnTick])
    ⟨0, 5⟩
  have hreceived :
      receivedBy ⟨0, 5⟩
          (World.run plainCodec
            (joins ⟨0, 5⟩ ++ joins ⟨1, 4⟩ ++
              dispatched ⟨0, 5⟩ .ECSReady [] ++
                dispatched ⟨1, 4⟩ .ECSReady [] ++
                  dispatched ⟨0, 5⟩ .ECSFrame [8, 1, 24, 1] ++
                    [turnTick])).2 =
        [.SCLogin 1, .SCFrameInit ⟨0, 0⟩, .SCSight [⟨1, 0, 0, 0⟩],
          .SCSight [⟨2, 0, 0, 0⟩, ⟨1, 0, 0, 0⟩],
          .SCFrame ⟨0, 1, [⟨1, [1]⟩]⟩] := by
    decide
  rw [hreceived] at honce
  have hframe := honce
    [.receive (.SCLogin 1), .receive (.SCFrameInit ⟨0, 0⟩),
      .receive (.SCSight [⟨1, 0, 0, 0⟩]),
      .receive (.SCSight [⟨2, 0, 0, 0⟩, ⟨1, 0, 0, 0⟩])]
    (.receive (.SCFrame ⟨0, 1, [⟨1, [1]⟩]⟩)) [] rfl _ rfl
  rcases hframe with hnone | hmoves
  · exact absurd hnone (by decide)
  · exact absurd (hmoves ⟨1, [1]⟩ (by decide) 1 (by decide)) (by decide)

end Runs

end Unity
end NetEngine
