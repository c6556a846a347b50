import NetEngine.Unity.Scene

/-!
# What an SCFrame does to a client

An SCFrame that lists a uuid twice throws in the first listener and does
nothing.  Any other is handled by every instance in turn, and what one instance
does depends on nothing that the others change: `onFrame_effects` reads all
effects off the scene before the frame, `onFrame_changed` the scene after it.
-/

namespace NetEngine
namespace Unity

open LockStep

section Pools

/-- Entry of the pool for a user. -/
def poolEntry (user : UserFrame) : UInt32 × List EPlayerEvent :=
  (user.uuid, user.keyinfo.map EPlayerEvent.ofKey)

theorem poolOf_eq
    (users : List UserFrame) (pool : List (UInt32 × List EPlayerEvent)) :
    (pool.map Prod.fst).Nodup →
    poolOf users pool =
      if (pool.map Prod.fst ++ users.map (fun user => user.uuid)).Nodup
      then some (pool ++ users.map poolEntry)
      else none := by
  induction users generalizing pool with
  | nil =>
      intro hpool
      simp [poolOf, hpool]
  | cons user users ih =>
      intro hpool
      by_cases hmem : user.uuid ∈ pool.map Prod.fst
      · have hdup : ¬ (pool.map Prod.fst ++
            (user :: users).map (fun user => user.uuid)).Nodup := by
          intro hnodup
          exact (List.disjoint_of_nodup_append hnodup) hmem (by simp)
        simp only [poolOf, if_pos hmem, if_neg hdup]
      · have hpool' :
            ((pool ++ [poolEntry user]).map Prod.fst).Nodup := by
          rw [List.map_append, List.nodup_append]
          refine ⟨hpool, by simp, ?_⟩
          rintro a ha b hb rfl
          simp only [List.map_cons, List.map_nil, List.mem_singleton] at hb
          rw [hb] at ha
          exact hmem ha
        have hstep := ih (pool ++ [poolEntry user]) hpool'
        simp only [poolOf, if_neg hmem]
        simpa [poolEntry] using hstep

/-- `OnFrameTurn` builds its pool exactly when no uuid is repeated. -/
theorem FrameInfo.ofFrame_eq (proto : SCFrame) :
    FrameInfo.ofFrame proto =
      if (proto.users.map (fun user => user.uuid)).Nodup
      then some ⟨proto.frameid, proto.nextframeid,
        proto.users.map poolEntry⟩
      else none := by
  unfold FrameInfo.ofFrame
  rw [poolOf_eq proto.users [] (by simp)]
  split_ifs with h₁ h₂ h₂
  · simp
  · exact absurd (by simpa using h₁) h₂
  · exact absurd (by simpa using h₂) h₁
  · rfl

end Pools

section Effects

/-- The keys that move a player. -/
def EPlayerEvent.moves : EPlayerEvent → Bool
  | .unnamed _ => false
  | _ => true

/-- Move calls for one user of a pool. -/
def movesOfUser (registry : OrderedMap UInt32 PlayerRef)
    (user : UInt32 × List EPlayerEvent) : List MoveCall :=
  match registry.find? user.1 with
  | none => []
  | some i =>
      (user.2.filter EPlayerEvent.moves).map (fun e => ⟨user.1, e, i⟩)

/-- Move calls for a pool. -/
def movesOf (registry : OrderedMap UInt32 PlayerRef)
    (pool : List (UInt32 × List EPlayerEvent)) : List MoveCall :=
  pool.flatMap (movesOfUser registry)

/-- What one instance does with an SCFrame. -/
def frameEffects {τ : Type} (info : FrameInfo)
    (registry : OrderedMap UInt32 PlayerRef) (p : Player τ) :
    List Effect :=
  if p.curFrameID = info.curFrameID then
    .send p.keyInfo :: (movesOf registry info.pool).map .move
  else []

/-- An instance in sync sends its keys and executes the frame. -/
theorem frameEffects_of_inSync
    {τ : Type} {info : FrameInfo} {p : Player τ}
    (registry : OrderedMap UInt32 PlayerRef)
    (hsync : p.curFrameID = info.curFrameID) :
    frameEffects info registry p =
      .send p.keyInfo :: (movesOf registry info.pool).map .move :=
  if_pos hsync

/-- An instance that waits for another frame does nothing. -/
theorem frameEffects_of_not_inSync
    {τ : Type} {info : FrameInfo} {p : Player τ}
    (registry : OrderedMap UInt32 PlayerRef)
    (hsync : ¬ p.curFrameID = info.curFrameID) :
    frameEffects info registry p = [] :=
  if_neg hsync

/-- What becomes of an instance, its place apart. -/
def Player.afterFrame {τ : Type} (info : FrameInfo) (p : Player τ) :
    Player τ :=
  { p with
    curFrameID := info.nxtFrameID
    curFrameInfo :=
      if p.curFrameID = info.curFrameID then [] else p.curFrameInfo }

end Effects

section SameButPlace

variable {τ : Type}

namespace Player

theorem SameButPlace.refl (p : Player τ) :
    SameButPlace p p :=
  ⟨rfl, rfl, rfl⟩

theorem SameButPlace.trans
    {p q r : Player τ} (h₁ : SameButPlace p q) (h₂ : SameButPlace q r) :
    SameButPlace p r :=
  ⟨h₂.UUID.trans h₁.UUID, h₂.curFrameID.trans h₁.curFrameID,
    h₂.curFrameInfo.trans h₁.curFrameInfo⟩

theorem SameButPlace.keyInfo
    {p q : Player τ} (h : SameButPlace p q) :
    q.keyInfo = p.keyInfo := by
  simp [Player.keyInfo, h.UUID, h.curFrameID, h.curFrameInfo]

theorem SameButPlace.afterFrame
    {p q : Player τ} (h : SameButPlace p q) (info : FrameInfo) :
    SameButPlace (p.afterFrame info) (q.afterFrame info) := by
  refine ⟨h.UUID, rfl, ?_⟩
  simp only [Player.afterFrame, h.curFrameID, h.curFrameInfo]

end Player

/--
A scene with the same registry and as many instances, each changed by a function
and then moved.
-/
structure Scene.Changed (g : PlayerRef → Player τ → Player τ)
    (s s' : Scene τ) : Prop where
  registry : s'.allPlayer = s.allPlayer
  length : s'.players.length = s.players.length
  player : ∀ (i : PlayerRef) (p : Player τ), s.players[i]? = some p →
    ∃ p', s'.players[i]? = some p' ∧ Player.SameButPlace (g i p) p'

namespace Scene

theorem Changed.refl (s : Scene τ) :
    Changed (fun _ p => p) s s :=
  ⟨rfl, rfl, fun _ p hp => ⟨p, hp, .refl p⟩⟩

/-- No instance is added. -/
theorem Changed.player_none
    {g : PlayerRef → Player τ → Player τ} {s s' : Scene τ}
    (h : Changed g s s') {i : PlayerRef} (hi : s.players[i]? = none) :
    s'.players[i]? = none := by
  rw [List.getElem?_eq_none_iff] at hi ⊢
  rwa [h.length]

theorem Changed.trans
    {g h : PlayerRef → Player τ → Player τ} {s s' s'' : Scene τ}
    (h₁ : Changed g s s') (h₂ : Changed h s' s'')
    (hrespects : ∀ i p q, Player.SameButPlace p q →
      Player.SameButPlace (h i p) (h i q)) :
    Changed (fun i p => h i (g i p)) s s'' := by
  refine ⟨h₂.registry.trans h₁.registry, h₂.length.trans h₁.length, ?_⟩
  intro i p hp
  obtain ⟨q, hq, hsame⟩ := h₁.player i p hp
  obtain ⟨r, hr, hsame'⟩ := h₂.player i q hq
  exact ⟨r, hr, (hrespects i _ _ hsame).trans hsame'⟩

theorem Changed.congr
    {g h : PlayerRef → Player τ → Player τ} {s s' : Scene τ}
    (h₁ : Changed g s s')
    (heq : ∀ i p, s.players[i]? = some p → h i p = g i p) :
    Changed h s s' := by
  refine ⟨h₁.registry, h₁.length, ?_⟩
  intro i p hp
  rw [heq i p hp]
  exact h₁.player i p hp

/-- Changing one instance. -/
theorem changed_modify
    (i : PlayerRef) (f : Player τ → Player τ) (s : Scene τ) :
    Changed (fun j p => if j = i then f p else p) s (s.modify i f) := by
  refine ⟨rfl, by simp [modify], ?_⟩
  intro j p hp
  refine ⟨if j = i then f p else p, ?_, .refl _⟩
  simp only [modify, List.getElem?_modify, hp]
  by_cases hji : j = i
  · simp [hji]
  · have hij : ¬ i = j := fun h => hji h.symm
    simp [hji, hij]

/-- Moving one instance changes nothing but places. -/
theorem changed_move
    (i : PlayerRef) {f : Player τ → Player τ}
    (hf : ∀ p, Player.SameButPlace p (f p)) (s : Scene τ) :
    Changed (fun _ p => p) s (s.modify i f) := by
  refine ⟨rfl, by simp [modify], ?_⟩
  intro j p hp
  obtain ⟨q, hq, hsame⟩ := (changed_modify i f s).player j p hp
  refine ⟨q, hq, Player.SameButPlace.trans ?_ hsame⟩
  split_ifs
  · exact hf p
  · exact .refl p

end Scene

end SameButPlace

section Execution

variable {τ : Type} (engine : Engine τ)

namespace Scene

theorem moveOf_eq_none_iff (e : EPlayerEvent) :
    Player.moveOf engine e = none ↔ e.moves = false := by
  cases e <;> simp [Player.moveOf, EPlayerEvent.moves]

/-- The keys of one user move one instance, in order. -/
theorem runKeys_spec
    (uid : UInt32) (i : PlayerRef) (events : List EPlayerEvent)
    (s : Scene τ) :
    Changed (fun _ p => p) s
        (Machine.run (runKey engine uid i) s events).1 ∧
      (Machine.run (runKey engine uid i) s events).2 =
        ((events.filter EPlayerEvent.moves).map
          (fun e => (⟨uid, e, i⟩ : MoveCall))).map .move := by
  induction events generalizing s with
  | nil =>
      exact ⟨Changed.refl s, rfl⟩
  | cons e events ih =>
      rw [Machine.run_cons]
      cases hmove : Player.moveOf engine e with
      | none =>
          have hmoves := (moveOf_eq_none_iff engine e).mp hmove
          simp only [runKey, hmove]
          rw [List.filter_cons_of_neg (by simp [hmoves])]
          exact ih s
      | some f =>
          have hmoves : e.moves = true := by
            cases h : e.moves with
            | false =>
                rw [(moveOf_eq_none_iff engine e).mpr h] at hmove
                cases hmove
            | true =>
                rfl
          obtain ⟨hchanged, heffects⟩ := ih (s.modify i f)
          simp only [runKey, hmove]
          rw [List.filter_cons_of_pos hmoves, heffects]
          exact ⟨(changed_move i (Player.moveOf_same engine hmove) s).trans
            hchanged (fun _ _ _ h => h), rfl⟩

theorem runUser_spec
    (user : UInt32 × List EPlayerEvent) (s : Scene τ) :
    Changed (fun _ p => p) s (runUser engine s user).1 ∧
      (runUser engine s user).2 =
        (movesOfUser s.allPlayer user).map .move := by
  unfold runUser movesOfUser getPlayer
  cases s.allPlayer.find? user.1 with
  | none =>
      exact ⟨Changed.refl s, rfl⟩
  | some i =>
      exact runKeys_spec engine user.1 i user.2 s

theorem runKeyInfo_spec
    (pool : List (UInt32 × List EPlayerEvent)) (s : Scene τ) :
    Changed (fun _ p => p) s (s.runKeyInfo engine pool).1 ∧
      (s.runKeyInfo engine pool).2 =
        (movesOf s.allPlayer pool).map .move := by
  unfold runKeyInfo
  induction pool generalizing s with
  | nil =>
      exact ⟨Changed.refl s, rfl⟩
  | cons user pool ih =>
      obtain ⟨hfirst, heffect⟩ := runUser_spec engine user s
      obtain ⟨hrest, heffects⟩ := ih (runUser engine s user).1
      rw [Machine.run_cons]
      refine ⟨hfirst.trans hrest (fun _ _ _ h => h), ?_⟩
      rw [heffect, heffects, hfirst.registry]
      simp [movesOf]

/-- What the instance with a number does with an SCFrame. -/
def effectsAt (info : FrameInfo) (s : Scene τ) (i : PlayerRef) :
    List Effect :=
  match s.players[i]? with
  | none => []
  | some p => frameEffects info s.allPlayer p

/-- `FrameTurn` sends and clears the keys of its instance, if in sync. -/
theorem frameTurn_spec
    (info : FrameInfo) (i : PlayerRef) (s : Scene τ) :
    Changed
        (fun j p =>
          if j = i ∧ p.curFrameID = info.curFrameID
          then p.clearKeyInfo else p)
        s (s.frameTurn engine info i).1 ∧
      (s.frameTurn engine info i).2 = effectsAt info s i := by
  unfold frameTurn effectsAt
  cases hi : s.players[i]? with
  | none =>
      refine ⟨(Changed.refl s).congr ?_, rfl⟩
      intro j p hp
      refine if_neg ?_
      rintro ⟨rfl, -⟩
      rw [hi] at hp
      cases hp
  | some p =>
      simp only [frameEffects]
      split_ifs with hsync
      · obtain ⟨hrun, heffects⟩ := runKeyInfo_spec engine info.pool
          (s.modify i Player.clearKeyInfo)
        have hclear := changed_modify i Player.clearKeyInfo s
        refine ⟨(hclear.trans hrun (fun _ _ _ h => h)).congr ?_,
          congrArg (Effect.send p.keyInfo :: ·) heffects⟩
        intro j q hq
        by_cases hji : j = i
        · subst hji
          rw [hi] at hq
          cases hq
          simp [hsync]
        · simp [hji]
      · refine ⟨(Changed.refl s).congr ?_, rfl⟩
        intro j q hq
        refine if_neg ?_
        rintro ⟨rfl, hq'⟩
        rw [hi] at hq
        cases hq
        exact hsync hq'

/-- One listener: its instance takes the frame over, the others may move. -/
theorem onFrameTurn_spec
    {proto : SCFrame} {info : FrameInfo}
    (hinfo : FrameInfo.ofFrame proto = some info)
    (s : Scene τ) (i : PlayerRef) :
    ∃ s', onFrameTurn engine proto s i = some (s', effectsAt info s i) ∧
      Changed (fun j p => if j = i then p.afterFrame info else p) s s' := by
  obtain ⟨hturn, heffects⟩ := frameTurn_spec engine info i s
  refine ⟨(s.frameTurn engine info i).1.modify i
    (fun p => { p with curFrameID := info.nxtFrameID }), ?_, ?_⟩
  · simp only [onFrameTurn, hinfo, heffects]
  · refine (hturn.trans (changed_modify i _ _) ?_).congr ?_
    · intro j p q hsame
      split_ifs
      · exact ⟨hsame.UUID, rfl, hsame.curFrameInfo⟩
      · exact hsame
    · intro j p _
      by_cases hji : j = i
      · by_cases hsync : p.curFrameID = info.curFrameID
        · simp [hji, hsync, Player.afterFrame, Player.clearKeyInfo]
        · simp [hji, hsync, Player.afterFrame]
      · simp [hji]

/-- An instance's effects do not depend on what the others did before. -/
theorem effectsAt_of_changed
    {g : PlayerRef → Player τ → Player τ} {s s' : Scene τ}
    (h : Changed g s s') (info : FrameInfo) {i : PlayerRef}
    (hi : ∀ p, g i p = p) :
    effectsAt info s' i = effectsAt info s i := by
  cases hp : s.players[i]? with
  | none =>
      simp only [effectsAt, hp, h.player_none hp]
  | some p =>
      obtain ⟨p', hp', hsame⟩ := h.player i p hp
      rw [hi p] at hsame
      simp only [effectsAt, hp, hp', frameEffects]
      rw [h.registry, hsame.curFrameID, hsame.keyInfo]

/-- The listeners of different instances, one after the other. -/
theorem doEvent_onFrameTurn_spec
    {proto : SCFrame} {info : FrameInfo}
    (hinfo : FrameInfo.ofFrame proto = some info)
    (refs : List PlayerRef) (hnodup : refs.Nodup) (s : Scene τ) :
    Changed (fun i p => if i ∈ refs then p.afterFrame info else p) s
        (doEvent (onFrameTurn engine proto) s refs).1 ∧
      (doEvent (onFrameTurn engine proto) s refs).2 =
        refs.flatMap (effectsAt info s) := by
  induction refs generalizing s with
  | nil =>
      exact ⟨(Changed.refl s).congr (by simp), rfl⟩
  | cons i refs ih =>
      obtain ⟨hnotin, hnodup'⟩ := List.nodup_cons.mp hnodup
      obtain ⟨s₁, hcall, hfirst⟩ := onFrameTurn_spec engine hinfo s i
      obtain ⟨hrest, heffects⟩ := ih hnodup' s₁
      simp only [doEvent, hcall]
      constructor
      · refine (hfirst.trans hrest ?_).congr ?_
        · intro j p q hsame
          split_ifs
          · exact hsame.afterFrame info
          · exact hsame
        · intro j p _
          by_cases hji : j = i
          · simp [hji, hnotin]
          · simp [hji]
      · rw [heffects, List.flatMap_cons]
        congr 1
        apply List.flatMap_congr
        intro j hj
        refine effectsAt_of_changed hfirst info (fun p => if_neg ?_)
        rintro rfl
        exact hnotin hj

/-- An SCFrame with a repeated uuid is dropped by an exception. -/
theorem onFrame_throws
    {proto : SCFrame} (hinfo : FrameInfo.ofFrame proto = none)
    (s : Scene τ) :
    s.onFrame engine proto = (s, []) := by
  unfold onFrame
  cases s.players with
  | nil =>
      rfl
  | cons p players =>
      rw [List.length_cons, List.range_succ_eq_map]
      simp only [doEvent, onFrameTurn, hinfo]

/-- The scene after an SCFrame. -/
theorem onFrame_changed
    {proto : SCFrame} {info : FrameInfo}
    (hinfo : FrameInfo.ofFrame proto = some info) (s : Scene τ) :
    Changed (fun _ p => p.afterFrame info) s (s.onFrame engine proto).1 := by
  refine (doEvent_onFrameTurn_spec engine hinfo _ List.nodup_range s).1.congr
    ?_
  intro i p hp
  have hi : i < s.players.length := (List.getElem?_eq_some_iff.mp hp).1
  exact (if_pos (List.mem_range.mpr hi)).symm

/-- All effects of an SCFrame, instance by instance. -/
theorem onFrame_effects
    {proto : SCFrame} {info : FrameInfo}
    (hinfo : FrameInfo.ofFrame proto = some info) (s : Scene τ) :
    (s.onFrame engine proto).2 =
      s.players.flatMap (frameEffects info s.allPlayer) := by
  have heffects := (doEvent_onFrameTurn_spec engine hinfo
    (List.range s.players.length) List.nodup_range s).2
  refine heffects.trans ?_
  have hget :
      (List.range s.players.length).map (fun i => s.players[i]?) =
        s.players.map some := by
    apply List.ext_getElem
    · simp
    · intro i h₁ h₂
      simp at h₁
      simp [h₁]
  have hflat := congrArg
    (fun ps : List (Option (Player τ)) => ps.flatMap (fun p? =>
      match p? with
      | none => []
      | some p => frameEffects info s.allPlayer p)) hget
  rw [List.flatMap_map, List.flatMap_map] at hflat
  exact hflat

end Scene

end Execution

end Unity
end NetEngine
