import NetEngine.Unity.Frames

/-!
# What SCLogin and SCSight do to a client

`Main.OnSight` looks up or instantiates a Player for each entry and passes it
the whole list, and `Player.OnSight` writes every entry of that list into the
one instance.  So after each round all listed UUIDs are registered for one
instance, and that instance carries the UUID listed last.
-/

namespace NetEngine
namespace Unity

open LockStep

variable {τ : Type} (engine : Engine τ)

/-- The loop of `Player.OnSight`, as far as the instance itself goes. -/
def Player.showInfos (infos : List PlayerInfo) (p : Player τ) :
    Player τ :=
  infos.foldl (fun p info => p.setPlayerInfo engine info) p

/-- An instance that was shown a list carries the UUID listed last. -/
theorem Player.showInfos_UUID
    {infos : List PlayerInfo} {last : PlayerInfo}
    (hlast : infos.getLast? = some last) (p : Player τ) :
    (p.showInfos engine infos).UUID = last.uuid := by
  obtain ⟨init, rfl⟩ := List.getLast?_eq_some_iff.mp hlast
  rw [Player.showInfos, List.foldl_append]
  rfl

namespace Scene

/-- UUID field of the instance with a number. -/
def uuidAt (s : Scene τ) (i : PlayerRef) : Option UInt32 :=
  (s.players[i]?).map (fun p => p.UUID)

/-- The registry maps to instances that exist. -/
def RefsValid (s : Scene τ) : Prop :=
  ∀ u i, s.getPlayer u = some i → i < s.players.length

section Rounds

theorem sightInfo_spec
    {i : PlayerRef} {s : Scene τ} (hi : i < s.players.length)
    (info : PlayerInfo) :
    (sightInfo engine i s info).players =
        s.players.modify i (Player.setPlayerInfo engine info) ∧
      ∀ u, (sightInfo engine i s info).getPlayer u =
        if u = info.uuid then some i else s.getPlayer u := by
  have hget :
      (s.players.modify i (Player.setPlayerInfo engine info))[i]? =
        some (s.players[i].setPlayerInfo engine info) := by
    simp [hi]
  simp only [sightInfo, addOne, modify, hget]
  refine ⟨trivial, ?_⟩
  intro u
  exact OrderedMap.find?_set _ _ _ _

theorem playerOnSight_spec
    (infos : List PlayerInfo) {i : PlayerRef} {s : Scene τ}
    (hi : i < s.players.length) :
    (s.playerOnSight engine infos i).players =
        s.players.modify i (Player.showInfos engine infos) ∧
      ∀ u, (s.playerOnSight engine infos i).getPlayer u =
        if u ∈ infos.map (fun info => info.uuid) then some i
        else s.getPlayer u := by
  unfold playerOnSight
  induction infos generalizing s with
  | nil =>
      refine ⟨?_, by simp⟩
      have hid : Player.showInfos engine [] = (id : Player τ → Player τ) :=
        rfl
      rw [hid, List.modify_id]
      rfl
  | cons info infos ih =>
      obtain ⟨hplayers, hget⟩ := sightInfo_spec engine hi info
      have hi' : i < (sightInfo engine i s info).players.length := by
        simpa [hplayers] using hi
      obtain ⟨hplayers', hget'⟩ := ih hi'
      rw [List.foldl_cons]
      constructor
      · rw [hplayers', hplayers, List.modify_modify_eq]
        rfl
      · intro u
        rw [hget' u, hget u, List.map_cons]
        by_cases hrest : u ∈ infos.map (fun info => info.uuid)
        · rw [if_pos hrest, if_pos (List.mem_cons_of_mem _ hrest)]
        · rw [if_neg hrest]
          by_cases hfirst : u = info.uuid
          · rw [if_pos hfirst, if_pos (hfirst ▸ List.mem_cons_self)]
          · rw [if_neg hfirst, if_neg]
            intro hmem
            rcases List.mem_cons.mp hmem with h | h
            · exact hfirst h
            · exact hrest h

/-- What a scene is like in which a round starts to write. -/
structure RoundStart (s s₁ : Scene τ) (i : PlayerRef) : Prop where
  valid : s₁.RefsValid
  ref : i < s₁.players.length
  others : ∀ j p, j ≠ i → s₁.players[j]? = some p → p ∈ s.players

/-- The registered instance, or a new one. -/
theorem getOrInstantiate_cases (uid : UInt32) (s : Scene τ) :
    (∃ i, s.getPlayer uid = some i ∧
      s.getOrInstantiate engine uid = (s, i)) ∨
    (s.getPlayer uid = none ∧
      s.getOrInstantiate engine uid = s.instantiate engine) := by
  cases hget : s.getPlayer uid with
  | some i =>
      refine Or.inl ⟨i, rfl, ?_⟩
      rw [getOrInstantiate, hget]
  | none =>
      refine Or.inr ⟨rfl, ?_⟩
      rw [getOrInstantiate, hget]

/-- The instance of a round is the registered one, or a new one at the end. -/
theorem getOrInstantiate_start
    {s : Scene τ} (hs : s.RefsValid) (uid : UInt32) :
    RoundStart s (s.getOrInstantiate engine uid).1
      (s.getOrInstantiate engine uid).2 := by
  rcases s.getOrInstantiate_cases engine uid with
    ⟨i, hget, heq⟩ | ⟨_, heq⟩
  · rw [heq]
    exact ⟨hs, hs uid i hget, fun _ _ _ hp => List.mem_of_getElem? hp⟩
  · rw [heq]
    refine ⟨?_, by simp [instantiate], ?_⟩
    · intro u i hi
      rw [instantiate, List.length_append]
      exact Nat.lt_add_right _ (hs u i hi)
    · intro j p hj hp
      simp only [instantiate] at hj hp
      have hle := (List.getElem?_eq_some_iff.mp hp).1
      rw [List.length_append, List.length_singleton] at hle
      have hlt : j < s.players.length :=
        Nat.lt_of_le_of_ne (Nat.le_of_lt_succ hle) hj
      rw [List.getElem?_append_left hlt] at hp
      exact List.mem_of_getElem? hp

/-- Nobody is registered by it. -/
theorem getOrInstantiate_getPlayer
    (uid : UInt32) (s : Scene τ) (v : UInt32) :
    (s.getOrInstantiate engine uid).1.getPlayer v = s.getPlayer v := by
  rcases s.getOrInstantiate_cases engine uid with
    ⟨i, _, heq⟩ | ⟨_, heq⟩
  · rw [heq]
  · rw [heq]
    rfl

/-- The instances that are there keep their UUIDs. -/
theorem getOrInstantiate_uuidAt
    (uid : UInt32) {s : Scene τ} {j : PlayerRef}
    (hj : j < s.players.length) :
    (s.getOrInstantiate engine uid).1.uuidAt j = s.uuidAt j := by
  rcases s.getOrInstantiate_cases engine uid with
    ⟨i, _, heq⟩ | ⟨_, heq⟩
  · rw [heq]
  · rw [heq]
    simp only [instantiate, uuidAt]
    rw [List.getElem?_append_left hj]

/--
All listed UUIDs are registered for one instance, which carries the UUID listed
last.
-/
def Collapsed (infos : List PlayerInfo) (s : Scene τ) : Prop :=
  ∃ i, (∀ info ∈ infos, s.getPlayer info.uuid = some i) ∧
    ∀ last, infos.getLast? = some last → s.uuidAt i = some last.uuid

/-- What one round, and hence the whole loop, leaves behind. -/
structure AfterSight (infos : List PlayerInfo) (s s' : Scene τ) :
    Prop where
  valid : s'.RefsValid
  collapsed : Collapsed infos s'
  players : ∀ p ∈ s'.players,
    p ∈ s.players ∨ ∀ last, infos.getLast? = some last → p.UUID = last.uuid

theorem sightRound_spec
    {s : Scene τ} (hs : s.RefsValid) (infos : List PlayerInfo)
    (info : PlayerInfo) :
    AfterSight infos s (sightRound engine infos s info) := by
  have hstart := getOrInstantiate_start engine hs info.uuid
  rw [sightRound]
  generalize (s.getOrInstantiate engine info.uuid).1 = s₁ at hstart ⊢
  generalize (s.getOrInstantiate engine info.uuid).2 = i at hstart ⊢
  obtain ⟨hplayers, hget⟩ := playerOnSight_spec engine infos hstart.ref
  have hat : ∀ j, (s₁.playerOnSight engine infos i).players[j]? =
      if i = j then (s₁.players[j]?).map (Player.showInfos engine infos)
      else s₁.players[j]? := by
    intro j
    rw [hplayers, List.getElem?_modify]
    split_ifs
    · rfl
    · exact Option.map_id'
  refine ⟨?_, ⟨i, ?_, ?_⟩, ?_⟩
  · intro u j hj
    rw [hget u] at hj
    rw [hplayers, List.length_modify]
    split_ifs at hj with hu
    · cases hj
      exact hstart.ref
    · exact hstart.valid u j hj
  · intro info' hinfo'
    rw [hget, if_pos (List.mem_map_of_mem hinfo')]
  · intro last hlast
    rw [uuidAt, hat, if_pos rfl, List.getElem?_eq_getElem hstart.ref]
    exact congrArg some (Player.showInfos_UUID engine hlast _)
  · intro p hp
    obtain ⟨j, hj⟩ := List.getElem?_of_mem hp
    rw [hat] at hj
    split_ifs at hj with hij
    · obtain ⟨q, _, rfl⟩ := Option.map_eq_some_iff.mp hj
      exact Or.inr (fun last hlast =>
        Player.showInfos_UUID engine hlast q)
    · exact Or.inl (hstart.others j p (Ne.symm hij) hj)

/-- Several rounds leave behind what one does. -/
theorem sightRounds_spec
    {s : Scene τ} (hs : s.RefsValid) (infos rounds : List PlayerInfo)
    (hne : rounds ≠ []) :
    AfterSight infos s (rounds.foldl (sightRound engine infos) s) := by
  induction rounds using List.reverseRecOn with
  | nil =>
      exact absurd rfl hne
  | append_singleton rounds info ih =>
      rw [List.foldl_append]
      cases rounds with
      | nil =>
          exact sightRound_spec engine hs infos info
      | cons first rounds =>
          have hbefore := ih (by simp)
          have hlast := sightRound_spec engine hbefore.valid infos info
          refine ⟨hlast.valid, hlast.collapsed, ?_⟩
          intro p hp
          rcases hlast.players p hp with hp | hp
          · exact hbefore.players p hp
          · exact Or.inr hp

/-- `Main.OnSight` with a list that is not empty. -/
theorem onSight_spec
    {s : Scene τ} (hs : s.RefsValid) {infos : List PlayerInfo}
    (hne : infos ≠ []) :
    AfterSight infos s (s.onSight engine infos) :=
  sightRounds_spec engine hs infos infos hne

end Rounds

section Login

/-- `Main.OnLogin` adds an instance with the UUID and registers it. -/
theorem onLogin_spec (uuid : UInt32) (s : Scene τ) :
    (s.onLogin engine uuid).players =
        s.players ++ [{ Player.ofPrefab engine with UUID := uuid }] ∧
      ∀ u, (s.onLogin engine uuid).getPlayer u =
        if u = uuid then some s.players.length else s.getPlayer u := by
  have hnew :
      (s.players ++ [Player.ofPrefab engine])[s.players.length]? =
        some (Player.ofPrefab engine) := by
    simp
  have hzero : ¬ (Player.ofPrefab engine).UUID ≠ 0 := by
    simp [Player.ofPrefab]
  have hmodify :
      (s.players ++ [Player.ofPrefab engine]).modify s.players.length
          (fun p => { p with UUID := uuid }) =
        s.players ++ [{ Player.ofPrefab engine with UUID := uuid }] := by
    rw [List.modify_eq_take_cons_drop (by simp)]
    simp
  have hnew' :
      (s.players ++ [{ Player.ofPrefab engine with
          UUID := uuid }])[s.players.length]? =
        some { Player.ofPrefab engine with UUID := uuid } := by
    simp
  simp only [onLogin, instantiate, playerOnLogin, hnew, if_neg hzero,
    modify, hmodify, addOne, hnew']
  refine ⟨trivial, ?_⟩
  intro u
  exact OrderedMap.find?_set _ _ _ _

end Login

section Identities

/-- The registry and the UUID fields are as before. -/
structure SameIdentities (s s' : Scene τ) : Prop where
  registry : s'.allPlayer = s.allPlayer
  uuid : ∀ i, s'.uuidAt i = s.uuidAt i

/-- Changes that spare the UUID field. -/
theorem Changed.sameIdentities
    {g : PlayerRef → Player τ → Player τ} {s s' : Scene τ}
    (h : Changed g s s') (hg : ∀ i p, (g i p).UUID = p.UUID) :
    SameIdentities s s' := by
  refine ⟨h.registry, ?_⟩
  intro i
  cases hp : s.players[i]? with
  | none =>
      rw [uuidAt, uuidAt, hp, h.player_none hp]
  | some p =>
      obtain ⟨p', hp', hsame⟩ := h.player i p hp
      rw [uuidAt, uuidAt, hp, hp']
      exact congrArg some (hsame.UUID.trans (hg i p))

theorem onFrameInit_identities (proto : SCFrameInit) (s : Scene τ) :
    SameIdentities s (s.onFrameInit proto) := by
  refine ⟨rfl, ?_⟩
  intro i
  simp only [uuidAt, onFrameInit, List.getElem?_map, Option.map_map]
  rfl

theorem onFrame_identities (proto : SCFrame) (s : Scene τ) :
    SameIdentities s (s.onFrame engine proto).1 := by
  cases hinfo : FrameInfo.ofFrame proto with
  | none =>
      rw [onFrame_throws engine hinfo]
      exact ⟨rfl, fun _ => rfl⟩
  | some info =>
      exact (onFrame_changed engine hinfo s).sameIdentities
        (fun _ _ => rfl)

theorem fixedUpdate_identities
    (i : PlayerRef) (connected w s' a d : Bool) (s : Scene τ) :
    SameIdentities s
      (s.modify i (Player.keyPressEvent connected w s' a d)) := by
  refine (changed_modify i _ s).sameIdentities ?_
  intro j p
  split_ifs
  · obtain ⟨keys, hkeys⟩ := p.keyPressEvent_keys connected w s' a d
    rw [hkeys]
  · rfl

theorem lt_length_iff_uuidAt (s : Scene τ) (i : PlayerRef) :
    i < s.players.length ↔ ∃ u, s.uuidAt i = some u := by
  constructor
  · intro hi
    exact ⟨s.players[i].UUID, by simp [uuidAt, hi]⟩
  · rintro ⟨u, hu⟩
    obtain ⟨p, hp, _⟩ := Option.map_eq_some_iff.mp hu
    exact (List.getElem?_eq_some_iff.mp hp).1

theorem SameIdentities.refsValid
    {s s' : Scene τ} (h : SameIdentities s s') (hs : s.RefsValid) :
    s'.RefsValid := by
  intro u i hi
  rw [getPlayer, h.registry] at hi
  obtain ⟨v, hv⟩ := (lt_length_iff_uuidAt s i).mp (hs u i hi)
  exact (lt_length_iff_uuidAt s' i).mpr ⟨v, (h.uuid i).trans hv⟩

theorem onLogin_refsValid
    {s : Scene τ} (hs : s.RefsValid) (uuid : UInt32) :
    (s.onLogin engine uuid).RefsValid := by
  obtain ⟨hplayers, hget⟩ := onLogin_spec engine uuid s
  intro u i hi
  rw [hplayers, List.length_append, List.length_singleton]
  rw [hget] at hi
  split_ifs at hi
  · cases hi
    exact Nat.lt_succ_self _
  · exact Nat.lt_succ_of_lt (hs u i hi)

theorem onSight_refsValid
    {s : Scene τ} (hs : s.RefsValid) (infos : List PlayerInfo) :
    (s.onSight engine infos).RefsValid := by
  cases infos with
  | nil =>
      exact hs
  | cons info infos =>
      exact (onSight_spec engine hs (List.cons_ne_nil info infos)).valid

/-- The registry of a client never maps to a missing instance. -/
theorem refsValid_step
    {s : Scene τ} (hs : s.RefsValid) (e : SceneEvent) :
    (s.step engine e).1.RefsValid := by
  cases e with
  | receive msg =>
      cases msg with
      | SCLogin uuid =>
          exact onLogin_refsValid engine hs uuid
      | SCSight infos =>
          exact onSight_refsValid engine hs infos
      | SCFrameInit proto =>
          exact (onFrameInit_identities proto s).refsValid hs
      | SCFrame proto =>
          exact (onFrame_identities engine proto s).refsValid hs
  | fixedUpdate i connected w s' a d =>
      exact (fixedUpdate_identities i connected w s' a d s).refsValid hs

theorem refsValid_run (events : List SceneEvent) :
    (Scene.run engine events).1.RefsValid :=
  Machine.run_invariant (I := fun (s : Scene τ) _ => s.RefsValid)
    (fun _ _ h => by cases h)
    (fun _ _ e hs => refsValid_step engine hs e) events

end Identities

section FrameNumbers

/-- `CurFrameID` of the instance with a number. -/
def frameAt (s : Scene τ) (i : PlayerRef) : Option UInt64 :=
  (s.players[i]?).map (fun p => p.curFrameID)

/-- Every instance is still there and waits for the same frame. -/
def KeepsFrames (s s' : Scene τ) : Prop :=
  ∀ i c, s.frameAt i = some c → s'.frameAt i = some c

theorem keepsFrames_modify
    (i : PlayerRef) {f : Player τ → Player τ}
    (hf : ∀ p, (f p).curFrameID = p.curFrameID) (s : Scene τ) :
    KeepsFrames s (s.modify i f) := by
  intro j c hc
  obtain ⟨p, hp, rfl⟩ := Option.map_eq_some_iff.mp hc
  simp only [frameAt, modify, List.getElem?_modify, hp]
  split_ifs
  · exact congrArg some (hf p)
  · rfl

theorem keepsFrames_addOne (i : PlayerRef) (s : Scene τ) :
    KeepsFrames s (s.addOne i) := by
  intro j c hc
  unfold addOne
  split
  · exact hc
  · exact hc

theorem keepsFrames_instantiate (s : Scene τ) :
    KeepsFrames s (s.instantiate engine).1 := by
  intro j c hc
  obtain ⟨p, hp, rfl⟩ := Option.map_eq_some_iff.mp hc
  have hlt := (List.getElem?_eq_some_iff.mp hp).1
  simp only [frameAt, instantiate]
  rw [List.getElem?_append_left hlt, hp]
  rfl

theorem KeepsFrames.trans
    {s s' s'' : Scene τ} (h : KeepsFrames s s') (h' : KeepsFrames s' s'') :
    KeepsFrames s s'' :=
  fun i c hc => h' i c (h i c hc)

theorem keepsFrames_foldl
    {g : Scene τ → PlayerInfo → Scene τ}
    (hg : ∀ s info, KeepsFrames s (g s info))
    (infos : List PlayerInfo) (s : Scene τ) :
    KeepsFrames s (infos.foldl g s) := by
  induction infos generalizing s with
  | nil =>
      exact fun _ _ hc => hc
  | cons info infos ih =>
      exact (hg s info).trans (ih (g s info))

theorem keepsFrames_onLogin (uuid : UInt32) (s : Scene τ) :
    KeepsFrames s (s.onLogin engine uuid) := by
  refine (keepsFrames_instantiate engine s).trans ?_
  unfold onLogin playerOnLogin
  split
  · exact fun _ _ hc => hc
  · split_ifs
    · exact fun _ _ hc => hc
    · have hmodify := keepsFrames_modify (s.instantiate engine).2
        (f := fun p => { p with UUID := uuid }) (fun _ => rfl)
        (s.instantiate engine).1
      exact hmodify.trans (keepsFrames_addOne _ _)

theorem keepsFrames_onSight (infos : List PlayerInfo) (s : Scene τ) :
    KeepsFrames s (s.onSight engine infos) := by
  refine keepsFrames_foldl (fun s info => ?_) infos s
  have hstart : KeepsFrames s (s.getOrInstantiate engine info.uuid).1 := by
    rcases s.getOrInstantiate_cases engine info.uuid with
      ⟨i, _, heq⟩ | ⟨_, heq⟩
    · rw [heq]
      exact fun _ _ hc => hc
    · rw [heq]
      exact keepsFrames_instantiate engine s
  refine hstart.trans (keepsFrames_foldl (fun s' info' => ?_) infos _)
  have hmodify := keepsFrames_modify
    (s.getOrInstantiate engine info.uuid).2
    (f := Player.setPlayerInfo engine info') (fun _ => rfl) s'
  exact hmodify.trans (keepsFrames_addOne _ _)

theorem keepsFrames_fixedUpdate
    (i : PlayerRef) (connected w s' a d : Bool) (s : Scene τ) :
    KeepsFrames s
      (s.modify i (Player.keyPressEvent connected w s' a d)) := by
  refine keepsFrames_modify i (fun p => ?_) s
  obtain ⟨keys, hkeys⟩ := p.keyPressEvent_keys connected w s' a d
  rw [hkeys]

/-- After an SCFrame every instance waits for the frame it names next. -/
theorem frameAt_onFrame
    {s : Scene τ} {proto : SCFrame}
    (hnodup : (proto.users.map (fun user => user.uuid)).Nodup)
    {i : PlayerRef} {c : UInt64} (hc : s.frameAt i = some c) :
    (s.onFrame engine proto).1.frameAt i = some proto.nextframeid := by
  have hinfo := FrameInfo.ofFrame_eq proto
  rw [if_pos hnodup] at hinfo
  obtain ⟨p, hp, _⟩ := Option.map_eq_some_iff.mp hc
  obtain ⟨p', hp', hsame⟩ := (onFrame_changed engine hinfo s).player i p hp
  rw [frameAt, hp']
  exact congrArg some hsame.curFrameID

end FrameNumbers

end Scene

end Unity
end NetEngine
