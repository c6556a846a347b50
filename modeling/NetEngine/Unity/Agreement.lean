import NetEngine.LockStep.FrameStream
import NetEngine.Unity.FrameExecution

/-!
# Agreement of the clients

What a client does to its scene is a matter of the messages it receives.  The
keys pressed on the client itself are collected in its instances and sent, and
nothing else looks at them: `forget` drops them, every handler commutes with it,
and a run with `FixedUpdate`s anywhere is the run of its messages alone.

The server sends the same stream to everybody who has a seat.  So two clients
whose scenes are the same but for collected keys keep them the same, however
their handlers and their key presses interleave.
-/

namespace NetEngine
namespace Unity

open LockStep

section Forgetting

variable {τ : Type} (engine : Engine τ)

/-- The scene without the keys its instances have collected. -/
def Scene.forget (s : Scene τ) : Scene τ :=
  { s with players := s.players.map Player.clearKeyInfo }

/-- Two scenes that differ in collected keys at most. -/
def SameGame (s s' : Scene τ) : Prop :=
  s.forget = s'.forget

/-- A change of an instance that does not look at the collected keys. -/
def Player.Blind (f : Player τ → Player τ) : Prop :=
  ∀ p, (f p).clearKeyInfo = f p.clearKeyInfo

namespace Scene

@[simp] theorem forget_allPlayer (s : Scene τ) :
    s.forget.allPlayer = s.allPlayer := by
  rfl

@[simp] theorem forget_length (s : Scene τ) :
    s.forget.players.length = s.players.length := by
  simp [forget]

theorem forget_getElem? (s : Scene τ) (i : PlayerRef) :
    s.forget.players[i]? = s.players[i]?.map Player.clearKeyInfo := by
  simp [forget]

@[simp] theorem forget_forget (s : Scene τ) :
    s.forget.forget = s.forget := by
  simp only [forget, List.map_map]
  congr 1

/-- Changing an instance blindly, before or after forgetting. -/
theorem forget_modify
    {f : Player τ → Player τ} (hf : Player.Blind f) (i : PlayerRef)
    (s : Scene τ) :
    (s.modify i f).forget = s.forget.modify i f := by
  simp only [forget, modify, Scene.mk.injEq, and_true]
  apply List.ext_getElem?
  intro j
  simp only [List.getElem?_map, List.getElem?_modify]
  cases s.players[j]? with
  | none =>
      rfl
  | some p =>
      by_cases hij : i = j
      · simp [hij, hf p]
      · simp [hij]

/-- Clearing the keys of an instance is forgotten. -/
theorem forget_modify_of_cleared
    {f : Player τ → Player τ}
    (hf : ∀ p, (f p).clearKeyInfo = p.clearKeyInfo) (i : PlayerRef)
    (s : Scene τ) :
    (s.modify i f).forget = s.forget := by
  simp only [forget, modify, Scene.mk.injEq, and_true]
  apply List.ext_getElem?
  intro j
  simp only [List.getElem?_map, List.getElem?_modify]
  cases s.players[j]? with
  | none =>
      rfl
  | some p =>
      by_cases hij : i = j
      · simp [hij, hf p]
      · simp [hij]

end Scene

end Forgetting

section Registry

variable {τ : Type} (engine : Engine τ)

namespace Scene

theorem forget_addOne (i : PlayerRef) (s : Scene τ) :
    (s.addOne i).forget = s.forget.addOne i := by
  unfold addOne
  rw [forget_getElem?]
  cases s.players[i]? with
  | none =>
      rfl
  | some p =>
      rfl

theorem forget_instantiate (s : Scene τ) :
    (s.instantiate engine).1.forget = (s.forget.instantiate engine).1 ∧
      (s.instantiate engine).2 = (s.forget.instantiate engine).2 := by
  constructor
  · simp [forget, instantiate, Player.ofPrefab, Player.clearKeyInfo]
  · simp [instantiate]

theorem forget_playerOnLogin
    (uuid : UInt32) (i : PlayerRef) (s : Scene τ) :
    (s.playerOnLogin uuid i).forget = s.forget.playerOnLogin uuid i := by
  unfold playerOnLogin
  rw [forget_getElem?]
  cases s.players[i]? with
  | none =>
      rfl
  | some p =>
      have huuid : p.clearKeyInfo.UUID = p.UUID := rfl
      have hset := forget_modify (f := fun p => { p with UUID := uuid })
        (fun _ => rfl) i s
      simp only [Option.map_some, huuid]
      split_ifs
      · rfl
      · rw [forget_addOne, hset]

theorem forget_onLogin (uuid : UInt32) (s : Scene τ) :
    (s.onLogin engine uuid).forget = s.forget.onLogin engine uuid := by
  obtain ⟨hscene, href⟩ := forget_instantiate engine s
  rw [onLogin, onLogin, forget_playerOnLogin, hscene, href]

theorem forget_playerOnSight
    (infos : List PlayerInfo) (i : PlayerRef) (s : Scene τ) :
    (s.playerOnSight engine infos i).forget =
      s.forget.playerOnSight engine infos i := by
  unfold playerOnSight
  induction infos generalizing s with
  | nil =>
      rfl
  | cons info infos ih =>
      have hblind : Player.Blind (Player.setPlayerInfo engine info) :=
        fun _ => rfl
      rw [List.foldl_cons, List.foldl_cons, ih]
      congr 1
      rw [sightInfo, sightInfo, forget_addOne, forget_modify hblind]

theorem forget_getOrInstantiate (uid : UInt32) (s : Scene τ) :
    (s.getOrInstantiate engine uid).1.forget =
        (s.forget.getOrInstantiate engine uid).1 ∧
      (s.getOrInstantiate engine uid).2 =
        (s.forget.getOrInstantiate engine uid).2 := by
  unfold getOrInstantiate getPlayer
  rw [forget_allPlayer]
  cases s.allPlayer.find? uid with
  | none =>
      exact forget_instantiate engine s
  | some i =>
      exact ⟨rfl, rfl⟩

theorem forget_onSight (infos : List PlayerInfo) (s : Scene τ) :
    (s.onSight engine infos).forget = s.forget.onSight engine infos := by
  have hrounds : ∀ (rounds : List PlayerInfo) (s : Scene τ),
      (rounds.foldl (sightRound engine infos) s).forget =
        rounds.foldl (sightRound engine infos) s.forget := by
    intro rounds
    induction rounds with
    | nil =>
        intro s
        rfl
    | cons info rounds ih =>
        intro s
        obtain ⟨hscene, href⟩ := forget_getOrInstantiate engine info.uuid s
        rw [List.foldl_cons, List.foldl_cons, ih]
        congr 1
        rw [sightRound, sightRound, forget_playerOnSight, hscene, href]
  exact hrounds infos s

theorem forget_onFrameInit (proto : SCFrameInit) (s : Scene τ) :
    (s.onFrameInit proto).forget = s.forget.onFrameInit proto := by
  simp only [onFrameInit, forget, List.map_map]
  congr 1

end Scene

end Registry

section Frames

variable {τ : Type} (engine : Engine τ)

theorem Player.moveOf_blind
    {e : EPlayerEvent} {f : Player τ → Player τ}
    (h : Player.moveOf engine e = some f) :
    Player.Blind f := by
  cases e with
  | EPE_Key_Forward | EPE_Key_Back | EPE_Key_Left | EPE_Key_Right =>
      cases h
      exact fun _ => rfl
  | unnamed key =>
      cases h

/-- What two handlers have in common that differ in collected keys. -/
def SameOutcome (r r' : Scene τ × List Effect) : Prop :=
  r.1.forget = r'.1 ∧ moveCalls r.2 = moveCalls r'.2

theorem moveCalls_append (effects effects' : List Effect) :
    moveCalls (effects ++ effects') =
      moveCalls effects ++ moveCalls effects' := by
  rw [moveCalls, List.filterMap_append, moveCalls, moveCalls]

/--
A machine on scenes whose steps have the same outcome from a scene and from what
is left of it has runs of which that is true.
-/
theorem sameOutcome_run
    {ε : Type} {step : Scene τ → ε → Scene τ × List Effect}
    (hstep : ∀ s e, SameOutcome (step s e) (step s.forget e))
    (events : List ε) (s : Scene τ) :
    SameOutcome (Machine.run step s events)
      (Machine.run step s.forget events) := by
  induction events generalizing s with
  | nil =>
      exact ⟨rfl, rfl⟩
  | cons e events ih =>
      obtain ⟨hscene, hmoves⟩ := hstep s e
      obtain ⟨hscene', hmoves'⟩ := ih (step s e).1
      rw [Machine.run_cons, Machine.run_cons, ← hscene]
      refine ⟨hscene', ?_⟩
      rw [moveCalls_append, moveCalls_append, hmoves, hmoves']

namespace Scene

theorem sameOutcome_runKey
    (uid : UInt32) (i : PlayerRef) (s : Scene τ) (e : EPlayerEvent) :
    SameOutcome (runKey engine uid i s e)
      (runKey engine uid i s.forget e) := by
  unfold runKey
  cases hmove : Player.moveOf engine e with
  | none =>
      exact ⟨rfl, rfl⟩
  | some f =>
      exact ⟨forget_modify (Player.moveOf_blind engine hmove) i s, rfl⟩

theorem sameOutcome_runUser
    (s : Scene τ) (user : UInt32 × List EPlayerEvent) :
    SameOutcome (runUser engine s user) (runUser engine s.forget user) := by
  unfold runUser getPlayer
  rw [forget_allPlayer]
  cases s.allPlayer.find? user.1 with
  | none =>
      exact ⟨rfl, rfl⟩
  | some i =>
      exact sameOutcome_run (sameOutcome_runKey engine user.1 i) user.2 s

/-- `FrameTurn` sends what was collected and moves by the frame alone. -/
theorem sameOutcome_frameTurn
    (info : FrameInfo) (i : PlayerRef) (s : Scene τ) :
    SameOutcome (s.frameTurn engine info i)
      (s.forget.frameTurn engine info i) := by
  unfold frameTurn
  rw [forget_getElem?]
  cases s.players[i]? with
  | none =>
      exact ⟨rfl, rfl⟩
  | some p =>
      have hframe : p.clearKeyInfo.curFrameID = p.curFrameID := rfl
      have hclear : (s.modify i Player.clearKeyInfo).forget =
          s.forget.modify i Player.clearKeyInfo :=
        forget_modify (fun _ => rfl) i s
      simp only [Option.map_some, hframe]
      split_ifs
      · obtain ⟨hscene, hmoves⟩ := sameOutcome_run
          (sameOutcome_runUser engine) info.pool
          (s.modify i Player.clearKeyInfo)
        rw [hclear] at hscene hmoves
        exact ⟨hscene, hmoves⟩
      · exact ⟨rfl, rfl⟩

/-- The listeners of several instances. -/
theorem sameOutcome_doEvent
    (proto : SCFrame) (refs : List PlayerRef) (s : Scene τ) :
    SameOutcome (doEvent (onFrameTurn engine proto) s refs)
      (doEvent (onFrameTurn engine proto) s.forget refs) := by
  induction refs generalizing s with
  | nil =>
      exact ⟨rfl, rfl⟩
  | cons i refs ih =>
      cases hinfo : FrameInfo.ofFrame proto with
      | none =>
          simp only [doEvent, onFrameTurn, hinfo]
          exact ⟨rfl, rfl⟩
      | some info =>
          obtain ⟨hscene, hmoves⟩ := sameOutcome_frameTurn engine info i s
          have hnext := forget_modify
            (f := fun p => { p with curFrameID := info.nxtFrameID })
            (fun _ => rfl) i (s.frameTurn engine info i).1
          obtain ⟨hscene', hmoves'⟩ := ih
            ((s.frameTurn engine info i).1.modify i
              (fun p => { p with curFrameID := info.nxtFrameID }))
          rw [hnext, hscene] at hscene' hmoves'
          simp only [doEvent, onFrameTurn, hinfo]
          refine ⟨hscene', ?_⟩
          rw [moveCalls_append, moveCalls_append, hmoves, hmoves']

theorem sameOutcome_onFrame (proto : SCFrame) (s : Scene τ) :
    SameOutcome (s.onFrame engine proto)
      (s.forget.onFrame engine proto) := by
  unfold onFrame
  rw [forget_length]
  exact sameOutcome_doEvent engine proto _ s

/-- A message is handled alike, whatever keys were collected. -/
theorem sameOutcome_receive (s : Scene τ) (msg : SCMessage) :
    SameOutcome (s.step engine (.receive msg))
      (s.forget.step engine (.receive msg)) := by
  cases msg with
  | SCLogin uuid =>
      exact ⟨forget_onLogin engine uuid s, rfl⟩
  | SCSight infos =>
      exact ⟨forget_onSight engine infos s, rfl⟩
  | SCFrameInit init =>
      exact ⟨forget_onFrameInit init s, rfl⟩
  | SCFrame frame =>
      exact sameOutcome_onFrame engine frame s

/-- `FixedUpdate` is forgotten. -/
theorem forget_fixedUpdate
    (s : Scene τ) (i : PlayerRef) (connected w a' d k : Bool) :
    (s.step engine (.fixedUpdate i connected w a' d k)).1.forget =
        s.forget ∧
      moveCalls
        (s.step engine (.fixedUpdate i connected w a' d k)).2 = [] := by
  refine ⟨forget_modify_of_cleared (fun p => ?_) i s, rfl⟩
  obtain ⟨keys, hkeys⟩ := Player.keyPressEvent_keys connected w a' d k p
  rw [hkeys]
  rfl

end Scene

end Frames

section Runs

variable {τ : Type} (engine : Engine τ)

/-- Messages among the events of a client, in order. -/
def messagesOf (events : List SceneEvent) : List SCMessage :=
  events.filterMap (fun e =>
    match e with
    | .receive msg => some msg
    | .fixedUpdate _ _ _ _ _ _ => none)

/--
What a client does to its scene, and the moves it makes, are those of its
messages alone: pressing keys, at whatever moments, does not show.
-/
theorem run_messagesOf (events : List SceneEvent) (s : Scene τ) :
    SameOutcome (Machine.run (Scene.step engine) s events)
      (Machine.run (Scene.step engine) s.forget
        ((messagesOf events).map .receive)) := by
  induction events generalizing s with
  | nil =>
      exact ⟨rfl, rfl⟩
  | cons e events ih =>
      cases e with
      | receive msg =>
          have hmsgs : messagesOf (.receive msg :: events) =
              msg :: messagesOf events := rfl
          obtain ⟨hscene, hmoves⟩ := Scene.sameOutcome_receive engine s msg
          obtain ⟨hscene', hmoves'⟩ :=
            ih (s.step engine (.receive msg)).1
          rw [hscene] at hscene' hmoves'
          rw [hmsgs, List.map_cons, Machine.run_cons, Machine.run_cons]
          refine ⟨hscene', ?_⟩
          rw [moveCalls_append, moveCalls_append, hmoves, hmoves']
      | fixedUpdate i connected w s' a d =>
          have hmsgs : messagesOf
              (.fixedUpdate i connected w s' a d :: events) =
                messagesOf events := rfl
          obtain ⟨hscene, hmoves⟩ :=
            Scene.forget_fixedUpdate engine s i connected w s' a d
          obtain ⟨hscene', hmoves'⟩ := ih
            (s.step engine (.fixedUpdate i connected w s' a d)).1
          rw [hscene] at hscene' hmoves'
          rw [hmsgs, Machine.run_cons]
          refine ⟨hscene', ?_⟩
          rw [moveCalls_append, hmoves, hmoves']
          rfl

/-- Two clients with the same game that receive the same messages. -/
theorem sameGame_run
    {s s' : Scene τ} (hsame : SameGame s s')
    {events events' : List SceneEvent}
    (hmsgs : messagesOf events = messagesOf events') :
    SameGame (Machine.run (Scene.step engine) s events).1
        (Machine.run (Scene.step engine) s' events').1 ∧
      moveCalls (Machine.run (Scene.step engine) s events).2 =
        moveCalls (Machine.run (Scene.step engine) s' events').2 := by
  obtain ⟨hscene, hmoves⟩ := run_messagesOf engine events s
  obtain ⟨hscene', hmoves'⟩ := run_messagesOf engine events' s'
  rw [SameGame] at hsame
  rw [hmsgs, hsame] at hscene hmoves
  exact ⟨hscene.trans hscene'.symm, hmoves.trans hmoves'.symm⟩

/-- Client that a message is sent to alone, as it is in a login. -/
def sentTo : Observation → Option Client
  | .send client _ => some client
  | _ => none

/-- Without a login of its own a client is addressed by broadcasts only. -/
theorem addressedTo_of_not_sentTo
    {client client' : Client} {during : List Observation}
    (h : ∀ o ∈ during, sentTo o ≠ some client)
    (h' : ∀ o ∈ during, sentTo o ≠ some client') :
    during.flatMap (addressedTo client) =
      during.flatMap (addressedTo client') := by
  apply List.flatMap_congr
  intro o ho
  cases o with
  | joined | exited | read | accepted | running | broadcast =>
      rfl
  | send receiver msg =>
      have hne : ¬ receiver = client := by
        rintro rfl
        exact h _ ho rfl
      have hne' : ¬ receiver = client' := by
        rintro rfl
        exact h' _ ho rfl
      rw [addressedTo, addressedTo, if_neg hne, if_neg hne']

/--
Two clients keep their seats during a part of a run of the server in which
neither logs in.  If their scenes are the same game before, they are the same
game after each has handled what it was sent, and both have made the same
moves, whatever keys were pressed and whenever the messages were handled.
-/
theorem clients_agree
    (codec : Codec) (events : List WorldEvent)
    {before during after : List Observation} {client client' : Client}
    (htrace : (World.run codec events).2 = before ++ during ++ after)
    (hseated : SeatedDuring client before during)
    (hseated' : SeatedDuring client' before during)
    (hlogin : ∀ o ∈ during, sentTo o ≠ some client)
    (hlogin' : ∀ o ∈ during, sentTo o ≠ some client')
    {s s' : Scene τ} (hsame : SameGame s s')
    {handled handled' : List SceneEvent}
    (hhandled : messagesOf handled = receivedBy client during)
    (hhandled' : messagesOf handled' = receivedBy client' during) :
    SameGame (Machine.run (Scene.step engine) s handled).1
        (Machine.run (Scene.step engine) s' handled').1 ∧
      moveCalls (Machine.run (Scene.step engine) s handled).2 =
        moveCalls (Machine.run (Scene.step engine) s' handled').2 := by
  have hreach := reaches_part codec events htrace
  apply sameGame_run engine hsame
  rw [hhandled, hhandled', receivedBy_of_seatedDuring hreach hseated,
    receivedBy_of_seatedDuring hreach hseated',
    addressedTo_of_not_sentTo hlogin hlogin']

/-- A player and somebody who joins but never logs in. -/
def watchedGame : List WorldEvent :=
  .registerUser ⟨1, 5⟩ :: joins ⟨0, 4⟩ ++ dispatched ⟨0, 4⟩ .ECSReady [] ++
    dispatched ⟨0, 4⟩ .ECSReady [] ++
      dispatched ⟨0, 4⟩ .ECSFrame [8, 1, 24, 1] ++ [turnTick]

/-- Trace of the watched game. -/
def watchedTrace : List Observation :=
  (World.run plainCodec watchedGame).2

/-- The player presses a key before the frame; both run the same game. -/
theorem clients_agree_watched :
    SameGame
      (Machine.run (Scene.step unitEngine)
        (Scene.run unitEngine
          ((receivedBy ⟨0, 4⟩ (watchedTrace.take 7)).map .receive)).1
        [.fixedUpdate 0 true true false false false,
          .receive (.SCFrame ⟨0, 1, [⟨1, [1]⟩]⟩)]).1
      (Machine.run (Scene.step unitEngine)
        (Scene.run unitEngine
          ((receivedBy ⟨1, 5⟩ (watchedTrace.take 7)).map .receive)).1
        [.receive (.SCFrame ⟨0, 1, [⟨1, [1]⟩]⟩)]).1 :=
  (@clients_agree Unit unitEngine plainCodec watchedGame
    (watchedTrace.take 7) (watchedTrace.drop 7) [] ⟨0, 4⟩ ⟨1, 5⟩ rfl
    (seatedDuring_of_stays rfl (by decide))
    (seatedDuring_of_stays rfl (by decide))
    (by decide) (by decide) _ _ rfl _ _ rfl rfl).1

end Runs

end Unity
end NetEngine
