import NetEngine.Unity.FrameExecution
import NetEngine.Unity.ProtoSerialize
import NetEngine.Unity.SendQueue

/-!
# The way of a key

A connected client with one Player.  A key pressed is collected by the Player,
goes into a CSFrame when an SCFrame is executed, waits in the queue of messages
to send and leaves through the send buffer.  `Update` first sends and then
handles what was received, and an exception in either ends it.

The queue forgets a CSFrame that the send buffer has no room for.  Nothing else
loses or repeats a key, so the keys are conserved exactly as long as no `Update`
meets a message too long that carries some (`keysConserved_iff`).
-/

namespace NetEngine
namespace Unity

open LockStep

/-- The client: its one Player is instance 0 of the scene. -/
structure KeyClient (τ : Type) where
  scene : Scene τ
  sender : CTcpSender := .fresh
  recievedMsgs : List SCFrame := []

inductive KeyEvent where
  | pushKeyInfo (e : EPlayerEvent)
  /-- `GetMsg` adds an SCFrame to `m_recievedMsgs`. -/
  | received (proto : SCFrame)
  | update

/-- The message in which `SendKeyInfo` sends a CSFrame. -/
def csFrameBody (protobuf : ProtoSerialize) (frame : CSFrame) : MessageBody :=
  let bytes := protobuf.serialize frame
  { size := UInt32.ofNat (bytes.length + Net.MessageBody.HEADER_TYPE_BYTES)
    type := EMessageType.ECSFrame.value
    data := bytes }

namespace KeyClient

variable {τ : Type} (engine : Engine τ) (protobuf : ProtoSerialize)

/-- `TCPClient.Send` for what the Player sends. -/
def enqueueSends (s : CTcpSender) (effects : List Effect) : CTcpSender :=
  effects.foldl
    (fun s effect =>
      match effect with
      | .send frame => s.enqueue (some (csFrameBody protobuf frame))
      | .move _ => s)
    s

/-- `HandleRecieveMsg`; a listener that throws ends it. -/
def handleRecieveMsg (c : KeyClient τ) : List SCFrame → KeyClient τ
  | [] => { c with recievedMsgs := [] }
  | proto :: msgs =>
      match c.scene.onFrameTurn engine proto 0 with
      | none => { c with recievedMsgs := msgs }
      | some r =>
          handleRecieveMsg
            { c with
              scene := r.1
              sender := enqueueSends protobuf c.sender r.2 }
            msgs

/-- One event, and what goes to the socket. -/
def step (c : KeyClient τ) :
    KeyEvent → KeyClient τ × List SenderObservation
  | .pushKeyInfo e =>
      ({ c with scene := c.scene.modify 0 (Player.pushKeyInfo true e) }, [])
  | .received proto =>
      ({ c with recievedMsgs := c.recievedMsgs ++ [proto] }, [])
  | .update =>
      let r := c.sender.sendMsg
      let c' := { c with sender := r.sender }
      match r.threw with
      | some _ => (c', r.out)
      | none => (c'.handleRecieveMsg engine protobuf c.recievedMsgs, r.out)

end KeyClient

section Keys

variable {τ : Type} (protobuf : ProtoSerialize)

/-- Keys of a serialized CSFrame. -/
def keysOfBytes (bytes : List UInt8) : List UInt32 :=
  match protobuf.deSerialize bytes with
  | none => []
  | some frame => frame.keyinfo

/-- Keys of a queued message. -/
def keysOf (msg : Option MessageBody) : List UInt32 :=
  match msg with
  | none => []
  | some body => keysOfBytes protobuf body.data

/-- Keys on the wire; the header of a message has six bytes. -/
def wireKeys (tr : List SenderObservation) : List UInt32 :=
  (sentChunks tr).flatMap (fun bytes => keysOfBytes protobuf (bytes.drop 6))

/-- Keys that wait in the queue. -/
def queuedKeys (s : CTcpSender) : List UInt32 :=
  s.sendMsgs.flatMap (keysOf protobuf)

/-- Keys in `CurFrameInfo` of the Player. -/
def curKeys (scene : Scene τ) : List UInt32 :=
  match scene.players[0]? with
  | none => []
  | some p => p.curFrameInfo.map EPlayerEvent.key

/-- Keys that an SCFrame makes the Player send. -/
def sentKeys (effects : List Effect) : List UInt32 :=
  effects.flatMap (fun effect =>
    match effect with
    | .send frame => frame.keyinfo
    | .move _ => [])

/-- Keys pushed, in order. -/
def pushedKeys : List KeyEvent → List UInt32
  | [] => []
  | .pushKeyInfo e :: events => e.key :: pushedKeys events
  | .received _ :: events => pushedKeys events
  | .update :: events => pushedKeys events

/-- Keys of the queue's first message that is too long, if there is one. -/
def longKeys (queue : List (Option MessageBody)) : List UInt32 :=
  ((queue.dropWhile Fits).take 1).flatMap (keysOf protobuf)

/-- An `Update` meets no message that is too long and carries keys. -/
def NoLongKeys (c : KeyClient τ) (_ : List SenderObservation) :
    KeyEvent → Prop
  | .update => longKeys protobuf c.sender.sendMsgs = []
  | .pushKeyInfo _ | .received _ => True

instance (c : KeyClient τ) (tr : List SenderObservation) :
    (e : KeyEvent) → Decidable (NoLongKeys protobuf c tr e)
  | .update => inferInstanceAs (Decidable (_ = _))
  | .pushKeyInfo _ | .received _ => .isTrue trivial

/--
The keys on the wire, in the queue and in the Player, in this order, are the
keys pushed.
-/
def KeysConserved (c : KeyClient τ) (tr : List SenderObservation)
    (events : List KeyEvent) : Prop :=
  wireKeys protobuf tr ++ queuedKeys protobuf c.sender ++ curKeys c.scene =
    pushedKeys events

end Keys

section Steps

variable {τ : Type} {engine : Engine τ} {protobuf : ProtoSerialize}
variable {c : KeyClient τ}

theorem pushedKeys_append (events later : List KeyEvent) :
    pushedKeys (events ++ later) = pushedKeys events ++ pushedKeys later := by
  induction events with
  | nil =>
      rfl
  | cons e events ih =>
      cases e with
      | pushKeyInfo e | received proto | update =>
          simp [pushedKeys, ih]

@[simp] theorem wireKeys_append (tr out : List SenderObservation) :
    wireKeys protobuf (tr ++ out) =
      wireKeys protobuf tr ++ wireKeys protobuf out := by
  rw [wireKeys, sentChunks_append, List.flatMap_append]
  rfl

theorem keysOf_csFrameBody
    (hround : protobuf.RoundTrip) (frame : CSFrame) :
    keysOf protobuf (some (csFrameBody protobuf frame)) = frame.keyinfo := by
  show keysOfBytes protobuf (protobuf.serialize frame) = _
  rw [keysOfBytes, hround frame]

/-- A client with its one Player and a send buffer of the right size. -/
structure Ready (c : KeyClient τ) : Prop where
  sized : Sized c.sender
  onePlayer : c.scene.players.length = 1

/-- Keys of what is enqueued go behind those of the queue. -/
theorem enqueueSends_spec
    (hround : protobuf.RoundTrip) (s : CTcpSender) (effects : List Effect) :
    (KeyClient.enqueueSends protobuf s effects).sendBuffer = s.sendBuffer ∧
      queuedKeys protobuf (KeyClient.enqueueSends protobuf s effects) =
        queuedKeys protobuf s ++ sentKeys effects := by
  induction effects generalizing s with
  | nil =>
      exact ⟨rfl, (List.append_nil _).symm⟩
  | cons effect effects ih =>
      cases effect with
      | move call =>
          exact ih s
      | send frame =>
          obtain ⟨hbuffer, hkeys⟩ :=
            ih (s.enqueue (some (csFrameBody protobuf frame)))
          refine ⟨hbuffer, ?_⟩
          have hone : queuedKeys protobuf
              (s.enqueue (some (csFrameBody protobuf frame))) =
                queuedKeys protobuf s ++ frame.keyinfo := by
            rw [queuedKeys, CTcpSender.enqueue, List.flatMap_append,
              List.flatMap_singleton, keysOf_csFrameBody hround]
            rfl
          rw [hone, List.append_assoc] at hkeys
          exact hkeys

/-- Moves carry no keys. -/
theorem sentKeys_moves (calls : List MoveCall) :
    sentKeys (calls.map .move) = [] := by
  induction calls with
  | nil =>
      rfl
  | cons call calls ih =>
      exact ih

/-- The Player sends the keys it has, or keeps them. -/
theorem onFrameTurn_keys
    {scene : Scene τ} (hone : scene.players.length = 1) {proto : SCFrame}
    {r : Scene τ × List Effect}
    (hturn : scene.onFrameTurn engine proto 0 = some r) :
    r.1.players.length = 1 ∧
      sentKeys r.2 ++ curKeys r.1 = curKeys scene := by
  cases hinfo : FrameInfo.ofFrame proto with
  | none =>
      simp [Scene.onFrameTurn, hinfo] at hturn
  | some info =>
      obtain ⟨s', hcall, hchanged⟩ :=
        Scene.onFrameTurn_spec engine hinfo scene 0
      rw [hcall] at hturn
      cases hturn
      refine ⟨hchanged.length.trans hone, ?_⟩
      obtain ⟨p, hp⟩ : ∃ p, scene.players[0]? = some p :=
        ⟨_, List.getElem?_eq_getElem (by omega)⟩
      obtain ⟨p', hp', hsame⟩ := hchanged.player 0 p hp
      have hkeys := hsame.curFrameInfo
      rw [if_pos rfl, Player.afterFrame] at hkeys
      simp only [Scene.effectsAt, hp, curKeys, hp', hkeys]
      by_cases hsync : p.curFrameID = info.curFrameID
      · rw [frameEffects_of_inSync _ hsync, if_pos hsync]
        show p.keyInfo.keyinfo ++ sentKeys _ ++ [] = _
        rw [sentKeys_moves, List.append_nil, List.append_nil]
        rfl
      · rw [frameEffects_of_not_inSync _ hsync, if_neg hsync]
        rfl

/-- Handling what was received moves keys from the Player to the queue. -/
theorem handleRecieveMsg_keys
    (engine : Engine τ) (hround : protobuf.RoundTrip) (hready : Ready c)
    (msgs : List SCFrame) :
    Ready (c.handleRecieveMsg engine protobuf msgs) ∧
      queuedKeys protobuf
          (c.handleRecieveMsg engine protobuf msgs).sender ++
          curKeys (c.handleRecieveMsg engine protobuf msgs).scene =
        queuedKeys protobuf c.sender ++ curKeys c.scene := by
  induction msgs generalizing c with
  | nil =>
      exact ⟨⟨hready.sized, hready.onePlayer⟩, rfl⟩
  | cons proto msgs ih =>
      rw [KeyClient.handleRecieveMsg]
      cases hturn : c.scene.onFrameTurn engine proto 0 with
      | none =>
          exact ⟨⟨hready.sized, hready.onePlayer⟩, rfl⟩
      | some r =>
          obtain ⟨hone, hkeys⟩ := onFrameTurn_keys hready.onePlayer hturn
          obtain ⟨hbuffer, hqueued⟩ := enqueueSends_spec hround c.sender r.2
          have hready' : Ready
              { c with
                scene := r.1
                sender := KeyClient.enqueueSends protobuf c.sender r.2 } := by
            refine ⟨?_, hone⟩
            rw [Sized, hbuffer]
            exact hready.sized
          obtain ⟨hready'', hrest⟩ := ih hready'
          refine ⟨hready'', hrest.trans ?_⟩
          rw [hqueued, List.append_assoc, hkeys]

/-- The payload of a message follows six bytes of header. -/
theorem drop_wireBytes (msg : MessageBody) :
    (wireBytes msg).drop 6 = msg.data := by
  rw [wireBytes, ← List.append_assoc]
  exact List.drop_left' (by simp)

/-- Keys on the wire after a queue was sent up to the first long message. -/
theorem wireKeys_taken (queue : List (Option MessageBody)) :
    ((taken queue).filterMap wireOf).flatMap
        (fun bytes => keysOfBytes protobuf (bytes.drop 6)) =
      (queue.takeWhile Fits).flatMap (keysOf protobuf) := by
  induction queue with
  | nil =>
      rfl
  | cons entry queue ih =>
      by_cases hfits : Fits entry
      · rw [(taken_cons_of_fits hfits queue).1, List.takeWhile_cons_of_pos hfits,
          List.flatMap_cons, ← ih]
        cases entry with
        | none =>
            rfl
        | some msg =>
            have hwire : wireOf (some msg) = some (wireBytes msg) := by
              rw [wireOf, if_pos hfits]
            rw [List.filterMap_cons_some hwire, List.flatMap_cons,
              drop_wireBytes]
            rfl
      · rw [(taken_cons_of_long hfits queue).1,
          List.takeWhile_cons_of_neg hfits,
          List.filterMap_cons_none (wireOf_of_long hfits)]
        rfl

/-- What is sent and what is left are the queue without the long message. -/
theorem sendMsg_keys (protobuf : ProtoSerialize) (hsized : Sized c.sender) :
    queuedKeys protobuf c.sender =
      wireKeys protobuf c.sender.sendMsg.out ++
        longKeys protobuf c.sender.sendMsgs ++
          queuedKeys protobuf c.sender.sendMsg.sender := by
  have hloop := sendLoop_sends hsized c.sender.sendMsgs
  have hsplit : c.sender.sendMsgs =
      c.sender.sendMsgs.takeWhile Fits ++
        ((c.sender.sendMsgs.dropWhile Fits).take 1 ++
          leftBehind c.sender.sendMsgs) := by
    rw [leftBehind, List.take_append_drop, List.takeWhile_append_dropWhile]
  rw [CTcpSender.sendMsg, wireKeys, hloop.sent, wireKeys_taken, longKeys,
    queuedKeys, queuedKeys, hloop.left, List.append_assoc,
    ← List.flatMap_append, ← List.flatMap_append, ← hsplit]

/-- An `Update` sends, and then keeps the keys of the queue and the Player. -/
theorem update_keys
    (engine : Engine τ) (hround : protobuf.RoundTrip) (hready : Ready c) :
    Ready (c.step engine protobuf .update).1 ∧
      (c.step engine protobuf .update).2 = c.sender.sendMsg.out ∧
      queuedKeys protobuf (c.step engine protobuf .update).1.sender ++
          curKeys (c.step engine protobuf .update).1.scene =
        queuedKeys protobuf c.sender.sendMsg.sender ++ curKeys c.scene := by
  have hsized : Sized c.sender.sendMsg.sender :=
    (sendLoop_sends hready.sized c.sender.sendMsgs).sized
  have hready' : Ready { c with sender := c.sender.sendMsg.sender } :=
    ⟨hsized, hready.onePlayer⟩
  rw [KeyClient.step]
  cases c.sender.sendMsg.threw with
  | some e =>
      exact ⟨hready', rfl, rfl⟩
  | none =>
      obtain ⟨hready'', hkeys⟩ :=
        handleRecieveMsg_keys engine hround hready' c.recievedMsgs
      exact ⟨hready'', rfl, hkeys⟩

theorem curKeys_push
    {scene : Scene τ} (hone : scene.players.length = 1) (e : EPlayerEvent) :
    curKeys (scene.modify 0 (Player.pushKeyInfo true e)) =
      curKeys scene ++ [e.key] := by
  obtain ⟨p, hp⟩ := List.length_eq_one_iff.mp hone
  simp [curKeys, Scene.modify, hp, Player.pushKeyInfo]

theorem step_ready
    (hround : protobuf.RoundTrip) (hready : Ready c) (e : KeyEvent) :
    Ready (c.step engine protobuf e).1 := by
  cases e with
  | pushKeyInfo e =>
      refine ⟨hready.sized, ?_⟩
      simpa [KeyClient.step, Scene.modify] using hready.onePlayer
  | received proto =>
      exact ⟨hready.sized, hready.onePlayer⟩
  | update =>
      exact (update_keys engine hround hready).1

/-- An event keeps the keys together exactly when it meets no long message. -/
theorem step_conserved_iff
    (hround : protobuf.RoundTrip) (hready : Ready c)
    {tr : List SenderObservation} {events : List KeyEvent}
    (hkeys : KeysConserved protobuf c tr events) (e : KeyEvent) :
    KeysConserved protobuf (c.step engine protobuf e).1
        (tr ++ (c.step engine protobuf e).2) (events ++ [e]) ↔
      NoLongKeys protobuf c tr e := by
  rw [KeysConserved, pushedKeys_append, ← hkeys]
  cases e with
  | pushKeyInfo e =>
      rw [KeyClient.step]
      simp only [curKeys_push hready.onePlayer, List.append_nil, NoLongKeys,
        iff_true]
      simp [pushedKeys]
  | received proto =>
      rw [KeyClient.step]
      simp [pushedKeys, NoLongKeys]
  | update =>
      obtain ⟨-, hout, hrest⟩ := update_keys engine hround hready
      have hsplit := sendMsg_keys protobuf hready.sized
      have hnone : pushedKeys [.update] = [] := by
        rfl
      rw [NoLongKeys, hout, wireKeys_append, List.append_assoc, hrest,
        hsplit, hnone, List.append_nil]
      constructor
      · intro heq
        have hlength := congrArg List.length heq
        rw [← List.length_eq_zero_iff]
        simp only [List.length_append] at hlength
        omega
      · intro hnil
        simp [hnil]

end Steps

/-- The scene and the queue of a client that has just connected. -/
def KeyClient.connected {τ : Type} (scene : Scene τ) : KeyClient τ :=
  { scene := scene }

theorem run_ready
    {τ : Type} {engine : Engine τ} {protobuf : ProtoSerialize}
    (hround : protobuf.RoundTrip) {scene : Scene τ}
    (hone : scene.players.length = 1) (events : List KeyEvent) :
    Ready (Machine.run (KeyClient.step engine protobuf) (.connected scene)
      events).1 := by
  refine Machine.run_invariant (I := fun c _ => Ready c) ?_ ?_ events
  · exact ⟨rfl, hone⟩
  · intro c tr e h
    exact step_ready hround h e

/-- After every event the keys pushed are on the wire, queued or collected. -/
def AlwaysConserved {τ : Type} (engine : Engine τ) (protobuf : ProtoSerialize)
    (scene : Scene τ) (events : List KeyEvent) : Prop :=
  ∀ before, before <+: events →
    KeysConserved protobuf
      (Machine.run (KeyClient.step engine protobuf) (.connected scene)
        before).1
      (Machine.run (KeyClient.step engine protobuf) (.connected scene)
        before).2
      before

/--
No key is lost or sent twice exactly when no `Update` meets a message that is
too long and carries keys.
-/
theorem keysConserved_iff
    {τ : Type} (engine : Engine τ) (protobuf : ProtoSerialize)
    (hround : protobuf.RoundTrip) (scene : Scene τ) (p : Player τ)
    (hplayer : scene.players = [p]) (hnone : p.curFrameInfo = [])
    (events : List KeyEvent) :
    AlwaysConserved engine protobuf scene events ↔
      Machine.Along (KeyClient.step engine protobuf) (NoLongKeys protobuf)
        (.connected scene) events := by
  have hone : scene.players.length = 1 := by
    rw [hplayer]
    rfl
  apply Machine.forall_prefix_iff_along
    (I := fun before =>
      KeysConserved protobuf
        (Machine.run (KeyClient.step engine protobuf) (.connected scene)
          before).1
        (Machine.run (KeyClient.step engine protobuf) (.connected scene)
          before).2
        before)
  · rw [KeysConserved, curKeys]
    simp [KeyClient.connected, hplayer, hnone, wireKeys, sentChunks,
      queuedKeys, CTcpSender.fresh, pushedKeys]
  · intro before e hkeys
    rw [Machine.run_concat]
    exact step_conserved_iff hround (run_ready hround hone before) hkeys e

section Flood

/-- A scene with a new Player that has collected some keys. -/
def collected (keys : List EPlayerEvent) : Scene Unit :=
  { players :=
      [{ Player.ofPrefab unitEngine with curFrameInfo := keys }] }

theorem keysConserved_one_key :
    AlwaysConserved unitEngine plainSerialize (collected [])
      [.pushKeyInfo .EPE_Key_Forward, .received ⟨0, 1, []⟩, .update,
        .update] :=
  (keysConserved_iff unitEngine plainSerialize plainSerialize_roundTrip
    (collected []) _ rfl rfl _).mpr (by decide)

theorem run_pushes (n : Nat) :
    Machine.run (KeyClient.step unitEngine plainSerialize)
        (.connected (collected []))
        (List.replicate n (.pushKeyInfo .EPE_Key_Forward)) =
      (.connected (collected (List.replicate n .EPE_Key_Forward)), []) := by
  induction n with
  | zero =>
      rfl
  | succ n ih =>
      rw [List.replicate_succ', Machine.run_concat, ih,
        List.replicate_succ']
      rfl

/-- The first SCFrame puts all keys into one message. -/
theorem step_first_frame (keys : List EPlayerEvent) :
    (Machine.run (KeyClient.step unitEngine plainSerialize)
        (.connected (collected keys))
        [.received ⟨0, 1, []⟩, .update]).1.sender.sendMsgs =
      [some (csFrameBody plainSerialize
        ⟨0, 0, keys.map EPlayerEvent.key⟩)] := by
  rfl

/-- Keys pressed before the first frame are lost when there are too many. -/
theorem not_alwaysConserved_of_flood
    {n : Nat} (hn : CTcpClient.SEND_SOCKET_BUFFER_SIZE < 2 * n + 6) :
    ¬ AlwaysConserved unitEngine plainSerialize (collected [])
        (List.replicate n (.pushKeyInfo .EPE_Key_Forward) ++
          [.received ⟨0, 1, []⟩, .update] ++ [.update]) := by
  intro hall
  have hkeys := hall _ (List.prefix_append _ [KeyEvent.update])
  have hlast := hall _ (List.prefix_refl _)
  rw [Machine.run_concat] at hlast
  have hlong := (step_conserved_iff plainSerialize_roundTrip
    (run_ready plainSerialize_roundTrip rfl _) hkeys .update).mp hlast
  -- the second `Update` finds all keys in one message
  rw [Machine.run_append, run_pushes, NoLongKeys, step_first_frame,
    List.map_replicate] at hlong
  have hfits : ¬ Fits (some (csFrameBody plainSerialize
      ⟨0, 0, List.replicate n (EPlayerEvent.key .EPE_Key_Forward)⟩)) := by
    have hbytes := length_plainSerialize
      ⟨0, 0, List.replicate n (EPlayerEvent.key .EPE_Key_Forward)⟩
    rw [List.length_replicate] at hbytes
    rw [Fits, decide_eq_true_iff]
    show ¬ (plainSerialize.serialize _).length + 6 ≤ _
    omega
  rw [longKeys, List.dropWhile_cons_of_neg hfits, List.take_one,
    List.head?_cons, Option.toList_some, List.flatMap_singleton,
    keysOf_csFrameBody plainSerialize_roundTrip,
    List.replicate_eq_nil_iff] at hlong
  rw [hlong] at hn
  exact absurd hn (by decide)

theorem keys_lost :
    ¬ ∀ (protobuf : ProtoSerialize) (scene : Scene Unit) (p : Player Unit)
        (events : List KeyEvent),
        protobuf.RoundTrip → scene.players = [p] → p.curFrameInfo = [] →
        AlwaysConserved unitEngine protobuf scene events := by
  intro h
  exact not_alwaysConserved_of_flood (n := 5200) (by decide)
    (h plainSerialize (collected []) _ _ plainSerialize_roundTrip rfl rfl)

end Flood

end Unity
end NetEngine
