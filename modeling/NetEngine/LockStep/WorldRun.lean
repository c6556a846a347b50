import NetEngine.Lib.Machine
import NetEngine.LockStep.World

/-!
# Runs of the world

The world is entered from outside in four ways: a session joins or exits, a
message is queued, the main loop ticks.  A run is a list of such events and its
trace is everything that was observed.

`Move` lists once what a step can do to the world, with the guards of the
source.  `step_moves` shows that each step is a move followed by at most one
turn; invariants are proved against the moves and never unfold a handler.
-/

namespace NetEngine
namespace LockStep

open Net

inductive WorldEvent where
  | registerUser (client : Client)
  | deleteUser (client : Client)
  | pushMsg (client : Client) (msg : MsgPtr)
  | tick (memory : MsgPtr → MessageBody) (turnDue : Bool)

namespace World

/-- One call into the world and what is observed of it. -/
def step (codec : Codec) (w : World) :
    WorldEvent → World × List Observation
  | .registerUser client =>
      (w.registerUser client,
        match w.getUser client.sockfd with
        | none => [.joined client]
        | some _ => [])
  | .deleteUser client =>
      (w.deleteUser client,
        match w.getUser client.sockfd with
        | none => []
        | some _ => [.exited client])
  | .pushMsg client msg => (w.pushMsg client msg, [])
  | .tick memory turnDue => w.tick codec memory turnDue

/-- The world as the constructor leaves it, after a list of events. -/
def run (codec : Codec) (events : List WorldEvent) :
    World × List Observation :=
  Machine.run (step codec) {} events

end World

/-- The world without the message at the front of its queue. -/
def World.pop (w : World) : World :=
  { w with msgQueue := w.msgQueue.tail }

/-- What a step can do to the world, and what is observed of it. -/
inductive Move : World → List Observation → World → Prop
  | idle (w : World) : Move w [] w
  | join (w : World) (client : Client)
      (hnew : w.getUser client.sockfd = none) :
      Move w [.joined client] (w.registerUser client)
  | exit (w : World) (client : Client) (player : Player)
      (hold : w.getUser client.sockfd = some player) :
      Move w [.exited client] (w.deleteUser client)
  | push (w : World) (client : Client) (msg : MsgPtr) :
      Move w [] (w.pushMsg client msg)
  | ignore (w : World) (client : Client) (body : MessageBody) :
      Move w [.read client body] w.pop
  | login (w : World) (client : Client) (body : MessageBody)
      (player : Player)
      (hfind : w.getUser client.sockfd = some player)
      (huuid : player.UUID = 0) :
      Move w
        (.read client body :: .accepted client.sockfd 0 .CSLogin ::
          .send player.client (.SCLogin (w.uuidCounter + 1)) ::
          (w.frameInit player ++
            (w.login client.sockfd player).sendLoginInfo))
        (w.login client.sockfd player).pop
  | readyEarly (w : World) (client : Client) (body : MessageBody)
      (player : Player)
      (hfind : w.getUser client.sockfd = some player)
      (huuid : player.UUID = 0) :
      Move w
        [.read client body, .accepted client.sockfd 0 .CSReady]
        w.pop
  | ready (w : World) (client : Client) (body : MessageBody)
      (player : Player)
      (hfind : w.getUser client.sockfd = some player)
      (huuid : player.UUID ≠ 0)
      (hwait : w.readyCount + 1 ≠ w.getUserSize) :
      Move w
        [.read client body, .accepted client.sockfd player.UUID .CSReady]
        { w.pop with readyCount := w.readyCount + 1 }
  | start (w : World) (client : Client) (body : MessageBody)
      (player : Player)
      (hfind : w.getUser client.sockfd = some player)
      (huuid : player.UUID ≠ 0)
      (hall : w.readyCount + 1 = w.getUserSize) :
      Move w
        [.read client body, .accepted client.sockfd player.UUID .CSReady,
          .running]
        { w.pop with
          readyCount := w.readyCount + 1
          gameState := .EGS_RUNNING }
  | frame (w : World) (client : Client) (body : MessageBody)
      (player : Player) (proto : CSFrame)
      (hfind : w.getUser client.sockfd = some player) :
      Move w
        [.read client body,
          .accepted client.sockfd player.UUID (.CSFrame proto)]
        { w.pop with
          curFrameInfo :=
            proto.keyinfo.foldl (World.pushKey proto.uuid) w.curFrameInfo }
  | turn (w : World) (hrun : w.gameState = .EGS_RUNNING) :
      Move w w.frameTurn.2 w.frameTurn.1

section Inversion

variable (codec : Codec)

theorem handleLogin_move
    (w : World) (client : Client) (body : MessageBody) (player : Player)
    (hfind : w.getUser client.sockfd = some player) :
    Move w
      (.read client body ::
        (w.handleLogin codec client.sockfd player body).out)
      (w.handleLogin codec client.sockfd player body).world.pop := by
  unfold World.handleLogin
  split_ifs with hparse huuid
  · exact Move.ignore w client body
  · have hzero : player.UUID = 0 := not_not.mp huuid
    rw [hzero]
    exact Move.login w client body player hfind hzero
  · exact Move.ignore w client body

theorem handleReady_move
    (w : World) (client : Client) (body : MessageBody) (player : Player)
    (hfind : w.getUser client.sockfd = some player) :
    Move w
      (.read client body ::
        (w.handleReady codec client.sockfd player body).out)
      (w.handleReady codec client.sockfd player body).world.pop := by
  unfold World.handleReady
  split_ifs with hparse huuid
  · dsimp only
    split_ifs with hall
    · exact Move.start w client body player hfind huuid hall
    · exact Move.ready w client body player hfind huuid hall
  · have hzero : player.UUID = 0 := not_not.mp huuid
    rw [hzero]
    exact Move.readyEarly w client body player hfind hzero
  · exact Move.ignore w client body

theorem handleFrame_move
    (w : World) (client : Client) (body : MessageBody) (player : Player)
    (hfind : w.getUser client.sockfd = some player) :
    Move w
      (.read client body ::
        (w.handleFrame codec client.sockfd player body).out)
      (w.handleFrame codec client.sockfd player body).world.pop := by
  unfold World.handleFrame
  cases hproto : codec.parseCSFrame body.data (payloadSize body) with
  | none =>
      exact Move.ignore w client body
  | some proto =>
      exact Move.frame w client body player proto hfind

/-- Dispatching the front message and popping it is a move. -/
theorem dispatchCommand_move
    (w : World) (client : Client) (body : MessageBody) :
    Move w (w.dispatchCommand codec client body).2
      (w.dispatchCommand codec client body).1.pop := by
  unfold World.dispatchCommand
  cases hcmd : World.command codec body.type with
  | none =>
      exact Move.ignore w client body
  | some func =>
      cases hfind : w.getUser client.sockfd with
      | none =>
          exact Move.ignore w client body
      | some player =>
          unfold World.command at hcmd
          split_ifs at hcmd
          · cases hcmd
            exact handleLogin_move codec w client body player hfind
          · cases hcmd
            exact handleReady_move codec w client body player hfind
          · cases hcmd
            exact handleFrame_move codec w client body player hfind

theorem messageProc_move
    (memory : MsgPtr → MessageBody) (w : World) :
    Move w (w.messageProc codec memory).2
      (w.messageProc codec memory).1 := by
  unfold World.messageProc
  cases w.msgQueue with
  | nil =>
      exact Move.idle w
  | cons node rest =>
      exact dispatchCommand_move codec w node.client (memory node.msg)

/-- A turn is a frame turn while the game runs, and nothing otherwise. -/
inductive TurnMove : World → List Observation → World → Prop
  | idle (w : World) : TurnMove w [] w
  | turn (w : World) (hrun : w.gameState = .EGS_RUNNING) :
      TurnMove w w.frameTurn.2 w.frameTurn.1

theorem TurnMove.move
    {w w' : World} {out : List Observation} (h : TurnMove w out w') :
    Move w out w' := by
  cases h with
  | idle =>
      exact Move.idle w
  | turn hrun =>
      exact Move.turn w hrun

theorem turn_turnMove (w : World) :
    TurnMove w w.turn.2 w.turn.1 := by
  unfold World.turn
  split_ifs with hrun
  · exact TurnMove.turn w hrun
  · exact TurnMove.idle w

/-- A tick handles the front message and then at most a turn. -/
theorem tick_turnMove
    (w : World) (memory : MsgPtr → MessageBody) (turnDue : Bool) :
    ∃ out,
      TurnMove (w.messageProc codec memory).1 out
        (w.step codec (.tick memory turnDue)).1 ∧
      (w.step codec (.tick memory turnDue)).2 =
        (w.messageProc codec memory).2 ++ out := by
  cases turnDue with
  | false =>
      exact ⟨[], TurnMove.idle _, (List.append_nil _).symm⟩
  | true =>
      exact ⟨_, turn_turnMove _, rfl⟩

/-- Every step is a move and then at most a turn. -/
theorem step_moves (w : World) (e : WorldEvent) :
    ∃ w₁ out₁ out₂,
      Move w out₁ w₁ ∧
      TurnMove w₁ out₂ (w.step codec e).1 ∧
      (w.step codec e).2 = out₁ ++ out₂ := by
  cases e with
  | registerUser client =>
      refine ⟨w.registerUser client, _, [], ?_, TurnMove.idle _,
        (List.append_nil _).symm⟩
      cases hfind : w.getUser client.sockfd with
      | none =>
          simpa [World.step, hfind] using Move.join w client hfind
      | some player =>
          rw [World.registerUser_of_getUser hfind]
          simpa [World.step, hfind] using Move.idle w
  | deleteUser client =>
      refine ⟨w.deleteUser client, _, [], ?_, TurnMove.idle _,
        (List.append_nil _).symm⟩
      cases hfind : w.getUser client.sockfd with
      | none =>
          rw [World.deleteUser_of_getUser_none hfind]
          simpa [World.step, hfind] using Move.idle w
      | some player =>
          simpa [World.step, hfind] using
            Move.exit w client player hfind
  | pushMsg client msg =>
      exact ⟨w.pushMsg client msg, [], [], Move.push w client msg,
        TurnMove.idle _, rfl⟩
  | tick memory turnDue =>
      have hproc := messageProc_move codec memory w
      obtain ⟨out, hturn, hout⟩ := tick_turnMove codec w memory turnDue
      exact ⟨_, _, out, hproc, hturn, hout⟩

end Inversion

/-- A turn shows nothing but a broadcast SCFrame. -/
theorem TurnMove.broadcasts
    {w w' : World} {out : List Observation} (h : TurnMove w out w')
    {o : Observation} (ho : o ∈ out) :
    ∃ clients frame, o = .broadcast clients (.SCFrame frame) := by
  cases h with
  | idle =>
      simp at ho
  | turn hrun =>
      exact ⟨_, _, List.mem_singleton.mp ho⟩

/--
An invariant of world and trace that every move preserves holds after every
run, when the moves are those of steps that meet a guard.  The guard sees the
world before a move, the trace so far and what the move shows; it asks nothing
of turns and is inherited by the first move of a step.
-/
theorem run_invariant_of_moves
    {codec : Codec}
    {G : World → List Observation → List Observation → Prop}
    {I : World → List Observation → Prop}
    (hinit : I {} [])
    (hpart : ∀ w tr out₁ out₂, G w tr (out₁ ++ out₂) → G w tr out₁)
    (hturn : ∀ w tr out w', TurnMove w out w' → G w tr out)
    (hmove : ∀ w tr out w', Move w out w' → G w tr out → I w tr →
      I w' (tr ++ out))
    {events : List WorldEvent}
    (hguard : Machine.Along (World.step codec)
      (fun w tr e => G w tr (w.step codec e).2) {} events) :
    I (World.run codec events).1 (World.run codec events).2 := by
  refine Machine.run_invariant_along hinit ?_ hguard
  intro w tr e hG hI
  obtain ⟨w₁, out₁, out₂, h₁, h₂, hout⟩ := step_moves codec w e
  rw [hout] at hG ⊢
  have hI₁ := hmove w tr out₁ w₁ h₁ (hpart w tr out₁ out₂ hG) hI
  have hI₂ := hmove w₁ (tr ++ out₁) out₂ _ h₂.move
    (hturn w₁ (tr ++ out₁) out₂ _ h₂) hI₁
  rwa [List.append_assoc] at hI₂

/-- An invariant that every move preserves holds after every run. -/
theorem run_invariant_of_all_moves
    {codec : Codec} {I : World → List Observation → Prop}
    (hinit : I {} [])
    (hmove : ∀ w tr out w', Move w out w' → I w tr → I w' (tr ++ out))
    (events : List WorldEvent) :
    I (World.run codec events).1 (World.run codec events).2 :=
  run_invariant_of_moves (G := fun _ _ _ => True) hinit
    (fun _ _ _ _ _ => trivial) (fun _ _ _ _ _ => trivial)
    (fun w tr out w' h _ => hmove w tr out w' h)
    (fun _ _ _ _ => trivial)

section Delivery

/-- Messages to one client that an observation shows being sent. -/
def deliveredTo (client : Client) : Observation → List SCMessage
  | .send client' msg => if client' = client then [msg] else []
  | .broadcast clients msg =>
      (clients.filter (fun client' => client' = client)).map (fun _ => msg)
  | _ => []

/-- All messages that a client was sent, in order. -/
def receivedBy (client : Client) (tr : List Observation) :
    List SCMessage :=
  tr.flatMap (deliveredTo client)

end Delivery

section Scripts

/-- A client's message is queued and the next tick dispatches it. -/
def dispatched (client : Client) (type : EMessageType)
    (payload : List UInt8) : List WorldEvent :=
  [.pushMsg client 0, .tick (fun _ => clientBody type payload) false]

/-- A tick with an empty queue, 100 ms after the last turn. -/
def turnTick : WorldEvent :=
  .tick (fun _ => clientBody .ECSReady []) true

/-- A client joins and logs in. -/
def joins (client : Client) : List WorldEvent :=
  .registerUser client :: dispatched client .ECSLogin []

/-- A client joins, logs in and starts the game alone. -/
def soloGame (client : Client) : List WorldEvent :=
  joins client ++ dispatched client .ECSReady []

example :
    (World.run plainCodec (soloGame ⟨0, 4⟩)).1.gameState = .EGS_RUNNING := by
  decide

end Scripts

end LockStep
end NetEngine
