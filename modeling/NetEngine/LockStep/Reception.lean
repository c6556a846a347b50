import Mathlib.Logic.Function.Basic
import NetEngine.LockStep.WorldRun

/-!
# Reception

Which messages of a run are accepted is known from its events alone: who joined
and left, what was queued, and what memory held when a tick took a message off
the queue.  A message counts when its type is one of the three that have a
handler, its payload parses and its sender has a session at that moment; a
CSLogin counts only for a player that has yet to log in.

`Reception` keeps this account without handlers, pools and game state, and
`acceptances_run` says that the world accepts exactly the messages in it.
-/

namespace NetEngine
namespace LockStep

open Net

/-- A message accepted, and the socket and UUID of the player it came from. -/
structure Acceptance where
  fd : SOCKET
  uuid : UInt32
  msg : ClientMessage
deriving DecidableEq

/-- Acceptance that an observation shows. -/
def acceptanceOf : Observation → Option Acceptance
  | .accepted fd uuid msg => some ⟨fd, uuid, msg⟩
  | _ => none

/-- What the handlers accepted, in order. -/
def acceptances (tr : List Observation) : List Acceptance :=
  tr.filterMap acceptanceOf

theorem acceptances_append (tr out : List Observation) :
    acceptances (tr ++ out) = acceptances tr ++ acceptances out :=
  List.filterMap_append

/-- The client message in a record, if its type is known and it parses. -/
def Codec.clientMessage (codec : Codec) (body : MessageBody) :
    Option ClientMessage :=
  if body.type = EMessageType.ECSLogin.value then
    if codec.parseCSLogin body.data (payloadSize body) then some .CSLogin
    else none
  else if body.type = EMessageType.ECSReady.value then
    if codec.parseCSReady body.data (payloadSize body) then some .CSReady
    else none
  else if body.type = EMessageType.ECSFrame.value then
    (codec.parseCSFrame body.data (payloadSize body)).map .CSFrame
  else none

/-- Sessions by their UUIDs, logins so far and messages that wait. -/
structure Reception where
  uuids : SOCKET → Option UInt32 := fun _ => none
  logins : UInt32 := 0
  waiting : List MsgNode := []

namespace Reception

def join (r : Reception) (fd : SOCKET) : Reception :=
  match r.uuids fd with
  | none => { r with uuids := Function.update r.uuids fd (some 0) }
  | some _ => r

def leave (r : Reception) (fd : SOCKET) : Reception :=
  { r with uuids := Function.update r.uuids fd none }

/-- A message of the player who has a UUID at a socket. -/
def receive (r : Reception) (fd : SOCKET) (uuid : UInt32) :
    ClientMessage → Reception × List Acceptance
  | .CSLogin =>
      if uuid = 0 then
        ({ r with
            uuids := Function.update r.uuids fd (some (r.logins + 1))
            logins := r.logins + 1 },
          [⟨fd, uuid, .CSLogin⟩])
      else (r, [])
  | .CSReady => (r, [⟨fd, uuid, .CSReady⟩])
  | .CSFrame proto => (r, [⟨fd, uuid, .CSFrame proto⟩])

/-- A record from the client at a socket. -/
def dispatch (codec : Codec) (r : Reception) (fd : SOCKET)
    (body : MessageBody) : Reception × List Acceptance :=
  match codec.clientMessage body, r.uuids fd with
  | some msg, some uuid => r.receive fd uuid msg
  | _, _ => (r, [])

def step (codec : Codec) (r : Reception) :
    WorldEvent → Reception × List Acceptance
  | .registerUser client => (r.join client.sockfd, [])
  | .deleteUser client => (r.leave client.sockfd, [])
  | .pushMsg client msg =>
      ({ r with waiting := r.waiting ++ [⟨client, msg⟩] }, [])
  | .tick memory _ =>
      match r.waiting with
      | [] => (r, [])
      | node :: rest =>
          let s := r.dispatch codec node.client.sockfd (memory node.msg)
          ({ s.1 with waiting := rest }, s.2)

/-- The messages that a list of events has accepted. -/
def accepted (codec : Codec) (events : List WorldEvent) :
    List Acceptance :=
  (Machine.run (step codec) {} events).2

end Reception

section Refinement

/-- The account agrees with the world. -/
structure Reception.Of (r : Reception) (w : World) : Prop where
  uuids : ∀ fd, r.uuids fd = (w.getUser fd).map (fun player => player.UUID)
  logins : r.logins = w.uuidCounter
  waiting : r.waiting = w.msgQueue

variable {r : Reception} {w w' : World}

/-- A message that is received leaves the others waiting. -/
theorem Reception.dispatch_waiting
    (r : Reception) (codec : Codec) (fd : SOCKET) (body : MessageBody) :
    (r.dispatch codec fd body).1.waiting = r.waiting := by
  rw [dispatch]
  split
  · next msg uuid hmsg huuid =>
      cases msg with
      | CSLogin =>
          rw [receive]
          split_ifs
          · rfl
          · rfl
      | CSReady | CSFrame =>
          rfl
  · rfl

theorem Reception.of_init : Reception.Of {} {} :=
  ⟨fun _ => rfl, rfl, rfl⟩

theorem Reception.Of.uuid
    (h : r.Of w) {fd : SOCKET} {player : Player}
    (hfind : w.getUser fd = some player) :
    r.uuids fd = some player.UUID := by
  rw [h.uuids, hfind]
  rfl

/-- What neither joins nor logs in is of no concern. -/
theorem Reception.Of.same
    (h : r.Of w) (hsessions : w'.sessions = w.sessions)
    (hcounter : w'.uuidCounter = w.uuidCounter)
    (hqueue : w'.msgQueue = w.msgQueue) :
    r.Of w' := by
  refine ⟨fun fd => ?_, ?_, ?_⟩
  · rw [World.getUser, hsessions]
    exact h.uuids fd
  · rw [hcounter]
    exact h.logins
  · rw [hqueue]
    exact h.waiting

theorem Reception.Of.join (h : r.Of w) (client : Client) :
    (r.join client.sockfd).Of (w.registerUser client) := by
  have hfd := h.uuids client.sockfd
  cases hfind : w.getUser client.sockfd with
  | some player =>
      rw [hfind] at hfd
      rw [World.registerUser_of_getUser hfind, Reception.join, hfd]
      exact h
  | none =>
      rw [hfind] at hfd
      rw [Reception.join, hfd]
      refine ⟨fun fd => ?_, h.logins, h.waiting⟩
      rw [World.getUser] at hfind
      rw [World.getUser, World.registerUser, OrderedMap.find?_insertNew,
        hfind]
      dsimp only [Option.map_none]
      split_ifs with hself
      · rw [hself, Function.update_self]
        rfl
      · rw [Function.update_of_ne hself]
        exact h.uuids fd

theorem Reception.Of.leave (h : r.Of w) (client : Client) :
    (r.leave client.sockfd).Of (w.deleteUser client) := by
  refine ⟨fun fd => ?_, h.logins, h.waiting⟩
  rw [World.getUser, World.deleteUser, OrderedMap.find?_erase,
    Reception.leave]
  dsimp only
  split_ifs with hself
  · rw [hself, Function.update_self]
    rfl
  · rw [Function.update_of_ne hself]
    exact h.uuids fd

theorem Reception.Of.login
    (h : r.Of w) {fd : SOCKET} {player : Player}
    (hfind : w.getUser fd = some player) :
    Reception.Of
      { r with
        uuids := Function.update r.uuids fd (some (r.logins + 1))
        logins := r.logins + 1 }
      (w.login fd player) := by
  refine ⟨fun fd' => ?_, ?_, h.waiting⟩
  · rw [World.getUser_login hfind]
    dsimp only
    split_ifs with hself
    · rw [hself, Function.update_self, h.logins]
      rfl
    · rw [Function.update_of_ne hself]
      exact h.uuids fd'
  · rw [h.logins]
    rfl

variable (codec : Codec)

/-- Turns accept nothing. -/
theorem Reception.Of.turn (h : r.Of w) :
    r.Of w.turn.1 ∧ acceptances w.turn.2 = [] := by
  rw [World.turn]
  split_ifs
  · exact ⟨h.same rfl rfl rfl, rfl⟩
  · exact ⟨h, rfl⟩

section Handlers

variable {client : Client} {player : Player} {body : MessageBody}

theorem Reception.Of.handleLogin
    (h : r.Of w) (hfind : w.getUser client.sockfd = some player)
    (htype : body.type = EMessageType.ECSLogin.value) :
    (r.dispatch codec client.sockfd body).1.Of
        (w.handleLogin codec client.sockfd player body).world ∧
      acceptances (w.handleLogin codec client.sockfd player body).out =
        (r.dispatch codec client.sockfd body).2 := by
  rw [Reception.dispatch, Codec.clientMessage, h.uuid hfind, if_pos htype,
    World.handleLogin]
  by_cases hparse : codec.parseCSLogin body.data (payloadSize body) = true
  · rw [if_pos hparse, if_neg (not_not.mpr hparse)]
    by_cases huuid : player.UUID = 0
    · rw [if_neg (not_not.mpr huuid)]
      dsimp only [Reception.receive]
      rw [if_pos huuid]
      exact ⟨h.login hfind, rfl⟩
    · rw [if_pos huuid]
      dsimp only [Reception.receive]
      rw [if_neg huuid]
      exact ⟨h, rfl⟩
  · rw [if_neg hparse, if_pos hparse]
    exact ⟨h, rfl⟩

theorem Reception.Of.handleReady
    (h : r.Of w) (hfind : w.getUser client.sockfd = some player)
    (htype : body.type = EMessageType.ECSReady.value) :
    (r.dispatch codec client.sockfd body).1.Of
        (w.handleReady codec client.sockfd player body).world ∧
      acceptances (w.handleReady codec client.sockfd player body).out =
        (r.dispatch codec client.sockfd body).2 := by
  have hlogin : body.type ≠ EMessageType.ECSLogin.value := by
    rw [htype]
    decide
  rw [Reception.dispatch, Codec.clientMessage, h.uuid hfind, if_neg hlogin,
    if_pos htype, World.handleReady]
  by_cases hparse : codec.parseCSReady body.data (payloadSize body) = true
  · rw [if_pos hparse, if_neg (not_not.mpr hparse)]
    dsimp only [Reception.receive]
    split_ifs
    · exact ⟨h.same rfl rfl rfl, rfl⟩
    · exact ⟨h.same rfl rfl rfl, rfl⟩
    · exact ⟨h, rfl⟩
  · rw [if_neg hparse, if_pos hparse]
    exact ⟨h, rfl⟩

theorem Reception.Of.handleFrame
    (h : r.Of w) (hfind : w.getUser client.sockfd = some player)
    (htype : body.type = EMessageType.ECSFrame.value) :
    (r.dispatch codec client.sockfd body).1.Of
        (w.handleFrame codec client.sockfd player body).world ∧
      acceptances (w.handleFrame codec client.sockfd player body).out =
        (r.dispatch codec client.sockfd body).2 := by
  have hlogin : body.type ≠ EMessageType.ECSLogin.value := by
    rw [htype]
    decide
  have hready : body.type ≠ EMessageType.ECSReady.value := by
    rw [htype]
    decide
  rw [Reception.dispatch, Codec.clientMessage, h.uuid hfind, if_neg hlogin,
    if_neg hready, if_pos htype, World.handleFrame]
  cases codec.parseCSFrame body.data (payloadSize body) with
  | none =>
      exact ⟨h, rfl⟩
  | some proto =>
      exact ⟨h.same rfl rfl rfl, rfl⟩

/-- A handler accepts what is received, for a player with a session. -/
theorem Reception.Of.handled
    (h : r.Of w) (hfind : w.getUser client.sockfd = some player)
    {func : World → SOCKET → Player → MessageBody → Handled}
    (hcommand : World.command codec body.type = some func) :
    (r.dispatch codec client.sockfd body).1.Of
        (func w client.sockfd player body).world ∧
      acceptances (func w client.sockfd player body).out =
        (r.dispatch codec client.sockfd body).2 := by
  rw [World.command] at hcommand
  split_ifs at hcommand with hlogin hready hframe
  · cases hcommand
    exact h.handleLogin codec hfind hlogin
  · cases hcommand
    exact h.handleReady codec hfind hready
  · cases hcommand
    exact h.handleFrame codec hfind hframe

end Handlers

/-- `DispatchCommand` accepts what is received. -/
theorem Reception.Of.dispatch
    (h : r.Of w) (client : Client) (body : MessageBody) :
    (r.dispatch codec client.sockfd body).1.Of
        (w.dispatchCommand codec client body).1 ∧
      acceptances (w.dispatchCommand codec client body).2 =
        (r.dispatch codec client.sockfd body).2 := by
  rw [World.dispatchCommand]
  cases hcommand : World.command codec body.type with
  | none =>
      have hnone : codec.clientMessage body = none := by
        rw [World.command] at hcommand
        rw [Codec.clientMessage]
        split_ifs at hcommand ⊢
        rfl
      rw [Reception.dispatch, hnone]
      exact ⟨h, rfl⟩
  | some func =>
      cases hfind : w.getUser client.sockfd with
      | some player =>
          exact h.handled codec hfind hcommand
      | none =>
          have hfd : r.uuids client.sockfd = none := by
            rw [h.uuids, hfind]
            rfl
          rw [Reception.dispatch, hfd]
          cases codec.clientMessage body with
          | none =>
              exact ⟨h, rfl⟩
          | some msg =>
              exact ⟨h, rfl⟩

theorem Reception.Of.messageProc
    (h : r.Of w) (memory : MsgPtr → MessageBody) (turnDue : Bool) :
    (r.step codec (.tick memory turnDue)).1.Of
        (w.messageProc codec memory).1 ∧
      acceptances (w.messageProc codec memory).2 =
        (r.step codec (.tick memory turnDue)).2 := by
  rw [World.messageProc, Reception.step, h.waiting]
  cases hqueue : w.msgQueue with
  | nil =>
      exact ⟨h, rfl⟩
  | cons node rest =>
      obtain ⟨hof, hout⟩ := h.dispatch codec node.client (memory node.msg)
      refine ⟨⟨hof.uuids, hof.logins, ?_⟩, hout⟩
      have hwaiting := hof.waiting
      rw [r.dispatch_waiting, h.waiting, hqueue] at hwaiting
      show rest = List.tail _
      rw [← hwaiting]
      rfl

/-- One event is accounted for as the world takes it. -/
theorem Reception.Of.step (h : r.Of w) (e : WorldEvent) :
    (r.step codec e).1.Of (w.step codec e).1 ∧
      acceptances (w.step codec e).2 = (r.step codec e).2 := by
  cases e with
  | registerUser client =>
      refine ⟨h.join client, ?_⟩
      rw [World.step]
      cases w.getUser client.sockfd with
      | none =>
          rfl
      | some player =>
          rfl
  | deleteUser client =>
      refine ⟨h.leave client, ?_⟩
      rw [World.step]
      cases w.getUser client.sockfd with
      | none =>
          rfl
      | some player =>
          rfl
  | pushMsg client msg =>
      refine ⟨⟨h.uuids, h.logins, ?_⟩, rfl⟩
      rw [Reception.step, h.waiting]
      rfl
  | tick memory turnDue =>
      obtain ⟨hof, hout⟩ := h.messageProc codec memory turnDue
      cases turnDue with
      | false =>
          exact ⟨hof, hout⟩
      | true =>
          obtain ⟨hturn, hnone⟩ := hof.turn
          refine ⟨hturn, ?_⟩
          show acceptances (_ ++ _) = _
          rw [acceptances_append, hnone, List.append_nil]
          exact hout

/-- The world accepts exactly the messages that the events account for. -/
theorem acceptances_run (events : List WorldEvent) :
    acceptances (World.run codec events).2 =
      Reception.accepted codec events := by
  have hrun :
      Reception.Of (Machine.run (Reception.step codec) {} events).1
          (World.run codec events).1 ∧
        acceptances (World.run codec events).2 =
          Reception.accepted codec events := by
    induction events using List.reverseRecOn with
    | nil =>
        exact ⟨Reception.of_init, rfl⟩
    | append_singleton events e ih =>
        obtain ⟨hof, hout⟩ := ih
        obtain ⟨hof', hout'⟩ := hof.step codec e
        rw [World.run, Reception.accepted, Machine.run_concat,
          Machine.run_concat, acceptances_append]
        refine ⟨hof', ?_⟩
        rw [World.run] at hout hout'
        rw [hout, hout']
        rfl
  exact hrun.2

end Refinement

end LockStep
end NetEngine
