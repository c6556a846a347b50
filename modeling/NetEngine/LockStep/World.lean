import NetEngine.Lib.OrderedMap
import NetEngine.LockStep.Proto

/-!
# World

World.cpp of the lockstep server, function by function.  A handler returns its
Boolean, the new world and what an observer can see: a message accepted, a
message sent, the game started.

The queue stores what `PushMsg` gets, the address of a message record; the
memory behind the addresses is an argument of `Tick`.  Whether the 100 ms are
over is an argument too.  The assertions of `RegisterUser` and `DeleteUser` are
not part of the state change: in a build without assertions `insert` keeps an
entry that is there and `erase` ignores one that is not.
-/

namespace NetEngine
namespace LockStep

open Net

/-- A `ClientSocketPtr`: the object and the socket number it was built with. -/
structure Client where
  id : Nat
  sockfd : SOCKET
deriving DecidableEq

structure Player where
  client : Client
  UUID : UInt32 := 0
  posX : Double := 0
  posY : Double := 0
  posZ : Double := 0
deriving DecidableEq

/-- Address of a `MessageBody`. -/
abbrev MsgPtr :=
  Nat

structure MsgNode where
  client : Client
  msg : MsgPtr
deriving DecidableEq

abbrev UID2KeyPool :=
  OrderedMap UInt32 (List UInt32)

inductive EGameState where
  | EGS_Ready
  | EGS_RUNNING
  | EGS_OVER
deriving DecidableEq

structure World where
  sessions : OrderedMap SOCKET Player := .empty
  msgQueue : List MsgNode := []
  gameState : EGameState := .EGS_Ready
  readyCount : UInt32 := 0
  curFrameID : UInt64 := 0
  nxtFrameID : UInt64 := 0
  uuidCounter : UInt32 := 0
  curFrameInfo : UID2KeyPool := .empty
  oldFrameInfo : OrderedMap UInt64 UID2KeyPool := .empty

/-- What an observer of the server sees. -/
inductive Observation where
  /-- `RegisterUser` stored a new player. -/
  | joined (client : Client)
  /-- `DeleteUser` dropped a player. -/
  | exited (client : Client)
  /-- `DispatchCommand` was called with this message of this client. -/
  | read (client : Client) (body : MessageBody)
  /-- A handler parsed and accepted a message for the player at a socket, who
  had the given UUID at that moment. -/
  | accepted (fd : SOCKET) (uuid : UInt32) (msg : ClientMessage)
  /-- `HandleReady` assigned `EGS_RUNNING`. -/
  | running
  | send (client : Client) (msg : SCMessage)
  | broadcast (clients : List Client) (msg : SCMessage)

/-- What a handler returns. -/
structure Handled where
  ret : Bool
  world : World
  out : List Observation

namespace World

def getUser (w : World) (id : SOCKET) : Option Player :=
  w.sessions.find? id

def getUserSize (w : World) : UInt32 :=
  UInt32.ofNat w.sessions.size

def registerUser (w : World) (client : Client) : World :=
  { w with sessions := w.sessions.insertNew client.sockfd { client := client } }

def deleteUser (w : World) (client : Client) : World :=
  { w with sessions := w.sessions.erase client.sockfd }

/-- A socket number that has a session keeps it. -/
theorem registerUser_of_getUser
    {w : World} {client : Client} {player : Player}
    (hfind : w.getUser client.sockfd = some player) :
    w.registerUser client = w := by
  rw [registerUser, OrderedMap.insertNew_of_find?_some _ hfind]

/-- Without a session there is nothing to delete. -/
theorem deleteUser_of_getUser_none
    {w : World} {client : Client}
    (hfind : w.getUser client.sockfd = none) :
    w.deleteUser client = w := by
  rw [deleteUser, OrderedMap.erase_of_find?_none hfind]

def pushMsg (w : World) (client : Client) (msg : MsgPtr) : World :=
  { w with msgQueue := w.msgQueue ++ [⟨client, msg⟩] }

/-- Clients of the sessions, in the order `Broadcast` visits them. -/
def clients (w : World) : List Client :=
  w.sessions.entries.map (fun e => e.2.client)

def broadcast (w : World) (msg : SCMessage) : List Observation :=
  [.broadcast w.clients msg]

def frameInit (w : World) (player : Player) : List Observation :=
  [.send player.client (.SCFrameInit ⟨w.curFrameID, w.nxtFrameID⟩)]

def sendLoginInfo (w : World) : List Observation :=
  w.broadcast (.SCSight (w.sessions.entries.map (fun e =>
    ⟨e.2.UUID, e.2.posX, e.2.posY, e.2.posZ⟩)))

/-- The login of a player: a fresh UUID, stored in the session. -/
def login (w : World) (fd : SOCKET) (player : Player) : World :=
  { w with
    uuidCounter := w.uuidCounter + 1
    sessions := w.sessions.modify fd
      (fun _ => { player with UUID := w.uuidCounter + 1 }) }

/-- A login leaves the other sessions as they are. -/
theorem getUser_login
    {w : World} {fd : SOCKET} {player : Player}
    (hfind : w.getUser fd = some player) (fd' : SOCKET) :
    (w.login fd player).getUser fd' =
      if fd' = fd then some { player with UUID := w.uuidCounter + 1 }
      else w.getUser fd' := by
  rw [getUser, login, OrderedMap.find?_modify]
  by_cases hfd : fd' = fd
  · subst hfd
    rw [getUser] at hfind
    simp [hfind]
  · simp [hfd, getUser]

def handleLogin (codec : Codec) (w : World) (fd : SOCKET)
    (player : Player) (msg : MessageBody) : Handled :=
  if ¬ codec.parseCSLogin msg.data (payloadSize msg) then ⟨false, w, []⟩
  else if player.UUID ≠ 0 then ⟨false, w, []⟩
  else
    let w' := w.login fd player
    ⟨true, w',
      .accepted fd player.UUID .CSLogin ::
        .send player.client (.SCLogin w'.uuidCounter) ::
        (w'.frameInit player ++ w'.sendLoginInfo)⟩

def handleReady (codec : Codec) (w : World) (fd : SOCKET)
    (player : Player) (msg : MessageBody) : Handled :=
  if ¬ codec.parseCSReady msg.data (payloadSize msg) then ⟨false, w, []⟩
  else if player.UUID ≠ 0 then
    let w' := { w with readyCount := w.readyCount + 1 }
    if w'.readyCount = w'.getUserSize then
      ⟨true, { w' with gameState := .EGS_RUNNING },
        [.accepted fd player.UUID .CSReady, .running]⟩
    else
      ⟨true, w', [.accepted fd player.UUID .CSReady]⟩
  else
    ⟨true, w, [.accepted fd player.UUID .CSReady]⟩

/-- `m_curFrameInfo.insert(uuid, {}).first->second.push_back(key)`. -/
def pushKey (uuid : UInt32) (pool : UID2KeyPool) (key : UInt32) :
    UID2KeyPool :=
  (pool.insertNew uuid []).modify uuid (fun keys => keys ++ [key])

def handleFrame (codec : Codec) (w : World) (fd : SOCKET)
    (player : Player) (msg : MessageBody) : Handled :=
  match codec.parseCSFrame msg.data (payloadSize msg) with
  | none => ⟨false, w, []⟩
  | some proto =>
      ⟨true,
        { w with
          curFrameInfo :=
            proto.keyinfo.foldl (pushKey proto.uuid) w.curFrameInfo },
        [.accepted fd player.UUID (.CSFrame proto)]⟩

/-- `m_command`, as the constructor fills it. -/
def command (codec : Codec) (type : UInt16) :
    Option (World → SOCKET → Player → MessageBody → Handled) :=
  if type = EMessageType.ECSLogin.value then some (handleLogin codec)
  else if type = EMessageType.ECSReady.value then some (handleReady codec)
  else if type = EMessageType.ECSFrame.value then some (handleFrame codec)
  else none

def dispatchCommand (codec : Codec) (w : World) (client : Client)
    (msg : MessageBody) : World × List Observation :=
  match command codec msg.type with
  | none => (w, [.read client msg])
  | some func =>
      match w.getUser client.sockfd with
      | none => (w, [.read client msg])
      | some player =>
          let handled := func w client.sockfd player msg
          (handled.world, .read client msg :: handled.out)

def messageProc (codec : Codec) (memory : MsgPtr → MessageBody)
    (w : World) : World × List Observation :=
  match w.msgQueue with
  | [] => (w, [])
  | node :: _ =>
      let r := dispatchCommand codec w node.client (memory node.msg)
      ({ r.1 with msgQueue := r.1.msgQueue.tail }, r.2)

/-- Users of the SCFrame that a pool of keys becomes. -/
def usersOf (pool : UID2KeyPool) : List UserFrame :=
  pool.entries.map (fun e => ⟨e.1, e.2⟩)

def frameTurn (w : World) : World × List Observation :=
  let cur := w.nxtFrameID
  let nxt := w.nxtFrameID + 1
  let sFrame : SCFrame := ⟨cur, nxt, usersOf w.curFrameInfo⟩
  let w' :=
    { w with
      curFrameID := cur
      nxtFrameID := nxt
      oldFrameInfo := w.oldFrameInfo.set cur w.curFrameInfo
      curFrameInfo := .empty }
  (w', w'.broadcast (.SCFrame sFrame))

def turn (w : World) : World × List Observation :=
  if w.gameState = .EGS_RUNNING then w.frameTurn else (w, [])

def tick (codec : Codec) (memory : MsgPtr → MessageBody)
    (turnDue : Bool) (w : World) : World × List Observation :=
  let r := w.messageProc codec memory
  if turnDue then
    let t := r.1.turn
    (t.1, r.2 ++ t.2)
  else r

end World

end LockStep
end NetEngine
