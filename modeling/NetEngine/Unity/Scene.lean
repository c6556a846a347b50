import NetEngine.Lib.Machine
import NetEngine.Lib.OrderedMap
import NetEngine.Unity.Player

/-!
# Scene

The client as a whole: every Player instance there is, numbered in the order of
instantiation, and the registry of PlayerManager.cs, which maps UUIDs to
instances.  Main.cs handles SCLogin and SCSight; SCFrameInit and SCFrame go to
every instance, because each one registers its listeners in `Start`.

A listener that throws ends the event: `DoEvent` calls one multicast delegate,
and the exception leaves it before the listeners that follow.
-/

namespace NetEngine
namespace Unity

open LockStep

/-- Number of a Player instance. -/
abbrev PlayerRef :=
  Nat

structure Scene (τ : Type) where
  players : List (Player τ) := []
  allPlayer : OrderedMap UInt32 PlayerRef := .empty

/-- A call of a Move method and the entry of the SCFrame that caused it. -/
structure MoveCall where
  uuid : UInt32
  event : EPlayerEvent
  player : PlayerRef
deriving DecidableEq

/-- What a client does that others can see. -/
inductive Effect where
  | send (proto : CSFrame)
  | move (call : MoveCall)
deriving DecidableEq

/-- FrameInfo.cs; the pool lists its entries in the order they were added. -/
structure FrameInfo where
  curFrameID : UInt64
  nxtFrameID : UInt64
  pool : List (UInt32 × List EPlayerEvent)

/-- The pool of a list of users; `Dictionary.Add` throws on a repeated uuid. -/
def poolOf : List UserFrame → List (UInt32 × List EPlayerEvent) →
    Option (List (UInt32 × List EPlayerEvent))
  | [], pool => some pool
  | user :: users, pool =>
      if user.uuid ∈ pool.map Prod.fst then none
      else poolOf users
        (pool ++ [(user.uuid, user.keyinfo.map EPlayerEvent.ofKey)])

def FrameInfo.ofFrame (proto : SCFrame) : Option FrameInfo :=
  (poolOf proto.users []).map
    (fun pool => ⟨proto.frameid, proto.nextframeid, pool⟩)

inductive SceneEvent where
  | receive (msg : SCMessage)
  /-- `FixedUpdate` of one instance, with the keys held down. -/
  | fixedUpdate (player : PlayerRef) (connected : Bool) (w s a d : Bool)

namespace Scene

section Registry

variable {τ : Type} (engine : Engine τ)

/-- Change one instance. -/
def modify (i : PlayerRef) (f : Player τ → Player τ) (s : Scene τ) :
    Scene τ :=
  { s with players := s.players.modify i f }

/-- `PlayerManager.AddOne`. -/
def addOne (i : PlayerRef) (s : Scene τ) : Scene τ :=
  match s.players[i]? with
  | none => s
  | some p => { s with allPlayer := s.allPlayer.set p.UUID i }

/-- `PlayerManager.GetPlayer`. -/
def getPlayer (s : Scene τ) (uid : UInt32) : Option PlayerRef :=
  s.allPlayer.find? uid

/-- `Instantiate<Player>(playerPrefab)`. -/
def instantiate (s : Scene τ) : Scene τ × PlayerRef :=
  ({ s with players := s.players ++ [Player.ofPrefab engine] },
    s.players.length)

/-- `Player.OnLogin`. -/
def playerOnLogin (uuid : UInt32) (i : PlayerRef) (s : Scene τ) :
    Scene τ :=
  match s.players[i]? with
  | none => s
  | some p =>
      if p.UUID ≠ 0 then s
      else (s.modify i (fun p => { p with UUID := uuid })).addOne i

/-- `Main.OnLogin`. -/
def onLogin (uuid : UInt32) (s : Scene τ) : Scene τ :=
  (s.instantiate engine).1.playerOnLogin uuid (s.instantiate engine).2

/-- One round of the loop in `Player.OnSight`. -/
def sightInfo (i : PlayerRef) (s : Scene τ) (info : PlayerInfo) :
    Scene τ :=
  (s.modify i (Player.setPlayerInfo engine info)).addOne i

/-- `Player.OnSight`: the whole list goes into one instance. -/
def playerOnSight (infos : List PlayerInfo) (i : PlayerRef)
    (s : Scene τ) : Scene τ :=
  infos.foldl (sightInfo engine i) s

/-- The instance registered under a UUID, or a new one. -/
def getOrInstantiate (uid : UInt32) (s : Scene τ) : Scene τ × PlayerRef :=
  match s.getPlayer uid with
  | some i => (s, i)
  | none => s.instantiate engine

/-- One round of the loop in `Main.OnSight`. -/
def sightRound (infos : List PlayerInfo) (s : Scene τ)
    (info : PlayerInfo) : Scene τ :=
  (s.getOrInstantiate engine info.uuid).1.playerOnSight engine infos
    (s.getOrInstantiate engine info.uuid).2

/-- `Main.OnSight`. -/
def onSight (infos : List PlayerInfo) (s : Scene τ) : Scene τ :=
  infos.foldl (sightRound engine infos) s

end Registry

section Frames

variable {τ : Type} (engine : Engine τ)

/-- One key of one user. -/
def runKey (uid : UInt32) (i : PlayerRef) (s : Scene τ)
    (e : EPlayerEvent) : Scene τ × List Effect :=
  match Player.moveOf engine e with
  | none => (s, [])
  | some f => (s.modify i f, [.move ⟨uid, e, i⟩])

/-- One user of the pool. -/
def runUser (s : Scene τ) (user : UInt32 × List EPlayerEvent) :
    Scene τ × List Effect :=
  match s.getPlayer user.1 with
  | none => (s, [])
  | some i => Machine.run (runKey engine user.1 i) s user.2

/-- `Player.RunKeyInfo`. -/
def runKeyInfo (pool : List (UInt32 × List EPlayerEvent)) (s : Scene τ) :
    Scene τ × List Effect :=
  Machine.run (runUser engine) s pool

/-- `Player.FrameTurn`. -/
def frameTurn (info : FrameInfo) (i : PlayerRef) (s : Scene τ) :
    Scene τ × List Effect :=
  match s.players[i]? with
  | none => (s, [])
  | some p =>
      if p.curFrameID = info.curFrameID then
        let r := (s.modify i Player.clearKeyInfo).runKeyInfo engine info.pool
        (r.1, .send p.keyInfo :: r.2)
      else (s, [])

/-- `Player.OnFrameTurn`; nothing when it throws. -/
def onFrameTurn (proto : SCFrame) (s : Scene τ) (i : PlayerRef) :
    Option (Scene τ × List Effect) :=
  match FrameInfo.ofFrame proto with
  | none => none
  | some info =>
      let r := s.frameTurn engine info i
      some (r.1.modify i (fun p => { p with curFrameID := info.nxtFrameID }),
        r.2)

/-- `DoEvent`: call the listeners of the instances until one throws. -/
def doEvent
    (listener : Scene τ → PlayerRef → Option (Scene τ × List Effect))
    (s : Scene τ) : List PlayerRef → Scene τ × List Effect
  | [] => (s, [])
  | i :: rest =>
      match listener s i with
      | none => (s, [])
      | some r =>
          let r' := doEvent listener r.1 rest
          (r'.1, r.2 ++ r'.2)

/-- Every instance's listener for SCFrame. -/
def onFrame (proto : SCFrame) (s : Scene τ) : Scene τ × List Effect :=
  doEvent (onFrameTurn engine proto) s (List.range s.players.length)

/-- Every instance's listener for SCFrameInit. -/
def onFrameInit (proto : SCFrameInit) (s : Scene τ) : Scene τ :=
  { s with players := s.players.map (Player.onFrameInit proto) }

/-- One event of the client. -/
def step (s : Scene τ) : SceneEvent → Scene τ × List Effect
  | .receive (.SCLogin uuid) => (s.onLogin engine uuid, [])
  | .receive (.SCSight infos) => (s.onSight engine infos, [])
  | .receive (.SCFrameInit proto) => (s.onFrameInit proto, [])
  | .receive (.SCFrame proto) => s.onFrame engine proto
  | .fixedUpdate i connected w s' a d =>
      (s.modify i (Player.keyPressEvent connected w s' a d), [])

/-- The client as it starts, after a list of events. -/
def run (events : List SceneEvent) : Scene τ × List Effect :=
  Machine.run (step engine) {} events

end Frames

end Scene

end Unity
end NetEngine
