import NetEngine.Lib.Positions
import NetEngine.Lib.Machine
import NetEngine.LockStep.World

/-!
# Server

The cells of a TCPServer, the acceptor that feeds them and the world behind the
callbacks of Server.cpp.  One operation of a cell's loop, one accepted
connection and one tick of the world are atomic.

`ReadData` goes through the clients of a cell and calls `Recv` on the readable
ones.  Here each of these calls is an event of its own, with what it returned
as an argument: -1, or the messages that it handed to `OnMessage`.  Why a loop
ends is an event too: a failed select, which only a cell with clients can see,
or a `Close` by the owner.
-/

namespace NetEngine
namespace LockStep

open Net

def INVALID_SOCKET : SOCKET := -1

/-- How far the thread of a cell is. -/
inductive CellPhase where
  /-- Inside the loop of `OnRun`. -/
  | running
  /-- The loop has ended and `OnRun` has called `ClrClient`. -/
  | exited
  /-- `onDestroy` has called `ClrClient` again. -/
  | destroyed
deriving DecidableEq

/-- `m_clients` and `m_clientsBuff` of a cell. -/
structure Cell where
  clients : OrderedMap SOCKET Client := .empty
  clientsBuff : List Client := []
  phase : CellPhase := .running

namespace Cell

def getClientSize (cell : Cell) : Nat :=
  cell.clients.size + cell.clientsBuff.length

def addClient (cell : Cell) (client : Client) : Cell :=
  { cell with clientsBuff := cell.clientsBuff ++ [client] }

/-- `ClrClient`, by which the thread gets to the given phase. -/
def clrClient (cell : Cell) (phase : CellPhase) : Cell :=
  { cell with clients := .empty, clientsBuff := [], phase := phase }

end Cell

/-- What the callbacks of `INetEvent` work on. -/
structure NetEvent where
  connCount : Int := 0
  world : World := {}

structure Server where
  cells : List Cell
  netEvent : NetEvent := {}
  /-- Number of ClientSocket objects made so far. -/
  made : Nat := 0

/-- What an observer of the server sees. -/
inductive ServerObservation where
  /-- `OnJoin`, and whether the assertion of `RegisterUser` holds. -/
  | onJoin (client : Client) (assertion : Bool)
  | onMessage (client : Client)
  /-- `OnExit`, and whether the assertion of `DeleteUser` holds. -/
  | onExit (client : Client) (assertion : Bool)
deriving DecidableEq

inductive ServerEvent where
  /-- `accept` returned a socket number. -/
  | accept (sockfd : SOCKET)
  /-- The join block of a cell. -/
  | join (i : Nat)
  /-- `Recv` on a client of a cell: -1, or the messages it extracted. -/
  | recv (i : Nat) (sockfd : SOCKET) (ret : Option (List MsgPtr))
  /-- `select` returned a negative number in a cell that has clients. -/
  | selectError (i : Nat)
  /-- A cell's loop sees `IsRun` false. -/
  | stop (i : Nat)
  /-- The thread of a cell reaches `onDestroy`. -/
  | destroy (i : Nat)
  | tick (memory : MsgPtr → MessageBody) (turnDue : Bool)

namespace NetEvent

def onJoin (net : NetEvent) (client : Client) :
    NetEvent × List ServerObservation :=
  ({ connCount := net.connCount + 1
     world := net.world.registerUser client },
    [.onJoin client (net.world.getUser client.sockfd).isNone])

def onExit (net : NetEvent) (client : Client) :
    NetEvent × List ServerObservation :=
  ({ connCount := net.connCount - 1
     world := net.world.deleteUser client },
    [.onExit client (net.world.getUser client.sockfd).isSome])

def onMessage (net : NetEvent) (client : Client) (msg : MsgPtr) :
    NetEvent × List ServerObservation :=
  ({ net with world := net.world.pushMsg client msg }, [.onMessage client])

/-- The loop of a cell's join block over `m_clientsBuff`. -/
def joinLoop (net : NetEvent) (clients : OrderedMap SOCKET Client) :
    List Client →
      NetEvent × OrderedMap SOCKET Client × List ServerObservation
  | [] => (net, clients, [])
  | client :: rest =>
      let joined := net.onJoin client
      let r := joinLoop joined.1 (clients.set client.sockfd client) rest
      (r.1, r.2.1, joined.2 ++ r.2.2)

/-- `OnMessageProc` for the messages of one `Recv`. -/
def messageLoop (net : NetEvent) (client : Client) :
    List MsgPtr → NetEvent × List ServerObservation
  | [] => (net, [])
  | msg :: rest =>
      let pushed := net.onMessage client msg
      let r := messageLoop pushed.1 client rest
      (r.1, pushed.2 ++ r.2)

end NetEvent

/-- The least loaded cell and its position, the first one on a tie. -/
def minCell (cells : List Cell) : Option (Cell × Nat) :=
  match cells.zipIdx with
  | [] => none
  | cell :: rest =>
      some (firstMin (fun e => e.1.getClientSize) cell (cell :: rest))

namespace Server

/-- `TCPServer::Start(threadCount)` on a fresh server. -/
def start (threadCount : Nat) : Server where
  cells := List.replicate threadCount {}

def setCell (s : Server) (i : Nat) (cell : Cell) : Server :=
  { s with cells := s.cells.set i cell }

/-- `AddClient2Cell`; without cells `m_cells[0]` has no result. -/
def addClient2Cell (s : Server) (client : Client) : Server :=
  match minCell s.cells with
  | none => s
  | some (cell, i) => s.setCell i (cell.addClient client)

def accept (s : Server) (sockfd : SOCKET) : Server :=
  if sockfd = INVALID_SOCKET then s
  else
    { s with made := s.made + 1 }.addClient2Cell ⟨s.made, sockfd⟩

/-- The join block of a cell. -/
def join (s : Server) (i : Nat) (cell : Cell) :
    Server × List ServerObservation :=
  let r := s.netEvent.joinLoop cell.clients cell.clientsBuff
  ({ s with netEvent := r.1 }.setCell i
      { cell with clients := r.2.1, clientsBuff := [] },
    r.2.2)

/-- One round of the loop in `ReadData`. -/
def readData (s : Server) (i : Nat) (cell : Cell) (sockfd : SOCKET)
    (client : Client) (ret : Option (List MsgPtr)) :
    Server × List ServerObservation :=
  match ret with
  | some msgs =>
      let r := s.netEvent.messageLoop client msgs
      ({ s with netEvent := r.1 }, r.2)
  | none =>
      let r := s.netEvent.onExit client
      ({ s with netEvent := r.1 }.setCell i
          { cell with clients := cell.clients.erase sockfd },
        r.2)

/-- A step of one cell. -/
def atCell (s : Server) (i : Nat)
    (f : Cell → Server × List ServerObservation) :
    Server × List ServerObservation :=
  match s.cells[i]? with
  | none => (s, [])
  | some cell => f cell

/-- One step of the server; a step that its cell does not allow does nothing. -/
def step (codec : Codec) (s : Server) :
    ServerEvent → Server × List ServerObservation
  | .accept sockfd => (s.accept sockfd, [])
  | .join i =>
      s.atCell i (fun cell =>
        if cell.phase = .running then s.join i cell else (s, []))
  | .recv i sockfd ret =>
      s.atCell i (fun cell =>
        match cell.clients.find? sockfd with
        | none => (s, [])
        | some client =>
            if cell.phase = .running then
              s.readData i cell sockfd client ret
            else (s, []))
  | .selectError i =>
      s.atCell i (fun cell =>
        if cell.phase = .running ∧ cell.clients.size ≠ 0 then
          (s.setCell i (cell.clrClient .exited), [])
        else (s, []))
  | .stop i =>
      s.atCell i (fun cell =>
        if cell.phase = .running then
          (s.setCell i (cell.clrClient .exited), [])
        else (s, []))
  | .destroy i =>
      s.atCell i (fun cell =>
        if cell.phase = .exited then
          (s.setCell i (cell.clrClient .destroyed), [])
        else (s, []))
  | .tick memory turnDue =>
      ({ s with netEvent :=
          { s.netEvent with
            world := (s.netEvent.world.tick codec memory turnDue).1 } },
        [])

/-- A server with a number of cells, after a list of events. -/
def run (codec : Codec) (threadCount : Nat) (events : List ServerEvent) :
    Server × List ServerObservation :=
  Machine.run (step codec) (start threadCount) events

end Server

end LockStep
end NetEngine
