import NetEngine.LockStep.Server
import NetEngine.LockStep.WorldRun

/-!
# Runs of the server

A client waits in the buffer of one cell, is connected in the map of one cell,
has a session and may have messages in the queue.  `ServerMove` lists what a
step can do to a cell and to what stands behind the callbacks; every step is a
sequence of such moves, since the join block and a `Recv` go client by client
and message by message.

The acceptor relies on the operating system: `accept` does not return the
number of a socket that is still open, and a socket is open while its
ClientSocket is referred to from anywhere.
-/

namespace NetEngine
namespace LockStep

open Net

section Places

/-- Clients in the buffers of the cells. -/
def waitingIn (cells : List Cell) : List Client :=
  cells.flatMap (fun cell => cell.clientsBuff)

/-- Clients in the maps of the cells. -/
def connectedIn (cells : List Cell) : List Client :=
  cells.flatMap (fun cell => cell.clients.values)

namespace Server

def waiting (s : Server) : List Client :=
  waitingIn s.cells

def connected (s : Server) : List Client :=
  connectedIn s.cells

def world (s : Server) : World :=
  s.netEvent.world

/-- Clients that something refers to, so that their sockets are open. -/
def live (s : Server) : List Client :=
  s.waiting ++ s.connected ++ s.world.clients ++
    s.world.msgQueue.map (fun node => node.client)

/-- `accept` returns a number that no open socket has. -/
def AcceptsFresh (s : Server) : ServerEvent → Prop
  | .accept sockfd => ∀ client ∈ s.live, client.sockfd ≠ sockfd
  | _ => True

instance (s : Server) (e : ServerEvent) : Decidable (s.AcceptsFresh e) :=
  match e with
  | .accept sockfd => inferInstanceAs
      (Decidable (∀ client ∈ s.live, client.sockfd ≠ sockfd))
  | .join _ | .recv _ _ _ | .selectError _ | .stop _ | .destroy _
  | .tick _ _ => isTrue trivial

/-- The cell on which an event runs `ClrClient`. -/
def clears (s : Server) : ServerEvent → Option Cell
  | .selectError i =>
      s.cells[i]?.filter
        (fun cell => cell.phase = .running ∧ cell.clients.size ≠ 0)
  | .stop i => s.cells[i]?.filter (fun cell => cell.phase = .running)
  | .destroy i => s.cells[i]?.filter (fun cell => cell.phase = .exited)
  | _ => none

/-- `ClrClient` runs only on cells with a property. -/
def ClearsOnly (P : Cell → Prop) (s : Server) (e : ServerEvent) : Prop :=
  ∀ cell, s.clears e = some cell → P cell

end Server

end Places

/--
What the server does to one cell, to the callbacks' state or to the world; the
cells that are cleared have a given property.
-/
inductive ServerMove (P : Cell → Prop) :
    Server → List ServerObservation → Server → Prop
  | made (s : Server) :
      ServerMove P s [] { s with made := s.made + 1 }
  | accept (s : Server) (before after : List Cell) (cell : Cell)
      (sockfd : SOCKET)
      (hcells : s.cells = before ++ cell :: after)
      (hfresh : ∀ client ∈ s.live, client.sockfd ≠ sockfd) :
      ServerMove P s []
        { s with
          made := s.made + 1
          cells := before ++ cell.addClient ⟨s.made, sockfd⟩ :: after }
  | join (s : Server) (before after : List Cell) (cell : Cell)
      (client : Client) (rest : List Client)
      (hcells : s.cells = before ++ cell :: after)
      (hrun : cell.phase = .running)
      (hbuff : cell.clientsBuff = client :: rest) :
      ServerMove P s (s.netEvent.onJoin client).2
        { s with
          netEvent := (s.netEvent.onJoin client).1
          cells := before ++
            { cell with
              clients := cell.clients.set client.sockfd client
              clientsBuff := rest } :: after }
  | message (s : Server) (client : Client) (msg : MsgPtr)
      (hmem : client ∈ s.connected) :
      ServerMove P s (s.netEvent.onMessage client msg).2
        { s with netEvent := (s.netEvent.onMessage client msg).1 }
  | exit (s : Server) (before after : List Cell) (cell : Cell)
      (sockfd : SOCKET) (client : Client)
      (hcells : s.cells = before ++ cell :: after)
      (hfind : cell.clients.find? sockfd = some client) :
      ServerMove P s (s.netEvent.onExit client).2
        { s with
          netEvent := (s.netEvent.onExit client).1
          cells := before ++
            { cell with clients := cell.clients.erase sockfd } :: after }
  | clear (s : Server) (before after : List Cell) (cell : Cell)
      (phase : CellPhase)
      (hcells : s.cells = before ++ cell :: after) (hclear : P cell) :
      ServerMove P s []
        { s with cells := before ++ cell.clrClient phase :: after }
  | tick (s : Server) (codec : Codec) (memory : MsgPtr → MessageBody)
      (turnDue : Bool) :
      ServerMove P s []
        { s with netEvent :=
            { s.netEvent with
              world := (s.world.tick codec memory turnDue).1 } }

/-- A sequence of moves and all that they show. -/
inductive ServerMoves (P : Cell → Prop) :
    Server → List ServerObservation → Server → Prop
  | refl (s : Server) : ServerMoves P s [] s
  | head {s s₁ s₂ : Server} {out out' : List ServerObservation}
      (hfirst : ServerMove P s out s₁) (hrest : ServerMoves P s₁ out' s₂) :
      ServerMoves P s (out ++ out') s₂

theorem ServerMove.moves
    {P : Cell → Prop} {s s' : Server} {out : List ServerObservation}
    (h : ServerMove P s out s') :
    ServerMoves P s out s' := by
  have hmoves := ServerMoves.head h (ServerMoves.refl s')
  rwa [List.append_nil] at hmoves

/-- A property of state and trace that moves preserve outlasts a sequence. -/
theorem ServerMoves.invariant
    {P : Cell → Prop} {I : Server → List ServerObservation → Prop}
    (hmove : ∀ s tr out s', ServerMove P s out s' → I s tr →
      I s' (tr ++ out))
    {s s' : Server} {out : List ServerObservation}
    (h : ServerMoves P s out s') {tr : List ServerObservation}
    (hI : I s tr) :
    I s' (tr ++ out) := by
  induction h generalizing tr with
  | refl s =>
      rwa [List.append_nil]
  | head hfirst hrest ih =>
      have hnext := ih (hmove _ tr _ _ hfirst hI)
      rwa [List.append_assoc] at hnext

section Steps

variable {P : Cell → Prop}

/-- What `AddClient2Cell` chooses is a cell at its position. -/
theorem minCell_mem
    {cells : List Cell} {cell : Cell} {i : Nat}
    (h : minCell cells = some (cell, i)) :
    cells[i]? = some cell := by
  rw [minCell] at h
  split at h
  · cases h
  · next first rest hzip =>
      have hmem := firstMin_mem
        (fun e : Cell × Nat => e.1.getClientSize) first rest
      rw [firstMin_self] at h
      have hmin := Option.some.inj h
      rw [hmin, ← hzip] at hmem
      exact List.mk_mem_zipIdx_iff_getElem?.mp hmem

/-- Accepting a connection puts the new client into one cell's buffer. -/
theorem accept_moves
    {s : Server} {sockfd : SOCKET}
    (hfresh : ∀ client ∈ s.live, client.sockfd ≠ sockfd) :
    ServerMoves P s [] (s.accept sockfd) := by
  rw [Server.accept]
  split_ifs
  · exact ServerMoves.refl s
  · rw [Server.addClient2Cell]
    cases hmin : minCell s.cells with
    | none =>
        exact (ServerMove.made s).moves
    | some chosen =>
        obtain ⟨cell, i⟩ := chosen
        obtain ⟨before, after, hcells, -, hset⟩ :=
          split_set (minCell_mem hmin)
        have hmove :=
          ServerMove.accept (P := P) s before after cell sockfd hcells hfresh
        simp only [Server.setCell, hset]
        exact hmove.moves

/-- The join block takes the clients off the buffer one at a time. -/
theorem join_moves
    {s : Server} {before after : List Cell} {cell : Cell}
    {buff : List Client}
    (hcells : s.cells = before ++ cell :: after)
    (hrun : cell.phase = .running) (hbuff : cell.clientsBuff = buff) :
    ServerMoves P s (s.netEvent.joinLoop cell.clients buff).2.2
      { s with
        netEvent := (s.netEvent.joinLoop cell.clients buff).1
        cells := before ++
          { cell with
            clients := (s.netEvent.joinLoop cell.clients buff).2.1
            clientsBuff := [] } :: after } := by
  induction buff generalizing s cell with
  | nil =>
      have hsame : { s with cells := before ++
          { cell with clientsBuff := [] } :: after } = s := by
        rw [← hbuff, ← hcells]
      simpa [NetEvent.joinLoop, hsame] using ServerMoves.refl s
  | cons client rest ih =>
      have hfirst :=
        ServerMove.join (P := P) s before after cell client rest hcells
          hrun hbuff
      have hrest := @ih
        { s with
          netEvent := (s.netEvent.onJoin client).1
          cells := before ++
            { cell with
              clients := cell.clients.set client.sockfd client
              clientsBuff := rest } :: after }
        { cell with
          clients := cell.clients.set client.sockfd client
          clientsBuff := rest } rfl hrun rfl
      exact ServerMoves.head hfirst hrest

theorem messageLoop_moves
    {s : Server} {client : Client} (hmem : client ∈ s.connected)
    (msgs : List MsgPtr) :
    ServerMoves P s (s.netEvent.messageLoop client msgs).2
      { s with netEvent := (s.netEvent.messageLoop client msgs).1 } := by
  induction msgs generalizing s with
  | nil =>
      exact ServerMoves.refl s
  | cons msg rest ih =>
      have hfirst := ServerMove.message (P := P) s client msg hmem
      have hrest := @ih
        { s with netEvent := (s.netEvent.onMessage client msg).1 } hmem
      exact ServerMoves.head hfirst hrest

theorem connected_of_find?
    {s : Server} {before after : List Cell} {cell : Cell}
    {sockfd : SOCKET} {client : Client}
    (hcells : s.cells = before ++ cell :: after)
    (hfind : cell.clients.find? sockfd = some client) :
    client ∈ s.connected := by
  have hvalue := (cell.clients.mem_values_iff client).mpr ⟨sockfd, hfind⟩
  rw [Server.connected, connectedIn, hcells]
  simp [hvalue]

theorem readData_moves
    {s : Server} {i : Nat} {cell : Cell} {sockfd : SOCKET}
    {client : Client} (hcell : s.cells[i]? = some cell)
    (hfind : cell.clients.find? sockfd = some client)
    (ret : Option (List MsgPtr)) :
    ServerMoves P s (s.readData i cell sockfd client ret).2
      (s.readData i cell sockfd client ret).1 := by
  obtain ⟨before, after, hcells, -, hset⟩ := split_set hcell
  cases ret with
  | some msgs =>
      exact messageLoop_moves (connected_of_find? hcells hfind) msgs
  | none =>
      have hmove :=
        ServerMove.exit (P := P) s before after cell sockfd client hcells
          hfind
      simp only [Server.readData, Server.setCell, hset]
      exact hmove.moves

theorem clear_moves
    {s : Server} {i : Nat} {cell : Cell}
    (hcell : s.cells[i]? = some cell) (hclear : P cell)
    (phase : CellPhase) :
    ServerMoves P s [] (s.setCell i (cell.clrClient phase)) := by
  obtain ⟨before, after, hcells, -, hset⟩ := split_set hcell
  have hmove := ServerMove.clear s before after cell phase hcells hclear
  simp only [Server.setCell, hset]
  exact hmove.moves

/-- A step of one cell does moves when it does them for the cell there. -/
theorem atCell_moves
    {s : Server} {i : Nat} {f : Cell → Server × List ServerObservation}
    (h : ∀ cell, s.cells[i]? = some cell →
      ServerMoves P s (f cell).2 (f cell).1) :
    ServerMoves P s (s.atCell i f).2 (s.atCell i f).1 := by
  rw [Server.atCell]
  cases hcell : s.cells[i]? with
  | none =>
      exact ServerMoves.refl s
  | some cell =>
      exact h cell hcell

/-- Every step that `accept` keeps fresh is a sequence of moves. -/
theorem serverStep_moves
    (codec : Codec) {s : Server} {e : ServerEvent}
    (hfresh : s.AcceptsFresh e) (hclears : s.ClearsOnly P e) :
    ServerMoves P s (s.step codec e).2 (s.step codec e).1 := by
  cases e with
  | accept sockfd =>
      exact accept_moves hfresh
  | join i =>
      refine atCell_moves ?_
      intro cell hcell
      obtain ⟨before, after, hcells, -, hset⟩ := split_set hcell
      split_ifs with hrun
      · have hmoves := join_moves (P := P) hcells hrun rfl
        simp only [Server.join, Server.setCell, hset]
        exact hmoves
      · exact ServerMoves.refl s
  | recv i sockfd ret =>
      refine atCell_moves ?_
      intro cell hcell
      cases hfind : cell.clients.find? sockfd with
      | none =>
          exact ServerMoves.refl s
      | some client =>
          dsimp only
          split_ifs
          · exact readData_moves hcell hfind ret
          · exact ServerMoves.refl s
  | selectError i | stop i | destroy i =>
      refine atCell_moves ?_
      intro cell hcell
      split_ifs with hphase
      · have hclear : P cell :=
          hclears cell (by simp [Server.clears, hcell, hphase])
        exact clear_moves hcell hclear _
      · exact ServerMoves.refl s
  | tick memory turnDue =>
      exact (ServerMove.tick s codec memory turnDue).moves

end Steps

/--
An invariant of server and trace that every move preserves holds after every
run in which `accept` returns fresh socket numbers and only certain cells are
cleared.
-/
theorem server_invariant
    {P : Cell → Prop} {codec : Codec} {threadCount : Nat}
    {I : Server → List ServerObservation → Prop}
    (hinit : I (Server.start threadCount) [])
    (hmove : ∀ s tr out s', ServerMove P s out s' → I s tr →
      I s' (tr ++ out))
    {events : List ServerEvent}
    (hfresh : Machine.Along (Server.step codec)
      (fun s _ e => s.AcceptsFresh e ∧ s.ClearsOnly P e)
      (Server.start threadCount) events) :
    I (Server.run codec threadCount events).1
      (Server.run codec threadCount events).2 := by
  refine Machine.run_invariant_along hinit ?_ hfresh
  intro s tr e hguard hI
  exact (serverStep_moves codec hguard.1 hguard.2).invariant hmove hI

end LockStep
end NetEngine
