import NetEngine.LockStep.ServerRun

/-!
# Session table

The session table is keyed by a socket number, which the system hands out again
once the socket is closed, while messages of a closed connection may still be
queued.  What keeps the numbers apart is ownership: a queued message, a session
and every place in a cell refer to the ClientSocket, and as long as one of them
does its number is not handed out.

`TableInv` is what holds of the places a client can be in and `HistoryInv` what
holds of the callbacks seen so far; both are proved against the moves of the
server.
-/

namespace NetEngine
namespace LockStep

open Net

section Clients

namespace World

/-- Client of the session at a socket number. -/
def clientAt (w : World) (fd : SOCKET) : Option Client :=
  (w.getUser fd).map (fun player => player.client)

theorem mem_clients_iff (w : World) (client : Client) :
    client ∈ w.clients ↔ ∃ fd, w.clientAt fd = some client := by
  simp only [clients, clientAt, getUser, List.mem_map, Prod.exists,
    OrderedMap.mem_entries_iff, Option.map_eq_some_iff]

theorem clientAt_registerUser
    {w : World} {client : Client} (h : w.clientAt client.sockfd = none)
    (fd : SOCKET) :
    (w.registerUser client).clientAt fd =
      if fd = client.sockfd then some client else w.clientAt fd := by
  have hnone : w.sessions.find? client.sockfd = none := by
    simpa [clientAt, getUser] using h
  rw [clientAt, getUser, registerUser, OrderedMap.find?_insertNew, hnone]
  split_ifs
  · rfl
  · rfl

theorem clientAt_deleteUser (w : World) (client : Client) (fd : SOCKET) :
    (w.deleteUser client).clientAt fd =
      if fd = client.sockfd then none else w.clientAt fd := by
  rw [clientAt, getUser, deleteUser, OrderedMap.find?_erase]
  split_ifs
  · rfl
  · rfl

/-- The clients of the sessions and the queue are the same. -/
structure KeepsClients (w w' : World) : Prop where
  clientAt : ∀ fd, w'.clientAt fd = w.clientAt fd
  msgQueue : w'.msgQueue = w.msgQueue

theorem KeepsClients.refl (w : World) : KeepsClients w w :=
  ⟨fun _ => rfl, rfl⟩

theorem handleLogin_keepsClients
    (codec : Codec) {w : World} {fd : SOCKET} {player : Player}
    (hfind : w.getUser fd = some player) (msg : MessageBody) :
    KeepsClients w (w.handleLogin codec fd player msg).world := by
  rw [handleLogin]
  split_ifs
  · exact KeepsClients.refl w
  · refine ⟨?_, rfl⟩
    intro fd'
    rw [getUser] at hfind
    simp only [World.clientAt, getUser, login, OrderedMap.find?_modify]
    split_ifs with hfd
    · simp [hfd, hfind]
    · rfl
  · exact KeepsClients.refl w

theorem handleReady_keepsClients
    (codec : Codec) (w : World) (fd : SOCKET) (player : Player)
    (msg : MessageBody) :
    KeepsClients w (w.handleReady codec fd player msg).world := by
  rw [handleReady]
  split_ifs
  · dsimp only
    split_ifs
    · exact ⟨fun _ => rfl, rfl⟩
    · exact ⟨fun _ => rfl, rfl⟩
  · exact KeepsClients.refl w
  · exact KeepsClients.refl w

theorem handleFrame_keepsClients
    (codec : Codec) (w : World) (fd : SOCKET) (player : Player)
    (msg : MessageBody) :
    KeepsClients w (w.handleFrame codec fd player msg).world := by
  rw [handleFrame]
  cases codec.parseCSFrame msg.data (payloadSize msg) with
  | none =>
      exact KeepsClients.refl w
  | some proto =>
      exact ⟨fun _ => rfl, rfl⟩

theorem dispatchCommand_keepsClients
    (codec : Codec) (w : World) (client : Client) (msg : MessageBody) :
    KeepsClients w (w.dispatchCommand codec client msg).1 := by
  rw [dispatchCommand]
  cases hcommand : command codec msg.type with
  | none =>
      exact KeepsClients.refl w
  | some func =>
      cases hfind : w.getUser client.sockfd with
      | none =>
          exact KeepsClients.refl w
      | some player =>
          rw [command] at hcommand
          split_ifs at hcommand
          · cases hcommand
            exact handleLogin_keepsClients codec hfind msg
          · cases hcommand
            exact handleReady_keepsClients codec w _ player msg
          · cases hcommand
            exact handleFrame_keepsClients codec w _ player msg

/-- A tick takes one message off the queue and keeps the sessions' clients. -/
theorem tick_clients
    (codec : Codec) (memory : MsgPtr → MessageBody) (turnDue : Bool)
    (w : World) :
    (∀ fd, (w.tick codec memory turnDue).1.clientAt fd = w.clientAt fd) ∧
      (w.tick codec memory turnDue).1.msgQueue = w.msgQueue.tail := by
  have hproc :
      (∀ fd, (w.messageProc codec memory).1.clientAt fd = w.clientAt fd) ∧
        (w.messageProc codec memory).1.msgQueue = w.msgQueue.tail := by
    rw [messageProc]
    cases hqueue : w.msgQueue with
    | nil =>
        exact ⟨fun _ => rfl, hqueue⟩
    | cons node rest =>
        have hkeeps := dispatchCommand_keepsClients codec w node.client
          (memory node.msg)
        refine ⟨hkeeps.clientAt, ?_⟩
        show List.tail _ = _
        rw [hkeeps.msgQueue, hqueue]
  rw [tick]
  cases turnDue with
  | false =>
      exact hproc
  | true =>
      have hturn : KeepsClients (w.messageProc codec memory).1
          (w.messageProc codec memory).1.turn.1 := by
        rw [turn]
        split_ifs
        · exact ⟨fun _ => rfl, rfl⟩
        · exact ⟨fun _ => rfl, rfl⟩
      exact ⟨fun fd => (hturn.clientAt fd).trans (hproc.1 fd),
        hturn.msgQueue.trans hproc.2⟩

end World

end Clients

section Table

theorem mem_live_iff (s : Server) (client : Client) :
    client ∈ s.live ↔
      client ∈ s.waiting ∨ client ∈ s.connected ∨
        client ∈ s.world.clients ∨
        client ∈ s.world.msgQueue.map (fun node => node.client) := by
  simp only [Server.live, List.mem_append, or_assoc]

theorem Server.mem_live_of_waiting
    {s : Server} {client : Client} (hmem : client ∈ s.waiting) :
    client ∈ s.live :=
  (mem_live_iff _ _).mpr (Or.inl hmem)

theorem Server.mem_live_of_connected
    {s : Server} {client : Client} (hmem : client ∈ s.connected) :
    client ∈ s.live :=
  (mem_live_iff _ _).mpr (Or.inr (Or.inl hmem))

theorem Server.mem_live_of_client
    {s : Server} {fd : SOCKET} {client : Client}
    (hclient : s.world.clientAt fd = some client) :
    client ∈ s.live :=
  (mem_live_iff _ _).mpr (Or.inr (Or.inr (Or.inl
    ((World.mem_clients_iff _ _).mpr ⟨fd, hclient⟩))))

theorem Server.mem_live_of_queue
    {s : Server} {node : MsgNode} (hnode : node ∈ s.world.msgQueue) :
    node.client ∈ s.live :=
  (mem_live_iff _ _).mpr
    (Or.inr (Or.inr (Or.inr (List.mem_map_of_mem hnode))))

/-- Every client of a cell is stored under its socket number. -/
def Keyed (s : Server) : Prop :=
  ∀ cell ∈ s.cells, ∀ fd client,
    cell.clients.find? fd = some client → client.sockfd = fd

/-- What holds of the places of the clients. -/
structure TableInv (s : Server) : Prop where
  /-- Sessions are stored under the socket number of their client. -/
  sessions : ∀ fd client,
    s.world.clientAt fd = some client → client.sockfd = fd
  /-- Open sockets have different numbers. -/
  owners : ∀ client ∈ s.live, ∀ client' ∈ s.live,
    client.sockfd = client'.sockfd → client = client'
  /-- Nobody is in two places of the cells. -/
  nodup : (s.waiting ++ s.connected).Nodup
  waiting : ∀ client ∈ s.waiting, s.world.clientAt client.sockfd = none
  connected : ∀ client ∈ s.connected,
    s.world.clientAt client.sockfd = some client
  made : ∀ client ∈ s.live, client.id < s.made

theorem keyed_start (threadCount : Nat) :
    Keyed (Server.start threadCount) := by
  intro cell hcell fd client hfind
  obtain rfl := (List.mem_replicate.mp hcell).2
  cases hfind

theorem start_live (threadCount : Nat) :
    (Server.start threadCount).live = [] := by
  simp [Server.live, Server.waiting, waitingIn, Server.connected,
    connectedIn, Server.world, Server.start, World.clients,
    OrderedMap.empty, OrderedMap.values]

theorem tableInv_start (threadCount : Nat) :
    TableInv (Server.start threadCount) := by
  have hlive := start_live threadCount
  have hnone : ∀ client, client ∉ (Server.start threadCount).live := by
    rw [hlive]
    exact fun _ => List.not_mem_nil
  refine ⟨?_, ?_, ?_, ?_, ?_, ?_⟩
  · intro fd client hclient
    cases hclient
  · intro client hmem
    exact absurd hmem (hnone client)
  · rw [Server.live, List.append_assoc] at hlive
    rw [(List.append_eq_nil_iff.mp hlive).1]
    exact List.nodup_nil
  · intro client hmem
    exact absurd (Server.mem_live_of_waiting hmem) (hnone client)
  · intro client hmem
    exact absurd (Server.mem_live_of_connected hmem)
      (hnone client)
  · intro client hmem
    exact absurd hmem (hnone client)

theorem Keyed.of_cells
    {s s' : Server} {before after : List Cell} {cell cell' : Cell}
    (h : Keyed s) (hcells : s.cells = before ++ cell :: after)
    (hcells' : s'.cells = before ++ cell' :: after)
    (hcell : ∀ fd client, cell'.clients.find? fd = some client →
      client.sockfd = fd ∨ cell.clients.find? fd = some client) :
    Keyed s' := by
  intro c hc fd client hfind
  rw [hcells'] at hc
  rcases List.mem_append.mp hc with hc | hc
  · exact h c (hcells ▸ List.mem_append_left _ hc) fd client hfind
  · rcases List.mem_cons.mp hc with rfl | hc
    · rcases hcell fd client hfind with hfd | hold
      · exact hfd
      · have hmem : cell ∈ s.cells := by
          rw [hcells]
          exact List.mem_append_right _ List.mem_cons_self
        exact h cell hmem fd client hold
    · have hmem : c ∈ s.cells := by
        rw [hcells]
        exact List.mem_append_right _ (List.mem_cons_of_mem _ hc)
      exact h c hmem fd client hfind

theorem Keyed.move
    {P : Cell → Prop} {s s' : Server} {out : List ServerObservation}
    (h : Keyed s) (hmove : ServerMove P s out s') :
    Keyed s' := by
  cases hmove with
  | made | message | tick =>
      exact h
  | accept before after cell sockfd hcells hfresh =>
      exact h.of_cells hcells rfl (fun _ _ => Or.inr)
  | join before after cell client rest hcells hrun hbuff =>
      refine h.of_cells hcells rfl ?_
      intro fd client' hfind
      rw [OrderedMap.find?_set] at hfind
      split_ifs at hfind with hfd
      · cases hfind
        exact Or.inl hfd.symm
      · exact Or.inr hfind
  | exit before after cell sockfd client hcells hfind =>
      refine h.of_cells hcells rfl ?_
      intro fd client' hfind'
      rw [OrderedMap.find?_erase] at hfind'
      split_ifs at hfind' with hfd
      exact Or.inr hfind'
  | clear before after cell phase hcells hclear =>
      refine h.of_cells hcells rfl ?_
      intro fd client' hfind
      cases hfind

/-- What a move means for the places of the clients. -/
inductive PlaceMove (P : Cell → Prop) (s s' : Server) :
    List ServerObservation → Prop
  | idle (hwait : s'.waiting = s.waiting)
      (hconn : s'.connected = s.connected)
      (hnet : s'.netEvent = s.netEvent) (hmade : s.made ≤ s'.made) :
      PlaceMove P s s' []
  | accept (client : Client) (hid : client.id = s.made)
      (hfresh : ∀ c ∈ s.live, c.sockfd ≠ client.sockfd)
      (hwait : s'.waiting.Perm (client :: s.waiting))
      (hconn : s'.connected = s.connected)
      (hnet : s'.netEvent = s.netEvent) (hmade : s'.made = s.made + 1) :
      PlaceMove P s s' []
  | join (client : Client)
      (hwait : s.waiting.Perm (client :: s'.waiting))
      (hconn : s'.connected.Perm (client :: s.connected))
      (hnet : s'.netEvent = (s.netEvent.onJoin client).1)
      (hmade : s'.made = s.made) :
      PlaceMove P s s' (s.netEvent.onJoin client).2
  | message (client : Client) (msg : MsgPtr)
      (hmem : client ∈ s.connected)
      (hwait : s'.waiting = s.waiting)
      (hconn : s'.connected = s.connected)
      (hnet : s'.netEvent = (s.netEvent.onMessage client msg).1)
      (hmade : s'.made = s.made) :
      PlaceMove P s s' (s.netEvent.onMessage client msg).2
  | exit (client : Client)
      (hwait : s'.waiting = s.waiting)
      (hconn : s.connected.Perm (client :: s'.connected))
      (hnet : s'.netEvent = (s.netEvent.onExit client).1)
      (hmade : s'.made = s.made) :
      PlaceMove P s s' (s.netEvent.onExit client).2
  | clear (cell : Cell) (hclear : P cell)
      (hwait : s.waiting.Perm (cell.clientsBuff ++ s'.waiting))
      (hconn : s.connected.Perm (cell.clients.values ++ s'.connected))
      (hnet : s'.netEvent = s.netEvent) (hmade : s'.made = s.made) :
      PlaceMove P s s' []
  | tick (codec : Codec) (memory : MsgPtr → MessageBody) (turnDue : Bool)
      (hwait : s'.waiting = s.waiting)
      (hconn : s'.connected = s.connected)
      (hnet : s'.netEvent =
        { s.netEvent with
          world := (s.world.tick codec memory turnDue).1 })
      (hmade : s'.made = s.made) :
      PlaceMove P s s' []

/-- The buffer of one cell among those of all. -/
theorem waitingIn_perm (before after : List Cell) (cell : Cell) :
    (waitingIn (before ++ cell :: after)).Perm
      (cell.clientsBuff ++ waitingIn (before ++ after)) := by
  simp only [waitingIn, List.flatMap_append, List.flatMap_cons]
  exact List.perm_append_comm_assoc _ _ _

/-- The clients of one cell among those of all. -/
theorem connectedIn_perm (before after : List Cell) (cell : Cell) :
    (connectedIn (before ++ cell :: after)).Perm
      (cell.clients.values ++ connectedIn (before ++ after)) := by
  simp only [connectedIn, List.flatMap_append, List.flatMap_cons]
  exact List.perm_append_comm_assoc _ _ _

/-- A waiting client's number is free in the map of every cell. -/
theorem TableInv.find?_waiting
    {s : Server} (h : TableInv s) (hkeyed : Keyed s) {client : Client}
    (hwait : client ∈ s.waiting) {cell : Cell} (hcell : cell ∈ s.cells) :
    cell.clients.find? client.sockfd = none := by
  by_contra hsome
  obtain ⟨client', hfind⟩ := Option.ne_none_iff_exists'.mp hsome
  have hconn : client' ∈ s.connected := by
    rw [Server.connected, connectedIn, List.mem_flatMap]
    exact ⟨cell, hcell,
      (cell.clients.mem_values_iff client').mpr ⟨_, hfind⟩⟩
  have hsame : client = client' :=
    h.owners client (Server.mem_live_of_waiting hwait) client'
      (Server.mem_live_of_connected hconn)
      (hkeyed cell hcell _ _ hfind).symm
  have hdisjoint := List.disjoint_of_nodup_append h.nodup
  exact hdisjoint hwait (hsame ▸ hconn)

theorem ServerMove.placeMove
    {P : Cell → Prop} {s s' : Server} {out : List ServerObservation}
    (hmove : ServerMove P s out s') (hkeyed : Keyed s) (h : TableInv s) :
    PlaceMove P s s' out := by
  cases hmove with
  | made =>
      exact PlaceMove.idle rfl rfl rfl (Nat.le_succ _)
  | accept before after cell sockfd hcells hfresh =>
      refine PlaceMove.accept ⟨s.made, sockfd⟩ rfl hfresh ?_ ?_ rfl rfl
      · have hold := waitingIn_perm before after cell
        have hnew := waitingIn_perm before after
          (cell.addClient ⟨s.made, sockfd⟩)
        simp only [Server.waiting, hcells]
        refine hnew.trans (List.Perm.trans ?_ (hold.symm.cons _))
        simp only [Cell.addClient, List.append_assoc]
        exact List.perm_middle
      · simp [Server.connected, connectedIn, hcells, Cell.addClient]
  | join before after cell client rest hcells hrun hbuff =>
      have hcell : cell ∈ s.cells := by
        rw [hcells]
        exact List.mem_append_right _ List.mem_cons_self
      have hwaiting : client ∈ s.waiting := by
        rw [Server.waiting, waitingIn, List.mem_flatMap]
        exact ⟨cell, hcell, by simp [hbuff]⟩
      have hfree := h.find?_waiting hkeyed hwaiting hcell
      refine PlaceMove.join client ?_ ?_ rfl rfl
      · have hold := waitingIn_perm before after cell
        have hnew := waitingIn_perm before after
          { cell with
            clients := cell.clients.set client.sockfd client
            clientsBuff := rest }
        simp only [Server.waiting, hcells]
        rw [hbuff] at hold
        exact hold.trans (hnew.symm.cons client)
      · have hold := connectedIn_perm before after cell
        have hnew := connectedIn_perm before after
          { cell with
            clients := cell.clients.set client.sockfd client
            clientsBuff := rest }
        have hset := cell.clients.values_set_perm client hfree
        simp only [Server.connected, hcells]
        exact (hnew.trans (hset.append_right _)).trans
          (hold.symm.cons client)
  | message client msg hmem =>
      exact PlaceMove.message client msg hmem rfl rfl rfl rfl
  | exit before after cell sockfd client hcells hfind =>
      refine PlaceMove.exit client ?_ ?_ rfl rfl
      · simp [Server.waiting, waitingIn, hcells]
      · have hold := connectedIn_perm before after cell
        have hnew := connectedIn_perm before after
          { cell with clients := cell.clients.erase sockfd }
        have herase := cell.clients.values_perm_erase hfind
        simp only [Server.connected, hcells]
        exact (hold.trans (herase.append_right _)).trans
          (hnew.symm.cons client)
  | clear before after cell phase hcells hclear =>
      refine PlaceMove.clear cell hclear ?_ ?_ rfl rfl
      · have hold := waitingIn_perm before after cell
        have hnew := waitingIn_perm before after (cell.clrClient phase)
        simp only [Server.waiting, hcells]
        exact hold.trans (hnew.symm.append_left _)
      · have hold := connectedIn_perm before after cell
        have hnew := connectedIn_perm before after (cell.clrClient phase)
        simp only [Server.connected, hcells]
        exact hold.trans (hnew.symm.append_left _)
  | tick codec memory turnDue =>
      exact PlaceMove.tick codec memory turnDue rfl rfl rfl rfl

/-- No client appears that was nowhere before. -/
theorem Server.live_subset
    {s s' : Server} (hwait : ∀ c ∈ s'.waiting, c ∈ s.live)
    (hconn : ∀ c ∈ s'.connected, c ∈ s.live)
    (hat : ∀ fd c, s'.world.clientAt fd = some c → c ∈ s.live)
    (hqueue : ∀ node ∈ s'.world.msgQueue, node.client ∈ s.live) :
    ∀ c ∈ s'.live, c ∈ s.live := by
  intro c hc
  rcases (mem_live_iff _ _).mp hc with hc | hc | hc | hc
  · exact hwait c hc
  · exact hconn c hc
  · obtain ⟨fd, hfd⟩ := (World.mem_clients_iff _ _).mp hc
    exact hat fd c hfd
  · obtain ⟨node, hnode, rfl⟩ := List.mem_map.mp hc
    exact hqueue node hnode

/-- Two clients of the cells with one number are the same. -/
theorem TableInv.connected_eq
    {s : Server} (h : TableInv s) {client client' : Client}
    (hmem : client ∈ s.connected) (hmem' : client' ∈ s.connected)
    (hfd : client.sockfd = client'.sockfd) :
    client = client' :=
  h.owners client (Server.mem_live_of_connected hmem) client'
    (Server.mem_live_of_connected hmem') hfd

theorem TableInv.fresh_clientAt
    {s : Server} (h : TableInv s) {fd : SOCKET}
    (hfresh : ∀ client ∈ s.live, client.sockfd ≠ fd) :
    s.world.clientAt fd = none := by
  by_contra hsome
  obtain ⟨client, hclient⟩ := Option.ne_none_iff_exists'.mp hsome
  exact hfresh client (Server.mem_live_of_client hclient)
    (h.sessions _ _ hclient)

/-- Places may be given up and messages queued while the sessions stay. -/
theorem TableInv.quiet
    {s s' : Server} (h : TableInv s)
    (hat : ∀ fd, s'.world.clientAt fd = s.world.clientAt fd)
    (hwait : s'.waiting ⊆ s.waiting)
    (hconn : s'.connected ⊆ s.connected)
    (hnodup : (s'.waiting ++ s'.connected).Nodup)
    (hqueue : ∀ node ∈ s'.world.msgQueue, node.client ∈ s.live)
    (hmade : s.made ≤ s'.made) :
    TableInv s' := by
  have hlive : ∀ c ∈ s'.live, c ∈ s.live := by
    refine Server.live_subset
      (fun c hc => Server.mem_live_of_waiting (hwait hc))
      (fun c hc => Server.mem_live_of_connected (hconn hc))
      (fun fd c hfd => ?_) hqueue
    rw [hat] at hfd
    exact Server.mem_live_of_client hfd
  refine ⟨?_, ?_, hnodup, ?_, ?_, ?_⟩
  · intro fd c hc
    rw [hat] at hc
    exact h.sessions fd c hc
  · intro c hc c' hc'
    exact h.owners c (hlive c hc) c' (hlive c' hc')
  · intro c hc
    rw [hat]
    exact h.waiting c (hwait hc)
  · intro c hc
    rw [hat]
    exact h.connected c (hconn hc)
  · intro c hc
    exact (h.made c (hlive c hc)).trans_le hmade

theorem TableInv.same_places
    {s s' : Server} (h : TableInv s)
    (hat : ∀ fd, s'.world.clientAt fd = s.world.clientAt fd)
    (hwait : s'.waiting = s.waiting) (hconn : s'.connected = s.connected)
    (hqueue : ∀ node ∈ s'.world.msgQueue, node.client ∈ s.live)
    (hmade : s.made ≤ s'.made) :
    TableInv s' := by
  refine h.quiet hat ?_ ?_ ?_ hqueue hmade
  · rw [hwait]
    exact List.Subset.refl _
  · rw [hconn]
    exact List.Subset.refl _
  · rw [hwait, hconn]
    exact h.nodup

theorem TableInv.accept
    {s s' : Server} (h : TableInv s) {client : Client}
    (hid : client.id = s.made)
    (hfresh : ∀ c ∈ s.live, c.sockfd ≠ client.sockfd)
    (hwait : s'.waiting.Perm (client :: s.waiting))
    (hconn : s'.connected = s.connected)
    (hnet : s'.netEvent = s.netEvent) (hmade : s'.made = s.made + 1) :
    TableInv s' := by
  have hworld : s'.world = s.world := by
    rw [Server.world, hnet, Server.world]
  have hlive : ∀ c ∈ s'.live, c = client ∨ c ∈ s.live := by
    intro c hc
    rw [mem_live_iff, hwait.mem_iff, hconn, hworld, List.mem_cons] at hc
    rw [mem_live_iff]
    tauto
  refine ⟨?_, ?_, ?_, ?_, ?_, ?_⟩
  · rw [hworld]
    exact h.sessions
  · intro c hc c' hc' hfd
    rcases hlive c hc with rfl | hold
    · rcases hlive c' hc' with rfl | hold'
      · rfl
      · exact absurd hfd.symm (hfresh c' hold')
    · rcases hlive c' hc' with rfl | hold'
      · exact absurd hfd (hfresh c hold)
      · exact h.owners c hold c' hold' hfd
  · have hnew : client ∉ s.waiting ++ s.connected := by
      intro hmem
      refine hfresh client ((mem_live_iff _ _).mpr ?_) rfl
      rcases List.mem_append.mp hmem with hmem | hmem
      · exact Or.inl hmem
      · exact Or.inr (Or.inl hmem)
    rw [hconn, (hwait.append_right s.connected).nodup_iff,
      List.cons_append, List.nodup_cons]
    exact ⟨hnew, h.nodup⟩
  · intro c hc
    rw [hworld]
    rcases List.mem_cons.mp (hwait.mem_iff.mp hc) with rfl | hc
    · exact h.fresh_clientAt hfresh
    · exact h.waiting c hc
  · rw [hconn, hworld]
    exact h.connected
  · intro c hc
    rcases hlive c hc with rfl | hold
    · omega
    · have hlt := h.made c hold
      omega

theorem TableInv.join
    {s s' : Server} (h : TableInv s) {client : Client}
    (hwait : s.waiting.Perm (client :: s'.waiting))
    (hconn : s'.connected.Perm (client :: s.connected))
    (hnet : s'.netEvent = (s.netEvent.onJoin client).1)
    (hmade : s'.made = s.made) :
    TableInv s' := by
  have hmem : client ∈ s.waiting :=
    hwait.mem_iff.mpr List.mem_cons_self
  have hmemLive : client ∈ s.live :=
    Server.mem_live_of_waiting hmem
  have hnone := h.waiting client hmem
  have hat : ∀ fd, s'.world.clientAt fd =
      if fd = client.sockfd then some client
      else s.world.clientAt fd := by
    rw [Server.world, hnet]
    exact World.clientAt_registerUser hnone
  have hqueue : s'.world.msgQueue = s.world.msgQueue := by
    rw [Server.world, hnet]
    rfl
  have hlive : ∀ c ∈ s'.live, c ∈ s.live := by
    refine Server.live_subset ?_ ?_ ?_ ?_
    · intro c hc
      exact Server.mem_live_of_waiting
        (hwait.mem_iff.mpr (List.mem_cons_of_mem _ hc))
    · intro c hc
      rcases List.mem_cons.mp (hconn.mem_iff.mp hc) with rfl | hc
      · exact hmemLive
      · exact Server.mem_live_of_connected hc
    · intro fd c hfd
      rw [hat] at hfd
      split_ifs at hfd
      · cases hfd
        exact hmemLive
      · exact Server.mem_live_of_client hfd
    · intro node hnode
      rw [hqueue] at hnode
      exact Server.mem_live_of_queue hnode
  have hnodup : (client :: (s'.waiting ++ s.connected)).Nodup := by
    have hperm := hwait.append_right s.connected
    rw [List.cons_append] at hperm
    exact hperm.nodup_iff.mp h.nodup
  refine ⟨?_, ?_, ?_, ?_, ?_, ?_⟩
  · intro fd c hc
    rw [hat] at hc
    split_ifs at hc with hfd
    · cases hc
      exact hfd.symm
    · exact h.sessions fd c hc
  · intro c hc c' hc'
    exact h.owners c (hlive c hc) c' (hlive c' hc')
  · have hperm : (s'.waiting ++ s'.connected).Perm
        (client :: (s'.waiting ++ s.connected)) :=
      (hconn.append_left _).trans List.perm_middle
    exact hperm.nodup_iff.mpr hnodup
  · intro c hc
    have hold : c ∈ s.waiting :=
      hwait.mem_iff.mpr (List.mem_cons_of_mem _ hc)
    have hfd : c.sockfd ≠ client.sockfd := by
      intro hfd
      have hsame := h.owners c (Server.mem_live_of_waiting hold)
        client hmemLive hfd
      rw [hsame] at hc
      exact (List.nodup_cons.mp hnodup).1 (List.mem_append_left _ hc)
    rw [hat, if_neg hfd]
    exact h.waiting c hold
  · intro c hc
    rw [hat]
    rcases List.mem_cons.mp (hconn.mem_iff.mp hc) with rfl | hc
    · rw [if_pos rfl]
    · have hold := h.connected c hc
      rw [if_neg, hold]
      intro hfd
      rw [hfd, hnone] at hold
      cases hold
  · intro c hc
    rw [hmade]
    exact h.made c (hlive c hc)

theorem TableInv.exit
    {s s' : Server} (h : TableInv s) {client : Client}
    (hwait : s'.waiting = s.waiting)
    (hconn : s.connected.Perm (client :: s'.connected))
    (hnet : s'.netEvent = (s.netEvent.onExit client).1)
    (hmade : s'.made = s.made) :
    TableInv s' := by
  have hmem : client ∈ s.connected :=
    hconn.mem_iff.mpr List.mem_cons_self
  have hat : ∀ fd, s'.world.clientAt fd =
      if fd = client.sockfd then none else s.world.clientAt fd := by
    rw [Server.world, hnet]
    exact World.clientAt_deleteUser _ _
  have hqueue : s'.world.msgQueue = s.world.msgQueue := by
    rw [Server.world, hnet]
    rfl
  have hlive : ∀ c ∈ s'.live, c ∈ s.live := by
    refine Server.live_subset ?_ ?_ ?_ ?_
    · intro c hc
      rw [hwait] at hc
      exact Server.mem_live_of_waiting hc
    · intro c hc
      exact Server.mem_live_of_connected
        (hconn.mem_iff.mpr (List.mem_cons_of_mem _ hc))
    · intro fd c hfd
      rw [hat] at hfd
      split_ifs at hfd
      exact Server.mem_live_of_client hfd
    · intro node hnode
      rw [hqueue] at hnode
      exact Server.mem_live_of_queue hnode
  have hnodup : (client :: (s.waiting ++ s'.connected)).Nodup := by
    have hperm : (s.waiting ++ s.connected).Perm
        (client :: (s.waiting ++ s'.connected)) :=
      (hconn.append_left _).trans List.perm_middle
    exact hperm.nodup_iff.mp h.nodup
  refine ⟨?_, ?_, ?_, ?_, ?_, ?_⟩
  · intro fd c hc
    rw [hat] at hc
    split_ifs at hc
    exact h.sessions fd c hc
  · intro c hc c' hc'
    exact h.owners c (hlive c hc) c' (hlive c' hc')
  · rw [hwait]
    exact (List.nodup_cons.mp hnodup).2
  · intro c hc
    rw [hwait] at hc
    rw [hat]
    split_ifs
    · rfl
    · exact h.waiting c hc
  · intro c hc
    have hold : c ∈ s.connected :=
      hconn.mem_iff.mpr (List.mem_cons_of_mem _ hc)
    have hfd : c.sockfd ≠ client.sockfd := by
      intro hfd
      have hsame := h.connected_eq hold hmem hfd
      rw [hsame] at hc
      exact (List.nodup_cons.mp hnodup).1 (List.mem_append_right _ hc)
    rw [hat, if_neg hfd]
    exact h.connected c hold
  · intro c hc
    rw [hmade]
    exact h.made c (hlive c hc)

theorem TableInv.move
    {P : Cell → Prop} {s s' : Server} {out : List ServerObservation}
    (h : TableInv s) (hmove : PlaceMove P s s' out) :
    TableInv s' := by
  cases hmove with
  | idle hwait hconn hnet hmade =>
      have hworld : s'.world = s.world := by
        rw [Server.world, hnet, Server.world]
      refine h.same_places ?_ hwait hconn ?_ hmade
      · rw [hworld]
        exact fun _ => rfl
      · rw [hworld]
        exact fun _ => Server.mem_live_of_queue
  | accept client hid hfresh hwait hconn hnet hmade =>
      exact h.accept hid hfresh hwait hconn hnet hmade
  | join client hwait hconn hnet hmade =>
      exact h.join hwait hconn hnet hmade
  | message client msg hmem hwait hconn hnet hmade =>
      have hworld : s'.world = s.world.pushMsg client msg := by
        rw [Server.world, hnet]
        rfl
      refine h.same_places ?_ hwait hconn ?_ hmade.ge
      · rw [hworld]
        exact fun _ => rfl
      · intro node hnode
        rw [hworld] at hnode
        rcases List.mem_append.mp hnode with hnode | hnode
        · exact Server.mem_live_of_queue hnode
        · rw [List.mem_singleton.mp hnode]
          exact Server.mem_live_of_connected hmem
  | exit client hwait hconn hnet hmade =>
      exact h.exit hwait hconn hnet hmade
  | clear cell hclear hwait hconn hnet hmade =>
      have hworld : s'.world = s.world := by
        rw [Server.world, hnet, Server.world]
      have hwaitSub : s'.waiting.Subperm s.waiting :=
        (List.sublist_append_right _ _).subperm.trans hwait.symm.subperm
      have hconnSub : s'.connected.Subperm s.connected :=
        (List.sublist_append_right _ _).subperm.trans hconn.symm.subperm
      refine h.quiet ?_ hwaitSub.subset hconnSub.subset ?_ ?_ hmade.ge
      · rw [hworld]
        exact fun _ => rfl
      · obtain ⟨places, hperm, hsub⟩ := hwaitSub.append hconnSub
        exact hperm.nodup_iff.mp (h.nodup.sublist hsub)
      · rw [hworld]
        exact fun _ => Server.mem_live_of_queue
  | tick codec memory turnDue hwait hconn hnet hmade =>
      obtain ⟨hat, hqueue⟩ :=
        World.tick_clients codec memory turnDue s.world
      have hworld : s'.world = (s.world.tick codec memory turnDue).1 := by
        rw [Server.world, hnet]
      refine h.same_places ?_ hwait hconn ?_ hmade.ge
      · rw [hworld]
        exact hat
      · intro node hnode
        rw [hworld, hqueue] at hnode
        exact Server.mem_live_of_queue (List.mem_of_mem_tail hnode)

end Table

section History

/-- The callbacks that concern a client. -/
inductive Callback where
  | onJoin
  | onMessage
  | onExit
deriving DecidableEq

def callbackOf (client : Client) : ServerObservation → Option Callback
  | .onJoin client' _ => if client' = client then some .onJoin else none
  | .onMessage client' => if client' = client then some .onMessage else none
  | .onExit client' _ => if client' = client then some .onExit else none

/-- Callbacks of one client, in order. -/
def callbacksOf (client : Client) (tr : List ServerObservation) :
    List Callback :=
  tr.filterMap (callbackOf client)

@[simp] theorem callbacksOf_append
    (client : Client) (tr out : List ServerObservation) :
    callbacksOf client (tr ++ out) =
      callbacksOf client tr ++ callbacksOf client out :=
  List.filterMap_append

/-- What a client that joined and did not exit has seen. -/
def inside (messages : Nat) : List Callback :=
  .onJoin :: List.replicate messages .onMessage

/-- `OnJoin` comes before any `OnMessage`, and nothing after `OnExit`. -/
def CallbacksOrdered (callbacks : List Callback) : Prop :=
  callbacks = [] ∨
    ∃ messages, callbacks = inside messages ∨
      callbacks = inside messages ++ [.onExit]

/-- The assertions hold. -/
def ServerObservation.Sound : ServerObservation → Prop
  | .onJoin _ assertion => assertion = true
  | .onMessage _ => True
  | .onExit _ assertion => assertion = true

/-- What holds of the callbacks seen so far. -/
structure HistoryInv (s : Server) (tr : List ServerObservation) : Prop where
  unmade : ∀ client, s.made ≤ client.id → callbacksOf client tr = []
  waiting : ∀ client ∈ s.waiting, callbacksOf client tr = []
  connected : ∀ client ∈ s.connected,
    ∃ messages, callbacksOf client tr = inside messages
  ordered : ∀ client, CallbacksOrdered (callbacksOf client tr)
  sound : ∀ o ∈ tr, o.Sound

theorem historyInv_start (threadCount : Nat) :
    HistoryInv (Server.start threadCount) [] := by
  have hlive := start_live threadCount
  refine ⟨fun _ _ => rfl, fun _ _ => rfl, ?_, fun _ => Or.inl rfl, ?_⟩
  · intro client hmem
    have hmemLive : client ∈ (Server.start threadCount).live :=
      Server.mem_live_of_connected hmem
    rw [hlive] at hmemLive
    cases hmemLive
  · intro o ho
    cases ho

/-- Without callbacks places may be given up. -/
theorem HistoryInv.quiet
    {s s' : Server} {tr : List ServerObservation}
    (h : HistoryInv s tr) (hmade : s.made ≤ s'.made)
    (hwait : s'.waiting ⊆ s.waiting) (hconn : s'.connected ⊆ s.connected) :
    HistoryInv s' (tr ++ []) := by
  rw [List.append_nil]
  refine ⟨?_, ?_, ?_, h.ordered, h.sound⟩
  · intro client hid
    exact h.unmade client (hmade.trans hid)
  · intro client hmem
    exact h.waiting client (hwait hmem)
  · intro client hmem
    exact h.connected client (hconn hmem)

/--
A callback of one client leaves the others' alone; what has to be shown is what
it does to the client's own.
-/
theorem HistoryInv.callback
    {s s' : Server} {tr : List ServerObservation}
    {o : ServerObservation} {client : Client} {callback : Callback}
    (h : HistoryInv s tr) (hlive : client.id < s.made)
    (ho : ∀ c, callbackOf c o = if client = c then some callback else none)
    (hsound : o.Sound) (hmade : s'.made = s.made)
    (hwait : ∀ c ∈ s'.waiting, c ≠ client ∧ c ∈ s.waiting)
    (hconn : ∀ c ∈ s'.connected, c ≠ client → c ∈ s.connected)
    (hown : ∃ messages,
      callbacksOf client tr ++ [callback] = inside messages ∨
        (client ∉ s'.connected ∧
          callbacksOf client tr ++ [callback] =
            inside messages ++ [.onExit])) :
    HistoryInv s' (tr ++ [o]) := by
  have hself :
      callbacksOf client (tr ++ [o]) =
        callbacksOf client tr ++ [callback] := by
    simp [callbacksOf, ho]
  have hother : ∀ c, c ≠ client →
      callbacksOf c (tr ++ [o]) = callbacksOf c tr := by
    intro c hc
    simp [callbacksOf, ho, hc.symm]
  obtain ⟨messages, hown⟩ := hown
  refine ⟨?_, ?_, ?_, ?_, ?_⟩
  · intro c hid
    have hne : c ≠ client := by
      rintro rfl
      omega
    rw [hother c hne]
    exact h.unmade c (hmade ▸ hid)
  · intro c hc
    obtain ⟨hne, hold⟩ := hwait c hc
    rw [hother c hne]
    exact h.waiting c hold
  · intro c hc
    by_cases hne : c = client
    · subst hne
      rw [hself]
      rcases hown with hin | ⟨hout, -⟩
      · exact ⟨messages, hin⟩
      · exact absurd hc hout
    · rw [hother c hne]
      exact h.connected c (hconn c hc hne)
  · intro c
    by_cases hne : c = client
    · subst hne
      rw [hself]
      rcases hown with hin | ⟨-, hout⟩
      · exact Or.inr ⟨messages, Or.inl hin⟩
      · exact Or.inr ⟨messages, Or.inr hout⟩
    · rw [hother c hne]
      exact h.ordered c
  · intro o' ho'
    rcases List.mem_append.mp ho' with ho' | ho'
    · exact h.sound o' ho'
    · rw [List.mem_singleton.mp ho']
      exact hsound

theorem inside_succ (messages : Nat) :
    inside messages ++ [.onMessage] = inside (messages + 1) := by
  rw [inside, inside, List.replicate_succ', List.cons_append]

theorem HistoryInv.accept
    {s s' : Server} {tr : List ServerObservation}
    (h : HistoryInv s tr) {client : Client} (hid : client.id = s.made)
    (hwait : s'.waiting.Perm (client :: s.waiting))
    (hconn : s'.connected = s.connected) (hmade : s'.made = s.made + 1) :
    HistoryInv s' (tr ++ []) := by
  rw [List.append_nil]
  refine ⟨?_, ?_, ?_, h.ordered, h.sound⟩
  · intro c hc
    exact h.unmade c (by omega)
  · intro c hc
    rcases List.mem_cons.mp (hwait.mem_iff.mp hc) with rfl | hc
    · exact h.unmade c hid.ge
    · exact h.waiting c hc
  · rw [hconn]
    exact h.connected

theorem HistoryInv.join
    {s s' : Server} {tr : List ServerObservation}
    (h : HistoryInv s tr) (htable : TableInv s) {client : Client}
    (hwait : s.waiting.Perm (client :: s'.waiting))
    (hconn : s'.connected.Perm (client :: s.connected))
    (hmade : s'.made = s.made) :
    HistoryInv s' (tr ++ (s.netEvent.onJoin client).2) := by
  have hmem : client ∈ s.waiting :=
    hwait.mem_iff.mpr List.mem_cons_self
  have hnodup : (client :: s'.waiting).Nodup :=
    hwait.nodup_iff.mp (List.Nodup.of_append_left htable.nodup)
  refine h.callback
    (htable.made client (Server.mem_live_of_waiting hmem))
    (fun c => rfl) ?_ hmade ?_ ?_ ⟨0, Or.inl ?_⟩
  · have hnone := htable.waiting client hmem
    rw [World.clientAt, Option.map_eq_none_iff] at hnone
    exact Option.isNone_iff_eq_none.mpr hnone
  · intro c hc
    refine ⟨?_, hwait.mem_iff.mpr (List.mem_cons_of_mem _ hc)⟩
    rintro rfl
    exact (List.nodup_cons.mp hnodup).1 hc
  · intro c hc hne
    exact (List.mem_cons.mp (hconn.mem_iff.mp hc)).resolve_left hne
  · rw [h.waiting client hmem]
    rfl

theorem HistoryInv.message
    {s s' : Server} {tr : List ServerObservation}
    (h : HistoryInv s tr) (htable : TableInv s) {client : Client}
    (hmem : client ∈ s.connected) (msg : MsgPtr)
    (hwait : s'.waiting = s.waiting) (hconn : s'.connected = s.connected)
    (hmade : s'.made = s.made) :
    HistoryInv s' (tr ++ (s.netEvent.onMessage client msg).2) := by
  obtain ⟨messages, hin⟩ := h.connected client hmem
  have hdisjoint := List.disjoint_of_nodup_append htable.nodup
  refine h.callback
    (htable.made client (Server.mem_live_of_connected hmem))
    (fun c => rfl) trivial hmade ?_ ?_ ⟨messages + 1, Or.inl ?_⟩
  · intro c hc
    rw [hwait] at hc
    refine ⟨?_, hc⟩
    rintro rfl
    exact hdisjoint hc hmem
  · intro c hc _
    rwa [hconn] at hc
  · rw [hin, inside_succ]

theorem HistoryInv.exit
    {s s' : Server} {tr : List ServerObservation}
    (h : HistoryInv s tr) (htable : TableInv s) {client : Client}
    (hwait : s'.waiting = s.waiting)
    (hconn : s.connected.Perm (client :: s'.connected))
    (hmade : s'.made = s.made) :
    HistoryInv s' (tr ++ (s.netEvent.onExit client).2) := by
  have hmem : client ∈ s.connected :=
    hconn.mem_iff.mpr List.mem_cons_self
  obtain ⟨messages, hin⟩ := h.connected client hmem
  have hdisjoint := List.disjoint_of_nodup_append htable.nodup
  have hnodup : (client :: s'.connected).Nodup :=
    hconn.nodup_iff.mp (List.Nodup.of_append_right htable.nodup)
  refine h.callback
    (htable.made client (Server.mem_live_of_connected hmem))
    (fun c => rfl) ?_ hmade ?_ ?_ ⟨messages, Or.inr ⟨?_, ?_⟩⟩
  · have hsome := htable.connected client hmem
    rw [World.clientAt, Option.map_eq_some_iff] at hsome
    obtain ⟨player, hplayer, -⟩ := hsome
    exact Option.isSome_iff_exists.mpr ⟨player, hplayer⟩
  · intro c hc
    rw [hwait] at hc
    refine ⟨?_, hc⟩
    rintro rfl
    exact hdisjoint hc hmem
  · intro c hc _
    exact hconn.mem_iff.mpr (List.mem_cons_of_mem _ hc)
  · exact (List.nodup_cons.mp hnodup).1
  · rw [hin]

theorem HistoryInv.move
    {P : Cell → Prop} {s s' : Server} {tr out : List ServerObservation}
    (h : HistoryInv s tr) (htable : TableInv s)
    (hmove : PlaceMove P s s' out) :
    HistoryInv s' (tr ++ out) := by
  cases hmove with
  | idle hwait hconn hnet hmade =>
      refine h.quiet hmade ?_ ?_
      · rw [hwait]
        exact List.Subset.refl _
      · rw [hconn]
        exact List.Subset.refl _
  | accept client hid hfresh hwait hconn hnet hmade =>
      exact h.accept hid hwait hconn hmade
  | join client hwait hconn hnet hmade =>
      exact h.join htable hwait hconn hmade
  | message client msg hmem hwait hconn hnet hmade =>
      exact h.message htable hmem msg hwait hconn hmade
  | exit client hwait hconn hnet hmade =>
      exact h.exit htable hwait hconn hmade
  | clear cell hclear hwait hconn hnet hmade =>
      refine h.quiet hmade.ge ?_ ?_
      · intro c hc
        exact hwait.mem_iff.mpr (List.mem_append_right _ hc)
      · intro c hc
        exact hconn.mem_iff.mpr (List.mem_append_right _ hc)
  | tick codec memory turnDue hwait hconn hnet hmade =>
      refine h.quiet hmade.ge ?_ ?_
      · rw [hwait]
        exact List.Subset.refl _
      · rw [hconn]
        exact List.Subset.refl _

/-- What holds of places and callbacks together. -/
structure ServerInv (s : Server) (tr : List ServerObservation) : Prop where
  keyed : Keyed s
  table : TableInv s
  history : HistoryInv s tr

theorem serverInv_start (threadCount : Nat) :
    ServerInv (Server.start threadCount) [] :=
  ⟨keyed_start threadCount, tableInv_start threadCount,
    historyInv_start threadCount⟩

theorem ServerInv.move
    {P : Cell → Prop} {s s' : Server} {tr out : List ServerObservation}
    (h : ServerInv s tr) (hmove : ServerMove P s out s') :
    ServerInv s' (tr ++ out) := by
  have hplace := hmove.placeMove h.keyed h.table
  exact ⟨h.keyed.move hmove, h.table.move hplace,
    h.history.move h.table hplace⟩

theorem serverInv_run
    {codec : Codec} {threadCount : Nat} {events : List ServerEvent}
    (hfresh : Machine.Along (Server.step codec)
      (fun s _ e => s.AcceptsFresh e) (Server.start threadCount) events) :
    ServerInv (Server.run codec threadCount events).1
      (Server.run codec threadCount events).2 := by
  refine server_invariant (P := fun _ => True)
    (serverInv_start threadCount) (fun _ _ _ _ hmove h => h.move hmove) ?_
  intro before e after heq
  exact ⟨hfresh before e after heq, fun _ _ => trivial⟩

section Dispatch

/--
What `OnMessageProc` does with the queue: nothing when it is empty; otherwise
the front message is taken off, and the handler of its type runs with the player
that was created for the client that sent it, if there is such a handler and
such a player.
-/
inductive OwnDispatch (codec : Codec) (memory : MsgPtr → MessageBody)
    (w : World) : Prop
  | empty (hqueue : w.msgQueue = [])
      (hproc : w.messageProc codec memory = (w, []))
  | unhandled (node : MsgNode) (rest : List MsgNode)
      (hqueue : w.msgQueue = node :: rest)
      (hnone : World.command codec (memory node.msg).type = none ∨
        w.getUser node.client.sockfd = none)
      (hproc : w.messageProc codec memory =
        ({ w with msgQueue := rest }, [.read node.client (memory node.msg)]))
  | handled (node : MsgNode) (rest : List MsgNode) (player : Player)
      (func : World → SOCKET → Player → MessageBody → Handled)
      (hqueue : w.msgQueue = node :: rest)
      (hcommand : World.command codec (memory node.msg).type = some func)
      (huser : w.getUser node.client.sockfd = some player)
      (hown : player.client = node.client)
      (hproc : w.messageProc codec memory =
        ({ (func w node.client.sockfd player (memory node.msg)).world with
            msgQueue := rest },
          .read node.client (memory node.msg) ::
            (func w node.client.sockfd player (memory node.msg)).out))

/-- The session at the number of a queued client is that client's. -/
theorem TableInv.player_own
    {s : Server} (h : TableInv s) {node : MsgNode} {player : Player}
    (hnode : node ∈ s.world.msgQueue)
    (huser : s.world.getUser node.client.sockfd = some player) :
    player.client = node.client := by
  have hclient : s.world.clientAt node.client.sockfd =
      some player.client := by
    rw [World.clientAt, huser]
    rfl
  -- both are referred to, so two of them would have different numbers
  exact h.owners player.client (Server.mem_live_of_client hclient)
    node.client (Server.mem_live_of_queue hnode)
    (h.sessions _ _ hclient)

theorem TableInv.ownDispatch
    {s : Server} (h : TableInv s) (codec : Codec)
    (memory : MsgPtr → MessageBody) :
    OwnDispatch codec memory s.world := by
  cases hqueue : s.world.msgQueue with
  | nil =>
      refine OwnDispatch.empty hqueue ?_
      rw [World.messageProc, hqueue]
  | cons node rest =>
      have hkeeps := World.dispatchCommand_keepsClients codec s.world
        node.client (memory node.msg)
      have htail : (s.world.dispatchCommand codec node.client
          (memory node.msg)).1.msgQueue.tail = rest := by
        rw [hkeeps.msgQueue, hqueue]
        rfl
      have hproc : s.world.messageProc codec memory =
          ({ (s.world.dispatchCommand codec node.client
                (memory node.msg)).1 with msgQueue := rest },
            (s.world.dispatchCommand codec node.client
              (memory node.msg)).2) := by
        rw [World.messageProc, hqueue]
        dsimp only
        rw [htail]
      rw [World.dispatchCommand] at hproc
      cases hcommand : World.command codec (memory node.msg).type with
      | none =>
          rw [hcommand] at hproc
          exact OwnDispatch.unhandled node rest hqueue (Or.inl hcommand)
            hproc
      | some func =>
          rw [hcommand] at hproc
          cases huser : s.world.getUser node.client.sockfd with
          | none =>
              rw [huser] at hproc
              exact OwnDispatch.unhandled node rest hqueue (Or.inr huser)
                hproc
          | some player =>
              rw [huser] at hproc
              have hnode : node ∈ s.world.msgQueue := by
                rw [hqueue]
                exact List.mem_cons_self
              exact OwnDispatch.handled node rest player func hqueue
                hcommand huser (h.player_own hnode huser) hproc

end Dispatch

/--
The session table is coherent: assertions hold, sessions are stored under the
socket number of their client, callbacks come in order, and whatever is in the
queue is dispatched with the player of its own client.
-/
structure SessionsCoherent (s : Server) (tr : List ServerObservation) :
    Prop where
  registered : ∀ client assertion,
    .onJoin client assertion ∈ tr → assertion = true
  deleted : ∀ client assertion,
    .onExit client assertion ∈ tr → assertion = true
  keyed : ∀ e ∈ s.netEvent.world.sessions.entries,
    e.2.client.sockfd = e.1
  ordered : ∀ client, CallbacksOrdered (callbacksOf client tr)
  own : ∀ codec memory, OwnDispatch codec memory s.world

/-- Every run keeps the session table coherent. -/
theorem sessionsCoherent_run
    (codec : Codec) (threadCount : Nat) (events : List ServerEvent)
    (hfresh : Machine.Along (Server.step codec)
      (fun s _ e => s.AcceptsFresh e) (Server.start threadCount) events) :
    SessionsCoherent (Server.run codec threadCount events).1
      (Server.run codec threadCount events).2 := by
  have hinv := serverInv_run hfresh
  refine ⟨?_, ?_, ?_, hinv.history.ordered, hinv.table.ownDispatch⟩
  · intro client assertion hmem
    exact hinv.history.sound _ hmem
  · intro client assertion hmem
    exact hinv.history.sound _ hmem
  · rintro ⟨fd, player⟩ hmem
    have hfind := (OrderedMap.mem_entries_iff _ fd player).mp hmem
    refine hinv.table.sessions fd player.client ?_
    rw [World.clientAt, World.getUser, Server.world, hfind]
    rfl

/--
A message of a client that is gone keeps socket 4 from being handed out; after
the tick that handles the message it is handed out again, and the newcomer's
message is the next one.
-/
def socketReused : List ServerEvent :=
  [.accept 4, .join 0, .recv 0 4 (some [0]), .recv 0 4 none, .accept 5,
    .tick (fun _ => clientBody .ECSReady []) false, .accept 4, .join 1,
    .recv 1 4 (some [0])]

theorem sessionsCoherent_run_reused :
    (Machine.Along (Server.step plainCodec) (fun s _ e => s.AcceptsFresh e)
      (Server.start 2) socketReused) ∧
    SessionsCoherent (Server.run plainCodec 2 socketReused).1
      (Server.run plainCodec 2 socketReused).2 :=
  ⟨by decide, sessionsCoherent_run plainCodec 2 socketReused (by decide)⟩

end History

end LockStep
end NetEngine
