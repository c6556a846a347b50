import Mathlib.Algebra.GroupWithZero.Nat
import NetEngine.LockStep.SessionTable

/-!
# Joins and exits

A client that joined is expected to exit when it leaves the map of its cell;
then the connection counter and the session table describe the clients of the
cells.  `OnClientExit` keeps to this, `ClrClient` does not: it drops the clients
of a cell whose loop has ended and calls nobody.

So the pairing holds throughout a run exactly when every `ClrClient` of the run
meets an empty map.  A failed select never does, since a cell without clients
does not select.
-/

namespace NetEngine
namespace LockStep

open Net

section Pairing

/-- Joins and exits are paired, and counter and session table agree with it. -/
structure Paired (s : Server) (tr : List ServerObservation) : Prop where
  exits : ∀ client, .onJoin ∈ callbacksOf client tr →
    (callbacksOf client tr).count .onExit =
      if client ∈ s.connected then 0 else 1
  connCount : s.netEvent.connCount =
    ((s.cells.map (fun cell => cell.clients.size)).sum : Nat)
  sessions : ∀ client,
    client ∈ s.netEvent.world.clients ↔ client ∈ s.connected

/-- `ClrClient` meets cells without clients only. -/
def ClearsEmpty (s : Server) (e : ServerEvent) : Prop :=
  s.ClearsOnly (fun cell => cell.clients.size = 0) e

instance (s : Server) (e : ServerEvent) : Decidable (ClearsEmpty s e) :=
  inferInstanceAs
    (Decidable (∀ cell ∈ s.clears e, cell.clients.size = 0))

theorem connected_length (s : Server) :
    s.connected.length =
      (s.cells.map (fun cell => cell.clients.size)).sum := by
  simp only [Server.connected, connectedIn, List.length_flatMap,
    OrderedMap.values_length]

/-- Clients are paired while only cells without clients are cleared. -/
structure PairInv (s : Server) (tr : List ServerObservation) : Prop where
  connCount : s.netEvent.connCount = (s.connected.length : Int)
  sessions : ∀ client, client ∈ s.world.clients ↔ client ∈ s.connected
  stays : ∀ client messages,
    callbacksOf client tr = inside messages → client ∈ s.connected

theorem pairInv_start (threadCount : Nat) :
    PairInv (Server.start threadCount) [] := by
  have hlive := start_live threadCount
  have hconn : (Server.start threadCount).connected = [] := by
    rw [Server.live, List.append_assoc, List.append_assoc] at hlive
    exact (List.append_eq_nil_iff.mp (List.append_eq_nil_iff.mp hlive).2).1
  refine ⟨?_, ?_, ?_⟩
  · rw [hconn]
    rfl
  · intro client
    rw [hconn]
    exact Iff.rfl
  · intro client messages hin
    cases hin

/-- Nothing changes for the clients of the cells and of the sessions. -/
theorem PairInv.quiet
    {s s' : Server} {tr out : List ServerObservation} (h : PairInv s tr)
    (hconn : s'.connected.Perm s.connected)
    (hcount : s'.netEvent.connCount = s.netEvent.connCount)
    (hclients : ∀ client,
      client ∈ s'.world.clients ↔ client ∈ s.world.clients)
    (hout : ∀ client messages,
      callbacksOf client (tr ++ out) = inside messages →
      ∃ messages', callbacksOf client tr = inside messages') :
    PairInv s' (tr ++ out) := by
  refine ⟨?_, ?_, ?_⟩
  · rw [hcount, hconn.length_eq]
    exact h.connCount
  · intro client
    rw [hclients, hconn.mem_iff]
    exact h.sessions client
  · intro client messages hin
    obtain ⟨messages', hin'⟩ := hout client messages hin
    exact hconn.mem_iff.mpr (h.stays client messages' hin')

theorem callbacksOf_append_nil
    (client : Client) (tr out : List ServerObservation)
    (hout : callbacksOf client out = []) :
    callbacksOf client (tr ++ out) = callbacksOf client tr := by
  rw [callbacksOf_append, hout, List.append_nil]

theorem PairInv.join
    {s s' : Server} {tr : List ServerObservation} (h : PairInv s tr)
    (htable : TableInv s) {client : Client}
    (hwait : s.waiting.Perm (client :: s'.waiting))
    (hconn : s'.connected.Perm (client :: s.connected))
    (hnet : s'.netEvent = (s.netEvent.onJoin client).1) :
    PairInv s' (tr ++ (s.netEvent.onJoin client).2) := by
  have hnone := htable.waiting client (hwait.mem_iff.mpr List.mem_cons_self)
  have hat : ∀ fd, s'.world.clientAt fd =
      if fd = client.sockfd then some client
      else s.world.clientAt fd := by
    rw [Server.world, hnet]
    exact World.clientAt_registerUser hnone
  refine ⟨?_, ?_, ?_⟩
  · rw [hnet, hconn.length_eq, List.length_cons]
    have hcount := h.connCount
    simp only [NetEvent.onJoin]
    omega
  · intro c
    rw [World.mem_clients_iff, hconn.mem_iff, List.mem_cons,
      ← h.sessions c, World.mem_clients_iff]
    constructor
    · rintro ⟨fd, hfd⟩
      rw [hat] at hfd
      split_ifs at hfd
      · exact Or.inl (Option.some.inj hfd).symm
      · exact Or.inr ⟨fd, hfd⟩
    · rintro (rfl | ⟨fd, hfd⟩)
      · exact ⟨c.sockfd, by rw [hat, if_pos rfl]⟩
      · refine ⟨fd, ?_⟩
        rw [hat, if_neg, hfd]
        rintro rfl
        rw [hnone] at hfd
        cases hfd
  · intro c messages hin
    rw [hconn.mem_iff]
    by_cases hne : client = c
    · rw [hne]
      exact List.mem_cons_self
    · have hquiet : callbacksOf c (s.netEvent.onJoin client).2 = [] := by
        simp [callbacksOf, callbackOf, NetEvent.onJoin, hne]
      rw [callbacksOf_append_nil c tr _ hquiet] at hin
      exact List.mem_cons_of_mem _ (h.stays c messages hin)

theorem PairInv.exit
    {s s' : Server} {tr : List ServerObservation} (h : PairInv s tr)
    (htable : TableInv s) {client : Client}
    (hconn : s.connected.Perm (client :: s'.connected))
    (hnet : s'.netEvent = (s.netEvent.onExit client).1) :
    PairInv s' (tr ++ (s.netEvent.onExit client).2) := by
  have hmem : client ∈ s.connected :=
    hconn.mem_iff.mpr List.mem_cons_self
  have hself := htable.connected client hmem
  have hnodup : (client :: s'.connected).Nodup :=
    hconn.nodup_iff.mp (List.Nodup.of_append_right htable.nodup)
  have hat : ∀ fd, s'.world.clientAt fd =
      if fd = client.sockfd then none else s.world.clientAt fd := by
    rw [Server.world, hnet]
    exact World.clientAt_deleteUser _ _
  have hrest : ∀ c, c ∈ s'.connected ↔ c ∈ s.connected ∧ c ≠ client := by
    intro c
    rw [hconn.mem_iff, List.mem_cons]
    constructor
    · intro hc
      refine ⟨Or.inr hc, ?_⟩
      rintro rfl
      exact (List.nodup_cons.mp hnodup).1 hc
    · rintro ⟨hc, hne⟩
      exact hc.resolve_left hne
  refine ⟨?_, ?_, ?_⟩
  · have hcount := h.connCount
    rw [hconn.length_eq, List.length_cons] at hcount
    rw [hnet]
    simp only [NetEvent.onExit]
    omega
  · intro c
    rw [World.mem_clients_iff, hrest, ← h.sessions c,
      World.mem_clients_iff]
    constructor
    · rintro ⟨fd, hfd⟩
      rw [hat] at hfd
      split_ifs at hfd with hne
      refine ⟨⟨fd, hfd⟩, ?_⟩
      rintro rfl
      exact hne (htable.sessions fd c hfd).symm
    · rintro ⟨⟨fd, hfd⟩, hne⟩
      refine ⟨fd, ?_⟩
      rw [hat, if_neg, hfd]
      rintro rfl
      rw [hself] at hfd
      exact hne (Option.some.inj hfd).symm
  · intro c messages hin
    rw [hrest]
    by_cases hne : client = c
    · -- the last callback of an exited client is its exit
      have hown : callbacksOf c (s.netEvent.onExit client).2 =
          [.onExit] := by
        simp [callbacksOf, callbackOf, NetEvent.onExit, hne]
      rw [callbacksOf_append, hown] at hin
      have hlast : Callback.onExit ∈ inside messages := by
        rw [← hin]
        exact List.mem_append_right _ List.mem_cons_self
      simp [inside] at hlast
    · have hquiet : callbacksOf c (s.netEvent.onExit client).2 = [] := by
        simp [callbacksOf, callbackOf, NetEvent.onExit, hne]
      rw [callbacksOf_append_nil c tr _ hquiet] at hin
      exact ⟨h.stays c messages hin, fun heq => hne heq.symm⟩

theorem PairInv.move
    {s s' : Server} {tr out : List ServerObservation}
    (h : PairInv s tr) (htable : TableInv s) (hhistory : HistoryInv s tr)
    (hmove : PlaceMove (fun cell => cell.clients.size = 0) s s' out) :
    PairInv s' (tr ++ out) := by
  cases hmove with
  | idle hwait hconn hnet hmade
  | accept client hid hfresh hwait hconn hnet hmade =>
      refine h.quiet (by rw [hconn]) (by rw [hnet]) ?_ ?_
      · intro client
        rw [Server.world, hnet, Server.world]
      · intro client messages hin
        rw [List.append_nil] at hin
        exact ⟨messages, hin⟩
  | join client hwait hconn hnet hmade =>
      exact h.join htable hwait hconn hnet
  | message client msg hmem hwait hconn hnet hmade =>
      refine h.quiet (by rw [hconn]) (by rw [hnet]; rfl) ?_ ?_
      · intro c
        rw [Server.world, hnet]
        exact Iff.rfl
      · intro c messages hin
        by_cases hne : client = c
        · obtain ⟨messages', hin'⟩ := hhistory.connected client hmem
          exact ⟨messages', hne ▸ hin'⟩
        · have hquiet :
              callbacksOf c (s.netEvent.onMessage client msg).2 = [] := by
            simp [callbacksOf, callbackOf, NetEvent.onMessage, hne]
          rw [callbacksOf_append_nil c tr _ hquiet] at hin
          exact ⟨messages, hin⟩
  | exit client hwait hconn hnet hmade =>
      exact h.exit htable hconn hnet
  | clear cell hclear hwait hconn hnet hmade =>
      have hnil : cell.clients.values = [] := by
        rw [← List.length_eq_zero_iff, OrderedMap.values_length]
        exact hclear
      rw [hnil] at hconn
      refine h.quiet hconn.symm (by rw [hnet]) ?_ ?_
      · intro client
        rw [Server.world, hnet, Server.world]
      · intro client messages hin
        rw [List.append_nil] at hin
        exact ⟨messages, hin⟩
  | tick codec memory turnDue hwait hconn hnet hmade =>
      obtain ⟨hat, -⟩ := World.tick_clients codec memory turnDue s.world
      refine h.quiet (by rw [hconn]) (by rw [hnet]) ?_ ?_
      · intro client
        rw [Server.world, hnet]
        simp only [World.mem_clients_iff, hat]
      · intro client messages hin
        rw [List.append_nil] at hin
        exact ⟨messages, hin⟩

/-- What the invariants say about exits. -/
theorem PairInv.paired
    {s : Server} {tr : List ServerObservation} (h : PairInv s tr)
    (hhistory : HistoryInv s tr) :
    Paired s tr := by
  refine ⟨?_, ?_, h.sessions⟩
  · intro client hjoin
    by_cases hconn : client ∈ s.connected
    · obtain ⟨messages, hin⟩ := hhistory.connected client hconn
      rw [if_pos hconn, hin, inside]
      simp [List.count_replicate]
    · rw [if_neg hconn]
      rcases hhistory.ordered client with hnil | ⟨messages, hin | hout⟩
      · rw [hnil] at hjoin
        cases hjoin
      · exact absurd (h.stays client messages hin) hconn
      · rw [hout, inside]
        simp [List.count_replicate]
  · rw [h.connCount, connected_length]

/-- What `ClrClient` runs on, and what the step does. -/
theorem step_of_clears
    (codec : Codec) {s : Server} {e : ServerEvent} {cell : Cell}
    (h : s.clears e = some cell) :
    ∃ i phase, s.cells[i]? = some cell ∧
      s.step codec e = (s.setCell i (cell.clrClient phase), []) := by
  cases e with
  | accept | join | recv | tick =>
      cases h
  | selectError i | stop i =>
      obtain ⟨hcell, hphase⟩ := Option.filter_eq_some_iff.mp h
      refine ⟨i, .exited, hcell, ?_⟩
      simp only [Server.step, Server.atCell, hcell]
      exact if_pos (of_decide_eq_true hphase)
  | destroy i =>
      obtain ⟨hcell, hphase⟩ := Option.filter_eq_some_iff.mp h
      refine ⟨i, .destroyed, hcell, ?_⟩
      simp only [Server.step, Server.atCell, hcell]
      exact if_pos (of_decide_eq_true hphase)

/-- Clearing a cell that has clients breaks the pairing. -/
theorem Paired.clearsEmpty
    {codec : Codec} {s : Server} {e : ServerEvent}
    {tr tr' : List ServerObservation}
    (h : Paired s tr) (h' : Paired (s.step codec e).1 tr') :
    ClearsEmpty s e := by
  intro cell hclears
  obtain ⟨i, phase, hcell, hstep⟩ := step_of_clears codec hclears
  obtain ⟨before, after, hcells, -, hset⟩ := split_set hcell
  have hcount := h.connCount
  have hcount' := h'.connCount
  rw [hstep] at hcount'
  simp only [Server.setCell, hset, Cell.clrClient] at hcount'
  rw [hcount, hcells] at hcount'
  simp only [List.map_append, List.map_cons, List.sum_append,
    List.sum_cons, OrderedMap.size, OrderedMap.empty,
    List.length_nil] at hcount'
  show cell.clients.entries.length = 0
  omega

/--
Joins and exits stay paired throughout a run exactly when every `ClrClient` of
the run meets a cell without clients.
-/
theorem paired_iff
    (codec : Codec) (threadCount : Nat) (events : List ServerEvent)
    (hfresh : Machine.Along (Server.step codec)
      (fun s _ e => s.AcceptsFresh e) (Server.start threadCount) events) :
    (∀ before after, events = before ++ after →
      Paired (Server.run codec threadCount before).1
        (Server.run codec threadCount before).2) ↔
      Machine.Along (Server.step codec) (fun s _ e => ClearsEmpty s e)
        (Server.start threadCount) events := by
  constructor
  · rintro hpaired before e after rfl
    have hbefore := hpaired before (e :: after) rfl
    have hafter := hpaired (before ++ [e]) after (by simp)
    rw [Server.run, Machine.run_concat] at hafter
    exact hbefore.clearsEmpty hafter
  · rintro hclears before after rfl
    have hinv := server_invariant (P := fun cell => cell.clients.size = 0)
      (I := fun s tr => ServerInv s tr ∧ PairInv s tr)
      ⟨serverInv_start threadCount, pairInv_start threadCount⟩
      (fun s tr out s' hmove h => ⟨h.1.move hmove,
        h.2.move h.1.table h.1.history
          (hmove.placeMove h.1.keyed h.1.table)⟩)
      (fun b e a heq => ⟨hfresh.of_append b e a heq,
        hclears.of_append b e a heq⟩)
    exact hinv.2.paired hinv.1.history

/-- A client joins and exits before its cell is stopped. -/
theorem paired_iff_stopped_empty :
    Paired
      (Server.run plainCodec 1
        [.accept 4, .join 0, .recv 0 4 none, .stop 0, .destroy 0]).1
      (Server.run plainCodec 1
        [.accept 4, .join 0, .recv 0 4 none, .stop 0, .destroy 0]).2 :=
  (paired_iff plainCodec 1
    [.accept 4, .join 0, .recv 0 4 none, .stop 0, .destroy 0]
    (by decide)).mpr (by decide) _ [] (List.append_nil _).symm

/-- A failed select drops a client that joined. -/
theorem not_paired :
    ¬ ∀ (codec : Codec) (threadCount : Nat) (events : List ServerEvent),
      Machine.Along (Server.step codec) (fun s _ e => s.AcceptsFresh e)
        (Server.start threadCount) events →
      Paired (Server.run codec threadCount events).1
        (Server.run codec threadCount events).2 := by
  intro h
  have hpaired := h plainCodec 1 [.accept 4, .join 0, .selectError 0]
    (by decide)
  exact absurd hpaired.connCount (by decide)

end Pairing

end LockStep
end NetEngine
