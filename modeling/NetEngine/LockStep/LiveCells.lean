import NetEngine.LockStep.ServerRun

/-!
# Live cells

`AddClient2Cell` compares the loads of all cells and knows nothing of their
threads.  A cell whose loop has ended is empty right after that, so it attracts
the next connections, and nobody takes them out of its buffer any more.

Cells are ordered by load and then by position.  A connection reaches a running
cell, while there is one, exactly when some running cell comes before all the
cells that have ended.
-/

namespace NetEngine
namespace LockStep

open Net

section Choice

/-- The order that decides which cell gets a client. -/
def LessLoaded (e e' : Cell × Nat) : Prop :=
  Precedes (fun e => e.1.getClientSize) (fun e => e.2) e e'

/-- A step hands a client to the cell at a position. -/
def HandsTo (s s' : Server) (i : Nat) : Prop :=
  ∃ cell client, s.cells[i]? = some cell ∧
    s'.cells[i]? = some (cell.addClient client)

/-- No client is handed to an ended cell while another one is running. -/
def HandsToRunning (codec : Codec) (s : Server) : ServerEvent → Prop
  | .accept sockfd =>
      ∀ i, HandsTo s (s.step codec (.accept sockfd)).1 i →
        (∃ cell ∈ s.cells, cell.phase = .running) →
        ∃ cell, s.cells[i]? = some cell ∧ cell.phase = .running
  | _ => True

/--
When a connection is accepted while some cell is running, some running cell
comes before all ended cells by load and then by position.
-/
def RunningFirst (s : Server) : ServerEvent → Prop
  | .accept sockfd =>
      sockfd ≠ INVALID_SOCKET →
      (∃ cell ∈ s.cells, cell.phase = .running) →
      ∃ e ∈ s.cells.zipIdx, e.1.phase = .running ∧
        ∀ e' ∈ s.cells.zipIdx, e'.1.phase ≠ .running → LessLoaded e e'
  | _ => True

theorem addClient_ne (cell : Cell) (client : Client) :
    cell.addClient client ≠ cell := by
  intro h
  have hbuff := congrArg Cell.clientsBuff h
  simp [Cell.addClient] at hbuff

/-- The client goes to the chosen cell and to no other. -/
theorem handsTo_setCell_iff
    {s : Server} {cell : Cell} {i : Nat} (hcell : s.cells[i]? = some cell)
    (client : Client) (j : Nat) :
    HandsTo s (s.setCell i (cell.addClient client)) j ↔ j = i := by
  have hlt := (List.getElem?_eq_some_iff.mp hcell).1
  constructor
  · rintro ⟨cell', client', hcell', hnew⟩
    by_contra hne
    rw [Server.setCell, List.getElem?_set_ne (fun h => hne h.symm),
      hcell'] at hnew
    exact addClient_ne cell' client' (Option.some.inj hnew).symm
  · rintro rfl
    refine ⟨cell, client, hcell, ?_⟩
    rw [Server.setCell, List.getElem?_set_self hlt]

theorem not_handsTo_self (s : Server) (i : Nat) : ¬ HandsTo s s i := by
  rintro ⟨cell, client, hcell, hnew⟩
  rw [hcell] at hnew
  exact addClient_ne cell client (Option.some.inj hnew).symm

/-- Accepting hands the client to the first of the least loaded cells. -/
theorem handsTo_accept_iff
    (s : Server) {sockfd : SOCKET} (hvalid : sockfd ≠ INVALID_SOCKET)
    (i : Nat) :
    HandsTo s (s.accept sockfd) i ↔
      ∃ cell, minCell s.cells = some (cell, i) := by
  rw [Server.accept, if_neg hvalid, Server.addClient2Cell]
  cases hmin : minCell s.cells with
  | none =>
      constructor
      · intro h
        exact absurd h (not_handsTo_self s i)
      · rintro ⟨cell, h⟩
        cases h
  | some chosen =>
      obtain ⟨cell, j⟩ := chosen
      have hiff :=
        handsTo_setCell_iff (minCell_mem hmin) ⟨s.made, sockfd⟩ i
      constructor
      · intro h
        exact ⟨cell, by rw [hiff.mp h]⟩
      · rintro ⟨cell', h⟩
        cases h
        exact hiff.mpr rfl

/-- The chosen cell is running exactly when a running cell comes first. -/
theorem minCell_running_iff {cells : List Cell} {cell : Cell} {i : Nat}
    (hmin : minCell cells = some (cell, i)) :
    ((∃ c ∈ cells, c.phase = .running) → cell.phase = .running) ↔
      ((∃ c ∈ cells, c.phase = .running) →
        ∃ e ∈ cells.zipIdx, e.1.phase = .running ∧
          ∀ e' ∈ cells.zipIdx, e'.1.phase ≠ .running → LessLoaded e e') := by
  have hrunning : (∃ c ∈ cells, c.phase = .running) ↔
      ∃ e ∈ cells.zipIdx, e.1.phase = .running := by
    constructor
    · rintro ⟨c, hc, hrun⟩
      obtain ⟨k, hk, rfl⟩ := List.getElem_of_mem hc
      exact ⟨(cells[k], k), List.mk_mem_zipIdx_iff_getElem?.mpr
        (List.getElem?_eq_getElem hk), hrun⟩
    · rintro ⟨⟨c, k⟩, hc, hrun⟩
      exact ⟨c, List.mem_of_getElem?
        (List.mk_mem_zipIdx_iff_getElem?.mp hc), hrun⟩
  rw [hrunning]
  rw [minCell] at hmin
  split at hmin
  · cases hmin
  · next first rest hzip =>
      have hrank : (first :: rest).Pairwise (fun a b => a.2 < b.2) := by
        have hpositions : (cells.zipIdx.map Prod.snd).Pairwise (· < ·) := by
          rw [List.zipIdx_map_snd]
          exact List.pairwise_lt_range'
        rw [hzip] at hpositions
        exact List.pairwise_map.mp hpositions
      have hfavours :=
        @firstMin_favours_iff _ (fun e => e.1.getClientSize) (fun e => e.2)
          first rest hrank (fun e => e.1.phase = .running)
      rw [firstMin_self] at hmin
      have hchosen := Option.some.inj hmin
      rw [hchosen, ← hzip] at hfavours
      exact hfavours

theorem minCell_eq_none_iff (cells : List Cell) :
    minCell cells = none ↔ cells = [] := by
  rw [minCell, ← List.zipIdx_eq_nil_iff]
  split
  · next hzip =>
      exact ⟨fun _ => hzip, fun _ => rfl⟩
  · next hzip =>
      rw [hzip]
      simp

/-- One step hands its client to a running cell exactly when one comes first. -/
theorem handsToRunning_iff
    (codec : Codec) (s : Server) (e : ServerEvent) :
    HandsToRunning codec s e ↔ RunningFirst s e := by
  cases e with
  | join | recv | selectError | stop | destroy | tick =>
      exact Iff.rfl
  | accept sockfd =>
      simp only [HandsToRunning, RunningFirst, Server.step]
      by_cases hvalid : sockfd = INVALID_SOCKET
      · rw [Server.accept, if_pos hvalid]
        constructor
        · intro _ hne
          exact absurd hvalid hne
        · intro _ i hhands
          exact absurd hhands (not_handsTo_self s i)
      · cases hmin : minCell s.cells with
        | none =>
            have hnil := (minCell_eq_none_iff s.cells).mp hmin
            rw [hnil]
            constructor
            · intro _ _ hrunning
              obtain ⟨cell, hmem, -⟩ := hrunning
              cases hmem
            · intro _ i _ hrunning
              obtain ⟨cell, hmem, -⟩ := hrunning
              cases hmem
        | some chosen =>
            obtain ⟨cell, k⟩ := chosen
            have hcell := minCell_mem hmin
            have hiff := minCell_running_iff hmin
            have hhands : ∀ i, HandsTo s (s.accept sockfd) i ↔ i = k := by
              intro i
              rw [handsTo_accept_iff s hvalid, hmin]
              constructor
              · rintro ⟨cell', h⟩
                cases h
                rfl
              · rintro rfl
                exact ⟨cell, rfl⟩
            constructor
            · intro h _
              refine hiff.mp ?_
              intro hrunning
              obtain ⟨cell', hcell', hrun⟩ :=
                h k ((hhands k).mpr rfl) hrunning
              rw [hcell] at hcell'
              cases hcell'
              exact hrun
            · intro h i hi hrunning
              obtain rfl := (hhands i).mp hi
              exact ⟨cell, hcell, hiff.mpr (h hvalid) hrunning⟩

/--
Throughout a run clients are handed to running cells, as long as there are any,
exactly when at every accept a running cell comes before the ended ones.
-/
theorem handsToRunning_run_iff
    (codec : Codec) (threadCount : Nat) (events : List ServerEvent) :
    Machine.Along (Server.step codec)
        (fun s _ e => HandsToRunning codec s e)
        (Server.start threadCount) events ↔
      Machine.Along (Server.step codec) (fun s _ e => RunningFirst s e)
        (Server.start threadCount) events := by
  simp only [handsToRunning_iff]

/-- A cell whose select failed is empty and gets the next client. -/
theorem not_handsToRunning :
    ¬ ∀ (codec : Codec) (threadCount : Nat) (events : List ServerEvent),
      1 ≤ threadCount →
      Machine.Along (Server.step codec)
        (fun s _ e => HandsToRunning codec s e)
        (Server.start threadCount) events := by
  intro h
  have hhands := h plainCodec 2
    [.accept 4, .accept 5, .join 0, .join 1, .selectError 0, .accept 6]
    (by omega) [.accept 4, .accept 5, .join 0, .join 1, .selectError 0]
    (.accept 6) [] rfl
  have hfirst : HandsTo
      (Server.run plainCodec 2
        [.accept 4, .accept 5, .join 0, .join 1, .selectError 0]).1
      (Server.run plainCodec 2
        [.accept 4, .accept 5, .join 0, .join 1, .selectError 0,
          .accept 6]).1 0 :=
    ⟨_, ⟨2, 6⟩, rfl, rfl⟩
  obtain ⟨cell, hcell, hrun⟩ := hhands 0 hfirst
    ⟨_, List.mem_of_getElem? (i := 1) rfl, rfl⟩
  cases hcell
  cases hrun

end Choice

end LockStep
end NetEngine
