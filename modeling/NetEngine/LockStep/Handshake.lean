import NetEngine.LockStep.FrameHistory
import NetEngine.Unity.FrameExecution
import NetEngine.Unity.Sights

/-!
# The frame handshake

`HandleLogin` tells a client the current frame, and the client executes an
SCFrame when its number is the one it waits for.  The server's current frame is
the one built last, except before the first turn, when it is the one built next.
So a client that logs in before the first turn executes every frame, and one
that logs in later waits for a frame that has passed: `handshake_iff`.
-/

namespace NetEngine
namespace LockStep

open Unity

section Server

/-- What an SCFrameInit says about the frames built before it. -/
def InitNumbered (tr : List Observation) : Observation → Prop
  | .send _ (.SCFrameInit init) =>
      init.curframeid = UInt64.ofNat ((framesBuilt tr).length - 1)
  | _ => True

/-- Every SCFrameInit of a trace names the frame built last before it. -/
def InitsNumbered (tr : List Observation) : Prop :=
  ∀ before o after, tr = before ++ o :: after → InitNumbered before o

theorem initsNumbered_concat
    {tr : List Observation} {o : Observation}
    (htr : InitsNumbered tr) (ho : InitNumbered tr o) :
    InitsNumbered (tr ++ [o]) :=
  Machine.Traced.concat htr ho

/-- Observations among which there is no SCFrameInit. -/
theorem initsNumbered_append
    {tr out : List Observation} (htr : InitsNumbered tr)
    (hout : ∀ o ∈ out, ∀ tr', InitNumbered tr' o) :
    InitsNumbered (tr ++ out) :=
  Machine.Traced.append htr hout

theorem initsNumbered_move
    {w w' : World} {tr out : List Observation}
    (hnumbers : NumberingInv w tr) (htr : InitsNumbered tr)
    (hmove : Move w out w') :
    InitsNumbered (tr ++ out) := by
  cases hmove with
  | idle | push =>
      simpa using htr
  | join | exit | ignore | readyEarly | ready | start | frame =>
      exact initsNumbered_append htr (by simp [InitNumbered])
  | turn =>
      exact initsNumbered_append htr
        (by simp [InitNumbered, World.frameTurn, World.broadcast])
  | login client body player hfind huuid =>
      have hfirst : InitsNumbered (tr ++
          [.read client body, .accepted client.sockfd 0 .CSLogin,
            .send player.client (.SCLogin (w.uuidCounter + 1))]) :=
        initsNumbered_append htr (by simp [InitNumbered])
      have hinit : InitNumbered (tr ++
          [.read client body, .accepted client.sockfd 0 .CSLogin,
            .send player.client (.SCLogin (w.uuidCounter + 1))])
          (.send player.client
            (.SCFrameInit ⟨w.curFrameID, w.nxtFrameID⟩)) := by
        have hnone : framesBuilt
            [.read client body, .accepted client.sockfd 0 .CSLogin,
              .send player.client (.SCLogin (w.uuidCounter + 1))] =
              [] := rfl
        show w.curFrameID = _
        rw [framesBuilt_append, hnone, List.append_nil]
        exact hnumbers.cur
      have hsight : ∀ o ∈ (w.login client.sockfd player).sendLoginInfo,
          ∀ tr', InitNumbered tr' o := by
        simp [InitNumbered, World.sendLoginInfo, World.broadcast]
      have hall :=
        initsNumbered_append (initsNumbered_concat hfirst hinit) hsight
      simpa [World.frameInit] using hall

theorem initsNumbered_run (codec : Codec) (events : List WorldEvent) :
    InitsNumbered (World.run codec events).2 := by
  have hboth :
      NumberingInv (World.run codec events).1 (World.run codec events).2 ∧
        InitsNumbered (World.run codec events).2 := by
    refine run_invariant_of_all_moves
      (I := fun w tr => NumberingInv w tr ∧ InitsNumbered tr) ?_ ?_ events
    · exact ⟨numberingInv_init, by simp [InitsNumbered]⟩
    · rintro w tr out w' hmove ⟨hnumbers, htr⟩
      exact ⟨hnumbers.move hmove, initsNumbered_move hnumbers htr hmove⟩
  exact hboth.2

end Server

section Client

/-- SCFrames among the events of a client. -/
def framesReceived (events : List SceneEvent) : List SCFrame :=
  events.filterMap (fun e =>
    match e with
    | .receive (.SCFrame frame) => some frame
    | _ => none)

variable {τ : Type} (engine : Engine τ)

/-- An instance finds each SCFrame of a run to be the one it waits for. -/
def ExecutesAll (i : PlayerRef) (s : Scene τ) (events : List SceneEvent) :
    Prop :=
  Machine.Along (Scene.step engine)
    (fun s _ e => ∀ frame, e = .receive (.SCFrame frame) →
      s.frameAt i = some frame.frameid)
    s events

/-- Each frame is the one that the frame before it names next. -/
def Chained : UInt64 → List SCFrame → Prop
  | _, [] => True
  | c, frame :: frames =>
      frame.frameid = c ∧ Chained frame.nextframeid frames

/-- An instance that waits for the first of a chain executes all of it. -/
theorem executesAll_of_chained
    {i : PlayerRef} {events : List SceneEvent}
    (hinit : ∀ init, .receive (.SCFrameInit init) ∉ events)
    (husers : ∀ frame ∈ framesReceived events,
      (frame.users.map (fun user => user.uuid)).Nodup)
    {s : Scene τ} {c : UInt64} (hwait : s.frameAt i = some c)
    (hchain : Chained c (framesReceived events)) :
    ExecutesAll engine i s events := by
  induction events generalizing s c with
  | nil =>
      exact Machine.Along.nil _ _
  | cons e events ih =>
      have hinit' : ∀ init, .receive (.SCFrameInit init) ∉ events :=
        fun init hmem => hinit init (List.mem_cons_of_mem _ hmem)
      cases e with
      | receive msg =>
          cases msg with
          | SCLogin uuid =>
              refine Machine.Along.cons (by simp) ?_
              exact ih hinit' husers
                (Scene.keepsFrames_onLogin engine uuid s i c hwait) hchain
          | SCSight infos =>
              refine Machine.Along.cons (by simp) ?_
              exact ih hinit' husers
                (Scene.keepsFrames_onSight engine infos s i c hwait) hchain
          | SCFrameInit init =>
              exact absurd List.mem_cons_self (hinit init)
          | SCFrame frame =>
              obtain ⟨hid, hchain'⟩ : frame.frameid = c ∧
                  Chained frame.nextframeid (framesReceived events) :=
                hchain
              have hframes :
                  framesReceived (.receive (.SCFrame frame) :: events) =
                    frame :: framesReceived events := rfl
              rw [hframes] at husers
              refine Machine.Along.cons ?_ ?_
              · intro frame' heq
                cases heq
                rw [hid]
                exact hwait
              · exact ih hinit'
                  (fun f hf => husers f (List.mem_cons_of_mem _ hf))
                  (Scene.frameAt_onFrame engine
                    (husers frame List.mem_cons_self) hwait)
                  hchain'
      | fixedUpdate j connected w s' a d =>
          refine Machine.Along.cons (by simp) ?_
          exact ih hinit' husers
            (Scene.keepsFrames_fixedUpdate j connected w s' a d s i c hwait)
            hchain

/-- Numbered frames are chained. -/
theorem chained_of_numbered
    {frames : List SCFrame} {n : Nat}
    (h : ∀ k frame, frames[k]? = some frame →
      frame.frameid = UInt64.ofNat (n + k) ∧
        frame.nextframeid = UInt64.ofNat (n + k + 1)) :
    Chained (UInt64.ofNat n) frames := by
  induction frames generalizing n with
  | nil =>
      trivial
  | cons frame frames ih =>
      obtain ⟨hid, hnext⟩ := h 0 frame rfl
      refine ⟨hid, ?_⟩
      rw [hnext]
      refine ih (fun k frame' hget => ?_)
      have hk := h (k + 1) frame' hget
      rwa [show n + (k + 1) = n + 0 + 1 + k by omega] at hk

end Client

section Handshake

/--
The next SCFrame after an SCFrameInit is the one it names, and every instance
that handles the SCFrameInit and then these frames, whatever else it handles,
executes them all.
-/
def HandshakeHolds (init : SCFrameInit) (frames : List SCFrame) : Prop :=
  (∀ frame, frames.head? = some frame →
    frame.frameid = init.curframeid) ∧
  ∀ (τ : Type) (engine : Engine τ) (s : Scene τ) (i : PlayerRef)
    (events : List SceneEvent),
    i < s.players.length →
    (∀ init', .receive (.SCFrameInit init') ∉ events) →
    framesReceived events = frames →
    ExecutesAll engine i (s.onFrameInit init) events

/-- The handshake holds when the frames are chained to the one it names. -/
theorem HandshakeHolds.of_chained
    {init : SCFrameInit} {frames : List SCFrame}
    (hchain : Chained init.curframeid frames)
    (husers : ∀ frame ∈ frames,
      (frame.users.map (fun user => user.uuid)).Nodup) :
    HandshakeHolds init frames := by
  constructor
  · intro frame hhead
    cases frames with
    | nil =>
        cases hhead
    | cons first frames =>
        cases hhead
        exact hchain.1
  · intro τ engine s i events hi hinit hframes
    have hwait : (s.onFrameInit init).frameAt i = some init.curframeid := by
      simp [Scene.frameAt, Scene.onFrameInit, Player.onFrameInit, hi]
    exact executesAll_of_chained engine hinit
      (hframes.symm ▸ husers) hwait (hframes.symm ▸ hchain)

/-- Frames built after a part of a trace are numbered from where it stopped. -/
theorem numbered_after
    (codec : Codec) (events : List WorldEvent)
    {before after : List Observation} {o : Observation}
    (ho : framesBuilt [o] = [])
    (htrace : (World.run codec events).2 = before ++ o :: after) :
    ∀ k frame, (framesBuilt after)[k]? = some frame →
      frame.frameid =
          UInt64.ofNat ((framesBuilt before).length + k) ∧
        frame.nextframeid =
          UInt64.ofNat ((framesBuilt before).length + k + 1) := by
  intro k frame hget
  have hbuilt : framesBuilt (World.run codec events).2 =
      framesBuilt before ++ framesBuilt after := by
    rw [htrace, framesBuilt_append, ← List.singleton_append (x := o),
      framesBuilt_append, ho]
    rfl
  apply (numberingInv_run codec events).ids
  rw [hbuilt, List.getElem?_append_right (by omega)]
  simpa using hget

/-- No frame of a run names a user twice. -/
theorem usersNodup_run
    (codec : Codec) (events : List WorldEvent) {frame : SCFrame}
    (hframe : frame ∈ framesBuilt (World.run codec events).2) :
    (frame.users.map (fun user => user.uuid)).Nodup := by
  have husers := (keysInv_run codec events).users frame hframe
  exact List.Pairwise.imp
    (fun hlt heq => by rw [heq] at hlt; exact Std.lt_irrefl hlt)
    (List.pairwise_map.mpr husers.increasing)

/-- Consecutive numbers differ in any word size. -/
theorem ofNat_succ_ne (n : Nat) :
    UInt64.ofNat (n + 1) ≠ UInt64.ofNat n := by
  intro h
  have htoNat := congrArg UInt64.toNat h
  simp only [UInt64.toNat_ofNat'] at htoNat
  omega

/--
The handshake of a login holds exactly when no frame was built before the login,
or none is built after it.
-/
theorem handshake_iff
    (codec : Codec) (events : List WorldEvent)
    {before after : List Observation} {client : Client}
    {init : SCFrameInit}
    (htrace : (World.run codec events).2 =
      before ++ .send client (.SCFrameInit init) :: after) :
    HandshakeHolds init (framesBuilt after) ↔
      framesBuilt before = [] ∨ framesBuilt after = [] := by
  have hcur : init.curframeid =
      UInt64.ofNat ((framesBuilt before).length - 1) :=
    initsNumbered_run codec events before _ after htrace
  have hafter := numbered_after codec events rfl htrace
  constructor
  · rintro ⟨hfirst, -⟩
    by_contra hboth
    obtain ⟨hbefore, hne⟩ := not_or.mp hboth
    obtain ⟨frame, frames, hframes⟩ := List.exists_cons_of_ne_nil hne
    obtain ⟨n, hn⟩ : ∃ n, (framesBuilt before).length = n + 1 :=
      Nat.exists_eq_succ_of_ne_zero
        (fun h => hbefore (List.eq_nil_of_length_eq_zero h))
    have hid := (hafter 0 frame (by rw [hframes]; rfl)).1
    have hsame := hfirst frame (by rw [hframes]; rfl)
    rw [hid, hcur, hn] at hsame
    exact ofNat_succ_ne n hsame
  · rintro (hbefore | hnone)
    · apply HandshakeHolds.of_chained
      · rw [hbefore] at hcur hafter
        rw [hcur]
        exact chained_of_numbered hafter
      · intro frame hframe
        refine usersNodup_run codec events ?_
        rw [htrace, framesBuilt_append]
        exact List.mem_append_right _ hframe
    · rw [hnone]
      exact HandshakeHolds.of_chained trivial (by simp)

/-- Trace of a player who logs in, starts the game and sees one frame. -/
def soloTrace : List Observation :=
  (World.run plainCodec (soloGame ⟨0, 4⟩ ++ [turnTick])).2

theorem handshake_iff_solo :
    HandshakeHolds ⟨0, 0⟩ (framesBuilt (soloTrace.drop 5)) :=
  (@handshake_iff plainCodec (soloGame ⟨0, 4⟩ ++ [turnTick])
    (soloTrace.take 4) (soloTrace.drop 5) ⟨0, 4⟩ ⟨0, 0⟩ rfl).mpr
    (Or.inl (by decide))

/-- Trace of a second player who logs in after the first frame. -/
def lateTrace : List Observation :=
  (World.run plainCodec
    (soloGame ⟨0, 4⟩ ++ turnTick :: joins ⟨1, 5⟩ ++ [turnTick])).2

/-- A player that logs in after frame 0 is told to wait for it. -/
theorem handshake_fails :
    ¬ ∀ (codec : Codec) (events : List WorldEvent)
        (before after : List Observation) (client : Client)
        (init : SCFrameInit),
      (World.run codec events).2 =
        before ++ .send client (.SCFrameInit init) :: after →
      HandshakeHolds init (framesBuilt after) := by
  intro h
  have hholds := h plainCodec
    (soloGame ⟨0, 4⟩ ++ turnTick :: joins ⟨1, 5⟩ ++ [turnTick])
    (lateTrace.take 14) (lateTrace.drop 15) ⟨1, 5⟩ ⟨0, 1⟩ rfl
  have hid := hholds.1 ⟨1, 2, []⟩ (by decide)
  exact absurd hid (by decide)

end Handshake

end LockStep
end NetEngine
