import NetEngine.LockStep.Reception

/-!
# Start of the game

`HandleReady` starts the game when a counter equals the number of sessions.
The counter counts ready messages of logged-in players; it is never lowered and
does not ask whose messages they are.

The players are followed through the trace instead: who sent a CSReady since
joining, and who sent one that was counted.  While nobody is counted twice and
nobody counted leaves, the counter is the number of counted players, and a start
means that everybody is ready.  The other direction, that a room of ready
players has started, needs more: the comparison is made by `HandleReady` alone,
so nobody may leave behind a room in which all are ready.
-/

namespace NetEngine
namespace LockStep

open Net

section Players

/-- Whether something was observed since a player joined at a socket. -/
def sinceJoin (fd : SOCKET) (p : Observation → Bool)
    (tr : List Observation) : Bool :=
  tr.foldl
    (fun seen o =>
      match o with
      | .joined client => seen && client.sockfd ≠ fd
      | _ => seen || p o)
    false

/-- A CSReady of the player at a socket. -/
def isReady (fd : SOCKET) : Observation → Bool
  | .accepted fd' _ .CSReady => fd' = fd
  | _ => false

/-- A CSReady of the player at a socket that raised the counter. -/
def isCounted (fd : SOCKET) : Observation → Bool
  | .accepted fd' uuid .CSReady => fd' = fd && uuid ≠ 0
  | _ => false

/-- The player at a socket had a CSReady dispatched since it joined. -/
def readied (fd : SOCKET) (tr : List Observation) : Bool :=
  sinceJoin fd (isReady fd) tr

/-- The player at a socket had a CSReady counted since it joined. -/
def counted (fd : SOCKET) (tr : List Observation) : Bool :=
  sinceJoin fd (isCounted fd) tr

/-- Observations that concern nobody's being ready. -/
def Unrelated (out : List Observation) : Prop :=
  ∀ o ∈ out, ∀ fd, isReady fd o = false ∧ ∀ client, o ≠ .joined client

theorem sinceJoin_joined
    (fd : SOCKET) (p : Observation → Bool) (tr : List Observation)
    (client : Client) :
    sinceJoin fd p (tr ++ [.joined client]) =
      (sinceJoin fd p tr && client.sockfd ≠ fd) := by
  simp [sinceJoin]

theorem sinceJoin_concat
    (fd : SOCKET) (p : Observation → Bool) (tr : List Observation)
    {o : Observation} (ho : ∀ client, o ≠ .joined client) :
    sinceJoin fd p (tr ++ [o]) = (sinceJoin fd p tr || p o) := by
  cases o with
  | joined client =>
      exact absurd rfl (ho client)
  | exited | read | accepted | running | send | broadcast =>
      simp [sinceJoin]

/-- A counted message is a ready message. -/
theorem isReady_of_isCounted
    {fd : SOCKET} {o : Observation} (h : isCounted fd o = true) :
    isReady fd o = true := by
  unfold isCounted at h
  split at h
  · simp only [isReady]
    exact (Bool.and_eq_true_iff.mp h).1
  · cases h

/-- Observations that are not looked for change nothing, joins apart. -/
theorem sinceJoin_append
    (fd : SOCKET) {p : Observation → Bool} (tr : List Observation)
    {out : List Observation}
    (hout : ∀ o ∈ out, p o = false ∧ ∀ client, o ≠ .joined client) :
    sinceJoin fd p (tr ++ out) = sinceJoin fd p tr := by
  induction out using List.reverseRecOn with
  | nil =>
      simp
  | append_singleton out o ih =>
      obtain ⟨hp, hjoin⟩ := hout o (by simp)
      rw [← List.append_assoc, sinceJoin_concat fd _ _ hjoin, hp,
        Bool.or_false]
      exact ih (fun o' ho' => hout o' (by simp [ho']))

theorem readied_unrelated
    (fd : SOCKET) (tr : List Observation) {out : List Observation}
    (hout : Unrelated out) :
    readied fd (tr ++ out) = readied fd tr :=
  sinceJoin_append fd tr (fun o ho => hout o ho fd)

theorem counted_unrelated
    (fd : SOCKET) (tr : List Observation) {out : List Observation}
    (hout : Unrelated out) :
    counted fd (tr ++ out) = counted fd tr := by
  refine sinceJoin_append fd tr (fun o ho => ⟨?_, (hout o ho fd).2⟩)
  have hready := (hout o ho fd).1
  cases h : isCounted fd o with
  | false =>
      rfl
  | true =>
      rw [isReady_of_isCounted h] at hready
      cases hready

/-- What is looked for more widely is found as well. -/
theorem sinceJoin_mono
    {fd : SOCKET} {p q : Observation → Bool} {tr : List Observation}
    (hpq : ∀ o ∈ tr, p o = true → q o = true)
    (h : sinceJoin fd p tr = true) :
    sinceJoin fd q tr = true := by
  induction tr using List.reverseRecOn with
  | nil =>
      exact h
  | append_singleton tr o ih =>
      have htr : ∀ o' ∈ tr, p o' = true → q o' = true :=
        fun o' ho' => hpq o' (List.mem_append_left _ ho')
      by_cases hjoin : ∃ client, o = .joined client
      · obtain ⟨client, rfl⟩ := hjoin
        rw [sinceJoin_joined, Bool.and_eq_true_iff] at h ⊢
        exact ⟨ih htr h.1, h.2⟩
      · have hother : ∀ client, o ≠ .joined client :=
          fun client ho => hjoin ⟨client, ho⟩
        rw [sinceJoin_concat fd _ _ hother, Bool.or_eq_true_iff] at h ⊢
        rcases h with h | h
        · exact Or.inl (ih htr h)
        · exact Or.inr (hpq o (by simp) h)

/-- Whoever was counted has been ready. -/
theorem readied_of_counted
    {fd : SOCKET} {tr : List Observation} (h : counted fd tr = true) :
    readied fd tr = true :=
  sinceJoin_mono (fun _ _ => isReady_of_isCounted) h

theorem counted_of_not_readied
    {fd : SOCKET} {tr : List Observation} (h : readied fd tr = false) :
    counted fd tr = false := by
  cases hc : counted fd tr with
  | false =>
      rfl
  | true =>
      rw [readied_of_counted hc] at h
      cases h

end Players

section Counter

/--
What is asked of the players: a counted player sends no further ready message
and does not leave.
-/
def FairReady (tr : List Observation) : Observation → Prop
  | .accepted fd uuid .CSReady => uuid ≠ 0 → counted fd tr = false
  | .exited client => counted client.sockfd tr = false
  | _ => True

instance (tr : List Observation) : DecidablePred (FairReady tr) := fun o =>
  match o with
  | .accepted fd uuid .CSReady =>
      inferInstanceAs (Decidable (uuid ≠ 0 → counted fd tr = false))
  | .accepted _ _ .CSLogin => .isTrue trivial
  | .accepted _ _ (.CSFrame _) => .isTrue trivial
  | .exited client =>
      inferInstanceAs (Decidable (counted client.sockfd tr = false))
  | .joined _ => .isTrue trivial
  | .read _ _ => .isTrue trivial
  | .running => .isTrue trivial
  | .send _ _ => .isTrue trivial
  | .broadcast _ _ => .isTrue trivial

/-- The counter is the number of counted players, who are all logged in. -/
structure CountInv (w : World) (tr : List Observation) : Prop where
  count : w.readyCount =
    UInt32.ofNat (w.sessions.countKeys (fun fd => counted fd tr))
  uuid : ∀ fd player, w.getUser fd = some player →
    counted fd tr = true → player.UUID ≠ 0

/-- A player who has yet to log in is not counted. -/
theorem CountInv.not_counted
    {w : World} {tr : List Observation} (h : CountInv w tr)
    {fd : SOCKET} {player : Player} (hfind : w.getUser fd = some player)
    (huuid : player.UUID = 0) :
    counted fd tr = false := by
  cases hc : counted fd tr with
  | false =>
      rfl
  | true =>
      exact absurd huuid (h.uuid fd player hfind hc)

theorem CountInv.quiet
    {w w' : World} {tr out : List Observation} (h : CountInv w tr)
    (hout : ∀ fd, counted fd (tr ++ out) = counted fd tr)
    (hsessions : w'.sessions = w.sessions)
    (hcount : w'.readyCount = w.readyCount) :
    CountInv w' (tr ++ out) := by
  constructor
  · simp only [hout]
    rw [hcount, hsessions]
    exact h.count
  · intro fd player hfind hcounted
    rw [hout] at hcounted
    refine h.uuid fd player ?_ hcounted
    rw [World.getUser, ← hsessions]
    exact hfind

theorem CountInv.join
    {w : World} {tr : List Observation} (h : CountInv w tr)
    (client : Client) (hnew : w.getUser client.sockfd = none) :
    CountInv (w.registerUser client) (tr ++ [.joined client]) := by
  have hself : counted client.sockfd (tr ++ [.joined client]) = false := by
    rw [counted, sinceJoin_joined]
    simp
  have hother : ∀ fd, fd ≠ client.sockfd →
      counted fd (tr ++ [.joined client]) = counted fd tr := by
    intro fd hne
    rw [counted, sinceJoin_joined]
    simp [hne.symm, counted]
  constructor
  · show w.readyCount = _
    rw [h.count, World.registerUser,
      OrderedMap.countKeys_insertNew _ hnew, hself]
    congr 1
    apply OrderedMap.countKeys_congr
    intro fd hfd
    refine (hother fd ?_).symm
    rintro rfl
    exact (w.sessions.find?_eq_none_iff _).mp hnew hfd
  · intro fd player hfind hcounted
    have hne : fd ≠ client.sockfd := by
      rintro rfl
      rw [hself] at hcounted
      cases hcounted
    rw [World.getUser, World.registerUser, OrderedMap.find?_insertNew,
      if_neg hne] at hfind
    rw [hother fd hne] at hcounted
    exact h.uuid fd player hfind hcounted

theorem CountInv.exit
    {w : World} {tr : List Observation} (h : CountInv w tr)
    (client : Client) (hfair : counted client.sockfd tr = false) :
    CountInv (w.deleteUser client) (tr ++ [.exited client]) := by
  have hout : ∀ fd,
      counted fd (tr ++ [.exited client]) = counted fd tr := by
    intro fd
    exact sinceJoin_append fd tr (by simp [isCounted])
  constructor
  · simp only [hout]
    show w.readyCount = _
    rw [h.count, World.deleteUser,
      OrderedMap.countKeys_erase (p := fun fd => counted fd tr) _ hfair]
  · intro fd player hfind hcounted
    rw [hout] at hcounted
    rw [World.getUser, World.deleteUser, OrderedMap.find?_erase] at hfind
    split_ifs at hfind with hfd
    exact h.uuid fd player hfind hcounted

theorem CountInv.login
    {w : World} {tr out : List Observation} (h : CountInv w tr)
    {fd : SOCKET} {player : Player} (hfind : w.getUser fd = some player)
    (huuid : player.UUID = 0) (hout : Unrelated out) :
    CountInv (w.login fd player).pop (tr ++ out) := by
  have hcounted := h.not_counted hfind huuid
  constructor
  · simp only [counted_unrelated _ tr hout]
    show w.readyCount = _
    rw [h.count]
    simp [World.pop, World.login]
  · intro fd' player' hfind' hcounted'
    rw [counted_unrelated _ tr hout] at hcounted'
    have hne : fd' ≠ fd := by
      rintro rfl
      rw [hcounted] at hcounted'
      cases hcounted'
    refine h.uuid fd' player' ?_ hcounted'
    simpa [World.getUser, World.pop, World.login,
      OrderedMap.find?_modify, hne] using hfind'

/-- A counted ready message counts its player. -/
theorem counted_ready
    (fd' : SOCKET) (tr : List Observation) (client : Client)
    (body : MessageBody) {uuid : UInt32} (huuid : uuid ≠ 0)
    {rest : List Observation} (hrest : Unrelated rest) :
    counted fd'
        (tr ++ .read client body ::
          .accepted client.sockfd uuid .CSReady :: rest) =
      (counted fd' tr || client.sockfd = fd') := by
  have hsplit :
      tr ++ .read client body ::
          .accepted client.sockfd uuid .CSReady :: rest =
        (tr ++ [.read client body] ++
          [.accepted client.sockfd uuid .CSReady]) ++ rest := by
    simp
  rw [hsplit, counted_unrelated _ _ hrest, counted,
    sinceJoin_concat _ _ _ (by simp), sinceJoin_concat _ _ _ (by simp)]
  simp [isCounted, huuid, counted]

theorem CountInv.ready
    {w w' : World} {tr rest : List Observation} (h : CountInv w tr)
    {client : Client} {player : Player} (body : MessageBody)
    (hfind : w.getUser client.sockfd = some player)
    (huuid : player.UUID ≠ 0)
    (hfair : counted client.sockfd tr = false)
    (hrest : Unrelated rest)
    (hsessions : w'.sessions = w.sessions)
    (hcount : w'.readyCount = w.readyCount + 1) :
    CountInv w'
      (tr ++ .read client body ::
        .accepted client.sockfd player.UUID .CSReady :: rest) := by
  have hcounted := fun fd' =>
    counted_ready fd' tr client body huuid hrest
  have hmem : client.sockfd ∈ w.sessions.keys :=
    (w.sessions.mem_keys_iff _).mpr ⟨player, hfind⟩
  constructor
  · have hsucc :
        w.sessions.countKeys
            (fun fd => counted fd tr || client.sockfd = fd) =
          w.sessions.countKeys (fun fd => counted fd tr) + 1 := by
      refine OrderedMap.countKeys_succ hmem hfair (by simp) ?_
      intro fd _ hne
      simp [hne.symm]
    simp only [hcounted]
    rw [hcount, hsessions, hsucc, h.count, UInt32.ofNat_add]
    rfl
  · intro fd player' hfind' hcounted'
    rw [World.getUser, hsessions] at hfind'
    rw [hcounted, Bool.or_eq_true_iff] at hcounted'
    rcases hcounted' with hcounted' | hfd
    · exact h.uuid fd player' hfind' hcounted'
    · have hfd' : client.sockfd = fd := by simpa using hfd
      subst hfd'
      rw [World.getUser] at hfind
      rw [hfind] at hfind'
      cases hfind'
      exact huuid

/-- Every move of fair players keeps the counter right. -/
theorem CountInv.move
    {w w' : World} {tr out : List Observation} (h : CountInv w tr)
    (hmove : Move w out w') (hfair : ∀ o ∈ out, FairReady tr o) :
    CountInv w' (tr ++ out) := by
  cases hmove with
  | idle | push =>
      exact h.quiet (fun fd => by simp) rfl rfl
  | join client hnew =>
      exact h.join client hnew
  | exit client player hold =>
      have hleave : FairReady tr (.exited client) := hfair _ (by simp)
      exact h.exit client hleave
  | ignore client body =>
      exact h.quiet
        (fun fd => counted_unrelated fd tr (by simp [Unrelated, isReady]))
        rfl rfl
  | login client body player hfind huuid =>
      refine h.login hfind huuid ?_
      simp [Unrelated, isReady, World.frameInit, World.sendLoginInfo,
        World.broadcast]
  | readyEarly client body player hfind huuid =>
      exact h.quiet
        (fun fd => sinceJoin_append fd tr (by simp [isCounted])) rfl rfl
  | ready client body player hfind huuid hwait =>
      have hsend :
          FairReady tr (.accepted client.sockfd player.UUID .CSReady) :=
        hfair _ (by simp)
      exact h.ready body hfind huuid (hsend huuid) (by simp [Unrelated]) rfl rfl
  | start client body player hfind huuid hall =>
      have hsend :
          FairReady tr (.accepted client.sockfd player.UUID .CSReady) :=
        hfair _ (by simp)
      exact h.ready body hfind huuid (hsend huuid)
        (by simp [Unrelated, isReady]) rfl rfl
  | frame client body player proto hfind =>
      exact h.quiet
        (fun fd => counted_unrelated fd tr (by simp [Unrelated, isReady]))
        rfl rfl
  | turn hrun =>
      exact h.quiet
        (fun fd => counted_unrelated fd tr
          (by simp [Unrelated, isReady, World.frameTurn, World.broadcast]))
        rfl rfl

theorem countInv_init :
    CountInv {} [] := by
  constructor
  · rfl
  · intro fd player hfind
    cases hfind

/-- Sockets have 32 bits. -/
theorem sessions_size_le (w : World) :
    w.sessions.size ≤ 2 ^ 32 := by
  refine OrderedMap.size_le_of_injective
    (f := fun fd : SOCKET => fd.toUInt32.toNat) ?_ ?_ w.sessions
  · intro a b hab
    cases a
    cases b
    exact congrArg Int32.ofUInt32 (UInt32.toNat_inj.mp hab)
  · intro fd
    exact fd.toUInt32.toNat_lt

/-- If somebody is counted, a full counter has counted everybody. -/
theorem CountInv.all_counted
    {w : World} {tr : List Observation} (h : CountInv w tr)
    (hall : w.readyCount = w.getUserSize)
    {fd : SOCKET} (hmem : fd ∈ w.sessions.keys)
    (hcounted : counted fd tr = true) :
    ∀ fd' ∈ w.sessions.keys, counted fd' tr = true := by
  have hle := OrderedMap.countKeys_le_size
    (fun fd => counted fd tr) w.sessions
  have hsize := sessions_size_le w
  have hpos : 0 < w.sessions.countKeys (fun fd => counted fd tr) :=
    List.countP_pos_iff.mpr ⟨fd, hmem, hcounted⟩
  have hmod :
      w.sessions.countKeys (fun fd => counted fd tr) % 2 ^ 32 =
        w.sessions.size % 2 ^ 32 := by
    have heq := congrArg UInt32.toNat (h.count.symm.trans hall)
    simpa [World.getUserSize] using heq
  apply (OrderedMap.countKeys_eq_size_iff _ _).mp
  omega

/-- While the counter is not full somebody is not counted. -/
theorem CountInv.exists_not_counted
    {w : World} {tr : List Observation} (h : CountInv w tr)
    (hwait : w.readyCount ≠ w.getUserSize) :
    ∃ fd ∈ w.sessions.keys, counted fd tr = false := by
  by_contra hnone
  apply hwait
  have hall : ∀ fd ∈ w.sessions.keys, counted fd tr = true := by
    intro fd hfd
    cases hc : counted fd tr with
    | false =>
        exact absurd ⟨fd, hfd, hc⟩ hnone
    | true =>
        rfl
  rw [h.count, (OrderedMap.countKeys_eq_size_iff _ _).mpr hall,
    World.getUserSize]

end Counter

section Soundness

/-- Every player in the sessions is logged in and ready. -/
def AllReady (w : World) (tr : List Observation) : Prop :=
  ∀ e ∈ w.sessions.entries, e.2.UUID ≠ 0 ∧ readied e.1 tr = true

/-- A step of fair players. -/
def FairStep (codec : Codec) (w : World) (tr : List Observation)
    (e : WorldEvent) : Prop :=
  ∀ o ∈ (w.step codec e).2, FairReady tr o

instance (codec : Codec) (w : World) (tr : List Observation)
    (e : WorldEvent) : Decidable (FairStep codec w tr e) :=
  inferInstanceAs (Decidable (∀ o ∈ (w.step codec e).2, FairReady tr o))

/-- If a step starts the game, then all players are ready. -/
def StartsReady (codec : Codec) (w : World) (tr : List Observation)
    (e : WorldEvent) : Prop :=
  .running ∈ (w.step codec e).2 → AllReady w (tr ++ (w.step codec e).2)

theorem countInv_run
    {codec : Codec} {events : List WorldEvent}
    (hfair : Machine.Along (World.step codec) (FairStep codec) {} events) :
    CountInv (World.run codec events).1 (World.run codec events).2 := by
  refine run_invariant_of_moves
    (G := fun _ tr out => ∀ o ∈ out, FairReady tr o)
    countInv_init ?_ ?_ ?_ hfair
  · intro w tr out₁ out₂ hout o ho
    exact hout o (List.mem_append_left _ ho)
  · intro w tr out w' hturn o ho
    obtain ⟨clients, frame, rfl⟩ := hturn.broadcasts ho
    trivial
  · intro w tr out w' hmove hout h
    exact h.move hmove hout

/-- Only a full counter starts the game, and then everybody is ready. -/
theorem CountInv.allReady_of_start
    {w w' : World} {tr out : List Observation} (h : CountInv w tr)
    (hmove : Move w out w') (hfair : ∀ o ∈ out, FairReady tr o)
    (hrun : .running ∈ out) :
    AllReady w (tr ++ out) := by
  have hafter := h.move hmove hfair
  cases hmove with
  | idle | push | join | exit | ignore | readyEarly | ready | frame =>
      simp at hrun
  | login =>
      simp [World.frameInit, World.sendLoginInfo, World.broadcast] at hrun
  | turn =>
      simp [World.frameTurn, World.broadcast] at hrun
  | start client body player hfind huuid hall =>
      have hmem : client.sockfd ∈ w.sessions.keys :=
        (w.sessions.mem_keys_iff _).mpr ⟨player, hfind⟩
      have hrest : Unrelated [.running] := by
        simp [Unrelated, isReady]
      have hself := counted_ready client.sockfd tr client body huuid hrest
      rw [decide_eq_true rfl, Bool.or_true] at hself
      have hcounted := hafter.all_counted hall hmem hself
      rintro ⟨fd, player'⟩ hentry
      have hfind' : w.getUser fd = some player' :=
        (w.sessions.mem_entries_iff _ _).mp hentry
      have hfd := hcounted fd (List.mem_map_of_mem hentry)
      exact ⟨hafter.uuid fd player' hfind' hfd, readied_of_counted hfd⟩

/--
In a run of fair players every step that starts the game is taken when all
players are logged in and have sent a CSReady since they joined; the messages
accepted are those that the events call for.
-/
theorem start_sound
    (codec : Codec) (events : List WorldEvent)
    (hfair : Machine.Along (World.step codec) (FairStep codec) {} events) :
    Machine.Along (World.step codec) (StartsReady codec) {} events ∧
      acceptances (World.run codec events).2 =
        Reception.accepted codec events := by
  refine ⟨?_, acceptances_run codec events⟩
  rintro before e after rfl hrun
  have hinv := countInv_run hfair.of_append
  have hstep := hfair before e after rfl
  obtain ⟨w₁, out₁, out₂, h₁, h₂, hout⟩ :=
    step_moves codec (World.run codec before).1 e
  rw [FairStep] at hstep
  rw [World.run] at hout hinv h₁
  rw [hout] at hrun hstep ⊢
  have hfair₁ : ∀ o ∈ out₁, FairReady _ o :=
    fun o ho => hstep o (List.mem_append_left _ ho)
  have hrun₁ : .running ∈ out₁ := by
    rcases List.mem_append.mp hrun with hrun | hrun
    · exact hrun
    · obtain ⟨clients, frame, heq⟩ := h₂.broadcasts hrun
      cases heq
  have hall := hinv.allReady_of_start h₁ hfair₁ hrun₁
  have hout₂ : Unrelated out₂ := by
    intro o ho fd
    obtain ⟨clients, frame, rfl⟩ := h₂.broadcasts ho
    simp [isReady]
  intro entry hentry
  obtain ⟨huuid, hready⟩ := hall entry hentry
  rw [← List.append_assoc, readied_unrelated _ _ hout₂]
  exact ⟨huuid, hready⟩

/-- Two players join, log in and are ready; the second ready starts. -/
def twoPlayers : List WorldEvent :=
  joins ⟨0, 4⟩ ++ joins ⟨1, 5⟩ ++ dispatched ⟨0, 4⟩ .ECSReady [] ++
    dispatched ⟨1, 5⟩ .ECSReady []

theorem start_sound_two_players :
    Machine.Along (World.step plainCodec) (StartsReady plainCodec) {}
        twoPlayers ∧
      acceptances (World.run plainCodec twoPlayers).2 =
        Reception.accepted plainCodec twoPlayers :=
  start_sound plainCodec _ (by decide)

/--
One player is ready twice while another has not logged in: the second message
starts the game.
-/
theorem start_not_sound :
    ¬ ∀ (codec : Codec) (events : List WorldEvent),
      Machine.Along (World.step codec) (StartsReady codec) {} events := by
  intro h
  have hstep := h plainCodec
    (joins ⟨0, 4⟩ ++ .registerUser ⟨1, 5⟩ ::
      dispatched ⟨0, 4⟩ .ECSReady [] ++ dispatched ⟨0, 4⟩ .ECSReady [])
    (joins ⟨0, 4⟩ ++ .registerUser ⟨1, 5⟩ ::
      dispatched ⟨0, 4⟩ .ECSReady [] ++ [.pushMsg ⟨0, 4⟩ 0])
    (.tick (fun _ => clientBody .ECSReady []) false) [] rfl
  have hall := hstep (.tail _ (.tail _ (.head _)))
  have hentry := hall (5, { client := ⟨1, 5⟩ }) (by decide)
  exact hentry.1 rfl

end Soundness

section Completeness

instance (w : World) (tr : List Observation) : Decidable (AllReady w tr) :=
  inferInstanceAs (Decidable
    (∀ e ∈ w.sessions.entries, e.2.UUID ≠ 0 ∧ readied e.1 tr = true))

/--
What is asked of the players before the game starts: each sends one CSReady,
after its login, and nobody leaves who is ready or whom only ready players
outstay.
-/
def FairWait (w : World) (tr : List Observation) : Observation → Prop
  | .accepted fd uuid .CSReady => uuid ≠ 0 ∧ readied fd tr = false
  | .exited client =>
      readied client.sockfd tr = false ∧
        ((w.deleteUser client).sessions.keys ≠ [] →
          ¬ AllReady (w.deleteUser client) tr)
  | _ => True

instance (w : World) (tr : List Observation) :
    DecidablePred (FairWait w tr) := fun o =>
  match o with
  | .accepted fd uuid .CSReady =>
      inferInstanceAs (Decidable (uuid ≠ 0 ∧ readied fd tr = false))
  | .accepted _ _ .CSLogin => .isTrue trivial
  | .accepted _ _ (.CSFrame _) => .isTrue trivial
  | .exited client =>
      inferInstanceAs (Decidable
        (readied client.sockfd tr = false ∧
          ((w.deleteUser client).sessions.keys ≠ [] →
            ¬ AllReady (w.deleteUser client) tr)))
  | .joined _ => .isTrue trivial
  | .read _ _ => .isTrue trivial
  | .running => .isTrue trivial
  | .send _ _ => .isTrue trivial
  | .broadcast _ _ => .isTrue trivial

/-- Waiting players are fair. -/
theorem FairWait.fairReady
    {w : World} {tr : List Observation} {o : Observation}
    (h : FairWait w tr o) :
    FairReady tr o := by
  cases o with
  | accepted fd uuid msg =>
      cases msg with
      | CSReady =>
          exact fun _ => counted_of_not_readied h.2
      | CSLogin | CSFrame =>
          trivial
  | exited client =>
      exact counted_of_not_readied h.1
  | joined | read | running | send | broadcast =>
      trivial

/-- Every CSReady so far came from a logged-in player. -/
def ReadiesLoggedIn (tr : List Observation) : Prop :=
  ∀ fd uuid, .accepted fd uuid .CSReady ∈ tr → uuid ≠ 0

/-- Then a player is counted exactly when it is ready. -/
theorem ReadiesLoggedIn.counted_eq
    {tr : List Observation} (h : ReadiesLoggedIn tr) (fd : SOCKET) :
    counted fd tr = readied fd tr := by
  rw [Bool.eq_iff_iff]
  refine ⟨readied_of_counted, sinceJoin_mono ?_⟩
  intro o ho hready
  unfold isReady at hready
  split at hready
  · have huuid := h _ _ ho
    simpa [isCounted, huuid] using hready
  · cases hready

/-- What holds while the game has not started. -/
structure WaitInv (w : World) (tr : List Observation) : Prop where
  counts : CountInv w tr
  loggedIn : ReadiesLoggedIn tr
  waiting : w.sessions.keys ≠ [] → ¬ AllReady w tr

/-- Somebody in the room who is not ready keeps it waiting. -/
theorem not_allReady
    {w : World} {tr : List Observation} {fd : SOCKET}
    (hmem : fd ∈ w.sessions.keys)
    (hnot : ∀ player, w.getUser fd = some player →
      player.UUID = 0 ∨ readied fd tr = false) :
    ¬ AllReady w tr := by
  intro hall
  obtain ⟨player, hfind⟩ := (w.sessions.mem_keys_iff fd).mp hmem
  obtain ⟨huuid, hready⟩ :=
    hall (fd, player) ((w.sessions.mem_entries_iff fd player).mpr hfind)
  rcases hnot player hfind with hzero | hfalse
  · exact huuid hzero
  · rw [hfalse] at hready
    cases hready

/-- A player who has just joined has yet to log in. -/
theorem not_allReady_registerUser
    {w : World} {client : Client}
    (hnew : w.getUser client.sockfd = none) (tr : List Observation) :
    ¬ AllReady (w.registerUser client) tr := by
  have hfind :
      (w.registerUser client).getUser client.sockfd =
        some { client := client } := by
    rw [World.getUser] at hnew
    simp [World.getUser, World.registerUser,
      OrderedMap.find?_insertNew, hnew]
  refine not_allReady
    ((OrderedMap.mem_keys_iff _ _).mpr ⟨_, hfind⟩) ?_
  intro player hplayer
  rw [hfind] at hplayer
  cases hplayer
  exact Or.inl rfl

/-- A player who has just logged in has yet to be ready. -/
theorem not_allReady_login
    {w : World} {fd : SOCKET} {player : Player} {tr : List Observation}
    (hfind : w.getUser fd = some player)
    (hready : readied fd tr = false) :
    ¬ AllReady (w.login fd player).pop tr := by
  have hmem : fd ∈ w.sessions.keys :=
    (w.sessions.mem_keys_iff _).mpr ⟨player, hfind⟩
  have hmem' : fd ∈ (w.login fd player).pop.sessions.keys := by
    simpa [World.pop, World.login] using hmem
  exact not_allReady hmem' (fun _ _ => Or.inr hready)

/-- The room looks the same when sessions and readiness do. -/
theorem allReady_congr
    {w w' : World} {tr tr' : List Observation}
    (hsessions : w'.sessions = w.sessions)
    (hready : ∀ fd, readied fd tr' = readied fd tr) :
    AllReady w' tr' ↔ AllReady w tr := by
  rw [AllReady, AllReady, hsessions]
  simp only [hready]

theorem WaitInv.quiet
    {w w' : World} {tr out : List Observation} (h : WaitInv w tr)
    (hcounts : CountInv w' (tr ++ out))
    (hloggedIn : ReadiesLoggedIn (tr ++ out))
    (hout : Unrelated out) (hsessions : w'.sessions = w.sessions) :
    WaitInv w' (tr ++ out) := by
  refine ⟨hcounts, hloggedIn, ?_⟩
  rw [allReady_congr hsessions (fun fd => readied_unrelated fd tr hout),
    hsessions]
  exact h.waiting

/-- Once running, the game keeps running. -/
theorem Move.keeps_running
    {w w' : World} {out : List Observation} (h : Move w out w')
    (hrun : w.gameState = .EGS_RUNNING) :
    w'.gameState = .EGS_RUNNING := by
  cases h with
  | start =>
      rfl
  | idle | join | exit | push | ignore | login | readyEarly | ready
  | frame | turn =>
      exact hrun

/-- Fair players either start the game or keep waiting for somebody. -/
theorem WaitInv.move
    {w w' : World} {tr out : List Observation} (h : WaitInv w tr)
    (hmove : Move w out w') (hfair : ∀ o ∈ out, FairWait w tr o)
    (hstate : w'.gameState ≠ .EGS_RUNNING) :
    WaitInv w' (tr ++ out) := by
  have hcounts : CountInv w' (tr ++ out) :=
    h.counts.move hmove (fun o ho => (hfair o ho).fairReady)
  have hloggedIn : ReadiesLoggedIn (tr ++ out) := by
    intro fd uuid hmem
    rcases List.mem_append.mp hmem with hmem | hmem
    · exact h.loggedIn fd uuid hmem
    · have hwait : FairWait w tr (.accepted fd uuid .CSReady) :=
        hfair _ hmem
      exact hwait.1
  cases hmove with
  | idle | push =>
      exact h.quiet hcounts hloggedIn (by simp [Unrelated]) rfl
  | ignore | frame =>
      exact h.quiet hcounts hloggedIn (by simp [Unrelated, isReady]) rfl
  | join client hnew =>
      exact ⟨hcounts, hloggedIn,
        fun _ => not_allReady_registerUser hnew _⟩
  | exit client player hold =>
      refine ⟨hcounts, hloggedIn, ?_⟩
      have hleave : FairWait w tr (.exited client) := hfair _ (by simp)
      rw [allReady_congr rfl
        (fun fd => readied_unrelated fd tr (by simp [Unrelated, isReady]))]
      exact hleave.2
  | login client body player hfind huuid =>
      refine ⟨hcounts, hloggedIn, fun _ => ?_⟩
      -- a ready player would have been counted, hence logged in
      have hready : readied client.sockfd tr = false := by
        rw [← h.loggedIn.counted_eq]
        exact h.counts.not_counted hfind huuid
      refine not_allReady_login hfind ?_
      rw [readied_unrelated]
      · exact hready
      · simp [Unrelated, isReady, World.frameInit, World.sendLoginInfo,
          World.broadcast]
  | readyEarly client body player hfind huuid =>
      have hwait : FairWait w tr (.accepted client.sockfd 0 .CSReady) :=
        hfair _ (by simp)
      exact absurd rfl hwait.1
  | ready client body player hfind huuid hwait =>
      refine ⟨hcounts, hloggedIn, fun _ => ?_⟩
      obtain ⟨fd, hmem, hnot⟩ := hcounts.exists_not_counted hwait
      refine not_allReady hmem ?_
      intro player' _
      rw [← hloggedIn.counted_eq]
      exact Or.inr hnot
  | start =>
      exact absurd rfl hstate
  | turn hrun =>
      exact absurd hrun hstate

/-- A step of fair players, unless the game has started. -/
def FairWaitStep (codec : Codec) (w : World) (tr : List Observation)
    (e : WorldEvent) : Prop :=
  w.gameState ≠ .EGS_RUNNING →
    ∀ o ∈ (w.step codec e).2, FairWait w tr o

instance (codec : Codec) (w : World) (tr : List Observation)
    (e : WorldEvent) : Decidable (FairWaitStep codec w tr e) :=
  inferInstanceAs (Decidable
    (w.gameState ≠ .EGS_RUNNING →
      ∀ o ∈ (w.step codec e).2, FairWait w tr o))

/--
After every run of fair players, a room that is not empty and in which all are
logged in and ready has started; the messages accepted are those that the events
call for.
-/
theorem start_complete
    (codec : Codec) (events : List WorldEvent)
    (hfair : Machine.Along (World.step codec) (FairWaitStep codec) {}
      events)
    (hroom : (World.run codec events).1.sessions.keys ≠ [])
    (hall : AllReady (World.run codec events).1
      (World.run codec events).2) :
    (World.run codec events).1.gameState = .EGS_RUNNING ∧
      acceptances (World.run codec events).2 =
        Reception.accepted codec events := by
  refine ⟨?_, acceptances_run codec events⟩
  have hinv :
      (World.run codec events).1.gameState ≠ .EGS_RUNNING →
        WaitInv (World.run codec events).1 (World.run codec events).2 := by
    refine run_invariant_of_moves
      (G := fun w tr out =>
        w.gameState ≠ .EGS_RUNNING → ∀ o ∈ out, FairWait w tr o)
      (I := fun w tr => w.gameState ≠ .EGS_RUNNING → WaitInv w tr)
      ?_ ?_ ?_ ?_ hfair
    · intro _
      exact ⟨countInv_init, by simp [ReadiesLoggedIn], fun h => absurd rfl h⟩
    · intro w tr out₁ out₂ hout hstate o ho
      exact hout hstate o (List.mem_append_left _ ho)
    · intro w tr out w' hturn _ o ho
      obtain ⟨clients, frame, rfl⟩ := hturn.broadcasts ho
      trivial
    · intro w tr out w' hmove hout h hstate
      have hbefore : w.gameState ≠ .EGS_RUNNING :=
        fun hrun => hstate (hmove.keeps_running hrun)
      exact (h hbefore).move hmove (hout hbefore) hstate
  by_contra hstate
  exact (hinv hstate).waiting hroom hall

theorem start_complete_two_players :
    (World.run plainCodec twoPlayers).1.gameState = .EGS_RUNNING ∧
      acceptances (World.run plainCodec twoPlayers).2 =
        Reception.accepted plainCodec twoPlayers :=
  start_complete plainCodec _ (by decide) (by decide) (by decide)

/--
Of two players who are logged in the first is ready and the second leaves: the
room that is left is ready and has not started.
-/
theorem start_not_complete :
    ¬ ∀ (codec : Codec) (events : List WorldEvent),
      (World.run codec events).1.sessions.keys ≠ [] →
      AllReady (World.run codec events).1 (World.run codec events).2 →
      (World.run codec events).1.gameState = .EGS_RUNNING := by
  intro h
  have hrun := h plainCodec
    (joins ⟨0, 4⟩ ++ joins ⟨1, 5⟩ ++
      dispatched ⟨0, 4⟩ .ECSReady [] ++ [.deleteUser ⟨1, 5⟩])
    (by decide) (by decide)
  exact absurd hrun (by decide)

end Completeness

end LockStep
end NetEngine
