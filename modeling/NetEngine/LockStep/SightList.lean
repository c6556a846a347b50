import NetEngine.LockStep.Identities

/-!
# What an SCSight lists

`SendLoginInfo` runs at the end of each accepted login and lists every session,
in the order of the sockets.  `HandleReady` does not count a session whose UUID
is 0; `SendLoginInfo` does not look.  A session that has joined and not logged
in is listed with the UUID 0, and a client makes a player of it.

An SCSight lists the players and nobody else exactly if all others had logged
in when the last of them did, and if their logins have different numbers, none
of them 0, modulo 2^32.
-/

namespace NetEngine
namespace LockStep

open Net

namespace World

/-- What `SendLoginInfo` lists. -/
def sight (w : World) : List PlayerInfo :=
  w.sessions.entries.map (fun e => ⟨e.2.UUID, e.2.posX, e.2.posY, e.2.posZ⟩)

theorem sendLoginInfo_eq (w : World) :
    w.sendLoginInfo = [.broadcast w.clients (.SCSight w.sight)] := by
  rfl

/-- The socket whose login is accepted in a step. -/
def loginDue (codec : Codec) (w : World) : WorldEvent → Option SOCKET
  | .tick memory _ =>
      match w.msgQueue with
      | [] => none
      | node :: _ =>
          match w.getUser node.client.sockfd with
          | none => none
          | some player =>
              if (memory node.msg).type = EMessageType.ECSLogin.value ∧
                  codec.parseCSLogin (memory node.msg).data
                    (payloadSize (memory node.msg)) ∧
                  player.UUID = 0 then
                some node.client.sockfd
              else none
  | .registerUser _ => none
  | .deleteUser _ => none
  | .pushMsg _ _ => none

end World

section Steps

variable {codec : Codec}

/-- Observations without an SCSight. -/
def NoSight (out : List Observation) : Prop :=
  ∀ clients infos, .broadcast clients (.SCSight infos) ∉ out

/-- A turn shows no SCSight and no login, and keeps the sessions. -/
theorem TurnMove.keeps
    {w w' : World} {out : List Observation} (h : TurnMove w out w') :
    NoSight out ∧ LoginQuiet out ∧ w'.sessions = w.sessions := by
  have hshown := fun o ho => h.broadcasts (o := o) ho
  refine ⟨?_, ?_, ?_⟩
  · intro clients infos hmem
    obtain ⟨clients', frame, heq⟩ := hshown _ hmem
    cases heq
  · intro o ho
    obtain ⟨clients, frame, rfl⟩ := hshown o ho
    simp
  · cases h with
    | idle =>
        rfl
    | turn hrun =>
        rfl

/-- A login that is due is the front message's. -/
theorem loginDue_eq_some
    {w : World} {e : WorldEvent} {fd : SOCKET}
    (h : w.loginDue codec e = some fd) :
    ∃ memory turnDue node rest player,
      e = .tick memory turnDue ∧ w.msgQueue = node :: rest ∧
      node.client.sockfd = fd ∧ w.getUser fd = some player ∧
      (memory node.msg).type = EMessageType.ECSLogin.value ∧
      codec.parseCSLogin (memory node.msg).data
        (payloadSize (memory node.msg)) = true ∧
      player.UUID = 0 := by
  cases e with
  | tick memory turnDue =>
      simp only [World.loginDue] at h
      split at h
      · cases h
      · rename_i node rest hqueue
        split at h
        · cases h
        · rename_i player hfind
          split_ifs at h with hdue
          cases h
          obtain ⟨htype, hparse, huuid⟩ := hdue
          exact ⟨memory, turnDue, node, rest, player, rfl, hqueue, rfl,
            hfind, htype, hparse, huuid⟩
  | registerUser | deleteUser | pushMsg =>
      cases h

/-- The front message is a login that is due. -/
theorem messageProc_login
    {w : World} {memory : MsgPtr → MessageBody}
    {node : MsgNode} {rest : List MsgNode} {player : Player}
    (hqueue : w.msgQueue = node :: rest)
    (hfind : w.getUser node.client.sockfd = some player)
    (htype : (memory node.msg).type = EMessageType.ECSLogin.value)
    (hparse : codec.parseCSLogin (memory node.msg).data
      (payloadSize (memory node.msg)) = true)
    (huuid : player.UUID = 0) :
    w.messageProc codec memory =
      ((w.login node.client.sockfd player).pop,
        .read node.client (memory node.msg) ::
          .accepted node.client.sockfd 0 .CSLogin ::
          .send player.client (.SCLogin (w.uuidCounter + 1)) ::
          (w.frameInit player ++
            (w.login node.client.sockfd player).sendLoginInfo)) := by
  have hlogin : w.handleLogin codec node.client.sockfd player
      (memory node.msg) =
      ⟨true, w.login node.client.sockfd player,
        .accepted node.client.sockfd player.UUID .CSLogin ::
          .send player.client (.SCLogin (w.uuidCounter + 1)) ::
          (w.frameInit player ++
            (w.login node.client.sockfd player).sendLoginInfo)⟩ := by
    unfold World.handleLogin
    rw [if_neg (not_not.mpr hparse), if_neg (not_not.mpr huuid)]
    rfl
  have hcommand : World.command codec (memory node.msg).type =
      some (World.handleLogin codec) := by
    unfold World.command
    rw [if_pos htype]
  have hdispatch : w.dispatchCommand codec node.client (memory node.msg) =
      (w.login node.client.sockfd player,
        .read node.client (memory node.msg) ::
          .accepted node.client.sockfd 0 .CSLogin ::
          .send player.client (.SCLogin (w.uuidCounter + 1)) ::
          (w.frameInit player ++
            (w.login node.client.sockfd player).sendLoginInfo)) := by
    unfold World.dispatchCommand
    simp only [hcommand, hfind, hlogin, huuid]
  unfold World.messageProc
  rw [hqueue]
  simp only [hdispatch]
  rfl

theorem handleReady_noSight
    (w : World) (fd : SOCKET) (player : Player) (msg : MessageBody) :
    NoSight (w.handleReady codec fd player msg).out := by
  unfold World.handleReady
  split_ifs with hparse huuid
  · dsimp only
    split_ifs <;> simp [NoSight]
  · simp [NoSight]
  · simp [NoSight]

theorem handleFrame_noSight
    (w : World) (fd : SOCKET) (player : Player) (msg : MessageBody) :
    NoSight (w.handleFrame codec fd player msg).out := by
  unfold World.handleFrame
  split <;> simp [NoSight]

/-- Without a login that is due the front message leads to no SCSight. -/
theorem dispatchCommand_noSight
    {w : World} {client : Client} {body : MessageBody}
    (h : ∀ player, w.getUser client.sockfd = some player →
      ¬ (body.type = EMessageType.ECSLogin.value ∧
        codec.parseCSLogin body.data (payloadSize body) ∧
        player.UUID = 0)) :
    NoSight (w.dispatchCommand codec client body).2 := by
  have hcons : ∀ out, NoSight out →
      NoSight (.read client body :: out) := by
    intro out hout clients infos hmem
    rcases List.mem_cons.mp hmem with heq | hmem
    · cases heq
    · exact hout clients infos hmem
  have hnil : NoSight [] := fun _ _ hmem => List.not_mem_nil hmem
  unfold World.dispatchCommand
  cases hcommand : World.command codec body.type with
  | none =>
      exact hcons [] hnil
  | some func =>
      cases hfind : w.getUser client.sockfd with
      | none =>
          exact hcons [] hnil
      | some player =>
          have hdue := h player hfind
          unfold World.command at hcommand
          split_ifs at hcommand with htype
          · cases hcommand
            have hrefused :
                ¬ codec.parseCSLogin body.data (payloadSize body) ∨
                  player.UUID ≠ 0 := by
              by_contra hnot
              obtain ⟨hparse, huuid⟩ := not_or.mp hnot
              exact hdue ⟨htype, not_not.mp hparse, not_not.mp huuid⟩
            have hhandled := handleLogin_refused
              ((handleLogin_ret_eq_false_iff codec w client.sockfd
                player body).mpr hrefused)
            simp only [hhandled]
            exact hcons [] hnil
          · cases hcommand
            exact hcons _ (handleReady_noSight w client.sockfd player body)
          · cases hcommand
            exact hcons _ (handleFrame_noSight w client.sockfd player body)

/-- Two parts without an SCSight. -/
theorem NoSight.append
    {out₁ out₂ : List Observation}
    (h₁ : NoSight out₁) (h₂ : NoSight out₂) :
    NoSight (out₁ ++ out₂) := by
  intro clients infos hmem
  rcases List.mem_append.mp hmem with hmem | hmem
  · exact h₁ clients infos hmem
  · exact h₂ clients infos hmem

/-- A step without a login that is due shows no SCSight. -/
theorem step_noSight
    {w : World} {e : WorldEvent} (h : w.loginDue codec e = none) :
    NoSight (w.step codec e).2 := by
  cases e with
  | registerUser client =>
      simp only [World.step]
      split <;> simp [NoSight]
  | deleteUser client =>
      simp only [World.step]
      split <;> simp [NoSight]
  | pushMsg client msg =>
      simp [World.step, NoSight]
  | tick memory turnDue =>
      have hproc : NoSight (w.messageProc codec memory).2 := by
        unfold World.messageProc
        simp only [World.loginDue] at h
        cases hqueue : w.msgQueue with
        | nil =>
            simp [NoSight]
        | cons node rest =>
            rw [hqueue] at h
            apply dispatchCommand_noSight
            intro player hfind hdue
            simp only [hfind] at h
            rw [if_pos hdue] at h
            cases h
      obtain ⟨out, hturn, hout⟩ := tick_turnMove codec w memory turnDue
      rw [hout]
      exact hproc.append hturn.keeps.1

/-- What a step with a login that is due does and shows. -/
theorem step_login
    {w : World} {e : WorldEvent} {fd : SOCKET}
    (h : w.loginDue codec e = some fd) :
    (w.step codec e).1.sessions.keys = w.sessions.keys ∧
    (∀ tr, book (tr ++ (w.step codec e).2) = (book tr).login fd) ∧
    ∃ clients, .broadcast clients (.SCSight (w.step codec e).1.sight) ∈
        (w.step codec e).2 ∧
      ∀ clients' infos,
        .broadcast clients' (.SCSight infos) ∈ (w.step codec e).2 →
          infos = (w.step codec e).1.sight := by
  obtain ⟨memory, turnDue, node, rest, player, rfl, hqueue, rfl, hfind,
    htype, hparse, huuid⟩ := loginDue_eq_some h
  have hproc := messageProc_login hqueue hfind htype hparse huuid
  -- a turn may follow; it adds neither a login nor an SCSight
  obtain ⟨out, hturn, hshown⟩ := tick_turnMove codec w memory turnDue
  rw [hproc] at hturn hshown
  obtain ⟨hnosight, hquiet, hsessions⟩ := hturn.keeps
  have hsight : (w.step codec (.tick memory turnDue)).1.sight =
      (w.login node.client.sockfd player).sight := by
    rw [World.sight, hsessions]
    rfl
  refine ⟨?_, ?_, (w.login node.client.sockfd player).clients, ?_, ?_⟩
  · rw [hsessions]
    exact OrderedMap.keys_modify _ _ _
  · intro tr
    have hrest := loginQuiet_sights w
      (w.login node.client.sockfd player) player
    have hfold := foldl_note_quiet
      ((book tr).login node.client.sockfd) hrest
    rw [hshown, ← List.append_assoc, book_append (tr ++ _),
      foldl_note_quiet _ hquiet, book_append]
    exact hfold
  · rw [hshown, hsight, World.sendLoginInfo_eq]
    simp
  · intro clients' infos hmem
    rw [hshown] at hmem
    rw [hsight]
    rcases List.mem_append.mp hmem with hmem | hmem
    · have hsame : clients' = (w.login node.client.sockfd player).clients ∧
          infos = (w.login node.client.sockfd player).sight := by
        simpa [World.frameInit, World.sendLoginInfo_eq] using hmem
      exact hsame.2
    · exact absurd hmem (hnosight clients' infos)

end Steps

section Lists

/-- A list of player infos names the players of a world and nobody else. -/
structure ListsPlayers (w : World) (b : Book)
    (infos : List PlayerInfo) : Prop where
  /-- Each session that has logged in, once, in the order of the map. -/
  players : infos =
    (w.sessions.entries.filter (fun e => b.number e.1 ≠ 0)).map
      (fun e => ⟨e.2.UUID, e.2.posX, e.2.posY, e.2.posZ⟩)
  nonzero : ∀ info ∈ infos, info.uuid ≠ 0
  distinct : (infos.map (fun info => info.uuid)).Nodup

/-- Each SCSight of a step names the players. -/
def SightsExact (codec : Codec) (w : World) (tr : List Observation)
    (e : WorldEvent) : Prop :=
  ∀ clients infos,
    .broadcast clients (.SCSight infos) ∈ (w.step codec e).2 →
      ListsPlayers (w.step codec e).1
        (book (tr ++ (w.step codec e).2)) infos

/--
What has to hold when the player at a socket logs in: all others have, and
counted modulo 2^32 the logins of all are different and none is 0.
-/
structure RoomReady (w : World) (b : Book) (fd : SOCKET) : Prop where
  others : ∀ fd' ∈ w.sessions.keys, fd' ≠ fd → b.number fd' ≠ 0
  whole : ∀ fd' ∈ w.sessions.keys, (b.login fd).number fd' % 2 ^ 32 = 0 →
    (b.login fd).number fd' = 0
  distinct : (w.sessions.keys.map
    (fun fd' => (b.login fd).number fd' % 2 ^ 32)).Nodup

variable {w : World} {tr : List Observation}

/-- UUIDs listed are numbers of logins modulo 2^32. -/
theorem BookInv.sight_uuids (h : BookInv w tr) :
    w.sight.map (fun info => info.uuid) =
      w.sessions.keys.map
        (fun fd => UInt32.ofNat ((book tr).number fd)) := by
  rw [World.sight, OrderedMap.keys, List.map_map, List.map_map]
  apply List.map_congr_left
  intro e he
  exact (h.knows e.1 e.2 ((w.sessions.mem_entries_iff e.1 e.2).mp he)).uuid

theorem ofNat_eq_zero_iff (n : Nat) :
    UInt32.ofNat n = 0 ↔ n % 2 ^ 32 = 0 := by
  rw [← UInt32.toNat_inj, UInt32.toNat_ofNat']
  rfl

/-- When an SCSight of all sessions names the players. -/
theorem BookInv.listsPlayers_iff (h : BookInv w tr) :
    ListsPlayers w (book tr) w.sight ↔
      (∀ fd ∈ w.sessions.keys, (book tr).number fd % 2 ^ 32 ≠ 0) ∧
      (w.sessions.keys.map
        (fun fd => (book tr).number fd % 2 ^ 32)).Nodup := by
  have hnat : (w.sight.map (fun info => info.uuid)).map UInt32.toNat =
      w.sessions.keys.map (fun fd => (book tr).number fd % 2 ^ 32) := by
    rw [h.sight_uuids, List.map_map]
    apply List.map_congr_left
    intro fd _
    exact UInt32.toNat_ofNat'
  have hnodup : (w.sight.map (fun info => info.uuid)).Nodup ↔
      (w.sessions.keys.map
        (fun fd => (book tr).number fd % 2 ^ 32)).Nodup := by
    rw [← hnat]
    exact (List.nodup_map_iff (fun _ _ => UInt32.toNat_inj.mp)).symm
  constructor
  · intro hlists
    refine ⟨?_, hnodup.mp hlists.distinct⟩
    intro fd hfd hzero
    have huuid : UInt32.ofNat ((book tr).number fd) ∈
        w.sight.map (fun info => info.uuid) := by
      rw [h.sight_uuids]
      exact List.mem_map_of_mem hfd
    obtain ⟨info, hinfo, heq⟩ := List.mem_map.mp huuid
    refine hlists.nonzero info hinfo ?_
    rw [heq]
    exact (ofNat_eq_zero_iff _).mpr hzero
  · rintro ⟨hzero, hdistinct⟩
    refine ⟨?_, ?_, hnodup.mpr hdistinct⟩
    · have hall : w.sessions.entries.filter
          (fun e => (book tr).number e.1 ≠ 0) = w.sessions.entries := by
        rw [List.filter_eq_self]
        intro e he
        have hne := hzero e.1 (List.mem_map_of_mem he)
        have hnumber : (book tr).number e.1 ≠ 0 := by
          intro hnumber
          rw [hnumber] at hne
          exact hne rfl
        simpa using hnumber
      rw [hall]
      rfl
    · intro info hinfo huuid
      have hmem : info.uuid ∈ w.sight.map (fun info => info.uuid) :=
        List.mem_map_of_mem hinfo
      rw [h.sight_uuids, huuid] at hmem
      obtain ⟨fd, hfd, heq⟩ := List.mem_map.mp hmem
      exact hzero fd hfd ((ofNat_eq_zero_iff _).mp heq)

/-- The room is ready when the numbers after the login are as they should be. -/
theorem roomReady_iff (b : Book) (fd : SOCKET) :
    RoomReady w b fd ↔
      (∀ fd' ∈ w.sessions.keys, (b.login fd).number fd' % 2 ^ 32 ≠ 0) ∧
      (w.sessions.keys.map
        (fun fd' => (b.login fd).number fd' % 2 ^ 32)).Nodup := by
  constructor
  · intro h
    refine ⟨?_, h.distinct⟩
    intro fd' hfd' hzero
    have hnumber := h.whole fd' hfd' hzero
    by_cases hfd : fd' = fd
    · simp [Book.login, hfd] at hnumber
    · simp only [Book.login, hfd, if_false] at hnumber
      exact h.others fd' hfd' hfd hnumber
  · rintro ⟨hzero, hdistinct⟩
    refine ⟨?_, ?_, hdistinct⟩
    · intro fd' hfd' hfd hnumber
      apply hzero fd' hfd'
      simp [Book.login, hfd, hnumber]
    · intro fd' hfd' hmod
      exact absurd hmod (hzero fd' hfd')

/-- A step of a run names the players exactly if its login finds them ready. -/
theorem step_sightsExact_iff
    {codec : Codec} {e : WorldEvent}
    (hafter : BookInv (w.step codec e).1 (tr ++ (w.step codec e).2)) :
    SightsExact codec w tr e ↔
      ∀ fd, w.loginDue codec e = some fd →
        RoomReady w (book tr) fd := by
  cases hdue : w.loginDue codec e with
  | none =>
      constructor
      · intro _ fd hfd
        cases hfd
      · intro _ clients infos hmem
        exact absurd hmem (step_noSight hdue clients infos)
  | some fd =>
      obtain ⟨hkeys, hbook, clients, hmem, honly⟩ := step_login hdue
      have hlists := hafter.listsPlayers_iff
      rw [hkeys, hbook tr] at hlists
      have hready := roomReady_iff (w := w) (book tr) fd
      constructor
      · intro hexact fd' hfd'
        cases hfd'
        have hnow := hexact clients _ hmem
        rw [hbook tr] at hnow
        exact hready.mpr (hlists.mp hnow)
      · intro hguard clients' infos hmem'
        rw [honly clients' infos hmem', hbook tr]
        exact hlists.mpr (hready.mp (hguard fd rfl))

/-- Below 2^32 logins it is enough that all others have logged in. -/
theorem BookInv.roomReady_of_others
    (h : BookInv w tr) (hlen : (book tr).loggers.length + 1 < 2 ^ 32)
    {fd : SOCKET}
    (hothers : ∀ fd' ∈ w.sessions.keys, fd' ≠ fd →
      (book tr).number fd' ≠ 0) :
    RoomReady w (book tr) fd := by
  have hsmall : ∀ fd' ∈ w.sessions.keys,
      ((book tr).login fd).number fd' < 2 ^ 32 := by
    intro fd' hfd'
    by_cases hfd : fd' = fd
    · simpa [Book.login, hfd] using hlen
    · obtain ⟨player, hfind⟩ := (w.sessions.mem_keys_iff fd').mp hfd'
      have hle := (h.knows fd' player hfind).le_length
      simp only [Book.login, hfd, if_false]
      omega
  refine ⟨hothers, ?_, ?_⟩
  · intro fd' hfd' hmod
    rwa [Nat.mod_eq_of_lt (hsmall fd' hfd')] at hmod
  · rw [List.nodup_map_iff_inj_on w.sessions.keys_nodup]
    intro fd₁ hfd₁ fd₂ hfd₂ hsame
    rw [Nat.mod_eq_of_lt (hsmall fd₁ hfd₁),
      Nat.mod_eq_of_lt (hsmall fd₂ hfd₂)] at hsame
    obtain ⟨player₁, hfind₁⟩ := (w.sessions.mem_keys_iff fd₁).mp hfd₁
    obtain ⟨player₂, hfind₂⟩ := (w.sessions.mem_keys_iff fd₂).mp hfd₂
    have hknows₁ := h.knows fd₁ player₁ hfind₁
    have hknows₂ := h.knows fd₂ player₂ hfind₂
    have hle₁ := hknows₁.le_length
    have hle₂ := hknows₂.le_length
    -- the new number is above all old ones, and an old one names its player
    by_cases h₁ : fd₁ = fd
    · by_cases h₂ : fd₂ = fd
      · rw [h₁, h₂]
      · simp only [Book.login, h₁, h₂, if_true, if_false] at hsame
        omega
    · by_cases h₂ : fd₂ = fd
      · simp only [Book.login, h₁, h₂, if_true, if_false] at hsame
        omega
      · simp only [Book.login, h₁, h₂, if_false] at hsame
        have hlogger₁ := hknows₁.logger (hothers fd₁ hfd₁ h₁)
        have hlogger₂ := hknows₂.logger (hothers fd₂ hfd₂ h₂)
        rw [hsame, hlogger₂] at hlogger₁
        exact h.holder_inj fd₁ fd₂ player₁ player₂ hfind₁ hfind₂
          (Option.some.inj hlogger₁).symm

end Lists

section Runs

/-- The invariant of the book after one more event. -/
theorem bookInv_run_concat
    (codec : Codec) (before : List WorldEvent) (e : WorldEvent) :
    BookInv ((World.run codec before).1.step codec e).1
      ((World.run codec before).2 ++
        ((World.run codec before).1.step codec e).2) := by
  have h := bookInv_run codec (before ++ [e])
  rwa [World.run, Machine.run_concat] at h

/--
The SCSights of a run name the players and nobody else exactly if each login
that is accepted finds the room ready.
-/
theorem sightsExact_iff (codec : Codec) (events : List WorldEvent) :
    Machine.Along (World.step codec)
        (fun w tr e => SightsExact codec w tr e) {} events ↔
      Machine.Along (World.step codec)
        (fun w tr e => ∀ fd, w.loginDue codec e = some fd →
          RoomReady w (book tr) fd) {} events := by
  apply Machine.along_congr
  intro before e after _
  exact step_sightsExact_iff (bookInv_run_concat codec before e)

/-- Below 2^32 logins the room is ready when all others have logged in. -/
theorem roomsReady_iff_others
    {codec : Codec} {events : List WorldEvent}
    (hlen : (book (World.run codec events).2).loggers.length < 2 ^ 32) :
    Machine.Along (World.step codec)
        (fun w tr e => ∀ fd, w.loginDue codec e = some fd →
          RoomReady w (book tr) fd) {} events ↔
      Machine.Along (World.step codec)
        (fun w tr e => ∀ fd, w.loginDue codec e = some fd →
          ∀ fd' ∈ w.sessions.keys, fd' ≠ fd →
            (book tr).number fd' ≠ 0) {} events := by
  apply Machine.along_congr
  intro before e after hevents
  constructor
  · intro hready fd hdue
    exact (hready fd hdue).others
  · intro hothers fd hdue
    refine (bookInv_run codec before).roomReady_of_others ?_
      (hothers fd hdue)
    have hprefix : before ++ [e] <+: events :=
      ⟨after, by rw [hevents]; simp⟩
    have hgrow := (loggers_prefix_run codec hprefix).length_le
    rw [World.run, Machine.run_concat, (step_login hdue).2.1] at hgrow
    simp only [Book.login, List.length_append,
      List.length_singleton] at hgrow
    exact hgrow.trans_lt hlen

/-- The second of two players has joined when the first logs in. -/
theorem sight_lists_stranger :
    ¬ Machine.Along (World.step plainCodec)
      (fun w tr e => SightsExact plainCodec w tr e) {}
      (.registerUser ⟨0, 4⟩ :: .registerUser ⟨1, 5⟩ ::
        dispatched ⟨0, 4⟩ .ECSLogin []) := by
  intro h
  have hlast := h
    [.registerUser ⟨0, 4⟩, .registerUser ⟨1, 5⟩, .pushMsg ⟨0, 4⟩ 0]
    (.tick (fun _ => clientBody .ECSLogin []) false) [] rfl
  have hlists := hlast [⟨0, 4⟩, ⟨1, 5⟩] [⟨1, 0, 0, 0⟩, ⟨0, 0, 0, 0⟩]
    (List.mem_of_getElem? (i := 4) rfl)
  exact hlists.nonzero ⟨0, 0, 0, 0⟩ (by simp) rfl

end Runs

end LockStep
end NetEngine
