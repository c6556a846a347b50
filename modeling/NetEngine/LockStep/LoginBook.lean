import NetEngine.LockStep.Reception

/-!
# Login book

The world knows a player by a socket number and a UUID, and a socket number is
used again after its player has left.  The book follows the players through the
trace instead.  It counts the joins, so that a player is the number of its join
whatever its socket, and it lists the players in the order of their accepted
logins.

`LoginMove` reduces the moves of the world to the three kinds that the book can
tell apart.  The invariant says that the UUIDs of the world are the positions
of its players in the list of logins, modulo 2^32.  While fewer than 2^32
logins were accepted nobody logs in twice, and the positions are exact.
-/

namespace NetEngine
namespace LockStep

open Net

/-- Who has joined and who has logged in, in a trace. -/
structure Book where
  /-- Number of players that joined. -/
  joins : Nat := 0
  /-- Players, in the order of their logins. -/
  loggers : List Nat := []
  /-- The last player that joined at a socket. -/
  holder : SOCKET → Nat := fun _ => 0
  /-- Position of that player's last login, counted from 1; 0 before it. -/
  number : SOCKET → Nat := fun _ => 0

namespace Book

/-- A player joins at a socket. -/
def join (b : Book) (fd : SOCKET) : Book where
  joins := b.joins + 1
  loggers := b.loggers
  holder := fun fd' => if fd' = fd then b.joins else b.holder fd'
  number := fun fd' => if fd' = fd then 0 else b.number fd'

/-- The player at a socket logs in. -/
def login (b : Book) (fd : SOCKET) : Book where
  joins := b.joins
  loggers := b.loggers ++ [b.holder fd]
  holder := b.holder
  number := fun fd' =>
    if fd' = fd then b.loggers.length + 1 else b.number fd'

def note (b : Book) : Observation → Book
  | .joined client => b.join client.sockfd
  | .accepted fd _ .CSLogin => b.login fd
  | _ => b

end Book

/-- The book of a trace. -/
def book (tr : List Observation) : Book :=
  tr.foldl Book.note {}

/-- UUIDs that players were told, in order. -/
def loginUuids (tr : List Observation) : List UInt32 :=
  tr.filterMap (fun o =>
    match o with
    | .send _ (.SCLogin uuid) => some uuid
    | _ => none)

section Traces

/-- Observations that are neither a join nor part of a login. -/
def LoginQuiet (out : List Observation) : Prop :=
  ∀ o ∈ out,
    (∀ client, o ≠ .joined client) ∧
    (∀ fd uuid, o ≠ .accepted fd uuid .CSLogin) ∧
    (∀ client uuid, o ≠ .send client (.SCLogin uuid))

theorem book_append (tr out : List Observation) :
    book (tr ++ out) = out.foldl Book.note (book tr) := by
  rw [book, List.foldl_append, book]

theorem loginUuids_append (tr out : List Observation) :
    loginUuids (tr ++ out) = loginUuids tr ++ loginUuids out := by
  rw [loginUuids, List.filterMap_append, loginUuids, loginUuids]

/-- The book does not see a quiet observation. -/
theorem Book.note_quiet
    (b : Book) {o : Observation}
    (hjoin : ∀ client, o ≠ .joined client)
    (hlogin : ∀ fd uuid, o ≠ .accepted fd uuid .CSLogin) :
    b.note o = b := by
  cases o with
  | joined client =>
      exact absurd rfl (hjoin client)
  | accepted fd uuid msg =>
      cases msg with
      | CSLogin =>
          exact absurd rfl (hlogin fd uuid)
      | CSReady | CSFrame =>
          rfl
  | exited | read | running | send | broadcast =>
      rfl

theorem foldl_note_quiet
    (b : Book) {out : List Observation} (h : LoginQuiet out) :
    out.foldl Book.note b = b := by
  induction out with
  | nil =>
      rfl
  | cons o out ih =>
      obtain ⟨hjoin, hlogin, -⟩ := h o List.mem_cons_self
      rw [List.foldl_cons, b.note_quiet hjoin hlogin]
      exact ih (fun o' ho' => h o' (List.mem_cons_of_mem _ ho'))

theorem loginUuids_quiet
    {out : List Observation} (h : LoginQuiet out) :
    loginUuids out = [] := by
  rw [loginUuids, List.filterMap_eq_nil_iff]
  intro o ho
  obtain ⟨-, -, hsend⟩ := h o ho
  cases o with
  | send client msg =>
      cases msg with
      | SCLogin uuid =>
          exact absurd rfl (hsend client uuid)
      | SCFrameInit | SCSight | SCFrame =>
          rfl
  | joined | exited | read | accepted | running | broadcast =>
      rfl

/-- What is shown after the SCLogin of a login is quiet. -/
theorem loginQuiet_sights (w w' : World) (player : Player) :
    LoginQuiet (w.frameInit player ++ w'.sendLoginInfo) := by
  intro o ho
  simp only [World.frameInit, World.sendLoginInfo, World.broadcast,
    List.cons_append, List.nil_append, List.mem_cons,
    List.not_mem_nil, or_false] at ho
  rcases ho with rfl | rfl <;> simp

end Traces

section Moves

/--
What a move is to the book: a player joins, a player logs in, or neither.  In
the last case players may leave.
-/
inductive LoginMove : World → List Observation → World → Prop
  | join (w : World) (client : Client)
      (hnew : w.getUser client.sockfd = none) :
      LoginMove w [.joined client] (w.registerUser client)
  | login {w w' : World} {fd : SOCKET} {player : Player}
      {out : List Observation}
      (hfind : w.getUser fd = some player)
      (huuid : player.UUID = 0)
      (hsessions : w'.sessions = (w.login fd player).sessions)
      (hcounter : w'.uuidCounter = w.uuidCounter + 1)
      (hnote : ∀ b : Book, out.foldl Book.note b = b.login fd)
      (hout : loginUuids out = [w.uuidCounter + 1]) :
      LoginMove w out w'
  | other {w w' : World} {out : List Observation}
      (hsessions : ∀ fd player, w'.getUser fd = some player →
        w.getUser fd = some player)
      (hcounter : w'.uuidCounter = w.uuidCounter)
      (hquiet : LoginQuiet out) :
      LoginMove w out w'

/-- A move that leaves sessions and counter alone is of the third kind. -/
theorem LoginMove.of_same
    {w w' : World} {out : List Observation}
    (hsessions : w'.sessions = w.sessions)
    (hcounter : w'.uuidCounter = w.uuidCounter)
    (hquiet : LoginQuiet out) :
    LoginMove w out w' := by
  refine LoginMove.other ?_ hcounter hquiet
  intro fd player hfind
  rw [World.getUser, hsessions] at hfind
  exact hfind

theorem Move.loginMove
    {w w' : World} {out : List Observation} (h : Move w out w') :
    LoginMove w out w' := by
  cases h with
  | join client hnew =>
      exact LoginMove.join w client hnew
  | exit client player hold =>
      refine LoginMove.other ?_ rfl (by simp [LoginQuiet])
      intro fd player' hfind
      rw [World.getUser, World.deleteUser, OrderedMap.find?_erase] at hfind
      split_ifs at hfind with hfd
      exact hfind
  | login client body player hfind huuid =>
      have hrest := loginQuiet_sights w (w.login client.sockfd player) player
      refine LoginMove.login hfind huuid rfl rfl ?_ ?_
      · intro b
        have hbook := foldl_note_quiet (b.login client.sockfd) hrest
        exact hbook
      · have huuids := loginUuids_quiet hrest
        simpa [loginUuids] using huuids
  | idle | push =>
      exact LoginMove.of_same rfl rfl (by simp [LoginQuiet])
  | ignore | readyEarly | ready | start | frame =>
      exact LoginMove.of_same rfl rfl (by simp [LoginQuiet])
  | turn hrun =>
      exact LoginMove.of_same rfl rfl
        (by simp [LoginQuiet, World.frameTurn, World.broadcast])

end Moves

section Entries

/-- What the book says of a player at a socket. -/
structure Book.Knows (b : Book) (fd : SOCKET) (player : Player) : Prop where
  uuid : player.UUID = UInt32.ofNat (b.number fd)
  le_length : b.number fd ≤ b.loggers.length
  logger : b.number fd ≠ 0 →
    b.loggers[b.number fd - 1]? = some (b.holder fd)
  holder_lt : b.holder fd < b.joins

variable {b : Book} {fd fd' : SOCKET} {player : Player}

theorem Book.knows_join_self
    (b : Book) (fd : SOCKET) (huuid : player.UUID = 0) :
    (b.join fd).Knows fd player := by
  have hnumber : (b.join fd).number fd = 0 := if_pos rfl
  refine ⟨?_, ?_, ?_, ?_⟩
  · rw [hnumber, huuid]
    rfl
  · rw [hnumber]
    exact Nat.zero_le _
  · intro hne
    exact absurd hnumber hne
  · simp [Book.join]

theorem Book.Knows.join_of_ne
    (h : b.Knows fd player) (hne : fd ≠ fd') :
    (b.join fd').Knows fd player := by
  have hnumber : (b.join fd').number fd = b.number fd := if_neg hne
  have hholder : (b.join fd').holder fd = b.holder fd := if_neg hne
  refine ⟨?_, ?_, ?_, ?_⟩
  · rw [hnumber]
    exact h.uuid
  · rw [hnumber]
    exact h.le_length
  · rw [hnumber, hholder]
    exact h.logger
  · rw [hholder]
    exact h.holder_lt.trans (Nat.lt_succ_self _)

/-- A player that logs in is the last of the loggers. -/
theorem Book.Knows.login_self
    {player' : Player} (h : b.Knows fd player)
    (huuid : player'.UUID = UInt32.ofNat (b.loggers.length + 1)) :
    (b.login fd).Knows fd player' := by
  have hnumber : (b.login fd).number fd = b.loggers.length + 1 :=
    if_pos rfl
  refine ⟨?_, ?_, ?_, h.holder_lt⟩
  · rw [hnumber]
    exact huuid
  · rw [hnumber]
    simp [Book.login]
  · intro _
    rw [hnumber]
    simp [Book.login]

theorem Book.Knows.login_of_ne
    (h : b.Knows fd player) (hne : fd ≠ fd') :
    (b.login fd').Knows fd player := by
  have hnumber : (b.login fd').number fd = b.number fd := if_neg hne
  refine ⟨?_, ?_, ?_, h.holder_lt⟩
  · rw [hnumber]
    exact h.uuid
  · rw [hnumber]
    exact h.le_length.trans (by simp [Book.login])
  · rw [hnumber]
    intro hzero
    have hlogger := h.logger hzero
    obtain ⟨hlt, -⟩ := List.getElem?_eq_some_iff.mp hlogger
    simp only [Book.login]
    rw [List.getElem?_append_left hlt]
    exact hlogger

/-- Below 2^32 logins a UUID of 0 means that the player has yet to log in. -/
theorem Book.Knows.number_eq_zero
    (h : b.Knows fd player) (hlen : b.loggers.length < 2 ^ 32)
    (huuid : player.UUID = 0) :
    b.number fd = 0 := by
  have hlt : b.number fd < 2 ^ 32 := h.le_length.trans_lt hlen
  have heq := congrArg UInt32.toNat h.uuid
  rw [huuid, UInt32.toNat_ofNat_of_lt' hlt] at heq
  exact heq.symm

end Entries

section Invariant

/--
What the book says of the world.  The last two fields need the bound: after
2^32 logins the counter gives a player the UUID 0, who may then log in again.
-/
structure BookInv (w : World) (tr : List Observation) : Prop where
  counter : w.uuidCounter = UInt32.ofNat (book tr).loggers.length
  knows : ∀ fd player, w.getUser fd = some player →
    (book tr).Knows fd player
  holder_inj : ∀ fd fd' player player', w.getUser fd = some player →
    w.getUser fd' = some player' →
      (book tr).holder fd = (book tr).holder fd' → fd = fd'
  logger_lt : ∀ n ∈ (book tr).loggers, n < (book tr).joins
  told : loginUuids tr =
    (List.range (book tr).loggers.length).map
      (fun i => UInt32.ofNat (i + 1))
  once : (book tr).loggers.length < 2 ^ 32 → (book tr).loggers.Nodup
  waiting : (book tr).loggers.length < 2 ^ 32 →
    ∀ fd player, w.getUser fd = some player →
      (book tr).number fd = 0 → (book tr).holder fd ∉ (book tr).loggers

theorem bookInv_init : BookInv {} [] where
  counter := rfl
  knows := by
    intro fd player hfind
    cases hfind
  holder_inj := by
    intro fd fd' player player' hfind
    cases hfind
  logger_lt := by
    intro n hn
    cases hn
  told := rfl
  once := fun _ => List.nodup_nil
  waiting := by
    intro _ fd player hfind
    cases hfind

theorem BookInv.join
    {w : World} {tr : List Observation} (h : BookInv w tr)
    (client : Client) (hnew : w.getUser client.sockfd = none) :
    BookInv (w.registerUser client) (tr ++ [.joined client]) := by
  have hbook : book (tr ++ [.joined client]) =
      (book tr).join client.sockfd :=
    book_append tr [.joined client]
  have hself : ∀ player,
      (w.registerUser client).getUser client.sockfd = some player →
        player.UUID = 0 := by
    intro player hfind
    rw [World.getUser] at hnew
    rw [World.getUser, World.registerUser, OrderedMap.find?_insertNew,
      if_pos rfl, hnew] at hfind
    cases hfind
    rfl
  have hold : ∀ fd player, fd ≠ client.sockfd →
      (w.registerUser client).getUser fd = some player →
        w.getUser fd = some player := by
    intro fd player hne hfind
    rwa [World.getUser, World.registerUser, OrderedMap.find?_insertNew,
      if_neg hne] at hfind
  -- the number of the newcomer is above those of all others
  have hfresh : ∀ fd player, fd ≠ client.sockfd →
      (w.registerUser client).getUser fd = some player →
        (book tr).holder fd ≠ (book tr).joins := by
    intro fd player hne hfind
    exact Nat.ne_of_lt (h.knows fd player (hold fd player hne hfind)).holder_lt
  refine ⟨?_, ?_, ?_, ?_, ?_, ?_, ?_⟩
  all_goals rw [hbook]
  · exact h.counter
  · intro fd player hfind
    by_cases hfd : fd = client.sockfd
    · subst hfd
      exact Book.knows_join_self _ _ (hself player hfind)
    · exact (h.knows fd player (hold fd player hfd hfind)).join_of_ne hfd
  · intro fd fd' player player' hfind hfind' hsame
    by_cases hfd : fd = client.sockfd
    · by_cases hfd' : fd' = client.sockfd
      · rw [hfd, hfd']
      · simp only [Book.join, hfd, hfd', if_true, if_false] at hsame
        exact absurd hsame.symm (hfresh fd' player' hfd' hfind')
    · by_cases hfd' : fd' = client.sockfd
      · simp only [Book.join, hfd, hfd', if_true, if_false] at hsame
        exact absurd hsame (hfresh fd player hfd hfind)
      · simp only [Book.join, hfd, hfd', if_false] at hsame
        exact h.holder_inj fd fd' player player'
          (hold fd player hfd hfind) (hold fd' player' hfd' hfind') hsame
  · intro n hn
    have hlt := h.logger_lt n hn
    exact hlt.trans (Nat.lt_succ_self _)
  · rw [loginUuids_append, h.told]
    simp [Book.join, loginUuids]
  · exact h.once
  · intro hlen fd player hfind hnumber
    by_cases hfd : fd = client.sockfd
    · simp only [Book.join, hfd, if_true]
      intro hmem
      exact Nat.lt_irrefl _ (h.logger_lt _ hmem)
    · simp only [Book.join, hfd, if_false] at hnumber ⊢
      exact h.waiting hlen fd player (hold fd player hfd hfind) hnumber

/-- Who logs in for the first time was not among the loggers. -/
theorem BookInv.not_mem_loggers
    {w : World} {tr : List Observation} (h : BookInv w tr)
    (hlen : (book tr).loggers.length < 2 ^ 32)
    {fd : SOCKET} {player : Player} (hfind : w.getUser fd = some player)
    (huuid : player.UUID = 0) :
    (book tr).holder fd ∉ (book tr).loggers := by
  have hzero := (h.knows fd player hfind).number_eq_zero hlen huuid
  exact h.waiting hlen fd player hfind hzero

theorem BookInv.login
    {w w' : World} {tr out : List Observation} (h : BookInv w tr)
    {fd : SOCKET} {player : Player}
    (hfind : w.getUser fd = some player) (huuid : player.UUID = 0)
    (hsessions : w'.sessions = (w.login fd player).sessions)
    (hcounter : w'.uuidCounter = w.uuidCounter + 1)
    (hnote : ∀ b : Book, out.foldl Book.note b = b.login fd)
    (hout : loginUuids out = [w.uuidCounter + 1]) :
    BookInv w' (tr ++ out) := by
  have hbook : book (tr ++ out) = (book tr).login fd := by
    rw [book_append, hnote]
  have hloggers : ((book tr).login fd).loggers =
      (book tr).loggers ++ [(book tr).holder fd] := rfl
  have hnext : w.uuidCounter + 1 =
      UInt32.ofNat ((book tr).loggers.length + 1) := by
    rw [h.counter, UInt32.ofNat_add]
    rfl
  have hlookup : ∀ fd', w'.getUser fd' =
      if fd' = fd then some { player with UUID := w.uuidCounter + 1 }
      else w.getUser fd' := by
    intro fd'
    rw [World.getUser, hsessions]
    exact World.getUser_login hfind fd'
  have hold : ∀ fd' player', fd' ≠ fd → w'.getUser fd' = some player' →
      w.getUser fd' = some player' := by
    intro fd' player' hne hfind'
    rwa [hlookup, if_neg hne] at hfind'
  -- the one who logs in is present as well, so nothing is asked of it twice
  have hpresent : ∀ fd' player', w'.getUser fd' = some player' →
      ∃ player'', w.getUser fd' = some player'' := by
    intro fd' player' hfind'
    by_cases hfd : fd' = fd
    · exact ⟨player, hfd ▸ hfind⟩
    · exact ⟨player', hold fd' player' hfd hfind'⟩
  refine ⟨?_, ?_, ?_, ?_, ?_, ?_, ?_⟩
  all_goals rw [hbook]
  · rw [hcounter, hnext, hloggers, List.length_append, List.length_singleton]
  · intro fd' player' hfind'
    by_cases hfd : fd' = fd
    · subst hfd
      rw [hlookup, if_pos rfl] at hfind'
      cases hfind'
      exact (h.knows fd' player hfind).login_self hnext
    · exact (h.knows fd' player' (hold fd' player' hfd hfind')).login_of_ne
        hfd
  · intro fd₁ fd₂ player₁ player₂ hfind₁ hfind₂ hsame
    obtain ⟨player₁', hfind₁'⟩ := hpresent fd₁ player₁ hfind₁
    obtain ⟨player₂', hfind₂'⟩ := hpresent fd₂ player₂ hfind₂
    exact h.holder_inj fd₁ fd₂ player₁' player₂' hfind₁' hfind₂' hsame
  · intro n hn
    rcases List.mem_append.mp hn with hn | hn
    · exact h.logger_lt n hn
    · rw [List.mem_singleton.mp hn]
      exact (h.knows fd player hfind).holder_lt
  · rw [loginUuids_append, h.told, hout, hnext, hloggers]
    simp [List.range_succ]
  · intro hlen
    rw [hloggers, List.length_append, List.length_singleton] at hlen
    rw [hloggers, ← List.concat_eq_append]
    have hnot := h.not_mem_loggers (by omega) hfind huuid
    exact (h.once (by omega)).concat hnot
  · intro hlen fd' player' hfind' hnumber
    rw [hloggers, List.length_append, List.length_singleton] at hlen
    have hfd : fd' ≠ fd := by
      rintro rfl
      simp [Book.login] at hnumber
    simp only [Book.login, hfd, if_false] at hnumber
    have hfind'' := hold fd' player' hfd hfind'
    rw [hloggers]
    intro hmem
    rcases List.mem_append.mp hmem with hmem | hmem
    · exact h.waiting (by omega) fd' player' hfind'' hnumber hmem
    · exact hfd (h.holder_inj fd' fd player' player hfind'' hfind
        (List.mem_singleton.mp hmem))

/-- Players that leave take nothing from the book. -/
theorem BookInv.other
    {w w' : World} {tr out : List Observation} (h : BookInv w tr)
    (hsessions : ∀ fd player, w'.getUser fd = some player →
      w.getUser fd = some player)
    (hcounter : w'.uuidCounter = w.uuidCounter)
    (hquiet : LoginQuiet out) :
    BookInv w' (tr ++ out) := by
  have hbook : book (tr ++ out) = book tr := by
    rw [book_append, foldl_note_quiet _ hquiet]
  refine ⟨?_, ?_, ?_, ?_, ?_, ?_, ?_⟩
  all_goals rw [hbook]
  · rw [hcounter]
    exact h.counter
  · intro fd player hfind
    exact h.knows fd player (hsessions fd player hfind)
  · intro fd fd' player player' hfind hfind'
    exact h.holder_inj fd fd' player player'
      (hsessions fd player hfind) (hsessions fd' player' hfind')
  · exact h.logger_lt
  · rw [loginUuids_append, loginUuids_quiet hquiet, List.append_nil]
    exact h.told
  · exact h.once
  · intro hlen fd player hfind
    exact h.waiting hlen fd player (hsessions fd player hfind)

theorem BookInv.move
    {w w' : World} {tr out : List Observation} (h : BookInv w tr)
    (hmove : Move w out w') :
    BookInv w' (tr ++ out) := by
  cases hmove.loginMove with
  | join client hnew =>
      exact h.join client hnew
  | login hfind huuid hsessions hcounter hnote hout =>
      exact h.login hfind huuid hsessions hcounter hnote hout
  | other hsessions hcounter hquiet =>
      exact h.other hsessions hcounter hquiet

/-- The book of every run agrees with the world. -/
theorem bookInv_run (codec : Codec) (events : List WorldEvent) :
    BookInv (World.run codec events).1 (World.run codec events).2 :=
  run_invariant_of_all_moves bookInv_init
    (fun _ _ _ _ hmove h => h.move hmove) events

end Invariant

section Growth

/-- One more observation adds at most one login to the book. -/
theorem Book.loggers_prefix_note (b : Book) (o : Observation) :
    b.loggers <+: (b.note o).loggers := by
  cases o with
  | accepted fd uuid msg =>
      cases msg with
      | CSLogin =>
          exact List.prefix_append _ _
      | CSReady | CSFrame =>
          exact List.prefix_refl _
  | joined | exited | read | running | send | broadcast =>
      exact List.prefix_refl _

/-- Logins are only ever added to the book. -/
theorem loggers_prefix (tr out : List Observation) :
    (book tr).loggers <+: (book (tr ++ out)).loggers := by
  induction out using List.reverseRecOn with
  | nil =>
      simp
  | append_singleton out o ih =>
      rw [← List.append_assoc, book_append (tr ++ out)]
      exact ih.trans (Book.loggers_prefix_note _ o)

theorem loggers_prefix_run
    (codec : Codec) {before events : List WorldEvent}
    (hbefore : before <+: events) :
    (book (World.run codec before).2).loggers <+:
      (book (World.run codec events).2).loggers := by
  obtain ⟨after, rfl⟩ := hbefore
  rw [World.run, World.run, Machine.run_append]
  exact loggers_prefix _ _

end Growth

end LockStep
end NetEngine
