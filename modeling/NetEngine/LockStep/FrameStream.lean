import NetEngine.LockStep.FrameHistory
import NetEngine.LockStep.SessionTable

/-!
# Frame stream

`Broadcast` walks the session table and sends to the client of each session.
What one client is sent in a run is therefore decided by when it held a session,
and that can be read off the trace: a join takes the seat at a socket number
and an exit, of whatever client with that number, leaves it empty.

While a client holds its seat it is sent every broadcast once and in order, the
SCFrames under consecutive numbers; while it does not it is sent nothing.  A
message is sent when it is handed to `ClientSocket::Send`, which may drop it.
-/

namespace NetEngine
namespace LockStep

open Net

section Seats

/-- What an observation does to the seat at a socket number. -/
def seatNote (fd : SOCKET) (seat : Option Client) :
    Observation → Option Client
  | .joined client => if client.sockfd = fd then some client else seat
  | .exited client => if client.sockfd = fd then none else seat
  | _ => seat

/-- Client who holds the session at a socket number after a trace. -/
def seatAt (fd : SOCKET) (tr : List Observation) : Option Client :=
  tr.foldl (seatNote fd) none

/-- What an observation holds for a client who has a seat. -/
def addressedTo (client : Client) : Observation → List SCMessage
  | .send client' msg => if client' = client then [msg] else []
  | .broadcast _ msg => [msg]
  | _ => []

/-- What a trace holds for a client, who has a seat only at times. -/
def streamTo (client : Client) :
    Option Client → List Observation → List SCMessage
  | _, [] => []
  | seat, o :: rest =>
      (if seat = some client then addressedTo client o else []) ++
        streamTo client (seatNote client.sockfd seat o) rest

/-- A client has its seat at every observation of a part of a trace. -/
def SeatedDuring (client : Client)
    (before during : List Observation) : Prop :=
  ∀ part o rest, during = part ++ o :: rest →
    seatAt client.sockfd (before ++ part) = some client

/-- The observations that neither move a client nor reach one. -/
def SeatQuiet (o : Observation) : Prop :=
  match o with
  | .read _ _ | .accepted _ _ _ | .running => True
  | _ => False

theorem seatAt_append (fd : SOCKET) (tr out : List Observation) :
    seatAt fd (tr ++ out) = out.foldl (seatNote fd) (seatAt fd tr) := by
  rw [seatAt, List.foldl_append, seatAt]

theorem foldl_seatNote_quiet
    (fd : SOCKET) (seat : Option Client) {out : List Observation}
    (h : ∀ o ∈ out, SeatQuiet o) :
    out.foldl (seatNote fd) seat = seat := by
  induction out with
  | nil =>
      rfl
  | cons o out ih =>
      have hfirst : seatNote fd seat o = seat := by
        cases o with
        | read | accepted | running | send | broadcast =>
            rfl
        | joined | exited =>
            exact (h _ List.mem_cons_self).elim
      rw [List.foldl_cons, hfirst]
      exact ih (fun o' ho' => h o' (List.mem_cons_of_mem _ ho'))

end Seats

section Table

/--
An observation reaches the clients who have a seat, each of them once if it is
a broadcast.  A message to one client is never an SCFrame.
-/
def Reaches (before : List Observation) : Observation → Prop
  | .send client msg =>
      seatAt client.sockfd before = some client ∧
        ∀ frame, msg ≠ .SCFrame frame
  | .broadcast clients _ =>
      ∀ client, clients.filter (fun client' => client' = client) =
        if seatAt client.sockfd before = some client then [client] else []
  | _ => True

/-- The session table holds the seats of the trace. -/
structure SeatInv (w : World) (tr : List Observation) : Prop where
  seats : ∀ fd, w.clientAt fd = seatAt fd tr
  keyed : ∀ fd client, w.clientAt fd = some client → client.sockfd = fd
  reach : Machine.Traced Reaches tr

variable {w w' : World} {tr out : List Observation}

theorem seatInv_init : SeatInv {} [] := by
  refine ⟨fun _ => rfl, ?_, Machine.Traced.nil _⟩
  intro fd client hclient
  cases hclient

/-- A client occurs in the table once, at its own socket number, or never. -/
theorem World.clients_filter
    (hkeyed : ∀ fd client, w.clientAt fd = some client →
      client.sockfd = fd) (client : Client) :
    w.clients.filter (fun client' => client' = client) =
      if w.clientAt client.sockfd = some client then [client] else [] := by
  have hentries : w.sessions.entries.filter
        (fun e => e.2.client = client) =
      (w.sessions.entries.filter (fun e => e.1 = client.sockfd)).filter
        (fun e => e.2.client = client) := by
    rw [List.filter_filter]
    apply List.filter_congr
    rintro ⟨fd, player⟩ hmem
    have hfind := (w.sessions.mem_entries_iff fd player).mp hmem
    by_cases hclient : player.client = client
    · have hfd : client.sockfd = fd := by
        apply hkeyed fd client
        rw [World.clientAt, World.getUser, hfind, Option.map_some, hclient]
      simp [hclient, hfd]
    · simp [hclient]
  have hfilter : w.clients.filter (fun client' => client' = client) =
      (w.sessions.entries.filter (fun e => e.2.client = client)).map
        (fun e => e.2.client) := by
    rw [World.clients, List.filter_map]
    rfl
  rw [hfilter, hentries, OrderedMap.filter_entries_key, World.clientAt,
    World.getUser]
  cases w.sessions.find? client.sockfd with
  | none =>
      rfl
  | some player =>
      by_cases hclient : player.client = client
      · simp [hclient]
      · simp [hclient]

/-- Observations that concern no seat, in a world with the same table. -/
theorem SeatInv.quiet
    (h : SeatInv w tr) (hsame : ∀ fd, w'.clientAt fd = w.clientAt fd)
    (hquiet : ∀ o ∈ out, SeatQuiet o) :
    SeatInv w' (tr ++ out) := by
  refine ⟨?_, ?_, h.reach.append ?_⟩
  · intro fd
    rw [hsame, h.seats, seatAt_append, foldl_seatNote_quiet fd _ hquiet]
  · intro fd client hclient
    rw [hsame] at hclient
    exact h.keyed fd client hclient
  · intro o ho before
    cases o with
    | read | accepted | running | joined | exited =>
        trivial
    | send | broadcast =>
        exact (hquiet _ ho).elim

/-- A message to the client of a session. -/
theorem SeatInv.send
    (h : SeatInv w tr) {client : Client} (msg : SCMessage)
    (hclient : w.clientAt client.sockfd = some client)
    (hmsg : ∀ frame, msg ≠ .SCFrame frame) :
    SeatInv w (tr ++ [.send client msg]) := by
  refine ⟨?_, h.keyed, h.reach.concat ⟨?_, hmsg⟩⟩
  · intro fd
    rw [h.seats, seatAt_append]
    rfl
  · rw [← h.seats]
    exact hclient

theorem SeatInv.broadcast (h : SeatInv w tr) (msg : SCMessage) :
    SeatInv w (tr ++ w.broadcast msg) := by
  refine ⟨?_, h.keyed, h.reach.concat ?_⟩
  · intro fd
    rw [h.seats, seatAt_append]
    rfl
  · intro client
    rw [w.clients_filter h.keyed, h.seats]

theorem SeatInv.join
    (h : SeatInv w tr) {client : Client}
    (hnew : w.getUser client.sockfd = none) :
    SeatInv (w.registerUser client) (tr ++ [.joined client]) := by
  have hnone : w.clientAt client.sockfd = none := by
    rw [World.clientAt, hnew, Option.map_none]
  refine ⟨?_, ?_, h.reach.concat trivial⟩
  · intro fd
    rw [World.clientAt_registerUser hnone, h.seats, seatAt_append]
    simp only [List.foldl_cons, List.foldl_nil, seatNote, eq_comm]
  · intro fd client' hclient'
    rw [World.clientAt_registerUser hnone] at hclient'
    split_ifs at hclient' with hfd
    · cases hclient'
      exact hfd.symm
    · exact h.keyed fd client' hclient'

theorem SeatInv.exit (h : SeatInv w tr) (client : Client) :
    SeatInv (w.deleteUser client) (tr ++ [.exited client]) := by
  refine ⟨?_, ?_, h.reach.concat trivial⟩
  · intro fd
    rw [World.clientAt_deleteUser, h.seats, seatAt_append]
    simp only [List.foldl_cons, List.foldl_nil, seatNote, eq_comm]
  · intro fd client' hclient'
    rw [World.clientAt_deleteUser] at hclient'
    split_ifs at hclient' with hfd
    exact h.keyed fd client' hclient'

/-- A login keeps the clients of the sessions. -/
theorem World.clientAt_login
    {fd : SOCKET} {player : Player} (hfind : w.getUser fd = some player)
    (fd' : SOCKET) :
    (w.login fd player).clientAt fd' = w.clientAt fd' := by
  rw [World.getUser] at hfind
  simp only [World.clientAt, World.getUser, World.login,
    OrderedMap.find?_modify]
  split_ifs with hfd
  · simp [hfd, hfind]
  · rfl

theorem SeatInv.login
    (h : SeatInv w tr) (client : Client) (body : MessageBody)
    {player : Player} (hfind : w.getUser client.sockfd = some player) :
    SeatInv (w.login client.sockfd player).pop
      (tr ++ (.read client body :: .accepted client.sockfd 0 .CSLogin ::
        .send player.client (.SCLogin (w.uuidCounter + 1)) ::
        (w.frameInit player ++
          (w.login client.sockfd player).sendLoginInfo))) := by
  have hclient : (w.login client.sockfd player).pop.clientAt
      player.client.sockfd = some player.client := by
    have hold : w.clientAt client.sockfd = some player.client := by
      rw [World.clientAt, hfind, Option.map_some]
    have hfd := h.keyed _ _ hold
    rw [hfd]
    exact (World.clientAt_login hfind client.sockfd).trans hold
  have hread : SeatInv (w.login client.sockfd player).pop
      (tr ++ [.read client body, .accepted client.sockfd 0 .CSLogin]) := by
    refine h.quiet (fun fd => World.clientAt_login hfind fd) ?_
    simp [SeatQuiet]
  have hlogin := hread.send (.SCLogin (w.uuidCounter + 1)) hclient
    (fun _ h => by cases h)
  have hinit := hlogin.send (.SCFrameInit ⟨w.curFrameID, w.nxtFrameID⟩)
    hclient (fun _ h => by cases h)
  have hsight := hinit.broadcast (.SCSight
    ((w.login client.sockfd player).sessions.entries.map (fun e =>
      ⟨e.2.UUID, e.2.posX, e.2.posY, e.2.posZ⟩)))
  simpa [World.frameInit, World.sendLoginInfo, World.broadcast,
    World.clients, World.pop] using hsight

theorem SeatInv.move (h : SeatInv w tr) (hmove : Move w out w') :
    SeatInv w' (tr ++ out) := by
  cases hmove with
  | idle | push =>
      exact h.quiet (fun _ => rfl) (by simp)
  | join client hnew =>
      exact h.join hnew
  | exit client player hold =>
      exact h.exit client
  | ignore | readyEarly | ready | start | frame =>
      exact h.quiet (fun _ => rfl) (by simp [SeatQuiet])
  | login client body player hfind huuid =>
      exact h.login client body hfind
  | turn hrun =>
      have hturn : SeatInv w.frameTurn.1 (tr ++ []) :=
        h.quiet (fun _ => rfl) (by simp)
      rw [List.append_nil] at hturn
      exact hturn.broadcast _

theorem seatInv_run (codec : Codec) (events : List WorldEvent) :
    SeatInv (World.run codec events).1 (World.run codec events).2 :=
  run_invariant_of_all_moves seatInv_init
    (fun _ _ _ _ hmove h => h.move hmove) events

end Table

section Streams

variable {before during after : List Observation} {client : Client}

/-- What a client is sent by one observation. -/
theorem deliveredTo_eq {o : Observation} (h : Reaches before o) :
    deliveredTo client o =
      if seatAt client.sockfd before = some client
      then addressedTo client o else [] := by
  cases o with
  | joined | exited | read | accepted | running =>
      simp [deliveredTo, addressedTo]
  | send client' msg =>
      obtain ⟨hseat, -⟩ := h
      by_cases hclient : client' = client
      · subst hclient
        simp [deliveredTo, addressedTo, hseat]
      · simp [deliveredTo, addressedTo, hclient]
  | broadcast clients msg =>
      simp only [deliveredTo, addressedTo, h client]
      split_ifs
      · rfl
      · rfl

theorem receivedBy_eq_streamTo
    (before : List Observation) {tr : List Observation}
    (h : Machine.Traced Reaches (before ++ tr)) :
    receivedBy client tr =
      streamTo client (seatAt client.sockfd before) tr := by
  induction tr generalizing before with
  | nil =>
      rfl
  | cons o tr ih =>
      have hfirst : Reaches before o := h before o tr rfl
      have hseat : seatNote client.sockfd (seatAt client.sockfd before) o =
          seatAt client.sockfd (before ++ [o]) := by
        rw [seatAt_append]
        rfl
      have hrest : receivedBy client tr =
          streamTo client (seatAt client.sockfd (before ++ [o])) tr :=
        ih (before ++ [o]) (by simpa using h)
      rw [streamTo, hseat, ← hrest, ← deliveredTo_eq hfirst]
      rfl

/--
A client is sent in a run exactly what is addressed to it while it has a seat:
each broadcast once, and all in the order of the trace.
-/
theorem receivedBy_run
    (codec : Codec) (events : List WorldEvent) (client : Client) :
    receivedBy client (World.run codec events).2 =
      streamTo client none (World.run codec events).2 :=
  receivedBy_eq_streamTo [] (seatInv_run codec events).reach

/-- A client whose seat nothing touches keeps it. -/
theorem seatedDuring_of_stays
    (hseat : seatAt client.sockfd before = some client)
    (hstays : ∀ o ∈ during,
      seatNote client.sockfd (some client) o = some client) :
    SeatedDuring client before during := by
  rintro part o rest rfl
  have hpart : part.foldl (seatNote client.sockfd) (some client) =
      some client := by
    have hmem : ∀ o' ∈ part,
        seatNote client.sockfd (some client) o' = some client :=
      fun o' ho' => hstays o' (List.mem_append_left _ ho')
    clear hstays
    induction part with
    | nil =>
        rfl
    | cons first part ih =>
        rw [List.foldl_cons, hmem first List.mem_cons_self]
        exact ih (fun o' ho' => hmem o' (List.mem_cons_of_mem _ ho'))
  rw [seatAt_append, hseat, hpart]

theorem SeatedDuring.tail
    {o : Observation} (h : SeatedDuring client before (o :: during)) :
    SeatedDuring client (before ++ [o]) during := by
  rintro part o' rest rfl
  have hpart := h (o :: part) o' rest rfl
  simpa using hpart

/-- Who keeps its seat is sent everything addressed to it. -/
theorem receivedBy_of_seatedDuring
    (h : Machine.Traced Reaches (before ++ during))
    (hseated : SeatedDuring client before during) :
    receivedBy client during = during.flatMap (addressedTo client) := by
  induction during generalizing before with
  | nil =>
      rfl
  | cons o during ih =>
      have hseat : seatAt client.sockfd before = some client := by
        simpa using hseated [] o during rfl
      have hfirst : deliveredTo client o = addressedTo client o := by
        rw [deliveredTo_eq (h before o during rfl), if_pos hseat]
      have hrest : receivedBy client during =
          during.flatMap (addressedTo client) :=
        ih (by simpa using h) hseated.tail
      rw [List.flatMap_cons, ← hrest, ← hfirst]
      rfl

/-- SCFrames among messages. -/
def framesIn (msgs : List SCMessage) : List SCFrame :=
  msgs.filterMap (fun msg =>
    match msg with
    | .SCFrame frame => some frame
    | _ => none)

/-- The SCFrames addressed to a client are those that are built. -/
theorem framesIn_addressedTo
    (before : List Observation)
    (h : Machine.Traced Reaches (before ++ during)) :
    framesIn (during.flatMap (addressedTo client)) =
      framesBuilt during := by
  induction during generalizing before with
  | nil =>
      rfl
  | cons o during ih =>
      have hfirst : framesIn (addressedTo client o) =
          (frameOf o).toList := by
        have hreach : Reaches before o := h before o during rfl
        cases o with
        | joined | exited | read | accepted | running =>
            rfl
        | send client' msg =>
            simp only [addressedTo, frameOf]
            split_ifs
            · cases msg with
              | SCFrame frame =>
                  exact absurd rfl (hreach.2 frame)
              | SCLogin | SCFrameInit | SCSight =>
                  rfl
            · rfl
        | broadcast clients msg =>
            cases msg <;> rfl
      have hrest : framesIn (during.flatMap (addressedTo client)) =
          framesBuilt during :=
        ih (before ++ [o]) (by simpa using h)
      have hsplit : framesIn ((o :: during).flatMap (addressedTo client)) =
          framesIn (addressedTo client o) ++
            framesIn (during.flatMap (addressedTo client)) := by
        simp [framesIn]
      rw [hsplit, hfirst, hrest]
      cases hframe : frameOf o with
      | none =>
          simp [framesBuilt, hframe]
      | some frame =>
          simp [framesBuilt, hframe]

theorem reaches_part
    (codec : Codec) (events : List WorldEvent)
    (htrace : (World.run codec events).2 = before ++ during ++ after) :
    Machine.Traced Reaches (before ++ during) := by
  have hall := (seatInv_run codec events).reach
  rw [htrace] at hall
  rintro part o rest heq
  exact hall part o (rest ++ after) (by rw [heq]; simp)

/-- The frames of a part of a trace are numbered from where it begins. -/
theorem numbered_part
    (codec : Codec) (events : List WorldEvent)
    (htrace : (World.run codec events).2 = before ++ during ++ after) :
    ∀ k frame, (framesBuilt during)[k]? = some frame →
      frame.frameid = UInt64.ofNat ((framesBuilt before).length + k) ∧
        frame.nextframeid =
          UInt64.ofNat ((framesBuilt before).length + k + 1) := by
  intro k frame hget
  have hlt := (List.getElem?_eq_some_iff.mp hget).1
  apply (numberingInv_run codec events).ids
  rw [htrace, framesBuilt_append, framesBuilt_append,
    List.getElem?_append_left (by rw [List.length_append]; omega),
    List.getElem?_append_right (by omega)]
  simpa using hget

/--
As long as a client has its seat it is sent the SCFrames that are built, each of
them once, in their order and under consecutive numbers.
-/
theorem frames_of_seated
    (codec : Codec) (events : List WorldEvent)
    (htrace : (World.run codec events).2 = before ++ during ++ after)
    (hseated : SeatedDuring client before during) :
    framesIn (receivedBy client during) = framesBuilt during ∧
    ∀ k frame, (framesIn (receivedBy client during))[k]? = some frame →
      frame.frameid = UInt64.ofNat ((framesBuilt before).length + k) ∧
        frame.nextframeid =
          UInt64.ofNat ((framesBuilt before).length + k + 1) := by
  have hreach := reaches_part codec events htrace
  have hframes : framesIn (receivedBy client during) =
      framesBuilt during := by
    rw [receivedBy_of_seatedDuring hreach hseated,
      framesIn_addressedTo before hreach]
  refine ⟨hframes, ?_⟩
  rw [hframes]
  exact numbered_part codec events htrace

/-- Trace of a player who plays alone for two turns. -/
def twoTurns : List Observation :=
  (World.run plainCodec
    (soloGame ⟨0, 4⟩ ++ [turnTick, turnTick])).2

/-- The player has its seat from the join on and is sent both frames. -/
theorem frames_of_seated_two :
    framesIn (receivedBy ⟨0, 4⟩ (twoTurns.drop 1)) =
      framesBuilt (twoTurns.drop 1) :=
  (@frames_of_seated (twoTurns.take 1) (twoTurns.drop 1) [] ⟨0, 4⟩
    plainCodec (soloGame ⟨0, 4⟩ ++ [turnTick, turnTick]) rfl
    (seatedDuring_of_stays rfl (by decide))).1

end Streams

end LockStep
end NetEngine
