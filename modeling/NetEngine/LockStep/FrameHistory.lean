import Mathlib.Data.List.DropRight
import NetEngine.LockStep.Reception

/-!
# History of the frames

What becomes of the keys that clients send.  `HandleFrame` appends the keys of a
message to the pool of the uuid written in it, and `FrameTurn` empties the pool
into an SCFrame and into the archive.

A trace is cut at its last SCFrame.  Keys sent before the cut were broadcast,
keys sent after it are pending, and the order under each uuid is the order of
sending.  Conservation of input and the numbering of frames follow for all runs;
what was sent is taken from the events of the run, not from the handler.
Whose keys are broadcast is another matter: the uuid is the sender's word, so
authenticity holds exactly in the runs in which every sender writes its own.
-/

namespace NetEngine
namespace LockStep

open Net

section Projections

/-- SCFrame that an observation shows being broadcast. -/
def frameOf : Observation → Option SCFrame
  | .broadcast _ (.SCFrame frame) => some frame
  | _ => none

/--
An accepted CSFrame and the UUID of the player it was dispatched for, as it was
at that moment.
-/
structure Input where
  sender : UInt32
  proto : CSFrame

/-- Input message that an observation shows being accepted. -/
def inputOf : Observation → Option Input
  | .accepted _ uuid (.CSFrame proto) => some ⟨uuid, proto⟩
  | _ => none

/-- SCFrames built, in order. -/
def framesBuilt (tr : List Observation) : List SCFrame :=
  tr.filterMap frameOf

/-- Input messages accepted, in order. -/
def inputs (tr : List Observation) : List Input :=
  tr.filterMap inputOf

/-- Input message of an acceptance. -/
def Acceptance.input (a : Acceptance) : Option Input :=
  match a.msg with
  | .CSFrame proto => some ⟨a.uuid, proto⟩
  | _ => none

/-- Input messages that the events of a run dispatch for sessions, in order. -/
def inputsDispatched (codec : Codec) (events : List WorldEvent) :
    List Input :=
  (Reception.accepted codec events).filterMap Acceptance.input

/-- What the handler accepts is what the events dispatch. -/
theorem inputs_run (codec : Codec) (events : List WorldEvent) :
    inputs (World.run codec events).2 = inputsDispatched codec events := by
  rw [inputsDispatched, ← acceptances_run, acceptances,
    List.filterMap_filterMap, inputs]
  apply List.filterMap_congr
  intro o _
  cases o with
  | accepted fd uuid msg =>
      cases msg with
      | CSLogin | CSReady | CSFrame =>
          rfl
  | joined | exited | read | running | send | broadcast =>
      rfl

@[simp] theorem framesBuilt_append (tr out : List Observation) :
    framesBuilt (tr ++ out) = framesBuilt tr ++ framesBuilt out :=
  List.filterMap_append

@[simp] theorem inputs_append (tr out : List Observation) :
    inputs (tr ++ out) = inputs tr ++ inputs out :=
  List.filterMap_append

/-- The part of a trace up to its last SCFrame. -/
def settled (tr : List Observation) : List Observation :=
  tr.rdropWhile (fun o => (frameOf o).isNone)

/-- Observations without an SCFrame settle nothing. -/
theorem settled_append_of_noFrame
    (tr : List Observation) {out : List Observation}
    (h : framesBuilt out = []) :
    settled (tr ++ out) = settled tr := by
  have hnone : ∀ o ∈ out.reverse, (frameOf o).isNone = true := by
    intro o ho
    have hframe := List.filterMap_eq_nil_iff.mp h o (List.mem_reverse.mp ho)
    simp [hframe]
  unfold settled List.rdropWhile
  rw [List.reverse_append, List.dropWhile_append_of_pos hnone]

/-- An SCFrame settles everything before it. -/
theorem settled_frame
    (tr : List Observation) {o : Observation} {frame : SCFrame}
    (h : frameOf o = some frame) :
    settled (tr ++ [o]) = tr ++ [o] :=
  List.rdropWhile_concat_neg _ _ _ (by simp [h])

end Projections

section Keys

/-- Keys of the messages that carry a uuid, in order. -/
def keysSent (u : UInt32) (ins : List Input) : List UInt32 :=
  (ins.filter (fun i => i.proto.uuid = u)).flatMap
    (fun i => i.proto.keyinfo)

/-- Keys listed under a uuid in a list of users. -/
def keysUnder (u : UInt32) (users : List UserFrame) : List UInt32 :=
  (users.filter (fun user => user.uuid = u)).flatMap
    (fun user => user.keyinfo)

/-- Keys under a uuid in SCFrames, in frame order. -/
def keysBroadcast (u : UInt32) (frames : List SCFrame) : List UInt32 :=
  frames.flatMap (fun frame => keysUnder u frame.users)

/-- `m_curFrameInfo[u]`. -/
def World.pendingKeys (w : World) (u : UInt32) : List UInt32 :=
  (w.curFrameInfo.find? u).getD []

@[simp] theorem keysSent_append (u : UInt32) (ins ins' : List Input) :
    keysSent u (ins ++ ins') = keysSent u ins ++ keysSent u ins' := by
  simp [keysSent]

@[simp] theorem keysBroadcast_append
    (u : UInt32) (frames frames' : List SCFrame) :
    keysBroadcast u (frames ++ frames') =
      keysBroadcast u frames ++ keysBroadcast u frames' := by
  simp [keysBroadcast]

theorem keysSent_singleton (u : UInt32) (i : Input) :
    keysSent u [i] = if i.proto.uuid = u then i.proto.keyinfo else [] := by
  by_cases h : i.proto.uuid = u <;> simp [keysSent, h]

/-- The users built from a pool carry its keys. -/
theorem keysUnder_usersOf (u : UInt32) (pool : UID2KeyPool) :
    keysUnder u (World.usersOf pool) = (pool.find? u).getD [] := by
  have hfilter := pool.filter_entries_key u
  unfold keysUnder World.usersOf
  rw [List.filter_map]
  simp only [Function.comp_def]
  rw [hfilter]
  cases pool.find? u with
  | none =>
      rfl
  | some keys =>
      simp

/-- `push_back` of one key, seen by a lookup. -/
theorem find?_pushKey
    (uuid j key : UInt32) (pool : UID2KeyPool) :
    (World.pushKey uuid pool key).find? j =
      if j = uuid then some ((pool.find? uuid).getD [] ++ [key])
      else pool.find? j := by
  unfold World.pushKey
  rw [OrderedMap.find?_modify, OrderedMap.find?_insertNew]
  split_ifs with h
  · rfl
  · rfl

/-- The loop of `HandleFrame` appends the message's keys under its uuid. -/
theorem find?_pushKeys
    (uuid j : UInt32) (keys : List UInt32) (pool : UID2KeyPool) :
    ((keys.foldl (World.pushKey uuid) pool).find? j).getD [] =
      (pool.find? j).getD [] ++ (if uuid = j then keys else []) := by
  induction keys generalizing pool with
  | nil =>
      simp
  | cons key keys ih =>
      rw [List.foldl_cons, ih, find?_pushKey]
      by_cases h : uuid = j
      · simp [h]
      · have h' : ¬ j = uuid := fun hj => h hj.symm
        simp [h, h']

/-- No uuid has an empty list of keys. -/
def NoEmptyKeys (pool : UID2KeyPool) : Prop :=
  ∀ e ∈ pool.entries, e.2 ≠ []

theorem NoEmptyKeys.pushKeys
    {pool : UID2KeyPool} (h : NoEmptyKeys pool) (uuid : UInt32)
    (keys : List UInt32) :
    NoEmptyKeys (keys.foldl (World.pushKey uuid) pool) := by
  induction keys generalizing pool with
  | nil =>
      exact h
  | cons key keys ih =>
      apply ih
      rintro ⟨j, keys'⟩ hmem
      rw [OrderedMap.mem_entries_iff, find?_pushKey] at hmem
      split_ifs at hmem with hj
      · cases hmem
        simp
      · exact h (j, keys') ((pool.mem_entries_iff j keys').mpr hmem)

end Keys

/-- Two worlds agree on everything that concerns frames. -/
structure SameFrames (w w' : World) : Prop where
  cur : w'.curFrameID = w.curFrameID
  nxt : w'.nxtFrameID = w.nxtFrameID
  old : w'.oldFrameInfo = w.oldFrameInfo

/-- What a move means for the frames. -/
inductive FrameMove (w : World) (out : List Observation) (w' : World) : Prop
  | quiet (hframes : framesBuilt out = []) (hinputs : inputs out = [])
      (hsame : SameFrames w w') (hinfo : w'.curFrameInfo = w.curFrameInfo)
  | input (i : Input)
      (hframes : framesBuilt out = []) (hinputs : inputs out = [i])
      (hsame : SameFrames w w')
      (hinfo : w'.curFrameInfo =
        i.proto.keyinfo.foldl (World.pushKey i.proto.uuid) w.curFrameInfo)
  | turn (hout : out = w.frameTurn.2) (hworld : w' = w.frameTurn.1)

theorem Move.frameMove
    {w w' : World} {out : List Observation} (h : Move w out w') :
    FrameMove w out w' := by
  cases h with
  | idle | join | exit | push | ignore | login | readyEarly | ready
  | start =>
      exact FrameMove.quiet rfl rfl ⟨rfl, rfl, rfl⟩ rfl
  | frame client body player proto hfind =>
      exact FrameMove.input ⟨player.UUID, proto⟩ rfl rfl
        ⟨rfl, rfl, rfl⟩ rfl
  | turn hrun =>
      exact FrameMove.turn rfl rfl

/-- SCFrame of the next turn. -/
def World.nextFrame (w : World) : SCFrame :=
  ⟨w.nxtFrameID, w.nxtFrameID + 1, World.usersOf w.curFrameInfo⟩

theorem framesBuilt_frameTurn (w : World) :
    framesBuilt w.frameTurn.2 = [w.nextFrame] := by
  rfl

theorem inputs_frameTurn (w : World) :
    inputs w.frameTurn.2 = [] := by
  rfl

theorem settled_frameTurn (tr : List Observation) (w : World) :
    settled (tr ++ w.frameTurn.2) = tr ++ w.frameTurn.2 := by
  have hframe :
      frameOf (.broadcast w.frameTurn.1.clients (.SCFrame w.nextFrame)) =
        some w.nextFrame := rfl
  exact settled_frame tr hframe

/-- Users of an SCFrame: uuids increase and nobody lists no keys. -/
structure UsersListed (users : List UserFrame) : Prop where
  increasing : users.Pairwise (fun a b => a.uuid < b.uuid)
  nonempty : ∀ user ∈ users, user.keyinfo ≠ []

theorem usersListed_usersOf
    {pool : UID2KeyPool} (h : NoEmptyKeys pool) :
    UsersListed (World.usersOf pool) := by
  constructor
  · exact List.pairwise_map.mpr pool.increasing
  · intro user huser
    obtain ⟨e, he, rfl⟩ := List.mem_map.mp huser
    exact h e he

/--
What the keys of a run satisfy: those before the last SCFrame were broadcast,
the others are pending, and no pool or SCFrame has an empty list of keys.
-/
structure KeysInv (w : World) (tr : List Observation) : Prop where
  broadcast : ∀ u,
    keysBroadcast u (framesBuilt tr) = keysSent u (inputs (settled tr))
  pending : ∀ u,
    keysSent u (inputs tr) =
      keysSent u (inputs (settled tr)) ++ w.pendingKeys u
  nonempty : NoEmptyKeys w.curFrameInfo
  users : ∀ frame ∈ framesBuilt tr, UsersListed frame.users

theorem KeysInv.move
    {w w' : World} {tr out : List Observation}
    (h : KeysInv w tr) (hmove : Move w out w') :
    KeysInv w' (tr ++ out) := by
  cases hmove.frameMove with
  | quiet hframes hinputs hsame hinfo =>
      refine ⟨?_, ?_, ?_, ?_⟩
      · intro u
        rw [framesBuilt_append, hframes, List.append_nil,
          settled_append_of_noFrame tr hframes]
        exact h.broadcast u
      · intro u
        rw [inputs_append, hinputs, List.append_nil,
          settled_append_of_noFrame tr hframes, World.pendingKeys, hinfo]
        exact h.pending u
      · rw [hinfo]
        exact h.nonempty
      · rw [framesBuilt_append, hframes, List.append_nil]
        exact h.users
  | input i hframes hinputs hsame hinfo =>
      refine ⟨?_, ?_, ?_, ?_⟩
      · intro u
        rw [framesBuilt_append, hframes, List.append_nil,
          settled_append_of_noFrame tr hframes]
        exact h.broadcast u
      · intro u
        rw [inputs_append, hinputs, settled_append_of_noFrame tr hframes,
          keysSent_append, keysSent_singleton, h.pending u,
          World.pendingKeys, World.pendingKeys, hinfo, find?_pushKeys,
          List.append_assoc]
      · rw [hinfo]
        exact h.nonempty.pushKeys _ _
      · rw [framesBuilt_append, hframes, List.append_nil]
        exact h.users
  | turn hout hworld =>
      subst hout hworld
      refine ⟨?_, ?_, ?_, ?_⟩
      · -- everything pending is in the new SCFrame
        intro u
        rw [framesBuilt_append, framesBuilt_frameTurn,
          settled_frameTurn, inputs_append, inputs_frameTurn,
          List.append_nil, keysBroadcast_append, h.broadcast u,
          h.pending u]
        simp [keysBroadcast, World.nextFrame, keysUnder_usersOf,
          World.pendingKeys]
      · intro u
        rw [settled_frameTurn]
        simp [World.pendingKeys, World.frameTurn]
      · intro e he
        simp [World.frameTurn, OrderedMap.empty] at he
      · intro frame hframe
        rw [framesBuilt_append, framesBuilt_frameTurn] at hframe
        rcases List.mem_append.mp hframe with hframe | hframe
        · exact h.users frame hframe
        · rw [List.mem_singleton.mp hframe]
          exact usersListed_usersOf h.nonempty

theorem keysInv_init :
    KeysInv {} [] := by
  refine ⟨fun u => rfl, fun u => rfl, ?_, ?_⟩
  · intro e he
    simp [OrderedMap.empty] at he
  · intro frame hframe
    simp [framesBuilt] at hframe

theorem keysInv_run (codec : Codec) (events : List WorldEvent) :
    KeysInv (World.run codec events).1 (World.run codec events).2 :=
  run_invariant_of_all_moves keysInv_init
    (fun _ _ _ _ hmove h => h.move hmove) events

/--
Frame numbers count the SCFrames built, modulo the width of the counters, and
the archive lists them while the numbers are distinct.
-/
structure NumberingInv (w : World) (tr : List Observation) : Prop where
  cur : w.curFrameID = UInt64.ofNat ((framesBuilt tr).length - 1)
  nxt : w.nxtFrameID = UInt64.ofNat (framesBuilt tr).length
  ids : ∀ i frame, (framesBuilt tr)[i]? = some frame →
    frame.frameid = UInt64.ofNat i ∧
      frame.nextframeid = UInt64.ofNat (i + 1)
  old : (framesBuilt tr).length ≤ 2 ^ 64 →
    w.oldFrameInfo.entries.map (fun e => (e.1, World.usersOf e.2)) =
      (framesBuilt tr).map (fun frame => (frame.frameid, frame.users))

theorem numberingInv_init :
    NumberingInv {} [] := by
  refine ⟨rfl, rfl, ?_, fun _ => rfl⟩
  intro i frame hframe
  simp [framesBuilt] at hframe

/-- The next number is above every archived one. -/
theorem NumberingInv.keys_lt
    {w : World} {tr : List Observation} (h : NumberingInv w tr)
    (hlen : (framesBuilt tr).length < 2 ^ 64) :
    ∀ j ∈ w.oldFrameInfo.keys, j < w.nxtFrameID := by
  intro j hj
  have hkeys :
      w.oldFrameInfo.keys =
        (framesBuilt tr).map (fun frame => frame.frameid) := by
    have hfst := congrArg (List.map Prod.fst) (h.old (by omega))
    rw [List.map_map, List.map_map] at hfst
    exact hfst
  rw [hkeys] at hj
  obtain ⟨frame, hframe, rfl⟩ := List.mem_map.mp hj
  obtain ⟨i, hi, hget⟩ := List.getElem_of_mem hframe
  have hid := (h.ids i frame (List.getElem?_eq_some_iff.mpr ⟨hi, hget⟩)).1
  rw [hid, h.nxt, UInt64.lt_iff_toNat_lt,
    UInt64.toNat_ofNat_of_lt' (hi.trans hlen),
    UInt64.toNat_ofNat_of_lt' hlen]
  exact hi

theorem NumberingInv.quiet
    {w w' : World} {tr out : List Observation}
    (h : NumberingInv w tr) (hframes : framesBuilt out = [])
    (hsame : SameFrames w w') :
    NumberingInv w' (tr ++ out) := by
  have hbuilt : framesBuilt (tr ++ out) = framesBuilt tr := by
    rw [framesBuilt_append, hframes, List.append_nil]
  refine ⟨?_, ?_, ?_, ?_⟩
  · rw [hbuilt, hsame.cur]
    exact h.cur
  · rw [hbuilt, hsame.nxt]
    exact h.nxt
  · rw [hbuilt]
    exact h.ids
  · rw [hbuilt, hsame.old]
    exact h.old

theorem NumberingInv.turn
    {w : World} {tr : List Observation} (h : NumberingInv w tr) :
    NumberingInv w.frameTurn.1 (tr ++ w.frameTurn.2) := by
  have hbuilt :
      framesBuilt (tr ++ w.frameTurn.2) =
        framesBuilt tr ++ [w.nextFrame] := by
    rw [framesBuilt_append, framesBuilt_frameTurn]
  have hid : w.nextFrame.frameid = UInt64.ofNat (framesBuilt tr).length :=
    h.nxt
  have hnext :
      w.nextFrame.nextframeid =
        UInt64.ofNat ((framesBuilt tr).length + 1) := by
    rw [UInt64.ofNat_add, ← h.nxt]
    rfl
  refine ⟨?_, ?_, ?_, ?_⟩
  · rw [hbuilt, List.length_append]
    exact hid
  · rw [hbuilt, List.length_append]
    exact hnext
  · intro i frame hget
    rw [hbuilt] at hget
    rcases Nat.lt_or_ge i (framesBuilt tr).length with hi | hi
    · rw [List.getElem?_append_left hi] at hget
      exact h.ids i frame hget
    · have hlt := (List.getElem?_eq_some_iff.mp hget).1
      rw [List.length_append, List.length_singleton] at hlt
      obtain rfl : i = (framesBuilt tr).length := by omega
      rw [List.getElem?_concat_length] at hget
      cases hget
      exact ⟨hid, hnext⟩
  · intro hlen
    rw [hbuilt, List.length_append, List.length_singleton] at hlen
    have hlt := h.keys_lt (by omega)
    rw [hbuilt, List.map_append, ← h.old (by omega)]
    simp only [World.frameTurn]
    rw [OrderedMap.entries_set_of_forall_lt _ _ hlt, List.map_append]
    rfl

theorem NumberingInv.move
    {w w' : World} {tr out : List Observation}
    (h : NumberingInv w tr) (hmove : Move w out w') :
    NumberingInv w' (tr ++ out) := by
  cases hmove.frameMove with
  | quiet hframes hinputs hsame hinfo =>
      exact h.quiet hframes hsame
  | input i hframes hinputs hsame hinfo =>
      exact h.quiet hframes hsame
  | turn hout hworld =>
      subst hout hworld
      exact h.turn

theorem numberingInv_run (codec : Codec) (events : List WorldEvent) :
    NumberingInv (World.run codec events).1 (World.run codec events).2 :=
  run_invariant_of_all_moves numberingInv_init
    (fun _ _ _ _ hmove h => h.move hmove) events

/--
Input conservation and frame history of a world and its trace, given the input
messages that were dispatched.
-/
structure InputConserved (w : World) (tr : List Observation)
    (ins : List Input) : Prop where
  keys : ∀ u,
    keysBroadcast u (framesBuilt tr) ++ w.pendingKeys u = keysSent u ins
  ids : ∀ i frame, (framesBuilt tr)[i]? = some frame →
    frame.frameid.toNat = i ∧ frame.nextframeid.toNat = i + 1
  users : ∀ frame ∈ framesBuilt tr, UsersListed frame.users
  archive :
    w.oldFrameInfo.entries.map (fun e => (e.1.toNat, World.usersOf e.2)) =
      (framesBuilt tr).mapIdx (fun i frame => (i, frame.users))

/--
After every run with fewer than `2 ^ 64` frames, the input dispatched is
conserved, frames are numbered from 0 and the archive lists them.
-/
theorem inputConserved_run
    (codec : Codec) (events : List WorldEvent)
    (hturns :
      (framesBuilt (World.run codec events).2).length < 2 ^ 64) :
    InputConserved (World.run codec events).1 (World.run codec events).2
      (inputsDispatched codec events) := by
  have hkeys := keysInv_run codec events
  have hnumbers := numberingInv_run codec events
  have hids : ∀ i frame,
      (framesBuilt (World.run codec events).2)[i]? = some frame →
      frame.frameid.toNat = i ∧ frame.nextframeid.toNat = i + 1 := by
    intro i frame hget
    obtain ⟨hid, hnext⟩ := hnumbers.ids i frame hget
    have hi := (List.getElem?_eq_some_iff.mp hget).1
    have hsize : UInt64.size = 2 ^ 64 := rfl
    rw [hid, hnext]
    exact ⟨UInt64.toNat_ofNat_of_lt' (by omega),
      UInt64.toNat_ofNat_of_lt' (by omega)⟩
  refine ⟨?_, hids, hkeys.users, ?_⟩
  · intro u
    rw [hkeys.broadcast u, ← hkeys.pending u, inputs_run]
  · have hold := congrArg
      (List.map (fun e : UInt64 × List UserFrame => (e.1.toNat, e.2)))
      (hnumbers.old (by omega))
    rw [List.map_map, List.map_map] at hold
    refine hold.trans ?_
    apply List.ext_getElem?
    intro i
    rw [List.getElem?_map, List.getElem?_mapIdx]
    cases hget : (framesBuilt (World.run codec events).2)[i]? with
    | none =>
        rfl
    | some frame =>
        simp [(hids i frame hget).1]

/--
The only player sends two keys before the first SCFrame and one after it, which
is pending.
-/
def twoAndOne : List WorldEvent :=
  soloGame ⟨0, 4⟩ ++ dispatched ⟨0, 4⟩ .ECSFrame [8, 1, 24, 4, 24, 2] ++
    turnTick :: dispatched ⟨0, 4⟩ .ECSFrame [8, 1, 24, 3]

example :
    keysSent 1 (inputsDispatched plainCodec twoAndOne) = [4, 2, 3] := by
  decide

theorem inputConserved_run_solo :
    InputConserved (World.run plainCodec twoAndOne).1
      (World.run plainCodec twoAndOne).2
      (inputsDispatched plainCodec twoAndOne) :=
  inputConserved_run plainCodec _ (by decide)

section Authenticity

/--
Keys of the messages that carry a uuid, each with the UUID of the player whose
message it came in.
-/
def origins (u : UInt32) (ins : List Input) : List (UInt32 × UInt32) :=
  (ins.filter (fun i => i.proto.uuid = u)).flatMap
    (fun i => i.proto.keyinfo.map (fun key => (key, i.sender)))

theorem origins_keys (u : UInt32) (ins : List Input) :
    (origins u ins).map Prod.fst = keysSent u ins := by
  simp [origins, keysSent, List.map_flatMap, Function.comp_def]

theorem mem_origins_iff
    (u : UInt32) (ins : List Input) (o : UInt32 × UInt32) :
    o ∈ origins u ins ↔
      ∃ i ∈ ins, i.proto.uuid = u ∧ o.1 ∈ i.proto.keyinfo ∧
        i.sender = o.2 := by
  constructor
  · intro ho
    obtain ⟨i, hi, hkey⟩ := List.mem_flatMap.mp ho
    obtain ⟨hmem, huuid⟩ := List.mem_filter.mp hi
    obtain ⟨key, hkeyinfo, rfl⟩ := List.mem_map.mp hkey
    exact ⟨i, hmem, by simpa using huuid, hkeyinfo, rfl⟩
  · rintro ⟨i, hmem, huuid, hkey, hsender⟩
    refine List.mem_flatMap.mpr ⟨i, ?_, ?_⟩
    · exact List.mem_filter.mpr ⟨hmem, by simpa using huuid⟩
    · exact List.mem_map.mpr ⟨o.1, hkey, Prod.ext rfl hsender⟩

/--
The keys broadcast under a uuid with their origins: keys are broadcast in the
order they are sent, so these are the first ones sent.
-/
def broadcastOrigins (u : UInt32) (tr : List Observation) :
    List (UInt32 × UInt32) :=
  (origins u (inputs tr)).take (keysBroadcast u (framesBuilt tr)).length

/-- The keys broadcast so far came in before the last SCFrame. -/
theorem KeysInv.broadcastOrigins_eq
    {w : World} {tr : List Observation} (h : KeysInv w tr) (u : UInt32) :
    broadcastOrigins u tr = origins u (inputs (settled tr)) := by
  have hlength :
      (keysBroadcast u (framesBuilt tr)).length =
        (origins u (inputs (settled tr))).length := by
    rw [h.broadcast u, ← origins_keys, List.length_map]
  obtain ⟨later, hlater⟩ : settled tr <+: tr :=
    List.rdropWhile_prefix _ _
  have hsplit :
      origins u (inputs tr) =
        origins u (inputs (settled tr)) ++ origins u (inputs later) := by
    conv_lhs => rw [← hlater]
    simp [origins]
  unfold broadcastOrigins
  rw [hlength, hsplit, List.take_left]

/-- Every key broadcast under a uuid came from the player with that UUID. -/
def Authentic (tr : List Observation) : Prop :=
  ∀ u, ∀ o ∈ broadcastOrigins u tr, o.2 = u ∧ u ≠ 0

/--
The messages accepted are those dispatched, the broadcast keys have the origins
named, and they are authentic exactly when each message with keys that is
accepted before the last SCFrame carries the UUID of the logged-in player that
it is dispatched for.
-/
theorem authentic_iff
    (codec : Codec) (events : List WorldEvent) :
    inputs (World.run codec events).2 = inputsDispatched codec events ∧
    (∀ u,
      (broadcastOrigins u (World.run codec events).2).map Prod.fst =
        keysBroadcast u (framesBuilt (World.run codec events).2)) ∧
    (Authentic (World.run codec events).2 ↔
      ∀ i ∈ inputs (settled (World.run codec events).2),
        i.proto.keyinfo ≠ [] →
          i.proto.uuid = i.sender ∧ i.sender ≠ 0) := by
  have hkeys := keysInv_run codec events
  refine ⟨inputs_run codec events, ?_, ?_⟩
  · intro u
    rw [hkeys.broadcastOrigins_eq u, origins_keys, hkeys.broadcast u]
  · constructor
    · intro hauthentic i hi hne
      obtain ⟨key, hkey⟩ := List.exists_mem_of_ne_nil _ hne
      have horigin :
          (key, i.sender) ∈
            broadcastOrigins i.proto.uuid (World.run codec events).2 := by
        rw [hkeys.broadcastOrigins_eq, mem_origins_iff]
        exact ⟨i, hi, rfl, hkey, rfl⟩
      obtain ⟨hsender, hzero⟩ := hauthentic i.proto.uuid _ horigin
      have hsame : i.proto.uuid = i.sender := hsender.symm
      exact ⟨hsame, hsame ▸ hzero⟩
    · intro hsenders u o ho
      rw [hkeys.broadcastOrigins_eq, mem_origins_iff] at ho
      obtain ⟨i, hi, huuid, hkey, hsender⟩ := ho
      obtain ⟨hsame, hzero⟩ :=
        hsenders i hi (List.ne_nil_of_mem hkey)
      have huser : o.2 = u := by
        rw [← hsender, ← hsame, huuid]
      exact ⟨huser, by rw [← huser, ← hsender]; exact hzero⟩

/--
A second client that never logs in sends a key under the uuid of the first,
and the next SCFrame lists it there.
-/
theorem not_authentic :
    ¬ ∀ (codec : Codec) (events : List WorldEvent),
      Authentic (World.run codec events).2 := by
  intro h
  have hauthentic := h plainCodec
    (soloGame ⟨0, 4⟩ ++ .registerUser ⟨1, 5⟩ ::
      dispatched ⟨1, 5⟩ .ECSFrame [8, 1, 24, 1] ++ [turnTick])
  have horigin := hauthentic 1 (1, 0) (by decide)
  exact absurd horigin.1 (by decide)

end Authenticity

end LockStep
end NetEngine
