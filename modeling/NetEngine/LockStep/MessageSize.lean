import Mathlib.Algebra.BigOperators.Group.List.Basic
import Mathlib.Algebra.GroupWithZero.Nat
import Mathlib.Data.Nat.Log
import NetEngine.LockStep.FrameHistory
import NetEngine.Net.SendBuffer

/-!
# Size of the server's messages

`ByteSizeLong` of the generated player.pb.cc for the messages that the server
builds.  A message fits when `SerializeToArray` stays inside `s2cMsg.data` and
an empty send buffer accepts it.

Nothing bounds what is gathered between two turns or how many players there
are, so not every message fits.  `messagesFit_iff` says when they do: the keys
accepted since the last SCFrame, grouped by uuid, and the entries of the
players have to encode to what the send buffer holds.
-/

namespace NetEngine
namespace LockStep

open Net

section ByteSize

/-- `CodedOutputStream::VarintSize32` and `VarintSize64`. -/
def varintSize (value : Nat) : Nat :=
  (Nat.log2 (value ||| 1) * 9 + 73) / 64

/-- `WireFormatLite::LengthDelimitedSize`. -/
def lengthDelimitedSize (length : Nat) : Nat :=
  length + varintSize (UInt32.ofNat length).toNat

/-- `WireFormatLite::UInt32Size` of a repeated field. -/
def uint32Size (values : List UInt32) : Nat :=
  (values.map (fun value => varintSize value.toNat)).sum

def PlayerInfo.byteSize (info : PlayerInfo) : Nat :=
  (1 + 8) + (1 + 8) + (1 + 8) + (1 + varintSize info.uuid.toNat)

def UserFrame.byteSize (user : UserFrame) : Nat :=
  1 * user.keyinfo.length + uint32Size user.keyinfo +
    (1 + varintSize user.uuid.toNat)

def SCFrameInit.byteSize (frame : SCFrameInit) : Nat :=
  (1 + varintSize frame.curframeid.toNat) +
    (1 + varintSize frame.nxtframeid.toNat)

def SCFrame.byteSize (frame : SCFrame) : Nat :=
  1 * frame.users.length +
    (frame.users.map (fun user => lengthDelimitedSize user.byteSize)).sum +
    (1 + varintSize frame.frameid.toNat) +
    (1 + varintSize frame.nextframeid.toNat)

/-- `ByteSizeLong` of a message that the server sends. -/
def SCMessage.byteSize : SCMessage → Nat
  | .SCLogin uuid => 1 + varintSize uuid.toNat
  | .SCFrameInit frame => frame.byteSize
  | .SCSight players =>
      1 * players.length +
        (players.map (fun info => lengthDelimitedSize info.byteSize)).sum
  | .SCFrame frame => frame.byteSize

/-- A varint carries seven bits a byte. -/
theorem varintSize_of_lt
    {value k : Nat} (h : value < 2 ^ (k + 1)) :
    varintSize value ≤ (k * 9 + 73) / 64 := by
  have hor : value ||| 1 < 2 ^ (k + 1) :=
    Nat.or_lt_two_pow h (Nat.one_lt_two_pow (Nat.succ_ne_zero k))
  have hne : value ||| 1 ≠ 0 := by
    intro hzero
    have hone : 1 ≤ value ||| 1 := Nat.right_le_or
    omega
  have hlog : Nat.log2 (value ||| 1) < k + 1 :=
    (Nat.log2_lt hne).mpr hor
  unfold varintSize
  omega

theorem varintSize_pos (value : Nat) : 1 ≤ varintSize value := by
  unfold varintSize
  omega

/-- Numbers below 128 take one byte. -/
theorem varintSize_small {value : Nat} (h : value < 128) :
    varintSize value = 1 := by
  have hle := varintSize_of_lt (k := 6) h
  have hpos := varintSize_pos value
  omega

/-- Entry of a player in an SCSight: tag, length, three doubles, the UUID. -/
theorem lengthDelimitedSize_playerInfo (info : PlayerInfo) :
    1 + lengthDelimitedSize info.byteSize =
      30 + varintSize info.uuid.toNat := by
  have huuid := varintSize_of_lt (k := 31) info.uuid.toNat_lt
  have hlt : info.byteSize < 128 := by
    unfold PlayerInfo.byteSize
    omega
  have hnat : (UInt32.ofNat info.byteSize).toNat = info.byteSize :=
    UInt32.toNat_ofNat_of_lt' (by
      show info.byteSize < 4294967296
      omega)
  rw [lengthDelimitedSize, hnat, varintSize_small hlt]
  unfold PlayerInfo.byteSize
  omega

/-- Counting the elements in gives every element its tag byte. -/
theorem sum_map_one_add {α : Type} (xs : List α) (f : α → Nat) :
    (xs.map (fun x => 1 + f x)).sum = xs.length + (xs.map f).sum := by
  simp [List.sum_map_add]

end ByteSize

section Fits

/-- `s2cMsg`, with the bytes that `SerializeToArray` wrote. -/
def SCMessage.s2cMsg (msg : SCMessage) (data : Memory UInt8) :
    MessageBody where
  size := UInt32.ofNat (msg.byteSize + MessageBody.HEADER_TYPE_BYTES)
  type := msg.type.value
  data := data

/-- The message stays inside `s2cMsg.data` and an empty send buffer takes it. -/
structure Fits (msg : SCMessage) : Prop where
  data : msg.byteSize ≤ MessageBody.DATA_SIZE
  buffer : msg.byteSize + MessageBody.HEADER_SIZE ≤ SEND_BUFFER_SIZE
  accepted : ∀ bytes,
    SendBuffer.Accepts {} (msg.s2cMsg bytes)
      (msg.byteSize + MessageBody.HEADER_SIZE)

/-- The send buffer is the tightest of the bounds. -/
theorem fits_iff (msg : SCMessage) :
    Fits msg ↔
      msg.byteSize + MessageBody.HEADER_SIZE ≤ SEND_BUFFER_SIZE := by
  refine ⟨fun h => h.buffer, fun h => ?_⟩
  have hbound : msg.byteSize + 6 ≤ 10240 := h
  refine ⟨?_, h, ?_⟩
  · show msg.byteSize ≤ 1024 * 128
    omega
  · intro bytes
    have hsize : (msg.s2cMsg bytes).size.toNat = msg.byteSize + 2 :=
      UInt32.toNat_ofNat_of_lt' (by
        show msg.byteSize + 2 < 4294967296
        omega)
    have hiff := SendBuffer.accepts_empty_iff (msg.s2cMsg bytes) hsize
      (by omega)
    exact hiff.mpr hbound

/-- The messages that `FrameTurn` and `SendLoginInfo` build fit. -/
def MessagesFit (w : World) : Prop :=
  ∀ clients msg,
    .broadcast clients msg ∈ w.frameTurn.2 ++ w.sendLoginInfo → Fits msg

end Fits

section Keys

/-- The part of a trace behind its last SCFrame. -/
def sinceFrame (tr : List Observation) : List Observation :=
  tr.rtakeWhile (fun o => (frameOf o).isNone)

theorem settled_append_sinceFrame (tr : List Observation) :
    settled tr ++ sinceFrame tr = tr :=
  List.rdropWhile_append_rtakeWhile

/-- The uuids that some message with keys carries, each once. -/
def usersSent (ins : List Input) : List UInt32 :=
  ((ins.filter (fun i => i.proto.keyinfo ≠ [])).map
    (fun i => i.proto.uuid)).dedup

theorem mem_usersSent_iff (u : UInt32) (ins : List Input) :
    u ∈ usersSent ins ↔ keysSent u ins ≠ [] := by
  rw [usersSent, List.mem_dedup, List.mem_map, keysSent, ne_eq,
    List.flatMap_eq_nil_iff]
  constructor
  · rintro ⟨i, hi, rfl⟩ hnil
    obtain ⟨hmem, hkeys⟩ := List.mem_filter.mp hi
    have hempty := hnil i (List.mem_filter.mpr ⟨hmem, by simp⟩)
    simp [hempty] at hkeys
  · intro hne
    by_contra hnone
    apply hne
    intro i hi
    obtain ⟨hmem, huuid⟩ := List.mem_filter.mp hi
    by_contra hkeys
    refine hnone ⟨i, List.mem_filter.mpr ⟨hmem, ?_⟩, by simpa using huuid⟩
    simpa using hkeys

/-- Bytes that the keys of some messages take in an SCFrame. -/
def keysSize (ins : List Input) : Nat :=
  ((usersSent ins).map (fun u =>
    1 + lengthDelimitedSize (UserFrame.byteSize ⟨u, keysSent u ins⟩))).sum

/-- Keys sent since the last SCFrame are the pending ones. -/
theorem KeysInv.keysSent_sinceFrame
    {w : World} {tr : List Observation} (h : KeysInv w tr) (u : UInt32) :
    keysSent u (inputs (sinceFrame tr)) = w.pendingKeys u := by
  have hpending := h.pending u
  have hsplit : inputs tr =
      inputs (settled tr) ++ inputs (sinceFrame tr) := by
    rw [← inputs_append, settled_append_sinceFrame]
  rw [hsplit, keysSent_append] at hpending
  exact List.append_cancel_left hpending

/-- The pool lists the uuids that sent keys since the last SCFrame. -/
theorem KeysInv.keys_perm
    {w : World} {tr : List Observation} (h : KeysInv w tr) :
    w.curFrameInfo.keys.Perm (usersSent (inputs (sinceFrame tr))) := by
  refine (List.perm_ext_iff_of_nodup w.curFrameInfo.keys_nodup
    (List.nodup_dedup _)).mpr ?_
  intro u
  have hsent := mem_usersSent_iff u (inputs (sinceFrame tr))
  rw [usersSent] at hsent
  rw [hsent, h.keysSent_sinceFrame u, World.pendingKeys,
    OrderedMap.mem_keys_iff]
  cases hfind : w.curFrameInfo.find? u with
  | none =>
      simp
  | some keys =>
      have hne := h.nonempty (u, keys)
        ((w.curFrameInfo.mem_entries_iff u keys).mpr hfind)
      simpa using hne

/-- Size of the users of the next SCFrame. -/
theorem KeysInv.keysSize_eq
    {w : World} {tr : List Observation} (h : KeysInv w tr) :
    1 * (World.usersOf w.curFrameInfo).length +
        ((World.usersOf w.curFrameInfo).map
          (fun user => lengthDelimitedSize user.byteSize)).sum =
      keysSize (inputs (sinceFrame tr)) := by
  have husers : World.usersOf w.curFrameInfo =
      w.curFrameInfo.keys.map (fun u =>
        ⟨u, keysSent u (inputs (sinceFrame tr))⟩) := by
    rw [World.usersOf, OrderedMap.keys, List.map_map]
    apply List.map_congr_left
    rintro ⟨u, keys⟩ hmem
    have hfind := (w.curFrameInfo.mem_entries_iff u keys).mp hmem
    simp [h.keysSent_sinceFrame u, World.pendingKeys, hfind]
  rw [Nat.one_mul, ← sum_map_one_add, husers, List.map_map, keysSize]
  exact (h.keys_perm.map _).sum_eq

/--
The keys accepted since the last SCFrame, grouped by uuid, encode to what the
send buffer holds besides the header and the two frame ids.
-/
def KeysFit (tr : List Observation) : Prop :=
  keysSize (inputs (sinceFrame tr)) +
      (1 + varintSize (UInt64.ofNat (framesBuilt tr).length).toNat) +
      (1 + varintSize (UInt64.ofNat ((framesBuilt tr).length + 1)).toNat) +
    MessageBody.HEADER_SIZE ≤ SEND_BUFFER_SIZE

/-- Thirty bytes and the UUID of every player fit the send buffer. -/
def PlayersFit (w : World) : Prop :=
  (w.sessions.entries.map (fun e => 30 + varintSize e.2.UUID.toNat)).sum +
    MessageBody.HEADER_SIZE ≤ SEND_BUFFER_SIZE

theorem sight_byteSize (w : World) :
    (SCMessage.SCSight (w.sessions.entries.map (fun e =>
      ⟨e.2.UUID, e.2.posX, e.2.posY, e.2.posZ⟩))).byteSize =
      (w.sessions.entries.map
        (fun e => 30 + varintSize e.2.UUID.toNat)).sum := by
  rw [SCMessage.byteSize, Nat.one_mul, ← sum_map_one_add, List.map_map]
  congr 1
  apply List.map_congr_left
  intro e _
  exact lengthDelimitedSize_playerInfo _

theorem nextFrame_byteSize
    {w : World} {tr : List Observation} (hkeys : KeysInv w tr)
    (hnumbers : NumberingInv w tr) :
    (SCMessage.SCFrame w.nextFrame).byteSize =
      keysSize (inputs (sinceFrame tr)) +
        (1 + varintSize (UInt64.ofNat (framesBuilt tr).length).toNat) +
        (1 + varintSize
          (UInt64.ofNat ((framesBuilt tr).length + 1)).toNat) := by
  have hnext : w.nxtFrameID + 1 =
      UInt64.ofNat ((framesBuilt tr).length + 1) := by
    rw [hnumbers.nxt, UInt64.ofNat_add]
    rfl
  rw [SCMessage.byteSize, SCFrame.byteSize, World.nextFrame]
  simp only [hkeys.keysSize_eq]
  rw [hnext, hnumbers.nxt]

theorem messagesFit_iff_of_inv
    {w : World} {tr : List Observation} (hkeys : KeysInv w tr)
    (hnumbers : NumberingInv w tr) :
    MessagesFit w ↔ KeysFit tr ∧ PlayersFit w := by
  have hframe := nextFrame_byteSize hkeys hnumbers
  have hsight := sight_byteSize w
  constructor
  · intro hfit
    constructor
    · have hmsg := hfit w.frameTurn.1.clients (.SCFrame w.nextFrame)
        (List.mem_append_left _ List.mem_cons_self)
      rw [fits_iff, hframe] at hmsg
      exact hmsg
    · have hmsg := hfit w.clients _
        (List.mem_append_right _ List.mem_cons_self)
      rw [fits_iff, hsight] at hmsg
      exact hmsg
  · rintro ⟨hkeysFit, hplayersFit⟩ clients msg hmem
    rw [fits_iff]
    rcases List.mem_append.mp hmem with hmem | hmem
    · cases List.mem_singleton.mp hmem
      exact hframe.symm ▸ hkeysFit
    · cases List.mem_singleton.mp hmem
      exact hsight.symm ▸ hplayersFit

/--
In every reachable state both messages fit exactly when the keys accepted since
the last SCFrame and the players do.
-/
theorem messagesFit_iff (codec : Codec) (events : List WorldEvent) :
    MessagesFit (World.run codec events).1 ↔
      KeysFit (World.run codec events).2 ∧
        PlayersFit (World.run codec events).1 :=
  messagesFit_iff_of_inv (keysInv_run codec events)
    (numberingInv_run codec events)

end Keys

section Flood

/-- Wire image of a CSFrame that carries a key `n` times. -/
def keysPayload (uuid key : UInt8) (n : Nat) : List UInt8 :=
  8 :: uuid :: (List.replicate n [24, key]).flatten

theorem keysPayload_length (uuid key : UInt8) (n : Nat) :
    (keysPayload uuid key n).length = 2 + 2 * n := by
  simp [keysPayload]
  omega

theorem readVarintFields_keys
    {key : UInt8} (hkey : key < 128) {n fuel : Nat} (h : n ≤ fuel) :
    readVarintFields fuel (List.replicate n [24, key]).flatten =
      some (List.replicate n (3, key.toNat)) := by
  induction n generalizing fuel with
  | zero =>
      cases fuel <;> rfl
  | succ n ih =>
      obtain ⟨fuel, rfl⟩ : ∃ k, fuel = k + 1 := ⟨fuel - 1, by omega⟩
      have hrest := ih (show n ≤ fuel by omega)
      simp [List.replicate_succ, readVarintFields, readVarint, hkey, hrest]

/-- What the runtime reads off the wire image. -/
theorem parseCSFrame_keysPayload
    {uuid key : UInt8} (huuid : uuid < 128) (hkey : key < 128) {n : Nat}
    (hn : 2 * n < 2 ^ 31 - 4) :
    plainCodec.parseCSFrame
        (clientBody .ECSFrame (keysPayload uuid key n)).data
        (payloadSize (clientBody .ECSFrame (keysPayload uuid key n))) =
      some ⟨UInt32.ofNat uuid.toNat, 0,
        List.replicate n (UInt32.ofNat key.toNat)⟩ := by
  have hlen := keysPayload_length uuid key n
  have hsize :
      payloadSize (clientBody .ECSFrame (keysPayload uuid key n)) =
        ((keysPayload uuid key n).length : Int) := by
    have hnat :
        (clientBody .ECSFrame (keysPayload uuid key n)).size.toNat =
          (keysPayload uuid key n).length + 2 :=
      UInt32.toNat_ofNat_of_lt' (by
        show (keysPayload uuid key n).length + 2 < 4294967296
        omega)
    rw [payloadSize, hnat]
    simp only [MessageBody.HEADER_TYPE_BYTES]
    rw [int32_of_bounds (by omega) (by omega)]
    omega
  have hdata :
      (clientBody .ECSFrame (keysPayload uuid key n)).data.read 0
          (keysPayload uuid key n).length =
        keysPayload uuid key n := by
    apply Memory.Holds.read_eq
    intro i hi
    simp [clientBody, List.getElem?_eq_getElem hi]
  have hfields :
      readVarintFields (keysPayload uuid key n).length
          (keysPayload uuid key n) =
        some ((1, uuid.toNat) :: List.replicate n (3, key.toNat)) := by
    have hrest :=
      readVarintFields_keys hkey (show n ≤ 1 + 2 * n by omega)
    rw [hlen, show 2 + 2 * n = (1 + 2 * n) + 1 by omega]
    simp [keysPayload, readVarintFields, readVarint, huuid, hrest]
  simp only [plainCodec, plainFields, hsize]
  rw [if_neg (by omega), Int.toNat_natCast, hdata, hfields]
  simp [CSFrame.ofFields, fieldValues]

/-- A dispatched CSFrame of a player is accepted and leaves the sessions. -/
theorem run_dispatched_keys
    {w : World} (client : Client) {player : Player}
    (hqueue : w.msgQueue = []) (huser : w.getUser client.sockfd = some player)
    {uuid key : UInt8} (huuid : uuid < 128) (hkey : key < 128) {n : Nat}
    (hn : 2 * n < 2 ^ 31 - 4) :
    ∃ w',
      Machine.run (World.step plainCodec) w
          (dispatched client .ECSFrame (keysPayload uuid key n)) =
        (w',
          [.read client (clientBody .ECSFrame (keysPayload uuid key n)),
            .accepted client.sockfd player.UUID
              (.CSFrame ⟨UInt32.ofNat uuid.toNat, 0,
                List.replicate n (UInt32.ofNat key.toNat)⟩)]) ∧
      w'.msgQueue = [] ∧ w'.getUser client.sockfd = some player := by
  have hparse := parseCSFrame_keysPayload huuid hkey hn
  have hfind : w.sessions.find? client.sockfd = some player := huser
  have hcommand : World.command plainCodec EMessageType.ECSFrame.value =
      some (World.handleFrame plainCodec) := rfl
  have htype :
      (clientBody .ECSFrame (keysPayload uuid key n)).type =
        EMessageType.ECSFrame.value := rfl
  refine ⟨{ w with
    msgQueue := []
    curFrameInfo := (List.replicate n (UInt32.ofNat key.toNat)).foldl
      (World.pushKey (UInt32.ofNat uuid.toNat)) w.curFrameInfo },
    ?_, rfl, huser⟩
  · simp only [dispatched, Machine.run_cons, Machine.run_nil, World.step,
      World.pushMsg, World.tick, World.messageProc, hqueue,
      List.nil_append, World.dispatchCommand, htype, hcommand,
      World.getUser, hfind, World.handleFrame, hparse]
    rfl

/-- Two CSFrames of 4000 keys each, sent between two turns. -/
def flood : List WorldEvent :=
  soloGame ⟨0, 4⟩ ++
    (dispatched ⟨0, 4⟩ .ECSFrame (keysPayload 1 1 4000) ++
      dispatched ⟨0, 4⟩ .ECSFrame (keysPayload 1 1 4000))

/-- What one of the messages shows. -/
def floodMessage : List Observation :=
  [.read ⟨0, 4⟩ (clientBody .ECSFrame (keysPayload 1 1 4000)),
    .accepted 4 1 (.CSFrame ⟨1, 0, List.replicate 4000 1⟩)]

theorem flood_trace :
    (World.run plainCodec flood).2 =
      (World.run plainCodec (soloGame ⟨0, 4⟩)).2 ++
        (floodMessage ++ floodMessage) := by
  have hqueue :
      (World.run plainCodec (soloGame ⟨0, 4⟩)).1.msgQueue = [] := by
    decide
  have huser :
      (World.run plainCodec (soloGame ⟨0, 4⟩)).1.getUser 4 =
        some { client := ⟨0, 4⟩, UUID := 1 } := by
    decide
  have hone : (1 : UInt8) < 128 := by decide
  have hlen : 2 * 4000 < 2 ^ 31 - 4 := by omega
  rw [World.run] at hqueue huser
  rw [World.run, World.run, flood, Machine.run_append]
  generalize Machine.run (World.step plainCodec) {} (soloGame ⟨0, 4⟩) = r
    at hqueue huser ⊢
  obtain ⟨w₁, hrun₁, hqueue₁, huser₁⟩ :=
    run_dispatched_keys ⟨0, 4⟩ hqueue huser hone hone hlen
  obtain ⟨w₂, hrun₂, -⟩ :=
    run_dispatched_keys ⟨0, 4⟩ hqueue₁ huser₁ hone hone hlen
  rw [Machine.run_append, hrun₁, hrun₂]
  rfl

/-- No input before the script's messages, and no SCFrame in all of it. -/
theorem flood_sinceFrame :
    inputs (sinceFrame (World.run plainCodec flood).2) =
      [⟨1, ⟨1, 0, List.replicate 4000 1⟩⟩,
        ⟨1, ⟨1, 0, List.replicate 4000 1⟩⟩] := by
  rw [flood_trace]
  rfl

/-- A key takes at least its tag and one byte. -/
theorem two_mul_length_le_byteSize (user : UserFrame) :
    2 * user.keyinfo.length ≤ user.byteSize := by
  have hkeys : user.keyinfo.length ≤ uint32Size user.keyinfo := by
    have hsum := List.length_le_sum_of_one_le
      (user.keyinfo.map (fun key => varintSize key.toNat)) (by
        intro size hsize
        obtain ⟨key, -, rfl⟩ := List.mem_map.mp hsize
        exact varintSize_pos _)
    rwa [List.length_map] at hsum
  rw [UserFrame.byteSize]
  omega

/-- Keys sent twice under one uuid are listed twice. -/
theorem le_keysSize_twice (i : Input) (hkeys : i.proto.keyinfo ≠ []) :
    4 * i.proto.keyinfo.length ≤ keysSize [i, i] := by
  have husers : usersSent [i, i] = [i.proto.uuid] := by
    simp [usersSent, hkeys]
  have hsent :
      (keysSent i.proto.uuid [i, i]).length =
        2 * i.proto.keyinfo.length := by
    simp [keysSent]
    omega
  have huser := two_mul_length_le_byteSize
    ⟨i.proto.uuid, keysSent i.proto.uuid [i, i]⟩
  rw [keysSize, husers, List.map_singleton, List.sum_singleton,
    lengthDelimitedSize]
  simp only [hsent] at huser
  omega

/-- Size field of a message that an observation shows being dispatched. -/
def sizeRead : Observation → Option UInt32
  | .read _ body => some body.size
  | _ => none

theorem flood_sizes :
    (World.run plainCodec flood).2.filterMap sizeRead =
      [2, 2, 8004, 8004] := by
  have hsolo :
      (World.run plainCodec (soloGame ⟨0, 4⟩)).2.filterMap sizeRead =
        [2, 2] := by
    decide
  have hsize :
      (clientBody .ECSFrame (keysPayload 1 1 4000)).size = 8004 := by
    rw [clientBody, keysPayload_length]
    rfl
  have hmessage : floodMessage.filterMap sizeRead = [8004] := by
    rw [← hsize]
    rfl
  rw [flood_trace, List.filterMap_append, List.filterMap_append, hsolo,
    hmessage]
  rfl

/-- Messages that fit the receive buffer do not keep an SCFrame small. -/
theorem messages_not_fit :
    ¬ ∀ (codec : Codec) (events : List WorldEvent),
      (∀ client body, .read client body ∈ (World.run codec events).2 →
        body.size.toNat + MessageBody.HEADER_LEN_BYTES ≤
          RECV_BUFFER_SIZE) →
      MessagesFit (World.run codec events).1 := by
  intro h
  have hread : ∀ client body,
      .read client body ∈ (World.run plainCodec flood).2 →
      body.size.toNat + MessageBody.HEADER_LEN_BYTES ≤
        RECV_BUFFER_SIZE := by
    intro client body hmem
    have hsize : body.size ∈
        (World.run plainCodec flood).2.filterMap sizeRead :=
      List.mem_filterMap.mpr ⟨_, hmem, rfl⟩
    have hall : ∀ size ∈ [2, 2, 8004, 8004],
        UInt32.toNat size + MessageBody.HEADER_LEN_BYTES ≤
          RECV_BUFFER_SIZE := by
      simp only [List.forall_mem_cons, List.not_mem_nil, false_imp_iff,
        implies_true, and_true]
      decide
    rw [flood_sizes] at hsize
    exact hall body.size hsize
  have hfits := h plainCodec flood hread
  rw [messagesFit_iff_of_inv (keysInv_run _ _) (numberingInv_run _ _)]
    at hfits
  have hkeys := hfits.1
  rw [KeysFit, flood_sinceFrame] at hkeys
  have hsize := le_keysSize_twice ⟨1, ⟨1, 0, List.replicate 4000 1⟩⟩
    (List.ne_nil_of_length_pos (by rw [List.length_replicate]; omega))
  simp only [List.length_replicate, SEND_BUFFER_SIZE] at hkeys hsize
  omega

end Flood

end LockStep
end NetEngine
