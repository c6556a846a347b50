import NetEngine.Wire.RoundTrip

/-!
# The codec of the server

The generated classes behind the `Codec` that the handlers of the world are
given, and behind the messages that the world sends.

A CSFrame as the Unity client writes it is parsed as that frame, and wherever
the plain codec accepts a payload with field numbers that a tag can carry, the
server reads the same off it.  A message of the server takes as many bytes as
was reckoned and is parsed as the message that was sent.

The size that a handler passes on is negative when the message is shorter than
its type; `ParseFromArray` then reads past the record, which is left to a
parameter.
-/

namespace NetEngine
namespace Wire

open LockStep Unity

/-- What the handlers read off a CSFrame. -/
def PlayerProto.CSFrame.getters (msg : PlayerProto.CSFrame) :
    LockStep.CSFrame where
  uuid := msg.uuid.getD 0
  frameid := msg.frameid.getD 0
  keyinfo := msg.keyinfo

/-- `ParseFromArray(msg->data, size)` of the handlers. -/
def serverCodec (room : Nat → List UInt32 → Nat) (outside : Codec) :
    Codec where
  parseCSLogin := fun data size =>
    if size < 0 then outside.parseCSLogin data size
    else
      (MessageKind.CSLogin.messageClass.parseFromArray room data
        size.toNat).isSome
  parseCSReady := fun data size =>
    if size < 0 then outside.parseCSReady data size
    else
      (MessageKind.CSReady.messageClass.parseFromArray room data
        size.toNat).isSome
  parseCSFrame := fun data size =>
    if size < 0 then outside.parseCSFrame data size
    else
      (PlayerProto.CSFrame.messageClass.parseFromArray room data
        size.toNat).map PlayerProto.CSFrame.getters

section Varints

/-- Fields that the plain codec reads, as fields of the format. -/
def varintFields (fields : List (Nat × Nat)) : List UnknownField :=
  fields.map (fun field => .varint field.1 (UInt64.ofNat field.2))

/-- Field numbers that a tag can carry. -/
def AllNumbered (fields : List (Nat × Nat)) : Prop :=
  ∀ field ∈ fields, field.1 < 2 ^ 29

/-- A varint field in front of some bytes is one of any message. -/
theorem itemOf_varint
    {σ : Type} {f : Format σ} (hf : f.Typed) (strict : Bool) (depth : Nat)
    {bs rest rest' : List UInt8} {tag n : Nat}
    (htag : readVarint 10 bs = some (tag, rest))
    (htype : tag % 8 = 0) (hpos : tag / 8 ≠ 0) (hlt : tag / 8 < 2 ^ 29)
    (hvalue : readVarint 10 rest = some (n, rest')) :
    f.itemOf strict depth bs =
      some (.varint (tag / 8) (UInt64.ofNat n), rest') := by
  have hsmall : tag % 2 ^ 32 = tag := by
    omega
  have hfront : CodedInputStream.tagOf bs = (tag, rest) := by
    rw [CodedInputStream.tagOf, kMaxVarintBytes, htag]
    dsimp only
    rw [hsmall]
  have hwrap : UInt64.ofNat (n % 2 ^ 64) = UInt64.ofNat n := by
    apply UInt64.toNat_inj.mp
    simp
  have hfield : fieldOf depth tag rest =
      some (.varint (tag / 8) (UInt64.ofNat n), rest') := by
    have hnumber : getTagFieldNumber tag ≠ 0 := by
      rw [getTagFieldNumber_eq]
      exact hpos
    have hvarint : getTagWireType tag = WIRETYPE_VARINT := by
      rw [getTagWireType_eq]
      exact htype
    rw [(fieldOf_of_type hnumber hvarint depth rest).1 rfl, varintOf,
      kMaxVarintBytes, hvalue, getTagFieldNumber_eq, Option.map_some,
      Option.map_some, hwrap]
  have hplain : f.delimited tag = false := by
    rw [Bool.eq_false_iff]
    intro hdelimited
    obtain ⟨number, -, heq⟩ := hf tag hdelimited
    omega
  rw [Format.itemOf, hfront]
  dsimp only
  rw [if_neg (by omega), Format.bodyOf, hplain, hfield]
  rfl

/-- What the plain codec reads, every message reads. -/
theorem items_of_readVarintFields
    {σ : Type} {f : Format σ} (hf : f.Typed) (strict : Bool) (depth : Nat)
    {fuel : Nat} {bs : List UInt8} {fields : List (Nat × Nat)}
    (hread : readVarintFields fuel bs = some fields)
    (hnumbered : AllNumbered fields) :
    f.items strict depth bs = some (varintFields fields) := by
  induction fuel generalizing bs fields with
  | zero =>
      cases bs with
      | nil =>
          cases hread
          rfl
      | cons b bs =>
          cases hread
  | succ fuel ih =>
      cases bs with
      | nil =>
          cases hread
          rfl
      | cons b bs =>
          rw [readVarintFields] at hread
          · cases htag : readVarint 10 (b :: bs) with
            | none =>
                rw [htag] at hread
                cases hread
            | some front =>
                obtain ⟨tag, rest⟩ := front
                rw [htag] at hread
                dsimp only at hread
                split_ifs at hread with hbad
                obtain ⟨htype, hpos⟩ := not_or.mp hbad
                cases hvalue : readVarint 10 rest with
                | none =>
                    rw [hvalue] at hread
                    cases hread
                | some value =>
                    obtain ⟨n, rest'⟩ := value
                    rw [hvalue] at hread
                    dsimp only at hread
                    cases hmore : readVarintFields fuel rest' with
                    | none =>
                        rw [hmore] at hread
                        cases hread
                    | some more =>
                        rw [hmore] at hread
                        cases hread
                        obtain ⟨hlt, hrest⟩ :=
                          List.forall_mem_cons.mp hnumbered
                        have hitem := itemOf_varint hf strict depth htag
                          (not_not.mp htype) hpos hlt hvalue
                        have hless :=
                          f.itemOf_consumes strict depth _ _ _ hitem
                        have hitems := ih hmore hrest
                        rw [Format.items] at hitems ⊢
                        rw [List.length_cons] at hless ⊢
                        rw [Items.readAll_cons _ (List.cons_ne_nil b bs),
                          hitem, Option.bind_some,
                          Items.readAll_fuel
                            (f.itemOf_consumes strict depth)
                            (Nat.le_of_lt_succ hless), hitems]
                        rfl
          · simp

/-- What a CSFrame makes of a varint field. -/
def PlayerProto.CSFrame.withVarint (msg : PlayerProto.CSFrame)
    (field : Nat × Nat) : PlayerProto.CSFrame :=
  if field.1 = 1 then { msg with uuid := some (UInt32.ofNat field.2) }
  else if field.1 = 2 then
    { msg with frameid := some (UInt64.ofNat field.2) }
  else if field.1 = 3 then msg.addKeyinfo (UInt32.ofNat field.2)
  else
    { msg with
      unknownFields := msg.unknownFields ++
        [.varint field.1 (UInt64.ofNat field.2)] }

theorem csFrame_apply_varint
    (depth : Nat) (msg : PlayerProto.CSFrame) {field : Nat × Nat}
    (hlt : field.1 < 2 ^ 29) :
    PlayerProto.CSFrame.format.apply depth msg
        (.varint field.1 (UInt64.ofNat field.2)) =
      some (msg.withVarint field) := by
  obtain ⟨k, n⟩ := field
  have htag : (UnknownField.varint k (UInt64.ofNat n)).tag = 8 * k := by
    rw [UnknownField.tag, WIRETYPE_VARINT, makeTag_eq k (by decide)]
    dsimp only at hlt
    omega
  have hwrap : (UInt64.ofNat n).toUInt32 = UInt32.ofNat n := by
    simp
  dsimp only [PlayerProto.CSFrame.withVarint, PlayerProto.CSFrame.format]
  rw [htag, UnknownField.asVarint, Option.map_some, Option.map_some,
    Option.map_some, hwrap]
  split_ifs <;> first | rfl | omega

theorem csFrame_fold_varintFields
    {fields : List (Nat × Nat)} (hnumbered : AllNumbered fields)
    (depth : Nat) (msg : PlayerProto.CSFrame) :
    (varintFields fields).foldlM (PlayerProto.CSFrame.format.apply depth)
        msg =
      some (fields.foldl PlayerProto.CSFrame.withVarint msg) := by
  induction fields generalizing msg with
  | nil =>
      rfl
  | cons field fields ih =>
      obtain ⟨hlt, hrest⟩ := List.forall_mem_cons.mp hnumbered
      rw [varintFields, List.map_cons, List.foldlM_cons,
        csFrame_apply_varint depth msg hlt]
      exact ih hrest (msg.withVarint field)

theorem fieldValues_cons (number : Nat) (field : Nat × Nat)
    (fields : List (Nat × Nat)) :
    fieldValues number (field :: fields) =
      if field.1 = number then field.2 :: fieldValues number fields
      else fieldValues number fields := by
  rw [fieldValues, List.filter_cons]
  by_cases hfield : field.1 = number
  · rw [if_pos (decide_eq_true hfield), if_pos hfield]
    rfl
  · rw [if_neg (by simpa using hfield), if_neg hfield]
    rfl

theorem getLast?_cons_getD
    {α : Type} (make : Nat → α) (n : Nat) (values : List Nat) (other : α) :
    ((n :: values).getLast?.map make).getD other =
      (values.getLast?.map make).getD (make n) := by
  rw [List.getLast?_cons]
  cases values.getLast? with
  | none | some value =>
      rfl

/-- The last uuid and frame id count, and all the keys. -/
theorem csFrame_getters_foldl
    (fields : List (Nat × Nat)) (msg : PlayerProto.CSFrame) :
    (fields.foldl PlayerProto.CSFrame.withVarint msg).getters =
      { uuid := ((fieldValues 1 fields).getLast?.map UInt32.ofNat).getD
          msg.getters.uuid
        frameid := ((fieldValues 2 fields).getLast?.map UInt64.ofNat).getD
          msg.getters.frameid
        keyinfo := msg.keyinfo ++
          (fieldValues 3 fields).map UInt32.ofNat } := by
  induction fields generalizing msg with
  | nil =>
      have hnone (number : Nat) : fieldValues number [] = [] := rfl
      rw [hnone, hnone, hnone, List.map_nil, List.append_nil]
      rfl
  | cons field fields ih =>
      obtain ⟨number, value⟩ := field
      rw [List.foldl_cons, ih, fieldValues_cons, fieldValues_cons,
        fieldValues_cons, PlayerProto.CSFrame.withVarint]
      dsimp only
      by_cases hone : number = 1
      · subst hone
        rw [if_pos rfl, if_pos rfl, if_neg (by decide), if_neg (by decide),
          getLast?_cons_getD]
        rfl
      by_cases htwo : number = 2
      · subst htwo
        rw [if_neg (by decide), if_pos rfl, if_neg (by decide), if_pos rfl,
          if_neg (by decide), getLast?_cons_getD]
        rfl
      by_cases hthree : number = 3
      · subst hthree
        rw [if_neg (by decide), if_neg (by decide), if_pos rfl,
          if_neg (by decide), if_neg (by decide), if_pos rfl, List.map_cons,
          PlayerProto.CSFrame.addKeyinfo]
        dsimp only [PlayerProto.CSFrame.getters]
        rw [List.append_assoc]
        rfl
      · rw [if_neg hone, if_neg htwo, if_neg hthree, if_neg hone,
          if_neg htwo, if_neg hthree]
        rfl

/-- A CSFrame is read off its varints as the plain codec reads it. -/
theorem csFrame_getters_ofFields (fields : List (Nat × Nat)) :
    (fields.foldl PlayerProto.CSFrame.withVarint {}).getters =
      CSFrame.ofFields fields := by
  have hlast {α : Type} (make : Nat → α) (values : List Nat) :
      (values.getLast?.map make).getD (make 0) =
        make (values.getLastD 0) := by
    rw [List.getLastD_eq_getLast?]
    cases values.getLast? with
    | none | some value =>
        rfl
  have huuid := hlast UInt32.ofNat (fieldValues 1 fields)
  have hframe := hlast UInt64.ofNat (fieldValues 2 fields)
  rw [csFrame_getters_foldl, CSFrame.ofFields, ← huuid, ← hframe]
  rfl

end Varints

section ClientMessages

variable (room : Nat → List UInt32 → Nat) (outside : Codec)

theorem noFields_fold
    (depth : Nat) (fields : List UnknownField) :
    fields.foldlM (PlayerProto.NoFields.format.apply depth) {} =
      some { unknownFields := fields } := by
  have hfold := foldlM_collect (PlayerProto.NoFields.format.apply depth)
    (fun unknown => { unknownFields := unknown }) id fields
    fun _ _ _ => rfl
  rw [List.map_id] at hfold
  exact hfold

/--
Wherever the plain codec accepts a payload whose field numbers fit a tag, the
server accepts it and reads the same frame off it.
-/
theorem serverCodec_extends_plainCodec
    {data : Memory UInt8} {size : Int} {fields : List (Nat × Nat)}
    (hread : plainFields data size = some fields)
    (hnumbered : AllNumbered fields) :
    (serverCodec room outside).parseCSLogin data size = true ∧
      (serverCodec room outside).parseCSReady data size = true ∧
      (serverCodec room outside).parseCSFrame data size =
        plainCodec.parseCSFrame data size := by
  have hsize : ¬ size < 0 := by
    intro hneg
    rw [plainFields, if_pos hneg] at hread
    cases hread
  have hfields := hread
  rw [plainFields, if_neg hsize] at hfields
  have hempty : (PlayerProto.NoFields.messageClass.parseFromArray room data
      size.toNat).isSome = true := by
    have hitems := items_of_readVarintFields
      PlayerProto.NoFields.lawful.typed false 100 hfields hnumbered
    rw [PlayerProto.NoFields.lawful.parseFromArray_eq, Format.merge, hitems]
    exact congrArg Option.isSome (noFields_fold 100 (varintFields fields))
  have hframe : (PlayerProto.CSFrame.messageClass.parseFromArray room data
      size.toNat).map PlayerProto.CSFrame.getters =
        some (CSFrame.ofFields fields) := by
    have hitems := items_of_readVarintFields PlayerProto.CSFrame.lawful.typed
      false 100 hfields hnumbered
    rw [PlayerProto.CSFrame.lawful.parseFromArray_eq, Format.merge, hitems,
      Option.bind_some, csFrame_fold_varintFields hnumbered,
      Option.map_some]
    exact congrArg some (csFrame_getters_ofFields fields)
  refine ⟨?_, ?_, ?_⟩
  · exact (if_neg hsize).trans hempty
  · exact (if_neg hsize).trans hempty
  · have hplain : plainCodec.parseCSFrame data size =
        some (CSFrame.ofFields fields) := by
      rw [plainCodec]
      dsimp only
      rw [hread, Option.map_some]
    rw [hplain]
    exact (if_neg hsize).trans hframe

theorem fieldsOf_numbered (frame : CSFrame) :
    AllNumbered (fieldsOf frame) := by
  have hkeys : AllNumbered (frame.keyinfo.map (fun key => (3, key.toNat))) := by
    intro field hfield
    obtain ⟨key, -, rfl⟩ := List.mem_map.mp hfield
    exact (by decide : 3 < 2 ^ 29)
  rw [fieldsOf, AllNumbered, List.forall_mem_append, List.forall_mem_append]
  refine ⟨?_, ?_, hkeys⟩
  · split_ifs
    · exact fun _ h => absurd h List.not_mem_nil
    · exact List.forall_mem_singleton.mpr (by decide : 1 < 2 ^ 29)
  · split_ifs
    · exact fun _ h => absurd h List.not_mem_nil
    · exact List.forall_mem_singleton.mpr (by decide : 2 < 2 ^ 29)

/-- A CSFrame that the client serializes is the one that the server parses. -/
theorem serverCodec_parse_clientFrame
    (frame : CSFrame) {data : Memory UInt8}
    (hdata : data.read 0 (plainSerialize.serialize frame).length =
      plainSerialize.serialize frame) :
    (serverCodec room outside).parseCSFrame data
        (plainSerialize.serialize frame).length = some frame := by
  have hlength := length_writeVarintFields (fieldsOf frame)
  have hread : plainFields data (plainSerialize.serialize frame).length =
      some (fieldsOf frame) := by
    rw [plainFields, if_neg (Int.not_lt.mpr (Int.natCast_nonneg _)),
      Int.toNat_natCast, hdata]
    exact readVarintFields_writeVarintFields (fieldsOf_writable frame)
      (show _ ≤ (writeVarintFields (fieldsOf frame)).length by omega)
  have hplain : plainCodec.parseCSFrame data
      (plainSerialize.serialize frame).length = some frame := by
    rw [plainCodec]
    dsimp only
    rw [hread, Option.map_some, ofFields_fieldsOf]
  rw [(serverCodec_extends_plainCodec room outside hread
    (fieldsOf_numbered frame)).2.2, hplain]

end ClientMessages

section ServerMessages

/-- The objects that the world fills, with every has bit set. -/
def playerInfoProto (info : PlayerInfo) : PlayerProto.PlayerInfo :=
  { uuid := some info.uuid
    posx := some info.posx
    posy := some info.posy
    posz := some info.posz }

def userFrameProto (user : UserFrame) : PlayerProto.UserFrame :=
  { uuid := some user.uuid, keyinfo := user.keyinfo }

/-- Class of a message that the world sends. -/
def serverKind : SCMessage → MessageKind
  | .SCLogin _ => .SCLogin
  | .SCFrameInit _ => .SCFrameInit
  | .SCSight _ => .SCSight
  | .SCFrame _ => .SCFrame

/-- The object behind a message that the world sends. -/
def serverProto : (msg : SCMessage) → (serverKind msg).Msg
  | .SCLogin uuid => { uuid := some uuid : PlayerProto.SCLogin }
  | .SCFrameInit frame =>
      { curframeid := some frame.curframeid
        nxtframeid := some frame.nxtframeid : PlayerProto.SCFrameInit }
  | .SCSight players =>
      { players := players.map playerInfoProto : PlayerProto.SCSight }
  | .SCFrame frame =>
      { frameid := some frame.frameid
        nextframeid := some frame.nextframeid
        users := frame.users.map userFrameProto : PlayerProto.SCFrame }

/-- What a receiver reads off the object that it parsed. -/
def playerInfoGetters (info : PlayerProto.PlayerInfo) : PlayerInfo where
  uuid := info.uuid.getD 0
  posx := info.posx.getD 0
  posy := info.posy.getD 0
  posz := info.posz.getD 0

def userFrameGetters (user : PlayerProto.UserFrame) : UserFrame where
  uuid := user.uuid.getD 0
  keyinfo := user.keyinfo

/-- A message of the server, by its type and its payload. -/
def parseServerMessage (room : Nat → List UInt32 → Nat)
    (type : EMessageType) (data : Memory UInt8) (size : Nat) :
    Option SCMessage :=
  match type with
  | .ESCLogin =>
      (PlayerProto.SCLogin.messageClass.parseFromArray room data size).map
        (fun msg => .SCLogin (msg.uuid.getD 0))
  | .ESCFrameInit =>
      (PlayerProto.SCFrameInit.messageClass.parseFromArray room data
        size).map (fun msg =>
          .SCFrameInit ⟨msg.curframeid.getD 0, msg.nxtframeid.getD 0⟩)
  | .ESCSight =>
      (PlayerProto.SCSight.messageClass.parseFromArray room data size).map
        (fun msg => .SCSight (msg.players.map playerInfoGetters))
  | .ESCFrame =>
      (PlayerProto.SCFrame.messageClass.parseFromArray room data size).map
        (fun msg =>
          .SCFrame
            { frameid := msg.frameid.getD 0
              nextframeid := msg.nextframeid.getD 0
              users := msg.users.map userFrameGetters })
  | _ => none

theorem byteSizeLong_userFrameProto (user : UserFrame) :
    (userFrameProto user).byteSizeLong = user.byteSize := by
  exact congrArg (· + (1 + varintSize user.uuid.toNat)) (Nat.zero_add _)

theorem byteSizeLong_playerInfoProto (info : PlayerInfo) :
    (playerInfoProto info).byteSizeLong = info.byteSize := by
  exact congrArg
    (· + (1 + 8) + (1 + 8) + (1 + varintSize info.uuid.toNat))
    (Nat.zero_add _)

/-- The size that was reckoned is the one of the generated class. -/
theorem byteSizeLong_serverProto (msg : SCMessage) :
    (serverKind msg).messageClass.byteSizeLong (serverProto msg) =
      msg.byteSize := by
  cases msg with
  | SCLogin uuid =>
      exact Nat.zero_add _
  | SCFrameInit frame =>
      exact congrArg (· + (1 + varintSize frame.nxtframeid.toNat))
        (Nat.zero_add _)
  | SCSight players =>
      have hplayers : (fun player : PlayerProto.PlayerInfo =>
          lengthDelimitedSize player.byteSizeLong) ∘ playerInfoProto =
            fun info => lengthDelimitedSize info.byteSize := by
        funext info
        rw [Function.comp_apply, byteSizeLong_playerInfoProto]
      have hsize : (serverKind (.SCSight players)).messageClass.byteSizeLong
          (serverProto (.SCSight players)) =
            0 + (1 * (players.map playerInfoProto).length +
              ((players.map playerInfoProto).map (fun player =>
                lengthDelimitedSize player.byteSizeLong)).sum) := by
        rfl
      rw [hsize, List.length_map, List.map_map, hplayers, Nat.zero_add]
      rfl
  | SCFrame frame =>
      have husers : (fun user : PlayerProto.UserFrame =>
          lengthDelimitedSize user.byteSizeLong) ∘ userFrameProto =
            fun user => lengthDelimitedSize user.byteSize := by
        funext user
        rw [Function.comp_apply, byteSizeLong_userFrameProto]
      have hsize : (serverKind (.SCFrame frame)).messageClass.byteSizeLong
          (serverProto (.SCFrame frame)) =
            0 + (1 * (frame.users.map userFrameProto).length +
              ((frame.users.map userFrameProto).map (fun user =>
                lengthDelimitedSize user.byteSizeLong)).sum) +
              (1 + varintSize frame.frameid.toNat) +
              (1 + varintSize frame.nextframeid.toNat) := by
        rfl
      rw [hsize, List.length_map, List.map_map, husers, Nat.zero_add]
      rfl

/-- The world sets known fields only. -/
theorem serverProto_valid (msg : SCMessage) :
    (serverKind msg).Valid 100 (serverProto msg) := by
  have hnone (tags : List Nat) (depth : Nat) : Unknown tags depth [] :=
    fun _ h => absurd h List.not_mem_nil
  cases msg with
  | SCLogin uuid =>
      exact hnone [8] 100
  | SCFrameInit frame =>
      exact hnone [8, 16] 100
  | SCSight players =>
      refine ⟨hnone [10] 100, ?_⟩
      intro player hplayer
      obtain ⟨info, -, rfl⟩ := List.mem_map.mp hplayer
      exact ⟨by decide, hnone [8, 17, 25, 33] 99⟩
  | SCFrame frame =>
      refine ⟨hnone [8, 16, 26] 100, ?_⟩
      intro user huser
      obtain ⟨info, -, rfl⟩ := List.mem_map.mp huser
      exact ⟨by decide, hnone [8, 16, 18] 99⟩

/--
A message of the server takes as many bytes as was reckoned, is written into a
buffer of that size, and is parsed by its type as the message that was sent.
-/
theorem serverMessage_roundTrip
    (room : Nat → List UInt32 → Nat) (msg : SCMessage)
    {data : Memory UInt8} (hint : msg.byteSize ≤ INT_MAX)
    (hdata : data.read 0 msg.byteSize =
      (serverKind msg).messageClass.toArray (serverProto msg)) :
    (serverKind msg).messageClass.serializeToArray (serverProto msg)
        msg.byteSize =
        .written ((serverKind msg).messageClass.toArray (serverProto msg)) ∧
      parseServerMessage room msg.type data msg.byteSize = some msg := by
  have hlength := (serverKind msg).lawful.length_toArray (serverProto msg)
  rw [byteSizeLong_serverProto] at hlength
  have hwritten := (serverKind msg).lawful.writes
    (show _ ≤ INT_MAX from hlength.trans_le hint)
    (Int.ofNat_le.mpr (Nat.le_of_eq hlength))
  have hread := (serverKind msg).lawful.parse_written room
    (serverProto_valid msg) hwritten (by rw [hlength]; exact hdata)
  rw [hlength] at hread
  refine ⟨hwritten, ?_⟩
  cases msg with
  | SCLogin uuid =>
      exact congrArg (Option.map _) hread
  | SCFrameInit frame =>
      exact congrArg (Option.map _) hread
  | SCSight players =>
      have hback : (players.map playerInfoProto).map playerInfoGetters =
          players := by
        rw [List.map_map]
        exact List.map_id players
      refine (congrArg (Option.map _) hread).trans ?_
      exact congrArg (fun players => some (SCMessage.SCSight players)) hback
  | SCFrame frame =>
      have hback : (frame.users.map userFrameProto).map userFrameGetters =
          frame.users := by
        rw [List.map_map]
        exact List.map_id frame.users
      refine (congrArg (Option.map _) hread).trans ?_
      exact congrArg
        (fun users => some (SCMessage.SCFrame { frame with users := users }))
        hback

/-- A frame with one user. -/
theorem serverMessage_roundTrip_frame :
    MessageKind.SCFrame.messageClass.serializeToArray
        (serverProto (.SCFrame ⟨1, 2, [⟨3, [4]⟩]⟩)) 10 =
        .written [8, 1, 16, 2, 26, 4, 8, 3, 16, 4] ∧
      parseServerMessage (fun _ _ => 0) .ESCFrame
        (fun i => [8, 1, 16, 2, 26, 4, 8, 3, 16, 4].getD i 0) 10 =
          some (.SCFrame ⟨1, 2, [⟨3, [4]⟩]⟩) := by
  have hsize : (SCMessage.SCFrame ⟨1, 2, [⟨3, [4]⟩]⟩).byteSize = 10 := by
    decide
  have h := @serverMessage_roundTrip (fun _ _ => 0)
    (.SCFrame ⟨1, 2, [⟨3, [4]⟩]⟩)
    (fun i => [8, 1, 16, 2, 26, 4, 8, 3, 16, 4].getD i 0)
    (by rw [hsize]; decide) (by rw [hsize]; rfl)
  rw [hsize] at h
  exact h

end ServerMessages

end Wire
end NetEngine
