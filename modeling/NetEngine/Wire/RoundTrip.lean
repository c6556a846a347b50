import NetEngine.Wire.PlayerProto

/-!
# Round trips of the messages

The results about message classes, for all the messages of player.proto.  A
parser with its shortcuts, limits and unrolled readers makes of an array what a
fold over its fields makes of it.  What is written is parsed back with its
unknown fields, behind another message it is merged into that one, and parsing
is stable: what a parsed message writes is parsed as that message.

Two things are accepted within limits only: groups of unknown fields, down to a
depth of 100, and a length that goes past the end of the array, which is taken
as what is left.
-/

namespace NetEngine
namespace Wire

open PlayerProto

/-- The messages of player.proto. -/
inductive MessageKind where
  | PlayerInfo
  | CSLogin
  | SCLogin
  | CSReady
  | SCReady
  | SCFrameInit
  | UserFrame
  | CSFrame
  | SCFrame
  | SCSight

namespace MessageKind

/-- The class of a message. -/
abbrev Msg : MessageKind → Type
  | PlayerInfo => PlayerProto.PlayerInfo
  | CSLogin => PlayerProto.CSLogin
  | SCLogin => PlayerProto.SCLogin
  | CSReady => PlayerProto.CSReady
  | SCReady => PlayerProto.SCReady
  | SCFrameInit => PlayerProto.SCFrameInit
  | UserFrame => PlayerProto.UserFrame
  | CSFrame => PlayerProto.CSFrame
  | SCFrame => PlayerProto.SCFrame
  | SCSight => PlayerProto.SCSight

def messageClass : (kind : MessageKind) → MessageClass kind.Msg
  | PlayerInfo => PlayerProto.PlayerInfo.messageClass
  | CSLogin => NoFields.messageClass
  | SCLogin => PlayerProto.SCLogin.messageClass
  | CSReady => NoFields.messageClass
  | SCReady => NoFields.messageClass
  | SCFrameInit => PlayerProto.SCFrameInit.messageClass
  | UserFrame => PlayerProto.UserFrame.messageClass
  | CSFrame => PlayerProto.CSFrame.messageClass
  | SCFrame => PlayerProto.SCFrame.messageClass
  | SCSight => PlayerProto.SCSight.messageClass

def format : (kind : MessageKind) → Format kind.Msg
  | PlayerInfo => PlayerProto.PlayerInfo.format
  | CSLogin => NoFields.format
  | SCLogin => PlayerProto.SCLogin.format
  | CSReady => NoFields.format
  | SCReady => NoFields.format
  | SCFrameInit => PlayerProto.SCFrameInit.format
  | UserFrame => PlayerProto.UserFrame.format
  | CSFrame => PlayerProto.CSFrame.format
  | SCFrame => PlayerProto.SCFrame.format
  | SCSight => PlayerProto.SCSight.format

def fields : (kind : MessageKind) → kind.Msg → List UnknownField
  | PlayerInfo => PlayerProto.PlayerInfo.fields
  | CSLogin => NoFields.unknownFields
  | SCLogin => PlayerProto.SCLogin.fields
  | CSReady => NoFields.unknownFields
  | SCReady => NoFields.unknownFields
  | SCFrameInit => PlayerProto.SCFrameInit.fields
  | UserFrame => PlayerProto.UserFrame.fields
  | CSFrame => PlayerProto.CSFrame.fields
  | SCFrame => PlayerProto.SCFrame.fields
  | SCSight => PlayerProto.SCSight.fields

/-- The unknown fields can be written and are none of the known ones. -/
def Valid : (kind : MessageKind) → Nat → kind.Msg → Prop
  | PlayerInfo => PlayerProto.PlayerInfo.Valid
  | CSLogin => NoFields.Valid
  | SCLogin => PlayerProto.SCLogin.Valid
  | CSReady => NoFields.Valid
  | SCReady => NoFields.Valid
  | SCFrameInit => PlayerProto.SCFrameInit.Valid
  | UserFrame => PlayerProto.UserFrame.Valid
  | CSFrame => PlayerProto.CSFrame.Valid
  | SCFrame => PlayerProto.SCFrame.Valid
  | SCSight => PlayerProto.SCSight.Valid

theorem lawful (kind : MessageKind) :
    kind.messageClass.Lawful kind.format kind.fields kind.Valid := by
  cases kind with
  | PlayerInfo =>
      exact PlayerProto.PlayerInfo.lawful
  | SCLogin =>
      exact PlayerProto.SCLogin.lawful
  | CSLogin | CSReady | SCReady =>
      exact NoFields.lawful
  | SCFrameInit =>
      exact PlayerProto.SCFrameInit.lawful
  | UserFrame =>
      exact PlayerProto.UserFrame.lawful
  | CSFrame =>
      exact PlayerProto.CSFrame.lawful
  | SCFrame =>
      exact PlayerProto.SCFrame.lawful
  | SCSight =>
      exact PlayerProto.SCSight.lawful

variable (kind : MessageKind)

section Parsing

/--
The generated parser of a message is the fold over the fields in the array,
whatever room its repeated fields have; it fails where some byte is no field.
An array of `INT_MAX` bytes would count as one without a limit.
-/
theorem parseFromArray_eq_fold
    (room : Nat → List UInt32 → Nat) (data : Memory UInt8) {size : Nat}
    (_hsize : size < INT_MAX) :
    kind.messageClass.parseFromArray room data size =
      (kind.format.items false 100 (data.read 0 size)).bind (fun fields =>
        fields.foldlM (kind.format.apply 100) kind.messageClass.cleared) :=
  kind.lawful.parseFromArray_eq room data size

/-- Two keys one by one, two packed ones, and a byte that is no field. -/
theorem parseFromArray_eq_fold_keys :
    CSFrame.messageClass.parseFromArray (fun _ _ => 0)
        (fun i => [24, 1, 24, 4, 26, 2, 2, 3, 7].getD i 0) 9 =
      (CSFrame.format.items false 100 [24, 1, 24, 4, 26, 2, 2, 3, 7]).bind
        (fun fields => fields.foldlM (CSFrame.format.apply 100)
          CSFrame.messageClass.cleared) :=
  parseFromArray_eq_fold CSFrame (fun _ _ => 0) _ (by decide)

end Parsing

section Writing

/--
`SerializeToArray` writes as many bytes as `ByteSizeLong` says.  Up to `INT_MAX`
it refuses an array that is too short and never writes past one; above, the size
is cut to an `int`, and an array that is not shorter than that is overrun.
-/
theorem serializeToArray_outcome
    (msg : kind.Msg) {size : Int} (hsize : size ≤ INT_MAX) :
    (kind.messageClass.toArray msg).length =
        kind.messageClass.byteSizeLong msg ∧
      (kind.messageClass.byteSizeLong msg ≤ INT_MAX →
        kind.messageClass.serializeToArray msg size =
          if size < kind.messageClass.byteSizeLong msg then .refused
          else .written (kind.messageClass.toArray msg)) ∧
      (INT_MAX < kind.messageClass.byteSizeLong msg →
        kind.messageClass.serializeToArray msg size =
          if size < Net.int32 (kind.messageClass.byteSizeLong msg) then
            .refused
          else .overrun) :=
  ⟨kind.lawful.length_toArray msg, kind.lawful.serializeToArray_eq size,
    kind.lawful.serializeToArray_overrun hsize⟩

/-- A login of two bytes and an array of one. -/
theorem serializeToArray_outcome_login :
    PlayerProto.SCLogin.messageClass.serializeToArray { uuid := some 7 } 1 =
      .refused :=
  ((serializeToArray_outcome SCLogin { uuid := some 7 }
    (show (1 : Int) ≤ INT_MAX by decide)).2.1 (by decide)).trans rfl

variable {kind}
variable {msg : kind.Msg} {size : Int} {bytes : List UInt8}

/-- What is written is parsed back, with its unknown fields. -/
theorem parse_serialize
    (room : Nat → List UInt32 → Nat) {data : Memory UInt8}
    (hvalid : kind.Valid 100 msg)
    (hwritten : kind.messageClass.serializeToArray msg size =
      .written bytes)
    (hdata : data.read 0 bytes.length = bytes) :
    kind.messageClass.parseFromArray room data bytes.length = some msg :=
  kind.lawful.parse_written room hvalid hwritten hdata

/-- A frame with a user and a group that the class does not know. -/
theorem parse_serialize_frame :
    PlayerProto.SCFrame.messageClass.parseFromArray (fun _ _ => 0)
        (fun i => [8, 172, 2, 26, 7, 8, 1, 16, 2, 16, 172, 2, 35, 8, 5,
          36].getD i 0) 16 =
      some { frameid := some 300
             users := [{ uuid := some 1, keyinfo := [2, 300] }]
             unknownFields := [.group 4 [.varint 1 5]] } := by
  have hvalid : PlayerProto.SCFrame.Valid 100
      { frameid := some 300
        users := [{ uuid := some 1, keyinfo := [2, 300] }]
        unknownFields := [.group 4 [.varint 1 5]] } := by
    refine ⟨?_, ?_⟩
    · intro field hfield
      rw [List.mem_singleton.mp hfield]
      refine ⟨.group (by decide) (List.forall_mem_singleton.mpr ?_), by decide⟩
      exact .varint (by decide)
    · intro user huser
      rw [List.mem_singleton.mp huser]
      exact ⟨by decide, fun field hfield => by cases hfield⟩
  exact @parse_serialize SCFrame _ 16 _ (fun _ _ => 0) _ hvalid
    (PlayerProto.SCFrame.lawful.writes (by decide)
      (Int.ofNat_le.mpr (by decide))) rfl

/-- A message in front of some bytes is merged with what they are parsed as. -/
theorem parse_concat
    (room room' : Nat → List UInt32 → Nat) {data data' : Memory UInt8}
    {n : Nat} (hvalid : kind.Valid 100 msg)
    (hwritten : kind.messageClass.serializeToArray msg size =
      .written bytes)
    (_hsize : bytes.length + n < INT_MAX)
    (hdata : data.read 0 (bytes.length + n) = bytes ++ data'.read 0 n) :
    kind.messageClass.parseFromArray room data (bytes.length + n) =
      (kind.messageClass.parseFromArray room' data' n).map
        (kind.messageClass.mergeFrom msg) :=
  kind.lawful.parse_append room room' hvalid hwritten hdata

/-- Two logins of which the second one counts. -/
theorem parse_concat_logins :
    PlayerProto.SCLogin.messageClass.parseFromArray (fun _ _ => 0)
        (fun i => [8, 7, 8, 9].getD i 0) 4 =
      (PlayerProto.SCLogin.messageClass.parseFromArray (fun _ _ => 0)
        (fun i => [8, 9].getD i 0) 2).map
          (PlayerProto.SCLogin.mergeFrom { uuid := some 7 }) := by
  have hvalid : PlayerProto.SCLogin.Valid 100 { uuid := some 7 } := by
    intro field hfield
    cases hfield
  exact @parse_concat SCLogin _ 2 _ (fun _ _ => 0)
    (fun _ _ => 0) _ _ 2 hvalid
    (PlayerProto.SCLogin.lawful.writes (by decide)
      (Int.ofNat_le.mpr (by decide))) (by decide) rfl

/-- What a parsed message writes is parsed as that message. -/
theorem reserialize_parse
    {room : Nat → List UInt32 → Nat} (room' : Nat → List UInt32 → Nat)
    {input data : Memory UInt8} {n : Nat}
    (hparse : kind.messageClass.parseFromArray room input n = some msg)
    (hwritten : kind.messageClass.serializeToArray msg size =
      .written bytes)
    (hdata : data.read 0 bytes.length = bytes) :
    kind.messageClass.parseFromArray room' data bytes.length = some msg :=
  kind.lawful.parse_written room' (kind.lawful.parsed hparse) hwritten hdata

/-- Packed keys are written one by one and parsed as the same keys. -/
theorem reserialize_parse_keys :
    PlayerProto.CSFrame.messageClass.parseFromArray (fun _ _ => 0)
        (fun i => [24, 1, 24, 4].getD i 0) 4 =
      some { keyinfo := [1, 4] } := by
  have hparse : PlayerProto.CSFrame.messageClass.parseFromArray
      (fun _ _ => 0) (fun i => [26, 2, 1, 4].getD i 0) 4 =
        some { keyinfo := [1, 4] } := by
    rw [PlayerProto.CSFrame.lawful.parseFromArray_eq]
    rfl
  exact @reserialize_parse CSFrame _ 4 _ (fun _ _ => 0)
    (fun _ _ => 0) _ _ 4 hparse
    (PlayerProto.CSFrame.lawful.writes (by decide)
      (Int.ofNat_le.mpr (by decide))) rfl

end Writing

end MessageKind

section Limits

/-- Unknown fields are read at a depth exactly if they fit it. -/
theorem noFields_merge_isSome_iff
    {depth depth' : Nat} (msg : NoFields) {fields : List UnknownField}
    (h : ∀ field ∈ fields, field.Valid depth') :
    (NoFields.format.merge false depth msg
        (serializeUnknownFieldsToArray fields)).isSome ↔
      ∀ field ∈ fields, field.Valid depth := by
  induction fields generalizing msg with
  | nil =>
      simp [serializeUnknownFieldsToArray, Format.merge_nil]
  | cons field fields ih =>
      obtain ⟨hfield, hfields⟩ := List.forall_mem_cons.mp h
      have hrest := ih
        { msg with unknownFields := msg.unknownFields ++ [field] } hfields
      rw [serializeUnknownFieldsToArray, NoFields.format.merge_cons _ _ _
        (Format.toArray_ne_nil field _), List.forall_mem_cons, ← hrest]
      constructor
      · intro hsome
        obtain ⟨msg', hmsg⟩ := Option.isSome_iff_exists.mp hsome
        obtain ⟨⟨field', rest⟩, hread, hmerge⟩ :=
          Option.bind_eq_some_iff.mp hmsg
        obtain ⟨rfl, rfl, hvalid⟩ :=
          NoFields.lawful.typed.itemOf_toArray_some hfield hread
        refine ⟨hvalid, ?_⟩
        rw [show NoFields.format.merge false depth _ _ = some msg' from hmerge]
        rfl
      · rintro ⟨hvalid, hsome⟩
        rw [NoFields.lawful.typed.itemOf_toArray false hvalid]
        exact hsome

/--
A login or a ready message with fields that the server does not know is accepted
exactly if no group in it is more than 100 deep.
-/
theorem noFields_accepts_iff
    (room : Nat → List UInt32 → Nat) {data : Memory UInt8} {depth : Nat}
    {fields : List UnknownField} (h : ∀ field ∈ fields, field.Valid depth)
    (hdata : data.read 0 (computeUnknownFieldsSize fields) =
      serializeUnknownFieldsToArray fields) :
    (NoFields.messageClass.parseFromArray room data
        (computeUnknownFieldsSize fields)).isSome ↔
      ∀ field ∈ fields, field.Valid 100 := by
  rw [NoFields.lawful.parseFromArray_eq, hdata]
  exact noFields_merge_isSome_iff {} h

/-- A group with a field in it. -/
theorem noFields_accepts_group :
    (NoFields.messageClass.parseFromArray (fun _ _ => 0)
        (fun i => [11, 16, 3, 12].getD i 0)
        (computeUnknownFieldsSize [.group 1 [.varint 2 3]])).isSome ↔
      ∀ field ∈ [UnknownField.group 1 [.varint 2 3]], field.Valid 100 := by
  refine @noFields_accepts_iff (fun _ _ => 0) _ 1 _ ?_ ?_
  · intro field hfield
    rw [List.mem_singleton.mp hfield]
    refine .group (by decide) (List.forall_mem_singleton.mpr ?_)
    exact .varint (by decide)
  · rw [← length_serializeUnknownFieldsToArray]
    rfl

/-- Numbers that are written one after the other are the packed elements. -/
theorem packedOf_flatMap (values : List UInt32) :
    packedOf (values.flatMap writeVarint32ToArray) = some values := by
  refine Items.readAll_flatMap packed_consumes fun value _ rest => ⟨?_, ?_⟩
  · intro hnil
    have hlength := congrArg List.length hnil
    have hpos := LockStep.varintSize_pos value.toNat
    rw [List.length_append, length_writeVarint32ToArray,
      List.length_nil] at hlength
    omega
  · rw [varintOf_write32, Option.map_some, UInt32.ofNat_toNat]

/--
A packed `KeyInfo` may announce more bytes than there are, up to `INT_MAX`: the
server takes the keys that are there, behind those of the rest of the message.
-/
theorem csFrame_parse_cut
    (room : Nat → List UInt32 → Nat) {msg : CSFrame} {size : Int}
    {bytes : List UInt8} {keys : List UInt32} {length n : Nat}
    {data : Memory UInt8} (hvalid : msg.Valid 100)
    (hwritten : CSFrame.messageClass.serializeToArray msg size =
      .written bytes)
    (hlength : length ≤ INT_MAX)
    (hcut : (keys.flatMap writeVarint32ToArray).length ≤ length)
    (_hsize : n < INT_MAX)
    (hdata : data.read 0 n = bytes ++
      (writeTagToArray 3 WIRETYPE_LENGTH_DELIMITED ++
        (writeVarint32ToArray (UInt32.ofNat length) ++
          keys.flatMap writeVarint32ToArray))) :
    CSFrame.messageClass.parseFromArray room data n =
      some { msg with keyinfo := msg.keyinfo ++ keys } := by
  obtain ⟨hint, rfl, -⟩ := CSFrame.lawful.written hwritten
  have hstrict := CSFrame.lawful.merge_toArray true hvalid hint
  have happly : CSFrame.format.apply 100 msg
      (.lengthDelimited 3 (keys.flatMap writeVarint32ToArray)) =
        (packedOf (keys.flatMap writeVarint32ToArray)).map
          (fun values => values.foldl CSFrame.addKeyinfo msg) := by
    rfl
  rw [CSFrame.lawful.parseFromArray_eq, hdata,
    Format.merge_append _ hstrict,
    Format.merge_cut msg (by decide) rfl hlength hcut, happly,
    packedOf_flatMap, Option.map_some, CSFrame.foldl_addKeyinfo]

/-- A packed field that says nine bytes and has one. -/
theorem csFrame_parse_cut_key :
    PlayerProto.CSFrame.messageClass.parseFromArray (fun _ _ => 0)
        (fun i => [8, 1, 26, 9, 5].getD i 0) 5 =
      some { uuid := some 1, keyinfo := [5] } := by
  have hvalid : PlayerProto.CSFrame.Valid 100 { uuid := some 1 } := by
    intro field hfield
    cases hfield
  exact @csFrame_parse_cut (fun _ _ => 0) _ 2 _ [5] 9 5 _ hvalid
    (PlayerProto.CSFrame.lawful.writes (by decide)
      (Int.ofNat_le.mpr (by decide))) (by decide) (by decide) (by decide)
    rfl

end Limits

end Wire
end NetEngine
