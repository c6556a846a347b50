import NetEngine.Wire.WireFormatLite

/-!
# The messages of player.proto

The classes that player.pb.cc generates, with a field for every has bit and the
unknown fields that a message keeps.  Each class is shown to be lawful, and
the results about message classes are read off for all of them at once.
-/

namespace NetEngine
namespace Wire

open LockStep Unity

namespace PlayerProto

section PlayerInfo

structure PlayerInfo where
  uuid : Option UInt32 := none
  posx : Option Double := none
  posy : Option Double := none
  posz : Option Double := none
  unknownFields : List UnknownField := []

namespace PlayerInfo

/-- The cases of `MergePartialFromCodedStream`. -/
def parser : Generated PlayerInfo where
  parserOf
    | 8 => some (readUInt32 fun msg value => { msg with uuid := some value })
    | 17 => some (readDouble fun msg value => { msg with posx := some value })
    | 25 => some (readDouble fun msg value => { msg with posy := some value })
    | 33 => some (readDouble fun msg value => { msg with posz := some value })
    | _ => none
  addUnknown := fun msg field =>
    { msg with unknownFields := msg.unknownFields ++ [field] }

def byteSizeLong (msg : PlayerInfo) : Nat :=
  computeUnknownFieldsSize msg.unknownFields +
    msg.posx.elim 0 (fun _ => 1 + 8) + msg.posy.elim 0 (fun _ => 1 + 8) +
    msg.posz.elim 0 (fun _ => 1 + 8) +
    msg.uuid.elim 0 (fun value => 1 + varintSize value.toNat)

def toArray (msg : PlayerInfo) : List UInt8 :=
  msg.uuid.elim [] (writeUInt32ToArray 1) ++
    msg.posx.elim [] (writeDoubleToArray 2) ++
    msg.posy.elim [] (writeDoubleToArray 3) ++
    msg.posz.elim [] (writeDoubleToArray 4) ++
    serializeUnknownFieldsToArray msg.unknownFields

def mergeFrom (msg source : PlayerInfo) : PlayerInfo where
  unknownFields := msg.unknownFields ++ source.unknownFields
  posx := source.posx.or msg.posx
  posy := source.posy.or msg.posy
  posz := source.posz.or msg.posz
  uuid := source.uuid.or msg.uuid

def messageClass : MessageClass PlayerInfo where
  cleared := {}
  parser := fun _ => parser
  byteSizeLong := byteSizeLong
  toArray := toArray
  mergeFrom := mergeFrom

/-- What the message makes of a field. -/
def format : Format PlayerInfo where
  delimited := fun _ => false
  apply := fun _ msg field =>
    if field.tag = 8 then
      field.asVarint.map
        (fun value => { msg with uuid := some value.toUInt32 })
    else if field.tag = 17 then
      field.asFixed64.map (fun value => { msg with posx := some value })
    else if field.tag = 25 then
      field.asFixed64.map (fun value => { msg with posy := some value })
    else if field.tag = 33 then
      field.asFixed64.map (fun value => { msg with posz := some value })
    else some { msg with unknownFields := msg.unknownFields ++ [field] }

def fields (msg : PlayerInfo) : List UnknownField :=
  msg.uuid.toList.map (fun value => .varint 1 value.toUInt64) ++
    msg.posx.toList.map (.fixed64 2) ++ msg.posy.toList.map (.fixed64 3) ++
    msg.posz.toList.map (.fixed64 4) ++ msg.unknownFields

def Valid (depth : Nat) (msg : PlayerInfo) : Prop :=
  Unknown [8, 17, 25, 33] depth msg.unknownFields

theorem apply_unknown
    (depth : Nat) (msg : PlayerInfo) {field : UnknownField}
    (h : field.tag ∉ [8, 17, 25, 33]) :
    format.apply depth msg field =
      some { msg with unknownFields := msg.unknownFields ++ [field] } := by
  simp only [List.mem_cons, not_or] at h
  obtain ⟨huuid, hx, hy, hz, -⟩ := h
  dsimp only [format]
  rw [if_neg huuid, if_neg hx, if_neg hy, if_neg hz]

theorem implements : Implements parser format where
  small := by
    intro tag parse h
    dsimp only [parser] at h
    split at h
    · omega
    · omega
    · omega
    · omega
    · cases h
  parses := by
    intro tag parse h
    dsimp only [parser] at h
    split at h
    · cases h
      exact parses_readUInt32 (by decide) rfl rfl fun _ _ _ => rfl
    · cases h
      exact parses_readDouble (by decide) rfl rfl fun _ _ _ => rfl
    · cases h
      exact parses_readDouble (by decide) rfl rfl fun _ _ _ => rfl
    · cases h
      exact parses_readDouble (by decide) rfl rfl fun _ _ _ => rfl
    · cases h
  delimited := fun _ _ => rfl
  unknown := by
    rintro _ h depth msg field rfl
    refine apply_unknown depth msg fun hmem => ?_
    simp only [List.mem_cons, List.not_mem_nil, or_false] at hmem
    rcases hmem with htag | htag | htag | htag
    · rw [htag] at h
      cases h
    · rw [htag] at h
      cases h
    · rw [htag] at h
      cases h
    · rw [htag] at h
      cases h

theorem fold_fields
    {depth : Nat} {msg : PlayerInfo} (hvalid : Valid depth msg) :
    msg.fields.foldlM (format.apply depth) {} = some msg := by
  have huuid := foldlM_optional_uint32 (format.apply depth)
    (fun uuid => { uuid := uuid }) 1 msg.uuid fun _ => rfl
  have hposx := foldlM_optional (format.apply depth)
    (fun posx => { uuid := msg.uuid, posx := posx })
    (.fixed64 2) msg.posx fun _ _ => rfl
  have hposy := foldlM_optional (format.apply depth)
    (fun posy => { uuid := msg.uuid, posx := msg.posx, posy := posy })
    (.fixed64 3) msg.posy fun _ _ => rfl
  have hposz := foldlM_optional (format.apply depth)
    (fun posz => { msg with posz := posz, unknownFields := [] })
    (.fixed64 4) msg.posz fun _ _ => rfl
  have hunknown := foldlM_collect (format.apply depth)
    (fun unknown => { msg with unknownFields := unknown }) id
    msg.unknownFields
    fun _ field hfield => apply_unknown depth _ (hvalid field hfield).2
  rw [List.map_id] at hunknown
  exact foldlM_append_some (foldlM_append_some (foldlM_append_some
    (foldlM_append_some huuid hposx) hposy) hposz) hunknown

theorem lawful :
    messageClass.Lawful format fields Valid where
  merges := fun _ => implements.merges
  typed := by
    intro tag h
    cases h
  length_toArray := by
    intro msg
    dsimp only [messageClass]
    rw [toArray, List.length_append, List.length_append, List.length_append,
      List.length_append, length_elim (length_writeUInt32ToArray (by decide)),
      length_elim (length_writeDoubleToArray (by decide)),
      length_elim (length_writeDoubleToArray (by decide)),
      length_elim (length_writeDoubleToArray (by decide)),
      length_serializeUnknownFieldsToArray, byteSizeLong]
    omega
  toArray_eq := by
    intro msg
    dsimp only [messageClass]
    rw [toArray, fields, serializeUnknownFieldsToArray_append,
      serializeUnknownFieldsToArray_append,
      serializeUnknownFieldsToArray_append,
      serializeUnknownFieldsToArray_append,
      elim_toArray _ _ (writeUInt32ToArray_eq 1),
      elim_toArray _ _ (writeDoubleToArray_eq 2),
      elim_toArray _ _ (writeDoubleToArray_eq 3),
      elim_toArray _ _ (writeDoubleToArray_eq 4)]
  fields_valid := by
    intro depth msg hvalid _
    simp only [fields, List.forall_mem_append]
    exact ⟨⟨⟨⟨varints_valid (by decide) _ _, fixed64s_valid (by decide) _⟩,
      fixed64s_valid (by decide) _⟩, fixed64s_valid (by decide) _⟩,
      fun field hfield => (hvalid field hfield).1⟩
  fold_fields := fun _ _ hvalid _ => fold_fields hvalid
  valid_cleared := by
    intro depth field h
    cases h
  valid_apply := by
    intro depth msg field msg' hvalid hfield happly
    dsimp only [format] at happly
    split_ifs at happly with huuid hx hy hz
    · obtain ⟨value, -, rfl⟩ := Option.map_eq_some_iff.mp happly
      exact hvalid
    · obtain ⟨value, -, rfl⟩ := Option.map_eq_some_iff.mp happly
      exact hvalid
    · obtain ⟨value, -, rfl⟩ := Option.map_eq_some_iff.mp happly
      exact hvalid
    · obtain ⟨value, -, rfl⟩ := Option.map_eq_some_iff.mp happly
      exact hvalid
    · cases happly
      exact hvalid.append hfield (by simp [huuid, hx, hy, hz])
  apply_mergeFrom := by
    intro depth msg msg' field
    dsimp only [format, messageClass]
    split_ifs
    · cases field.asVarint <;> rfl
    · cases field.asFixed64 <;> rfl
    · cases field.asFixed64 <;> rfl
    · cases field.asFixed64 <;> rfl
    · simp only [Option.map_some, mergeFrom, List.append_assoc]
  mergeFrom_cleared := by
    intro msg
    simp [messageClass, mergeFrom]

end PlayerInfo

end PlayerInfo

section Empty

/-- A message without fields. -/
structure NoFields where
  unknownFields : List UnknownField := []

namespace NoFields

def parser : Generated NoFields where
  parserOf := fun _ => none
  addUnknown := fun msg field =>
    { msg with unknownFields := msg.unknownFields ++ [field] }

def messageClass : MessageClass NoFields where
  cleared := {}
  parser := fun _ => parser
  byteSizeLong := fun msg => computeUnknownFieldsSize msg.unknownFields
  toArray := fun msg => serializeUnknownFieldsToArray msg.unknownFields
  mergeFrom := fun msg source =>
    { unknownFields := msg.unknownFields ++ source.unknownFields }

def format : Format NoFields where
  delimited := fun _ => false
  apply := fun _ msg field =>
    some { msg with unknownFields := msg.unknownFields ++ [field] }

def Valid (depth : Nat) (msg : NoFields) : Prop :=
  Unknown [] depth msg.unknownFields

theorem implements : Implements parser format where
  small := by
    intro tag parse h
    cases h
  parses := by
    intro tag parse h
    cases h
  delimited := fun _ _ => rfl
  unknown := fun _ _ _ _ _ _ => rfl

theorem lawful : messageClass.Lawful format unknownFields Valid where
  merges := fun _ => implements.merges
  typed := by
    intro tag h
    cases h
  length_toArray := fun msg =>
    length_serializeUnknownFieldsToArray msg.unknownFields
  toArray_eq := fun _ => rfl
  fields_valid := fun _ _ hvalid _ field hfield => (hvalid field hfield).1
  fold_fields := by
    intro depth msg _ _
    have hunknown := foldlM_collect (format.apply depth)
      (fun unknown => { msg with unknownFields := unknown }) id
      msg.unknownFields fun _ _ _ => rfl
    rw [List.map_id] at hunknown
    exact hunknown
  valid_cleared := by
    intro depth field h
    cases h
  valid_apply := by
    intro depth msg field msg' hvalid hfield happly
    cases happly
    exact hvalid.append hfield (List.not_mem_nil)
  apply_mergeFrom := by
    intro depth msg msg' field
    simp only [format, messageClass, Option.map_some, List.append_assoc]
  mergeFrom_cleared := by
    intro msg
    simp [messageClass]

end NoFields

abbrev CSLogin :=
  NoFields

abbrev CSReady :=
  NoFields

abbrev SCReady :=
  NoFields

end Empty

section SCLogin

structure SCLogin where
  uuid : Option UInt32 := none
  unknownFields : List UnknownField := []

namespace SCLogin

def parser : Generated SCLogin where
  parserOf
    | 8 => some (readUInt32 fun msg value => { msg with uuid := some value })
    | _ => none
  addUnknown := fun msg field =>
    { msg with unknownFields := msg.unknownFields ++ [field] }

def byteSizeLong (msg : SCLogin) : Nat :=
  computeUnknownFieldsSize msg.unknownFields +
    msg.uuid.elim 0 (fun value => 1 + varintSize value.toNat)

def toArray (msg : SCLogin) : List UInt8 :=
  msg.uuid.elim [] (writeUInt32ToArray 1) ++
    serializeUnknownFieldsToArray msg.unknownFields

def mergeFrom (msg source : SCLogin) : SCLogin where
  unknownFields := msg.unknownFields ++ source.unknownFields
  uuid := source.uuid.or msg.uuid

def messageClass : MessageClass SCLogin where
  cleared := {}
  parser := fun _ => parser
  byteSizeLong := byteSizeLong
  toArray := toArray
  mergeFrom := mergeFrom

def format : Format SCLogin where
  delimited := fun _ => false
  apply := fun _ msg field =>
    if field.tag = 8 then
      field.asVarint.map
        (fun value => { msg with uuid := some value.toUInt32 })
    else some { msg with unknownFields := msg.unknownFields ++ [field] }

def fields (msg : SCLogin) : List UnknownField :=
  msg.uuid.toList.map (fun value => .varint 1 value.toUInt64) ++
    msg.unknownFields

def Valid (depth : Nat) (msg : SCLogin) : Prop :=
  Unknown [8] depth msg.unknownFields

theorem apply_unknown
    (depth : Nat) (msg : SCLogin) {field : UnknownField}
    (h : field.tag ∉ [8]) :
    format.apply depth msg field =
      some { msg with unknownFields := msg.unknownFields ++ [field] } := by
  rw [List.mem_singleton] at h
  dsimp only [format]
  rw [if_neg h]

theorem implements : Implements parser format where
  small := by
    intro tag parse h
    dsimp only [parser] at h
    split at h
    · omega
    · cases h
  parses := by
    intro tag parse h
    dsimp only [parser] at h
    split at h
    · cases h
      exact parses_readUInt32 (by decide) rfl rfl fun _ _ _ => rfl
    · cases h
  delimited := fun _ _ => rfl
  unknown := by
    rintro _ h depth msg field rfl
    refine apply_unknown depth msg fun hmem => ?_
    rw [List.mem_singleton.mp hmem] at h
    cases h

theorem fold_fields
    {depth : Nat} {msg : SCLogin} (hvalid : Valid depth msg) :
    msg.fields.foldlM (format.apply depth) {} = some msg := by
  have huuid := foldlM_optional_uint32 (format.apply depth)
    (fun uuid => { uuid := uuid }) 1 msg.uuid fun _ => rfl
  have hunknown := foldlM_collect (format.apply depth)
    (fun unknown => { msg with unknownFields := unknown }) id
    msg.unknownFields
    fun _ field hfield => apply_unknown depth _ (hvalid field hfield).2
  rw [List.map_id] at hunknown
  exact foldlM_append_some huuid hunknown

theorem lawful : messageClass.Lawful format fields Valid where
  merges := fun _ => implements.merges
  typed := by
    intro tag h
    cases h
  length_toArray := by
    intro msg
    dsimp only [messageClass]
    rw [toArray, List.length_append,
      length_elim (length_writeUInt32ToArray (by decide)),
      length_serializeUnknownFieldsToArray, byteSizeLong]
    exact Nat.add_comm _ _
  toArray_eq := by
    intro msg
    dsimp only [messageClass]
    rw [toArray, fields, serializeUnknownFieldsToArray_append,
      elim_toArray _ _ (writeUInt32ToArray_eq 1)]
  fields_valid := by
    intro depth msg hvalid _
    simp only [fields, List.forall_mem_append]
    exact ⟨varints_valid (by decide) _ _,
      fun field hfield => (hvalid field hfield).1⟩
  fold_fields := fun _ _ hvalid _ => fold_fields hvalid
  valid_cleared := by
    intro depth field h
    cases h
  valid_apply := by
    intro depth msg field msg' hvalid hfield happly
    dsimp only [format] at happly
    split_ifs at happly with huuid
    · obtain ⟨value, -, rfl⟩ := Option.map_eq_some_iff.mp happly
      exact hvalid
    · cases happly
      exact hvalid.append hfield (by simp [huuid])
  apply_mergeFrom := by
    intro depth msg msg' field
    dsimp only [format, messageClass]
    split_ifs
    · cases field.asVarint <;> rfl
    · simp only [Option.map_some, mergeFrom, List.append_assoc]
  mergeFrom_cleared := by
    intro msg
    simp [messageClass, mergeFrom]

end SCLogin

end SCLogin

section SCFrameInit

structure SCFrameInit where
  curframeid : Option UInt64 := none
  nxtframeid : Option UInt64 := none
  unknownFields : List UnknownField := []

namespace SCFrameInit

def parser : Generated SCFrameInit where
  parserOf
    | 8 =>
        some (readUInt64 fun msg value =>
          { msg with curframeid := some value })
    | 16 =>
        some (readUInt64 fun msg value =>
          { msg with nxtframeid := some value })
    | _ => none
  addUnknown := fun msg field =>
    { msg with unknownFields := msg.unknownFields ++ [field] }

def byteSizeLong (msg : SCFrameInit) : Nat :=
  computeUnknownFieldsSize msg.unknownFields +
    msg.curframeid.elim 0 (fun value => 1 + varintSize value.toNat) +
    msg.nxtframeid.elim 0 (fun value => 1 + varintSize value.toNat)

def toArray (msg : SCFrameInit) : List UInt8 :=
  msg.curframeid.elim [] (writeUInt64ToArray 1) ++
    msg.nxtframeid.elim [] (writeUInt64ToArray 2) ++
    serializeUnknownFieldsToArray msg.unknownFields

def mergeFrom (msg source : SCFrameInit) : SCFrameInit where
  unknownFields := msg.unknownFields ++ source.unknownFields
  curframeid := source.curframeid.or msg.curframeid
  nxtframeid := source.nxtframeid.or msg.nxtframeid

def messageClass : MessageClass SCFrameInit where
  cleared := {}
  parser := fun _ => parser
  byteSizeLong := byteSizeLong
  toArray := toArray
  mergeFrom := mergeFrom

def format : Format SCFrameInit where
  delimited := fun _ => false
  apply := fun _ msg field =>
    if field.tag = 8 then
      field.asVarint.map (fun value => { msg with curframeid := some value })
    else if field.tag = 16 then
      field.asVarint.map (fun value => { msg with nxtframeid := some value })
    else some { msg with unknownFields := msg.unknownFields ++ [field] }

def fields (msg : SCFrameInit) : List UnknownField :=
  msg.curframeid.toList.map (.varint 1) ++
    msg.nxtframeid.toList.map (.varint 2) ++ msg.unknownFields

def Valid (depth : Nat) (msg : SCFrameInit) : Prop :=
  Unknown [8, 16] depth msg.unknownFields

theorem apply_unknown
    (depth : Nat) (msg : SCFrameInit) {field : UnknownField}
    (h : field.tag ∉ [8, 16]) :
    format.apply depth msg field =
      some { msg with unknownFields := msg.unknownFields ++ [field] } := by
  simp only [List.mem_cons, not_or] at h
  obtain ⟨hcur, hnxt, -⟩ := h
  dsimp only [format]
  rw [if_neg hcur, if_neg hnxt]

theorem implements : Implements parser format where
  small := by
    intro tag parse h
    dsimp only [parser] at h
    split at h
    · omega
    · omega
    · cases h
  parses := by
    intro tag parse h
    dsimp only [parser] at h
    split at h
    · cases h
      exact parses_readUInt64 (by decide) rfl rfl fun _ _ _ => rfl
    · cases h
      exact parses_readUInt64 (by decide) rfl rfl fun _ _ _ => rfl
    · cases h
  delimited := fun _ _ => rfl
  unknown := by
    rintro _ h depth msg field rfl
    refine apply_unknown depth msg fun hmem => ?_
    simp only [List.mem_cons, List.not_mem_nil, or_false] at hmem
    rcases hmem with htag | htag
    · rw [htag] at h
      cases h
    · rw [htag] at h
      cases h

theorem fold_fields
    {depth : Nat} {msg : SCFrameInit} (hvalid : Valid depth msg) :
    msg.fields.foldlM (format.apply depth) {} = some msg := by
  have hcur := foldlM_optional (format.apply depth)
    (fun curframeid => { curframeid := curframeid })
    (.varint 1) msg.curframeid fun _ _ => rfl
  have hnxt := foldlM_optional (format.apply depth)
    (fun nxtframeid =>
      { curframeid := msg.curframeid, nxtframeid := nxtframeid })
    (.varint 2) msg.nxtframeid fun _ _ => rfl
  have hunknown := foldlM_collect (format.apply depth)
    (fun unknown => { msg with unknownFields := unknown }) id
    msg.unknownFields
    fun _ field hfield => apply_unknown depth _ (hvalid field hfield).2
  rw [List.map_id] at hunknown
  exact foldlM_append_some (foldlM_append_some hcur hnxt) hunknown

theorem lawful : messageClass.Lawful format fields Valid where
  merges := fun _ => implements.merges
  typed := by
    intro tag h
    cases h
  length_toArray := by
    intro msg
    dsimp only [messageClass]
    rw [toArray, List.length_append, List.length_append,
      length_elim (length_writeUInt64ToArray (by decide)),
      length_elim (length_writeUInt64ToArray (by decide)),
      length_serializeUnknownFieldsToArray, byteSizeLong]
    omega
  toArray_eq := by
    intro msg
    dsimp only [messageClass]
    rw [toArray, fields, serializeUnknownFieldsToArray_append,
      serializeUnknownFieldsToArray_append,
      elim_toArray _ _ (writeUInt64ToArray_eq 1),
      elim_toArray _ _ (writeUInt64ToArray_eq 2)]
  fields_valid := by
    intro depth msg hvalid _
    simp only [fields, List.forall_mem_append]
    exact ⟨⟨varints_valid (by decide) id _, varints_valid (by decide) id _⟩,
      fun field hfield => (hvalid field hfield).1⟩
  fold_fields := fun _ _ hvalid _ => fold_fields hvalid
  valid_cleared := by
    intro depth field h
    cases h
  valid_apply := by
    intro depth msg field msg' hvalid hfield happly
    dsimp only [format] at happly
    split_ifs at happly with hcur hnxt
    · obtain ⟨value, -, rfl⟩ := Option.map_eq_some_iff.mp happly
      exact hvalid
    · obtain ⟨value, -, rfl⟩ := Option.map_eq_some_iff.mp happly
      exact hvalid
    · cases happly
      exact hvalid.append hfield (by simp [hcur, hnxt])
  apply_mergeFrom := by
    intro depth msg msg' field
    dsimp only [format, messageClass]
    split_ifs
    · cases field.asVarint <;> rfl
    · cases field.asVarint <;> rfl
    · simp only [Option.map_some, mergeFrom, List.append_assoc]
  mergeFrom_cleared := by
    intro msg
    simp [messageClass, mergeFrom]

end SCFrameInit

end SCFrameInit

section UserFrame

structure UserFrame where
  uuid : Option UInt32 := none
  keyinfo : List UInt32 := []
  unknownFields : List UnknownField := []

namespace UserFrame

/-- Another element of the repeated field. -/
def addKeyinfo (msg : UserFrame) (value : UInt32) : UserFrame :=
  { msg with keyinfo := msg.keyinfo ++ [value] }

/-- The cases of the switch, given how elements of the repeated field are read. -/
def parserWith (repeated : FieldParser UserFrame) : Generated UserFrame where
  parserOf
    | 8 => some (readUInt32 fun msg value => { msg with uuid := some value })
    | 16 => some repeated
    | 18 => some (readPacked addKeyinfo)
    | _ => none
  addUnknown := fun msg field =>
    { msg with unknownFields := msg.unknownFields ++ [field] }

/-- The parser, by the room behind some elements of the repeated field. -/
def parser (room : List UInt32 → Nat) : Generated UserFrame :=
  parserWith (readRepeated 16 addKeyinfo (fun msg => room msg.keyinfo))

def byteSizeLong (msg : UserFrame) : Nat :=
  computeUnknownFieldsSize msg.unknownFields +
    (1 * msg.keyinfo.length + uint32Size msg.keyinfo) +
    msg.uuid.elim 0 (fun value => 1 + varintSize value.toNat)

def toArray (msg : UserFrame) : List UInt8 :=
  msg.uuid.elim [] (writeUInt32ToArray 1) ++
    msg.keyinfo.flatMap (writeUInt32ToArray 2) ++
    serializeUnknownFieldsToArray msg.unknownFields

def mergeFrom (msg source : UserFrame) : UserFrame where
  unknownFields := msg.unknownFields ++ source.unknownFields
  keyinfo := msg.keyinfo ++ source.keyinfo
  uuid := source.uuid.or msg.uuid

def messageClass : MessageClass UserFrame where
  cleared := {}
  parser := fun room => parser (room 0)
  byteSizeLong := byteSizeLong
  toArray := toArray
  mergeFrom := mergeFrom

def format : Format UserFrame where
  delimited := (· == 18)
  apply := fun _ msg field =>
    if field.tag = 8 then
      field.asVarint.map
        (fun value => { msg with uuid := some value.toUInt32 })
    else if field.tag = 16 then
      field.asVarint.map (fun value => msg.addKeyinfo value.toUInt32)
    else if field.tag = 18 then
      field.asBytes.bind (fun data =>
        (packedOf data).map (fun values => values.foldl addKeyinfo msg))
    else some { msg with unknownFields := msg.unknownFields ++ [field] }

def fields (msg : UserFrame) : List UnknownField :=
  msg.uuid.toList.map (fun value => .varint 1 value.toUInt64) ++
    msg.keyinfo.map (fun value => .varint 2 value.toUInt64) ++
    msg.unknownFields

def Valid (depth : Nat) (msg : UserFrame) : Prop :=
  Unknown [8, 16, 18] depth msg.unknownFields

theorem foldl_addKeyinfo (values : List UInt32) (msg : UserFrame) :
    values.foldl addKeyinfo msg =
      { msg with keyinfo := msg.keyinfo ++ values } := by
  induction values generalizing msg with
  | nil =>
      rw [List.append_nil]
      rfl
  | cons value values ih =>
      rw [List.foldl_cons, ih, addKeyinfo, List.append_assoc]
      rfl

theorem apply_unknown
    (depth : Nat) (msg : UserFrame) {field : UnknownField}
    (h : field.tag ∉ [8, 16, 18]) :
    format.apply depth msg field =
      some { msg with unknownFields := msg.unknownFields ++ [field] } := by
  simp only [List.mem_cons, not_or] at h
  obtain ⟨huuid, hkey, hpacked, -⟩ := h
  dsimp only [format]
  rw [if_neg huuid, if_neg hkey, if_neg hpacked]

/-- The parser that goes through the switch for every element. -/
theorem implements :
    Implements (parserWith (readUInt32 addKeyinfo)) format where
  small := by
    intro tag parse h
    dsimp only [parserWith] at h
    split at h
    · omega
    · omega
    · omega
    · cases h
  parses := by
    intro tag parse h
    dsimp only [parserWith] at h
    split at h
    · cases h
      exact parses_readUInt32 (by decide) rfl rfl fun _ _ _ => rfl
    · cases h
      exact parses_readUInt32 (by decide) rfl rfl fun _ _ _ => rfl
    · cases h
      exact parses_readPacked rfl fun _ _ _ => rfl
    · cases h
  delimited := by
    intro tag h
    rw [Bool.eq_false_iff]
    intro htag
    rw [eq_of_beq htag] at h
    cases h
  unknown := by
    rintro _ h depth msg field rfl
    refine apply_unknown depth msg fun hmem => ?_
    simp only [List.mem_cons, List.not_mem_nil, or_false] at hmem
    rcases hmem with htag | htag | htag
    · rw [htag] at h
      cases h
    · rw [htag] at h
      cases h
    · rw [htag] at h
      cases h

theorem shortcut (room : List UInt32 → Nat) :
    Shortcut (parser room) (parserWith (readUInt32 addKeyinfo)) 16 addKeyinfo
      (fun msg => room msg.keyinfo) where
  fast := rfl
  plain := rfl
  other := by
    intro t ht
    dsimp only [parser, parserWith]
    split
    · rfl
    · exact absurd rfl ht
    · rfl
    · rfl
  unknown := rfl

theorem merges (room : List UInt32 → Nat) : Merges (parser room) format :=
  (shortcut room).merges implements

theorem fold_fields
    {depth : Nat} {msg : UserFrame} (hvalid : Valid depth msg) :
    msg.fields.foldlM (format.apply depth) {} = some msg := by
  have huuid := foldlM_optional_uint32 (format.apply depth)
    (fun uuid => { uuid := uuid }) 1 msg.uuid fun _ => rfl
  have hkeys := foldlM_collect_uint32 (format.apply depth)
    (fun keyinfo => { uuid := msg.uuid, keyinfo := keyinfo })
    2 msg.keyinfo fun _ _ => rfl
  have hunknown := foldlM_collect (format.apply depth)
    (fun unknown => { msg with unknownFields := unknown }) id
    msg.unknownFields
    fun _ field hfield => apply_unknown depth _ (hvalid field hfield).2
  rw [List.map_id] at hunknown
  exact foldlM_append_some (foldlM_append_some huuid hkeys) hunknown

theorem lawful : messageClass.Lawful format fields Valid where
  merges := fun room => merges (room 0)
  typed := by
    intro tag h
    exact ⟨2, by decide, eq_of_beq h⟩
  length_toArray := by
    intro msg
    dsimp only [messageClass]
    rw [toArray, List.length_append, List.length_append,
      length_elim (length_writeUInt32ToArray (by decide)),
      length_flatMap (length_writeUInt32ToArray (by decide)),
      length_serializeUnknownFieldsToArray, byteSizeLong, uint32Size]
    omega
  toArray_eq := by
    intro msg
    dsimp only [messageClass]
    rw [toArray, fields, serializeUnknownFieldsToArray_append,
      serializeUnknownFieldsToArray_append,
      elim_toArray _ _ (writeUInt32ToArray_eq 1),
      flatMap_toArray _ _ (writeUInt32ToArray_eq 2)]
  fields_valid := by
    intro depth msg hvalid _
    simp only [fields, List.forall_mem_append]
    exact ⟨⟨varints_valid (by decide) _ _, varints_valid (by decide) _ _⟩,
      fun field hfield => (hvalid field hfield).1⟩
  fold_fields := fun _ _ hvalid _ => fold_fields hvalid
  valid_cleared := by
    intro depth field h
    cases h
  valid_apply := by
    intro depth msg field msg' hvalid hfield happly
    dsimp only [format] at happly
    split_ifs at happly with huuid hkey hpacked
    · obtain ⟨value, -, rfl⟩ := Option.map_eq_some_iff.mp happly
      exact hvalid
    · obtain ⟨value, -, rfl⟩ := Option.map_eq_some_iff.mp happly
      exact hvalid
    · obtain ⟨data, -, hdata⟩ := Option.bind_eq_some_iff.mp happly
      obtain ⟨values, -, rfl⟩ := Option.map_eq_some_iff.mp hdata
      rw [foldl_addKeyinfo]
      exact hvalid
    · cases happly
      exact hvalid.append hfield (by simp [huuid, hkey, hpacked])
  apply_mergeFrom := by
    intro depth msg msg' field
    dsimp only [format, messageClass]
    split_ifs
    · cases field.asVarint <;> rfl
    · cases field.asVarint with
      | none =>
          rfl
      | some value =>
          simp only [Option.map_some, mergeFrom, addKeyinfo,
            List.append_assoc]
    · cases field.asBytes with
      | none =>
          rfl
      | some data =>
          simp only [Option.bind_some, Option.map_map, Function.comp_def,
            foldl_addKeyinfo, mergeFrom, List.append_assoc]
    · simp only [Option.map_some, mergeFrom, List.append_assoc]
  mergeFrom_cleared := by
    intro msg
    simp [messageClass, mergeFrom]

end UserFrame

end UserFrame

section CSFrame

structure CSFrame where
  uuid : Option UInt32 := none
  frameid : Option UInt64 := none
  keyinfo : List UInt32 := []
  unknownFields : List UnknownField := []

namespace CSFrame

/-- Another element of the repeated field. -/
def addKeyinfo (msg : CSFrame) (value : UInt32) : CSFrame :=
  { msg with keyinfo := msg.keyinfo ++ [value] }

/-- The cases of the switch, given how elements of the repeated field are read. -/
def parserWith (repeated : FieldParser CSFrame) : Generated CSFrame where
  parserOf
    | 8 => some (readUInt32 fun msg value => { msg with uuid := some value })
    | 16 =>
        some (readUInt64 fun msg value => { msg with frameid := some value })
    | 24 => some repeated
    | 26 => some (readPacked addKeyinfo)
    | _ => none
  addUnknown := fun msg field =>
    { msg with unknownFields := msg.unknownFields ++ [field] }

/-- The parser, by the room behind some elements of the repeated field. -/
def parser (room : List UInt32 → Nat) : Generated CSFrame :=
  parserWith (readRepeated 24 addKeyinfo (fun msg => room msg.keyinfo))

def byteSizeLong (msg : CSFrame) : Nat :=
  computeUnknownFieldsSize msg.unknownFields +
    (1 * msg.keyinfo.length + uint32Size msg.keyinfo) +
    msg.frameid.elim 0 (fun value => 1 + varintSize value.toNat) +
    msg.uuid.elim 0 (fun value => 1 + varintSize value.toNat)

def toArray (msg : CSFrame) : List UInt8 :=
  msg.uuid.elim [] (writeUInt32ToArray 1) ++
    msg.frameid.elim [] (writeUInt64ToArray 2) ++
    msg.keyinfo.flatMap (writeUInt32ToArray 3) ++
    serializeUnknownFieldsToArray msg.unknownFields

def mergeFrom (msg source : CSFrame) : CSFrame where
  unknownFields := msg.unknownFields ++ source.unknownFields
  keyinfo := msg.keyinfo ++ source.keyinfo
  frameid := source.frameid.or msg.frameid
  uuid := source.uuid.or msg.uuid

def messageClass : MessageClass CSFrame where
  cleared := {}
  parser := fun room => parser (room 0)
  byteSizeLong := byteSizeLong
  toArray := toArray
  mergeFrom := mergeFrom

def format : Format CSFrame where
  delimited := (· == 26)
  apply := fun _ msg field =>
    if field.tag = 8 then
      field.asVarint.map
        (fun value => { msg with uuid := some value.toUInt32 })
    else if field.tag = 16 then
      field.asVarint.map (fun value => { msg with frameid := some value })
    else if field.tag = 24 then
      field.asVarint.map (fun value => msg.addKeyinfo value.toUInt32)
    else if field.tag = 26 then
      field.asBytes.bind (fun data =>
        (packedOf data).map (fun values => values.foldl addKeyinfo msg))
    else some { msg with unknownFields := msg.unknownFields ++ [field] }

def fields (msg : CSFrame) : List UnknownField :=
  msg.uuid.toList.map (fun value => .varint 1 value.toUInt64) ++
    msg.frameid.toList.map (.varint 2) ++
    msg.keyinfo.map (fun value => .varint 3 value.toUInt64) ++
    msg.unknownFields

def Valid (depth : Nat) (msg : CSFrame) : Prop :=
  Unknown [8, 16, 24, 26] depth msg.unknownFields

theorem foldl_addKeyinfo (values : List UInt32) (msg : CSFrame) :
    values.foldl addKeyinfo msg =
      { msg with keyinfo := msg.keyinfo ++ values } := by
  induction values generalizing msg with
  | nil =>
      rw [List.append_nil]
      rfl
  | cons value values ih =>
      rw [List.foldl_cons, ih, addKeyinfo, List.append_assoc]
      rfl

theorem apply_unknown
    (depth : Nat) (msg : CSFrame) {field : UnknownField}
    (h : field.tag ∉ [8, 16, 24, 26]) :
    format.apply depth msg field =
      some { msg with unknownFields := msg.unknownFields ++ [field] } := by
  simp only [List.mem_cons, not_or] at h
  obtain ⟨huuid, hframe, hkey, hpacked, -⟩ := h
  dsimp only [format]
  rw [if_neg huuid, if_neg hframe, if_neg hkey, if_neg hpacked]

/-- The parser that goes through the switch for every element. -/
theorem implements :
    Implements (parserWith (readUInt32 addKeyinfo)) format where
  small := by
    intro tag parse h
    dsimp only [parserWith] at h
    split at h
    · omega
    · omega
    · omega
    · omega
    · cases h
  parses := by
    intro tag parse h
    dsimp only [parserWith] at h
    split at h
    · cases h
      exact parses_readUInt32 (by decide) rfl rfl fun _ _ _ => rfl
    · cases h
      exact parses_readUInt64 (by decide) rfl rfl fun _ _ _ => rfl
    · cases h
      exact parses_readUInt32 (by decide) rfl rfl fun _ _ _ => rfl
    · cases h
      exact parses_readPacked rfl fun _ _ _ => rfl
    · cases h
  delimited := by
    intro tag h
    rw [Bool.eq_false_iff]
    intro htag
    rw [eq_of_beq htag] at h
    cases h
  unknown := by
    rintro _ h depth msg field rfl
    refine apply_unknown depth msg fun hmem => ?_
    simp only [List.mem_cons, List.not_mem_nil, or_false] at hmem
    rcases hmem with htag | htag | htag | htag
    · rw [htag] at h
      cases h
    · rw [htag] at h
      cases h
    · rw [htag] at h
      cases h
    · rw [htag] at h
      cases h

theorem shortcut (room : List UInt32 → Nat) :
    Shortcut (parser room) (parserWith (readUInt32 addKeyinfo)) 24 addKeyinfo
      (fun msg => room msg.keyinfo) where
  fast := rfl
  plain := rfl
  other := by
    intro t ht
    dsimp only [parser, parserWith]
    split
    · rfl
    · rfl
    · exact absurd rfl ht
    · rfl
    · rfl
  unknown := rfl

theorem merges (room : List UInt32 → Nat) : Merges (parser room) format :=
  (shortcut room).merges implements

theorem fold_fields
    {depth : Nat} {msg : CSFrame} (hvalid : Valid depth msg) :
    msg.fields.foldlM (format.apply depth) {} = some msg := by
  have huuid := foldlM_optional_uint32 (format.apply depth)
    (fun uuid => { uuid := uuid }) 1 msg.uuid fun _ => rfl
  have hframe := foldlM_optional (format.apply depth)
    (fun frameid => { uuid := msg.uuid, frameid := frameid })
    (.varint 2) msg.frameid fun _ _ => rfl
  have hkeys := foldlM_collect_uint32 (format.apply depth)
    (fun keyinfo => { msg with keyinfo := keyinfo, unknownFields := [] })
    3 msg.keyinfo fun _ _ => rfl
  have hunknown := foldlM_collect (format.apply depth)
    (fun unknown => { msg with unknownFields := unknown }) id
    msg.unknownFields
    fun _ field hfield => apply_unknown depth _ (hvalid field hfield).2
  rw [List.map_id] at hunknown
  exact foldlM_append_some (foldlM_append_some
    (foldlM_append_some huuid hframe) hkeys) hunknown

theorem lawful : messageClass.Lawful format fields Valid where
  merges := fun room => merges (room 0)
  typed := by
    intro tag h
    exact ⟨3, by decide, eq_of_beq h⟩
  length_toArray := by
    intro msg
    dsimp only [messageClass]
    rw [toArray, List.length_append, List.length_append, List.length_append,
      length_elim (length_writeUInt32ToArray (by decide)),
      length_elim (length_writeUInt64ToArray (by decide)),
      length_flatMap (length_writeUInt32ToArray (by decide)),
      length_serializeUnknownFieldsToArray, byteSizeLong, uint32Size]
    omega
  toArray_eq := by
    intro msg
    dsimp only [messageClass]
    rw [toArray, fields, serializeUnknownFieldsToArray_append,
      serializeUnknownFieldsToArray_append,
      serializeUnknownFieldsToArray_append,
      elim_toArray _ _ (writeUInt32ToArray_eq 1),
      elim_toArray _ _ (writeUInt64ToArray_eq 2),
      flatMap_toArray _ _ (writeUInt32ToArray_eq 3)]
  fields_valid := by
    intro depth msg hvalid _
    simp only [fields, List.forall_mem_append]
    exact ⟨⟨⟨varints_valid (by decide) _ _, varints_valid (by decide) id _⟩,
      varints_valid (by decide) _ _⟩,
      fun field hfield => (hvalid field hfield).1⟩
  fold_fields := fun _ _ hvalid _ => fold_fields hvalid
  valid_cleared := by
    intro depth field h
    cases h
  valid_apply := by
    intro depth msg field msg' hvalid hfield happly
    dsimp only [format] at happly
    split_ifs at happly with huuid hframe hkey hpacked
    · obtain ⟨value, -, rfl⟩ := Option.map_eq_some_iff.mp happly
      exact hvalid
    · obtain ⟨value, -, rfl⟩ := Option.map_eq_some_iff.mp happly
      exact hvalid
    · obtain ⟨value, -, rfl⟩ := Option.map_eq_some_iff.mp happly
      exact hvalid
    · obtain ⟨data, -, hdata⟩ := Option.bind_eq_some_iff.mp happly
      obtain ⟨values, -, rfl⟩ := Option.map_eq_some_iff.mp hdata
      rw [foldl_addKeyinfo]
      exact hvalid
    · cases happly
      exact hvalid.append hfield (by simp [huuid, hframe, hkey, hpacked])
  apply_mergeFrom := by
    intro depth msg msg' field
    dsimp only [format, messageClass]
    split_ifs
    · cases field.asVarint <;> rfl
    · cases field.asVarint <;> rfl
    · cases field.asVarint with
      | none =>
          rfl
      | some value =>
          simp only [Option.map_some, mergeFrom, addKeyinfo,
            List.append_assoc]
    · cases field.asBytes with
      | none =>
          rfl
      | some data =>
          simp only [Option.bind_some, Option.map_map, Function.comp_def,
            foldl_addKeyinfo, mergeFrom, List.append_assoc]
    · simp only [Option.map_some, mergeFrom, List.append_assoc]
  mergeFrom_cleared := by
    intro msg
    simp [messageClass, mergeFrom]

end CSFrame

end CSFrame

section SCFrame

structure SCFrame where
  frameid : Option UInt64 := none
  nextframeid : Option UInt64 := none
  users : List UserFrame := []
  unknownFields : List UnknownField := []

namespace SCFrame

/-- `add_users`, with what is read into the new element. -/
def addUsers (msg : SCFrame) (user : UserFrame) : SCFrame :=
  { msg with users := msg.users ++ [user] }

/-- The parser, by the room in the repeated field of every user. -/
def parser (room : Nat → List UInt32 → Nat) : Generated SCFrame where
  parserOf
    | 8 =>
        some (readUInt64 fun msg value => { msg with frameid := some value })
    | 16 =>
        some (readUInt64 fun msg value =>
          { msg with nextframeid := some value })
    | 26 =>
        some (fun msg =>
          readMessage (UserFrame.parser (room msg.users.length)) {} addUsers
            msg)
    | _ => none
  addUnknown := fun msg field =>
    { msg with unknownFields := msg.unknownFields ++ [field] }

def byteSizeLong (msg : SCFrame) : Nat :=
  computeUnknownFieldsSize msg.unknownFields +
    (1 * msg.users.length +
      (msg.users.map
        (fun user => lengthDelimitedSize user.byteSizeLong)).sum) +
    msg.frameid.elim 0 (fun value => 1 + varintSize value.toNat) +
    msg.nextframeid.elim 0 (fun value => 1 + varintSize value.toNat)

def toArray (msg : SCFrame) : List UInt8 :=
  msg.frameid.elim [] (writeUInt64ToArray 1) ++
    msg.nextframeid.elim [] (writeUInt64ToArray 2) ++
    msg.users.flatMap
      (fun user => writeMessageToArray 3 user.byteSizeLong user.toArray) ++
    serializeUnknownFieldsToArray msg.unknownFields

def mergeFrom (msg source : SCFrame) : SCFrame where
  unknownFields := msg.unknownFields ++ source.unknownFields
  users := msg.users ++ source.users
  frameid := source.frameid.or msg.frameid
  nextframeid := source.nextframeid.or msg.nextframeid

def messageClass : MessageClass SCFrame where
  cleared := {}
  parser := parser
  byteSizeLong := byteSizeLong
  toArray := toArray
  mergeFrom := mergeFrom

def format : Format SCFrame where
  delimited := (· == 26)
  apply := fun depth msg field =>
    if field.tag = 8 then
      field.asVarint.map (fun value => { msg with frameid := some value })
    else if field.tag = 16 then
      field.asVarint.map (fun value => { msg with nextframeid := some value })
    else if field.tag = 26 then
      field.asBytes.bind (fun data =>
        (UserFrame.format.nested {} depth data).map msg.addUsers)
    else some { msg with unknownFields := msg.unknownFields ++ [field] }

def fields (msg : SCFrame) : List UnknownField :=
  msg.frameid.toList.map (.varint 1) ++
    msg.nextframeid.toList.map (.varint 2) ++
    msg.users.map (fun user => .lengthDelimited 3 user.toArray) ++
    msg.unknownFields

/-- A user is one level down. -/
structure Valid (depth : Nat) (msg : SCFrame) : Prop where
  unknown : Unknown [8, 16, 26] depth msg.unknownFields
  users : ∀ user ∈ msg.users, MessageClass.Inside UserFrame.Valid depth user

theorem apply_unknown
    (depth : Nat) (msg : SCFrame) {field : UnknownField}
    (h : field.tag ∉ [8, 16, 26]) :
    format.apply depth msg field =
      some { msg with unknownFields := msg.unknownFields ++ [field] } := by
  simp only [List.mem_cons, not_or] at h
  obtain ⟨hframe, hnext, husers, -⟩ := h
  dsimp only [format]
  rw [if_neg hframe, if_neg hnext, if_neg husers]

theorem implements (room : Nat → List UInt32 → Nat) :
    Implements (parser room) format where
  small := by
    intro tag parse h
    dsimp only [parser] at h
    split at h
    · omega
    · omega
    · omega
    · cases h
  parses := by
    intro tag parse h
    dsimp only [parser] at h
    split at h
    · cases h
      exact parses_readUInt64 (by decide) rfl rfl fun _ _ _ => rfl
    · cases h
      exact parses_readUInt64 (by decide) rfl rfl fun _ _ _ => rfl
    · cases h
      intro msg
      exact parses_readMessage (UserFrame.merges (room msg.users.length)) rfl
        (fun _ _ _ => rfl) msg
    · cases h
  delimited := by
    intro tag h
    rw [Bool.eq_false_iff]
    intro htag
    rw [eq_of_beq htag] at h
    cases h
  unknown := by
    rintro _ h depth msg field rfl
    refine apply_unknown depth msg fun hmem => ?_
    simp only [List.mem_cons, List.not_mem_nil, or_false] at hmem
    rcases hmem with htag | htag | htag
    · rw [htag] at h
      cases h
    · rw [htag] at h
      cases h
    · rw [htag] at h
      cases h

theorem byteSizeLong_user
    {msg : SCFrame} {user : UserFrame} (h : user ∈ msg.users) :
    user.byteSizeLong ≤ msg.byteSizeLong := by
  have hle := le_sum_lengthDelimited UserFrame.byteSizeLong h
  rw [byteSizeLong]
  omega

theorem fold_fields
    {depth : Nat} {msg : SCFrame} (hvalid : Valid depth msg)
    (hsize : msg.byteSizeLong ≤ INT_MAX) :
    msg.fields.foldlM (format.apply depth) {} = some msg := by
  have hframe := foldlM_optional (format.apply depth)
    (fun frameid => { frameid := frameid })
    (.varint 1) msg.frameid fun _ _ => rfl
  have hnext := foldlM_optional (format.apply depth)
    (fun nextframeid =>
      { frameid := msg.frameid, nextframeid := nextframeid })
    (.varint 2) msg.nextframeid fun _ _ => rfl
  have husers := foldlM_collect (format.apply depth)
    (fun users => { msg with users := users, unknownFields := [] })
    (fun user => .lengthDelimited 3 user.toArray) msg.users (by
      intro users user huser
      have hread := UserFrame.lawful.nested_toArray (hvalid.users user huser)
        ((byteSizeLong_user huser).trans hsize)
      exact congrArg (Option.map _) hread)
  have hunknown := foldlM_collect (format.apply depth)
    (fun unknown => { msg with unknownFields := unknown }) id
    msg.unknownFields
    fun _ field hfield =>
      apply_unknown depth _ (hvalid.unknown field hfield).2
  rw [List.map_id] at hunknown
  exact foldlM_append_some (foldlM_append_some
    (foldlM_append_some hframe hnext) husers) hunknown

theorem lawful : messageClass.Lawful format fields Valid where
  merges := fun room => (implements room).merges
  typed := by
    intro tag h
    exact ⟨3, by decide, eq_of_beq h⟩
  length_toArray := by
    intro msg
    have huser (user : UserFrame) :
        (writeMessageToArray 3 user.byteSizeLong user.toArray).length =
          1 + lengthDelimitedSize user.byteSizeLong :=
      UserFrame.lawful.length_writeMessageToArray (by decide) user
    dsimp only [messageClass]
    rw [toArray, List.length_append, List.length_append, List.length_append,
      length_elim (length_writeUInt64ToArray (by decide)),
      length_elim (length_writeUInt64ToArray (by decide)),
      length_flatMap huser, length_serializeUnknownFieldsToArray,
      byteSizeLong]
    omega
  toArray_eq := by
    intro msg
    have huser (user : UserFrame) :
        writeMessageToArray 3 user.byteSizeLong user.toArray =
          (UnknownField.lengthDelimited 3 user.toArray).toArray :=
      UserFrame.lawful.writeMessageToArray_eq 3 user
    dsimp only [messageClass]
    rw [toArray, fields, serializeUnknownFieldsToArray_append,
      serializeUnknownFieldsToArray_append,
      serializeUnknownFieldsToArray_append,
      elim_toArray _ _ (writeUInt64ToArray_eq 1),
      elim_toArray _ _ (writeUInt64ToArray_eq 2), flatMap_toArray _ _ huser]
  fields_valid := by
    intro depth msg hvalid hsize
    simp only [fields, List.forall_mem_append]
    refine ⟨⟨⟨varints_valid (by decide) id _, varints_valid (by decide) id _⟩,
      ?_⟩, fun field hfield => (hvalid.unknown field hfield).1⟩
    exact UserFrame.lawful.elements_valid (by decide)
      fun user huser => (byteSizeLong_user huser).trans hsize
  fold_fields := fun _ _ hvalid hsize => fold_fields hvalid hsize
  valid_cleared := by
    intro depth
    refine ⟨?_, ?_⟩
    · intro field h
      cases h
    · intro user h
      cases h
  valid_apply := by
    intro depth msg field msg' hvalid hfield happly
    dsimp only [format] at happly
    split_ifs at happly with hframe hnext husers
    · obtain ⟨value, -, rfl⟩ := Option.map_eq_some_iff.mp happly
      exact ⟨hvalid.unknown, hvalid.users⟩
    · obtain ⟨value, -, rfl⟩ := Option.map_eq_some_iff.mp happly
      exact ⟨hvalid.unknown, hvalid.users⟩
    · obtain ⟨data, -, hdata⟩ := Option.bind_eq_some_iff.mp happly
      obtain ⟨user, hnested, rfl⟩ := Option.map_eq_some_iff.mp hdata
      refine ⟨hvalid.unknown, List.forall_mem_append.mpr
        ⟨hvalid.users, List.forall_mem_singleton.mpr ?_⟩⟩
      exact UserFrame.lawful.nested_valid hnested
    · cases happly
      exact ⟨hvalid.unknown.append hfield
        (by simp [hframe, hnext, husers]), hvalid.users⟩
  apply_mergeFrom := by
    intro depth msg msg' field
    dsimp only [format, messageClass]
    split_ifs
    · cases field.asVarint <;> rfl
    · cases field.asVarint <;> rfl
    · cases field.asBytes with
      | none =>
          rfl
      | some data =>
          have hadd : (mergeFrom msg msg').addUsers =
              mergeFrom msg ∘ msg'.addUsers := by
            funext user
            simp only [addUsers, mergeFrom, Function.comp_apply,
              List.append_assoc]
          rw [Option.bind_some, Option.bind_some, Option.map_map, hadd]
    · simp only [Option.map_some, mergeFrom, List.append_assoc]
  mergeFrom_cleared := by
    intro msg
    simp [messageClass, mergeFrom]

end SCFrame

end SCFrame

section SCSight

structure SCSight where
  players : List PlayerInfo := []
  unknownFields : List UnknownField := []

namespace SCSight

/-- `add_players`, with what is read into the new element. -/
def addPlayers (msg : SCSight) (player : PlayerInfo) : SCSight :=
  { msg with players := msg.players ++ [player] }

def parser : Generated SCSight where
  parserOf
    | 10 => some (readMessage PlayerInfo.parser {} addPlayers)
    | _ => none
  addUnknown := fun msg field =>
    { msg with unknownFields := msg.unknownFields ++ [field] }

def byteSizeLong (msg : SCSight) : Nat :=
  computeUnknownFieldsSize msg.unknownFields +
    (1 * msg.players.length +
      (msg.players.map
        (fun player => lengthDelimitedSize player.byteSizeLong)).sum)

def toArray (msg : SCSight) : List UInt8 :=
  msg.players.flatMap
      (fun player =>
        writeMessageToArray 1 player.byteSizeLong player.toArray) ++
    serializeUnknownFieldsToArray msg.unknownFields

def mergeFrom (msg source : SCSight) : SCSight where
  unknownFields := msg.unknownFields ++ source.unknownFields
  players := msg.players ++ source.players

def messageClass : MessageClass SCSight where
  cleared := {}
  parser := fun _ => parser
  byteSizeLong := byteSizeLong
  toArray := toArray
  mergeFrom := mergeFrom

def format : Format SCSight where
  delimited := (· == 10)
  apply := fun depth msg field =>
    if field.tag = 10 then
      field.asBytes.bind (fun data =>
        (PlayerInfo.format.nested {} depth data).map msg.addPlayers)
    else some { msg with unknownFields := msg.unknownFields ++ [field] }

def fields (msg : SCSight) : List UnknownField :=
  msg.players.map (fun player => .lengthDelimited 1 player.toArray) ++
    msg.unknownFields

/-- A player is one level down. -/
structure Valid (depth : Nat) (msg : SCSight) : Prop where
  unknown : Unknown [10] depth msg.unknownFields
  players : ∀ player ∈ msg.players,
    MessageClass.Inside PlayerInfo.Valid depth player

theorem apply_unknown
    (depth : Nat) (msg : SCSight) {field : UnknownField}
    (h : field.tag ∉ [10]) :
    format.apply depth msg field =
      some { msg with unknownFields := msg.unknownFields ++ [field] } := by
  rw [List.mem_singleton] at h
  dsimp only [format]
  rw [if_neg h]

theorem implements : Implements parser format where
  small := by
    intro tag parse h
    dsimp only [parser] at h
    split at h
    · omega
    · cases h
  parses := by
    intro tag parse h
    dsimp only [parser] at h
    split at h
    · cases h
      exact parses_readMessage PlayerInfo.implements.merges rfl
        fun _ _ _ => rfl
    · cases h
  delimited := by
    intro tag h
    rw [Bool.eq_false_iff]
    intro htag
    rw [eq_of_beq htag] at h
    cases h
  unknown := by
    rintro _ h depth msg field rfl
    refine apply_unknown depth msg fun hmem => ?_
    rw [List.mem_singleton.mp hmem] at h
    cases h

theorem byteSizeLong_player
    {msg : SCSight} {player : PlayerInfo} (h : player ∈ msg.players) :
    player.byteSizeLong ≤ msg.byteSizeLong := by
  have hle := le_sum_lengthDelimited PlayerInfo.byteSizeLong h
  rw [byteSizeLong]
  omega

theorem fold_fields
    {depth : Nat} {msg : SCSight} (hvalid : Valid depth msg)
    (hsize : msg.byteSizeLong ≤ INT_MAX) :
    msg.fields.foldlM (format.apply depth) {} = some msg := by
  have hplayers := foldlM_collect (format.apply depth)
    (fun players => { players := players })
    (fun player => .lengthDelimited 1 player.toArray) msg.players (by
      intro players player hplayer
      have hread := PlayerInfo.lawful.nested_toArray
        (hvalid.players player hplayer)
        ((byteSizeLong_player hplayer).trans hsize)
      exact congrArg (Option.map _) hread)
  have hunknown := foldlM_collect (format.apply depth)
    (fun unknown => { msg with unknownFields := unknown }) id
    msg.unknownFields
    fun _ field hfield =>
      apply_unknown depth _ (hvalid.unknown field hfield).2
  rw [List.map_id] at hunknown
  exact foldlM_append_some hplayers hunknown

theorem lawful : messageClass.Lawful format fields Valid where
  merges := fun _ => implements.merges
  typed := by
    intro tag h
    exact ⟨1, by decide, eq_of_beq h⟩
  length_toArray := by
    intro msg
    have hplayer (player : PlayerInfo) :
        (writeMessageToArray 1 player.byteSizeLong player.toArray).length =
          1 + lengthDelimitedSize player.byteSizeLong :=
      PlayerInfo.lawful.length_writeMessageToArray (by decide) player
    dsimp only [messageClass]
    rw [toArray, List.length_append, length_flatMap hplayer,
      length_serializeUnknownFieldsToArray, byteSizeLong]
    exact Nat.add_comm _ _
  toArray_eq := by
    intro msg
    have hplayer (player : PlayerInfo) :
        writeMessageToArray 1 player.byteSizeLong player.toArray =
          (UnknownField.lengthDelimited 1 player.toArray).toArray :=
      PlayerInfo.lawful.writeMessageToArray_eq 1 player
    dsimp only [messageClass]
    rw [toArray, fields, serializeUnknownFieldsToArray_append,
      flatMap_toArray _ _ hplayer]
  fields_valid := by
    intro depth msg hvalid hsize
    simp only [fields, List.forall_mem_append]
    refine ⟨?_, fun field hfield => (hvalid.unknown field hfield).1⟩
    exact PlayerInfo.lawful.elements_valid (by decide)
      fun player hplayer => (byteSizeLong_player hplayer).trans hsize
  fold_fields := fun _ _ hvalid hsize => fold_fields hvalid hsize
  valid_cleared := by
    intro depth
    refine ⟨?_, ?_⟩
    · intro field h
      cases h
    · intro player h
      cases h
  valid_apply := by
    intro depth msg field msg' hvalid hfield happly
    dsimp only [format] at happly
    split_ifs at happly with hplayers
    · obtain ⟨data, -, hdata⟩ := Option.bind_eq_some_iff.mp happly
      obtain ⟨player, hnested, rfl⟩ := Option.map_eq_some_iff.mp hdata
      refine ⟨hvalid.unknown, List.forall_mem_append.mpr
        ⟨hvalid.players, List.forall_mem_singleton.mpr ?_⟩⟩
      exact PlayerInfo.lawful.nested_valid hnested
    · cases happly
      exact ⟨hvalid.unknown.append hfield (by simp [hplayers]),
        hvalid.players⟩
  apply_mergeFrom := by
    intro depth msg msg' field
    dsimp only [format, messageClass]
    split_ifs
    · cases field.asBytes with
      | none =>
          rfl
      | some data =>
          have hadd : (mergeFrom msg msg').addPlayers =
              mergeFrom msg ∘ msg'.addPlayers := by
            funext player
            simp only [addPlayers, mergeFrom, Function.comp_apply,
              List.append_assoc]
          rw [Option.bind_some, Option.bind_some, Option.map_map, hadd]
    · simp only [Option.map_some, mergeFrom, List.append_assoc]
  mergeFrom_cleared := by
    intro msg
    simp [messageClass, mergeFrom]

end SCSight

end SCSight

end PlayerProto

end Wire
end NetEngine
