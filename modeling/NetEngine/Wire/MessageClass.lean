import NetEngine.Wire.Parsing

/-!
# Message classes

What message_lite.cc does with a message of any generated class: `ParseFromArray`
reads one, `SerializeToArray` writes one.  A class is given by its parser, by
what it writes and how many bytes it expects to write, and by `MergeFrom`.

`Lawful` lists what has to be seen of a class, field by field.  From it follow
the round trip, that unknown fields survive it, that one message behind another
is their merge, and that the size that is computed is the size that is written.
-/

namespace NetEngine
namespace Wire

open LockStep Unity Net

variable {σ : Type}

/-- A class of player.pb.cc. -/
structure MessageClass (σ : Type) where
  /-- The message that `Clear` leaves. -/
  cleared : σ
  /--
  The parser, by the room that is left in a repeated field behind some elements.
  It depends on what the message held before; messages inside another one are
  counted.
  -/
  parser : (Nat → List UInt32 → Nat) → Generated σ
  byteSizeLong : σ → Nat
  /-- `InternalSerializeWithCachedSizesToArray` after `ByteSizeLong`. -/
  toArray : σ → List UInt8
  mergeFrom : σ → σ → σ

/-- What comes of `SerializeToArray`. -/
inductive Serialized where
  | refused
  /-- The bytes go past the array. -/
  | overrun
  /-- `ByteSizeConsistencyError` ends the program. -/
  | inconsistent
  | written (bytes : List UInt8)

namespace MessageClass

variable (c : MessageClass σ)

/-- `ParseFromArray`. -/
def parseFromArray (room : Nat → List UInt32 → Nat) (data : Memory UInt8)
    (size : Nat) : Option σ :=
  (c.parser room).parseFromArray c.cleared data size

/-- `SerializeToArray` into an array of `size` bytes. -/
def serializeToArray (msg : σ) (size : Int) : Serialized :=
  let byteSize := int32 (c.byteSizeLong msg)
  if size < byteSize then .refused
  -- the bytes are counted once they are written
  else if size < (c.toArray msg).length then .overrun
  else if ((c.toArray msg).length : Int) ≠ byteSize then .inconsistent
  else .written (c.toArray msg)

end MessageClass

section Fields

theorem serializeUnknownFieldsToArray_append (xs ys : List UnknownField) :
    serializeUnknownFieldsToArray (xs ++ ys) =
      serializeUnknownFieldsToArray xs ++
        serializeUnknownFieldsToArray ys := by
  induction xs with
  | nil =>
      rfl
  | cons x xs ih =>
      rw [List.cons_append, serializeUnknownFieldsToArray,
        serializeUnknownFieldsToArray, ih, List.append_assoc]

theorem serializeUnknownFieldsToArray_eq_flatMap (xs : List UnknownField) :
    serializeUnknownFieldsToArray xs = xs.flatMap UnknownField.toArray := by
  induction xs with
  | nil =>
      rfl
  | cons x xs ih =>
      rw [serializeUnknownFieldsToArray, List.flatMap_cons, ih]

theorem UnknownField.Valid.lengthDelimited_of_tag
    {depth number : Nat} {field : UnknownField} (h : field.Valid depth)
    (htag : field.tag = 8 * number + 2) :
    ∃ value, field = .lengthDelimited number value ∧
      value.length ≤ INT_MAX := by
  have htype (n : Nat) {type : Nat} (hn : Numbered n) (hlt : type < 8)
      (hne : type ≠ 2) : makeTag n type ≠ 8 * number + 2 := by
    rw [hn.makeTag hlt]
    omega
  cases h with
  | @lengthDelimited _ n value hn hlength =>
      have heq := hn.makeTag (show WIRETYPE_LENGTH_DELIMITED < 8 by decide)
      rw [UnknownField.tag, heq, WIRETYPE_LENGTH_DELIMITED] at htag
      have hnumber : n = number := by
        omega
      exact ⟨value, by rw [hnumber], hlength⟩
  | fixed32 hn | varint hn | fixed64 hn | group hn _ =>
      exact absurd htag (htype _ hn (by decide) (by decide))

/-- Known fields with a length in front have tags that say so. -/
def Format.Typed (f : Format σ) : Prop :=
  ∀ tag, f.delimited tag = true →
    ∃ number, Numbered number ∧ tag = 8 * number + 2

namespace Format

variable {f : Format σ}

/-- A known field with a length in front is one that the format can carry. -/
theorem Typed.delimitedOf_valid
    (hf : f.Typed) {strict : Bool} {depth tag : Nat} {bs rest : List UInt8}
    {field : UnknownField} (htag : f.delimited tag = true)
    (h : delimitedOf strict tag bs = some (field, rest)) :
    field.Valid depth := by
  obtain ⟨number, hnumber, rfl⟩ := hf tag htag
  have heq : getTagFieldNumber (8 * number + 2) = number := by
    rw [getTagFieldNumber_eq]
    omega
  obtain ⟨⟨n, bs'⟩, hn, hfield⟩ := Option.bind_eq_some_iff.mp h
  dsimp only at hfield
  split_ifs at hfield with hint hstrict
  cases hfield
  rw [heq]
  refine .lengthDelimited hnumber ?_
  rw [List.length_take]
  omega

theorem Typed.itemOf_valid
    (hf : f.Typed) {strict : Bool} {depth : Nat} {bs rest : List UInt8}
    {field : UnknownField}
    (h : f.itemOf strict depth bs = some (field, rest)) :
    field.Valid depth := by
  rw [itemOf] at h
  split_ifs at h with hzero
  rw [bodyOf] at h
  split_ifs at h with hdelimited
  · exact hf.delimitedOf_valid hdelimited h
  · exact (fieldOf_valid (CodedInputStream.tagOf_lt bs) h).1

/-- A field that is written is read back. -/
theorem Typed.itemOf_toArray
    (hf : f.Typed) (strict : Bool) {depth : Nat} {field : UnknownField}
    (h : field.Valid depth) (rest : List UInt8) :
    f.itemOf strict depth (field.toArray ++ rest) = some (field, rest) := by
  obtain ⟨hlt, hzero, -⟩ := h.tag
  rw [field.toArray_eq, List.append_assoc, itemOf, tagOf_write hlt]
  dsimp only
  rw [if_neg hzero, bodyOf]
  split_ifs with hdelimited
  · obtain ⟨number, hnumber, htag⟩ := hf _ hdelimited
    obtain ⟨value, rfl, hlength⟩ := h.lengthDelimited_of_tag htag
    have heq : getTagFieldNumber
        (UnknownField.lengthDelimited number value).tag = number := by
      rw [getTagFieldNumber_eq, htag]
      omega
    have hnat : (UInt32.ofNat value.length).toNat = value.length :=
      UInt32.toNat_ofNat_of_lt' (Nat.lt_of_le_of_lt hlength (by decide))
    have hstrict : ¬ (strict = true ∧
        (value ++ rest).length < value.length) := by
      rw [List.length_append]
      omega
    rw [UnknownField.payload, writeBytesWithSizeToArray, List.append_assoc,
      delimitedOf, varintOf_write32, Option.bind_some, hnat]
    dsimp only
    rw [if_neg (Nat.not_lt.mpr hlength), if_neg hstrict, heq,
      List.take_left, List.drop_left]
  · exact fieldOf_payload h rest

theorem toArray_ne_nil (field : UnknownField) (rest : List UInt8) :
    field.toArray ++ rest ≠ [] := by
  have hpos := varintSize_pos (UInt32.ofNat field.tag).toNat
  rw [← length_writeVarint32ToArray] at hpos
  rw [field.toArray_eq]
  intro hnil
  have hlength := congrArg List.length hnil
  simp only [List.length_append, List.length_nil] at hlength
  omega

/-- Fields that are written are merged one after the other. -/
theorem Typed.merge_write
    (hf : f.Typed) (strict : Bool) {depth : Nat} (msg : σ)
    {fields : List UnknownField}
    (h : ∀ field ∈ fields, field.Valid depth) :
    f.merge strict depth msg (serializeUnknownFieldsToArray fields) =
      fields.foldlM (f.apply depth) msg := by
  have hread : Items.readAll (f.itemOf strict depth)
      (fields.flatMap UnknownField.toArray).length
      (fields.flatMap UnknownField.toArray) = some fields :=
    Items.readAll_flatMap (f.itemOf_consumes strict depth)
      fun field hfield rest =>
        ⟨toArray_ne_nil field rest,
          hf.itemOf_toArray strict (h field hfield) rest⟩
  rw [merge, items, serializeUnknownFieldsToArray_eq_flatMap, hread]
  rfl

/-- A field that can be written is read only where it is not too deep. -/
theorem Typed.itemOf_toArray_some
    (hf : f.Typed) {strict : Bool} {depth depth' : Nat}
    {field field' : UnknownField} (h : field.Valid depth')
    {rest rest' : List UInt8}
    (hread : f.itemOf strict depth (field.toArray ++ rest) =
      some (field', rest')) :
    field' = field ∧ rest' = rest ∧ field.Valid depth := by
  have hvalid := hf.itemOf_valid hread
  have hdeep : f.itemOf strict (max depth depth') (field.toArray ++ rest) =
      some (field', rest') := by
    rw [itemOf] at hread ⊢
    split_ifs at hread ⊢ with hzero
    rw [bodyOf] at hread ⊢
    split_ifs at hread ⊢ with hdelimited
    · exact hread
    · exact fieldOf_depth (Nat.le_max_left depth depth') hread
  have hagain := hf.itemOf_toArray strict
    (h.deeper (Nat.le_max_right depth depth')) rest
  rw [hdeep] at hagain
  cases hagain
  exact ⟨rfl, rfl, hvalid⟩

/-- What holds of a message and is kept by every field holds in the end. -/
theorem Typed.merge_induction
    (hf : f.Typed) {strict : Bool} {depth : Nat} {P : σ → Prop}
    (hstep : ∀ msg field msg', P msg → field.Valid depth →
      f.apply depth msg field = some msg' → P msg')
    {msg msg' : σ} {bs : List UInt8} (hmsg : P msg)
    (h : f.merge strict depth msg bs = some msg') : P msg' := by
  induction hlen : bs.length using Nat.strongRecOn generalizing msg bs with
  | ind n ih =>
      by_cases hnil : bs = []
      · rw [hnil, merge_nil] at h
        cases h
        exact hmsg
      rw [f.merge_cons _ _ _ hnil] at h
      obtain ⟨⟨field, rest⟩, hitem, hrest⟩ := Option.bind_eq_some_iff.mp h
      obtain ⟨next, happly, hmerge⟩ := Option.bind_eq_some_iff.mp hrest
      have hless := f.itemOf_consumes strict depth _ _ _ hitem
      exact ih rest.length (by omega)
        (hstep msg field next hmsg (hf.itemOf_valid hitem) happly) hmerge rfl

/-- A length that goes past the end is taken as what is left. -/
theorem merge_cut
    {depth number length : Nat} (msg : σ) {data : List UInt8}
    (hnumber : Numbered number)
    (hdelimited : f.delimited (makeTag number WIRETYPE_LENGTH_DELIMITED))
    (hlength : length ≤ INT_MAX) (hdata : data.length ≤ length) :
    f.merge false depth msg
        (writeTagToArray number WIRETYPE_LENGTH_DELIMITED ++
          (writeVarint32ToArray (UInt32.ofNat length) ++ data)) =
      f.apply depth msg (.lengthDelimited number data) := by
  obtain ⟨heq, -, hzero⟩ :=
    hnumber.fields (show WIRETYPE_LENGTH_DELIMITED < 8 by decide)
  have hlt : makeTag number WIRETYPE_LENGTH_DELIMITED < 2 ^ 32 :=
    Nat.mod_lt _ (Nat.two_pow_pos 32)
  have hnat : (UInt32.ofNat length).toNat = length :=
    UInt32.toNat_ofNat_of_lt' (Nat.lt_of_le_of_lt hlength (by decide))
  have hnil : writeTagToArray number WIRETYPE_LENGTH_DELIMITED ++
      (writeVarint32ToArray (UInt32.ofNat length) ++ data) ≠ [] := by
    have hpos := length_writeTagToArray_pos number WIRETYPE_LENGTH_DELIMITED
    intro hnil
    have hzero := congrArg List.length hnil
    rw [List.length_append, List.length_nil] at hzero
    omega
  rw [f.merge_cons _ _ _ hnil, itemOf, writeTagToArray, tagOf_write hlt]
  dsimp only
  rw [if_neg hzero, bodyOf, if_pos hdelimited, delimitedOf, varintOf_write32,
    Option.bind_some, hnat]
  dsimp only
  rw [if_neg (Nat.not_lt.mpr hlength),
    if_neg (fun h => Bool.false_ne_true h.1), heq,
    List.take_of_length_le hdata, List.drop_of_length_le hdata,
    Option.bind_some]
  cases happly : f.apply depth msg (.lengthDelimited number data) with
  | none =>
      rfl
  | some msg' =>
      rw [Option.bind_some]
      exact f.merge_nil false depth msg'

/-- Fields go into a merged message as they go into the second one. -/
theorem merge_map
    {strict : Bool} {depth : Nat} {into : σ → σ}
    (h : ∀ msg field, f.apply depth (into msg) field =
      (f.apply depth msg field).map into)
    (msg : σ) (bs : List UInt8) :
    f.merge strict depth (into msg) bs =
      (f.merge strict depth msg bs).map into := by
  have hfold (fields : List UnknownField) (msg : σ) :
      fields.foldlM (f.apply depth) (into msg) =
        (fields.foldlM (f.apply depth) msg).map into := by
    induction fields generalizing msg with
    | nil =>
        rfl
    | cons field fields ih =>
        rw [List.foldlM_cons, List.foldlM_cons, h]
        cases f.apply depth msg field with
        | none =>
            rfl
        | some msg' =>
            exact ih msg'
  rw [merge, merge]
  cases f.items strict depth bs with
  | none =>
      rfl
  | some fields =>
      exact hfold fields msg

end Format

end Fields

/-- What has to be seen of a class, field by field. -/
structure MessageClass.Lawful (c : MessageClass σ) (f : Format σ)
    (fields : σ → List UnknownField) (Valid : Nat → σ → Prop) : Prop where
  merges : ∀ room, Merges (c.parser room) f
  typed : f.Typed
  length_toArray : ∀ msg, (c.toArray msg).length = c.byteSizeLong msg
  toArray_eq : ∀ msg,
    c.toArray msg = serializeUnknownFieldsToArray (fields msg)
  fields_valid : ∀ depth msg, Valid depth msg →
    c.byteSizeLong msg ≤ INT_MAX → ∀ field ∈ fields msg, field.Valid depth
  fold_fields : ∀ depth msg, Valid depth msg →
    c.byteSizeLong msg ≤ INT_MAX →
      (fields msg).foldlM (f.apply depth) c.cleared = some msg
  valid_cleared : ∀ depth, Valid depth c.cleared
  valid_apply : ∀ depth msg field msg', Valid depth msg →
    field.Valid depth → f.apply depth msg field = some msg' →
      Valid depth msg'
  apply_mergeFrom : ∀ depth msg msg' field,
    f.apply depth (c.mergeFrom msg msg') field =
      (f.apply depth msg' field).map (c.mergeFrom msg)
  mergeFrom_cleared : ∀ msg, c.mergeFrom msg c.cleared = msg

namespace MessageClass

variable {c : MessageClass σ} {f : Format σ}
  {fields : σ → List UnknownField} {Valid : Nat → σ → Prop}

/-- A message is read back off the bytes that it writes. -/
theorem Lawful.merge_toArray
    (h : c.Lawful f fields Valid) (strict : Bool) {depth : Nat} {msg : σ}
    (hvalid : Valid depth msg) (hsize : c.byteSizeLong msg ≤ INT_MAX) :
    f.merge strict depth c.cleared (c.toArray msg) = some msg := by
  rw [h.toArray_eq, h.typed.merge_write strict _
    (h.fields_valid depth msg hvalid hsize)]
  exact h.fold_fields depth msg hvalid hsize

theorem Lawful.parseFromArray_eq
    (h : c.Lawful f fields Valid) (room : Nat → List UInt32 → Nat)
    (data : Memory UInt8) (size : Nat) :
    c.parseFromArray room data size =
      f.merge false 100 c.cleared (data.read 0 size) :=
  (h.merges room).parseFromArray_eq c.cleared data size

/-- What is merged is valid, at any depth. -/
theorem Lawful.merge_valid
    (h : c.Lawful f fields Valid) {strict : Bool} {depth : Nat} {msg : σ}
    {bs : List UInt8}
    (hmerge : f.merge strict depth c.cleared bs = some msg) :
    Valid depth msg :=
  h.typed.merge_induction (h.valid_apply depth) (h.valid_cleared depth)
    hmerge

/-- The size that is computed is the size that is written, up to `INT_MAX`. -/
theorem Lawful.serializeToArray_eq
    (h : c.Lawful f fields Valid) {msg : σ} (size : Int)
    (hint : c.byteSizeLong msg ≤ INT_MAX) :
    c.serializeToArray msg size =
      if size < c.byteSizeLong msg then .refused
      else .written (c.toArray msg) := by
  have heq : int32 (c.byteSizeLong msg) = c.byteSizeLong msg := by
    rw [INT_MAX] at hint
    exact int32_of_bounds (by omega) (by omega)
  rw [serializeToArray, h.length_toArray, heq]
  by_cases hroom : size < c.byteSizeLong msg
  · rw [if_pos hroom, if_pos hroom]
  · rw [if_neg hroom, if_neg hroom, if_neg hroom,
      if_neg (not_not.mpr rfl)]

/-- Above `INT_MAX` the size is cut to an `int` that the array may exceed. -/
theorem Lawful.serializeToArray_overrun
    (h : c.Lawful f fields Valid) {msg : σ} {size : Int}
    (hsize : size ≤ INT_MAX) (hint : INT_MAX < c.byteSizeLong msg) :
    c.serializeToArray msg size =
      if size < int32 (c.byteSizeLong msg) then .refused
      else .overrun := by
  rw [serializeToArray, h.length_toArray,
    if_pos (show size < c.byteSizeLong msg by omega)]

/-- A message that is written stays below `INT_MAX` and writes its bytes. -/
theorem Lawful.written
    (h : c.Lawful f fields Valid) {msg : σ} {size : Int} {bytes : List UInt8}
    (hwritten : c.serializeToArray msg size = .written bytes) :
    c.byteSizeLong msg ≤ INT_MAX ∧ bytes = c.toArray msg ∧
      (bytes.length : Int) ≤ size := by
  rw [serializeToArray, h.length_toArray] at hwritten
  split_ifs at hwritten with hroom hover hsame
  cases hwritten
  have hbound : int32 (c.byteSizeLong msg) < 2 ^ 31 := by
    unfold int32
    omega
  rw [h.length_toArray]
  refine ⟨?_, rfl, by omega⟩
  rw [INT_MAX]
  omega

theorem Lawful.writes
    (h : c.Lawful f fields Valid) {msg : σ} {size : Int}
    (hint : (c.toArray msg).length ≤ INT_MAX)
    (hroom : (c.toArray msg).length ≤ size) :
    c.serializeToArray msg size = .written (c.toArray msg) := by
  rw [h.length_toArray] at hint hroom
  rw [h.serializeToArray_eq size hint, if_neg (by omega)]

/-- Bytes of a message, and of what follows it. -/
theorem Lawful.parse_append
    (h : c.Lawful f fields Valid) (room room' : Nat → List UInt32 → Nat)
    {msg : σ} {size : Int} {bytes : List UInt8}
    {data data' : Memory UInt8} {n : Nat} (hvalid : Valid 100 msg)
    (hwritten : c.serializeToArray msg size = .written bytes)
    (hdata : data.read 0 (bytes.length + n) = bytes ++ data'.read 0 n) :
    c.parseFromArray room data (bytes.length + n) =
      (c.parseFromArray room' data' n).map (c.mergeFrom msg) := by
  obtain ⟨hint, hbytes, -⟩ := h.written hwritten
  have hstrict := h.merge_toArray true hvalid hint
  rw [← hbytes] at hstrict
  have hinto : f.merge false 100 (c.mergeFrom msg c.cleared)
      (data'.read 0 n) =
        (f.merge false 100 c.cleared (data'.read 0 n)).map
          (c.mergeFrom msg) :=
    Format.merge_map (h.apply_mergeFrom 100 msg) _ _
  rw [h.mergeFrom_cleared] at hinto
  rw [h.parseFromArray_eq, h.parseFromArray_eq, hdata,
    f.merge_append hstrict, hinto]

/-- What is written is parsed, and nothing else is made of it. -/
theorem Lawful.parse_written
    (h : c.Lawful f fields Valid) (room : Nat → List UInt32 → Nat)
    {msg : σ} {size : Int} {bytes : List UInt8} {data : Memory UInt8}
    (hvalid : Valid 100 msg)
    (hwritten : c.serializeToArray msg size = .written bytes)
    (hdata : data.read 0 bytes.length = bytes) :
    c.parseFromArray room data bytes.length = some msg := by
  obtain ⟨hint, hbytes, -⟩ := h.written hwritten
  rw [h.parseFromArray_eq, hdata, hbytes]
  exact h.merge_toArray false hvalid hint

/-- A parsed message is valid, so that what it writes is parsed again. -/
theorem Lawful.parsed
    (h : c.Lawful f fields Valid) {room : Nat → List UInt32 → Nat}
    {data : Memory UInt8} {n : Nat} {msg : σ}
    (hparse : c.parseFromArray room data n = some msg) :
    Valid 100 msg := by
  rw [h.parseFromArray_eq] at hparse
  exact h.merge_valid hparse

end MessageClass

end Wire
end NetEngine
