import NetEngine.LockStep.MessageSize
import NetEngine.Wire.CodedStream

/-!
# Unknown fields

What a generated parser does not know it keeps: `SkipField` and `SkipMessage`
of wire_format.cc read such a field into the unknown ones of the message,
`SerializeUnknownFieldsToArray` writes it out again and
`ComputeUnknownFieldsSize` says how many bytes that takes.

`fieldOf` is the format itself: a field is read off the front of some bytes, and
a group may hold fields down to some depth.  The stream follows it
(`skipField_eq`), what is written is read back (`fieldOf_toArray`), and what is
read can be written (`fieldOf_valid`).
-/

namespace NetEngine
namespace Wire

open LockStep Unity

/-- `UnknownField`; a group holds an `UnknownFieldSet`. -/
inductive UnknownField where
  | varint (number : Nat) (value : UInt64)
  | fixed32 (number : Nat) (value : UInt32)
  | fixed64 (number : Nat) (value : UInt64)
  | lengthDelimited (number : Nat) (value : List UInt8)
  | group (number : Nat) (fields : List UnknownField)

section WireTypes

def WIRETYPE_VARINT : Nat :=
  0

def WIRETYPE_FIXED64 : Nat :=
  1

def WIRETYPE_LENGTH_DELIMITED : Nat :=
  2

def WIRETYPE_START_GROUP : Nat :=
  3

def WIRETYPE_END_GROUP : Nat :=
  4

def WIRETYPE_FIXED32 : Nat :=
  5

/-- `MakeTag(field_number, type)`. -/
def makeTag (number type : Nat) : Nat :=
  (number <<< 3 ||| type) % 2 ^ 32

def getTagFieldNumber (tag : Nat) : Nat :=
  tag >>> 3

def getTagWireType (tag : Nat) : Nat :=
  tag &&& 7

end WireTypes

section Write

/-- `WriteVarint32ToArray`, whose loop ends after five bytes at most. -/
def writeVarint32ToArray (value : UInt32) : List UInt8 :=
  writeVarint kMaxVarint32Bytes value.toNat

/-- `WriteVarint64ToArray`, whose loop ends after ten bytes at most. -/
def writeVarint64ToArray (value : UInt64) : List UInt8 :=
  writeVarint kMaxVarintBytes value.toNat

def writeTagToArray (number type : Nat) : List UInt8 :=
  writeVarint32ToArray (UInt32.ofNat (makeTag number type))

/-- `WriteStringWithSizeToArray`. -/
def writeBytesWithSizeToArray (value : List UInt8) : List UInt8 :=
  writeVarint32ToArray (UInt32.ofNat value.length) ++ value

mutual

/-- One turn of the loop of `SerializeUnknownFieldsToArray`. -/
def UnknownField.toArray : UnknownField → List UInt8
  | .varint number value =>
      writeTagToArray number WIRETYPE_VARINT ++ writeVarint64ToArray value
  | .fixed32 number value =>
      writeTagToArray number WIRETYPE_FIXED32 ++ leBytes 4 value.toNat
  | .fixed64 number value =>
      writeTagToArray number WIRETYPE_FIXED64 ++ leBytes 8 value.toNat
  | .lengthDelimited number value =>
      writeTagToArray number WIRETYPE_LENGTH_DELIMITED ++
        writeBytesWithSizeToArray value
  | .group number fields =>
      writeTagToArray number WIRETYPE_START_GROUP ++
        serializeUnknownFieldsToArray fields ++
          writeTagToArray number WIRETYPE_END_GROUP

def serializeUnknownFieldsToArray : List UnknownField → List UInt8
  | [] => []
  | field :: fields =>
      field.toArray ++ serializeUnknownFieldsToArray fields

end

mutual

/-- One turn of the loop of `ComputeUnknownFieldsSize`. -/
def UnknownField.size : UnknownField → Nat
  | .varint number value =>
      varintSize (makeTag number WIRETYPE_VARINT) + varintSize value.toNat
  | .fixed32 number _ =>
      varintSize (makeTag number WIRETYPE_FIXED32) + 4
  | .fixed64 number _ =>
      varintSize (makeTag number WIRETYPE_FIXED64) + 8
  | .lengthDelimited number value =>
      varintSize (makeTag number WIRETYPE_LENGTH_DELIMITED) +
        varintSize (UInt32.ofNat value.length).toNat + value.length
  | .group number fields =>
      varintSize (makeTag number WIRETYPE_START_GROUP) +
        computeUnknownFieldsSize fields +
          varintSize (makeTag number WIRETYPE_END_GROUP)

def computeUnknownFieldsSize : List UnknownField → Nat
  | [] => 0
  | field :: fields => field.size + computeUnknownFieldsSize fields

end

end Write

section Skip

/-- `SkipField`, given what `SkipMessage` does on the fields of a group. -/
def skipFieldWith
    (skipMessage : CodedInputStream →
      Option (List UnknownField × Nat × CodedInputStream))
    (tag : Nat) (s : CodedInputStream) :
    Option (UnknownField × CodedInputStream) :=
  let number := getTagFieldNumber tag
  -- field number 0 is illegal
  if number = 0 then none
  else
    match getTagWireType tag with
    | 0 => s.readVarint64.map (fun e => (.varint number e.1, e.2))
    | 1 =>
        (s.readLittleEndian 8).map
          (fun e => (.fixed64 number (UInt64.ofNat e.1), e.2))
    | 2 =>
        s.readVarint32.bind (fun length =>
          (length.2.readString length.1).map
            (fun e => (.lengthDelimited number e.1, e.2)))
    | 3 =>
        if s.recursionBudget = 0 then none
        else
          (skipMessage
            { s with recursionBudget := s.recursionBudget - 1 }).bind
            (fun e =>
              if e.2.1 = makeTag number WIRETYPE_END_GROUP then
                some (.group number e.1,
                  { e.2.2 with
                    recursionBudget := e.2.2.recursionBudget + 1 })
              else none)
    | 5 =>
        (s.readLittleEndian 4).map
          (fun e => (.fixed32 number (UInt32.ofNat e.1), e.2))
    | _ => none

/--
`SkipMessage`: fields up to the end of the group or of the input, and
`last_tag_`.
-/
def skipMessage : Nat → CodedInputStream →
    Option (List UnknownField × Nat × CodedInputStream)
  | 0, _ => none
  | fuel + 1, s =>
      let (tag, s) := s.readTag
      if tag = 0 ∨ getTagWireType tag = WIRETYPE_END_GROUP then
        some ([], tag, s)
      else
        (skipFieldWith (skipMessage fuel) tag s).bind (fun field =>
          (skipMessage fuel field.2).map
            (fun fields => (field.1 :: fields.1, fields.2)))

/-- `SkipField`; a group ends before the buffer does. -/
def skipField (tag : Nat) (s : CodedInputStream) :
    Option (UnknownField × CodedInputStream) :=
  skipFieldWith (skipMessage (s.bufferSize + 1)) tag s

end Skip

section Sizes

/-- One bit more or less at the end does not change the length of a number. -/
theorem log2_or_one {n : Nat} (hn : n ≠ 0) :
    Nat.log2 (n ||| 1) = Nat.log2 n := by
  have hne : n ||| 1 ≠ 0 := by
    have hle : 1 ≤ n ||| 1 := Nat.right_le_or
    omega
  obtain ⟨hlow, hhigh⟩ := (Nat.log2_eq_iff hn).mp rfl
  refine (Nat.log2_eq_iff hne).mpr ⟨hlow.trans Nat.left_le_or, ?_⟩
  exact Nat.or_lt_two_pow hhigh
    (Nat.one_lt_two_pow (Nat.succ_ne_zero _))

/-- Seven bits less. -/
theorem log2_div_128 {n : Nat} (hn : 128 ≤ n) :
    Nat.log2 (n / 128) + 7 = Nat.log2 n := by
  have hne : n / 128 ≠ 0 := by
    omega
  obtain ⟨hlow, hhigh⟩ := (Nat.log2_eq_iff hne).mp rfl
  refine ((Nat.log2_eq_iff (by omega)).mpr ⟨?_, ?_⟩).symm
  · rw [Nat.pow_add]
    exact (Nat.le_div_iff_mul_le (by omega)).mp hlow
  · rw [Nat.add_right_comm, Nat.pow_add]
    exact (Nat.div_lt_iff_lt_mul (by omega)).mp hhigh

/-- The closed form counts groups of seven bits up to 64 bits. -/
theorem varintSize_div {n : Nat} (hn : 128 ≤ n) (hlt : n < 2 ^ 64) :
    varintSize n = varintSize (n / 128) + 1 := by
  have hlog := log2_div_128 hn
  have hlarge : Nat.log2 n < 64 := (Nat.log2_lt (by omega)).mpr hlt
  rw [varintSize, varintSize, log2_or_one (by omega),
    log2_or_one (by omega)]
  omega

/-- `VarintSize32` and `VarintSize64` say how long a varint is. -/
theorem length_writeVarint
    {fuel n : Nat} (hfuel : n < 128 ^ (fuel + 1)) (hlt : n < 2 ^ 64) :
    (writeVarint (fuel + 1) n).length = varintSize n := by
  induction fuel generalizing n with
  | zero =>
      have hsmall : n < 128 := by
        omega
      rw [writeVarint, if_pos hsmall, varintSize_small hsmall]
      rfl
  | succ fuel ih =>
      rw [writeVarint]
      split_ifs with hsmall
      · rw [varintSize_small hsmall]
        rfl
      · have hrest := ih (n := n / 128)
          (by
            rw [Nat.div_lt_iff_lt_mul (by omega), ← Nat.pow_succ]
            exact hfuel)
          (by omega)
        rw [List.length_cons, hrest, varintSize_div (by omega) hlt]

theorem length_writeVarint32ToArray (value : UInt32) :
    (writeVarint32ToArray value).length = varintSize value.toNat := by
  have hvalue := value.toNat_lt
  exact length_writeVarint (by omega) (by omega)

theorem length_writeVarint64ToArray (value : UInt64) :
    (writeVarint64ToArray value).length = varintSize value.toNat :=
  length_writeVarint
    (Nat.lt_of_lt_of_le value.toNat_lt (by decide)) value.toNat_lt

theorem makeTag_toNat (number type : Nat) :
    (UInt32.ofNat (makeTag number type)).toNat = makeTag number type :=
  UInt32.toNat_ofNat_of_lt' (Nat.mod_lt _ (Nat.two_pow_pos 32))

theorem length_writeTagToArray (number type : Nat) :
    (writeTagToArray number type).length =
      varintSize (makeTag number type) := by
  rw [writeTagToArray, length_writeVarint32ToArray, makeTag_toNat]

mutual

theorem UnknownField.length_toArray (field : UnknownField) :
    field.toArray.length = field.size := by
  cases field with
  | varint number value =>
      rw [UnknownField.toArray, List.length_append, length_writeTagToArray,
        length_writeVarint64ToArray]
      rfl
  | fixed32 number value =>
      rw [UnknownField.toArray, List.length_append, length_writeTagToArray,
        leBytes_length]
      rfl
  | fixed64 number value =>
      rw [UnknownField.toArray, List.length_append, length_writeTagToArray,
        leBytes_length]
      rfl
  | lengthDelimited number value =>
      rw [UnknownField.toArray, writeBytesWithSizeToArray, List.length_append,
        List.length_append, length_writeTagToArray,
        length_writeVarint32ToArray, ← Nat.add_assoc]
      rfl
  | group number fields =>
      rw [UnknownField.toArray, List.length_append, List.length_append,
        length_writeTagToArray, length_writeTagToArray,
        length_serializeUnknownFieldsToArray fields]
      rfl

/-- The size that is computed is the size that is written. -/
theorem length_serializeUnknownFieldsToArray (fields : List UnknownField) :
    (serializeUnknownFieldsToArray fields).length =
      computeUnknownFieldsSize fields := by
  cases fields with
  | nil =>
      rfl
  | cons field fields =>
      rw [serializeUnknownFieldsToArray, List.length_append,
        UnknownField.length_toArray field,
        length_serializeUnknownFieldsToArray fields]
      rfl

end

end Sizes

section Format

/-- A varint, up to 64 bits. -/
def varintOf (bs : List UInt8) : Option (Nat × List UInt8) :=
  (readVarint kMaxVarintBytes bs).map (fun e => (e.1 % 2 ^ 64, e.2))

/-- A little-endian number of `k` bytes. -/
def fixedOf (k : Nat) (bs : List UInt8) : Option (Nat × List UInt8) :=
  if k ≤ bs.length then some (leValue (bs.take k), bs.drop k) else none

/-- So many bytes, which are there. -/
def bytesOf (length : Nat) (bs : List UInt8) :
    Option (List UInt8 × List UInt8) :=
  if length ≤ INT_MAX ∧ length ≤ bs.length then
    some (bs.take length, bs.drop length)
  else none

/-- The field that a tag announces, given how groups are read. -/
def fieldWith
    (groupOf : Nat → List UInt8 →
      Option (List UnknownField × Nat × List UInt8))
    (depth tag : Nat) (bs : List UInt8) :
    Option (UnknownField × List UInt8) :=
  let number := getTagFieldNumber tag
  if number = 0 then none
  else
    match getTagWireType tag with
    | 0 =>
        (varintOf bs).map (fun e => (.varint number (UInt64.ofNat e.1), e.2))
    | 1 =>
        (fixedOf 8 bs).map
          (fun e => (.fixed64 number (UInt64.ofNat e.1), e.2))
    | 2 =>
        (varintOf bs).bind (fun length =>
          (bytesOf (length.1 % 2 ^ 32) length.2).map
            (fun e => (.lengthDelimited number e.1, e.2)))
    | 3 =>
        if depth = 0 then none
        else
          (groupOf (depth - 1) bs).bind (fun e =>
            if e.2.1 = makeTag number WIRETYPE_END_GROUP then
              some (.group number e.1, e.2.2)
            else none)
    | 5 =>
        (fixedOf 4 bs).map
          (fun e => (.fixed32 number (UInt32.ofNat e.1), e.2))
    | _ => none

/-- The fields of a group, the tag that ends it and what is left. -/
def groupOf : Nat → Nat → List UInt8 →
    Option (List UnknownField × Nat × List UInt8)
  | 0, _, _ => none
  | fuel + 1, depth, bs =>
      let (tag, rest) := CodedInputStream.tagOf bs
      if tag = 0 then none
      else if getTagWireType tag = WIRETYPE_END_GROUP then
        some ([], tag, rest)
      else
        (fieldWith (groupOf fuel) depth tag rest).bind (fun field =>
          (groupOf fuel depth field.2).map
            (fun fields => (field.1 :: fields.1, fields.2)))

/-- The field that a tag announces. -/
def fieldOf (depth tag : Nat) (bs : List UInt8) :
    Option (UnknownField × List UInt8) :=
  fieldWith (groupOf (bs.length + 1)) depth tag bs

theorem getTagFieldNumber_eq (tag : Nat) : getTagFieldNumber tag = tag / 8 := by
  rw [getTagFieldNumber, Nat.shiftRight_eq_div_pow]

theorem getTagWireType_eq (tag : Nat) : getTagWireType tag = tag % 8 :=
  Nat.and_two_pow_sub_one_eq_mod tag 3

theorem makeTag_eq (number : Nat) {type : Nat} (htype : type < 2 ^ 3) :
    makeTag number type = (8 * number + type) % 2 ^ 32 := by
  rw [makeTag, ← Nat.shiftLeft_add_eq_or_of_lt htype, Nat.shiftLeft_eq,
    Nat.mul_comm]

/-- The end of a group has a tag of its own. -/
theorem makeTag_end_ne_zero (number : Nat) :
    makeTag number WIRETYPE_END_GROUP ≠ 0 := by
  rw [makeTag_eq number (show WIRETYPE_END_GROUP < 2 ^ 3 by decide),
    WIRETYPE_END_GROUP]
  omega

end Format

section Stream

variable (s : CodedInputStream)

theorem readVarint64_varintOf :
    s.readVarint64 =
      (varintOf s.buffer).map
        (fun e => (UInt64.ofNat e.1, { s with buffer := e.2 })) := by
  have hwrap (n : Nat) : UInt64.ofNat (n % 2 ^ 64) = UInt64.ofNat n := by
    apply UInt64.toNat_inj.mp
    simp
  rw [s.readVarint64_eq, varintOf, Option.map_map]
  simp only [Function.comp_def, hwrap]

theorem readVarint32_varintOf :
    s.readVarint32 =
      (varintOf s.buffer).map
        (fun e => (UInt32.ofNat e.1, { s with buffer := e.2 })) := by
  have hwrap (n : Nat) : UInt32.ofNat (n % 2 ^ 64) = UInt32.ofNat n := by
    apply UInt32.toNat_inj.mp
    simp
  rw [s.readVarint32_eq, varintOf, Option.map_map]
  simp only [Function.comp_def, hwrap]

theorem readLittleEndian_fixedOf (k : Nat) :
    s.readLittleEndian k =
      (fixedOf k s.buffer).map (fun e => (e.1, { s with buffer := e.2 })) := by
  rw [CodedInputStream.readLittleEndian, fixedOf,
    CodedInputStream.bufferSize, CodedInputStream.advance]
  split_ifs <;> rfl

theorem readString_bytesOf (length : UInt32) :
    s.readString length =
      (bytesOf length.toNat s.buffer).map
        (fun e => (e.1, { s with buffer := e.2 })) := by
  rw [CodedInputStream.readString, bytesOf, CodedInputStream.bufferSize,
    CodedInputStream.advance]
  by_cases hint : INT_MAX < length.toNat
  · rw [if_pos hint, if_neg (by omega)]
    rfl
  · rw [if_neg hint]
    by_cases hthere : length.toNat ≤ s.buffer.length
    · rw [if_pos hthere, if_pos ⟨by omega, hthere⟩]
      rfl
    · rw [if_neg hthere, if_neg (by omega)]
      rfl

/-- `SkipMessage` reads a group, or ends where none can be. -/
structure SkipsGroups (fuel : Nat) : Prop where
  read : ∀ (s : CodedInputStream) fields tag rest,
    groupOf fuel s.recursionBudget s.buffer = some (fields, tag, rest) →
      skipMessage fuel s =
        some (fields, tag, { s with buffer := rest })
  ended : ∀ (s : CodedInputStream),
    groupOf fuel s.recursionBudget s.buffer = none →
      ∀ e, skipMessage fuel s = some e → e.2.1 = 0

/-- `SkipField` follows the format if `SkipMessage` does. -/
theorem SkipsGroups.skipFieldWith_eq
    {fuel : Nat} (h : SkipsGroups fuel) (tag : Nat) :
    skipFieldWith (skipMessage fuel) tag s =
      (fieldWith (groupOf fuel) s.recursionBudget tag s.buffer).map
        (fun e => (e.1, { s with buffer := e.2 })) := by
  rw [skipFieldWith, fieldWith]
  by_cases hnumber : getTagFieldNumber tag = 0
  · simp [hnumber]
  dsimp only
  rw [if_neg hnumber, if_neg hnumber]
  generalize getTagWireType tag = type
  rcases type with _ | _ | _ | _ | _ | _ | type
  · -- a varint
    simp only [readVarint64_varintOf, Option.map_map]
    rfl
  · -- eight bytes
    simp only [readLittleEndian_fixedOf, Option.map_map]
    rfl
  · -- a length and so many bytes
    simp only [readVarint32_varintOf]
    cases varintOf s.buffer with
    | none =>
        rfl
    | some length =>
        simp only [Option.map_some, Option.bind_some, readString_bytesOf,
          UInt32.toNat_ofNat', Option.map_map]
        rfl
  · -- a group
    by_cases hbudget : s.recursionBudget = 0
    · simp [hbudget]
    simp only [if_neg hbudget]
    cases hgroup : groupOf fuel (s.recursionBudget - 1) s.buffer with
    | none =>
        rw [Option.bind_none, Option.map_none, Option.bind_eq_none_iff]
        intro e he
        have hlast := h.ended
          { s with recursionBudget := s.recursionBudget - 1 } hgroup e he
        rw [hlast, if_neg (makeTag_end_ne_zero _).symm]
    | some group =>
        obtain ⟨fields, last, rest⟩ := group
        have hskip := h.read
          { s with recursionBudget := s.recursionBudget - 1 }
          fields last rest hgroup
        have hback : s.recursionBudget - 1 + 1 = s.recursionBudget := by
          omega
        rw [hskip, Option.bind_some, Option.bind_some]
        dsimp only
        split_ifs with hlast
        · rw [hback]
          rfl
        · rfl
  · rfl
  · -- four bytes
    simp only [readLittleEndian_fixedOf, Option.map_map]
    rfl
  · rfl

/-- `SkipMessage` follows the format at every depth. -/
theorem skipsGroups (fuel : Nat) : SkipsGroups fuel := by
  induction fuel with
  | zero =>
      refine ⟨?_, ?_⟩
      · intro s fields tag rest h
        cases h
      · intro s _ e he
        cases he
  | succ fuel ih =>
      have hnext (s : CodedInputStream) : s.nextTag.1 = 0 ∨
          s.nextTag =
            ((CodedInputStream.tagOf s.buffer).1,
              { s with buffer := (CodedInputStream.tagOf s.buffer).2 }) := by
        rw [CodedInputStream.nextTag]
        split_ifs
        · exact Or.inl rfl
        · exact Or.inr rfl
      have htag (s : CodedInputStream) :
          s.nextTag.1 = (CodedInputStream.tagOf s.buffer).1 := by
        rw [CodedInputStream.nextTag]
        split_ifs with hnil
        · rw [hnil]
          rfl
        · rfl
      refine ⟨?_, ?_⟩
      · intro s fields tag rest h
        rw [groupOf] at h
        rw [skipMessage, s.readTag_eq]
        dsimp only at h ⊢
        split_ifs at h with hzero hend
        · rcases hnext s with hnone | hread
          · exact absurd (htag s ▸ hnone) hzero
          · cases h
            rw [hread]
            simp [hend]
        · rcases hnext s with hnone | hread
          · exact absurd (htag s ▸ hnone) hzero
          · obtain ⟨field, hfield, hfields⟩ := Option.bind_eq_some_iff.mp h
            obtain ⟨⟨fields', last, rest'⟩, hgroup, hresult⟩ :=
              Option.map_eq_some_iff.mp hfields
            rw [hread, if_neg (not_or.mpr ⟨hzero, hend⟩)]
            rw [ih.skipFieldWith_eq, hfield, Option.map_some,
              Option.bind_some]
            cases hresult
            rw [ih.read _ _ _ _ hgroup]
            rfl
      · intro s h e he
        rw [groupOf] at h
        rw [skipMessage, s.readTag_eq] at he
        dsimp only at h he
        split_ifs at h with hzero hend
        · rw [htag, if_pos (Or.inl hzero)] at he
          cases he
          exact hzero
        · rcases hnext s with hnone | hread
          · exact absurd (htag s ▸ hnone) hzero
          · rw [hread, if_neg (not_or.mpr ⟨hzero, hend⟩),
              ih.skipFieldWith_eq] at he
            obtain ⟨field, hfield, hfields⟩ := Option.bind_eq_some_iff.mp he
            obtain ⟨read, hread', rfl⟩ := Option.map_eq_some_iff.mp hfield
            obtain ⟨group, hgroup, rfl⟩ := Option.map_eq_some_iff.mp hfields
            have hnone := Option.bind_eq_none_iff.mp h _ hread'
            exact ih.ended _ (Option.map_eq_none_iff.mp hnone) group hgroup

theorem skipField_eq (tag : Nat) :
    skipField tag s =
      (fieldOf s.recursionBudget tag s.buffer).map
        (fun e => (e.1, { s with buffer := e.2 })) :=
  (skipsGroups _).skipFieldWith_eq s tag

end Stream

section RoundTrip

/-- Field numbers that a tag can carry. -/
def Numbered (number : Nat) : Prop :=
  0 < number ∧ number < 2 ^ 29

instance (number : Nat) : Decidable (Numbered number) :=
  inferInstanceAs (Decidable (0 < number ∧ number < 2 ^ 29))

/-- Fields that the format can carry, with groups down to some depth. -/
inductive UnknownField.Valid : Nat → UnknownField → Prop
  | varint {depth number value} (h : Numbered number) :
      Valid depth (.varint number value)
  | fixed32 {depth number value} (h : Numbered number) :
      Valid depth (.fixed32 number value)
  | fixed64 {depth number value} (h : Numbered number) :
      Valid depth (.fixed64 number value)
  | lengthDelimited {depth number value} (h : Numbered number)
      (hlength : value.length ≤ INT_MAX) :
      Valid depth (.lengthDelimited number value)
  | group {depth number fields} (h : Numbered number)
      (hfields : ∀ field ∈ fields, Valid depth field) :
      Valid (depth + 1) (.group number fields)

/-- The tag that a field is written with. -/
def UnknownField.tag : UnknownField → Nat
  | .varint number _ => makeTag number WIRETYPE_VARINT
  | .fixed32 number _ => makeTag number WIRETYPE_FIXED32
  | .fixed64 number _ => makeTag number WIRETYPE_FIXED64
  | .lengthDelimited number _ => makeTag number WIRETYPE_LENGTH_DELIMITED
  | .group number _ => makeTag number WIRETYPE_START_GROUP

/-- What is written behind the tag. -/
def UnknownField.payload : UnknownField → List UInt8
  | .varint _ value => writeVarint64ToArray value
  | .fixed32 _ value => leBytes 4 value.toNat
  | .fixed64 _ value => leBytes 8 value.toNat
  | .lengthDelimited _ value => writeBytesWithSizeToArray value
  | .group number fields =>
      serializeUnknownFieldsToArray fields ++
        writeTagToArray number WIRETYPE_END_GROUP

theorem UnknownField.toArray_eq (field : UnknownField) :
    field.toArray =
      writeVarint32ToArray (UInt32.ofNat field.tag) ++ field.payload := by
  cases field with
  | group number fields =>
      rw [UnknownField.toArray, List.append_assoc]
      rfl
  | varint number value | fixed32 number value | fixed64 number value
  | lengthDelimited number value =>
      rfl

theorem Numbered.makeTag
    {number : Nat} (h : Numbered number) {type : Nat} (htype : type < 8) :
    makeTag number type = 8 * number + type := by
  rw [makeTag_eq number (show type < 2 ^ 3 from htype)]
  exact Nat.mod_eq_of_lt (by have := h.2; omega)

theorem Numbered.fields
    {number : Nat} (h : Numbered number) {type : Nat} (htype : type < 8) :
    getTagFieldNumber (Wire.makeTag number type) = number ∧
      getTagWireType (Wire.makeTag number type) = type ∧
      Wire.makeTag number type ≠ 0 := by
  have hpos := h.1
  rw [getTagFieldNumber_eq, getTagWireType_eq, h.makeTag htype]
  omega

/-- A tag that is written is read. -/
theorem tagOf_write {tag : Nat} (htag : tag < 2 ^ 32) (rest : List UInt8) :
    CodedInputStream.tagOf
        (writeVarint32ToArray (UInt32.ofNat tag) ++ rest) = (tag, rest) := by
  have hnat : (UInt32.ofNat tag).toNat = tag :=
    UInt32.toNat_ofNat_of_lt' htag
  have hread : readVarint 10 (writeVarint 5 tag ++ rest) =
      some (tag, rest) := by
    have hfive : readVarint 5 (writeVarint 5 tag ++ rest) =
        some (tag, rest) :=
      readVarint_writeVarint (by omega) rest
    exact readVarint_fuel hfive (by omega)
  rw [CodedInputStream.tagOf, writeVarint32ToArray, hnat, kMaxVarintBytes,
    kMaxVarint32Bytes, hread]
  dsimp only
  rw [Nat.mod_eq_of_lt htag]

theorem varintOf_write64 (value : UInt64) (rest : List UInt8) :
    varintOf (writeVarint64ToArray value ++ rest) =
      some (value.toNat, rest) := by
  have hvalue := value.toNat_lt
  have hread : readVarint 10 (writeVarint 10 value.toNat ++ rest) =
      some (value.toNat, rest) :=
    readVarint_writeVarint (by omega) rest
  rw [varintOf, writeVarint64ToArray, kMaxVarintBytes, hread, Option.map_some]
  dsimp only
  rw [Nat.mod_eq_of_lt hvalue]

theorem varintOf_write32 (value : UInt32) (rest : List UInt8) :
    varintOf (writeVarint32ToArray value ++ rest) =
      some (value.toNat, rest) := by
  have hvalue := value.toNat_lt
  have hfive : readVarint 5 (writeVarint 5 value.toNat ++ rest) =
      some (value.toNat, rest) :=
    readVarint_writeVarint (by omega) rest
  have hread := readVarint_fuel hfive (show 5 ≤ 10 by omega)
  rw [varintOf, writeVarint32ToArray, kMaxVarintBytes, kMaxVarint32Bytes,
    hread, Option.map_some]
  dsimp only
  rw [Nat.mod_eq_of_lt (by omega)]

theorem fixedOf_leBytes {k n : Nat} (hn : n < 256 ^ k) (rest : List UInt8) :
    fixedOf k (leBytes k n ++ rest) = some (n, rest) := by
  have hlength := leBytes_length k n
  have htake : (leBytes k n ++ rest).take k = leBytes k n := by
    rw [List.take_append_of_le_length (Nat.le_of_eq hlength.symm),
      List.take_of_length_le (Nat.le_of_eq hlength)]
  have hdrop : (leBytes k n ++ rest).drop k = rest := by
    rw [List.drop_append_of_le_length (Nat.le_of_eq hlength.symm),
      List.drop_of_length_le (Nat.le_of_eq hlength), List.nil_append]
  rw [fixedOf, if_pos (by rw [List.length_append, hlength]; omega), htake,
    hdrop, leValue_leBytes, Nat.mod_eq_of_lt hn]

theorem bytesOf_append
    {value : List UInt8} (h : value.length ≤ INT_MAX) (rest : List UInt8) :
    bytesOf value.length (value ++ rest) = some (value, rest) := by
  rw [bytesOf, if_pos ⟨h, by rw [List.length_append]; omega⟩,
    List.take_left, List.drop_left]

theorem length_writeTagToArray_pos (number type : Nat) :
    0 < (writeTagToArray number type).length := by
  rw [length_writeTagToArray]
  exact varintSize_pos _

/-- The fields of a group are read if each of them is. -/
theorem groupOf_write
    {depth number : Nat} (hnumber : Numbered number)
    {fields : List UnknownField}
    (hfields : ∀ field ∈ fields, field.tag < 2 ^ 32 ∧ field.tag ≠ 0 ∧
      getTagWireType field.tag ≠ WIRETYPE_END_GROUP ∧
      ∀ fuel rest, field.payload.length ≤ fuel →
        fieldWith (groupOf fuel) depth field.tag (field.payload ++ rest) =
          some (field, rest))
    {fuel : Nat}
    (hfuel : (serializeUnknownFieldsToArray fields).length < fuel)
    (rest : List UInt8) :
    groupOf fuel depth
        (serializeUnknownFieldsToArray fields ++
          (writeTagToArray number WIRETYPE_END_GROUP ++ rest)) =
      some (fields, makeTag number WIRETYPE_END_GROUP, rest) := by
  obtain ⟨-, hend, hzero⟩ :=
    hnumber.fields (show WIRETYPE_END_GROUP < 8 by decide)
  have hlt : makeTag number WIRETYPE_END_GROUP < 2 ^ 32 :=
    Nat.mod_lt _ (Nat.two_pow_pos 32)
  induction fields generalizing fuel with
  | nil =>
      obtain ⟨fuel, rfl⟩ : ∃ k, fuel = k + 1 :=
        Nat.exists_eq_add_one.mpr (by omega)
      rw [serializeUnknownFieldsToArray, List.nil_append, groupOf,
        writeTagToArray, tagOf_write hlt]
      dsimp only
      rw [if_neg hzero, if_pos hend]
  | cons field fields ih =>
      obtain ⟨fuel, rfl⟩ : ∃ k, fuel = k + 1 :=
        Nat.exists_eq_add_one.mpr (by omega)
      obtain ⟨⟨htag, htagZero, htagEnd, hread⟩, hrest⟩ :=
        List.forall_mem_cons.mp hfields
      rw [serializeUnknownFieldsToArray, field.toArray_eq] at hfuel ⊢
      rw [List.length_append, List.length_append,
        length_writeVarint32ToArray] at hfuel
      have hpos := varintSize_pos (UInt32.ofNat field.tag).toNat
      rw [List.append_assoc, List.append_assoc, groupOf, tagOf_write htag]
      dsimp only
      rw [if_neg htagZero, if_neg htagEnd, hread fuel _ (by omega),
        Option.bind_some]
      dsimp only
      rw [ih hrest (by omega), Option.map_some]

/-- The tag of a field announces it. -/
theorem UnknownField.Valid.tag
    {depth : Nat} {field : UnknownField} (h : field.Valid depth) :
    field.tag < 2 ^ 32 ∧ field.tag ≠ 0 ∧
      getTagWireType field.tag ≠ WIRETYPE_END_GROUP := by
  have hlt (number type : Nat) : makeTag number type < 2 ^ 32 :=
    Nat.mod_lt _ (Nat.two_pow_pos 32)
  cases h with
  | varint hnumber =>
      obtain ⟨-, htype, hzero⟩ :=
        hnumber.fields (show WIRETYPE_VARINT < 8 by decide)
      exact ⟨hlt _ _, hzero, by rw [UnknownField.tag, htype]; decide⟩
  | fixed32 hnumber =>
      obtain ⟨-, htype, hzero⟩ :=
        hnumber.fields (show WIRETYPE_FIXED32 < 8 by decide)
      exact ⟨hlt _ _, hzero, by rw [UnknownField.tag, htype]; decide⟩
  | fixed64 hnumber =>
      obtain ⟨-, htype, hzero⟩ :=
        hnumber.fields (show WIRETYPE_FIXED64 < 8 by decide)
      exact ⟨hlt _ _, hzero, by rw [UnknownField.tag, htype]; decide⟩
  | lengthDelimited hnumber hlength =>
      obtain ⟨-, htype, hzero⟩ :=
        hnumber.fields (show WIRETYPE_LENGTH_DELIMITED < 8 by decide)
      exact ⟨hlt _ _, hzero, by rw [UnknownField.tag, htype]; decide⟩
  | group hnumber hfields =>
      obtain ⟨-, htype, hzero⟩ :=
        hnumber.fields (show WIRETYPE_START_GROUP < 8 by decide)
      exact ⟨hlt _ _, hzero, by rw [UnknownField.tag, htype]; decide⟩

/-- What is written behind a tag is read back. -/
theorem UnknownField.Valid.read
    {depth : Nat} {field : UnknownField} (h : field.Valid depth)
    {fuel : Nat} (hfuel : field.payload.length ≤ fuel)
    (rest : List UInt8) :
    fieldWith (groupOf fuel) depth field.tag (field.payload ++ rest) =
      some (field, rest) := by
  induction h generalizing fuel rest with
  | @varint depth number value hnumber =>
      obtain ⟨hnum, htype, -⟩ :=
        hnumber.fields (show WIRETYPE_VARINT < 8 by decide)
      rw [fieldWith, UnknownField.tag, hnum, htype, if_neg hnumber.1.ne']
      simp [UnknownField.payload, WIRETYPE_VARINT, varintOf_write64]
  | @fixed32 depth number value hnumber =>
      obtain ⟨hnum, htype, -⟩ :=
        hnumber.fields (show WIRETYPE_FIXED32 < 8 by decide)
      have hread := fixedOf_leBytes (k := 4) value.toNat_lt rest
      rw [fieldWith, UnknownField.tag, hnum, htype, if_neg hnumber.1.ne']
      simp [UnknownField.payload, WIRETYPE_FIXED32, hread]
  | @fixed64 depth number value hnumber =>
      obtain ⟨hnum, htype, -⟩ :=
        hnumber.fields (show WIRETYPE_FIXED64 < 8 by decide)
      have hread := fixedOf_leBytes (k := 8) value.toNat_lt rest
      rw [fieldWith, UnknownField.tag, hnum, htype, if_neg hnumber.1.ne']
      simp [UnknownField.payload, WIRETYPE_FIXED64, hread]
  | @lengthDelimited depth number value hnumber hlength =>
      obtain ⟨hnum, htype, -⟩ :=
        hnumber.fields (show WIRETYPE_LENGTH_DELIMITED < 8 by decide)
      have hnat : (UInt32.ofNat value.length).toNat = value.length :=
        UInt32.toNat_ofNat_of_lt' (Nat.lt_of_le_of_lt hlength (by decide))
      have hmod : value.length % 2 ^ 32 = value.length :=
        Nat.mod_eq_of_lt (Nat.lt_of_le_of_lt hlength (by decide))
      rw [fieldWith, UnknownField.tag, hnum, htype, if_neg hnumber.1.ne']
      simp only [UnknownField.payload, WIRETYPE_LENGTH_DELIMITED,
        writeBytesWithSizeToArray, List.append_assoc, varintOf_write32,
        Option.bind_some, hnat, hmod, bytesOf_append hlength,
        Option.map_some]
  | @group depth number fields hnumber hfields ih =>
      obtain ⟨hnum, htype, -⟩ :=
        hnumber.fields (show WIRETYPE_START_GROUP < 8 by decide)
      have hend := length_writeTagToArray_pos number WIRETYPE_END_GROUP
      rw [UnknownField.payload, List.length_append] at hfuel
      have hread : ∀ field ∈ fields, field.tag < 2 ^ 32 ∧ field.tag ≠ 0 ∧
          getTagWireType field.tag ≠ WIRETYPE_END_GROUP ∧
          ∀ fuel rest, field.payload.length ≤ fuel →
            fieldWith (groupOf fuel) depth field.tag (field.payload ++ rest) =
              some (field, rest) := by
        intro field hfield
        obtain ⟨hlt, hzero, htype⟩ := (hfields field hfield).tag
        exact ⟨hlt, hzero, htype,
          fun fuel rest hle => ih field hfield hle rest⟩
      have hgroup := groupOf_write hnumber hread
        (show (serializeUnknownFieldsToArray fields).length < fuel by omega)
        rest
      rw [fieldWith, UnknownField.tag, hnum, htype, if_neg hnumber.1.ne',
        UnknownField.payload, List.append_assoc]
      simp only [WIRETYPE_START_GROUP, Nat.add_sub_cancel, hgroup]
      simp

end RoundTrip

section Reading

theorem varintOf_some
    {bs rest : List UInt8} {n : Nat} (h : varintOf bs = some (n, rest)) :
    rest.length < bs.length ∧
      ∀ more, varintOf (bs ++ more) = some (n, rest ++ more) := by
  obtain ⟨⟨m, rest'⟩, hread, heq⟩ := Option.map_eq_some_iff.mp h
  cases heq
  constructor
  · exact readVarint_shorter hread
  · intro more
    rw [varintOf, readVarint_append hread more]
    rfl

theorem fixedOf_some
    {k n : Nat} {bs rest : List UInt8} (h : fixedOf k bs = some (n, rest)) :
    rest.length ≤ bs.length ∧
      ∀ more, fixedOf k (bs ++ more) = some (n, rest ++ more) := by
  rw [fixedOf] at h
  split_ifs at h with hk
  cases h
  refine ⟨by simp, fun more => ?_⟩
  rw [fixedOf, if_pos (by rw [List.length_append]; omega),
    List.take_append_of_le_length hk, List.drop_append_of_le_length hk]

theorem bytesOf_some
    {length : Nat} {bs value rest : List UInt8}
    (h : bytesOf length bs = some (value, rest)) :
    value.length ≤ INT_MAX ∧ rest.length ≤ bs.length ∧
      ∀ more, bytesOf length (bs ++ more) = some (value, rest ++ more) := by
  rw [bytesOf] at h
  split_ifs at h with hlength
  cases h
  refine ⟨by rw [List.length_take]; omega, by simp, fun more => ?_⟩
  rw [bytesOf, if_pos ⟨hlength.1, by rw [List.length_append]; omega⟩,
    List.take_append_of_le_length hlength.2,
    List.drop_append_of_le_length hlength.2]

theorem tagOf_some
    {bs : List UInt8} (h : (CodedInputStream.tagOf bs).1 ≠ 0) :
    (CodedInputStream.tagOf bs).2.length < bs.length ∧
      ∀ more, CodedInputStream.tagOf (bs ++ more) =
        ((CodedInputStream.tagOf bs).1,
          (CodedInputStream.tagOf bs).2 ++ more) := by
  rw [CodedInputStream.tagOf] at h ⊢
  cases hread : readVarint kMaxVarintBytes bs with
  | none =>
      rw [hread] at h
      exact absurd rfl h
  | some next =>
      obtain ⟨n, rest⟩ := next
      constructor
      · exact readVarint_shorter hread
      · intro more
        rw [CodedInputStream.tagOf, readVarint_append hread more]

/--
What reading groups comes to: the fields can be written, something is left, and
neither more fuel nor a continuation changes what is read.
-/
structure ReadsGroups (fuel : Nat) : Prop where
  valid : ∀ depth bs fields tag rest,
    groupOf fuel depth bs = some (fields, tag, rest) →
      ∀ field ∈ fields, field.Valid depth
  shorter : ∀ depth bs fields tag rest,
    groupOf fuel depth bs = some (fields, tag, rest) →
      rest.length < bs.length
  continued : ∀ depth bs fields tag rest,
    groupOf fuel depth bs = some (fields, tag, rest) →
      ∀ fuel' more, fuel ≤ fuel' →
        groupOf fuel' depth (bs ++ more) = some (fields, tag, rest ++ more)

/-- The same for a field. -/
structure ReadsField (fuel : Nat) : Prop where
  valid : ∀ depth tag bs field rest, tag < 2 ^ 32 →
    fieldWith (groupOf fuel) depth tag bs = some (field, rest) →
      field.Valid depth ∧ field.tag = tag
  shorter : ∀ depth tag bs field rest,
    fieldWith (groupOf fuel) depth tag bs = some (field, rest) →
      rest.length ≤ bs.length
  continued : ∀ depth tag bs field rest,
    fieldWith (groupOf fuel) depth tag bs = some (field, rest) →
      ∀ fuel' more, fuel ≤ fuel' →
        fieldWith (groupOf fuel') depth tag (bs ++ more) =
          some (field, rest ++ more)

theorem numbered_of_tag
    {tag : Nat} (hlt : tag < 2 ^ 32) (h : getTagFieldNumber tag ≠ 0) :
    Numbered (getTagFieldNumber tag) ∧
      makeTag (getTagFieldNumber tag) (getTagWireType tag) = tag := by
  have hnumber : Numbered (getTagFieldNumber tag) := by
    rw [getTagFieldNumber_eq] at h ⊢
    exact ⟨by omega, by omega⟩
  refine ⟨hnumber, ?_⟩
  have htype : getTagWireType tag < 8 := by
    rw [getTagWireType_eq]
    omega
  rw [hnumber.makeTag htype, getTagFieldNumber_eq, getTagWireType_eq]
  omega

/-- Cases of reading a field, by its wire type. -/
theorem fieldWith_some
    {fuel depth tag : Nat} {bs rest : List UInt8} {field : UnknownField}
    (h : fieldWith (groupOf fuel) depth tag bs = some (field, rest)) :
    getTagFieldNumber tag ≠ 0 ∧
      ((getTagWireType tag = WIRETYPE_VARINT ∧ ∃ n,
          varintOf bs = some (n, rest) ∧
            field = .varint (getTagFieldNumber tag) (UInt64.ofNat n)) ∨
        (getTagWireType tag = WIRETYPE_FIXED64 ∧ ∃ n,
          fixedOf 8 bs = some (n, rest) ∧
            field = .fixed64 (getTagFieldNumber tag) (UInt64.ofNat n)) ∨
        (getTagWireType tag = WIRETYPE_LENGTH_DELIMITED ∧ ∃ n bs' value,
          varintOf bs = some (n, bs') ∧
            bytesOf (n % 2 ^ 32) bs' = some (value, rest) ∧
            field = .lengthDelimited (getTagFieldNumber tag) value) ∨
        (getTagWireType tag = WIRETYPE_START_GROUP ∧ depth ≠ 0 ∧ ∃ fields,
          groupOf fuel (depth - 1) bs =
              some (fields,
                makeTag (getTagFieldNumber tag) WIRETYPE_END_GROUP, rest) ∧
            field = .group (getTagFieldNumber tag) fields) ∨
        (getTagWireType tag = WIRETYPE_FIXED32 ∧ ∃ n,
          fixedOf 4 bs = some (n, rest) ∧
            field = .fixed32 (getTagFieldNumber tag) (UInt32.ofNat n))) := by
  rw [fieldWith] at h
  by_cases hnumber : getTagFieldNumber tag = 0
  · simp [hnumber] at h
  refine ⟨hnumber, ?_⟩
  rw [if_neg hnumber] at h
  generalize getTagWireType tag = type at h ⊢
  rcases type with _ | _ | _ | _ | _ | _ | type
  · obtain ⟨⟨n, rest'⟩, hread, heq⟩ := Option.map_eq_some_iff.mp h
    cases heq
    exact Or.inl ⟨rfl, n, hread, rfl⟩
  · obtain ⟨⟨n, rest'⟩, hread, heq⟩ := Option.map_eq_some_iff.mp h
    cases heq
    exact Or.inr (Or.inl ⟨rfl, n, hread, rfl⟩)
  · obtain ⟨⟨n, bs'⟩, hlength, hbytes⟩ := Option.bind_eq_some_iff.mp h
    obtain ⟨⟨value, rest'⟩, hread, heq⟩ := Option.map_eq_some_iff.mp hbytes
    cases heq
    exact Or.inr (Or.inr (Or.inl ⟨rfl, n, bs', value, hlength, hread, rfl⟩))
  · by_cases hdepth : depth = 0
    · simp [hdepth] at h
    simp only [if_neg hdepth] at h
    obtain ⟨⟨fields, last, rest'⟩, hgroup, hend⟩ :=
      Option.bind_eq_some_iff.mp h
    dsimp only at hend
    split_ifs at hend with hlast
    cases hend
    rw [hlast] at hgroup
    exact Or.inr (Or.inr (Or.inr (Or.inl
      ⟨rfl, hdepth, fields, hgroup, rfl⟩)))
  · cases h
  · obtain ⟨⟨n, rest'⟩, hread, heq⟩ := Option.map_eq_some_iff.mp h
    cases heq
    exact Or.inr (Or.inr (Or.inr (Or.inr ⟨rfl, n, hread, rfl⟩)))
  · cases h

theorem ReadsGroups.field {fuel : Nat} (h : ReadsGroups fuel) :
    ReadsField fuel := by
  refine ⟨?_, ?_, ?_⟩
  · intro depth tag bs field rest hlt hread
    obtain ⟨hnumber, hcases⟩ := fieldWith_some hread
    obtain ⟨hvalid, htag⟩ := numbered_of_tag hlt hnumber
    rcases hcases with ⟨htype, n, -, rfl⟩ | ⟨htype, n, -, rfl⟩ |
      ⟨htype, n, bs', value, -, hbytes, rfl⟩ |
      ⟨htype, hdepth, fields, hgroup, rfl⟩ | ⟨htype, n, -, rfl⟩
    · exact ⟨.varint hvalid, by rw [htype] at htag; exact htag⟩
    · exact ⟨.fixed64 hvalid, by rw [htype] at htag; exact htag⟩
    · exact ⟨.lengthDelimited hvalid (bytesOf_some hbytes).1,
        by rw [htype] at htag; exact htag⟩
    · obtain ⟨depth, rfl⟩ := Nat.exists_eq_succ_of_ne_zero hdepth
      exact ⟨.group hvalid (h.valid _ _ _ _ _ hgroup),
        by rw [htype] at htag; exact htag⟩
    · exact ⟨.fixed32 hvalid, by rw [htype] at htag; exact htag⟩
  · intro depth tag bs field rest hread
    obtain ⟨-, hcases⟩ := fieldWith_some hread
    rcases hcases with ⟨-, n, hn, -⟩ | ⟨-, n, hn, -⟩ |
      ⟨-, n, bs', value, hn, hbytes, -⟩ | ⟨-, -, fields, hgroup, -⟩ |
      ⟨-, n, hn, -⟩
    · exact Nat.le_of_lt (varintOf_some hn).1
    · exact (fixedOf_some hn).1
    · have hlength := (varintOf_some hn).1
      have hvalue := (bytesOf_some hbytes).2.1
      omega
    · exact Nat.le_of_lt (h.shorter _ _ _ _ _ hgroup)
    · exact (fixedOf_some hn).1
  · intro depth tag bs field rest hread fuel' more hfuel
    obtain ⟨hnumber, hcases⟩ := fieldWith_some hread
    rw [fieldWith, if_neg hnumber]
    rcases hcases with ⟨htype, n, hn, rfl⟩ | ⟨htype, n, hn, rfl⟩ |
      ⟨htype, n, bs', value, hn, hbytes, rfl⟩ |
      ⟨htype, hdepth, fields, hgroup, rfl⟩ | ⟨htype, n, hn, rfl⟩
    · simp only [htype, WIRETYPE_VARINT, (varintOf_some hn).2 more,
        Option.map_some]
    · simp only [htype, WIRETYPE_FIXED64, (fixedOf_some hn).2 more,
        Option.map_some]
    · simp only [htype, WIRETYPE_LENGTH_DELIMITED,
        (varintOf_some hn).2 more, Option.bind_some,
        (bytesOf_some hbytes).2.2 more, Option.map_some]
    · simp only [htype, WIRETYPE_START_GROUP, if_neg hdepth,
        h.continued _ _ _ _ _ hgroup fuel' more hfuel, Option.bind_some,
        if_true]
    · simp only [htype, WIRETYPE_FIXED32, (fixedOf_some hn).2 more,
        Option.map_some]

/-- Cases of reading a group: its end, or a field and the rest. -/
theorem groupOf_some
    {fuel depth tag : Nat} {bs rest : List UInt8} {fields : List UnknownField}
    (h : groupOf (fuel + 1) depth bs = some (fields, tag, rest)) :
    (CodedInputStream.tagOf bs).1 ≠ 0 ∧
      ((getTagWireType (CodedInputStream.tagOf bs).1 = WIRETYPE_END_GROUP ∧
          fields = [] ∧ (tag, rest) = CodedInputStream.tagOf bs) ∨
        (getTagWireType (CodedInputStream.tagOf bs).1 ≠
            WIRETYPE_END_GROUP ∧
          ∃ field bs' fields', fields = field :: fields' ∧
            fieldWith (groupOf fuel) depth (CodedInputStream.tagOf bs).1
                (CodedInputStream.tagOf bs).2 = some (field, bs') ∧
              groupOf fuel depth bs' = some (fields', tag, rest))) := by
  rw [groupOf] at h
  dsimp only at h
  split_ifs at h with hzero hend
  · cases h
    exact ⟨hzero, Or.inl ⟨hend, rfl, rfl⟩⟩
  · obtain ⟨⟨field, bs'⟩, hfield, hfields⟩ := Option.bind_eq_some_iff.mp h
    obtain ⟨⟨fields', tag', rest'⟩, hgroup, heq⟩ :=
      Option.map_eq_some_iff.mp hfields
    cases heq
    exact ⟨hzero, Or.inr ⟨hend, field, bs', fields', rfl, hfield, hgroup⟩⟩

/-- Groups are read as said, at every fuel. -/
theorem readsGroups (fuel : Nat) : ReadsGroups fuel := by
  induction fuel with
  | zero =>
      refine ⟨?_, ?_, ?_⟩
      · intro depth bs fields tag rest h
        cases h
      · intro depth bs fields tag rest h
        cases h
      · intro depth bs fields tag rest h
        cases h
  | succ fuel ih =>
      have hfields := ih.field
      refine ⟨?_, ?_, ?_⟩
      · intro depth bs fields tag rest h
        obtain ⟨-, ⟨-, rfl, -⟩ |
          ⟨-, field, bs', fields', rfl, hfield, hgroup⟩⟩ := groupOf_some h
        · simp
        · exact List.forall_mem_cons.mpr
            ⟨(hfields.valid _ _ _ _ _ (CodedInputStream.tagOf_lt bs)
              hfield).1, ih.valid _ _ _ _ _ hgroup⟩
      · intro depth bs fields tag rest h
        obtain ⟨hzero, ⟨-, rfl, heq⟩ |
          ⟨-, field, bs', fields', rfl, hfield, hgroup⟩⟩ := groupOf_some h
        · have hless := (tagOf_some hzero).1
          rw [← heq] at hless
          exact hless
        · have htag := (tagOf_some hzero).1
          have hfirst := hfields.shorter _ _ _ _ _ hfield
          have hrest := ih.shorter _ _ _ _ _ hgroup
          omega
      · intro depth bs fields tag rest h fuel' more hfuel
        obtain ⟨fuel', rfl⟩ : ∃ k, fuel' = k + 1 :=
          Nat.exists_eq_add_one.mpr (by omega)
        obtain ⟨hzero, hcases⟩ := groupOf_some h
        rw [groupOf, (tagOf_some hzero).2 more]
        dsimp only
        rw [if_neg hzero]
        rcases hcases with ⟨hend, rfl, heq⟩ |
          ⟨hend, field, bs', fields', rfl, hfield, hgroup⟩
        · rw [if_pos hend, ← heq]
        · rw [if_neg hend,
            hfields.continued _ _ _ _ _ hfield fuel' more (by omega),
            Option.bind_some]
          dsimp only
          rw [ih.continued _ _ _ _ _ hgroup fuel' more (by omega),
            Option.map_some]

/-- A field that is read can be written. -/
theorem fieldOf_valid
    {depth tag : Nat} {bs rest : List UInt8} {field : UnknownField}
    (hlt : tag < 2 ^ 32) (h : fieldOf depth tag bs = some (field, rest)) :
    field.Valid depth ∧ field.tag = tag :=
  (readsGroups _).field.valid depth tag bs field rest hlt h

theorem fieldOf_shorter
    {depth tag : Nat} {bs rest : List UInt8} {field : UnknownField}
    (h : fieldOf depth tag bs = some (field, rest)) :
    rest.length ≤ bs.length :=
  (readsGroups _).field.shorter depth tag bs field rest h

/-- What follows a field does not change it. -/
theorem fieldOf_append
    {depth tag : Nat} {bs rest : List UInt8} {field : UnknownField}
    (h : fieldOf depth tag bs = some (field, rest)) (more : List UInt8) :
    fieldOf depth tag (bs ++ more) = some (field, rest ++ more) :=
  (readsGroups _).field.continued depth tag bs field rest h _ more
    (by rw [List.length_append]; omega)

/-- What is written behind a tag is read back, and nothing behind it. -/
theorem fieldOf_payload
    {depth : Nat} {field : UnknownField} (h : field.Valid depth)
    (rest : List UInt8) :
    fieldOf depth field.tag (field.payload ++ rest) = some (field, rest) :=
  h.read (by rw [List.length_append]; omega) rest

end Reading

section Depth

/-- More depth does not change a field, if it does not change a group. -/
theorem fieldWith_depth
    {fuel depth depth' tag : Nat} {bs rest : List UInt8}
    {field : UnknownField}
    (hgroup : ∀ depth depth' bs group, depth ≤ depth' →
      groupOf fuel depth bs = some group →
        groupOf fuel depth' bs = some group)
    (hle : depth ≤ depth')
    (h : fieldWith (groupOf fuel) depth tag bs = some (field, rest)) :
    fieldWith (groupOf fuel) depth' tag bs = some (field, rest) := by
  obtain ⟨hnumber, hcases⟩ := fieldWith_some h
  rw [fieldWith, if_neg hnumber]
  rcases hcases with ⟨htype, n, hn, rfl⟩ | ⟨htype, n, hn, rfl⟩ |
    ⟨htype, n, bs', value, hn, hbytes, rfl⟩ |
    ⟨htype, hdepth, fields, hfields, rfl⟩ | ⟨htype, n, hn, rfl⟩
  · simp only [htype, WIRETYPE_VARINT, hn, Option.map_some]
  · simp only [htype, WIRETYPE_FIXED64, hn, Option.map_some]
  · simp only [htype, WIRETYPE_LENGTH_DELIMITED, hn, Option.bind_some,
      hbytes, Option.map_some]
  · have hdeeper := hgroup (depth - 1) (depth' - 1) bs _ (by omega) hfields
    simp only [htype, WIRETYPE_START_GROUP,
      if_neg (show depth' ≠ 0 by omega), hdeeper, Option.bind_some, if_true]
  · simp only [htype, WIRETYPE_FIXED32, hn, Option.map_some]

theorem groupOf_depth
    {fuel depth depth' : Nat} {bs : List UInt8}
    {group : List UnknownField × Nat × List UInt8} (hle : depth ≤ depth')
    (h : groupOf fuel depth bs = some group) :
    groupOf fuel depth' bs = some group := by
  induction fuel generalizing depth depth' bs group with
  | zero =>
      cases h
  | succ fuel ih =>
      obtain ⟨fields, tag, rest⟩ := group
      obtain ⟨hzero, hcases⟩ := groupOf_some h
      rw [groupOf]
      dsimp only
      rw [if_neg hzero]
      rcases hcases with ⟨hend, rfl, heq⟩ |
        ⟨hend, field, bs', fields', rfl, hfield, hgroup⟩
      · rw [if_pos hend, ← heq]
      · rw [if_neg hend,
          fieldWith_depth (fun _ _ _ _ hle h => ih hle h) hle hfield,
          Option.bind_some]
        dsimp only
        rw [ih hle hgroup, Option.map_some]

/-- A field is the same at every depth that it is read at. -/
theorem fieldOf_depth
    {depth depth' tag : Nat} {bs rest : List UInt8} {field : UnknownField}
    (hle : depth ≤ depth') (h : fieldOf depth tag bs = some (field, rest)) :
    fieldOf depth' tag bs = some (field, rest) :=
  fieldWith_depth (fun _ _ _ _ hle h => groupOf_depth hle h) hle h

theorem UnknownField.Valid.deeper
    {depth depth' : Nat} {field : UnknownField} (h : field.Valid depth)
    (hle : depth ≤ depth') : field.Valid depth' := by
  induction h generalizing depth' with
  | varint hnumber =>
      exact .varint hnumber
  | fixed32 hnumber =>
      exact .fixed32 hnumber
  | fixed64 hnumber =>
      exact .fixed64 hnumber
  | lengthDelimited hnumber hlength =>
      exact .lengthDelimited hnumber hlength
  | group hnumber _ ih =>
      obtain ⟨depth', rfl⟩ : ∃ k, depth' = k + 1 :=
        Nat.exists_eq_add_one.mpr (by omega)
      exact .group hnumber fun field hfield => ih field hfield (by omega)

end Depth

end Wire
end NetEngine
