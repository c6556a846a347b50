import NetEngine.Wire.MessageClass

/-!
# Fields of a class

What wire_format_lite_inl.h writes for a field of each type, and what a class
makes of the fields that belong to one member: a has bit, a repeated field, the
messages inside another one and the unknown fields.
-/

namespace NetEngine
namespace Wire

open LockStep Unity

section WireFormatLite

/-- `WriteUInt32ToArray`. -/
def writeUInt32ToArray (number : Nat) (value : UInt32) : List UInt8 :=
  writeTagToArray number WIRETYPE_VARINT ++ writeVarint32ToArray value

/-- `WriteUInt64ToArray`. -/
def writeUInt64ToArray (number : Nat) (value : UInt64) : List UInt8 :=
  writeTagToArray number WIRETYPE_VARINT ++ writeVarint64ToArray value

/-- `WriteDoubleToArray`. -/
def writeDoubleToArray (number : Nat) (value : Double) : List UInt8 :=
  writeTagToArray number WIRETYPE_FIXED64 ++ leBytes 8 value.toNat

/-- `InternalWriteMessageToArray` of a message with a cached size. -/
def writeMessageToArray (number cachedSize : Nat) (bytes : List UInt8) :
    List UInt8 :=
  writeTagToArray number WIRETYPE_LENGTH_DELIMITED ++
    writeVarint32ToArray (UInt32.ofNat cachedSize) ++ bytes

/-- A longer limit does not change what is written. -/
theorem writeVarint_fuel
    {fuel fuel' n : Nat} (hn : n < 128 ^ (fuel + 1)) (hle : fuel ≤ fuel') :
    writeVarint (fuel' + 1) n = writeVarint (fuel + 1) n := by
  induction fuel generalizing fuel' n with
  | zero =>
      have hsmall : n < 128 := by
        omega
      rw [writeVarint, writeVarint, if_pos hsmall, if_pos hsmall]
  | succ fuel ih =>
      obtain ⟨fuel', rfl⟩ : ∃ k, fuel' = k + 1 :=
        Nat.exists_eq_add_one.mpr (by omega)
      rw [writeVarint, writeVarint.eq_2 n (fuel + 1)]
      split_ifs with hsmall
      · rfl
      · have hrest : n / 128 < 128 ^ (fuel + 1) := by
          rw [Nat.div_lt_iff_lt_mul (by omega), ← Nat.pow_succ]
          exact hn
        rw [ih hrest (by omega)]

/-- A number of 32 bits is written as one of 64 bits. -/
theorem writeUInt32ToArray_eq (number : Nat) (value : UInt32) :
    writeUInt32ToArray number value =
      (UnknownField.varint number value.toUInt64).toArray := by
  have hvalue := value.toNat_lt
  have hwrite : writeVarint32ToArray value =
      writeVarint64ToArray value.toUInt64 := by
    rw [writeVarint32ToArray, writeVarint64ToArray, UInt32.toNat_toUInt64]
    exact (writeVarint_fuel (show value.toNat < 128 ^ (4 + 1) by omega)
      (show 4 ≤ 9 by omega)).symm
  rw [writeUInt32ToArray, hwrite]
  rfl

theorem writeUInt64ToArray_eq (number : Nat) (value : UInt64) :
    writeUInt64ToArray number value =
      (UnknownField.varint number value).toArray := by
  rfl

theorem writeDoubleToArray_eq (number : Nat) (value : Double) :
    writeDoubleToArray number value =
      (UnknownField.fixed64 number value).toArray := by
  rfl

theorem writeMessageToArray_eq (number : Nat) (bytes : List UInt8) :
    writeMessageToArray number bytes.length bytes =
      (UnknownField.lengthDelimited number bytes).toArray := by
  rw [writeMessageToArray, List.append_assoc]
  rfl

/-- Fields with a number below 16 have a tag of one byte. -/
theorem length_writeTagToArray_small
    {number type : Nat} (hnumber : number < 16) (htype : type < 8) :
    (writeTagToArray number type).length = 1 := by
  rw [length_writeTagToArray, makeTag_eq number htype]
  exact varintSize_small (by omega)

theorem length_writeUInt32ToArray
    {number : Nat} (hnumber : number < 16) (value : UInt32) :
    (writeUInt32ToArray number value).length =
      1 + varintSize value.toNat := by
  rw [writeUInt32ToArray, List.length_append,
    length_writeTagToArray_small hnumber (by decide),
    length_writeVarint32ToArray]

theorem length_writeUInt64ToArray
    {number : Nat} (hnumber : number < 16) (value : UInt64) :
    (writeUInt64ToArray number value).length =
      1 + varintSize value.toNat := by
  rw [writeUInt64ToArray, List.length_append,
    length_writeTagToArray_small hnumber (by decide),
    length_writeVarint64ToArray]

theorem length_writeDoubleToArray
    {number : Nat} (hnumber : number < 16) (value : Double) :
    (writeDoubleToArray number value).length = 1 + 8 := by
  rw [writeDoubleToArray, List.length_append,
    length_writeTagToArray_small hnumber (by decide), leBytes_length]

theorem length_writeMessageToArray
    {number : Nat} (hnumber : number < 16) (bytes : List UInt8) :
    (writeMessageToArray number bytes.length bytes).length =
      1 + lengthDelimitedSize bytes.length := by
  rw [writeMessageToArray, List.length_append, List.length_append,
    length_writeTagToArray_small hnumber (by decide),
    length_writeVarint32ToArray, lengthDelimitedSize]
  omega

end WireFormatLite

section Collecting

variable {σ ι : Type}

theorem foldlM_append_some
    {apply : σ → UnknownField → Option σ} {xs ys : List UnknownField}
    {a b c : σ} (hxs : xs.foldlM apply a = some b)
    (hys : ys.foldlM apply b = some c) :
    (xs ++ ys).foldlM apply a = some c := by
  rw [List.foldlM_append, hxs]
  exact hys

/-- A field that is gathered in a has bit. -/
theorem foldlM_optional
    (apply : σ → UnknownField → Option σ) (held : Option ι → σ)
    (field : ι → UnknownField) (x : Option ι)
    (h : ∀ y, x = some y →
      apply (held none) (field y) = some (held (some y))) :
    (x.toList.map field).foldlM apply (held none) = some (held x) := by
  cases x with
  | none =>
      rfl
  | some x =>
      rw [Option.toList_some, List.map_singleton, List.foldlM_cons, h x rfl]
      rfl

/-- Fields that are gathered in a list. -/
theorem foldlM_collect
    (apply : σ → UnknownField → Option σ) (held : List ι → σ)
    (field : ι → UnknownField) (xs : List ι)
    (h : ∀ ys, ∀ x ∈ xs,
      apply (held ys) (field x) = some (held (ys ++ [x]))) :
    (xs.map field).foldlM apply (held []) = some (held xs) := by
  have hfrom (ys : List ι) :
      (xs.map field).foldlM apply (held ys) = some (held (ys ++ xs)) := by
    induction xs generalizing ys with
    | nil =>
        rw [List.append_nil]
        rfl
    | cons x xs ih =>
        have hx := h ys x List.mem_cons_self
        have hxs := ih
          (fun zs z hz => h zs z (List.mem_cons_of_mem x hz)) (ys ++ [x])
        rw [List.append_assoc] at hxs
        rw [List.map_cons, List.foldlM_cons, hx]
        exact hxs
  exact hfrom []

/-- The same for numbers of 32 bits, which a varint carries in 64. -/
theorem foldlM_optional_uint32
    (apply : σ → UnknownField → Option σ) (held : Option UInt32 → σ)
    (number : Nat) (x : Option UInt32)
    (h : ∀ value : UInt64, apply (held none) (.varint number value) =
      some (held (some value.toUInt32))) :
    (x.toList.map (fun y => .varint number y.toUInt64)).foldlM apply
      (held none) = some (held x) :=
  foldlM_optional apply held _ x
    fun y _ => by rw [h, UInt32.toUInt32_toUInt64]

theorem foldlM_collect_uint32
    (apply : σ → UnknownField → Option σ) (held : List UInt32 → σ)
    (number : Nat) (xs : List UInt32)
    (h : ∀ ys, ∀ value : UInt64, apply (held ys) (.varint number value) =
      some (held (ys ++ [value.toUInt32]))) :
    (xs.map (fun y => .varint number y.toUInt64)).foldlM apply (held []) =
      some (held xs) :=
  foldlM_collect apply held _ xs
    fun ys y _ => by rw [h, UInt32.toUInt32_toUInt64]

/-- Fields of a has bit. -/
theorem elim_toArray
    (write : ι → List UInt8) (field : ι → UnknownField)
    (h : ∀ x, write x = (field x).toArray) (x : Option ι) :
    x.elim [] write =
      serializeUnknownFieldsToArray (x.toList.map field) := by
  cases x with
  | none =>
      rfl
  | some x =>
      rw [Option.elim_some, h]
      exact (List.append_nil _).symm

/-- Fields of a repeated one. -/
theorem flatMap_toArray
    (write : ι → List UInt8) (field : ι → UnknownField)
    (h : ∀ x, write x = (field x).toArray) (xs : List ι) :
    xs.flatMap write = serializeUnknownFieldsToArray (xs.map field) := by
  rw [serializeUnknownFieldsToArray_eq_flatMap, List.flatMap_map]
  exact congrArg (List.flatMap · xs) (funext h)

theorem length_elim
    {write : ι → List UInt8} {size : ι → Nat}
    (h : ∀ x, (write x).length = size x) (x : Option ι) :
    (x.elim [] write).length = x.elim 0 size := by
  cases x with
  | none =>
      rfl
  | some x =>
      exact h x

/-- A repeated field with tags of one byte. -/
theorem length_flatMap
    {write : ι → List UInt8} {size : ι → Nat}
    (h : ∀ x, (write x).length = 1 + size x) (xs : List ι) :
    (xs.flatMap write).length = 1 * xs.length + (xs.map size).sum := by
  rw [List.length_flatMap, Nat.one_mul, ← sum_map_one_add]
  exact congrArg (fun f => (xs.map f).sum) (funext h)

/-- An element takes no more than all of them. -/
theorem le_sum_lengthDelimited
    (size : ι → Nat) {x : ι} {xs : List ι} (h : x ∈ xs) :
    size x ≤ (xs.map (fun x => lengthDelimitedSize (size x))).sum := by
  induction xs with
  | nil =>
      cases h
  | cons y ys ih =>
      rw [List.map_cons, List.sum_cons, lengthDelimitedSize]
      rcases List.mem_cons.mp h with rfl | hmem
      · omega
      · have hle := ih hmem
        omega

end Collecting

section Values

/-- The value of a field, by its wire type. -/
def UnknownField.asVarint : UnknownField → Option UInt64
  | .varint _ value => some value
  | _ => none

def UnknownField.asFixed64 : UnknownField → Option UInt64
  | .fixed64 _ value => some value
  | _ => none

def UnknownField.asBytes : UnknownField → Option (List UInt8)
  | .lengthDelimited _ value => some value
  | _ => none

/-- Fields that can be written and are none of the known ones. -/
def Unknown (tags : List Nat) (depth : Nat) (fields : List UnknownField) :
    Prop :=
  ∀ field ∈ fields, field.Valid depth ∧ field.tag ∉ tags

theorem Unknown.append
    {tags : List Nat} {depth : Nat} {fields : List UnknownField}
    (h : Unknown tags depth fields) {field : UnknownField}
    (hvalid : field.Valid depth) (htag : field.tag ∉ tags) :
    Unknown tags depth (fields ++ [field]) := by
  intro field' hmem
  rcases List.mem_append.mp hmem with hold | hnew
  · exact h field' hold
  · rw [List.mem_singleton.mp hnew]
    exact ⟨hvalid, htag⟩

variable {ι : Type} {depth number : Nat}

theorem varints_valid
    (hnumber : Numbered number) (value : ι → UInt64) (xs : List ι) :
    ∀ field ∈ xs.map (fun x => UnknownField.varint number (value x)),
      field.Valid depth := by
  intro field hfield
  obtain ⟨x, -, rfl⟩ := List.mem_map.mp hfield
  exact .varint hnumber

theorem fixed64s_valid (hnumber : Numbered number) (xs : List UInt64) :
    ∀ field ∈ xs.map (UnknownField.fixed64 number),
      field.Valid depth := by
  intro field hfield
  obtain ⟨x, -, rfl⟩ := List.mem_map.mp hfield
  exact .fixed64 hnumber

end Values

section Nested

variable {τ : Type} {c : MessageClass τ} {f : Format τ}
  {fields : τ → List UnknownField} {Valid : Nat → τ → Prop}

namespace MessageClass

/-- A message inside another one is written as a field. -/
theorem Lawful.writeMessageToArray_eq
    (h : c.Lawful f fields Valid) (number : Nat) (msg : τ) :
    writeMessageToArray number (c.byteSizeLong msg) (c.toArray msg) =
      (UnknownField.lengthDelimited number (c.toArray msg)).toArray := by
  rw [← h.length_toArray, Wire.writeMessageToArray_eq]

theorem Lawful.length_writeMessageToArray
    (h : c.Lawful f fields Valid) {number : Nat} (hnumber : number < 16)
    (msg : τ) :
    (writeMessageToArray number (c.byteSizeLong msg)
        (c.toArray msg)).length =
      1 + lengthDelimitedSize (c.byteSizeLong msg) := by
  rw [← h.length_toArray, Wire.length_writeMessageToArray hnumber]

theorem Lawful.elements_valid
    (h : c.Lawful f fields Valid) {depth number : Nat}
    (hnumber : Numbered number) {msgs : List τ}
    (hsize : ∀ msg ∈ msgs, c.byteSizeLong msg ≤ INT_MAX) :
    ∀ field ∈ msgs.map
        (fun msg => UnknownField.lengthDelimited number (c.toArray msg)),
      field.Valid depth := by
  intro field hfield
  obtain ⟨msg, hmsg, rfl⟩ := List.mem_map.mp hfield
  refine .lengthDelimited hnumber ?_
  rw [h.length_toArray]
  exact hsize msg hmsg

/-- A message inside another one is valid one level down. -/
def Inside (Valid : Nat → τ → Prop) (depth : Nat) (msg : τ) : Prop :=
  depth ≠ 0 ∧ Valid (depth - 1) msg

theorem Lawful.nested_toArray
    (h : c.Lawful f fields Valid) {depth : Nat} {msg : τ}
    (hvalid : Inside Valid depth msg) (hsize : c.byteSizeLong msg ≤ INT_MAX) :
    f.nested c.cleared depth (c.toArray msg) = some msg := by
  rw [Format.nested, if_neg hvalid.1]
  exact h.merge_toArray false hvalid.2 hsize

theorem Lawful.nested_valid
    (h : c.Lawful f fields Valid) {depth : Nat} {msg : τ} {data : List UInt8}
    (hnested : f.nested c.cleared depth data = some msg) :
    Inside Valid depth msg := by
  rw [Format.nested] at hnested
  split_ifs at hnested with hdepth
  exact ⟨hdepth, h.merge_valid hnested⟩

end MessageClass

end Nested

end Wire
end NetEngine
