import NetEngine.Lib.Items
import NetEngine.Wire.UnknownFields

/-!
# Generated parsers

The loop of a generated `MergePartialFromCodedStream` with the readers of
wire_format_lite_inl.h that its cases use, and `ParseFromArray` around it.  A
generated message is given by the cases of its switch and by what it keeps of
the fields it does not know.

`Implements` connects a generated parser to the format: its message is the fold
of the fields that are there, in order.  The shortcut that reads the next
elements of a repeated field without going through the switch changes nothing,
however much room there is for them.
-/

namespace NetEngine
namespace Wire

open LockStep Unity

variable {σ τ : Type}

/-- What a case of the switch does to the message and the stream. -/
abbrev FieldParser (σ : Type) :=
  σ → CodedInputStream → Option (σ × CodedInputStream)

/-- A message class of player.pb.cc. -/
structure Generated (σ : Type) where
  /-- The case for a tag, by its field number and wire type. -/
  parserOf : Nat → Option (FieldParser σ)
  /-- `SkipField` into the unknown fields of the message. -/
  addUnknown : σ → UnknownField → σ

section Readers

/-- `ReadPrimitive` of a `uint32` field. -/
def readUInt32 (set : σ → UInt32 → σ) : FieldParser σ := fun msg s =>
  s.readVarint32.map (fun e => (set msg e.1, e.2))

/-- `ReadPrimitive` of a `uint64` field. -/
def readUInt64 (set : σ → UInt64 → σ) : FieldParser σ := fun msg s =>
  s.readVarint64.map (fun e => (set msg e.1, e.2))

/-- `ReadPrimitive` of a `double` field, as its bits. -/
def readDouble (set : σ → UInt64 → σ) : FieldParser σ := fun msg s =>
  (s.readLittleEndian 8).map (fun e => (set msg (UInt64.ofNat e.1), e.2))

/-- Elements that are next in the input and for which there is room. -/
def readReserved (tag : Nat) (add : σ → UInt32 → σ) : Nat → FieldParser σ
  | 0, msg, s => some (msg, s)
  | room + 1, msg, s =>
      match s.expectTag tag with
      | none => some (msg, s)
      | some s' =>
          s'.readVarint32.bind
            (fun e => readReserved tag add room (add msg e.1) e.2)

/-- `ReadRepeatedPrimitive`; `room` is `Capacity() - size()`. -/
def readRepeated (tag : Nat) (add : σ → UInt32 → σ) (room : σ → Nat) :
    FieldParser σ := fun msg s =>
  s.readVarint32.bind (fun e =>
    readReserved tag add (room (add msg e.1)) (add msg e.1) e.2)

/-- The loop of `ReadPackedPrimitive`. -/
def packedLoop (add : σ → UInt32 → σ) : Nat → FieldParser σ
  | 0, _, _ => none
  | fuel + 1, msg, s =>
      -- `BytesUntilLimit() > 0`
      if s.bufferSize = 0 then some (msg, s)
      else
        s.readVarint32.bind
          (fun e => packedLoop add fuel (add msg e.1) e.2)

/-- `ReadPackedPrimitive`. -/
def readPacked (add : σ → UInt32 → σ) : FieldParser σ := fun msg s =>
  s.readVarintSizeAsInt.bind (fun length =>
    let (limit, s) := length.2.pushLimit length.1
    (packedLoop add (s.bufferSize + 1) msg s).map
      (fun e => (e.1, e.2.popLimit limit)))

end Readers

namespace Generated

/-- `handle_unusual` for a tag other than 0. -/
def handleUnusual (g : Generated σ) (tag : Nat) : FieldParser σ :=
  fun msg s =>
    (skipField tag s).map (fun e => (g.addUnknown msg e.1, e.2))

/-- The loop of `MergePartialFromCodedStream`. -/
def mergeLoop (g : Generated σ) : Nat → FieldParser σ
  | 0, _, _ => none
  | fuel + 1, msg, s =>
      let ((tag, small), s) := s.readTagWithCutoffNoLastTag 127
      match (if small then g.parserOf tag else none) with
      | some parse =>
          (parse msg s).bind (fun e => g.mergeLoop fuel e.1 e.2)
      | none =>
          if tag = 0 then some (msg, s)
          else
            (g.handleUnusual tag msg s).bind
              (fun e => g.mergeLoop fuel e.1 e.2)

/-- Every turn of the loop takes a byte or ends it. -/
def mergePartialFromCodedStream (g : Generated σ) : FieldParser σ :=
  fun msg s => g.mergeLoop (s.bufferSize + 1) msg s

/-- `ParseFromArray`, with the cleared message. -/
def parseFromArray (g : Generated σ) (cleared : σ) (data : Memory UInt8)
    (size : Nat) : Option σ :=
  (g.mergePartialFromCodedStream cleared
    (CodedInputStream.ofArray data size)).bind (fun e =>
      if e.2.legitimateMessageEnd then some e.1 else none)

end Generated

/-- `ReadMessage` into an element that is added to the message. -/
def readMessage (g : Generated τ) (cleared : τ) (add : σ → τ → σ) :
    FieldParser σ := fun msg s =>
  s.readVarintSizeAsInt.bind (fun length =>
    let (limit, s) := length.2.pushLimit length.1
    if s.recursionBudget = 0 then none
    else
      (g.mergePartialFromCodedStream cleared
        { s with recursionBudget := s.recursionBudget - 1 }).bind (fun e =>
          if e.2.legitimateMessageEnd then
            some (add msg e.1,
              { e.2.popLimit limit with
                recursionBudget := e.2.recursionBudget + 1 })
          else none))

section Format

/--
A known field with a length in front.  A length that goes past the end is taken
as what is left, unless one is strict about it.
-/
def delimitedOf (strict : Bool) (tag : Nat) (bs : List UInt8) :
    Option (UnknownField × List UInt8) :=
  (varintOf bs).bind (fun length =>
    if INT_MAX < length.1 then none
    else if strict = true ∧ length.2.length < length.1 then none
    else
      some (.lengthDelimited (getTagFieldNumber tag)
        (length.2.take length.1), length.2.drop length.1))

/-- What a message makes of its fields. -/
structure Format (σ : Type) where
  /-- Tags of the known fields with a length in front. -/
  delimited : Nat → Bool
  /-- A field goes into the message, at some depth. -/
  apply : Nat → σ → UnknownField → Option σ

namespace Format

/-- The field that a tag of the message announces. -/
def bodyOf (f : Format σ) (strict : Bool) (depth tag : Nat)
    (bs : List UInt8) : Option (UnknownField × List UInt8) :=
  if f.delimited tag then delimitedOf strict tag bs
  else fieldOf depth tag bs

/-- A tag and its field. -/
def itemOf (f : Format σ) (strict : Bool) (depth : Nat) (bs : List UInt8) :
    Option (UnknownField × List UInt8) :=
  if (CodedInputStream.tagOf bs).1 = 0 then none
  else
    f.bodyOf strict depth (CodedInputStream.tagOf bs).1
      (CodedInputStream.tagOf bs).2

/-- All the fields in some bytes. -/
def items (f : Format σ) (strict : Bool) (depth : Nat) (bs : List UInt8) :
    Option (List UnknownField) :=
  Items.readAll (f.itemOf strict depth) bs.length bs

/-- The message that some bytes add to, field by field. -/
def merge (f : Format σ) (strict : Bool) (depth : Nat) (msg : σ)
    (bs : List UInt8) : Option σ :=
  (f.items strict depth bs).bind
    (fun fields => fields.foldlM (f.apply depth) msg)

/-- A message inside another one, one level down. -/
def nested (f : Format σ) (cleared : σ) (depth : Nat) (data : List UInt8) :
    Option σ :=
  if depth = 0 then none else f.merge false (depth - 1) cleared data

variable (f : Format σ)

theorem delimitedOf_shorter
    {strict : Bool} {tag : Nat} {bs rest : List UInt8} {field : UnknownField}
    (h : delimitedOf strict tag bs = some (field, rest)) :
    rest.length ≤ bs.length := by
  obtain ⟨⟨n, bs'⟩, hn, hfield⟩ := Option.bind_eq_some_iff.mp h
  have hless := (varintOf_some hn).1
  dsimp only at hfield
  split_ifs at hfield
  cases hfield
  rw [List.length_drop]
  omega

theorem bodyOf_shorter
    {strict : Bool} {depth tag : Nat} {bs rest : List UInt8}
    {field : UnknownField}
    (h : f.bodyOf strict depth tag bs = some (field, rest)) :
    rest.length ≤ bs.length := by
  rw [bodyOf] at h
  split_ifs at h
  · exact delimitedOf_shorter h
  · exact fieldOf_shorter h

theorem itemOf_consumes (strict : Bool) (depth : Nat) :
    Items.Consumes (f.itemOf strict depth) := by
  intro bs field rest h
  rw [itemOf] at h
  split_ifs at h with hzero
  exact Nat.lt_of_le_of_lt (f.bodyOf_shorter h) (tagOf_some hzero).1

/-- The strict reader looks at a field only. -/
theorem itemOf_extends (strict : Bool) (depth : Nat) :
    Items.Extends (f.itemOf true depth) (f.itemOf strict depth) := by
  intro bs more field rest h
  rw [itemOf] at h ⊢
  split_ifs at h with hzero
  rw [(tagOf_some hzero).2 more]
  dsimp only
  rw [if_neg hzero]
  rw [bodyOf] at h ⊢
  split_ifs at h ⊢ with hdelimited
  · obtain ⟨⟨n, bs'⟩, hn, hfield⟩ := Option.bind_eq_some_iff.mp h
    rw [delimitedOf, (varintOf_some hn).2 more, Option.bind_some]
    dsimp only at hfield ⊢
    split_ifs at hfield with hint hlength
    cases hfield
    have hle : n ≤ bs'.length := by
      by_contra hlt
      exact hlength ⟨rfl, by omega⟩
    rw [if_neg hint, if_neg (by rw [List.length_append]; omega),
      List.take_append_of_le_length hle, List.drop_append_of_le_length hle]
  · exact fieldOf_append h more

/-- Bytes without fields leave the message as it is. -/
theorem merge_nil (strict : Bool) (depth : Nat) (msg : σ) :
    f.merge strict depth msg [] = some msg := by
  rfl

/-- The first field of some bytes and then the rest. -/
theorem merge_cons
    (strict : Bool) (depth : Nat) (msg : σ) {bs : List UInt8}
    (hbs : bs ≠ []) :
    f.merge strict depth msg bs =
      (f.itemOf strict depth bs).bind (fun e =>
        (f.apply depth msg e.1).bind
          (fun msg' => f.merge strict depth msg' e.2)) := by
  obtain ⟨n, hn⟩ : ∃ k, bs.length = k + 1 :=
    Nat.exists_eq_add_one.mpr (List.length_pos_iff_ne_nil.mpr hbs)
  rw [merge, items, hn, Items.readAll_cons n hbs]
  cases hitem : f.itemOf strict depth bs with
  | none =>
      rfl
  | some e =>
      obtain ⟨field, rest⟩ := e
      have hless := f.itemOf_consumes strict depth _ _ _ hitem
      rw [Option.bind_some, Option.bind_some]
      simp only [merge, items]
      rw [Items.readAll_fuel (f.itemOf_consumes strict depth) (by omega)]
      cases Items.readAll (f.itemOf strict depth) rest.length rest with
      | none =>
          cases f.apply depth msg field <;> rfl
      | some fields =>
          rfl

/-- Bytes that are read strictly can be continued. -/
theorem merge_append
    {strict : Bool} {depth : Nat} {msg msg' : σ} {xs : List UInt8}
    (h : f.merge true depth msg xs = some msg') (ys : List UInt8) :
    f.merge strict depth msg (xs ++ ys) = f.merge strict depth msg' ys := by
  obtain ⟨fields, hitems, hfold⟩ := Option.bind_eq_some_iff.mp h
  rw [merge, merge, items, items,
    Items.readAll_append (f.itemOf_consumes true depth)
      (f.itemOf_consumes strict depth) (f.itemOf_extends strict depth)
      hitems]
  cases Items.readAll (f.itemOf strict depth) ys.length ys with
  | none =>
      rfl
  | some more =>
      rw [Option.map_some, Option.bind_some, Option.bind_some,
        List.foldlM_append, hfold]
      rfl

end Format

/-- The elements of a packed field. -/
def packedOf (bs : List UInt8) : Option (List UInt32) :=
  Items.readAll
    (fun bs => (varintOf bs).map (fun e => (UInt32.ofNat e.1, e.2)))
    bs.length bs

theorem packed_consumes :
    Items.Consumes (fun bs =>
      (varintOf bs).map (fun e => (UInt32.ofNat e.1, e.2))) := by
  intro bs value rest h
  obtain ⟨⟨n, rest'⟩, hn, heq⟩ := Option.map_eq_some_iff.mp h
  cases heq
  exact (varintOf_some hn).1

end Format

section Implementation

/-- The case for a tag reads the field that the tag announces. -/
def Parses (f : Format σ) (parse : FieldParser σ) (tag : Nat) : Prop :=
  ∀ msg (s : CodedInputStream), s.legitimateMessageEnd = false →
    parse msg s =
      (f.bodyOf false s.recursionBudget tag s.buffer).bind (fun e =>
        (f.apply s.recursionBudget msg e.1).map
          (fun msg' => (msg', { s with buffer := e.2 })))

/-- A generated parser does what its format says, case by case. -/
structure Implements (g : Generated σ) (f : Format σ) : Prop where
  small : ∀ tag parse, g.parserOf tag = some parse → 0 < tag ∧ tag ≤ 127
  parses : ∀ tag parse, g.parserOf tag = some parse → Parses f parse tag
  delimited : ∀ tag, g.parserOf tag = none → f.delimited tag = false
  unknown : ∀ tag, g.parserOf tag = none →
    ∀ depth msg (field : UnknownField), field.tag = tag →
      f.apply depth msg field = some (g.addUnknown msg field)

variable {g : Generated σ} {f : Format σ}

/-- The next tag of a stream that has bytes left. -/
theorem nextTag_of_ne_nil (s : CodedInputStream) (h : s.buffer ≠ []) :
    s.nextTag =
      ((CodedInputStream.tagOf s.buffer).1,
        { s with buffer := (CodedInputStream.tagOf s.buffer).2 }) :=
  if_neg h

/-- What the loop does behind a tag. -/
def Generated.readField (g : Generated σ) (tag : Nat) : FieldParser σ :=
  match (if (0 < tag ∧ tag ≤ 127 : Bool) then g.parserOf tag else none) with
  | some parse => parse
  | none => g.handleUnusual tag

/-- One turn of the loop, in front of a tag. -/
theorem Generated.mergeLoop_turn
    (g : Generated σ) (fuel : Nat) (msg : σ) (s : CodedInputStream)
    (hzero : (CodedInputStream.tagOf s.buffer).1 ≠ 0) :
    g.mergeLoop (fuel + 1) msg s =
      (g.readField (CodedInputStream.tagOf s.buffer).1 msg
        { s with buffer := (CodedInputStream.tagOf s.buffer).2 }).bind
        (fun e => g.mergeLoop fuel e.1 e.2) := by
  have hnil : s.buffer ≠ [] := by
    intro hnil
    rw [hnil] at hzero
    exact hzero rfl
  rw [Generated.mergeLoop, s.readTagWithCutoffNoLastTag_eq,
    nextTag_of_ne_nil s hnil]
  dsimp only
  generalize CodedInputStream.tagOf s.buffer = front at hzero ⊢
  obtain ⟨tag, rest⟩ := front
  dsimp only at hzero ⊢
  rw [Generated.readField]
  cases (if (0 < tag ∧ tag ≤ 127 : Bool) then g.parserOf tag else none) with
  | some parse =>
      rfl
  | none =>
      dsimp only
      rw [if_neg hzero]

/-- Behind a tag the field is read that the tag announces. -/
theorem Implements.readField_eq
    (h : Implements g f) {tag : Nat} (hlt : tag < 2 ^ 32) (msg : σ)
    (s : CodedInputStream) (hlegit : s.legitimateMessageEnd = false) :
    g.readField tag msg s =
      (f.bodyOf false s.recursionBudget tag s.buffer).bind (fun e =>
        (f.apply s.recursionBudget msg e.1).map
          (fun msg' => (msg', { s with buffer := e.2 }))) := by
  rw [Generated.readField]
  cases hcase : g.parserOf tag with
  | some parse =>
      rw [if_pos (decide_eq_true (h.small tag parse hcase))]
      exact h.parses tag parse hcase msg s hlegit
  | none =>
      have hnone : (if (decide (0 < tag ∧ tag ≤ 127)) = true then none
          else none : Option (FieldParser σ)) = none := by
        split_ifs <;> rfl
      rw [hnone]
      dsimp only
      rw [Generated.handleUnusual, skipField_eq, Format.bodyOf,
        if_neg (by rw [h.delimited tag hcase]; exact Bool.false_ne_true)]
      cases hfield : fieldOf s.recursionBudget tag s.buffer with
      | none =>
          rfl
      | some e =>
          obtain ⟨field, rest⟩ := e
          have htag := (fieldOf_valid hlt hfield).2
          rw [Option.map_some, Option.map_some, Option.bind_some,
            h.unknown tag hcase _ _ _ htag]
          rfl

theorem Implements.turn
    (h : Implements g f) (fuel : Nat) (msg : σ) (s : CodedInputStream)
    (hlegit : s.legitimateMessageEnd = false)
    (hzero : (CodedInputStream.tagOf s.buffer).1 ≠ 0) :
    g.mergeLoop (fuel + 1) msg s =
      (f.itemOf false s.recursionBudget s.buffer).bind (fun e =>
        (f.apply s.recursionBudget msg e.1).bind
          (fun msg' => g.mergeLoop fuel msg' { s with buffer := e.2 })) := by
  rw [g.mergeLoop_turn fuel msg s hzero, Format.itemOf, if_neg hzero,
    h.readField_eq (CodedInputStream.tagOf_lt s.buffer) msg
      { s with buffer := (CodedInputStream.tagOf s.buffer).2 } hlegit]
  cases f.bodyOf false s.recursionBudget (CodedInputStream.tagOf s.buffer).1
      (CodedInputStream.tagOf s.buffer).2 with
  | none =>
      rfl
  | some e =>
      rw [Option.bind_some, Option.bind_some]
      cases f.apply s.recursionBudget msg e.1 <;> rfl

/-- The loop stops in front of what is no tag. -/
theorem Generated.mergeLoop_stop
    (g : Generated σ) (hzero : g.parserOf 0 = none) (fuel : Nat) (msg : σ)
    (s : CodedInputStream)
    (hstop : (CodedInputStream.tagOf s.buffer).1 = 0) :
    g.mergeLoop (fuel + 1) msg s = some (msg, s.nextTag.2) := by
  have htag : s.nextTag.1 = 0 := by
    rw [CodedInputStream.nextTag]
    split_ifs
    · rfl
    · exact hstop
  rw [Generated.mergeLoop, s.readTagWithCutoffNoLastTag_eq]
  dsimp only
  rw [htag, hzero]
  rfl

theorem Implements.parserOf_zero (h : Implements g f) :
    g.parserOf 0 = none := by
  cases hcase : g.parserOf 0 with
  | none =>
      rfl
  | some parse =>
      exact absurd (h.small 0 parse hcase).1 (Nat.lt_irrefl 0)

/--
The loop adds the fields that are there to the message.  Where they are not all
well formed it fails or stops short of the end.
-/
theorem Implements.mergeLoop_eq
    (h : Implements g f) {fuel : Nat} (msg : σ) (s : CodedInputStream)
    (hfuel : s.bufferSize < fuel) (hlegit : s.legitimateMessageEnd = false) :
    (∀ msg', f.merge false s.recursionBudget msg s.buffer = some msg' →
      g.mergeLoop fuel msg s =
        some (msg', { s with buffer := [], legitimateMessageEnd := true })) ∧
    (f.merge false s.recursionBudget msg s.buffer = none →
      ∀ e, g.mergeLoop fuel msg s = some e →
        e.2.legitimateMessageEnd = false) := by
  induction fuel generalizing msg s with
  | zero =>
      exact absurd hfuel (Nat.not_lt_zero _)
  | succ fuel ih =>
      by_cases hnil : s.buffer = []
      · have hstop := g.mergeLoop_stop h.parserOf_zero fuel msg s
          (by rw [hnil]; rfl)
        rw [CodedInputStream.nextTag, if_pos hnil] at hstop
        rw [hnil, Format.merge_nil, hstop]
        refine ⟨?_, ?_⟩
        · intro msg' hmsg
          cases hmsg
          rw [← hnil]
        · intro hmsg
          cases hmsg
      rw [f.merge_cons _ _ _ hnil]
      by_cases hzero : (CodedInputStream.tagOf s.buffer).1 = 0
      · have hstop := g.mergeLoop_stop h.parserOf_zero fuel msg s hzero
        rw [hstop, Format.itemOf, if_pos hzero]
        refine ⟨?_, ?_⟩
        · intro msg' hmsg
          cases hmsg
        · intro _ e he
          cases he
          rw [nextTag_of_ne_nil s hnil]
          exact hlegit
      rw [h.turn fuel msg s hlegit hzero]
      cases hitem : f.itemOf false s.recursionBudget s.buffer with
      | none =>
          refine ⟨?_, ?_⟩
          · intro msg' hmsg
            cases hmsg
          · intro _ e he
            cases he
      | some e =>
          obtain ⟨field, rest⟩ := e
          have hless := f.itemOf_consumes _ _ _ _ _ hitem
          rw [Option.bind_some, Option.bind_some]
          dsimp only
          cases f.apply s.recursionBudget msg field with
          | none =>
              refine ⟨?_, ?_⟩
              · intro msg' hmsg
                cases hmsg
              · intro _ e he
                cases he
          | some msg' =>
              rw [CodedInputStream.bufferSize] at hfuel
              exact ih msg' { s with buffer := rest }
                (show rest.length < fuel by omega) hlegit

/-- The parser makes of the input what the format says. -/
def Merges (g : Generated σ) (f : Format σ) : Prop :=
  ∀ msg (s : CodedInputStream), s.legitimateMessageEnd = false →
    (∀ msg', f.merge false s.recursionBudget msg s.buffer = some msg' →
      g.mergePartialFromCodedStream msg s =
        some (msg', { s with buffer := [], legitimateMessageEnd := true })) ∧
    (f.merge false s.recursionBudget msg s.buffer = none →
      ∀ e, g.mergePartialFromCodedStream msg s = some e →
        e.2.legitimateMessageEnd = false)

theorem Implements.merges (h : Implements g f) : Merges g f := by
  intro msg s hlegit
  exact h.mergeLoop_eq msg s (Nat.lt_succ_self _) hlegit

/-- A message is parsed exactly when all its bytes are fields of it. -/
theorem Merges.parseFromArray_eq
    (h : Merges g f) (cleared : σ) (data : Memory UInt8) (size : Nat) :
    g.parseFromArray cleared data size =
      f.merge false 100 cleared (data.read 0 size) := by
  obtain ⟨hread, hshort⟩ := h cleared (CodedInputStream.ofArray data size) rfl
  rw [Generated.parseFromArray]
  have hbytes : f.merge false 100 cleared (data.read 0 size) =
      f.merge false (CodedInputStream.ofArray data size).recursionBudget
        cleared (CodedInputStream.ofArray data size).buffer := by
    rfl
  rw [hbytes]
  cases hmerge : f.merge false
    (CodedInputStream.ofArray data size).recursionBudget cleared
      (CodedInputStream.ofArray data size).buffer with
  | none =>
      rw [Option.bind_eq_none_iff]
      intro e he
      rw [hshort hmerge e he]
      rfl
  | some msg =>
      rw [hread msg hmerge]
      rfl

end Implementation

section Cases

variable {f : Format σ} {tag : Nat}

theorem fieldOf_of_type
    (hnumber : getTagFieldNumber tag ≠ 0) {type : Nat}
    (htype : getTagWireType tag = type) (depth : Nat) (bs : List UInt8) :
    (type = WIRETYPE_VARINT → fieldOf depth tag bs =
      (varintOf bs).map (fun e =>
        (.varint (getTagFieldNumber tag) (UInt64.ofNat e.1), e.2))) ∧
    (type = WIRETYPE_FIXED64 → fieldOf depth tag bs =
      (fixedOf 8 bs).map (fun e =>
        (.fixed64 (getTagFieldNumber tag) (UInt64.ofNat e.1), e.2))) := by
  refine ⟨?_, ?_⟩
  · rintro rfl
    rw [fieldOf, fieldWith, if_neg hnumber, htype]
    rfl
  · rintro rfl
    rw [fieldOf, fieldWith, if_neg hnumber, htype]
    rfl

theorem parses_readUInt64
    {set : σ → UInt64 → σ} (hnumber : getTagFieldNumber tag ≠ 0)
    (htype : getTagWireType tag = WIRETYPE_VARINT)
    (hdelimited : f.delimited tag = false)
    (happly : ∀ depth msg value,
      f.apply depth msg (.varint (getTagFieldNumber tag) value) =
        some (set msg value)) :
    Parses f (readUInt64 set) tag := by
  intro msg s _
  rw [readUInt64, readVarint64_varintOf, Format.bodyOf,
    if_neg (by rw [hdelimited]; exact Bool.false_ne_true),
    (fieldOf_of_type hnumber htype _ _).1 rfl]
  cases varintOf s.buffer with
  | none =>
      rfl
  | some e =>
      simp only [Option.map_some, Option.bind_some, happly]

theorem parses_readUInt32
    {set : σ → UInt32 → σ} (hnumber : getTagFieldNumber tag ≠ 0)
    (htype : getTagWireType tag = WIRETYPE_VARINT)
    (hdelimited : f.delimited tag = false)
    (happly : ∀ depth msg value,
      f.apply depth msg (.varint (getTagFieldNumber tag) value) =
        some (set msg value.toUInt32)) :
    Parses f (readUInt32 set) tag := by
  have hwrap (n : Nat) : (UInt64.ofNat n).toUInt32 = UInt32.ofNat n := by
    simp
  intro msg s _
  rw [readUInt32, readVarint32_varintOf, Format.bodyOf,
    if_neg (by rw [hdelimited]; exact Bool.false_ne_true),
    (fieldOf_of_type hnumber htype _ _).1 rfl]
  cases varintOf s.buffer with
  | none =>
      rfl
  | some e =>
      simp only [Option.map_some, Option.bind_some, happly, hwrap]

theorem parses_readDouble
    {set : σ → UInt64 → σ} (hnumber : getTagFieldNumber tag ≠ 0)
    (htype : getTagWireType tag = WIRETYPE_FIXED64)
    (hdelimited : f.delimited tag = false)
    (happly : ∀ depth msg value,
      f.apply depth msg (.fixed64 (getTagFieldNumber tag) value) =
        some (set msg value)) :
    Parses f (readDouble set) tag := by
  intro msg s _
  rw [readDouble, readLittleEndian_fixedOf, Format.bodyOf,
    if_neg (by rw [hdelimited]; exact Bool.false_ne_true),
    (fieldOf_of_type hnumber htype _ _).2 rfl]
  cases fixedOf 8 s.buffer with
  | none =>
      rfl
  | some e =>
      simp only [Option.map_some, Option.bind_some, happly]

/-- The length in front of a field, and the limit that it sets. -/
theorem limited_eq
    (s : CodedInputStream) (hlegit : s.legitimateMessageEnd = false)
    (body : CodedInputStream → Option (σ × CodedInputStream))
    {parsed : List UInt8 → Option σ} (ended : Bool)
    (hbody : ∀ s' : CodedInputStream,
      s'.recursionBudget = s.recursionBudget →
      s'.legitimateMessageEnd = false →
      body s' = (parsed s'.buffer).map (fun msg =>
        (msg, { s' with buffer := [], legitimateMessageEnd := ended }))) :
    (s.readVarintSizeAsInt.bind (fun length =>
      (body (length.2.pushLimit length.1).2).map (fun e =>
        (e.1, e.2.popLimit (length.2.pushLimit length.1).1)))) =
      (delimitedOf false tag s.buffer).bind (fun e =>
        match e.1 with
        | .lengthDelimited _ data =>
            (parsed data).map (fun msg => (msg, { s with buffer := e.2 }))
        | _ => none) := by
  rw [s.readVarintSizeAsInt_eq, delimitedOf, varintOf]
  cases readVarint kMaxVarintBytes s.buffer with
  | none =>
      rfl
  | some e =>
      obtain ⟨n, rest⟩ := e
      rw [Option.map_some, Option.bind_some, Option.bind_some]
      dsimp only
      by_cases hint : INT_MAX < n % 2 ^ 64
      · rw [if_pos hint, if_pos hint]
        rfl
      rw [if_neg hint, if_neg hint, Option.bind_some,
        if_neg (by simp), Option.bind_some]
      dsimp only
      rw [CodedInputStream.pushLimit, CodedInputStream.bufferSize]
      dsimp only
      by_cases hlimit : n % 2 ^ 64 < rest.length
      · have hinside := hbody
          { s with
            buffer := rest.take (n % 2 ^ 64)
            afterLimit := rest.drop (n % 2 ^ 64) ++ s.afterLimit }
          rfl hlegit
        rw [if_pos hlimit, hinside, Option.map_map]
        cases parsed (rest.take (n % 2 ^ 64)) with
        | none =>
            rfl
        | some msg =>
            simp [CodedInputStream.popLimit, hlegit]
      · have hinside := hbody { s with buffer := rest } rfl hlegit
        rw [if_neg hlimit, hinside, Option.map_map,
          List.take_of_length_le (by omega),
          List.drop_of_length_le (by omega)]
        cases parsed rest with
        | none =>
            rfl
        | some msg =>
            simp [CodedInputStream.popLimit, hlegit]

/-- The loop over a packed field adds the elements that it holds. -/
theorem packedLoop_eq
    (add : σ → UInt32 → σ) {fuel : Nat} (msg : σ) (s : CodedInputStream)
    (hfuel : s.bufferSize < fuel) :
    packedLoop add fuel msg s =
      (packedOf s.buffer).map
        (fun values => (values.foldl add msg, { s with buffer := [] })) := by
  induction fuel generalizing msg s with
  | zero =>
      exact absurd hfuel (Nat.not_lt_zero _)
  | succ fuel ih =>
      rw [packedLoop]
      cases hbuffer : s.buffer with
      | nil =>
          have hsize : s.bufferSize = 0 := by
            rw [CodedInputStream.bufferSize, hbuffer]
            rfl
          have hnone : packedOf [] = some [] := rfl
          rw [if_pos hsize, hnone, Option.map_some, ← hbuffer]
          rfl
      | cons b bs =>
          have hsize : s.bufferSize = bs.length + 1 := by
            rw [CodedInputStream.bufferSize, hbuffer]
            rfl
          rw [if_neg (by omega), readVarint32_varintOf, hbuffer, packedOf,
            List.length_cons, Items.readAll]
          cases hvalue : varintOf (b :: bs) with
          | none =>
              rfl
          | some e =>
              obtain ⟨n, rest⟩ := e
              have hless := (varintOf_some hvalue).1
              rw [List.length_cons] at hless
              simp only [Option.map_some, Option.bind_some]
              rw [CodedInputStream.bufferSize, hbuffer, List.length_cons]
                at hfuel
              rw [ih (add msg (UInt32.ofNat n)) { s with buffer := rest }
                  (show rest.length < fuel by omega), packedOf,
                Items.readAll_fuel packed_consumes
                  (show rest.length ≤ bs.length by omega), Option.map_map]
              rfl

/-- A field with a length in front, by what its bytes make of the message. -/
theorem parses_delimited
    {parse : FieldParser σ} {parsed : Nat → σ → List UInt8 → Option σ}
    (hdelimited : f.delimited tag = true)
    (happly : ∀ depth msg data,
      f.apply depth msg (.lengthDelimited (getTagFieldNumber tag) data) =
        parsed depth msg data)
    (hparse : ∀ msg (s : CodedInputStream), s.legitimateMessageEnd = false →
      parse msg s =
        (delimitedOf false tag s.buffer).bind (fun e =>
          match e.1 with
          | .lengthDelimited _ data =>
              (parsed s.recursionBudget msg data).map
                (fun msg => (msg, { s with buffer := e.2 }))
          | _ => none)) :
    Parses f parse tag := by
  intro msg s hlegit
  rw [hparse msg s hlegit, Format.bodyOf, if_pos hdelimited, delimitedOf]
  cases varintOf s.buffer with
  | none =>
      rfl
  | some length =>
      rw [Option.bind_some]
      split_ifs
      · rfl
      · rfl
      · rw [Option.bind_some, Option.bind_some]
        dsimp only
        rw [happly]

theorem parses_readPacked
    {add : σ → UInt32 → σ} (hdelimited : f.delimited tag = true)
    (happly : ∀ depth msg data,
      f.apply depth msg (.lengthDelimited (getTagFieldNumber tag) data) =
        (packedOf data).map (fun values => values.foldl add msg)) :
    Parses f (readPacked add) tag := by
  refine parses_delimited hdelimited happly ?_
  intro msg s hlegit
  refine limited_eq s hlegit
    (fun s' => packedLoop add (s'.bufferSize + 1) msg s') false ?_
  intro s' _ hlegit'
  rw [packedLoop_eq add msg s' (Nat.lt_succ_self _), Option.map_map,
    ← hlegit']
  rfl

theorem parses_readMessage
    {g' : Generated τ} {f' : Format τ} (h : Merges g' f')
    {cleared : τ} {add : σ → τ → σ} (hdelimited : f.delimited tag = true)
    (happly : ∀ depth msg data,
      f.apply depth msg (.lengthDelimited (getTagFieldNumber tag) data) =
        (f'.nested cleared depth data).map (add msg)) :
    Parses f (readMessage g' cleared add) tag := by
  refine parses_delimited hdelimited happly ?_
  intro msg s hlegit
  refine Eq.trans ?_ (limited_eq s hlegit
    (fun s' =>
      if s'.recursionBudget = 0 then none
      else
        (g'.mergePartialFromCodedStream cleared
          { s' with recursionBudget := s'.recursionBudget - 1 }).bind
          (fun e =>
            if e.2.legitimateMessageEnd then
              some (add msg e.1,
                { e.2 with recursionBudget := e.2.recursionBudget + 1 })
            else none)) true ?_)
  · rw [readMessage]
    cases s.readVarintSizeAsInt with
    | none =>
        rfl
    | some length =>
        rw [Option.bind_some, Option.bind_some]
        dsimp only
        split_ifs with hbudget
        · rfl
        · cases g'.mergePartialFromCodedStream cleared
            { (length.2.pushLimit length.1).2 with
              recursionBudget :=
                (length.2.pushLimit length.1).2.recursionBudget - 1 } with
          | none =>
              rfl
          | some e =>
              rw [Option.bind_some, Option.bind_some]
              split_ifs <;> rfl
  · intro s' hbudget hlegit'
    dsimp only
    rw [hbudget, Format.nested]
    split_ifs with hzero
    · rfl
    have hback : s.recursionBudget - 1 + 1 = s.recursionBudget := by
      omega
    obtain ⟨hread, hshort⟩ := h cleared
      { s' with recursionBudget := s.recursionBudget - 1 } hlegit'
    cases hmerge : f'.merge false (s.recursionBudget - 1) cleared
        s'.buffer with
    | none =>
        rw [Option.map_none, Option.map_none, Option.bind_eq_none_iff]
        intro e he
        rw [hshort hmerge e he]
        rfl
    | some value =>
        rw [hread value hmerge, Option.bind_some, if_pos rfl]
        dsimp only
        rw [hback, ← hbudget]
        rfl

end Cases

section Shortcut

/-- Two parsers that differ in how they read on in a repeated field. -/
structure Shortcut (g g' : Generated σ) (tag : Nat) (add : σ → UInt32 → σ)
    (room : σ → Nat) : Prop where
  fast : g.parserOf tag = some (readRepeated tag add room)
  plain : g'.parserOf tag = some (readUInt32 add)
  other : ∀ t, t ≠ tag → g.parserOf t = g'.parserOf t
  unknown : g.addUnknown = g'.addUnknown

variable {g g' : Generated σ} {f : Format σ} {tag : Nat}
  {add : σ → UInt32 → σ} {room : σ → Nat}

/-- The loops agree on streams with fewer than `n` bytes. -/
def AgreeBelow (g g' : Generated σ) (n : Nat) : Prop :=
  ∀ fuel fuel' msg (s : CodedInputStream), s.bufferSize < n →
    s.bufferSize < fuel → s.bufferSize < fuel' →
      s.legitimateMessageEnd = false →
        g.mergeLoop fuel msg s = g'.mergeLoop fuel' msg s

/-- Elements that are read on are elements that the switch would read. -/
theorem Shortcut.readReserved_eq
    (h : Shortcut g g' tag add room) (hf : Implements g' f)
    {n fuel : Nat} (hagree : AgreeBelow g g' n) (count : Nat)
    {fuel' : Nat} (msg : σ) (s : CodedInputStream) (hn : s.bufferSize < n)
    (hfuel : s.bufferSize < fuel) (hfuel' : s.bufferSize < fuel')
    (hlegit : s.legitimateMessageEnd = false) :
    (readReserved tag add count msg s).bind
        (fun e => g.mergeLoop fuel e.1 e.2) =
      g'.mergeLoop fuel' msg s := by
  induction count generalizing fuel' msg s with
  | zero =>
      exact hagree fuel fuel' msg s hn hfuel hfuel' hlegit
  | succ count ih =>
      obtain ⟨hlow, hhigh⟩ := hf.small tag _ h.plain
      rw [readReserved]
      cases hbuffer : s.buffer with
      | nil =>
          simp only [CodedInputStream.expectTag, hbuffer]
          exact hagree fuel fuel' msg s hn hfuel hfuel' hlegit
      | cons b bs =>
          have hsize : s.bufferSize = bs.length + 1 := by
            rw [CodedInputStream.bufferSize, hbuffer]
            rfl
          by_cases hb : b.toNat = tag
          · have hlast : b < 0x80 := by
              rw [UInt8.lt_iff_toNat_lt]
              exact Nat.lt_of_le_of_lt (hb ▸ hhigh) (by decide)
            have htag : CodedInputStream.tagOf s.buffer = (tag, bs) := by
              rw [hbuffer, CodedInputStream.tagOf_small hlast, hb]
            obtain ⟨fuel', rfl⟩ : ∃ k, fuel' = k + 1 :=
              Nat.exists_eq_add_one.mpr (by omega)
            rw [g'.mergeLoop_turn fuel' msg s (by rw [htag]; omega), htag]
            simp only [CodedInputStream.expectTag, hbuffer, if_pos hb,
              s.advance_one hbuffer]
            rw [Generated.readField,
              if_pos (decide_eq_true (And.intro hlow hhigh)), h.plain]
            dsimp only
            rw [readUInt32, readVarint32_varintOf]
            cases hvalue : varintOf bs with
            | none =>
                rfl
            | some e =>
                obtain ⟨value, rest⟩ := e
                have hless := (varintOf_some hvalue).1
                simp only [Option.map_some, Option.bind_some]
                exact ih (add msg (UInt32.ofNat value))
                  { s with buffer := rest }
                  (show rest.length < n by omega)
                  (show rest.length < fuel by omega)
                  (show rest.length < fuel' by omega) hlegit
          · simp only [CodedInputStream.expectTag, hbuffer, if_neg hb]
            exact hagree fuel fuel' msg s hn hfuel hfuel' hlegit

theorem Shortcut.agree
    (h : Shortcut g g' tag add room) (hf : Implements g' f) (n : Nat) :
    AgreeBelow g g' n := by
  induction n with
  | zero =>
      intro fuel fuel' msg s hn
      exact absurd hn (Nat.not_lt_zero _)
  | succ n ih =>
      intro fuel fuel' msg s hn hfuel hfuel' hlegit
      have hzero' := hf.parserOf_zero
      have hzero : g.parserOf 0 = none := by
        rw [h.other 0 (hf.small tag _ h.plain).1.ne, hzero']
      obtain ⟨fuel, rfl⟩ : ∃ k, fuel = k + 1 :=
        Nat.exists_eq_add_one.mpr (by omega)
      obtain ⟨fuel', rfl⟩ : ∃ k, fuel' = k + 1 :=
        Nat.exists_eq_add_one.mpr (by omega)
      by_cases hstop : (CodedInputStream.tagOf s.buffer).1 = 0
      · rw [g.mergeLoop_stop hzero fuel msg s hstop,
          g'.mergeLoop_stop hzero' fuel' msg s hstop]
      have hshort := (tagOf_some hstop).1
      have hlt := CodedInputStream.tagOf_lt s.buffer
      rw [CodedInputStream.bufferSize] at hn hfuel hfuel'
      rw [g.mergeLoop_turn fuel msg s hstop,
        g'.mergeLoop_turn fuel' msg s hstop]
      generalize CodedInputStream.tagOf s.buffer = front at *
      obtain ⟨first, bs⟩ := front
      dsimp only at hstop hshort hlt ⊢
      by_cases hfirst : first = tag
      · -- the repeated field: one element, and those that are read on
        obtain ⟨hlow, hhigh⟩ := hf.small tag _ h.plain
        rw [hfirst, Generated.readField, Generated.readField,
          if_pos (decide_eq_true (And.intro hlow hhigh)), h.fast,
          if_pos (decide_eq_true (And.intro hlow hhigh)), h.plain]
        dsimp only
        rw [readRepeated, readUInt32, readVarint32_varintOf]
        cases hvalue : varintOf bs with
        | none =>
            rfl
        | some e =>
            obtain ⟨value, rest⟩ := e
            have hless := (varintOf_some hvalue).1
            simp only [Option.map_some, Option.bind_some]
            exact h.readReserved_eq hf ih _ (add msg (UInt32.ofNat value))
              { s with buffer := rest }
              (show rest.length < n by omega)
              (show rest.length < fuel by omega)
              (show rest.length < fuel' by omega) hlegit
      · -- any other field is read alike
        have hsame : g.readField first = g'.readField first := by
          rw [Generated.readField, Generated.readField,
            h.other first hfirst]
          have hunusual : g.handleUnusual = g'.handleUnusual := by
            unfold Generated.handleUnusual
            rw [h.unknown]
          rw [hunusual]
        rw [hsame, hf.readField_eq hlt msg { s with buffer := bs } hlegit]
        cases hbody : f.bodyOf false s.recursionBudget first bs with
        | none =>
            rfl
        | some e =>
            obtain ⟨field, rest⟩ := e
            have hless := f.bodyOf_shorter hbody
            rw [Option.bind_some]
            dsimp only
            cases f.apply s.recursionBudget msg field with
            | none =>
                rfl
            | some msg' =>
                exact ih fuel fuel' msg' { s with buffer := rest }
                  (show rest.length < n by omega)
                  (show rest.length < fuel by omega)
                  (show rest.length < fuel' by omega) hlegit

/-- However much room there is, the parser makes the same of the input. -/
theorem Shortcut.merges
    (h : Shortcut g g' tag add room) (hf : Implements g' f) :
    Merges g f := by
  intro msg s hlegit
  have hsame : g.mergePartialFromCodedStream msg s =
      g'.mergePartialFromCodedStream msg s :=
    h.agree hf (s.bufferSize + 1) _ _ msg s (Nat.lt_succ_self _)
      (Nat.lt_succ_self _) (Nat.lt_succ_self _) hlegit
  rw [hsame]
  exact hf.merges msg s hlegit

end Shortcut

end Wire
end NetEngine
