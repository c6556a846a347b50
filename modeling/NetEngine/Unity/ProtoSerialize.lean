import NetEngine.LockStep.Proto

/-!
# ProtoSerialize

ProtoSerialize.cs on the message that carries keys.  Serialization belongs to
protobuf-net; a `ProtoSerialize` is what it answers, and what the client relies
on is that a serialized CSFrame deserializes to itself.

`plainSerialize` writes the fields as their contract in player.cs says: varints
in the order of their numbers, without uuid and frame id when they are zero, and
each key as a field of its own.
-/

namespace NetEngine
namespace Unity

open LockStep

/-- What protobuf-net answers for a CSFrame. -/
structure ProtoSerialize where
  serialize : CSFrame → List UInt8
  deSerialize : List UInt8 → Option CSFrame

/-- A serialized CSFrame deserializes to itself. -/
def ProtoSerialize.RoundTrip (proto : ProtoSerialize) : Prop :=
  ∀ frame, proto.deSerialize (proto.serialize frame) = some frame

section Varints

/-- A varint of at most `fuel` bytes. -/
def writeVarint : Nat → Nat → List UInt8
  | 0, _ => []
  | fuel + 1, n =>
      if n < 128 then [UInt8.ofNat n]
      else UInt8.ofNat (n % 128 + 128) :: writeVarint fuel (n / 128)

/-- Fields of a message whose fields are all varints. -/
def writeVarintFields (fields : List (Nat × Nat)) : List UInt8 :=
  fields.flatMap
    (fun field => writeVarint 10 (8 * field.1) ++ writeVarint 10 field.2)

/-- A number below 128 is a byte. -/
theorem readVarint_last
    {n : Nat} (h : n < 128) (fuel : Nat) (rest : List UInt8) :
    readVarint (fuel + 1) (UInt8.ofNat n :: rest) = some (n, rest) := by
  have hbyte : (UInt8.ofNat n).toNat = n := by
    rw [UInt8.toNat_ofNat']
    omega
  have hlow : UInt8.ofNat n < 128 := by
    rw [UInt8.lt_iff_toNat_lt, hbyte]
    exact h
  rw [readVarint, if_pos hlow, hbyte]

theorem readVarint_writeVarint
    {fuel n : Nat} (h : n < 128 ^ (fuel + 1)) (rest : List UInt8) :
    readVarint (fuel + 1) (writeVarint (fuel + 1) n ++ rest) =
      some (n, rest) := by
  induction fuel generalizing n with
  | zero =>
      have hsmall : n < 128 := by
        omega
      rw [writeVarint, if_pos hsmall]
      exact readVarint_last hsmall 0 rest
  | succ fuel ih =>
      by_cases hsmall : n < 128
      · rw [writeVarint, if_pos hsmall]
        exact readVarint_last hsmall _ rest
      · have hbyte : (UInt8.ofNat (n % 128 + 128)).toNat = n % 128 + 128 := by
          rw [UInt8.toNat_ofNat']
          omega
        have hhigh : ¬ UInt8.ofNat (n % 128 + 128) < 128 := by
          rw [UInt8.lt_iff_toNat_lt, hbyte]
          exact Nat.not_lt.mpr (Nat.le_add_left _ _)
        have hrest := ih (n := n / 128) (by
          rw [Nat.div_lt_iff_lt_mul (by decide), ← Nat.pow_succ]
          exact h)
        rw [writeVarint, if_neg hsmall, List.cons_append, readVarint,
          if_neg hhigh, hrest, hbyte]
        dsimp only
        rw [Nat.add_sub_cancel, Nat.mod_add_div]

/-- Field numbers and values that fit a varint of ten bytes. -/
def Writable (fields : List (Nat × Nat)) : Prop :=
  ∀ field ∈ fields, 0 < field.1 ∧ 8 * field.1 < 128 ^ 10 ∧
    field.2 < 128 ^ 10

theorem readVarintFields_writeVarintFields
    {fields : List (Nat × Nat)} (h : Writable fields) {fuel : Nat}
    (hfuel : fields.length ≤ fuel) :
    readVarintFields fuel (writeVarintFields fields) = some fields := by
  induction fields generalizing fuel with
  | nil =>
      cases fuel with
      | zero | succ fuel =>
          rfl
  | cons field fields ih =>
      obtain ⟨⟨hpos, hnumber, hvalue⟩, hfields⟩ := List.forall_mem_cons.mp h
      obtain ⟨fuel, rfl⟩ : ∃ k, fuel = k + 1 :=
        Nat.exists_eq_add_one.mpr (by simp at hfuel; omega)
      have hrest := ih hfields (show fields.length ≤ fuel by simpa using hfuel)
      have hwrite : writeVarintFields (field :: fields) =
          writeVarint 10 (8 * field.1) ++
            (writeVarint 10 field.2 ++ writeVarintFields fields) := by
        rw [writeVarintFields, List.flatMap_cons, List.append_assoc]
        rfl
      have hvalid : ¬ (8 * field.1 % 8 ≠ 0 ∨ 8 * field.1 / 8 = 0) := by
        omega
      have hdiv : 8 * field.1 / 8 = field.1 := by
        omega
      have hread := readVarint_writeVarint hnumber
        (writeVarint 10 field.2 ++ writeVarintFields fields)
      rw [hwrite]
      cases hbytes : writeVarint 10 (8 * field.1) ++
          (writeVarint 10 field.2 ++ writeVarintFields fields) with
      | nil =>
          rw [hbytes] at hread
          cases hread
      | cons b bytes =>
          rw [hbytes] at hread
          rw [readVarintFields, hread]
          · dsimp only
            rw [if_neg hvalid, readVarint_writeVarint hvalue]
            dsimp only
            rw [hrest, hdiv]
          · simp

theorem writeVarint_length_pos (fuel n : Nat) :
    0 < (writeVarint (fuel + 1) n).length := by
  rw [writeVarint]
  split_ifs
  · exact Nat.zero_lt_one
  · exact Nat.succ_pos _

/-- Each field takes two bytes or more. -/
theorem length_writeVarintFields (fields : List (Nat × Nat)) :
    2 * fields.length ≤ (writeVarintFields fields).length := by
  induction fields with
  | nil =>
      exact Nat.le_refl _
  | cons field fields ih =>
      have htag : 0 < (writeVarint 10 (8 * field.1)).length :=
        writeVarint_length_pos 9 _
      have hvalue : 0 < (writeVarint 10 field.2).length :=
        writeVarint_length_pos 9 _
      have hwrite : (writeVarintFields (field :: fields)).length =
          (writeVarint 10 (8 * field.1)).length +
            (writeVarint 10 field.2).length +
            (writeVarintFields fields).length := by
        rw [writeVarintFields, List.flatMap_cons, List.length_append,
          List.length_append]
        rfl
      rw [hwrite, List.length_cons]
      omega

end Varints

section PlainSerialize

/-- Fields that are written: the ones that are not zero, and every key. -/
def fieldsOf (frame : CSFrame) : List (Nat × Nat) :=
  (if frame.uuid = 0 then [] else [(1, frame.uuid.toNat)]) ++
    ((if frame.frameid = 0 then [] else [(2, frame.frameid.toNat)]) ++
      frame.keyinfo.map (fun key => (3, key.toNat)))

def plainSerialize : ProtoSerialize where
  serialize := fun frame => writeVarintFields (fieldsOf frame)
  deSerialize := fun bytes =>
    (readVarintFields bytes.length bytes).map CSFrame.ofFields

theorem fieldsOf_writable (frame : CSFrame) : Writable (fieldsOf frame) := by
  have huuid := frame.uuid.toNat_lt
  have hframeid := frame.frameid.toNat_lt
  intro field hfield
  rw [fieldsOf, List.mem_append, List.mem_append] at hfield
  rcases hfield with hfield | hfield | hfield
  · split_ifs at hfield
    · cases hfield
    · cases List.mem_singleton.mp hfield
      exact ⟨Nat.zero_lt_one, by dsimp only; omega,
        by dsimp only; omega⟩
  · split_ifs at hfield
    · cases hfield
    · cases List.mem_singleton.mp hfield
      exact ⟨Nat.zero_lt_two, by dsimp only; omega,
        by dsimp only; omega⟩
  · obtain ⟨key, -, rfl⟩ := List.mem_map.mp hfield
    have hkey := key.toNat_lt
    exact ⟨Nat.zero_lt_succ _, by dsimp only; omega,
        by dsimp only; omega⟩

theorem fieldValues_append (number : Nat) (fields more : List (Nat × Nat)) :
    fieldValues number (fields ++ more) =
      fieldValues number fields ++ fieldValues number more := by
  rw [fieldValues, List.filter_append, List.map_append]
  rfl

/-- A field that is left out when it is zero. -/
theorem fieldValues_optional (number field value : Nat) (zero : Prop)
    [Decidable zero] :
    fieldValues number (if zero then [] else [(field, value)]) =
      if field = number ∧ ¬ zero then [value] else [] := by
  by_cases hzero : zero
  · rw [if_pos hzero, if_neg (by simp [hzero])]
    rfl
  · rw [if_neg hzero]
    by_cases hfield : field = number
    · rw [if_pos ⟨hfield, hzero⟩]
      simp [fieldValues, hfield]
    · rw [if_neg (by simp [hfield])]
      simp [fieldValues, hfield]

theorem fieldValues_keys (number : Nat) (keyinfo : List UInt32) :
    fieldValues number (keyinfo.map (fun key => (3, key.toNat))) =
      if number = 3 then keyinfo.map (fun key => key.toNat) else [] := by
  induction keyinfo with
  | nil =>
      split_ifs <;> rfl
  | cons key keyinfo ih =>
      have hcons : fieldValues number
          ((key :: keyinfo).map (fun key => (3, key.toNat))) =
            (if number = 3 then [key.toNat] else []) ++
              fieldValues number
                (keyinfo.map (fun key => (3, key.toNat))) := by
        by_cases hnumber : number = 3
        · simp [fieldValues, hnumber]
        · simp [fieldValues, hnumber, Ne.symm hnumber]
      rw [hcons, ih]
      split_ifs <;> rfl

/-- Reading off the fields written gives the frame. -/
theorem ofFields_fieldsOf (frame : CSFrame) :
    CSFrame.ofFields (fieldsOf frame) = frame := by
  obtain ⟨uuid, frameid, keyinfo⟩ := frame
  simp only [CSFrame.ofFields, fieldsOf, fieldValues_append,
    fieldValues_optional, fieldValues_keys]
  congr 1
  · by_cases hzero : uuid = 0
    · simp [hzero]
    · simp [hzero]
  · by_cases hzero : frameid = 0
    · simp [hzero]
    · simp [hzero]
  · simp [Function.comp_def]

/-- What the client relies on holds of the plain serializer. -/
theorem plainSerialize_roundTrip : plainSerialize.RoundTrip := by
  intro frame
  have hlength := length_writeVarintFields (fieldsOf frame)
  show (readVarintFields (writeVarintFields (fieldsOf frame)).length
    (writeVarintFields (fieldsOf frame))).map _ = _
  rw [readVarintFields_writeVarintFields (fieldsOf_writable frame) (by omega),
    Option.map_some, ofFields_fieldsOf]

/-- A frame with many keys is long. -/
theorem length_plainSerialize (frame : CSFrame) :
    2 * frame.keyinfo.length ≤ (plainSerialize.serialize frame).length := by
  refine Nat.le_trans ?_ (length_writeVarintFields (fieldsOf frame))
  rw [fieldsOf, List.length_append, List.length_append, List.length_map]
  omega

end PlainSerialize

end Unity
end NetEngine
