import Mathlib.Tactic.Ring
import Mathlib.Tactic.SplitIfs
import NetEngine.Unity.ProtoSerialize

/-!
# CodedInputStream

The stream of io/coded_stream.h over an array, which is how `ParseFromArray`
reads.  There is no underlying stream, so `Refresh` always fails: what is not
between `buffer_` and `buffer_end_` is out of reach.

Varints are read in two ways.  Where the buffer is long enough, or ends with a
byte that ends a varint, an unrolled reader follows the pointer without checks;
otherwise a loop checks every byte.  Both read what `readVarint` reads from the
buffer and the unrolled one stays inside it (`readVarint64Fallback_eq`).

Arrays of `INT_MAX` bytes or more are left out.
-/

namespace NetEngine
namespace Wire

open LockStep Unity

def kMaxVarintBytes : Nat :=
  10

def kMaxVarint32Bytes : Nat :=
  5

/-- Largest `int`. -/
def INT_MAX : Nat :=
  2 ^ 31 - 1

structure CodedInputStream where
  /-- The bytes from `buffer_` to `buffer_end_`. -/
  buffer : List UInt8
  /-- The bytes behind the current limit. -/
  afterLimit : List UInt8 := []
  /-- What lies behind the array. -/
  beyond : Memory UInt8 := fun _ => 0
  legitimateMessageEnd : Bool := false
  recursionBudget : Nat := 100

/-- `CodedInputStream(buffer, size)`. -/
def CodedInputStream.ofArray (data : Memory UInt8) (size : Nat) :
    CodedInputStream :=
  { buffer := data.read 0 size
    beyond := fun i => data (size + i) }

section Pointers

/--
`b = *(ptr++); part += b << shift; if (!(b & 0x80)) goto done;
part -= 0x80 << shift;` up to `n` times, with the last component telling
whether it is done.
-/
def readPart (ptr : Memory UInt8) : Nat → Nat → Nat → Nat → Nat × Nat × Bool
  | 0, _, part, pos => (part, pos, false)
  | n + 1, shift, part, pos =>
      let part := part + (ptr pos).toNat <<< shift
      if ptr pos < 0x80 then (part, pos + 1, true)
      else readPart ptr n (shift + 7) (part - 0x80 <<< shift) (pos + 1)

/-- `part0 | part1 << 28 | part2 << 56` as a `uint64`. -/
def joinParts (part0 part1 part2 : Nat) : UInt64 :=
  UInt64.ofNat (part0 ||| part1 <<< 28 ||| part2 <<< 56)

/-- `ReadVarint64FromArray`: the value and how many bytes it takes. -/
def readVarint64FromArray (ptr : Memory UInt8) : Option (UInt64 × Nat) :=
  let (part0, pos, done) := readPart ptr 4 0 0 0
  if done then some (joinParts part0 0 0, pos)
  else
    let (part1, pos, done) := readPart ptr 4 0 0 pos
    if done then some (joinParts part0 part1 0, pos)
    else
      let (part2, pos, done) := readPart ptr 2 0 0 pos
      if done then some (joinParts part0 part1 part2, pos)
      else none

/-- The bytes of a varint above its low 32 bits are read and dropped. -/
def discardVarint (ptr : Memory UInt8) : Nat → Nat → Option Nat
  | 0, _ => none
  | n + 1, pos =>
      if ptr pos < 0x80 then some (pos + 1)
      else discardVarint ptr n (pos + 1)

/-- `ReadVarint32FromArray`; the caller passes the byte at the pointer. -/
def readVarint32FromArray (firstByte : Nat) (ptr : Memory UInt8) :
    Option (UInt32 × Nat) :=
  let (result, pos, done) :=
    readPart ptr (kMaxVarint32Bytes - 1) 7 (firstByte - 0x80) 1
  if done then some (UInt32.ofNat result, pos)
  else
    (discardVarint ptr (kMaxVarintBytes - kMaxVarint32Bytes) pos).map
      (fun pos => (UInt32.ofNat result, pos))

end Pointers

/-- The loop of `ReadVarint64Slow` with `left` bytes to go. -/
def varint64Loop : Nat → Nat → Nat → List UInt8 →
    Option (UInt64 × List UInt8)
  | 0, _, _, _ => none
  | _ + 1, _, _, [] => none
  | left + 1, count, result, b :: bs =>
      let result := result ||| (b.toNat % 0x80) <<< (7 * count)
      if b < 0x80 then some (UInt64.ofNat result, bs)
      else varint64Loop left (count + 1) result bs

namespace CodedInputStream

def bufferSize (s : CodedInputStream) : Nat :=
  s.buffer.length

/-- The memory that `buffer_` points to. -/
def ptr (s : CodedInputStream) : Memory UInt8 := fun i =>
  ((s.buffer ++ s.afterLimit)[i]?).getD
    (s.beyond (i - (s.buffer ++ s.afterLimit).length))

/-- `Advance(amount)`. -/
def advance (s : CodedInputStream) (amount : Nat) : CodedInputStream :=
  { s with buffer := s.buffer.drop amount }

/-- A varint that starts here ends inside the buffer or is too long. -/
def endsVarint (s : CodedInputStream) : Bool :=
  kMaxVarintBytes ≤ s.bufferSize ||
    (s.buffer.getLast?.any (fun b => b < 0x80))

def readVarint64Slow (s : CodedInputStream) :
    Option (UInt64 × CodedInputStream) :=
  (varint64Loop kMaxVarintBytes 0 0 s.buffer).map
    (fun next => (next.1, { s with buffer := next.2 }))

def readVarint64Fallback (s : CodedInputStream) :
    Option (UInt64 × CodedInputStream) :=
  if s.endsVarint then
    (readVarint64FromArray s.ptr).map
      (fun next => (next.1, s.advance next.2))
  else s.readVarint64Slow

def readVarint64 (s : CodedInputStream) :
    Option (UInt64 × CodedInputStream) :=
  match s.buffer with
  | b :: _ =>
      if b < 0x80 then some (b.toUInt64, s.advance 1)
      else s.readVarint64Fallback
  | [] => s.readVarint64Fallback

/-- `ReadVarint32Slow`. -/
def readVarint32Slow (s : CodedInputStream) :
    Option (UInt32 × CodedInputStream) :=
  s.readVarint64Fallback.map (fun next => (next.1.toUInt32, next.2))

def readVarint32Fallback (s : CodedInputStream) (firstByteOrZero : Nat) :
    Option (UInt32 × CodedInputStream) :=
  if s.endsVarint then
    (readVarint32FromArray firstByteOrZero s.ptr).map
      (fun next => (next.1, s.advance next.2))
  else s.readVarint32Slow

def readVarint32 (s : CodedInputStream) :
    Option (UInt32 × CodedInputStream) :=
  match s.buffer with
  | b :: _ =>
      if b < 0x80 then some (b.toUInt32, s.advance 1)
      else s.readVarint32Fallback b.toNat
  | [] => s.readVarint32Fallback 0

/-- `ReadVarintSizeAsIntFallback`, both ways. -/
def readVarintSizeAsIntFallback (s : CodedInputStream) :
    Option (Nat × CodedInputStream) :=
  if s.endsVarint then
    (readVarint64FromArray s.ptr).bind (fun next =>
      if next.1.toNat > INT_MAX then none
      else some (next.1.toNat, s.advance next.2))
  else
    s.readVarint64Fallback.bind (fun next =>
      if next.1.toNat > INT_MAX then none
      else some (next.1.toNat, next.2))

def readVarintSizeAsInt (s : CodedInputStream) :
    Option (Nat × CodedInputStream) :=
  match s.buffer with
  | b :: _ =>
      if b < 0x80 then some (b.toNat, s.advance 1)
      else s.readVarintSizeAsIntFallback
  | [] => s.readVarintSizeAsIntFallback

/-- `ReadLittleEndian32` and `ReadLittleEndian64`, of `k` bytes. -/
def readLittleEndian (k : Nat) (s : CodedInputStream) :
    Option (Nat × CodedInputStream) :=
  if k ≤ s.bufferSize then
    some (leValue (s.buffer.take k), s.advance k)
  else none

/-- `ReadString` of a `uint32` length that becomes an `int`. -/
def readString (s : CodedInputStream) (size : UInt32) :
    Option (List UInt8 × CodedInputStream) :=
  if INT_MAX < size.toNat then none
  else if size.toNat ≤ s.bufferSize then
    some (s.buffer.take size.toNat, s.advance size.toNat)
  else none

/--
`ReadTagSlow`.  A varint that cannot be read gives the tag 0, which no parser
goes on from, so where the pointer is left then does not matter.
-/
def readTagSlow (s : CodedInputStream) : Nat × CodedInputStream :=
  if s.buffer = [] then (0, { s with legitimateMessageEnd := true })
  else
    match s.readVarint64 with
    | none => (0, s)
    | some (result, s') => (result.toUInt32.toNat, s')

def readTagFallback (s : CodedInputStream) (firstByteOrZero : Nat) :
    Nat × CodedInputStream :=
  if s.endsVarint then
    if firstByteOrZero = 0 then (0, s.advance 1)
    else
      match readVarint32FromArray firstByteOrZero s.ptr with
      | none => (0, s)
      | some (tag, used) => (tag.toNat, s.advance used)
  else if s.buffer = [] then
    (0, { s with legitimateMessageEnd := true })
  else s.readTagSlow

/-- `ReadTag`; the caller gets the tag that `last_tag_` becomes. -/
def readTag (s : CodedInputStream) : Nat × CodedInputStream :=
  match s.buffer with
  | b :: _ =>
      if b < 0x80 then (b.toNat, s.advance 1)
      else s.readTagFallback b.toNat
  | [] => s.readTagFallback 0

/-- The tag and whether it is one of 1 to `cutoff`. -/
def readTagWithCutoffNoLastTag (s : CodedInputStream) (cutoff : Nat) :
    (Nat × Bool) × CodedInputStream :=
  let fallback (firstByteOrZero : Nat) :=
    let (tag, s') := s.readTagFallback firstByteOrZero
    ((tag, ((tag + (2 ^ 32 - 1)) % 2 ^ 32 < cutoff : Bool)), s')
  match s.buffer with
  | [] => fallback 0
  | b :: bs =>
      if 0 < b ∧ b < 0x80 then
        ((b.toNat, (0x7f ≤ cutoff || b.toNat ≤ cutoff : Bool)), s.advance 1)
      else
        match bs with
        | b' :: _ =>
            if 0x80 ≤ cutoff ∧ 0x80 ≤ b ∧ b' < 0x80 then
              let tag := 0x80 * b'.toNat + (b.toNat - 0x80)
              ((tag, (0x3fff ≤ cutoff || tag ≤ cutoff : Bool)), s.advance 2)
            else fallback b.toNat
        | [] => fallback b.toNat

/-- `ExpectTag` of a tag of one byte. -/
def expectTag (s : CodedInputStream) (expected : Nat) :
    Option CodedInputStream :=
  match s.buffer with
  | b :: _ => if b.toNat = expected then some (s.advance 1) else none
  | [] => none

/--
`PushLimit`.  A limit is given by how many bytes of the array lie behind it; one
that is not before the current limit leaves that in force.
-/
def pushLimit (s : CodedInputStream) (byteLimit : Nat) :
    Nat × CodedInputStream :=
  (s.afterLimit.length,
    if byteLimit < s.bufferSize then
      { s with
        buffer := s.buffer.take byteLimit
        afterLimit := s.buffer.drop byteLimit ++ s.afterLimit }
    else s)

def popLimit (s : CodedInputStream) (limit : Nat) : CodedInputStream :=
  let bytes := s.buffer ++ s.afterLimit
  { s with
    buffer := bytes.take (bytes.length - limit)
    afterLimit := bytes.drop (bytes.length - limit)
    legitimateMessageEnd := false }

end CodedInputStream

section Varints

/-- A varint is read off the front of the input. -/
theorem readVarint_suffix
    {fuel n : Nat} {bs rest : List UInt8}
    (h : readVarint fuel bs = some (n, rest)) :
    ∃ b used, bs = b :: used ++ rest := by
  induction fuel generalizing bs n with
  | zero =>
      cases bs <;> cases h
  | succ fuel ih =>
      cases bs with
      | nil =>
          cases h
      | cons b bs =>
          rw [readVarint] at h
          split_ifs at h with hb
          · cases h
            exact ⟨b, [], rfl⟩
          · cases hnext : readVarint fuel bs with
            | none =>
                rw [hnext] at h
                cases h
            | some next =>
                obtain ⟨m, rest'⟩ := next
                rw [hnext] at h
                cases h
                obtain ⟨c, used, rfl⟩ := ih hnext
                exact ⟨b, c :: used, rfl⟩

theorem readVarint_shorter
    {fuel n : Nat} {bs rest : List UInt8}
    (h : readVarint fuel bs = some (n, rest)) :
    rest.length < bs.length := by
  obtain ⟨b, used, rfl⟩ := readVarint_suffix h
  rw [List.length_append, List.length_cons]
  omega

/-- What follows a varint does not change it. -/
theorem readVarint_append
    {fuel n : Nat} {bs rest : List UInt8}
    (h : readVarint fuel bs = some (n, rest)) (more : List UInt8) :
    readVarint fuel (bs ++ more) = some (n, rest ++ more) := by
  induction fuel generalizing bs n with
  | zero =>
      cases bs <;> cases h
  | succ fuel ih =>
      cases bs with
      | nil =>
          cases h
      | cons b bs =>
          rw [readVarint] at h
          rw [List.cons_append, readVarint]
          split_ifs at h ⊢ with hb
          · cases h
            rfl
          · cases hnext : readVarint fuel bs with
            | none =>
                rw [hnext] at h
                cases h
            | some next =>
                obtain ⟨m, rest'⟩ := next
                rw [hnext] at h
                cases h
                rw [ih hnext]

/-- A longer limit does not change a varint. -/
theorem readVarint_fuel
    {fuel fuel' n : Nat} {bs rest : List UInt8}
    (h : readVarint fuel bs = some (n, rest)) (hle : fuel ≤ fuel') :
    readVarint fuel' bs = some (n, rest) := by
  induction fuel generalizing fuel' bs n with
  | zero =>
      cases bs <;> cases h
  | succ fuel ih =>
      obtain ⟨fuel', rfl⟩ : ∃ k, fuel' = k + 1 :=
        Nat.exists_eq_add_one.mpr (by omega)
      cases bs with
      | nil =>
          cases h
      | cons b bs =>
          rw [readVarint] at h ⊢
          split_ifs at h ⊢ with hb
          · exact h
          · cases hnext : readVarint fuel bs with
            | none =>
                rw [hnext] at h
                cases h
            | some next =>
                obtain ⟨m, rest'⟩ := next
                rw [hnext] at h
                cases h
                rw [ih hnext (by omega)]

/-- The bytes settle what a varint of at most `fuel` bytes is. -/
def Settles (fuel : Nat) (bs : List UInt8) : Prop :=
  fuel ≤ bs.length ∨ ∃ b, bs.getLast? = some b ∧ b < 128

/-- No continuation makes a varint of bytes that settle that there is none. -/
theorem readVarint_append_none
    {fuel : Nat} {bs : List UInt8} (hsettles : Settles fuel bs)
    (h : readVarint fuel bs = none) (more : List UInt8) :
    readVarint fuel (bs ++ more) = none := by
  induction fuel generalizing bs with
  | zero =>
      cases hbs : bs ++ more <;> rfl
  | succ fuel ih =>
      cases bs with
      | nil =>
          rcases hsettles with hlen | ⟨b, hlast, -⟩
          · simp at hlen
          · cases hlast
      | cons b bs =>
          rw [readVarint] at h
          rw [List.cons_append, readVarint]
          split_ifs at h ⊢ with hb
          have hnext : readVarint fuel bs = none := by
            cases hrest : readVarint fuel bs with
            | none =>
                rfl
            | some next =>
                rw [hrest] at h
                cases h
          have htail : Settles fuel bs := by
            rcases hsettles with hlen | ⟨c, hlast, hc⟩
            · exact Or.inl (by simpa using hlen)
            · refine Or.inr ⟨c, ?_, hc⟩
              cases bs with
              | nil =>
                  -- the only byte goes on, so it is not the last of a varint
                  cases Option.some.inj hlast
                  exact absurd hc hb
              | cons b' bs =>
                  simpa using hlast
          rw [ih htail hnext]

/-- Two inputs that go on to the same bytes have the same varint in front. -/
theorem readVarint_congr
    {fuel : Nat} {xs ys xs' ys' : List UInt8} (hxs : Settles fuel xs)
    (hys : Settles fuel ys) (heq : xs ++ xs' = ys ++ ys') :
    (readVarint fuel xs).map (fun e => (e.1, xs.length - e.2.length)) =
      (readVarint fuel ys).map (fun e => (e.1, ys.length - e.2.length)) := by
  cases hx : readVarint fuel xs with
  | none =>
      cases hy : readVarint fuel ys with
      | none =>
          rfl
      | some next =>
          have hnone := readVarint_append_none hxs hx xs'
          rw [heq, readVarint_append hy ys'] at hnone
          cases hnone
  | some next =>
      have hread := readVarint_append hx xs'
      cases hy : readVarint fuel ys with
      | none =>
          rw [heq, readVarint_append_none hys hy ys'] at hread
          cases hread
      | some next' =>
          obtain ⟨n, rest⟩ := next
          obtain ⟨n', rest'⟩ := next'
          rw [heq, readVarint_append hy ys'] at hread
          obtain ⟨rfl, hrest⟩ := Prod.mk.inj (Option.some.inj hread)
          have hlen := congrArg List.length hrest
          have htotal := congrArg List.length heq
          simp only [List.length_append] at hlen htotal
          obtain ⟨b, used, rfl⟩ := readVarint_suffix hx
          obtain ⟨b', used', rfl⟩ := readVarint_suffix hy
          simp only [List.length_append, List.length_cons] at htotal ⊢
          simp only [Option.map_some, Option.some.injEq, Prod.mk.injEq,
            true_and]
          omega

/-- The checked loop reads a varint. -/
theorem varint64Loop_eq
    (left count : Nat) {result : Nat} (hresult : result < 2 ^ (7 * count))
    (bs : List UInt8) :
    varint64Loop left count result bs =
      (readVarint left bs).map
        (fun e => (UInt64.ofNat (result + e.1 <<< (7 * count)), e.2)) := by
  induction left generalizing count result bs with
  | zero =>
      cases bs <;> rfl
  | succ left ih =>
      cases bs with
      | nil =>
          rfl
      | cons b bs =>
          have hjoin (m : Nat) : result ||| m <<< (7 * count) =
              result + m <<< (7 * count) := by
            rw [Nat.or_comm, ← Nat.shiftLeft_add_eq_or_of_lt hresult,
              Nat.add_comm]
          have hb := b.toNat_lt
          rw [varint64Loop, readVarint]
          by_cases hlast : b < 0x80
          · have hsmall : b.toNat < 128 := UInt8.lt_iff_toNat_lt.mp hlast
            rw [if_pos hlast, if_pos hlast, hjoin, Option.map_some,
              Nat.mod_eq_of_lt hsmall]
          · have hlarge : 128 ≤ b.toNat :=
              Nat.le_of_not_lt fun h => hlast (UInt8.lt_iff_toNat_lt.mpr h)
            have hmod : b.toNat % 0x80 = b.toNat - 128 := by
              omega
            have hpow : 2 ^ (7 * (count + 1)) = 2 ^ (7 * count) * 128 := by
              rw [Nat.mul_succ, Nat.pow_add]
            have hnext : result + (b.toNat - 128) <<< (7 * count) <
                2 ^ (7 * (count + 1)) := by
              rw [Nat.shiftLeft_eq, hpow]
              have hle : (b.toNat - 128) * 2 ^ (7 * count) ≤
                  127 * 2 ^ (7 * count) :=
                Nat.mul_le_mul_right _ (by omega)
              omega
            rw [if_neg hlast, if_neg hlast, hjoin, hmod, ih _ hnext]
            cases readVarint left bs with
            | none =>
                rfl
            | some next =>
                simp only [Option.map_some, Option.some.injEq, Prod.mk.injEq,
                  and_true]
                congr 1
                rw [Nat.shiftLeft_eq, Nat.shiftLeft_eq, Nat.shiftLeft_eq, hpow,
                  Nat.add_mul]
                ring

end Varints

section Unrolled

variable (ptr : Memory UInt8)

/-- The part that is there already and the shift can be left for the end. -/
theorem readPart_eq (n shift part pos : Nat) :
    readPart ptr n shift part pos =
      (part + (readPart ptr n 0 0 pos).1 <<< shift,
        (readPart ptr n 0 0 pos).2) := by
  induction n generalizing shift part pos with
  | zero =>
      simp [readPart]
  | succ n ih =>
      rw [readPart, readPart]
      by_cases hlast : ptr pos < 0x80
      · simp [hlast]
      · have hlarge : 128 ≤ (ptr pos).toNat :=
          Nat.le_of_not_lt fun h => hlast (UInt8.lt_iff_toNat_lt.mpr h)
        simp only [if_neg hlast]
        rw [ih (shift + 7), ih (0 + 7)]
        congr 1
        simp only [Nat.shiftLeft_eq, Nat.pow_add, Nat.pow_zero, Nat.mul_one,
          Nat.zero_add]
        have hle : 128 * 2 ^ shift ≤ (ptr pos).toNat * 2 ^ shift :=
          Nat.mul_le_mul_right _ hlarge
        rw [Nat.add_mul, Nat.sub_mul, Nat.mul_assoc,
          Nat.mul_comm (2 ^ 7) (2 ^ shift), Nat.add_sub_assoc hle,
          Nat.add_assoc]

/-- Seven bits of every byte count. -/
theorem readPart_lt (n pos : Nat) :
    (readPart ptr n 0 0 pos).1 < 2 ^ (7 * n) := by
  induction n generalizing pos with
  | zero =>
      exact Nat.one_pos
  | succ n ih =>
      have hbyte := (ptr pos).toNat_lt
      have hpow : 2 ^ (7 * (n + 1)) = 128 * 2 ^ (7 * n) := by
        rw [Nat.mul_succ, Nat.pow_add, Nat.mul_comm]
      have hone : 1 ≤ 2 ^ (7 * n) := Nat.one_le_two_pow
      rw [readPart]
      by_cases hlast : ptr pos < 0x80
      · have hsmall : (ptr pos).toNat < 128 := UInt8.lt_iff_toNat_lt.mp hlast
        simp only [if_pos hlast, Nat.shiftLeft_zero, Nat.zero_add]
        omega
      · have hrest := ih (pos + 1)
        simp only [if_neg hlast]
        rw [readPart_eq]
        simp only [Nat.zero_add, Nat.shiftLeft_eq]
        omega

/-- A part and then a varint make a varint. -/
theorem readVarint_readPart (k n pos : Nat) :
    readVarint (k + n) (ptr.read pos (k + n)) =
      if (readPart ptr k 0 0 pos).2.2 then
        some ((readPart ptr k 0 0 pos).1,
          ptr.read (readPart ptr k 0 0 pos).2.1
            (pos + (k + n) - (readPart ptr k 0 0 pos).2.1))
      else
        (readVarint n (ptr.read (readPart ptr k 0 0 pos).2.1 n)).map
          (fun e => ((readPart ptr k 0 0 pos).1 + e.1 <<< (7 * k), e.2)) := by
  induction k generalizing pos with
  | zero =>
      simp [readPart]
  | succ k ih =>
      have hshape : k + 1 + n = k + n + 1 := by
        omega
      rw [hshape, Memory.read_succ, readVarint, readPart]
      by_cases hlast : ptr pos < 0x80
      · have hrest : pos + (k + n + 1) - (pos + 1) = k + n := by
          omega
        simp only [if_pos hlast, if_true, Nat.shiftLeft_zero, Nat.zero_add,
          hrest]
      · simp only [if_neg hlast]
        rw [readPart_eq ptr k (0 + 7), ih]
        by_cases hdone : (readPart ptr k 0 0 (pos + 1)).2.2 = true
        · have hrest : pos + 1 + (k + n) = pos + (k + n + 1) := by
            omega
          simp only [hdone, if_true, hrest]
          simp [Nat.shiftLeft_eq, Nat.mul_comm]
        · simp only [hdone]
          cases readVarint n
            (ptr.read (readPart ptr k 0 0 (pos + 1)).2.1 n) with
          | none =>
              rfl
          | some next =>
              simp [Nat.shiftLeft_eq, Nat.mul_succ, Nat.pow_add]
              ring

/-- A part takes as many bytes as it may, unless it is done. -/
theorem readPart_pos (n shift part pos : Nat) :
    pos ≤ (readPart ptr n shift part pos).2.1 ∧
      (readPart ptr n shift part pos).2.1 ≤ pos + n ∧
      ((readPart ptr n shift part pos).2.2 = false →
        (readPart ptr n shift part pos).2.1 = pos + n) := by
  induction n generalizing shift part pos with
  | zero =>
      exact ⟨Nat.le_refl _, Nat.le_refl _, fun _ => rfl⟩
  | succ n ih =>
      rw [readPart]
      by_cases hlast : ptr pos < 0x80
      · simp [hlast]
      · obtain ⟨hlow, hhigh, hall⟩ := ih (shift + 7)
          (part + (ptr pos).toNat <<< shift - 0x80 <<< shift) (pos + 1)
        simp only [if_neg hlast]
        exact ⟨by omega, by omega, fun h => by rw [hall h]; omega⟩

theorem discardVarint_eq (n pos : Nat) :
    discardVarint ptr n pos =
      (readVarint n (ptr.read pos n)).map
        (fun e => pos + n - e.2.length) := by
  induction n generalizing pos with
  | zero =>
      cases ptr.read pos 0 <;> rfl
  | succ n ih =>
      rw [Memory.read_succ, discardVarint, readVarint]
      by_cases hlast : ptr pos < 0x80
      · simp only [if_pos hlast, Option.map_some, Memory.read_length]
        congr 1
        omega
      · rw [if_neg hlast, ih]
        simp only [if_neg hlast]
        cases readVarint n (ptr.read (pos + 1) n) with
        | none =>
            rfl
        | some next =>
            simp only [Option.map_some]
            congr 2
            omega

theorem joinParts_eq
    {part0 part1 : Nat} (h0 : part0 < 2 ^ 28) (h1 : part1 < 2 ^ 28)
    (part2 : Nat) :
    joinParts part0 part1 part2 =
      UInt64.ofNat (part0 + (part1 + part2 <<< 28) <<< 28) := by
  have hlow : part0 ||| part1 <<< 28 = part0 + part1 <<< 28 := by
    rw [Nat.or_comm, ← Nat.shiftLeft_add_eq_or_of_lt h0, Nat.add_comm]
  have hlt : part0 + part1 <<< 28 < 2 ^ 56 := by
    rw [Nat.shiftLeft_eq]
    omega
  have hsum : part2 <<< 56 + (part0 + part1 <<< 28) =
      part0 + (part1 + part2 <<< 28) <<< 28 := by
    simp only [Nat.shiftLeft_eq]
    omega
  rw [joinParts, hlow, Nat.or_comm, ← Nat.shiftLeft_add_eq_or_of_lt hlt, hsum]

/-- The unrolled reader reads a varint of at most ten bytes. -/
theorem readVarint64FromArray_eq :
    readVarint64FromArray ptr =
      (readVarint kMaxVarintBytes (ptr.read 0 kMaxVarintBytes)).map
        (fun e => (UInt64.ofNat e.1, kMaxVarintBytes - e.2.length)) := by
  have hfirst := readVarint_readPart ptr 4 6 0
  have hlow0 := readPart_lt ptr 4 0
  have hpos0 := readPart_pos ptr 4 0 0 0
  rw [readVarint64FromArray, kMaxVarintBytes]
  generalize readPart ptr 4 0 0 0 = first at hfirst hlow0 hpos0 ⊢
  obtain ⟨part0, pos0, done0⟩ := first
  simp only at hfirst hlow0 hpos0 ⊢
  rw [hfirst]
  cases done0 with
  | true =>
      have hused : 10 - (0 + (4 + 6) - pos0) = pos0 := by
        omega
      simp [joinParts, hused]
  | false =>
      have hat0 : pos0 = 0 + 4 := hpos0.2.2 rfl
      have hsecond := readVarint_readPart ptr 4 2 pos0
      have hlow1 := readPart_lt ptr 4 pos0
      have hpos1 := readPart_pos ptr 4 0 0 pos0
      generalize readPart ptr 4 0 0 pos0 = second at hsecond hlow1 hpos1 ⊢
      obtain ⟨part1, pos1, done1⟩ := second
      simp only [Bool.false_eq_true, if_false] at hsecond hlow1 hpos1 ⊢
      rw [hsecond]
      cases done1 with
      | true =>
          have hused : 10 - (pos0 + (4 + 2) - pos1) = pos1 := by
            omega
          have hjoin := joinParts_eq hlow0 hlow1 0
          simp only [if_true, Option.map_some, Memory.read_length, hused, hjoin,
            Nat.zero_shiftLeft, Nat.add_zero]
      | false =>
          have hat1 : pos1 = pos0 + 4 := hpos1.2.2 rfl
          have hthird := readVarint_readPart ptr 2 0 pos1
          have hpos2 := readPart_pos ptr 2 0 0 pos1
          generalize readPart ptr 2 0 0 pos1 = third at hthird hpos2 ⊢
          obtain ⟨part2, pos2, done2⟩ := third
          simp only [Bool.false_eq_true, if_false] at hthird hpos2 ⊢
          rw [hthird]
          cases done2 with
          | true =>
              have hused : 10 - (pos1 + (2 + 0) - pos2) = pos2 := by
                omega
              simp only [if_true, Option.map_some, Memory.read_length, hused,
                joinParts_eq hlow0 hlow1 part2]
          | false =>
              cases hnil : ptr.read pos2 0 with
              | nil | cons b bs =>
                  rfl

/-- So does the one for 32 bits, which drops what does not fit. -/
theorem readVarint32FromArray_eq (hfirst : 0x80 ≤ (ptr 0).toNat) :
    readVarint32FromArray (ptr 0).toNat ptr =
      (readVarint kMaxVarintBytes (ptr.read 0 kMaxVarintBytes)).map
        (fun e => (UInt32.ofNat e.1, kMaxVarintBytes - e.2.length)) := by
  have hgoes : ¬ ptr 0 < 0x80 := fun h =>
    absurd (UInt8.lt_iff_toNat_lt.mp h) (Nat.not_lt.mpr hfirst)
  have hpart : readPart ptr 5 0 0 0 =
      readPart ptr 4 7 ((ptr 0).toNat - 0x80) 1 := by
    rw [readPart]
    simp [hgoes]
  have hread := readVarint_readPart ptr 5 5 0
  have hpos := readPart_pos ptr 5 0 0 0
  rw [readVarint32FromArray, kMaxVarintBytes, kMaxVarint32Bytes]
  rw [hpart] at hread hpos
  generalize readPart ptr 4 7 ((ptr 0).toNat - 0x80) 1 = part at hread hpos ⊢
  obtain ⟨result, pos, done⟩ := part
  simp only at hread hpos ⊢
  rw [hread]
  cases done with
  | true =>
      have hused : 10 - (0 + (5 + 5) - pos) = pos := by
        omega
      simp [hused]
  | false =>
      have hat : pos = 0 + 5 := hpos.2.2 rfl
      rw [discardVarint_eq, hat]
      simp only [Bool.false_eq_true, if_false]
      cases readVarint 5 (ptr.read (0 + 5) 5) with
      | none =>
          rfl
      | some next =>
          have hwrap : UInt32.ofNat (result + next.1 <<< (7 * 5)) =
              UInt32.ofNat result := by
            apply UInt32.toNat_inj.mp
            rw [UInt32.toNat_ofNat', UInt32.toNat_ofNat', Nat.shiftLeft_eq]
            omega
          simp [hwrap]

end Unrolled

namespace CodedInputStream

variable (s : CodedInputStream)

/-- The pointer shows what is in the buffer. -/
theorem holds_ptr : s.ptr.Holds 0 s.buffer := by
  intro i hi
  rw [Nat.zero_add, ptr, List.getElem?_append_left hi,
    List.getElem?_eq_getElem hi]
  rfl

theorem endsVarint_iff :
    s.endsVarint = true ↔ Settles kMaxVarintBytes s.buffer := by
  rw [endsVarint, Bool.or_eq_true, decide_eq_true_iff, Settles, bufferSize]
  cases s.buffer.getLast? with
  | none =>
      simp
  | some b =>
      simp

/-- A pointer to the buffer has the varint in front that the buffer has. -/
theorem readVarint_ptr
    (h : s.endsVarint = true) {ptr : Memory UInt8}
    (hptr : ptr.Holds 0 s.buffer) :
    (readVarint kMaxVarintBytes (ptr.read 0 kMaxVarintBytes)).map
        (fun e => (e.1, kMaxVarintBytes - e.2.length)) =
      (readVarint kMaxVarintBytes s.buffer).map
        (fun e => (e.1, s.bufferSize - e.2.length)) := by
  have hbuffer := Memory.read_add ptr 0 s.bufferSize kMaxVarintBytes
  have hfront := Memory.read_add ptr 0 kMaxVarintBytes s.bufferSize
  rw [bufferSize, hptr.read_eq] at hbuffer
  rw [Nat.add_comm, bufferSize, hbuffer] at hfront
  have hlength : (ptr.read 0 kMaxVarintBytes).length = kMaxVarintBytes :=
    Memory.read_length _ _ _
  have hcongr := readVarint_congr 
    (Or.inl (Nat.le_of_eq hlength.symm)) (s.endsVarint_iff.mp h)
    hfront.symm
  rw [hlength] at hcongr
  exact hcongr

/-- What is left when a varint has been read. -/
theorem advance_readVarint
    {n : Nat} {rest : List UInt8}
    (h : readVarint kMaxVarintBytes s.buffer = some (n, rest)) :
    s.advance (s.bufferSize - rest.length) = { s with buffer := rest } := by
  obtain ⟨b, used, hused⟩ := readVarint_suffix h
  rw [advance, bufferSize, hused, List.length_append, Nat.add_sub_cancel,
    List.drop_left]

theorem readVarint64Slow_eq :
    s.readVarint64Slow =
      (readVarint kMaxVarintBytes s.buffer).map
        (fun e => (UInt64.ofNat e.1, { s with buffer := e.2 })) := by
  rw [readVarint64Slow, varint64Loop_eq _ _ (Nat.one_pos), Option.map_map]
  simp [Function.comp_def]

/-- Both ways give the varint that the buffer begins with. -/
theorem readVarint64Fallback_eq :
    s.readVarint64Fallback =
      (readVarint kMaxVarintBytes s.buffer).map
        (fun e => (UInt64.ofNat e.1, { s with buffer := e.2 })) := by
  rw [readVarint64Fallback]
  split_ifs with hends
  · have hptr := congrArg
      (Option.map (fun e : Nat × Nat => (UInt64.ofNat e.1, s.advance e.2)))
      (s.readVarint_ptr hends s.holds_ptr)
    rw [readVarint64FromArray_eq, Option.map_map]
    rw [Option.map_map, Option.map_map] at hptr
    refine hptr.trans ?_
    cases hread : readVarint kMaxVarintBytes s.buffer with
    | none =>
        rfl
    | some next =>
        simp [s.advance_readVarint hread]
  · exact s.readVarint64Slow_eq

theorem not_endsVarint_of_nil (h : s.buffer = []) :
    s.endsVarint = false := by
  rw [endsVarint, bufferSize, h]
  rfl

theorem ptr_zero {b : UInt8} {bs : List UInt8} (h : s.buffer = b :: bs) :
    s.ptr 0 = b := by
  rw [ptr, h]
  rfl

theorem advance_one {b : UInt8} {bs : List UInt8}
    (h : s.buffer = b :: bs) :
    s.advance 1 = { s with buffer := bs } := by
  rw [advance, h, List.drop_one]
  rfl

/-- The readers for one byte are there for speed. -/
theorem readVarint64_eq :
    s.readVarint64 =
      (readVarint kMaxVarintBytes s.buffer).map
        (fun e => (UInt64.ofNat e.1, { s with buffer := e.2 })) := by
  rw [readVarint64]
  cases hbuffer : s.buffer with
  | nil =>
      have hread := s.readVarint64Fallback_eq
      rw [hbuffer] at hread
      exact hread
  | cons b bs =>
      by_cases hlast : b < 0x80
      · have hread : readVarint kMaxVarintBytes (b :: bs) =
            some (b.toNat, bs) := if_pos hlast
        have hbyte : b.toUInt64 = UInt64.ofNat b.toNat := by
          simp
        simp only [if_pos hlast, hread, s.advance_one hbuffer, hbyte,
          Option.map_some]
      · simp only [if_neg hlast, ← hbuffer]
        exact s.readVarint64Fallback_eq

/-- The unrolled reader for 32 bits on what the stream holds. -/
theorem readVarint32FromArray_ptr
    {b : UInt8} {bs : List UInt8} (hbuffer : s.buffer = b :: bs)
    (hgoes : ¬ b < 0x80) (hends : s.endsVarint = true) :
    (readVarint32FromArray b.toNat s.ptr).map
        (fun next => (next.1, s.advance next.2)) =
      (readVarint kMaxVarintBytes s.buffer).map
        (fun e => (UInt32.ofNat e.1, { s with buffer := e.2 })) := by
  have hlarge : 0x80 ≤ (s.ptr 0).toNat := by
    rw [s.ptr_zero hbuffer]
    exact Nat.le_of_not_lt fun h => hgoes (UInt8.lt_iff_toNat_lt.mpr h)
  have hptr := congrArg
    (Option.map (fun e : Nat × Nat => (UInt32.ofNat e.1, s.advance e.2)))
    (s.readVarint_ptr hends s.holds_ptr)
  have hread := readVarint32FromArray_eq s.ptr hlarge
  rw [s.ptr_zero hbuffer] at hread
  rw [hread, Option.map_map]
  rw [Option.map_map, Option.map_map] at hptr
  refine hptr.trans ?_
  cases hfront : readVarint kMaxVarintBytes s.buffer with
  | none =>
      rfl
  | some next =>
      simp [s.advance_readVarint hfront]

theorem readVarint32Slow_eq :
    s.readVarint32Slow =
      (readVarint kMaxVarintBytes s.buffer).map
        (fun e => (UInt32.ofNat e.1, { s with buffer := e.2 })) := by
  have hwrap (n : Nat) : (UInt64.ofNat n).toUInt32 = UInt32.ofNat n := by
    simp
  rw [readVarint32Slow, s.readVarint64Fallback_eq, Option.map_map]
  simp [Function.comp_def, hwrap]

theorem readVarint32_eq :
    s.readVarint32 =
      (readVarint kMaxVarintBytes s.buffer).map
        (fun e => (UInt32.ofNat e.1, { s with buffer := e.2 })) := by
  rw [readVarint32]
  cases hbuffer : s.buffer with
  | nil =>
      have hends := s.not_endsVarint_of_nil hbuffer
      simp only [readVarint32Fallback, hends, ← hbuffer]
      exact s.readVarint32Slow_eq
  | cons b bs =>
      by_cases hlast : b < 0x80
      · have hread : readVarint kMaxVarintBytes (b :: bs) =
            some (b.toNat, bs) := if_pos hlast
        have hbyte : b.toUInt32 = UInt32.ofNat b.toNat := by
          simp
        simp only [if_pos hlast, hread, s.advance_one hbuffer, hbyte,
          Option.map_some]
      · simp only [if_neg hlast, ← hbuffer, readVarint32Fallback]
        split_ifs with hends
        · exact s.readVarint32FromArray_ptr hbuffer hlast hends
        · exact s.readVarint32Slow_eq

/-- A length has to be an `int`. -/
theorem readVarintSizeAsInt_eq :
    s.readVarintSizeAsInt =
      (readVarint kMaxVarintBytes s.buffer).bind (fun e =>
        if INT_MAX < e.1 % 2 ^ 64 then none
        else some (e.1 % 2 ^ 64, { s with buffer := e.2 })) := by
  have hslow : (s.readVarint64Fallback.bind fun next =>
      if next.1.toNat > INT_MAX then none
      else some (next.1.toNat, next.2)) =
      (readVarint kMaxVarintBytes s.buffer).bind (fun e =>
        if INT_MAX < e.1 % 2 ^ 64 then none
        else some (e.1 % 2 ^ 64, { s with buffer := e.2 })) := by
    rw [s.readVarint64Fallback_eq, Option.bind_map]
    simp
  have hfallback : s.readVarintSizeAsIntFallback =
      (s.readVarint64Fallback.bind fun next =>
        if next.1.toNat > INT_MAX then none
        else some (next.1.toNat, next.2)) := by
    rw [readVarintSizeAsIntFallback]
    split_ifs with hends
    · rw [readVarint64Fallback, if_pos hends, Option.bind_map]
      rfl
    · rfl
  rw [readVarintSizeAsInt, hfallback, hslow]
  cases hbuffer : s.buffer with
  | nil =>
      rfl
  | cons b bs =>
      by_cases hlast : b < 0x80
      · have hread : readVarint kMaxVarintBytes (b :: bs) =
            some (b.toNat, bs) := if_pos hlast
        have hbyte := b.toNat_lt
        have hmod : b.toNat % 2 ^ 64 = b.toNat :=
          Nat.mod_eq_of_lt (by omega)
        have hint : ¬ INT_MAX < b.toNat := by
          rw [INT_MAX]
          omega
        simp only [if_pos hlast, hread, s.advance_one hbuffer,
          Option.bind_some, hmod, if_neg hint]
      · simp only [if_neg hlast]

/-- An unrolled reader does not look past the buffer. -/
theorem readVarintFromArray_inside
    (h : s.endsVarint = true) {ptr : Memory UInt8}
    (hptr : ptr.Holds 0 s.buffer) :
    readVarint64FromArray ptr = readVarint64FromArray s.ptr ∧
      (0x80 ≤ (s.ptr 0).toNat →
        readVarint32FromArray (ptr 0).toNat ptr =
          readVarint32FromArray (s.ptr 0).toNat s.ptr) := by
  have hsame := (s.readVarint_ptr h hptr).trans
    (s.readVarint_ptr h s.holds_ptr).symm
  constructor
  · have hmap := congrArg
      (Option.map (fun e : Nat × Nat => (UInt64.ofNat e.1, e.2))) hsame
    rw [Option.map_map, Option.map_map] at hmap
    rw [readVarint64FromArray_eq, readVarint64FromArray_eq]
    exact hmap
  · intro hgoes
    have hmap := congrArg
      (Option.map (fun e : Nat × Nat => (UInt32.ofNat e.1, e.2))) hsame
    rw [Option.map_map, Option.map_map] at hmap
    have hpos : 0 < s.buffer.length := by
      rw [List.length_pos_iff_ne_nil]
      intro hnil
      rw [s.not_endsVarint_of_nil hnil] at h
      cases h
    have hbyte : ptr 0 = s.ptr 0 := by
      have hread := hptr 0 hpos
      rw [s.holds_ptr 0 hpos] at hread
      exact (Option.some.inj hread).symm
    rw [hbyte, readVarint32FromArray_eq s.ptr hgoes, ← hbyte,
      readVarint32FromArray_eq ptr (hbyte ▸ hgoes)]
    exact hmap

/--
Whichever way a varint is read, it is what the loop that checks every byte
reads, and the way without checks depends on no byte behind the buffer.
-/
theorem varint_paths_agree :
    s.readVarint64 = s.readVarint64Slow ∧
      s.readVarint32 =
        s.readVarint64Slow.map (fun e => (e.1.toUInt32, e.2)) ∧
      s.readVarintSizeAsInt =
        s.readVarint64Slow.bind (fun e =>
          if INT_MAX < e.1.toNat then none else some (e.1.toNat, e.2)) ∧
      (s.endsVarint = true → ∀ ptr : Memory UInt8, ptr.Holds 0 s.buffer →
        readVarint64FromArray ptr = readVarint64FromArray s.ptr ∧
          (0x80 ≤ (s.ptr 0).toNat →
            readVarint32FromArray (ptr 0).toNat ptr =
              readVarint32FromArray (s.ptr 0).toNat s.ptr)) := by
  refine ⟨?_, ?_, ?_, fun h ptr hptr => s.readVarintFromArray_inside h hptr⟩
  · rw [s.readVarint64_eq, s.readVarint64Slow_eq]
  · have hwrap (n : Nat) : (UInt64.ofNat n).toUInt32 = UInt32.ofNat n := by
      simp
    rw [s.readVarint32_eq, s.readVarint64Slow_eq, Option.map_map]
    simp [Function.comp_def, hwrap]
  · rw [s.readVarintSizeAsInt_eq, s.readVarint64Slow_eq, Option.bind_map]
    simp

section Tags

/-- The tag in front of some bytes, 0 where none can be read. -/
def tagOf (bs : List UInt8) : Nat × List UInt8 :=
  match readVarint kMaxVarintBytes bs with
  | none => (0, bs)
  | some (n, rest) => (n % 2 ^ 32, rest)

/-- The next tag; at the end of the buffer the message ends as it may. -/
def nextTag (s : CodedInputStream) : Nat × CodedInputStream :=
  if s.buffer = [] then (0, { s with legitimateMessageEnd := true })
  else ((tagOf s.buffer).1, { s with buffer := (tagOf s.buffer).2 })

theorem tagOf_small {b : UInt8} (hlast : b < 0x80) (bs : List UInt8) :
    tagOf (b :: bs) = (b.toNat, bs) := by
  have hread : readVarint kMaxVarintBytes (b :: bs) = some (b.toNat, bs) :=
    if_pos hlast
  have hbyte := b.toNat_lt
  rw [tagOf, hread]
  dsimp only
  rw [Nat.mod_eq_of_lt (by omega)]

theorem tagOf_lt (bs : List UInt8) : (tagOf bs).1 < 2 ^ 32 := by
  rw [tagOf]
  split
  · exact Nat.two_pow_pos 32
  · exact Nat.mod_lt _ (Nat.two_pow_pos 32)

theorem readTagSlow_eq : s.readTagSlow = s.nextTag := by
  have hwrap (n : Nat) :
      (UInt64.ofNat n).toUInt32.toNat = n % 2 ^ 32 := by
    simp
  rw [readTagSlow, nextTag]
  split_ifs with hnil
  · rfl
  · rw [s.readVarint64_eq, tagOf]
    cases readVarint kMaxVarintBytes s.buffer with
    | none =>
        rfl
    | some next =>
        simp only [Option.map_some, hwrap]

/-- The callers pass the byte at the pointer if it is 0 or goes on. -/
theorem readTagFallback_nil (h : s.buffer = []) (first : Nat) :
    s.readTagFallback first = s.nextTag := by
  rw [readTagFallback, s.not_endsVarint_of_nil h, nextTag]
  simp [h]

theorem readTagFallback_cons
    {b : UInt8} {bs : List UInt8} (h : s.buffer = b :: bs)
    (hfirst : b = 0 ∨ ¬ b < 0x80) :
    s.readTagFallback b.toNat = s.nextTag := by
  have hne : s.buffer ≠ [] := by
    rw [h]
    exact List.cons_ne_nil b bs
  rw [readTagFallback, if_neg hne]
  split_ifs with hends hzero
  · have hb : b = 0 := UInt8.toNat_inj.mp hzero
    have hlast : b < 0x80 := by
      rw [hb]
      decide
    rw [nextTag, if_neg hne, s.advance_one h, h, tagOf_small hlast, hb]
    rfl
  · have hgoes : ¬ b < 0x80 := by
      refine hfirst.resolve_left fun hb => hzero ?_
      rw [hb]
      rfl
    have hread := s.readVarint32FromArray_ptr h hgoes hends
    have hwrap (n : Nat) : (UInt32.ofNat n).toNat = n % 2 ^ 32 :=
      UInt32.toNat_ofNat'
    rw [nextTag, if_neg hne, tagOf]
    cases harray : readVarint32FromArray b.toNat s.ptr with
    | none =>
        rw [harray] at hread
        rw [Option.map_eq_none_iff.mp hread.symm]
    | some next =>
        rw [harray] at hread
        obtain ⟨e, he, heq⟩ := Option.map_eq_some_iff.mp hread.symm
        obtain ⟨htag, hrest⟩ := Prod.mk.inj heq
        rw [he]
        dsimp only
        rw [← htag, ← hrest, hwrap]
  · exact s.readTagSlow_eq

theorem readTag_eq : s.readTag = s.nextTag := by
  rw [readTag]
  cases hbuffer : s.buffer with
  | nil =>
      simp only [s.readTagFallback_nil hbuffer]
  | cons b bs =>
      by_cases hlast : b < 0x80
      · have hnext : s.nextTag = (b.toNat, s.advance 1) := by
          rw [nextTag, s.advance_one hbuffer, hbuffer, tagOf_small hlast]
          simp
        simp only [if_pos hlast, hnext]
      · simp only [if_neg hlast,
          s.readTagFallback_cons hbuffer (Or.inr hlast)]

theorem nextTag_lt : s.nextTag.1 < 2 ^ 32 := by
  rw [nextTag]
  split_ifs
  · exact Nat.two_pow_pos 32
  · exact tagOf_lt _

/-- With the cutoff of the generated parsers. -/
theorem readTagWithCutoffNoLastTag_eq :
    s.readTagWithCutoffNoLastTag 127 =
      ((s.nextTag.1, (0 < s.nextTag.1 ∧ s.nextTag.1 ≤ 127 : Bool)),
        s.nextTag.2) := by
  have hlt := s.nextTag_lt
  have hcutoff : ((s.nextTag.1 + (2 ^ 32 - 1)) % 2 ^ 32 < 127 : Bool) =
      (0 < s.nextTag.1 ∧ s.nextTag.1 ≤ 127 : Bool) := by
    rw [decide_eq_decide]
    omega
  rw [readTagWithCutoffNoLastTag]
  cases hbuffer : s.buffer with
  | nil =>
      simp only [s.readTagFallback_nil hbuffer, hcutoff]
  | cons b bs =>
      by_cases hone : 0 < b ∧ b < 0x80
      · have hnext : s.nextTag = (b.toNat, s.advance 1) := by
          rw [nextTag, s.advance_one hbuffer, hbuffer, tagOf_small hone.2]
          simp
        have hlow : 0 < b.toNat := UInt8.lt_iff_toNat_lt.mp hone.1
        have hhigh : b.toNat < 128 := UInt8.lt_iff_toNat_lt.mp hone.2
        have hbound : b.toNat ≤ 127 := by
          omega
        simp only [if_pos hone, hnext]
        simp [hlow, hbound]
      · have hfirst : b = 0 ∨ ¬ b < 0x80 := by
          by_cases hb : b = 0
          · exact Or.inl hb
          · refine Or.inr fun h => hone ⟨?_, h⟩
            exact UInt8.pos_iff_ne_zero.mpr hb
        have hfall := s.readTagFallback_cons hbuffer hfirst
        simp only [if_neg hone]
        cases bs with
        | nil =>
            simp only [hfall, hcutoff]
        | cons b' bs =>
            simp only [hfall, hcutoff]
            rw [if_neg (by omega)]

end Tags

end CodedInputStream

end Wire
end NetEngine
