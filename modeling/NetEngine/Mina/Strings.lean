import NetEngine.Mina.Contract

/-!
# Strings in a buffer

The methods of AbstractIoBuffer.cs that put strings into a buffer and get them
out, with a length in front or in a field of fixed size, `IndexOf`, and the hex
dump of IoBufferHexDumper.cs.

A string is a list of UTF-16 code units.  How strings become bytes is the
business of an `Encoding`, which belongs to the framework.
-/

namespace NetEngine
namespace Mina

open Net

/-- A `String`, as UTF-16 code units. -/
abbrev Text :=
  List UInt16

/--
An `Encoding`; `utf16` says that its name begins with "utf-16", and what it
makes of a string is an array, whose length is an `Int32`.
-/
structure Encoding where
  utf16 : Bool
  getBytes : Text → List UInt8
  getString : List UInt8 → Text
  getBytes_length : ∀ s, (getBytes s).length < 2 ^ 31

namespace Op

section Prefixed

/-- The length that `PrefixedDataAvailable` reads at the position. -/
def prefixAt (prefixLength : Int) : Op Int := do
  let v ← view
  if prefixLength = 1 then
    let b ← getAt v.buf.position
    pure b.toNat
  else if prefixLength = 2 then
    let x ← getWordAt 2 v.buf.position
    pure x.toNat
  else if prefixLength = 4 then
    let x ← getWordAt 4 v.buf.position
    pure x.toInt
  else
    throw (.argument
      ("Expect prefixLength (1,2,4) but " ++ toString prefixLength) "")

/-- `PrefixedDataAvailable(prefixLength, maxDataLength)`. -/
def prefixedDataAvailable (prefixLength maxDataLength : Int) :
    Op Bool := do
  let v ← view
  if v.buf.remaining < prefixLength then pure false
  else
    let dataLength ← prefixAt prefixLength
    if dataLength < 0 ∨ dataLength > maxDataLength then
      throw (.bufferData ("dataLength: " ++ toString dataLength))
    else pure (v.buf.remaining - prefixLength ≥ dataLength)

/-- The length that `GetPrefixedString` takes from the buffer. -/
def takePrefix (prefixLength : Int) : Op Int := do
  if prefixLength = 1 then
    let b ← get
    pure b.toNat
  else if prefixLength = 2 then
    let x ← getInt16
    pure x.toNat
  else if prefixLength = 4 then
    let x ← getInt32
    pure x.toInt
  else pure 0

/-- `GetPrefixedString(prefixLength, encoding)`. -/
def getPrefixedString (prefixLength : Int) (encoding : Encoding) :
    Op Text := do
  let available ← prefixedDataAvailable prefixLength (2 ^ 31 - 1)
  if available = false then throw .bufferUnderflow
  else
    let dataLength ← takePrefix prefixLength
    if dataLength = 0 then pure []
    else
      let bytes ← getArray (Bytes.zeros dataLength) 0 dataLength
      pure (encoding.getString (bytes.cells.read 0 bytes.length))

/-- The length that `PutPrefixedString` writes, cut to the prefix. -/
def putPrefix (prefixLength : Int) (length : Nat) : Op Unit :=
  if prefixLength = 1 then put (UInt8.ofNat length)
  else if prefixLength = 2 then putInt16 (BitVec.ofNat 16 length)
  else putInt32 (BitVec.ofNat 32 length)

/-- The longest string that a prefix is taken to allow. -/
def maxLength (prefixLength : Int) : Option Nat :=
  if prefixLength = 1 then some 255
  else if prefixLength = 2 then some 65535
  else if prefixLength = 4 then some (2 ^ 31 - 1)
  else none

/-- `PutPrefixedString(value, prefixLength, encoding)`. -/
def putPrefixedString (value : Text) (prefixLength : Int)
    (encoding : Encoding) : Op Unit :=
  match maxLength prefixLength with
  | none =>
      throw (.argument ("prefixLength: " ++ toString prefixLength) "")
  | some maxLength =>
      if value.length > maxLength then
        throw (.argument "The specified string is too long." "")
      else if value.length = 0 then putPrefix prefixLength 0
      else do
        putPrefix prefixLength (encoding.getBytes value).length
        putBytes (encoding.getBytes value)

end Prefixed

section Searching

/-- The loops of `IndexOf`: the first index from `i` on that reads `b`. -/
def indexLoop (read : Int → Op UInt8) (b : UInt8) (i : Int) :
    Nat → Op Int
  | 0 => pure (-1)
  | n + 1 => do
      let x ← read i
      if x = b then pure i else indexLoop read b (i + 1) n

/-- `IndexOf`; a buffer that shows its array is searched there. -/
def indexOf (b : UInt8) : Op Int := do
  let v ← view
  if v.buf.readOnly = false then
    let off ← offset v.buf.position
    let i ← indexLoop (fun i => getInternal (i + off)) b 0
      v.buf.remaining.toNat
    pure (if i = -1 then -1 else i + v.buf.position)
  else
    indexLoop getAt b v.buf.position
      (v.buf.limit - v.buf.position).toNat

end Searching

section Fields

/-- `PutString(s, encoding)`. -/
def putString (s : Text) (encoding : Encoding) : Op Unit :=
  if s = [] then pure () else putBytes (encoding.getBytes s)

/-- `PutString(s, fieldSize, encoding)`. -/
def putStringField (s : Text) (fieldSize : Int) (encoding : Encoding) :
    Op Unit :=
  if fieldSize < 0 then
    throw (.argument
      ("fieldSize cannot be negative: " ++ toString fieldSize) "fieldSize")
  else if fieldSize = 0 then pure ()
  else do
    autoExpandHere fieldSize
    if encoding.utf16 = true ∧ fieldSize % 2 ≠ 0 then
      throw (.argument "fieldSize is not even." "fieldSize")
    else
      let v ← view
      let oldLimit := v.buf.limit
      let endPos := int32 (v.buf.position + fieldSize)
      if oldLimit < endPos then throw .overflow
      else
        let bytes := encoding.getBytes s
        onlyIf (s ≠ []) (putArray (Bytes.ofList bytes) 0
          (if fieldSize < bytes.length then fieldSize else bytes.length))
        let v ← view
        onlyIf (v.buf.position < endPos) (do
          onlyIf (encoding.utf16 = true) (put 0x00)
          put 0x00)
        setPosition endPos

/-- The bytes from position to limit, decoded. -/
def decodeRemaining (encoding : Encoding) : Op Text := do
  let v ← view
  if v.buf.readOnly = false then
    let off ← offset v.buf.position
    let bs ← getInternals off v.buf.remaining.toNat
    pure (encoding.getString bs)
  else
    let bytes ← getArray (Bytes.zeros v.buf.remaining) 0 v.buf.remaining
    pure (encoding.getString (bytes.cells.read 0 bytes.length))

/--
The loop of `GetString` for UTF-16: where the terminator begins, if there is
one, as far as the fuel goes.  A zero behind a byte that is none moves the pair
by one byte only.
-/
def terminatorLoop (oldLimit : Int) : Nat → Int → Op (Option Int)
  | 0, _ => throw .hangs
  | fuel + 1, i => do
      let first ← getAt i
      if i + 1 ≥ oldLimit then pure none
      else
        let second ← getAt (i + 1)
        if second ≠ 0 then
          if i + 2 ≥ oldLimit then pure none
          else terminatorLoop oldLimit fuel (i + 2)
        else if first = 0 then pure (some i)
        else terminatorLoop oldLimit fuel (i + 1)

/-- Where `GetString` finds the string to end and where it goes on. -/
def stringEnd (utf16 : Bool) : Op (Int × Int) := do
  let v ← view
  if utf16 = true then
    let found ← terminatorLoop v.buf.limit
      (v.buf.limit - v.buf.position).toNat v.buf.position
    match found with
    | none =>
        let endPos :=
          v.buf.position + (v.buf.limit - v.buf.position) / 2 * 2
        pure (endPos, endPos)
    | some endPos =>
        if endPos + 2 ≤ v.buf.limit then pure (endPos, endPos + 2)
        else pure (endPos, endPos)
  else
    let endPos ← indexOf 0x00
    if endPos < 0 then pure (v.buf.limit, v.buf.limit)
    else pure (endPos, endPos + 1)

/-- `GetString(encoding)`. -/
def getString (encoding : Encoding) : Op Text := do
  let v ← view
  if v.buf.hasRemaining = false then pure []
  else
    let ends ← stringEnd encoding.utf16
    if v.buf.position = ends.1 then
      setPosition ends.2
      pure []
    else
      setLimit ends.1
      let result ← decodeRemaining encoding
      setLimit v.buf.limit
      setPosition ends.2
      pure result

/-- The loops of `GetString(fieldSize, encoding)`: where the string ends. -/
def fieldLoop (utf16 : Bool) (endPos : Int) : Nat → Int → Op Int
  | 0, i => pure i
  | n + 1, i => do
      if i < endPos then
        let first ← getAt i
        if utf16 = true then
          if first = 0 then
            let second ← getAt (i + 1)
            if second = 0 then pure i
            else fieldLoop utf16 endPos n (i + 2)
          else fieldLoop utf16 endPos n (i + 2)
        else if first = 0 then pure i
        else fieldLoop utf16 endPos n (i + 1)
      else pure i

/-- `GetString(fieldSize, encoding)`. -/
def getStringField (fieldSize : Int) (encoding : Encoding) :
    Op Text := do
  let v ← view
  if fieldSize < 0 then
    throw (.argument
      ("fieldSize cannot be negative: " ++ toString fieldSize) "fieldSize")
  else if fieldSize = 0 ∨ v.buf.hasRemaining = false then pure []
  else if encoding.utf16 = true ∧ fieldSize % 2 ≠ 0 then
    throw (.argument "fieldSize is not even." "fieldSize")
  else
    let oldPos := v.buf.position
    let oldLimit := v.buf.limit
    let endPos := int32 (oldPos + fieldSize)
    if oldLimit < endPos then throw .bufferUnderflow
    else do
      let i ← fieldLoop encoding.utf16 endPos (endPos - oldPos).toNat oldPos
      setLimit i
      let v ← view
      if v.buf.hasRemaining = false then do
        setLimit oldLimit
        setPosition endPos
        pure []
      else do
        let result ← decodeRemaining encoding
        setLimit oldLimit
        setPosition endPos
        pure result

end Fields

section Dumping

/-- The digit table of IoBufferHexDumper.cs. -/
def hexDigits : List Char :=
  ['0', '1', '2', '3', '4', '5', '6', '7', '8', '9', 'A', 'B', 'C', 'D',
    'E', 'F']

def hexByte (b : UInt8) : List Char :=
  [hexDigits.getD (b.toNat / 16) '0', hexDigits.getD (b.toNat % 16) '0']

/-- The bytes after the first, with a blank before each. -/
def dumpLoop : Nat → Op (List Char)
  | 0 => pure []
  | size + 1 => do
      let b ← get
      let rest ← dumpLoop size
      pure (' ' :: hexByte b ++ rest)

/-- `GetHexDump(lengthLimit)`, as the characters of the string. -/
def getHexDump (lengthLimit : Int) : Op (List Char) := do
  if lengthLimit ≤ 0 then
    throw (.argument ("lengthLimit: " ++ toString lengthLimit ++
      " (expected: 1+)") "")
  else
    let v ← view
    let truncate := v.buf.remaining > lengthLimit
    let size := if truncate then lengthLimit else v.buf.remaining
    if size = 0 then pure ['e', 'm', 'p', 't', 'y']
    else
      let oldPos := v.buf.position
      let b ← get
      let rest ← dumpLoop (size - 1).toNat
      setPosition oldPos
      pure (hexByte b ++ rest ++
        if truncate then ['.', '.', '.'] else [])

end Dumping

section Contract

variable {writes : Bool} {P : View → Prop}

theorem keeps_prefixAt (prefixLength : Int) :
    (contract writes).Total (prefixAt prefixLength) := by
  refine Contract.Keeps.get_bind (fun v _ _ => ?_)
  refine Contract.Keeps.ite (fun _ => ?_) (fun _ => ?_)
  · exact (keeps_getAt _).total.bind (fun _ =>
      .pure _ (fun _ _ => trivial))
  refine Contract.Keeps.ite (fun _ => ?_) (fun _ => ?_)
  · exact (keeps_getWordAt 2 _).total.bind (fun _ =>
      .pure _ (fun _ _ => trivial))
  refine Contract.Keeps.ite (fun _ => ?_) (fun _ => .throw nofun)
  exact (keeps_getWordAt 4 _).total.bind (fun _ =>
    .pure _ (fun _ _ => trivial))

theorem keeps_prefixedDataAvailable (prefixLength maxDataLength : Int) :
    (contract writes).Total (prefixedDataAvailable prefixLength maxDataLength) := by
  refine Contract.Keeps.get_bind (fun v _ _ => ?_)
  refine Contract.Keeps.ite (fun _ => .pure _ (fun _ _ => trivial))
    (fun _ => ?_)
  refine (keeps_prefixAt prefixLength).total.bind (fun _ => ?_)
  exact Contract.Keeps.ite (fun _ => .throw nofun)
    (fun _ => .pure _ (fun _ _ => trivial))

theorem zero_lt_size : (0 : Int) < 2 ^ 31 := by
  norm_num

/-- The length taken is one that an array can have. -/
theorem keeps_takePrefix (prefixLength : Int) :
    (contract writes).Keeps P (takePrefix prefixLength) (fun n _ => n < 2 ^ 31) := by
  refine Contract.Keeps.ite (fun _ => ?_) (fun _ => ?_)
  · refine keeps_get.total.bind (fun b => .pure _ (fun _ _ => ?_))
    have hlt := b.toNat_lt
    omega
  refine Contract.Keeps.ite (fun _ => ?_) (fun _ => ?_)
  · refine (keeps_getWord 2).total.bind (fun x => .pure _ (fun _ _ => ?_))
    have hlt := x.isLt
    omega
  refine Contract.Keeps.ite (fun _ => ?_)
    (fun _ => .pure _ (fun _ _ => zero_lt_size))
  refine (keeps_getWord 4).total.bind (fun x => .pure _ (fun _ _ => ?_))
  have hlt := BitVec.toInt_lt (x := x)
  norm_num at hlt
  exact hlt

theorem zeros_length_lt {n : Int} (h : n < 2 ^ 31) :
    (Bytes.zeros n).length < 2 ^ 31 := by
  show n.toNat < 2 ^ 31
  omega

theorem keeps_getPrefixedString
    (prefixLength : Int) (encoding : Encoding) :
    (contract writes).Total (getPrefixedString prefixLength encoding) := by
  refine (keeps_prefixedDataAvailable _ _).bind (fun available => ?_)
  refine Contract.Keeps.ite (fun _ => .throw nofun) (fun _ => ?_)
  refine (keeps_takePrefix prefixLength).bind (fun n => ?_)
  refine Contract.Keeps.ite (fun _ => .pure _ (fun _ _ => trivial))
    (fun _ => ?_)
  intro s hs hlt
  have harray : (contract writes).Total (getArray (Bytes.zeros n) 0 n) :=
    keeps_getArray zero_lt_size hlt (zeros_length_lt hlt)
  exact harray.bind (fun _ => .pure _ (fun _ _ => trivial)) s hs trivial

theorem keeps_putPrefix (prefixLength : Int) (length : Nat) :
    (contract true).Total (putPrefix prefixLength length) :=
  Contract.Keeps.ite (fun _ => keeps_put _)
    (fun _ => Contract.Keeps.ite (fun _ => keeps_putWord 2 _)
      (fun _ => keeps_putWord 4 _))

theorem keeps_putBytes {src : List UInt8} (hlt : src.length < 2 ^ 31) :
    (contract true).Total (putBytes src) := by
  have hlength : (Bytes.ofList src).length = src.length := rfl
  exact keeps_putArray zero_lt_size (by omega) (by omega)

theorem keeps_putPrefixedString
    (value : Text) (prefixLength : Int) (encoding : Encoding) :
    (contract true).Total (putPrefixedString value prefixLength encoding) := by
  unfold putPrefixedString
  cases maxLength prefixLength with
  | none =>
      exact .throw nofun
  | some maxLength =>
      refine Contract.Keeps.ite (fun _ => .throw nofun) (fun _ => ?_)
      refine Contract.Keeps.ite (fun _ => keeps_putPrefix _ _) (fun _ => ?_)
      exact (keeps_putPrefix _ _).bind (fun _ =>
        (keeps_putBytes (encoding.getBytes_length value)).total)

/-- A search keeps what each of its reads keeps. -/
theorem keeps_indexLoop
    {read : Int → Op UInt8} (b : UInt8) (n : Nat) (i : Int)
    (hread : ∀ k : Nat, k < n →
      (contract writes).Keeps P (read (i + k)) (fun _ => P)) :
    (contract writes).Keeps P (indexLoop read b i n) (fun _ => P) := by
  induction n generalizing i with
  | zero =>
      exact .pure _ (fun _ => id)
  | succ n ih =>
      have hfirst := hread 0 (by omega)
      rw [Nat.cast_zero, add_zero] at hfirst
      refine hfirst.bind (fun x => ?_)
      refine Contract.Keeps.ite (fun _ => .pure _ (fun _ => id))
        (fun _ => ih (i + 1) (fun k hk => ?_))
      have hnext := hread (k + 1) (by omega)
      have hshift : i + ((k + 1 : Nat) : Int) = i + 1 + k := by
        push_cast
        omega
      rwa [hshift] at hnext

theorem keeps_indexOf (b : UInt8) : (contract writes).Total (indexOf b) := by
  refine Contract.Keeps.get_bind (fun v hinv _ => ?_)
  refine Contract.Keeps.ite (fun _ => ?_) (fun _ => ?_)
  · obtain ⟨h₁, h₂, h₃, h₄, h₅, h₆⟩ := hinv.numbers
    refine Contract.Keeps.known_bind (offset_eq hinv h₃ (by omega)) ?_
    have hrem : v.buf.remaining = v.buf.limit - v.buf.position := rfl
    refine (keeps_indexLoop (P := fun s => s = v) b _ 0 ?_).bind
      (fun _ => .pure _ (fun _ _ => trivial))
    intro k hk
    have hwindow := hinv.window
    have hoffset := hinv.offset_ge
    rintro s hs rfl
    rw [getInternal, Fallible.get_bind, if_pos (by omega)]
    exact .ok hs (View.Frame.refl s) rfl
  · exact (keeps_indexLoop (P := fun _ => True) b _ _
      (fun _ _ => keeps_getAt _)).forget.weaken (fun _ _ _ => trivial)
      (fun _ _ _ _ => trivial)

theorem keeps_putString (s : Text) (encoding : Encoding) :
    (contract true).Total (putString s encoding) :=
  Contract.Keeps.ite (fun _ => .pure _ (fun _ _ => trivial))
    (fun _ => keeps_putBytes (encoding.getBytes_length s))

theorem keeps_putStringField
    (s : Text) {fieldSize : Int} (encoding : Encoding)
    (hsize : fieldSize < 2 ^ 31) :
    (contract true).Total (putStringField s fieldSize encoding) := by
  refine Contract.Keeps.ite (fun _ => .throw nofun) (fun _ => ?_)
  refine Contract.Keeps.ite (fun _ => .pure _ (fun _ _ => trivial))
    (fun _ => ?_)
  refine (keeps_autoExpandHere fieldSize).bind (fun _ => ?_)
  refine Contract.Keeps.ite (fun _ => .throw nofun) (fun _ => ?_)
  refine Contract.Keeps.get_bind (fun v _ _ => ?_)
  refine Contract.Keeps.ite (fun _ => .throw nofun) (fun _ => ?_)
  have hbytes : (contract true).Total (putArray
      (Bytes.ofList (encoding.getBytes s)) 0
      (if fieldSize < (encoding.getBytes s).length then fieldSize
        else (encoding.getBytes s).length)) := by
    have hlength : (Bytes.ofList (encoding.getBytes s)).length =
        (encoding.getBytes s).length := rfl
    have hlt := encoding.getBytes_length s
    refine keeps_putArray zero_lt_size ?_ (by omega)
    split_ifs
    · exact hsize
    · omega
  refine (total_onlyIf (fun _ => hbytes.total)).bind (fun _ => ?_)
  refine Contract.Keeps.get_bind (fun w _ _ => ?_)
  refine Contract.Keeps.bind (total_onlyIf (fun _ => ?_))
    (fun _ => (keeps_setPosition _).total)
  exact (total_onlyIf (fun _ => (keeps_put _).total)).bind
    (fun _ => (keeps_put _).total)

theorem keeps_decodeRemaining (encoding : Encoding) :
    (contract writes).Total (decodeRemaining encoding) := by
  refine Contract.Keeps.get_bind (fun v hinv _ => ?_)
  obtain ⟨h₁, h₂, h₃, h₄, h₅, h₆⟩ := hinv.numbers
  have hrem : v.buf.remaining = v.buf.limit - v.buf.position := rfl
  refine Contract.Keeps.ite (fun _ => ?_) (fun _ => ?_)
  · refine Contract.Keeps.known_bind (offset_eq hinv h₃ (by omega)) ?_
    refine Contract.Keeps.bind ((keeps_getInternals _ _).weaken ?_
      (fun _ _ _ => id)) (fun _ => .pure _ (fun _ _ => trivial))
    rintro s _ rfl
    exact ⟨by omega, by omega⟩
  · have harray : (contract writes).Total (getArray
        (Bytes.zeros v.buf.remaining) 0 v.buf.remaining) :=
      keeps_getArray zero_lt_size (by omega) (zeros_length_lt (by omega))
    exact harray.total.bind (fun _ => .pure _ (fun _ _ => trivial))

theorem keeps_terminatorLoop (oldLimit : Int) (fuel : Nat) (i : Int) :
    (contract writes).Total (terminatorLoop oldLimit fuel i) := by
  induction fuel generalizing i with
  | zero =>
      exact .throw nofun
  | succ fuel ih =>
      refine (keeps_getAt i).bind (fun first => ?_)
      refine Contract.Keeps.ite (fun _ => .pure _ (fun _ _ => trivial))
        (fun _ => ?_)
      refine (keeps_getAt (i + 1)).bind (fun second => ?_)
      refine Contract.Keeps.ite (fun _ => ?_) (fun _ => ?_)
      · exact Contract.Keeps.ite
          (fun _ => .pure _ (fun _ _ => trivial)) (fun _ => ih (i + 2))
      · exact Contract.Keeps.ite
          (fun _ => .pure _ (fun _ _ => trivial)) (fun _ => ih (i + 1))

theorem keeps_stringEnd (utf16 : Bool) :
    (contract writes).Total (stringEnd utf16) := by
  refine Contract.Keeps.get_bind (fun v _ _ => ?_)
  refine Contract.Keeps.ite (fun _ => ?_) (fun _ => ?_)
  · refine (keeps_terminatorLoop _ _ _).total.bind (fun found => ?_)
    cases found with
    | none =>
        exact .pure _ (fun _ _ => trivial)
    | some endPos =>
        exact Contract.Keeps.ite
          (fun _ => .pure _ (fun _ _ => trivial))
          (fun _ => .pure _ (fun _ _ => trivial))
  · refine (keeps_indexOf 0x00).total.bind (fun endPos => ?_)
    exact Contract.Keeps.ite
      (fun _ => .pure _ (fun _ _ => trivial))
      (fun _ => .pure _ (fun _ _ => trivial))

theorem keeps_getString (encoding : Encoding) :
    (contract writes).Total (getString encoding) := by
  refine Contract.Keeps.get_bind (fun v _ _ => ?_)
  refine Contract.Keeps.ite (fun _ => .pure _ (fun _ _ => trivial))
    (fun _ => ?_)
  refine (keeps_stringEnd _).total.bind (fun ends => ?_)
  refine Contract.Keeps.ite (fun _ => ?_) (fun _ => ?_)
  · exact (keeps_setPosition _).bind (fun _ =>
      .pure _ (fun _ _ => trivial))
  · exact (keeps_setLimit _).bind (fun _ =>
      (keeps_decodeRemaining encoding).bind (fun _ =>
        (keeps_setLimit _).bind (fun _ =>
          (keeps_setPosition _).bind (fun _ =>
            .pure _ (fun _ _ => trivial)))))

theorem keeps_fieldLoop
    (utf16 : Bool) (endPos : Int) (n : Nat) (i : Int) :
    (contract writes).Total (fieldLoop utf16 endPos n i) := by
  induction n generalizing i with
  | zero =>
      exact .pure _ (fun _ _ => trivial)
  | succ n ih =>
      refine Contract.Keeps.ite (fun _ => ?_)
        (fun _ => .pure _ (fun _ _ => trivial))
      refine (keeps_getAt i).bind (fun first => ?_)
      refine Contract.Keeps.ite (fun _ => ?_) (fun _ => ?_)
      · refine Contract.Keeps.ite (fun _ => ?_) (fun _ => ih (i + 2))
        refine (keeps_getAt (i + 1)).bind (fun second => ?_)
        exact Contract.Keeps.ite
          (fun _ => .pure _ (fun _ _ => trivial)) (fun _ => ih (i + 2))
      · exact Contract.Keeps.ite
          (fun _ => .pure _ (fun _ _ => trivial)) (fun _ => ih (i + 1))

theorem keeps_getStringField (fieldSize : Int) (encoding : Encoding) :
    (contract writes).Total (getStringField fieldSize encoding) := by
  refine Contract.Keeps.get_bind (fun v _ _ => ?_)
  refine Contract.Keeps.ite (fun _ => .throw nofun) (fun _ => ?_)
  refine Contract.Keeps.ite (fun _ => .pure _ (fun _ _ => trivial))
    (fun _ => ?_)
  refine Contract.Keeps.ite (fun _ => .throw nofun) (fun _ => ?_)
  refine Contract.Keeps.ite (fun _ => .throw nofun) (fun _ => ?_)
  refine (keeps_fieldLoop _ _ _ _).total.bind (fun i => ?_)
  refine (keeps_setLimit i).bind (fun _ => ?_)
  refine Contract.Keeps.get_bind (fun w _ _ => ?_)
  refine Contract.Keeps.ite (fun _ => ?_) (fun _ => ?_)
  · exact (keeps_setLimit _).total.bind (fun _ =>
      (keeps_setPosition _).bind (fun _ =>
        .pure _ (fun _ _ => trivial)))
  · exact (keeps_decodeRemaining encoding).total.bind (fun _ =>
      (keeps_setLimit _).bind (fun _ =>
        (keeps_setPosition _).bind (fun _ =>
          .pure _ (fun _ _ => trivial))))

theorem keeps_dumpLoop (size : Nat) : (contract writes).Total (dumpLoop size) := by
  induction size with
  | zero =>
      exact .pure _ (fun _ _ => trivial)
  | succ size ih =>
      exact keeps_get.bind (fun _ => ih.bind (fun _ =>
        .pure _ (fun _ _ => trivial)))

theorem keeps_getHexDump (lengthLimit : Int) :
    (contract writes).Total (getHexDump lengthLimit) := by
  refine Contract.Keeps.ite (fun _ => .throw nofun) (fun _ => ?_)
  refine Contract.Keeps.get_bind (fun v _ _ => ?_)
  refine Contract.Keeps.ite (fun _ => .pure _ (fun _ _ => trivial))
    (fun _ => ?_)
  exact keeps_get.total.bind (fun _ => (keeps_dumpLoop _).bind (fun _ =>
    (keeps_setPosition _).bind (fun _ => .pure _ (fun _ _ => trivial))))

end Contract

end Op

end Mina
end NetEngine
