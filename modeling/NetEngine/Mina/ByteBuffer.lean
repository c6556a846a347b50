import NetEngine.Lib.Fallible
import NetEngine.Mina.Buffer

/-!
# ByteBuffer

AbstractIoBuffer.cs, ByteBuffer.cs and ByteBufferR.cs: a buffer on a byte array,
which may be shared with the buffers derived from it.  The methods of one buffer
work on a `View`, the buffer and the array behind it; an allocated array takes
the place of the old one and makes the view fresh.

A read-only buffer is a buffer whose class overrides some methods; the override
is the first branch of the method here.  The setters of `Position` and `Limit`
are the ones that expand, unless `base` says otherwise.
-/

namespace NetEngine
namespace Mina

open Net

inductive ByteOrder where
  | BigEndian
  | LittleEndian
deriving DecidableEq

/-- A `Byte[]`. -/
structure Bytes where
  length : Nat
  cells : Memory UInt8

namespace Bytes

/-- `new Byte[length]`. -/
def zeros (length : Int) : Bytes :=
  ⟨length.toNat, fun _ => 0⟩

def ofList (xs : List UInt8) : Bytes :=
  ⟨xs.length, Memory.store (fun _ => 0) 0 xs⟩

/-- `BlockCopy` and `Array.Copy`, as if through a temporary. -/
def blockCopy (src : Bytes) (srcOffset : Int) (dst : Bytes)
    (dstOffset count : Int) : Option Bytes :=
  if 0 ≤ srcOffset ∧ 0 ≤ dstOffset ∧ 0 ≤ count ∧
      srcOffset + count ≤ src.length ∧ dstOffset + count ≤ dst.length then
    some { dst with
      cells := dst.cells.store dstOffset.toNat
        (src.cells.read srcOffset.toNat count.toNat) }
  else none

end Bytes

structure ByteBuffer extends Buffer where
  order : ByteOrder := .LittleEndian
  derived : Bool
  autoExpand : Bool := false
  autoShrink : Bool := false
  recapacityAllowed : Bool
  minimumCapacity : Int
  offset : Int
  readOnly : Bool := false
deriving DecidableEq

/-- A buffer, the array behind it and whether that array is a new one. -/
structure View where
  buf : ByteBuffer
  hb : Bytes
  fresh : Bool := false

/-- The view with other numbers in the buffer. -/
def View.withNumbers (v : View) (b : Buffer) : View :=
  { v with buf := { v.buf with toBuffer := b } }

/-- A method of a buffer, which may throw. -/
abbrev Op :=
  EStateM BufferException View

namespace Op

section Base

/-- The buffer and its array as they are. -/
abbrev view : Op View :=
  MonadState.get

/-- A part of the base class. -/
def base {α : Type}
    (f : Buffer → Except BufferException (α × Buffer)) : Op α := fun v =>
  match f v.buf.toBuffer with
  | .ok r => .ok r.1 (v.withNumbers r.2)
  | .error e => .error e v

/-- A setter of the base class. -/
def baseSet (f : Buffer → Except BufferException Buffer) : Op Unit :=
  base (fun b => (f b).map (fun b' => ((), b')))

/-- A check that looks at arguments only. -/
def check {α : Type} (r : Except BufferException α) : Op α :=
  base (fun b => r.map (fun a => (a, b)))

def onlyIf (p : Prop) [Decidable p] (x : Op Unit) : Op Unit :=
  if p then x else pure ()

/-- The result is dropped. -/
def drop {α : Type} (x : Op α) : Op Unit := do
  let _ ← x
  pure ()

end Base

section Capacity

/-- The array is replaced by a new one. -/
def reallocate (newHb : Option Bytes) (f : ByteBuffer → ByteBuffer) :
    Op Unit := do
  match newHb with
  | none => throw .outside
  | some newHb =>
      modify (fun v =>
        { buf := { f v.buf with offset := 0 }, hb := newHb, fresh := true })

/-- The setter of `Capacity`. -/
def setCapacity (value : Int) : Op Unit := do
  let v ← view
  if v.buf.recapacityAllowed = false then
    throw (.invalidOperation
      "Derived buffers and their parent can't be expanded.")
  else if value > v.buf.capacity then
    reallocate
      (v.hb.blockCopy v.buf.offset (Bytes.zeros value) 0 v.buf.capacity)
      (fun buf => { buf with capacity := value })
  else pure ()

/-- `Expand(pos, expectedRemaining, autoExpand)`. -/
def expandTo (pos expectedRemaining : Int) (autoExpand : Bool) :
    Op Unit := do
  let v ← view
  if v.buf.recapacityAllowed = false then
    throw (.invalidOperation
      "Derived buffers and their parent can't be expanded.")
  else
    let endPos := int32 (pos + expectedRemaining)
    let newCapacity :=
      if autoExpand then normalizeCapacity endPos else endPos
    onlyIf (newCapacity > v.buf.capacity) (setCapacity newCapacity)
    onlyIf (endPos > v.buf.limit) (baseSet (Buffer.setLimit endPos))

/-- `AutoExpand0(pos, expectedRemaining)`. -/
def autoExpand0 (pos expectedRemaining : Int) : Op Unit := do
  let v ← view
  onlyIf (v.buf.autoExpand ∧ v.buf.recapacityAllowed)
    (expandTo pos expectedRemaining true)

/-- `AutoExpand0(expectedRemaining)`. -/
def autoExpandHere (expectedRemaining : Int) : Op Unit := do
  let v ← view
  autoExpand0 v.buf.position expectedRemaining

/-- `Expand(position, expectedRemaining)`. -/
def expandAt (position expectedRemaining : Int) : Op Unit :=
  expandTo position expectedRemaining false

/-- `Expand(expectedRemaining)`. -/
def expand (expectedRemaining : Int) : Op Unit := do
  let v ← view
  expandTo v.buf.position expectedRemaining false

def setPosition (value : Int) : Op Unit := do
  baseSet (Buffer.setPosition value)
  autoExpand0 value 0

def setLimit (value : Int) : Op Unit := do
  baseSet (Buffer.setLimit value)
  autoExpand0 value 0

def setOrder (value : ByteOrder) : Op Unit :=
  modify (fun v => { v with buf := { v.buf with order := value } })

def setMinimumCapacity (value : Int) : Op Unit :=
  if value < 0 then throw (.argument "MinimumCapacity" "")
  else modify (fun v =>
    { v with buf := { v.buf with minimumCapacity := value } })

def setAutoExpand (value : Bool) : Op Unit := do
  let v ← view
  if v.buf.recapacityAllowed = false then
    throw (.invalidOperation
      "Derived buffers and their parent can't be expanded.")
  else modify (fun v =>
    { v with buf := { v.buf with autoExpand := value } })

def setAutoShrink (value : Bool) : Op Unit := do
  let v ← view
  if v.buf.recapacityAllowed = false then
    throw (.invalidOperation
      "Derived buffers and their parent can't be shrinked.")
  else modify (fun v =>
    { v with buf := { v.buf with autoShrink := value } })

/-- `Mark`. -/
def mark : Op Unit :=
  baseSet (fun b => .ok b.setMark)

def reset : Op Unit :=
  baseSet Buffer.reset

def clear : Op Unit :=
  baseSet (fun b => .ok b.clear)

def flip : Op Unit :=
  baseSet (fun b => .ok b.flip)

def rewind : Op Unit :=
  baseSet (fun b => .ok b.rewind)

end Capacity

section Bytes

def nextGetIndex (nb : Int) : Op Int :=
  base (Buffer.nextIndex .bufferUnderflow nb)

def nextPutIndex (nb : Int) : Op Int :=
  base (Buffer.nextIndex .overflow nb)

def checkIndex (i nb : Int) : Op Int :=
  base (fun b => (b.checkIndex i nb).map (fun j => (j, b)))

/-- `Offset`. -/
def offset (i : Int) : Op Int := do
  let v ← view
  pure (int32 (i + v.buf.offset))

def getInternal (i : Int) : Op UInt8 := do
  let v ← view
  if 0 ≤ i ∧ i < v.hb.length then pure (v.hb.cells i.toNat)
  else throw .outside

def putInternal (i : Int) (b : UInt8) : Op Unit := do
  let v ← view
  if v.buf.readOnly then throw .notSupported
  else if 0 ≤ i ∧ i < v.hb.length then
    modify (fun v => { v with
      hb := { v.hb with cells := v.hb.cells.store i.toNat [b] } })
  else throw .outside

/-- `Get()`. -/
def get : Op UInt8 := do
  let p ← nextGetIndex 1
  let i ← offset p
  getInternal i

/-- `Get(index)`. -/
def getAt (index : Int) : Op UInt8 := do
  let p ← checkIndex index 1
  let i ← offset p
  getInternal i

/-- `Get(dst, offset, length)`, which returns what becomes of `dst`. -/
def getArray (dst : Bytes) (off length : Int) : Op Bytes := do
  check (Buffer.checkBounds off length dst.length)
  let v ← view
  if length > v.buf.remaining then throw .bufferUnderflow
  else
    let i ← offset v.buf.position
    match v.hb.blockCopy i dst off length with
    | none => throw .outside
    | some dst' => do
        setPosition (int32 (v.buf.position + length))
        pure dst'

/-- `Put(b)`. -/
def put (b : UInt8) : Op Unit := do
  autoExpandHere 1
  let p ← nextPutIndex 1
  let i ← offset p
  putInternal i b

/-- `Put(i, b)`. -/
def putAt (i : Int) (b : UInt8) : Op Unit := do
  autoExpand0 i 1
  let p ← checkIndex i 1
  let j ← offset p
  putInternal j b

/-- `BlockCopy` into the array at the position, and `Position += length`. -/
def putBlock (src : Bytes) (off length : Int) : Op Unit := do
  let v ← view
  let i ← offset v.buf.position
  match src.blockCopy off v.hb i length with
  | none => throw .outside
  | some hb => do
      modify (fun v => { v with hb := hb })
      setPosition (int32 (v.buf.position + length))

/-- `Put(src, offset, length)`. -/
def putArray (src : Bytes) (off length : Int) : Op Unit := do
  check (Buffer.checkBounds off length src.length)
  autoExpandHere length
  let v ← view
  if length > v.buf.remaining then throw .overflow
  else if v.buf.readOnly then throw .notSupported
  else putBlock src off length

/-- `Put(src)` of an array. -/
def putBytes (src : List UInt8) : Op Unit :=
  putArray (Bytes.ofList src) 0 src.length

def skip (size : Int) : Op Unit := do
  autoExpandHere size
  let v ← view
  setPosition (int32 (v.buf.position + size))

end Bytes

section Words

/-- The bytes of a word, as `Bits.Put…` writes them from lower indices up. -/
def bytesOf (order : ByteOrder) (w : Nat) (x : BitVec (8 * w)) :
    List UInt8 :=
  match order with
  | .LittleEndian => leBytes w x.toNat
  | .BigEndian => (leBytes w x.toNat).reverse

/-- The word that `Bits.Get…` makes of bytes. -/
def wordOf (order : ByteOrder) (w : Nat) (bs : List UInt8) :
    BitVec (8 * w) :=
  match order with
  | .LittleEndian => BitVec.ofNat _ (leValue bs)
  | .BigEndian => BitVec.ofNat _ (leValue bs.reverse)

/-- The bytes from an index of the array on. -/
def getInternals (i : Int) : Nat → Op (List UInt8)
  | 0 => pure []
  | w + 1 => do
      let b ← getInternal i
      let bs ← getInternals (i + 1) w
      pure (b :: bs)

/-- Write bytes from an index of the array on. -/
def putInternals (i : Int) : List UInt8 → Op Unit
  | [] => pure ()
  | b :: bs => do
      putInternal i b
      putInternals (i + 1) bs

/-- `GetChar`, `GetInt16` and so on, of `w` bytes. -/
def getWord (w : Nat) : Op (BitVec (8 * w)) := do
  let p ← nextGetIndex w
  let i ← offset p
  let bs ← getInternals i w
  let v ← view
  pure (wordOf v.buf.order w bs)

/-- `GetChar(index)` and so on. -/
def getWordAt (w : Nat) (index : Int) : Op (BitVec (8 * w)) := do
  let p ← checkIndex index w
  let i ← offset p
  let bs ← getInternals i w
  let v ← view
  pure (wordOf v.buf.order w bs)

/-- `PutChar(value)` and so on. -/
def putWord (w : Nat) (value : BitVec (8 * w)) : Op Unit := do
  autoExpandHere w
  let p ← nextPutIndex w
  let i ← offset p
  let v ← view
  putInternals i (bytesOf v.buf.order w value)

/-- `PutChar(index, value)` and so on. -/
def putWordAt (w : Nat) (index : Int) (value : BitVec (8 * w)) :
    Op Unit := do
  autoExpand0 index w
  let p ← checkIndex index w
  let i ← offset p
  let v ← view
  putInternals i (bytesOf v.buf.order w value)

def getChar : Op (BitVec 16) := getWord 2
def getInt16 : Op (BitVec 16) := getWord 2
def getInt32 : Op (BitVec 32) := getWord 4
def getInt64 : Op (BitVec 64) := getWord 8
/-- The bits of the `Single`. -/
def getSingle : Op (BitVec 32) := getWord 4
/-- The bits of the `Double`. -/
def getDouble : Op (BitVec 64) := getWord 8

def putChar (value : BitVec 16) : Op Unit := putWord 2 value
def putInt16 (value : BitVec 16) : Op Unit := putWord 2 value
def putInt32 (value : BitVec 32) : Op Unit := putWord 4 value
def putInt64 (value : BitVec 64) : Op Unit := putWord 8 value
def putSingle (value : BitVec 32) : Op Unit := putWord 4 value
def putDouble (value : BitVec 64) : Op Unit := putWord 8 value

end Words

section Filling

/-- `value | value << 8 | value << 16 | value << 24`. -/
def intValue (value : UInt8) : BitVec 32 :=
  let x := value.toBitVec.zeroExtend 32
  x ||| x <<< 8 ||| x <<< 16 ||| x <<< 24

/-- `(Int64)intValue << 32 | (UInt32)intValue`. -/
def longValue (value : UInt8) : BitVec 64 :=
  ((intValue value).signExtend 64 <<< 32) |||
    (intValue value).zeroExtend 64

/-- `(Int16)(value | value << 8)`. -/
def shortValue (value : UInt8) : BitVec 16 :=
  let x := value.toBitVec.zeroExtend 32
  (x ||| x <<< 8).truncate 16

/-- The loop that puts one long after the other. -/
def putLongs (value : BitVec 64) : Nat → Op Unit
  | 0 => pure ()
  | n + 1 => do
      putInt64 value
      putLongs value n

/-- The body of both forms of `Fill`. -/
def fillWith (long : BitVec 64) (int : BitVec 32) (short : BitVec 16)
    (byte : UInt8) (size : Int) : Op Unit := do
  autoExpandHere size
  putLongs long (size / 8).toNat
  onlyIf (size % 8 / 4 > 0) (putInt32 int)
  onlyIf (size % 8 % 4 / 2 > 0) (putInt16 short)
  onlyIf (size % 8 % 4 % 2 > 0) (put byte)

/-- `Fill(size)`. -/
def fill (size : Int) : Op Unit := do
  let v ← view
  if v.buf.readOnly then throw .notSupported else fillWith 0 0 0 0 size

/-- `Fill(value, size)`. -/
def fillValue (value : UInt8) (size : Int) : Op Unit := do
  let v ← view
  if v.buf.readOnly then throw .notSupported
  else
    fillWith (longValue value) (intValue value) (shortValue value) value size

/-- Both forms of `FillAndReset`, around the `Fill` of the same form. -/
def andReset (fill : Op Unit) (size : Int) : Op Unit := do
  autoExpandHere size
  let v ← view
  tryFinally fill (setPosition v.buf.position)

def fillAndReset (size : Int) : Op Unit :=
  andReset (fill size) size

def fillValueAndReset (value : UInt8) (size : Int) : Op Unit :=
  andReset (fillValue value size) size

/-- `Sweep()`. -/
def sweep : Op Unit := do
  clear
  let v ← view
  fillAndReset v.buf.remaining

/-- `Sweep(value)`. -/
def sweepValue (value : UInt8) : Op Unit := do
  clear
  let v ← view
  fillValueAndReset value v.buf.remaining

end Filling

section Shrinking

/-- The loop of `Shrink`, as far as the fuel goes. -/
def shrinkLoop (minCapacity : Int) : Nat → Int → Option Int
  | 0, _ => none
  | n + 1, newCapacity =>
      if newCapacity / 2 < minCapacity then some newCapacity
      else if minCapacity = 0 then some (newCapacity / 2)
      else shrinkLoop minCapacity n (newCapacity / 2)

/-- The loop of `Compact`, which lacks the test for 0. -/
def compactLoop (minCapacity : Int) : Nat → Int → Option Int
  | 0, _ => none
  | n + 1, newCapacity =>
      if newCapacity / 2 < minCapacity then some newCapacity
      else compactLoop minCapacity n (newCapacity / 2)

def shrink : Op Unit := do
  let v ← view
  if v.buf.recapacityAllowed = false then
    throw (.invalidOperation
      "Derived buffers and their parent can't be shrinked.")
  else if v.buf.capacity = v.buf.limit then pure ()
  else
    let minCapacity := max v.buf.minimumCapacity v.buf.limit
    match shrinkLoop minCapacity 32 v.buf.capacity with
    | none => throw .hangs
    | some capacity =>
        let newCapacity := max minCapacity capacity
        if newCapacity = v.buf.capacity then pure ()
        else
          reallocate
            (v.hb.blockCopy v.buf.offset (Bytes.zeros newCapacity) 0
              v.buf.limit)
            (fun buf => { buf with mark := -1, capacity := newCapacity })

/-- `Position = Remaining; Limit = Capacity`. -/
def compactEnd : Op Unit := do
  let v ← view
  setPosition v.buf.remaining
  let v ← view
  setLimit v.buf.capacity

/-- The part of `Compact` that shrinks. -/
def compactShrink (v : View) : Op Unit :=
  let minCapacity :=
    max v.buf.minimumCapacity (int32 (2 * v.buf.remaining))
  match compactLoop minCapacity 32 v.buf.capacity with
  | none => throw .hangs
  | some capacity =>
      let newCapacity := max minCapacity capacity
      if newCapacity = v.buf.capacity then pure ()
      else if v.buf.remaining > newCapacity then
        throw (.invalidOperation ("The amount of the remaining bytes is " ++
          "greater than the new capacity."))
      else do
        reallocate
          (v.hb.blockCopy (int32 (v.buf.position + v.buf.offset))
            (Bytes.zeros newCapacity) 0 v.buf.remaining)
          (fun buf => { buf with capacity := newCapacity })
        compactEnd

/-- The part of `Compact` that moves the bytes within the array. -/
def compactMove (v : View) : Op Unit :=
  match v.hb.blockCopy (int32 (v.buf.position + v.buf.offset)) v.hb
      (int32 (0 + v.buf.offset)) v.buf.remaining with
  | none => throw .outside
  | some hb => do
      modify (fun v => { v with hb := hb })
      compactEnd

def compact : Op Unit := do
  let v ← view
  if v.buf.readOnly then throw .notSupported
  else if v.buf.capacity = 0 then pure ()
  else if (v.buf.autoShrink ∧ v.buf.recapacityAllowed) ∧
      v.buf.remaining ≤ v.buf.capacity / 4 ∧
      v.buf.capacity > v.buf.minimumCapacity then
    compactShrink v
  else compactMove v

end Shrinking

section Deriving

/-- The constructors of a buffer with a parent. -/
def derive (readOnly : Bool) (parent : ByteBuffer)
    (mark pos lim cap off : Int) : Op ByteBuffer :=
  check ((Buffer.make mark pos lim cap).map (fun b =>
    { toBuffer := b
      derived := true
      recapacityAllowed := false
      minimumCapacity := parent.minimumCapacity
      offset := off
      readOnly := readOnly }))

/-- `_recapacityAllowed = false`. -/
def pin : Op Unit :=
  modify (fun v =>
    { v with buf := { v.buf with recapacityAllowed := false } })

def slice : Op ByteBuffer := do
  pin
  let v ← view
  derive v.buf.readOnly v.buf (-1) 0 v.buf.remaining v.buf.remaining
    (int32 (v.buf.position + v.buf.offset))

/-- `Duplicate`, and `AsReadOnlyBuffer` when the result is read-only. -/
def duplicateAs (readOnly : Bool) : Op ByteBuffer := do
  pin
  let v ← view
  derive (readOnly || v.buf.readOnly) v.buf v.buf.mark v.buf.position
    v.buf.limit v.buf.capacity v.buf.offset

def duplicate : Op ByteBuffer :=
  duplicateAs false

def asReadOnlyBuffer : Op ByteBuffer :=
  duplicateAs true

/-- `GetSlice(index, length)`. -/
def getSliceAt (index length : Int) : Op ByteBuffer := do
  if length < 0 then throw (.argumentOutOfRange "length")
  else
    let v ← view
    let pos := v.buf.position
    let limit := v.buf.limit
    if index > limit then throw (.argumentOutOfRange "index")
    else
      let endIndex := int32 (index + length)
      if endIndex > limit then
        throw (.indexOutOfRange ("index + length (" ++ toString endIndex ++
          ") is greater than limit (" ++ toString limit ++ ")."))
      else
        clear
        setLimit endIndex
        setPosition index
        let s ← slice
        setLimit limit
        setPosition pos
        pure s

/-- `GetSlice(length)`. -/
def getSlice (length : Int) : Op ByteBuffer := do
  if length < 0 then throw (.argumentOutOfRange "length")
  else
    let v ← view
    let pos := v.buf.position
    let limit := v.buf.limit
    let nextPos := int32 (pos + length)
    if limit < nextPos then
      throw (.indexOutOfRange ("position + length (" ++ toString nextPos ++
        ") is greater than limit (" ++ toString limit ++ ")."))
    else
      setLimit nextPos
      let s ← slice
      setPosition nextPos
      setLimit limit
      pure s

end Deriving

end Op

section Construction

/-- The constructors of a buffer with an allocator. -/
def construct (pos lim : Int) (hb : Bytes) :
    Except BufferException (ByteBuffer × Bytes) :=
  (Buffer.make (-1) pos lim hb.length).map (fun b =>
    ({ toBuffer := b
       derived := false
       recapacityAllowed := true
       minimumCapacity := hb.length
       offset := 0 }, hb))

/-- `ByteBufferAllocator.Allocate`. -/
def allocate (capacity : Int) :
    Except BufferException (ByteBuffer × Bytes) :=
  if capacity < 0 then
    .error (.argument "Capacity should be >= 0" "capacity")
  else construct 0 capacity (Bytes.zeros capacity)

/-- `ByteBufferAllocator.Wrap`, which renames the exception. -/
def wrap (array : Bytes) (offset length : Int) :
    Except BufferException (ByteBuffer × Bytes) :=
  match construct offset (int32 (offset + length)) array with
  | .ok r => .ok r
  | .error _ => .error (.indexOutOfRange "")

end Construction

end Mina
end NetEngine
