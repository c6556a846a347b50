import NetEngine.Lib.Machine
import NetEngine.Mina.Strings

/-!
# Buffers that share arrays

All buffers of a program and the arrays behind them.  A request makes an array
or a buffer, derives a buffer from another one, calls a method of a buffer or
puts one buffer into another; an allocation gives the buffer a new array and
leaves the old one to those that share it.

The contract of the methods becomes one of the requests: the heap stays valid,
arrays keep their lengths and the bytes that the request does not write, and
buffers keep their windows or move to new arrays, which those that share an
array never do.
-/

namespace NetEngine
namespace Mina

open Net

/-- A method and its arguments; what it returns is dropped. -/
inductive Call where
  | setPosition (value : Int32)
  | setLimit (value : Int32)
  | setCapacity (value : Int32)
  | setOrder (value : ByteOrder)
  | setMinimumCapacity (value : Int32)
  | setAutoExpand (value : Bool)
  | setAutoShrink (value : Bool)
  | mark
  | reset
  | clear
  | flip
  | rewind
  | expand (expectedRemaining : Int32)
  | expandAt (position expectedRemaining : Int32)
  | skip (size : Int32)
  | get
  | getAt (index : Int32)
  | getArray (dst : { dst : Bytes // dst.length < 2 ^ 31 })
      (offset length : Int32)
  /-- `GetChar`, `GetInt16`, …, of `w` bytes. -/
  | getWord (w : Nat)
  | getWordAt (w : Nat) (index : Int32)
  | put (b : UInt8)
  | putAt (i : Int32) (b : UInt8)
  | putArray (src : { src : Bytes // src.length < 2 ^ 31 })
      (offset length : Int32)
  /-- `PutChar`, `PutInt16`, …, of `w` bytes. -/
  | putWord (w : Nat) (value : BitVec (8 * w))
  | putWordAt (w : Nat) (index : Int32) (value : BitVec (8 * w))
  | fill (size : Int32)
  | fillValue (value : UInt8) (size : Int32)
  | fillAndReset (size : Int32)
  | fillValueAndReset (value : UInt8) (size : Int32)
  | sweep
  | sweepValue (value : UInt8)
  | shrink
  | compact
  | prefixedDataAvailable (prefixLength maxDataLength : Int32)
  | getPrefixedString (prefixLength : Int32) (encoding : Encoding)
  | putPrefixedString (value : Text) (prefixLength : Int32)
      (encoding : Encoding)
  | indexOf (b : UInt8)
  | putString (s : Text) (encoding : Encoding)
  | putStringField (s : Text) (fieldSize : Int32) (encoding : Encoding)
  | getString (encoding : Encoding)
  | getStringField (fieldSize : Int32) (encoding : Encoding)
  | getHexDump (lengthLimit : Int32)

namespace Call

/-- The method that is called. -/
def run : Call → Op Unit
  | setPosition value => Op.setPosition value.toInt
  | setLimit value => Op.setLimit value.toInt
  | setCapacity value => Op.setCapacity value.toInt
  | setOrder value => Op.setOrder value
  | setMinimumCapacity value => Op.setMinimumCapacity value.toInt
  | setAutoExpand value => Op.setAutoExpand value
  | setAutoShrink value => Op.setAutoShrink value
  | mark => Op.mark
  | reset => Op.reset
  | clear => Op.clear
  | flip => Op.flip
  | rewind => Op.rewind
  | expand n => Op.expand n.toInt
  | expandAt position n => Op.expandAt position.toInt n.toInt
  | skip size => Op.skip size.toInt
  | get => Op.get.drop
  | getAt index => (Op.getAt index.toInt).drop
  | getArray dst offset length =>
      (Op.getArray dst.1 offset.toInt length.toInt).drop
  | getWord w => (Op.getWord w).drop
  | getWordAt w index => (Op.getWordAt w index.toInt).drop
  | put b => Op.put b
  | putAt i b => Op.putAt i.toInt b
  | putArray src offset length =>
      Op.putArray src.1 offset.toInt length.toInt
  | putWord w value => Op.putWord w value
  | putWordAt w index value => Op.putWordAt w index.toInt value
  | fill size => Op.fill size.toInt
  | fillValue value size => Op.fillValue value size.toInt
  | fillAndReset size => Op.fillAndReset size.toInt
  | fillValueAndReset value size => Op.fillValueAndReset value size.toInt
  | sweep => Op.sweep
  | sweepValue value => Op.sweepValue value
  | shrink => Op.shrink
  | compact => Op.compact
  | prefixedDataAvailable n m =>
      (Op.prefixedDataAvailable n.toInt m.toInt).drop
  | getPrefixedString n encoding =>
      (Op.getPrefixedString n.toInt encoding).drop
  | putPrefixedString value n encoding =>
      Op.putPrefixedString value n.toInt encoding
  | indexOf b => (Op.indexOf b).drop
  | putString s encoding => Op.putString s encoding
  | putStringField s n encoding => Op.putStringField s n.toInt encoding
  | getString encoding => (Op.getString encoding).drop
  | getStringField n encoding => (Op.getStringField n.toInt encoding).drop
  | getHexDump n => (Op.getHexDump n.toInt).drop

/-- The methods that write bytes into the array of the buffer. -/
def writes : Call → Bool
  | put _ | putAt _ _ | putArray _ _ _ | putWord _ _ | putWordAt _ _ _
  | fill _ | fillValue _ _ | fillAndReset _ | fillValueAndReset _ _
  | sweep | sweepValue _ | compact | putPrefixedString _ _ _
  | putString _ _ | putStringField _ _ _ => true
  | _ => false

end Call

/-- A method that derives a buffer. -/
inductive Derivation where
  | slice
  | getSliceAt (index length : Int32)
  | getSlice (length : Int32)
  | duplicate
  | asReadOnlyBuffer

/-- The method that derives. -/
def Derivation.run : Derivation → Op ByteBuffer
  | slice => Op.slice
  | getSliceAt index length => Op.getSliceAt index.toInt length.toInt
  | getSlice length => Op.getSlice length.toInt
  | duplicate => Op.duplicate
  | asReadOnlyBuffer => Op.asReadOnlyBuffer

/-- Where a buffer derived at `position` begins in the other one. -/
def Derivation.start (position : Int) : Derivation → Int
  | slice | getSlice _ => position
  | getSliceAt index _ => index.toInt
  | duplicate | asReadOnlyBuffer => 0

/-- The arrays, and the buffers with the number of the array of each. -/
structure Heap where
  arrays : List Bytes
  buffers : List (ByteBuffer × Nat)

/-- An operation on the heap, which may throw. -/
abbrev HeapOp :=
  EStateM BufferException Heap

namespace Heap

def empty : Heap :=
  ⟨[], []⟩

/-- What a method leaves of buffer `r`, which had array `a`. -/
def update (h : Heap) (r a : Nat) (v : View) : Heap :=
  if v.fresh then
    { arrays := h.arrays ++ [v.hb]
      buffers := h.buffers.set r (v.buf, h.arrays.length) }
  else
    { arrays := h.arrays.set a v.hb
      buffers := h.buffers.set r (v.buf, a) }

/-- Buffer `r` with its array, and the number of that array. -/
def find (h : Heap) (r : Nat) : Option (View × Nat) :=
  h.buffers[r]?.bind (fun b =>
    h.arrays[b.2]?.map (fun hb => ({ buf := b.1, hb := hb }, b.2)))

/-- Call a method of buffer `r`. -/
def on {α : Type} (r : Nat) (x : Op α) : HeapOp α := fun h =>
  match h.find r with
  | none => .error .nullReference h
  | some (v, a) =>
      match x v with
      | .ok y v' => .ok y (h.update r a v')
      | .error e v' => .error e (h.update r a v')

/-- Buffer `r` as it is, and the number of its array. -/
def look (r : Nat) : HeapOp (View × Nat) := fun h =>
  match h.find r with
  | none => .error .nullReference h
  | some found => .ok found h

/-- A new buffer on array `a`. -/
def addBuffer (buf : ByteBuffer) (a : Nat) : HeapOp Unit :=
  modify (fun h => { h with buffers := h.buffers ++ [(buf, a)] })

/-- A new array, whose number is returned. -/
def addArray (hb : Bytes) : HeapOp Nat := fun h =>
  .ok h.arrays.length { h with arrays := h.arrays ++ [hb] }

/-- `IoBuffer.Allocate`. -/
def allocate (capacity : Int) : HeapOp Unit :=
  match Mina.allocate capacity with
  | .error e => throw e
  | .ok made => do
      let a ← addArray made.2
      addBuffer made.1 a

/-- `IoBuffer.Wrap` of array `a`. -/
def wrap (a : Nat) (offset length : Int) : HeapOp Unit := do
  let h ← MonadState.get
  match h.arrays[a]? with
  | none => throw .nullReference
  | some array =>
      match Mina.wrap array offset length with
      | .error e => throw e
      | .ok made => addBuffer made.1 a

def derive (r : Nat) (d : Derivation) : HeapOp Unit := do
  let child ← on r d.run
  let found ← look r
  addBuffer child found.2

/-- `Position += n`. -/
def advance (n : Int) : Op Unit := do
  let v ← Op.view
  Op.setPosition (int32 (v.buf.position + n))

/-- The copy of `PutInternal(src)`: `n` bytes from index `i` of an array. -/
def putRemaining (src : Bytes) (i n : Int) : Op Unit := do
  let v ← Op.view
  if v.buf.readOnly then throw .notSupported
  else if n > v.buf.remaining then throw .overflow
  else
    let j ← Op.offset v.buf.position
    match src.blockCopy i v.hb j n with
    | none => throw .outside
    | some hb => modify (fun v => { v with hb := hb })

/-- `PutInternal(src)` of a buffer. -/
def putInternal (r s : Nat) (src : View) : HeapOp Unit := do
  on r (putRemaining src.hb (int32 (src.buf.position + src.buf.offset))
    src.buf.remaining)
  on s (advance src.buf.remaining)
  on r (advance src.buf.remaining)

/-- `Put(src)` of a buffer. -/
def putBuffer (r s : Nat) : HeapOp Unit := do
  if r = s then throw (.argument "Cannot put myself" "src")
  else
    let src ← look s
    on r (Op.autoExpandHere src.1.buf.remaining)
    let src ← look s
    putInternal r s src.1

/-- What a program asks for; buffers and arrays go by their numbers. -/
inductive Request where
  | allocate (capacity : Int32)
  | addArray (array : { array : Bytes // array.length < 2 ^ 31 })
  | wrap (a : Nat) (offset length : Int32)
  | call (r : Nat) (c : Call)
  | derive (r : Nat) (d : Derivation)
  | putBuffer (r s : Nat)

def Request.run : Request → HeapOp Unit
  | allocate capacity => Heap.allocate capacity.toInt
  | addArray array => do
      let _ ← Heap.addArray array.1
      pure ()
  | wrap a offset length => Heap.wrap a offset.toInt length.toInt
  | call r c => on r c.run
  | derive r d => Heap.derive r d
  | putBuffer r s => Heap.putBuffer r s

/-- A request is answered, with the exception it throws. -/
def step (h : Heap) (q : Request) : Heap × List BufferException :=
  match q.run h with
  | .ok _ h' => (h', [])
  | .error e h' => (h', [e])

end Heap

section Contract

theorem Call.keeps (c : Call) : (contract c.writes).Total c.run := by
  cases c with
  | setPosition value =>
      exact Op.keeps_setPosition _
  | setLimit value =>
      exact Op.keeps_setLimit _
  | setCapacity value =>
      exact Op.keeps_setCapacity value.toInt_lt
  | setOrder value =>
      exact Op.keeps_setOrder value
  | setMinimumCapacity value =>
      exact Op.keeps_setMinimumCapacity value.toInt_lt
  | setAutoExpand value =>
      exact Op.keeps_setAutoExpand value
  | setAutoShrink value =>
      exact Op.keeps_setAutoShrink value
  | mark =>
      exact Op.keeps_mark
  | reset =>
      exact Op.keeps_reset
  | clear =>
      exact Op.keeps_clear
  | flip =>
      exact Op.keeps_flip
  | rewind =>
      exact Op.keeps_rewind
  | expand n =>
      exact Op.keeps_expand _
  | expandAt position n =>
      exact Op.keeps_expandAt _ _
  | skip size =>
      exact Op.keeps_skip _
  | get =>
      exact Op.keeps_drop Op.keeps_get
  | getAt index =>
      exact Op.keeps_drop (Op.keeps_getAt _)
  | getArray dst offset length =>
      exact Op.keeps_drop
        (Op.keeps_getArray offset.toInt_lt length.toInt_lt dst.2)
  | getWord w =>
      exact Op.keeps_drop (Op.keeps_getWord w)
  | getWordAt w index =>
      exact Op.keeps_drop (Op.keeps_getWordAt w _)
  | put b =>
      exact Op.keeps_put b
  | putAt i b =>
      exact Op.keeps_putAt _ b
  | putArray src offset length =>
      exact Op.keeps_putArray offset.toInt_lt length.toInt_lt src.2
  | putWord w value =>
      exact Op.keeps_putWord w value
  | putWordAt w index value =>
      exact Op.keeps_putWordAt w _ value
  | fill size =>
      exact Op.keeps_fill _
  | fillValue value size =>
      exact Op.keeps_fillValue value _
  | fillAndReset size =>
      exact Op.keeps_fillAndReset _
  | fillValueAndReset value size =>
      exact Op.keeps_fillValueAndReset value _
  | sweep =>
      exact Op.keeps_sweep
  | sweepValue value =>
      exact Op.keeps_sweepValue value
  | shrink =>
      exact Op.keeps_shrink
  | compact =>
      exact Op.keeps_compact
  | prefixedDataAvailable n m =>
      exact Op.keeps_drop (Op.keeps_prefixedDataAvailable _ _)
  | getPrefixedString n encoding =>
      exact Op.keeps_drop (Op.keeps_getPrefixedString _ encoding)
  | putPrefixedString value n encoding =>
      exact Op.keeps_putPrefixedString value _ encoding
  | indexOf b =>
      exact Op.keeps_drop (Op.keeps_indexOf b)
  | putString s encoding =>
      exact Op.keeps_putString s encoding
  | putStringField s n encoding =>
      exact Op.keeps_putStringField s encoding n.toInt_lt
  | getString encoding =>
      exact Op.keeps_drop (Op.keeps_getString encoding)
  | getStringField n encoding =>
      exact Op.keeps_drop (Op.keeps_getStringField _ encoding)
  | getHexDump n =>
      exact Op.keeps_drop (Op.keeps_getHexDump _)

theorem Derivation.keeps
    {writes : Bool} {p : Int} (d : Derivation) :
    (contract writes).Keeps (Op.At p) d.run
      (fun child v => Op.IsChild (d.start p) v child) := by
  cases d with
  | slice =>
      exact Op.keeps_slice
  | getSliceAt index length =>
      exact Op.keeps_getSliceAt _ _
  | getSlice length =>
      exact Op.keeps_getSlice length.toInt_lt
  | duplicate =>
      exact Op.keeps_duplicateAs false
  | asReadOnlyBuffer =>
      exact Op.keeps_duplicateAs true

theorem keeps_advance {writes : Bool} (n : Int) :
    (contract writes).Total (Heap.advance n) :=
  Contract.Keeps.get_bind (fun _ _ _ => (Op.keeps_setPosition _).total)

/-- Bytes of another array are copied to where there is room. -/
theorem keeps_putRemaining
    {src : Bytes} {i n : Int} (hi : 0 ≤ i) (hn : 0 ≤ n)
    (hsrc : i + n ≤ src.length) :
    (contract true).Total (Heap.putRemaining src i n) := by
  refine Contract.Keeps.get_bind (fun v hinv _ => ?_)
  refine Contract.Keeps.ite (fun _ => .throw nofun) (fun hread => ?_)
  refine Contract.Keeps.ite (fun _ => .throw nofun) (fun hroom => ?_)
  obtain ⟨h₁, h₂, h₃, h₄, h₅, h₆⟩ := hinv.numbers
  have hroom' : n ≤ v.buf.limit - v.buf.position := not_lt.mp hroom
  have hwindow := hinv.window
  have hoffset := hinv.offset_ge
  refine Contract.Keeps.known_bind
    (Op.offset_eq hinv h₃ (by omega)) ?_
  rw [Op.blockCopy_eq hi (by omega) hn hsrc (by omega)]
  have hstore := @Op.keeps_store v (v.buf.position + v.buf.offset)
    (src.cells.read i.toNat n.toNat) (by simpa using hread)
    ⟨by omega, by rw [Memory.read_length]; omega⟩
  intro s hs heq
  subst heq
  exact hstore.forget s hs rfl

end Contract

end Mina
end NetEngine
