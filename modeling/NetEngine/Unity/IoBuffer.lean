import NetEngine.Net.ClientSocket

/-!
# IoBuffer

The operations of Net/Buffer that the client uses, on a buffer as
`ByteBuffer.Allocate` makes it: little-endian, with array offset 0 and without
`AutoExpand` and `AutoShrink`, so its capacity stays.  Nobody sets the mark.

An operation that throws leaves the buffer as it is at that point.  A buffer is
either written to behind the bytes it holds or read from its position to its
limit; the lemmas say how the operations go from one to the other.
-/

namespace NetEngine
namespace Unity

open Net

inductive IoException where
  /-- `ArgumentException`. -/
  | argument (message : String)
  /-- `OverflowException`. -/
  | overflow
  | bufferUnderflow
  | exception (message : String)
deriving DecidableEq

structure IoBuffer where
  hb : Memory UInt8
  capacity : Nat
  limit : Nat
  position : Nat
  position_le : position ≤ limit
  limit_le : limit ≤ capacity

/-- An operation on the buffer, which may throw. -/
abbrev IoOp :=
  EStateM IoException IoBuffer

theorem IoOp.get_bind
    {β : Type} (f : IoBuffer → IoOp β) (buf : IoBuffer) :
    (MonadState.get >>= f) buf = f buf buf := by
  rfl

theorem IoOp.bind_ok
    {α β : Type} {x : IoOp α} {f : α → IoOp β} {buf buf' : IoBuffer} {a : α}
    (h : x buf = .ok a buf') :
    (x >>= f) buf = f a buf' := by
  show EStateM.bind x f buf = _
  rw [EStateM.bind, h]

theorem IoOp.bind_error
    {α β : Type} {x : IoOp α} {f : α → IoOp β} {buf buf' : IoBuffer}
    {e : IoException} (h : x buf = .error e buf') :
    (x >>= f) buf = .error e buf' := by
  show EStateM.bind x f buf = _
  rw [EStateM.bind, h]

/-- Wrap an integer to the range of a 16-bit `short`. -/
def int16 (x : Int) : Int :=
  (x + 2 ^ 15) % 2 ^ 16 - 2 ^ 15

theorem int16_of_bounds
    {x : Int} (hlow : -2 ^ 15 ≤ x) (hhigh : x < 2 ^ 15) :
    int16 x = x := by
  unfold int16
  omega

namespace IoBuffer

def allocate (capacity : Nat) : IoBuffer where
  hb := fun _ => 0
  capacity := capacity
  limit := capacity
  position := 0
  position_le := Nat.zero_le _
  limit_le := Nat.le_refl _

def remaining (buf : IoBuffer) : Nat :=
  buf.limit - buf.position

def hasRemaining (buf : IoBuffer) : Bool :=
  buf.position < buf.limit

/-- `Position = value`. -/
def setPosition (value : Nat) : IoOp Unit := fun buf =>
  if h : value ≤ buf.limit then
    .ok () { buf with position := value, position_le := h }
  else .error (.argument "Invalid position") buf

def clear (buf : IoBuffer) : IoBuffer :=
  { buf with
    limit := buf.capacity
    position := 0
    position_le := Nat.zero_le _
    limit_le := Nat.le_refl _ }

def flip (buf : IoBuffer) : IoBuffer :=
  { buf with
    limit := buf.position
    position := 0
    position_le := Nat.zero_le _
    limit_le := buf.position_le.trans buf.limit_le }

def compact (buf : IoBuffer) : IoBuffer :=
  if buf.capacity = 0 then buf
  else
    { buf with
      hb := buf.hb.move 0 buf.position buf.remaining
      limit := buf.capacity
      position := buf.remaining
      position_le := (Nat.sub_le _ _).trans buf.limit_le
      limit_le := Nat.le_refl _ }

/-- Move the position over `nb` bytes, which are there. -/
def advance (buf : IoBuffer) (nb : Nat) (h : nb ≤ buf.remaining) : IoBuffer :=
  { buf with
    position := buf.position + nb
    position_le := by
      have hpos := buf.position_le
      unfold remaining at h
      omega }

/-- `Put` of bytes, of which `AutoExpand` makes no room. -/
def put (src : List UInt8) : IoOp Unit := fun buf =>
  if h : src.length ≤ buf.remaining then
    .ok ()
      { buf.advance src.length h with hb := buf.hb.store buf.position src }
  else .error .overflow buf

def putInt32 (value : Int) : IoOp Unit :=
  put (leBytes 4 (value % 2 ^ 32).toNat)

def putInt16 (value : Int) : IoOp Unit :=
  put (leBytes 2 (value % 2 ^ 16).toNat)

/-- `Get` into an array of the given length. -/
def get (length : Nat) : IoOp (List UInt8) := fun buf =>
  if h : length ≤ buf.remaining then
    .ok (buf.hb.read buf.position length) (buf.advance length h)
  else .error .bufferUnderflow buf

def getInt32 : IoOp Int := fun buf =>
  if h : 4 ≤ buf.remaining then
    .ok (int32 (buf.hb.readLE buf.position 4)) (buf.advance 4 h)
  else .error .bufferUnderflow buf

def getInt16 : IoOp Int := fun buf =>
  if h : 2 ≤ buf.remaining then
    .ok (int16 (buf.hb.readLE buf.position 2)) (buf.advance 2 h)
  else .error .bufferUnderflow buf

section Modes

/-- The buffer is written to and holds these bytes. -/
structure Writing (cap : Nat) (buf : IoBuffer) (xs : List UInt8) : Prop where
  capacity : buf.capacity = cap
  limit : buf.limit = cap
  position : buf.position = xs.length
  holds : buf.hb.Holds 0 xs

/-- The buffer is read and these bytes are left. -/
structure Reading (cap : Nat) (buf : IoBuffer) (xs : List UInt8) : Prop where
  capacity : buf.capacity = cap
  limit : buf.limit = buf.position + xs.length
  holds : buf.hb.Holds buf.position xs

variable {cap : Nat} {buf : IoBuffer} {xs ys : List UInt8}

theorem writing_allocate (cap : Nat) : Writing cap (allocate cap) [] :=
  ⟨rfl, rfl, rfl, Memory.holds_nil _ _⟩

theorem writing_clear (hcap : buf.capacity = cap) :
    Writing cap buf.clear [] :=
  ⟨hcap, hcap, rfl, Memory.holds_nil _ _⟩

theorem Reading.remaining (h : Reading cap buf xs) :
    buf.remaining = xs.length := by
  have hlimit := h.limit
  unfold IoBuffer.remaining
  omega

theorem Reading.hasRemaining (h : Reading cap buf xs) :
    buf.hasRemaining = true ↔ xs ≠ [] := by
  have hlimit := h.limit
  rw [IoBuffer.hasRemaining, decide_eq_true_iff,
    ← List.length_pos_iff_ne_nil]
  omega

/-- Bytes are put behind those the buffer holds. -/
theorem Writing.put (h : Writing cap buf xs) (src : List UInt8)
    (hfits : xs.length + src.length ≤ cap) :
    ∃ buf', put src buf = .ok () buf' ∧ Writing cap buf' (xs ++ src) := by
  have hroom : src.length ≤ buf.remaining := by
    have hlimit := h.limit
    have hposition := h.position
    unfold IoBuffer.remaining
    omega
  refine ⟨_, dif_pos hroom, h.capacity, h.limit, ?_, ?_⟩
  · show buf.position + src.length = _
    rw [h.position, List.length_append]
  · show Memory.Holds (buf.hb.store buf.position src) 0 _
    rw [h.position, ← Nat.zero_add xs.length]
    exact h.holds.store_append src

/-- Bytes that find no room throw and leave the buffer as it is. -/
theorem Writing.put_overflow (h : Writing cap buf xs) (src : List UInt8)
    (hover : cap < xs.length + src.length) :
    IoBuffer.put src buf = .error .overflow buf := by
  have hlimit := h.limit
  have hposition := h.position
  have hle := buf.position_le
  refine dif_neg ?_
  unfold IoBuffer.remaining
  omega

theorem Writing.flip (h : Writing cap buf xs) :
    Reading cap buf.flip xs := by
  refine ⟨h.capacity, ?_, h.holds⟩
  show buf.position = 0 + xs.length
  rw [h.position, Nat.zero_add]

/-- The bytes that are left go to the front of the buffer. -/
theorem Reading.compact (h : Reading cap buf xs) :
    Writing cap buf.compact xs := by
  have hremaining := h.remaining
  rw [IoBuffer.compact]
  split_ifs with hzero
  · -- without capacity there is nothing to read
    have hlimit := h.limit
    have hle := buf.limit_le
    have hnil : xs = [] := List.eq_nil_of_length_eq_zero (by omega)
    subst hnil
    refine ⟨h.capacity, ?_, ?_, Memory.holds_nil _ _⟩
    · rw [← h.capacity]
      omega
    · show buf.position = 0
      omega
  · refine ⟨h.capacity, h.capacity, hremaining, ?_⟩
    intro i hi
    show _ = some (Memory.move buf.hb 0 buf.position buf.remaining (0 + i))
    rw [Memory.move, if_pos (by omega), h.holds i hi]
    congr 2
    omega

theorem Reading.advance (h : Reading cap buf (xs ++ ys))
    (hxs : xs.length ≤ buf.remaining) :
    Reading cap (buf.advance xs.length hxs) ys := by
  have hlimit := h.limit
  rw [List.length_append] at hlimit
  refine ⟨h.capacity, ?_, ?_⟩
  · show buf.limit = buf.position + xs.length + ys.length
    omega
  · exact ((Memory.holds_append_iff _ _ _ _).mp h.holds).2

theorem Reading.get (h : Reading cap buf (xs ++ ys)) :
    ∃ buf', get xs.length buf = .ok xs buf' ∧ Reading cap buf' ys := by
  have hroom : xs.length ≤ buf.remaining := by
    rw [h.remaining, List.length_append]
    exact Nat.le_add_right _ _
  refine ⟨_, ?_, h.advance hroom⟩
  rw [IoBuffer.get, dif_pos hroom,
    ((Memory.holds_append_iff _ _ _ _).mp h.holds).1.read_eq]

/-- A number at the front of what is left to read. -/
theorem Reading.number {k n : Nat}
    (h : Reading cap buf (leBytes k n ++ ys)) (hn : n < 256 ^ k) :
    ∃ hroom : k ≤ buf.remaining,
      buf.hb.readLE buf.position k = n ∧
        Reading cap (buf.advance k hroom) ys := by
  have hlength := leBytes_length k n
  have hroom : (leBytes k n).length ≤ buf.remaining := by
    rw [h.remaining, List.length_append]
    exact Nat.le_add_right _ _
  have hnext := h.advance hroom
  have hread :=
    ((Memory.holds_append_iff _ _ _ _).mp h.holds).1.readLE_leBytes
  simp only [hlength] at hroom hnext
  rw [Nat.mod_eq_of_lt hn] at hread
  exact ⟨hroom, hread, hnext⟩

/-- Going back over what was read gives the old buffer. -/
theorem setPosition_advance {nb : Nat} (hnb : nb ≤ buf.remaining) :
    setPosition buf.position (buf.advance nb hnb) = .ok () buf :=
  dif_pos (show buf.position ≤ (buf.advance nb hnb).limit from
    buf.position_le)

end Modes

end IoBuffer

end Unity
end NetEngine
