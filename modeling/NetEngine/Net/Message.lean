import NetEngine.Lib.Memory

/-!
# Messages and frames

`MessageBody` is the record of message.hpp and the constants are those of
message.hpp and net_defined.hpp.  A `Frame` is one message as a sender puts it
on the wire: a four-byte little-endian length, a two-byte type and the payload;
the length counts the type and the payload.
-/

namespace NetEngine
namespace Net

/-- Socket numbers: `#define SOCKET int`. -/
abbrev SOCKET :=
  Int32

def RECV_BUFFER_SIZE : Nat := 8192

namespace MessageBody

def DATA_SIZE : Nat := 1024 * 128

def HEADER_TYPE_BYTES : Nat := 2

def HEADER_LEN_BYTES : Nat := 4

def HEADER_SIZE : Nat := HEADER_LEN_BYTES + HEADER_TYPE_BYTES

/-- `sizeof(MessageBody)`, rounded up to the alignment of `size`. -/
def SIZEOF : Nat := 131080

end MessageBody

/--
`data` is read by index from the address of the array on, so it also shows what
lies behind the `DATA_SIZE` bytes.
-/
structure MessageBody where
  size : UInt32
  type : UInt16
  data : Memory UInt8

namespace MessageBody

/--
The constructor zeroes the record and `memcpy` then lays the first `n` bytes of
a buffer over it.
-/
def ofBytes (buffer : Memory UInt8) (n : Nat) : MessageBody :=
  let image : Memory UInt8 := fun i => if i < n then buffer i else 0
  { size := UInt32.ofNat (image.readLE 0 HEADER_LEN_BYTES)
    type := UInt16.ofNat (image.readLE HEADER_LEN_BYTES HEADER_TYPE_BYTES)
    data := fun i => image (HEADER_SIZE + i) }

end MessageBody

/-- A message as it travels: its length fits the receive buffer. -/
structure Frame where
  type : UInt16
  payload : List UInt8
  fits : payload.length + MessageBody.HEADER_SIZE ≤ RECV_BUFFER_SIZE
deriving DecidableEq

namespace Frame

/-- Value of the length field: type and payload. -/
def length (f : Frame) : Nat :=
  MessageBody.HEADER_TYPE_BYTES + f.payload.length

/-- Wire image of a frame. -/
def bytes (f : Frame) : List UInt8 :=
  leBytes MessageBody.HEADER_LEN_BYTES f.length ++
    (leBytes MessageBody.HEADER_TYPE_BYTES f.type.toNat ++ f.payload)

theorem bytes_length (f : Frame) :
    f.bytes.length = f.length + MessageBody.HEADER_LEN_BYTES := by
  simp [bytes, length]
  omega

theorem bytes_ne_nil (f : Frame) : f.bytes ≠ [] := by
  intro h
  have hlen := f.bytes_length
  rw [h] at hlen
  simp [MessageBody.HEADER_LEN_BYTES] at hlen

theorem length_bounds (f : Frame) :
    MessageBody.HEADER_TYPE_BYTES ≤ f.length ∧
      f.length + MessageBody.HEADER_LEN_BYTES ≤ RECV_BUFFER_SIZE := by
  have hfits := f.fits
  unfold length
  unfold MessageBody.HEADER_SIZE at hfits
  omega

end Frame

/-- A message record shows a frame: same size, type and payload. -/
structure MessageBody.Shows (body : MessageBody) (f : Frame) : Prop where
  size : body.size.toNat = f.length
  type : body.type = f.type
  data : body.data.Holds 0 f.payload

/-- Copying a buffer that begins with a frame gives the frame's message. -/
theorem MessageBody.ofBytes_shows
    {buffer : Memory UInt8} {n : Nat} {f : Frame}
    (h : buffer.Holds 0 f.bytes) (hn : f.bytes.length ≤ n) :
    (MessageBody.ofBytes buffer n).Shows f := by
  have himage :
      Memory.Holds (fun i => if i < n then buffer i else 0) 0 f.bytes := by
    refine h.congr ?_
    intro i hi
    simp [show i < n by omega]
  obtain ⟨hlen, htail⟩ := (Memory.holds_append_iff _ _ _ _).mp himage
  obtain ⟨htype, hdata⟩ := (Memory.holds_append_iff _ _ _ _).mp htail
  have hbounds := f.length_bounds
  refine ⟨?_, ?_, ?_⟩
  · have hread := hlen.readLE_leBytes
    simp only [MessageBody.ofBytes, hread, UInt32.toNat_ofNat']
    simp only [MessageBody.HEADER_LEN_BYTES, RECV_BUFFER_SIZE] at hbounds ⊢
    omega
  · have hread := htype.readLE_leBytes
    rw [leBytes_length, Nat.zero_add] at hread
    have hlt := f.type.toNat_lt
    simp only [MessageBody.ofBytes, hread]
    simp [MessageBody.HEADER_TYPE_BYTES]
  · rw [leBytes_length, leBytes_length] at hdata
    intro i hi
    rw [hdata i hi, Nat.zero_add, Nat.zero_add]
    rfl

/-- The message that a buffer shows determines the bytes copied. -/
theorem MessageBody.ofBytes_inj
    {buffer buffer' : Memory UInt8} {n i : Nat}
    (h : MessageBody.ofBytes buffer n = MessageBody.ofBytes buffer' n)
    (hi : i < n) : buffer i = buffer' i := by
  let image : Memory UInt8 := fun j => if j < n then buffer j else 0
  let image' : Memory UInt8 := fun j => if j < n then buffer' j else 0
  have hsize : image.readLE 0 HEADER_LEN_BYTES =
      image'.readLE 0 HEADER_LEN_BYTES := by
    have heq : (UInt32.ofNat (image.readLE 0 HEADER_LEN_BYTES)).toNat =
        (UInt32.ofNat (image'.readLE 0 HEADER_LEN_BYTES)).toNat :=
      congrArg (fun body => body.size.toNat) h
    have hlt := image.readLE_lt 0 HEADER_LEN_BYTES
    have hlt' := image'.readLE_lt 0 HEADER_LEN_BYTES
    rw [UInt32.toNat_ofNat', UInt32.toNat_ofNat'] at heq
    simp only [HEADER_LEN_BYTES] at hlt hlt' heq ⊢
    omega
  have htype : image.readLE HEADER_LEN_BYTES HEADER_TYPE_BYTES =
      image'.readLE HEADER_LEN_BYTES HEADER_TYPE_BYTES := by
    have heq : (UInt16.ofNat
          (image.readLE HEADER_LEN_BYTES HEADER_TYPE_BYTES)).toNat =
        (UInt16.ofNat
          (image'.readLE HEADER_LEN_BYTES HEADER_TYPE_BYTES)).toNat :=
      congrArg (fun body => body.type.toNat) h
    have hlt := image.readLE_lt HEADER_LEN_BYTES HEADER_TYPE_BYTES
    have hlt' := image'.readLE_lt HEADER_LEN_BYTES HEADER_TYPE_BYTES
    rw [UInt16.toNat_ofNat', UInt16.toNat_ofNat'] at heq
    simp only [HEADER_LEN_BYTES, HEADER_TYPE_BYTES] at hlt hlt' heq ⊢
    omega
  have hdata : ∀ j, image (HEADER_SIZE + j) = image' (HEADER_SIZE + j) :=
    fun j => congrFun (congrArg MessageBody.data h) j
  have hcell : image i = image' i := by
    by_cases hlen : i < HEADER_LEN_BYTES
    · have hbyte := Memory.readLE_inj hsize hlen
      rwa [Nat.zero_add] at hbyte
    · by_cases hheader : i < HEADER_SIZE
      · have hbyte := Memory.readLE_inj htype
          (i := i - HEADER_LEN_BYTES) (by
            simp only [HEADER_SIZE] at hheader
            omega)
        rwa [Nat.add_sub_cancel' (by omega)] at hbyte
      · have hbyte := hdata (i - HEADER_SIZE)
        rwa [Nat.add_sub_cancel' (by omega)] at hbyte
  have himage : image i = buffer i := if_pos hi
  have himage' : image' i = buffer' i := if_pos hi
  rw [← himage, ← himage', hcell]

/-- A buffer whose copy shows a frame begins with it. -/
theorem MessageBody.holds_of_ofBytes_shows
    {buffer : Memory UInt8} {n : Nat} {f : Frame}
    (h : (MessageBody.ofBytes buffer n).Shows f)
    (hn : f.bytes.length ≤ n) :
    buffer.Holds 0 f.bytes := by
  let image : Memory UInt8 := fun i => if i < n then buffer i else 0
  have hlen : image.readLE 0 HEADER_LEN_BYTES = f.length := by
    have hsize : (UInt32.ofNat (image.readLE 0 HEADER_LEN_BYTES)).toNat =
        f.length :=
      h.size
    have hlt := image.readLE_lt 0 HEADER_LEN_BYTES
    rw [UInt32.toNat_ofNat'] at hsize
    simp only [HEADER_LEN_BYTES] at hlt hsize ⊢
    omega
  have htype : image.readLE HEADER_LEN_BYTES HEADER_TYPE_BYTES =
      f.type.toNat := by
    have heq : (UInt16.ofNat
          (image.readLE HEADER_LEN_BYTES HEADER_TYPE_BYTES)).toNat =
        f.type.toNat :=
      congrArg UInt16.toNat h.type
    have hlt := image.readLE_lt HEADER_LEN_BYTES HEADER_TYPE_BYTES
    rw [UInt16.toNat_ofNat'] at heq
    simp only [HEADER_LEN_BYTES, HEADER_TYPE_BYTES] at hlt heq ⊢
    omega
  have himage : image.Holds 0 f.bytes := by
    rw [Frame.bytes, Memory.holds_append_iff, Memory.holds_append_iff,
      leBytes_length, leBytes_length, Nat.zero_add, ← hlen, ← htype]
    refine ⟨Memory.holds_leBytes_readLE _ _ _,
      Memory.holds_leBytes_readLE _ _ _, ?_⟩
    intro i hi
    have hdata := h.data i hi
    rw [Nat.zero_add] at hdata
    exact hdata
  refine himage.congr fun i hi => ?_
  show buffer (0 + i) = if 0 + i < n then buffer (0 + i) else 0
  rw [if_pos (by omega)]

end Net
end NetEngine
