import NetEngine.Net.ClientSocket

/-!
# Messages of the lockstep protocol

The messages of player.proto that the server and the Unity client exchange and
the message types of message_type.proto that they are dispatched on.

Parsing belongs to the protobuf runtime.  The server only learns whether
`ParseFromArray` accepts `size` bytes and, for a CSFrame, which fields it read;
a `Codec` is what the runtime answers, and the results about the server hold
for every codec.
-/

namespace NetEngine
namespace LockStep

open Net

/-- A C++ or C# `double`, carried as its bit pattern. -/
abbrev Double :=
  UInt64

/-- Message types that a handler is registered for or a message is sent with. -/
inductive EMessageType where
  | ESCFrameInit
  | ECSFrame
  | ESCFrame
  | ECSLogin
  | ESCLogin
  | ECSReady
  | ESCSight
deriving DecidableEq

/-- Values of the message types, as stored in the two-byte type field. -/
def EMessageType.value : EMessageType → UInt16
  | .ESCFrameInit => 100
  | .ECSFrame => 101
  | .ESCFrame => 102
  | .ECSLogin => 10001
  | .ESCLogin => 10002
  | .ECSReady => 11001
  | .ESCSight => 20001

structure CSFrame where
  uuid : UInt32
  frameid : UInt64
  keyinfo : List UInt32
deriving DecidableEq

structure UserFrame where
  uuid : UInt32
  keyinfo : List UInt32
deriving DecidableEq

structure SCFrame where
  frameid : UInt64
  nextframeid : UInt64
  users : List UserFrame
deriving DecidableEq

structure SCFrameInit where
  curframeid : UInt64
  nxtframeid : UInt64
deriving DecidableEq

structure PlayerInfo where
  uuid : UInt32
  posx : Double
  posy : Double
  posz : Double
deriving DecidableEq

/-- Messages from a client that a handler accepts. -/
inductive ClientMessage where
  | CSLogin
  | CSReady
  | CSFrame (proto : CSFrame)
deriving DecidableEq

/-- Messages that the server sends. -/
inductive SCMessage where
  | SCLogin (uuid : UInt32)
  | SCFrameInit (frame : SCFrameInit)
  | SCSight (players : List PlayerInfo)
  | SCFrame (frame : SCFrame)
deriving DecidableEq

/-- Type that `s2cMsg` is sent with. -/
def SCMessage.type : SCMessage → EMessageType
  | .SCLogin _ => .ESCLogin
  | .SCFrameInit _ => .ESCFrameInit
  | .SCSight _ => .ESCSight
  | .SCFrame _ => .ESCFrame

/-- Answers of `ParseFromArray(data, size)` for the three client messages. -/
structure Codec where
  parseCSLogin : Memory UInt8 → Int → Bool
  parseCSReady : Memory UInt8 → Int → Bool
  parseCSFrame : Memory UInt8 → Int → Option CSFrame

/-- `int size = msg->size - HEADER_TYPE_BYTES` in the handlers. -/
def payloadSize (msg : MessageBody) : Int :=
  int32 ((msg.size.toNat : Int) - MessageBody.HEADER_TYPE_BYTES)

section PlainCodec

/-- A varint of at most `fuel` bytes. -/
def readVarint : Nat → List UInt8 → Option (Nat × List UInt8)
  | 0, _ => none
  | _, [] => none
  | fuel + 1, b :: bs =>
      if b < 128 then some (b.toNat, bs)
      else
        match readVarint fuel bs with
        | none => none
        | some (n, rest) => some (b.toNat - 128 + 128 * n, rest)

/-- Field numbers and values of a message whose fields are all varints. -/
def readVarintFields : Nat → List UInt8 → Option (List (Nat × Nat))
  | _, [] => some []
  | 0, _ => none
  | fuel + 1, bytes =>
      match readVarint 10 bytes with
      | none => none
      | some (tag, rest) =>
          if tag % 8 ≠ 0 ∨ tag / 8 = 0 then none
          else
            match readVarint 10 rest with
            | none => none
            | some (n, rest') =>
                match readVarintFields fuel rest' with
                | none => none
                | some fields => some ((tag / 8, n) :: fields)

/-- Values of one field, in order. -/
def fieldValues (number : Nat) (fields : List (Nat × Nat)) : List Nat :=
  (fields.filter (fun e => e.1 = number)).map Prod.snd

/-- CSFrame read off its fields: the last uuid and frame id, all the keys. -/
def CSFrame.ofFields (fields : List (Nat × Nat)) : CSFrame :=
  { uuid := UInt32.ofNat ((fieldValues 1 fields).getLastD 0)
    frameid := UInt64.ofNat ((fieldValues 2 fields).getLastD 0)
    keyinfo := (fieldValues 3 fields).map UInt32.ofNat }

/-- Fields in the first `size` bytes of a buffer. -/
def plainFields (data : Memory UInt8) (size : Int) :
    Option (List (Nat × Nat)) :=
  if size < 0 then none
  else readVarintFields size.toNat (data.read 0 size.toNat)

/--
The protobuf runtime on messages whose fields are all varints, which is how the
Unity client writes them; any other message is refused.
-/
def plainCodec : Codec where
  parseCSLogin := fun data size => (plainFields data size).isSome
  parseCSReady := fun data size => (plainFields data size).isSome
  parseCSFrame := fun data size =>
    (plainFields data size).map CSFrame.ofFields

/-- A message record with the given type and payload. -/
def clientBody (type : EMessageType) (payload : List UInt8) : MessageBody where
  size := UInt32.ofNat (payload.length + MessageBody.HEADER_TYPE_BYTES)
  type := type.value
  data := fun i => payload.getD i 0

example :
    plainCodec.parseCSFrame
        (clientBody .ECSFrame [8, 2, 24, 1, 24, 4]).data 6 =
      some ⟨2, 0, [1, 4]⟩ := by
  decide

end PlainCodec

end LockStep
end NetEngine
