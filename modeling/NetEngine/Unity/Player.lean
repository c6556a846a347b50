import NetEngine.LockStep.Proto

/-!
# Player

Player.cs of the Unity client: the fields of one Player instance and what its
methods do to them.  Methods that reach beyond the instance, to the registry, to
other instances or to the socket, are in `Scene`.

The transform belongs to the Unity engine, and so does its arithmetic on
single-precision vectors; an `Engine` is what the instance asks of it.
-/

namespace NetEngine
namespace Unity

open LockStep

/-- A key as the client carries it. -/
inductive EPlayerEvent where
  | EPE_Key_Forward
  | EPE_Key_Back
  | EPE_Key_Left
  | EPE_Key_Right
  /-- A value without a name, which the cast of a received key lets through. -/
  | unnamed (key : UInt32)
deriving DecidableEq

namespace EPlayerEvent

/-- `(EPlayerEvent)key`. -/
def ofKey (key : UInt32) : EPlayerEvent :=
  if key = 1 then .EPE_Key_Forward
  else if key = 2 then .EPE_Key_Back
  else if key = 3 then .EPE_Key_Left
  else if key = 4 then .EPE_Key_Right
  else .unnamed key

/-- `(System.UInt32)e`. -/
def key : EPlayerEvent → UInt32
  | .EPE_Key_Forward => 1
  | .EPE_Key_Back => 2
  | .EPE_Key_Left => 3
  | .EPE_Key_Right => 4
  | .unnamed key => key

end EPlayerEvent

/-- Axes of a transform that a move follows. -/
inductive Axis where
  | forward
  | right

/-- The engine's part in a Player: a transform and its arithmetic. -/
structure Engine (τ : Type) where
  /-- The transform of a new instance of the prefab. -/
  prefabTransform : τ
  /-- `transform.position = new Vector3((float)x, (float)y, (float)z)`. -/
  place : Double → Double → Double → τ → τ
  /-- `transform.position + (float)speed * axis`, assigned. -/
  plus : Double → Axis → τ → τ
  /-- `transform.position - (float)speed * axis`, assigned. -/
  minus : Double → Axis → τ → τ
  /-- The coordinates of `transform.position`, widened. -/
  position : τ → Double × Double × Double

structure Player (τ : Type) where
  UUID : UInt32 := 0
  posX : Double := 0
  posY : Double := 0
  posZ : Double := 0
  curFrameID : UInt64 := 0
  nxtFrameID : UInt64 := 0
  /-- The bits of `0.1`. -/
  speed : Double := 0x3FB999999999999A
  curFrameInfo : List EPlayerEvent := []
  transform : τ
deriving DecidableEq

namespace Player

variable {τ : Type} (engine : Engine τ)

/-- A new instance of the prefab. -/
def ofPrefab : Player τ :=
  { transform := engine.prefabTransform }

def setPosition (x y z : Double) (p : Player τ) : Player τ :=
  { p with
    posX := x
    posY := y
    posZ := z
    transform := engine.place x y z p.transform }

def setPlayerInfo (info : PlayerInfo) (p : Player τ) : Player τ :=
  setPosition engine info.posx info.posy info.posz
    { p with UUID := info.uuid }

/-- Take over a transform and read the position off it. -/
def setTransform (t : τ) (p : Player τ) : Player τ :=
  setPosition engine (engine.position t).1 (engine.position t).2.1
    (engine.position t).2.2 { p with transform := t }

def moveForward (p : Player τ) : Player τ :=
  p.setTransform engine (engine.plus p.speed .forward p.transform)

def moveBack (p : Player τ) : Player τ :=
  p.setTransform engine (engine.minus p.speed .forward p.transform)

def moveLeft (p : Player τ) : Player τ :=
  p.setTransform engine (engine.minus p.speed .right p.transform)

def moveRight (p : Player τ) : Player τ :=
  p.setTransform engine (engine.plus p.speed .right p.transform)

/-- The switch of `RunKeyInfo`. -/
def moveOf : EPlayerEvent → Option (Player τ → Player τ)
  | .EPE_Key_Forward => some (moveForward engine)
  | .EPE_Key_Back => some (moveBack engine)
  | .EPE_Key_Left => some (moveLeft engine)
  | .EPE_Key_Right => some (moveRight engine)
  | .unnamed _ => none

def onFrameInit (proto : SCFrameInit) (p : Player τ) : Player τ :=
  { p with
    curFrameID := proto.curframeid
    nxtFrameID := proto.nxtframeid }

def pushKeyInfo (connected : Bool) (e : EPlayerEvent) (p : Player τ) :
    Player τ :=
  if connected then { p with curFrameInfo := p.curFrameInfo ++ [e] } else p

/-- `KeyPressEvent` with the answers of `Input.GetKey` for W, S, A and D. -/
def keyPressEvent (connected : Bool) (w s a d : Bool) (p : Player τ) :
    Player τ :=
  let p := if w then p.pushKeyInfo connected .EPE_Key_Forward else p
  let p := if s then p.pushKeyInfo connected .EPE_Key_Back else p
  let p := if a then p.pushKeyInfo connected .EPE_Key_Left else p
  if d then p.pushKeyInfo connected .EPE_Key_Right else p

/-- The message that `SendKeyInfo` sends. -/
def keyInfo (p : Player τ) : CSFrame :=
  ⟨p.UUID, p.curFrameID, p.curFrameInfo.map EPlayerEvent.key⟩

/-- The instance after `SendKeyInfo`. -/
def clearKeyInfo (p : Player τ) : Player τ :=
  { p with curFrameInfo := [] }

/-- The fields that moving leaves alone. -/
structure SameButPlace (p p' : Player τ) : Prop where
  UUID : p'.UUID = p.UUID
  curFrameID : p'.curFrameID = p.curFrameID
  curFrameInfo : p'.curFrameInfo = p.curFrameInfo

/-- Every move of the switch changes nothing but the place. -/
theorem moveOf_same
    {e : EPlayerEvent} {f : Player τ → Player τ}
    (h : moveOf engine e = some f) (p : Player τ) :
    SameButPlace p (f p) := by
  cases e with
  | EPE_Key_Forward | EPE_Key_Back | EPE_Key_Left | EPE_Key_Right =>
      cases h
      exact ⟨rfl, rfl, rfl⟩
  | unnamed key =>
      cases h

/-- Pressing keys changes nothing but the keys collected. -/
theorem keyPressEvent_keys
    (connected w s a d : Bool) (p : Player τ) :
    ∃ keys, p.keyPressEvent connected w s a d =
      { p with curFrameInfo := keys } := by
  have hpush : ∀ (b : Bool) (e : EPlayerEvent) (q : Player τ),
      (∃ keys, q = { p with curFrameInfo := keys }) →
      ∃ keys, (if b then q.pushKeyInfo connected e else q) =
        { p with curFrameInfo := keys } := by
    rintro b e q ⟨keys, rfl⟩
    cases b
    · exact ⟨keys, rfl⟩
    · cases connected
      · exact ⟨keys, rfl⟩
      · exact ⟨keys ++ [e], rfl⟩
  exact hpush d _ _ (hpush a _ _ (hpush s _ _ (hpush w _ _
    ⟨p.curFrameInfo, rfl⟩)))

end Player

end Unity
end NetEngine
