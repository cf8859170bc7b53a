-- SUMMARY: The scan map `around`, the packet buffer and the parser's globals, with the effects a parser step can have.
import Mathlib.Logic.Function.Basic
import Mathlib.Data.List.Range
import LidarCar.Base.Machine

/-!
# The memory of the lidar parser

The types of `EAI_X4.h` and the globals of `EAI_X4.c`. A C array is a total
function from its index: the model neither stops nor wraps an index that leaves
the array. Every indexed access is an `Effect` instead, so that staying inside
the array is a statement about the effects of a run.
-/

namespace Slam

/-- `PackAge`: the fields of the packet being read. -/
structure PackAge where
  lsn : UInt8
  fsa : UInt16
  lsa : UInt16
  cs : UInt16
  buf : Nat → UInt16

/-- `AroundPoint`: an angle in units of 1/64 degree and a distance. -/
structure AroundPoint where
  angle : UInt16
  distance : UInt16
  deriving DecidableEq, Repr, Inhabited

/-- `Around`: one turn of the lidar. -/
structure Around where
  firstpoint : AroundPoint
  ap : Int → AroundPoint
  number : Int16

/-- The elements of `ap` that count: those below `number`. -/
def Around.recorded (a : Around) : List AroundPoint :=
  (List.range a.number.toInt.toNat).map fun x : Nat => a.ap x

/-- The number of elements of `around`. -/
def aroundSize : Int := 5

/-- The number of elements of `Around.ap`. -/
def apSize : Int := 1440

/-- The number of elements of `PackAge.buf`. -/
def bufSize : Nat := 40

/-- The globals of `EAI_X4.c`. -/
structure Globals where
  around : Int → Around
  circle : Int8
  count : Int16

/-- What a step does besides moving the parser on, in program order. -/
inductive Effect where
  /-- `circle++`, on the CT byte of a start packet. -/
  | circleInc
  /-- `around[turn].number = count`. -/
  | number (turn : Int)
  /-- `around[turn].firstpoint` is written. -/
  | firstpoint (turn : Int)
  /-- `around[turn].ap[slot]` is written. -/
  | ap (turn slot : Int)
  /-- `package.buf[i]` is written. -/
  | buf (i : Nat)
  /-- A division by `package.lsn`. -/
  | divide (lsn : UInt8)
  /-- `eaix4_putchar(b)`. -/
  | putchar (b : UInt8)
  /-- `rt_event_send(&ControlEvent, controlEventEaix4)`. -/
  | eventSend
  deriving DecidableEq, Repr

/-- The index into `around` that the effect uses, if it accesses `around`. -/
def Effect.turn : Effect → Option Int
  | .number t | .firstpoint t | .ap t _ => some t
  | _ => none

/-- `rt_event_send` is the one effect the master thread waits for. -/
def Effect.isEvent : Effect → Bool
  | .eventSend => true
  | _ => false

/-- The effects that reach other threads or the lidar. -/
def Effect.isOutput : Effect → Bool
  | .putchar _ | .eventSend => true
  | .circleInc | .number _ | .firstpoint _ | .ap _ _ | .buf _ | .divide _ => false

/-! ## Storing a point -/

/-- `around[circle - 1].ap[count] = pt; count++`. -/
def Globals.storePoint (g : Globals) (pt : AroundPoint) : Globals × List Effect :=
  let turn := g.circle.toInt - 1
  let slot := g.count.toInt
  ({ g with
      around := Function.update g.around turn
        { g.around turn with ap := Function.update (g.around turn).ap slot pt }
      count := Int16.ofInt (slot + 1) },
    [.ap turn slot])

/-- `around[turn].number = count`. -/
def Globals.storeNumber (g : Globals) (turn : Int) : Globals :=
  { g with around := Function.update g.around turn { g.around turn with number := g.count } }

/-- `circle++` and, from the second turn on, the closing of the turn before. -/
def Globals.openTurn (g : Globals) : Globals × List Effect :=
  let circle := Int8.ofInt (g.circle.toInt + 1)
  if circle.toInt > 1 then
    let turn := circle.toInt - 2
    ({ g.storeNumber turn with circle := circle, count := 0 }, [.circleInc, .number turn])
  else
    ({ g with circle := circle }, [.circleInc])

/-- `around[turn].firstpoint = pt`. -/
def Globals.storeFirstpoint (g : Globals) (turn : Int) (pt : AroundPoint) : Globals :=
  { g with around := Function.update g.around turn { g.around turn with firstpoint := pt } }

@[simp] theorem Globals.storePoint_circle (g : Globals) (pt : AroundPoint) :
    (g.storePoint pt).1.circle = g.circle := rfl

@[simp] theorem Globals.storePoint_count (g : Globals) (pt : AroundPoint) :
    (g.storePoint pt).1.count = Int16.ofInt (g.count.toInt + 1) := rfl

@[simp] theorem Globals.storePoint_effects (g : Globals) (pt : AroundPoint) :
    (g.storePoint pt).2 = [.ap (g.circle.toInt - 1) g.count.toInt] := rfl

@[simp] theorem Globals.storeNumber_circle (g : Globals) (turn : Int) :
    (g.storeNumber turn).circle = g.circle := rfl

@[simp] theorem Globals.storeNumber_count (g : Globals) (turn : Int) :
    (g.storeNumber turn).count = g.count := rfl

@[simp] theorem Globals.storeFirstpoint_circle (g : Globals) (turn : Int) (pt : AroundPoint) :
    (g.storeFirstpoint turn pt).circle = g.circle := rfl

@[simp] theorem Globals.storeFirstpoint_count (g : Globals) (turn : Int) (pt : AroundPoint) :
    (g.storeFirstpoint turn pt).count = g.count := rfl

end Slam
