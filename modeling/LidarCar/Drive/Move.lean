-- SUMMARY: The command functions of app_move.c as lists of their statements.
import Mathlib.Data.Int.Notation

/-!
# Commands

The five functions of `app_move.c` run in several threads, so each is the list
of its statements and not one state change.
-/

namespace Drive

/-- `PIN_LOW` and `PIN_HIGH`. -/
inductive Level where
  | low
  | high
  deriving DecidableEq, Repr

/-- A pin number. -/
abbrev Pin := Nat

def motor_in_1 : Pin := 155

def motor_in_2 : Pin := 154

def motor_in_3 : Pin := 156

def motor_in_4 : Pin := 157

/-- The statements of the command functions. -/
inductive Statement where
  /-- `wantspeed1 = v` -/
  | wantspeed1 (v : Int16)
  /-- `wantspeed2 = v` -/
  | wantspeed2 (v : Int16)
  /-- `rt_pin_write(pin, value)` -/
  | pinWrite (pin : Pin) (value : Level)
  /-- `rt_mutex_release(&SpeedMutex)` -/
  | mutexRelease
  deriving DecidableEq, Repr

/-- The body the four moving commands share. -/
def move (v1 v2 : Int16) : List Statement :=
  [.wantspeed1 v1, .wantspeed2 v2, .mutexRelease]

def carForward : List Statement := move 80 80

def carBack : List Statement := move (-80) (-80)

def carLeft : List Statement := move (-80) 80

def carRight : List Statement := move 80 (-80)

def carStop : List Statement :=
  [.wantspeed1 0, .wantspeed2 0, .pinWrite motor_in_1 .high, .pinWrite motor_in_2 .high,
    .pinWrite motor_in_3 .high, .pinWrite motor_in_4 .high, .mutexRelease]

inductive Command where
  | carForward
  | carBack
  | carLeft
  | carRight
  | carStop
  deriving DecidableEq, Repr

def Command.body : Command → List Statement
  | .carForward => Drive.carForward
  | .carBack => Drive.carBack
  | .carLeft => Drive.carLeft
  | .carRight => Drive.carRight
  | .carStop => Drive.carStop

/-- The wanted speeds that the command asks for. -/
def Command.pair : Command → Int16 × Int16
  | .carForward => (80, 80)
  | .carBack => (-80, -80)
  | .carLeft => (-80, 80)
  | .carRight => (80, -80)
  | .carStop => (0, 0)

end Drive
