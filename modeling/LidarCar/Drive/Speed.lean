-- SUMMARY: The control law of speed_thread_entry and the writes of setpwm.
import LidarCar.Drive.Move

/-!
# The speed loop

The 16-bit arithmetic of `app_speed.c`. The operands of the C expressions are
promoted to `int`, which holds every intermediate result here; what is stored
is truncated to `rt_int16_t`.
-/

namespace Drive

/-! ## setpwm -/

/-- What `setpwm` hands to the hardware: the pin writes in order and the
arguments of `SetTim9Compare`. -/
structure Output where
  pins : List (Pin × Level)
  compare1 : UInt32
  compare2 : UInt32
  deriving DecidableEq, Repr

/-- One of the two branches of `setpwm` for one wheel, and the `pwm` it leaves. -/
def drive (inA inB : Pin) (pwm : Int16) : List (Pin × Level) × Int16 :=
  if pwm ≥ 0 then ([(inA, .low), (inB, .high)], pwm)
  else ([(inA, .high), (inB, .low)], .ofInt (-pwm.toInt))

/-- The conversion of an `rt_int16_t` argument to `rt_uint32_t`. -/
def compareValue (pwm : Int16) : UInt32 :=
  .ofInt pwm.toInt

def setpwm (pwm1 pwm2 : Int16) : Output :=
  let r1 := drive 155 154 pwm1
  let r2 := drive 156 157 pwm2
  { pins := r1.1 ++ r2.1, compare1 := compareValue r1.2, compare2 := compareValue r2.2 }

/-! ## speed_thread_entry -/

/-- The locals of `speed_thread_entry` for one wheel. -/
structure Wheel where
  xspeed : Int16
  lastDiff : Int16
  pwm : Int16
  deriving DecidableEq, Repr

/-- `diff = xspeed - speed`. -/
def Wheel.diff (w : Wheel) (speed : Int16) : Int16 :=
  .ofInt (w.xspeed.toInt - speed.toInt)

/-- `pwm + 6 * diff + 5 * (diff - Last_diff)`, as stored. -/
def nextPwm (pwm diff lastDiff : Int16) : Int16 :=
  .ofInt (pwm.toInt + 6 * diff.toInt + 5 * (diff.toInt - lastDiff.toInt))

/-- The control law. -/
def Wheel.control (w : Wheel) (speed : Int16) : Wheel :=
  { w with pwm := nextPwm w.pwm (w.diff speed) w.lastDiff, lastDiff := w.diff speed }

/-- What one iteration reads. -/
structure Sample where
  /-- `rt_mutex_take(&SpeedMutex, RT_WAITING_NO) == RT_EOK` -/
  took : Bool
  wantspeed1 : Int16
  wantspeed2 : Int16
  speed1 : Int16
  speed2 : Int16
  deriving DecidableEq, Repr

structure Controller where
  wheel1 : Wheel
  wheel2 : Wheel
  deriving DecidableEq, Repr

/-- The locals at the entry of the thread. -/
def Controller.entry : Controller where
  wheel1 := { xspeed := 0, lastDiff := 0, pwm := 0 }
  wheel2 := { xspeed := 0, lastDiff := 0, pwm := 0 }

/-- `xspeed1 = wantspeed1; xspeed2 = wantspeed2`, if the mutex was taken. -/
def Controller.target (c : Controller) (i : Sample) : Controller :=
  if i.took then
    { wheel1 := { c.wheel1 with xspeed := i.wantspeed1 }
      wheel2 := { c.wheel2 with xspeed := i.wantspeed2 } }
  else c

/-- The iteration goes to `out` past the control law. -/
def Sample.stops (i : Sample) : Bool :=
  i.took && i.wantspeed1 = 0 && i.wantspeed2 = 0

/-- One iteration of the loop. -/
def iterate (c : Controller) (i : Sample) : Controller × List Output :=
  let c := c.target i
  let c : Controller :=
    if i.stops then
      { wheel1 := { c.wheel1 with pwm := 0 }, wheel2 := { c.wheel2 with pwm := 0 } }
    else
      { wheel1 := c.wheel1.control i.speed1, wheel2 := c.wheel2.control i.speed2 }
  (c, [setpwm c.wheel1.pwm c.wheel2.pwm])

end Drive
