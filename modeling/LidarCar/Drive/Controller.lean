-- SUMMARY: When the 16-bit speed controller is exact over a run.
import Mathlib.Tactic.Ring
import LidarCar.Base.Machine
import LidarCar.Drive.Speed

/-!
# Exactness of the speed controller

The control law is incremental: each iteration adds to `pwm`. Over exact
integers it is a function of the errors since the last stop, and the 16-bit
loop follows it as long as the errors and that function stay in range.
-/

namespace Drive

/-! ## Exact iterations -/

def Wheel.exactDiff (w : Wheel) (speed : Int16) : Int :=
  w.xspeed.toInt - speed.toInt

def Wheel.exactPwm (w : Wheel) (speed : Int16) : Int :=
  w.pwm.toInt + 6 * w.exactDiff speed + 5 * (w.exactDiff speed - w.lastDiff.toInt)

/-- The iteration stores the exact values. -/
def Wheel.Stores (w : Wheel) (speed : Int16) : Prop :=
  (w.diff speed).toInt = w.exactDiff speed ∧ (w.control speed).pwm.toInt = w.exactPwm speed

/-- The pin writes for the sign of a control value. -/
def direction (inA inB : Pin) (u : Int) : List (Pin × Level) :=
  if 0 ≤ u then [(inA, .low), (inB, .high)] else [(inA, .high), (inB, .low)]

/-- The bridge is driven with the signs and the absolute values of `u1` and `u2`. -/
def Output.Drives (o : Output) (u1 u2 : Int) : Prop :=
  o.pins = direction 155 154 u1 ++ direction 156 157 u2 ∧
    o.compare1.toNat = u1.natAbs ∧ o.compare2.toNat = u2.natAbs

/-- The iteration stores and drives the exact values, which are zero on a stop. -/
def Controller.Exact (c : Controller) (i : Sample) : Prop :=
  let c' := c.target i
  if i.stops then
    ∀ o ∈ (iterate c i).2, o.Drives 0 0
  else
    c'.wheel1.Stores i.speed1 ∧ c'.wheel2.Stores i.speed2 ∧
      ∀ o ∈ (iterate c i).2, o.Drives (c'.wheel1.exactPwm i.speed1) (c'.wheel2.exactPwm i.speed2)

/-! ## The control value as a function of the readings -/

/-- The errors of one wheel: their sum since the last stop, the last one, and
the one before the last stop. -/
structure Tally where
  total : Int
  last : Int
  base : Int
  deriving DecidableEq, Repr

def Tally.add (t : Tally) (error : Int) : Tally :=
  { t with total := t.total + error, last := error }

def Tally.stop (t : Tally) : Tally :=
  { total := 0, last := t.last, base := t.last }

/-- The control law in positional form. -/
def Tally.value (t : Tally) : Int :=
  6 * t.total + 5 * (t.last - t.base)

/-- The targets and the errors of both wheels. -/
structure History where
  target1 : Int16
  target2 : Int16
  tally1 : Tally
  tally2 : Tally

def History.entry : History where
  target1 := 0
  target2 := 0
  tally1 := { total := 0, last := 0, base := 0 }
  tally2 := { total := 0, last := 0, base := 0 }

def History.target (h : History) (i : Sample) : History :=
  if i.took then { h with target1 := i.wantspeed1, target2 := i.wantspeed2 } else h

@[simp] theorem History.target_tally1 (h : History) (i : Sample) :
    (h.target i).tally1 = h.tally1 := by
  rw [History.target]
  split <;> rfl

@[simp] theorem History.target_tally2 (h : History) (i : Sample) :
    (h.target i).tally2 = h.tally2 := by
  rw [History.target]
  split <;> rfl

def History.error1 (h : History) (i : Sample) : Int :=
  (h.target i).target1.toInt - i.speed1.toInt

def History.error2 (h : History) (i : Sample) : Int :=
  (h.target i).target2.toInt - i.speed2.toInt

def observe (h : History) (i : Sample) : History × List Empty :=
  if i.stops then
    ({ h.target i with tally1 := h.tally1.stop, tally2 := h.tally2.stop }, [])
  else
    ({ h.target i with
        tally1 := h.tally1.add (h.error1 i)
        tally2 := h.tally2.add (h.error2 i) }, [])

/-- The range of `rt_int16_t`. -/
def IsInt16 (x : Int) : Prop :=
  -2 ^ 15 ≤ x ∧ x < 2 ^ 15

/-- The error fits and the control value fits with either sign. -/
def Tally.Fits (t : Tally) (error : Int) : Prop :=
  IsInt16 error ∧ |(t.add error).value| < 2 ^ 15

def History.Fits (h : History) (i : Sample) : Prop :=
  i.stops = false → h.tally1.Fits (h.error1 i) ∧ h.tally2.Fits (h.error2 i)

/-! ## One wheel -/

theorem toInt_ofInt_iff {x : Int} : (Int16.ofInt x).toInt = x ↔ IsInt16 x := by
  constructor
  · intro h
    rw [← h]
    exact ⟨(Int16.ofInt x).le_toInt, (Int16.ofInt x).toInt_lt⟩
  · rintro ⟨hge, hlt⟩
    exact Int16.toInt_ofInt_of_le hge hlt

theorem Wheel.stores_iff (w : Wheel) (speed : Int16) :
    w.Stores speed ↔ IsInt16 (w.exactDiff speed) ∧ IsInt16 (w.exactPwm speed) := by
  rw [Wheel.Stores, Wheel.diff, ← Wheel.exactDiff, toInt_ofInt_iff]
  refine and_congr_right fun hdiff => ?_
  have hstored : (w.diff speed).toInt = w.exactDiff speed := toInt_ofInt_iff.mpr hdiff
  rw [Wheel.control, nextPwm, hstored, ← Wheel.exactPwm, toInt_ofInt_iff]

/-! ## The bridge -/

theorem nonneg_iff (pwm : Int16) : pwm ≥ 0 ↔ 0 ≤ pwm.toInt := by
  rw [ge_iff_le, Int16.le_iff_toInt_le, Int16.toInt_zero]

theorem drive_pins (inA inB : Pin) (pwm : Int16) :
    (drive inA inB pwm).1 = direction inA inB pwm.toInt := by
  simp only [drive, direction, nonneg_iff]
  split <;> rfl

theorem compareValue_toNat (pwm : Int16) :
    (compareValue pwm).toNat = (pwm.toInt % 2 ^ 32).toNat := by
  have hlt : (pwm.toInt % 2 ^ 32).toNat < 2 ^ 32 := by omega
  exact UInt32.toNat_ofNat_of_lt' hlt

/-- The compare value is the absolute value, but for `-2 ^ 15`, which has no
negative. -/
theorem compareValue_drive_iff (inA inB : Pin) (pwm : Int16) :
    (compareValue (drive inA inB pwm).2).toNat = pwm.toInt.natAbs ↔ |pwm.toInt| < 2 ^ 15 := by
  have hge := pwm.le_toInt
  have hlt := pwm.toInt_lt
  rw [compareValue_toNat, abs_lt]
  by_cases hpos : 0 ≤ pwm.toInt
  · have hdrive : (drive inA inB pwm).2 = pwm := by
      rw [drive, if_pos ((nonneg_iff pwm).mpr hpos)]
    rw [hdrive]
    omega
  · have hdrive : (drive inA inB pwm).2 = .ofInt (-pwm.toInt) := by
      rw [drive, if_neg (mt (nonneg_iff pwm).mp hpos)]
    by_cases hmin : pwm.toInt = -2 ^ 15
    · rw [hdrive, hmin]
      decide
    · rw [hdrive, Int16.toInt_ofInt_of_le (by omega) (by omega)]
      omega

theorem setpwm_drives_iff (pwm1 pwm2 : Int16) :
    (setpwm pwm1 pwm2).Drives pwm1.toInt pwm2.toInt ↔
      |pwm1.toInt| < 2 ^ 15 ∧ |pwm2.toInt| < 2 ^ 15 := by
  simp only [Output.Drives, setpwm, drive_pins, true_and, compareValue_drive_iff]

/-! ## The run -/

/-- The wheel is where exact integers put it. -/
structure Wheel.Follows (w : Wheel) (target : Int16) (t : Tally) : Prop where
  xspeed : w.xspeed = target
  lastDiff : w.lastDiff.toInt = t.last
  pwm : w.pwm.toInt = t.value

structure Controller.Follows (c : Controller) (h : History) : Prop where
  wheel1 : c.wheel1.Follows h.target1 h.tally1
  wheel2 : c.wheel2.Follows h.target2 h.tally2

theorem Controller.Follows.target {c : Controller} {h : History} (hf : c.Follows h)
    (i : Sample) : (c.target i).Follows (h.target i) := by
  obtain ⟨⟨hx1, hd1, hp1⟩, ⟨hx2, hd2, hp2⟩⟩ := hf
  simp only [Controller.target, History.target]
  split
  · exact ⟨⟨rfl, hd1, hp1⟩, ⟨rfl, hd2, hp2⟩⟩
  · exact ⟨⟨hx1, hd1, hp1⟩, ⟨hx2, hd2, hp2⟩⟩

section Wheel

variable {w : Wheel} {target speed : Int16} {t : Tally}

theorem Wheel.Follows.exactDiff (hf : w.Follows target t) :
    w.exactDiff speed = target.toInt - speed.toInt := by
  rw [Wheel.exactDiff, hf.xspeed]

/-- The incremental law is the positional law. -/
theorem Wheel.Follows.exactPwm (hf : w.Follows target t) :
    w.exactPwm speed = (t.add (target.toInt - speed.toInt)).value := by
  rw [Wheel.exactPwm, hf.exactDiff, hf.pwm, hf.lastDiff]
  simp only [Tally.add, Tally.value]
  ring

theorem Wheel.Follows.control (hf : w.Follows target t) (hs : w.Stores speed) :
    (w.control speed).Follows target (t.add (target.toInt - speed.toInt)) where
  xspeed := hf.xspeed
  lastDiff := hs.1.trans hf.exactDiff
  pwm := hs.2.trans hf.exactPwm

theorem Wheel.Follows.stop (hf : w.Follows target t) :
    ({ w with pwm := 0 } : Wheel).Follows target t.stop where
  xspeed := hf.xspeed
  lastDiff := hf.lastDiff
  pwm := by simp [Tally.stop, Tally.value]

theorem Wheel.Follows.stores_and_iff (hf : w.Follows target t) :
    w.Stores speed ∧ |w.exactPwm speed| < 2 ^ 15 ↔ t.Fits (target.toInt - speed.toInt) := by
  rw [Wheel.stores_iff, hf.exactDiff, hf.exactPwm, Tally.Fits, and_assoc]
  refine and_congr_right fun _ => and_iff_right_of_imp fun habs => ?_
  exact ⟨(abs_lt.mp habs).1.le, (abs_lt.mp habs).2⟩

end Wheel

theorem Controller.Follows.exact_iff {c : Controller} {h : History} (hf : c.Follows h)
    (i : Sample) : c.Exact i ↔ h.Fits i := by
  obtain ⟨hf1, hf2⟩ := hf.target i
  cases hstop : i.stops with
  | true =>
      have hzero : (setpwm 0 0).Drives 0 0 := (setpwm_drives_iff 0 0).mpr ⟨by simp, by simp⟩
      simp [Controller.Exact, History.Fits, iterate, hstop, hzero]
  | false =>
      simp only [Controller.Exact, History.Fits, iterate, hstop, Bool.false_eq_true, if_false,
        List.forall_mem_singleton, forall_const]
      -- where both wheels store the exact values, `setpwm` is given these values
      rw [History.error1, History.error2, ← History.target_tally1 h i,
        ← History.target_tally2 h i, ← hf1.stores_and_iff, ← hf2.stores_and_iff]
      constructor
      · rintro ⟨hs1, hs2, hdrives⟩
        rw [← hs1.2, ← hs2.2, setpwm_drives_iff, hs1.2, hs2.2] at hdrives
        exact ⟨⟨hs1, hdrives.1⟩, ⟨hs2, hdrives.2⟩⟩
      · rintro ⟨⟨hs1, habs1⟩, ⟨hs2, habs2⟩⟩
        refine ⟨hs1, hs2, ?_⟩
        rw [← hs1.2, ← hs2.2, setpwm_drives_iff, hs1.2, hs2.2]
        exact ⟨habs1, habs2⟩

theorem Controller.Follows.step {c : Controller} {h : History} (hf : c.Follows h) (i : Sample)
    (hexact : c.Exact i) : (iterate c i).1.Follows (observe h i).1 := by
  obtain ⟨hf1, hf2⟩ := hf.target i
  cases hstop : i.stops with
  | true =>
      simp only [iterate, observe, hstop, if_true]
      rw [← History.target_tally1 h i, ← History.target_tally2 h i]
      exact ⟨hf1.stop, hf2.stop⟩
  | false =>
      simp only [Controller.Exact, hstop, Bool.false_eq_true, if_false] at hexact
      obtain ⟨hs1, hs2, -⟩ := hexact
      simp only [iterate, observe, hstop, Bool.false_eq_true, if_false]
      rw [← History.target_tally1 h i, ← History.target_tally2 h i]
      exact ⟨hf1.control hs1, hf2.control hs2⟩

theorem Controller.Follows.entry : Controller.entry.Follows History.entry :=
  ⟨⟨rfl, rfl, rfl⟩, ⟨rfl, rfl, rfl⟩⟩

/-- From the start of the thread on, every iteration is exact exactly if every
error and every control value of the history of readings is in range. -/
theorem controller_exact_iff (is : List Sample) :
    Machine.Along iterate Controller.Exact .entry is ↔
      Machine.Along observe History.Fits .entry is :=
  Machine.along_iff_of_simulation (fun _ _ i hf => hf.exact_iff i)
    (fun _ _ i hf hexact => hf.step i hexact) Controller.Follows.entry

/-- `carForward` with both wheels blocked. -/
def stalled : Sample where
  took := true
  wantspeed1 := 80
  wantspeed2 := 80
  speed1 := 0
  speed2 := 0

/-- The controller after `n` blocked iterations. -/
def stalledFor (n : Nat) : Controller :=
  (Machine.run iterate .entry (List.replicate n stalled)).1

/-- A wheel that stays blocked is driven backwards in the 68th iteration. -/
theorem stalled_wraps :
    ((stalledFor 67).target stalled).wheel1.exactPwm stalled.speed1 = 33040 ∧
      (stalledFor 68).wheel1.pwm = -32496 ∧
      (iterate (stalledFor 67) stalled).2.map Output.pins =
        [[(motor_in_1, .high), (motor_in_2, .low), (motor_in_3, .high), (motor_in_4, .low)]] ∧
      ¬ Machine.Along iterate Controller.Exact .entry (List.replicate 68 stalled) := by
  have hexact : ((stalledFor 67).target stalled).wheel1.exactPwm stalled.speed1 = 33040 := by
    decide +kernel
  refine ⟨hexact, by decide +kernel, by decide +kernel, fun halong => ?_⟩
  rw [show List.replicate 68 stalled = List.replicate 67 stalled ++ [stalled] from rfl,
    Machine.along_append, Machine.along_cons, ← stalledFor] at halong
  obtain ⟨-, ⟨⟨-, hpwm⟩, -⟩, -⟩ := halong
  have hlt := (((stalledFor 67).target stalled).wheel1.control stalled.speed1).pwm.toInt_lt
  rw [hpwm, hexact] at hlt
  exact absurd hlt (by decide)

end Drive
