-- SUMMARY: In every interleaving the speed thread computes the iterations of the speed loop.
import LidarCar.Base.Machine
import LidarCar.Base.Transition
import LidarCar.Drive.System

/-!
# The speed thread and the speed loop

`iterate` is one pass of the loop as a function of what it reads. The speed
thread takes that pass in single statements, between those of other threads, and
arrives where `iterate` does.
-/

namespace Drive

open Transition (Reach)

/-- The controller that the rest of the iteration computes. -/
def SpeedThread.plan (t : SpeedThread) : Controller :=
  let w1 := t.wheel1
  let w2 := t.wheel2
  match t.pc with
  | .test =>
    if w1.xspeed = 0 ∧ w2.xspeed = 0 then
      { wheel1 := { w1 with pwm := 0 }, wheel2 := { w2 with pwm := 0 } }
    else
      { wheel1 := w1.control t.speed1, wheel2 := w2.control t.speed2 }
  | .clear1 => { wheel1 := { w1 with pwm := 0 }, wheel2 := { w2 with pwm := 0 } }
  | .clear2 => { wheel1 := w1, wheel2 := { w2 with pwm := 0 } }
  | .diff1 => { wheel1 := w1.control t.speed1, wheel2 := w2.control t.speed2 }
  | .diff2 =>
    { wheel1 := { w1 with pwm := nextPwm w1.pwm t.diff1 w1.lastDiff, lastDiff := t.diff1 }
      wheel2 := w2.control t.speed2 }
  | .pwm1 =>
    { wheel1 := { w1 with pwm := nextPwm w1.pwm t.diff1 w1.lastDiff, lastDiff := t.diff1 }
      wheel2 := { w2 with pwm := nextPwm w2.pwm t.diff2 w2.lastDiff, lastDiff := t.diff2 } }
  | .pwm2 =>
    { wheel1 := { w1 with lastDiff := t.diff1 }
      wheel2 := { w2 with pwm := nextPwm w2.pwm t.diff2 w2.lastDiff, lastDiff := t.diff2 } }
  | .lastDiff1 =>
    { wheel1 := { w1 with lastDiff := t.diff1 }, wheel2 := { w2 with lastDiff := t.diff2 } }
  | .lastDiff2 => { wheel1 := w1, wheel2 := { w2 with lastDiff := t.diff2 } }
  | _ => { wheel1 := w1, wheel2 := w2 }

/-- The thread is in an iteration of the loop that began with `c`. -/
def SpeedThread.Iterates (t : SpeedThread) (c : Controller) : Prop :=
  match t.pc with
  | .getspeedcounter => t.wheel1 = c.wheel1 ∧ t.wheel2 = c.wheel2
  | .setcounterzero | .take =>
    t.wheel1 = c.wheel1 ∧ t.wheel2 = c.wheel2 ∧
      t.speed1 = t.sample.speed1 ∧ t.speed2 = t.sample.speed2
  | .xspeed1 =>
    t.wheel1 = c.wheel1 ∧ t.wheel2 = c.wheel2 ∧
      t.speed1 = t.sample.speed1 ∧ t.speed2 = t.sample.speed2 ∧ t.sample.took = true
  | .xspeed2 =>
    t.wheel1 = { c.wheel1 with xspeed := t.sample.wantspeed1 } ∧ t.wheel2 = c.wheel2 ∧
      t.speed1 = t.sample.speed1 ∧ t.speed2 = t.sample.speed2 ∧ t.sample.took = true
  | _ => t.plan = (iterate c t.sample).1

/-- The controller after the iterations that are complete. -/
def SpeedThread.before (t : SpeedThread) : Controller :=
  (Machine.run iterate .entry t.samples).1

variable {κ : Type*} [DecidableEq κ] {s : System κ} {speed1 speed2 : Int16}

theorem iterate_of_take_fails {c : Controller} {i : Sample} (h : i.took = false) :
    (iterate c i).1 =
      { wheel1 := c.wheel1.control i.speed1, wheel2 := c.wheel2.control i.speed2 } := by
  simp [iterate, Controller.target, Sample.stops, h]

theorem SpeedThread.Iterates.branchTaken {t : SpeedThread} {c : Controller} (took : Bool)
    (h : t.Iterates c) (hpc : t.pc = .take) : (t.branchTaken took).Iterates c := by
  simp only [SpeedThread.Iterates, hpc] at h
  obtain ⟨h1, h2, hs1, hs2⟩ := h
  cases took with
  | true => exact ⟨h1, h2, hs1, hs2, rfl⟩
  | false =>
      simp only [SpeedThread.Iterates, SpeedThread.branchTaken, SpeedThread.plan,
        iterate_of_take_fails, Bool.false_eq_true, if_false, h1, h2, hs1, hs2]

theorem SpeedThread.Iterates.readSecond {t : SpeedThread} {c : Controller} (v : Int16)
    (o : Origin) (h : t.Iterates c) (hpc : t.pc = .xspeed2) : (t.readSecond v o).Iterates c := by
  simp only [SpeedThread.Iterates, hpc] at h
  obtain ⟨h1, h2, hs1, hs2, htook⟩ := h
  simp only [SpeedThread.Iterates, SpeedThread.readSecond, SpeedThread.plan, iterate,
    Controller.target, Sample.stops, htook, h1, h2, hs1, hs2, if_true, Bool.true_and,
    Bool.and_eq_true, decide_eq_true_eq]

/-- The statements that touch only the locals keep the plan; the delay ends it. -/
theorem SpeedThread.Iterates.next {t : SpeedThread} (h : t.Iterates t.before) :
    (t.next speed1 speed2).Iterates (t.next speed1 speed2).before := by
  cases hpc : t.pc
  case getspeedcounter =>
    simp only [SpeedThread.Iterates, hpc] at h
    simp only [SpeedThread.next, hpc]
    exact ⟨h.1, h.2, rfl, rfl⟩
  case setcounterzero =>
    simp only [SpeedThread.Iterates, hpc] at h
    simp only [SpeedThread.next, hpc]
    exact h
  case test =>
    simp only [SpeedThread.Iterates, SpeedThread.plan, hpc] at h
    by_cases hzero : t.wheel1.xspeed = 0 ∧ t.wheel2.xspeed = 0
    · rw [if_pos hzero] at h
      simp only [SpeedThread.next, hpc, if_pos hzero]
      exact h
    · rw [if_neg hzero] at h
      simp only [SpeedThread.next, hpc, if_neg hzero]
      exact h
  case delay =>
    simp only [SpeedThread.Iterates, SpeedThread.plan, hpc] at h
    simp only [SpeedThread.next, hpc, SpeedThread.Iterates, SpeedThread.before,
      Machine.run_concat]
    rw [← SpeedThread.before, ← h]
    exact ⟨rfl, rfl⟩
  case take | xspeed1 | xspeed2 | setpwm | compare =>
    simpa only [SpeedThread.next, hpc] using h
  all_goals
    simp only [SpeedThread.Iterates, SpeedThread.plan, hpc] at h
    simp only [SpeedThread.next, hpc]
    exact h

theorem System.stepSpeed_iterates (h : s.speed.Iterates s.speed.before) :
    (s.stepSpeed speed1 speed2).speed.Iterates (s.stepSpeed speed1 speed2).speed.before := by
  cases hpc : s.speed.pc
  case take =>
    simp only [System.stepSpeed, hpc]
    exact h.branchTaken _ hpc
  case xspeed1 =>
    simp only [SpeedThread.Iterates, hpc] at h
    obtain ⟨h1, h2, hrest⟩ := h
    simp only [System.stepSpeed, hpc]
    exact ⟨by rw [SpeedThread.readFirst, h1]; rfl, h2, hrest⟩
  case xspeed2 =>
    simp only [System.stepSpeed, hpc]
    exact h.readSecond _ _ hpc
  case setpwm pins =>
    simp only [SpeedThread.Iterates, SpeedThread.plan, hpc] at h
    cases pins <;> simp only [System.stepSpeed, hpc] <;> exact h
  case compare =>
    simp only [SpeedThread.Iterates, SpeedThread.plan, hpc] at h
    simp only [System.stepSpeed, hpc]
    exact h
  all_goals
    simp only [System.stepSpeed, hpc]
    exact h.next

theorem System.iterates_step {a : Label κ} {s' : System κ}
    (h : s.speed.Iterates s.speed.before) (hnext : s.next a = some s') :
    s'.speed.Iterates s'.speed.before := by
  cases a with
  | call k c =>
      obtain ⟨-, call, -, -, rfl⟩ := System.next_call hnext
      exact h
  | caller k =>
      obtain ⟨call, -, ⟨-, rfl⟩ | ⟨st, rest, -, rfl⟩⟩ := System.next_caller hnext
      · exact h
      · simpa only [System.advance, System.exec_speed] using h
  | speed speed1 speed2 =>
      obtain rfl : s.stepSpeed speed1 speed2 = s' := Option.some.inj hnext
      exact System.stepSpeed_iterates h

/-- In every run, at the head of the loop the wheels are where the completed
iterations put them. -/
theorem controller_of_reach {C : System κ → Label κ → Prop} {priority : Thread κ → UInt8}
    (h : Reach System.next C (.init priority) s) (hpc : s.speed.pc = .getspeedcounter) :
    s.speed.wheel1 = s.speed.before.wheel1 ∧ s.speed.wheel2 = s.speed.before.wheel2 := by
  have hit : s.speed.Iterates s.speed.before :=
    h.invariant (I := fun s => s.speed.Iterates s.speed.before) ⟨rfl, rfl⟩
      fun hi _ hnext => System.iterates_step hi hnext
  simpa only [SpeedThread.Iterates, hpc] using hit

end Drive
