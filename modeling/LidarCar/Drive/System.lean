-- SUMMARY: The speed thread and the threads that call command functions, one statement a step.
import LidarCar.Base.Transition
import LidarCar.Kernel.Ipc
import LidarCar.Drive.Speed

/-!
# The threads of the drive

Command functions run in any number of threads next to `speed_thread_entry`.
Each assignment, mutex call and loop statement is one step. History variables,
which no statement reads, say where a speed comes from and what the loop has
read.
-/

namespace Drive

open Kernel (Mutex)

/-! ## The state -/

/-- The speed thread, and the threads that call command functions. -/
inductive Thread (κ : Type*) where
  | speed
  | caller (k : κ)
  deriving DecidableEq

/-- The assignment a wanted speed comes from. -/
inductive Origin where
  /-- The initialisation to 0. -/
  | initial
  /-- The call with this number, of this command. -/
  | call (number : Nat) (c : Command)
  deriving DecidableEq, Repr

/-- The pair that one origin sets. -/
def Origin.pair : Origin → Int16 × Int16
  | .initial => (0, 0)
  | .call _ c => c.pair

/-- A command function that a thread is in. -/
structure Call where
  number : Nat
  command : Command
  /-- The statements it has not executed yet. -/
  rest : List Statement

def Call.origin (call : Call) : Origin :=
  .call call.number call.command

/-- The next statement of the speed thread. -/
inductive SpeedPc where
  | getspeedcounter
  | setcounterzero
  | take
  /-- `xspeed1 = wantspeed1` -/
  | xspeed1
  /-- `xspeed2 = wantspeed2` -/
  | xspeed2
  /-- `(xspeed1 == 0) && (xspeed2 == 0)` -/
  | test
  /-- `pwm1 = 0` -/
  | clear1
  /-- `pwm2 = 0` -/
  | clear2
  | diff1
  | diff2
  | pwm1
  | pwm2
  | lastDiff1
  | lastDiff2
  /-- The pin writes that `setpwm` has left to do. -/
  | setpwm (pins : List (Pin × Level))
  /-- `SetTim9Compare(pwm1, pwm2)` -/
  | compare
  | delay
  deriving DecidableEq, Repr

/-- The locals of `speed_thread_entry`. -/
structure SpeedThread where
  pc : SpeedPc
  speed1 : Int16
  speed2 : Int16
  wheel1 : Wheel
  wheel2 : Wheel
  diff1 : Int16
  diff2 : Int16
  /-- Where `xspeed1` comes from. -/
  origin1 : Origin
  /-- Where `xspeed2` comes from. -/
  origin2 : Origin
  /-- What the iteration has read so far. -/
  sample : Sample
  /-- What the iterations before it have read. -/
  samples : List Sample

structure System (κ : Type*) where
  wantspeed1 : Int16
  wantspeed2 : Int16
  /-- Where `wantspeed1` comes from. -/
  origin1 : Origin
  /-- Where `wantspeed2` comes from. -/
  origin2 : Origin
  pins : Pin → Level
  compare1 : UInt32
  compare2 : UInt32
  speedMutex : Mutex (Thread κ)
  priority : Thread κ → UInt8
  calls : κ → Option Call
  /-- The number of calls so far. -/
  started : Nat
  speed : SpeedThread

/-! ## Steps -/

inductive Label (κ : Type*) where
  /-- Thread `k` calls a command function. -/
  | call (k : κ) (c : Command)
  /-- Thread `k` executes the next statement of its function, or returns. -/
  | caller (k : κ)
  /-- The speed thread executes its next statement. `getspeedcounter` finds the
  given speeds. -/
  | speed (speed1 speed2 : Int16)

variable {κ : Type*} [DecidableEq κ]

/-- One statement of a command function. -/
def System.exec (s : System κ) (k : κ) (origin : Origin) : Statement → System κ
  | .wantspeed1 v => { s with wantspeed1 := v, origin1 := origin }
  | .wantspeed2 v => { s with wantspeed2 := v, origin2 := origin }
  | .pinWrite pin value => { s with pins := Function.update s.pins pin value }
  | .mutexRelease =>
    let r := s.speedMutex.release s.priority (.caller k)
    { s with speedMutex := r.1, priority := r.2.1 }

/-- One statement of the speed thread that touches nothing but its locals. -/
def SpeedThread.next (t : SpeedThread) (speed1 speed2 : Int16) : SpeedThread :=
  match t.pc with
  | .getspeedcounter =>
    { t with
        speed1 := speed1
        speed2 := speed2
        sample := { t.sample with speed1 := speed1, speed2 := speed2 }
        pc := .setcounterzero }
  | .setcounterzero => { t with pc := .take }
  | .test =>
    { t with pc := if t.wheel1.xspeed = 0 ∧ t.wheel2.xspeed = 0 then .clear1 else .diff1 }
  | .clear1 => { t with wheel1 := { t.wheel1 with pwm := 0 }, pc := .clear2 }
  | .clear2 =>
    { t with wheel2 := { t.wheel2 with pwm := 0 }, pc := .setpwm (setpwm t.wheel1.pwm 0).pins }
  | .diff1 => { t with diff1 := t.wheel1.diff t.speed1, pc := .diff2 }
  | .diff2 => { t with diff2 := t.wheel2.diff t.speed2, pc := .pwm1 }
  | .pwm1 =>
    { t with
        wheel1 := { t.wheel1 with pwm := nextPwm t.wheel1.pwm t.diff1 t.wheel1.lastDiff }
        pc := .pwm2 }
  | .pwm2 =>
    { t with
        wheel2 := { t.wheel2 with pwm := nextPwm t.wheel2.pwm t.diff2 t.wheel2.lastDiff }
        pc := .lastDiff1 }
  | .lastDiff1 => { t with wheel1 := { t.wheel1 with lastDiff := t.diff1 }, pc := .lastDiff2 }
  | .lastDiff2 =>
    { t with
        wheel2 := { t.wheel2 with lastDiff := t.diff2 }
        pc := .setpwm (setpwm t.wheel1.pwm t.wheel2.pwm).pins }
  | .delay => { t with samples := t.samples ++ [t.sample], pc := .getspeedcounter }
  | .take | .xspeed1 | .xspeed2 | .setpwm _ | .compare => t

/-- `if (rt_mutex_take(..) == RT_EOK)`. -/
def SpeedThread.branchTaken (t : SpeedThread) (took : Bool) : SpeedThread :=
  { t with sample := { t.sample with took := took }, pc := if took then .xspeed1 else .diff1 }

/-- `xspeed1 = wantspeed1`. -/
def SpeedThread.readFirst (t : SpeedThread) (wantspeed1 : Int16) (origin : Origin) :
    SpeedThread :=
  { t with
      wheel1 := { t.wheel1 with xspeed := wantspeed1 }
      origin1 := origin
      sample := { t.sample with wantspeed1 := wantspeed1 }
      pc := .xspeed2 }

/-- `xspeed2 = wantspeed2`. -/
def SpeedThread.readSecond (t : SpeedThread) (wantspeed2 : Int16) (origin : Origin) :
    SpeedThread :=
  { t with
      wheel2 := { t.wheel2 with xspeed := wantspeed2 }
      origin2 := origin
      sample := { t.sample with wantspeed2 := wantspeed2 }
      pc := .test }

/-- One statement of the speed thread. -/
def System.stepSpeed (s : System κ) (speed1 speed2 : Int16) : System κ :=
  match s.speed.pc with
  | .take =>
    let r := s.speedMutex.take s.priority .speed
    { s with speedMutex := r.1, speed := s.speed.branchTaken (r.2 = .eok) }
  | .xspeed1 => { s with speed := s.speed.readFirst s.wantspeed1 s.origin1 }
  | .xspeed2 => { s with speed := s.speed.readSecond s.wantspeed2 s.origin2 }
  | .setpwm ((pin, value) :: pins) =>
    { s with
        pins := Function.update s.pins pin value
        speed := { s.speed with pc := .setpwm pins } }
  | .setpwm [] => { s with speed := { s.speed with pc := .compare } }
  | .compare =>
    let o := setpwm s.speed.wheel1.pwm s.speed.wheel2.pwm
    { s with
        compare1 := o.compare1
        compare2 := o.compare2
        speed := { s.speed with pc := .delay } }
  | _ => { s with speed := s.speed.next speed1 speed2 }

def System.next (s : System κ) : Label κ → Option (System κ)
  | .call k c =>
    match s.calls k with
    | none =>
      let call : Call := { number := s.started, command := c, rest := c.body }
      some { s with calls := Function.update s.calls k (some call), started := s.started + 1 }
    | some _ => none
  | .caller k =>
    match s.calls k with
    | some call =>
      match call.rest with
      | st :: rest =>
        let s := s.exec k call.origin st
        some { s with calls := Function.update s.calls k (some { call with rest := rest }) }
      | [] => some { s with calls := Function.update s.calls k none }
    | none => none
  | .speed speed1 speed2 => some (s.stepSpeed speed1 speed2)

/-- The state in which `speed_thread_entry` starts. -/
def System.init (priority : Thread κ → UInt8) : System κ where
  wantspeed1 := 0
  wantspeed2 := 0
  origin1 := .initial
  origin2 := .initial
  pins := fun _ => .high
  compare1 := 300
  compare2 := 300
  speedMutex := .init
  priority := priority
  calls := fun _ => none
  started := 0
  speed :=
    { pc := .getspeedcounter
      speed1 := 0
      speed2 := 0
      wheel1 := Controller.entry.wheel1
      wheel2 := Controller.entry.wheel2
      diff1 := 0
      diff2 := 0
      origin1 := .initial
      origin2 := .initial
      sample := { took := false, wantspeed1 := 0, wantspeed2 := 0, speed1 := 0, speed2 := 0 }
      samples := [] }

/-! ## Updates -/

/-- A call in progress after the one of thread `k` has changed is the new one, or
was in progress before. -/
theorem calls_update {calls : κ → Option Call} {k k' : κ} {call : Option Call} {c : Call}
    (h : Function.update calls k call k' = some c) :
    k' = k ∧ call = some c ∨ k' ≠ k ∧ calls k' = some c := by
  rw [Function.update_apply] at h
  exact ite_eq_iff.mp h

/-- A pin that is set stays so under every write but the one that clears it. -/
theorem pins_update_high {pins : Pin → Level} {pin pin' : Pin} {value : Level}
    (h : pins pin = .high) (hst : ¬ (pin' = pin ∧ value = .low)) :
    Function.update pins pin' value pin = .high := by
  rw [Function.update_apply]
  split
  case isTrue heq =>
    cases value with
    | low => exact absurd ⟨heq.symm, rfl⟩ hst
    | high => rfl
  case isFalse => exact h

/-! ## What a step of a caller does -/

variable {s s' : System κ}

@[simp] theorem System.exec_calls (k : κ) (o : Origin) (st : Statement) :
    (s.exec k o st).calls = s.calls := by
  cases st <;> rfl

@[simp] theorem System.exec_speed (k : κ) (o : Origin) (st : Statement) :
    (s.exec k o st).speed = s.speed := by
  cases st <;> rfl

/-- The state after thread `k` has executed one statement of `call`. -/
def System.advance (s : System κ) (k : κ) (call : Call) (st : Statement)
    (rest : List Statement) : System κ :=
  { s.exec k call.origin st with
    calls := Function.update s.calls k (some { call with rest := rest }) }

theorem System.next_caller {k : κ} (h : s.next (.caller k) = some s') :
    ∃ call, s.calls k = some call ∧
      ((call.rest = [] ∧ s' = { s with calls := Function.update s.calls k none }) ∨
        ∃ st rest, call.rest = st :: rest ∧ s' = s.advance k call st rest) := by
  cases hk : s.calls k with
  | none => simp [System.next, hk] at h
  | some call =>
      refine ⟨call, rfl, ?_⟩
      cases hrest : call.rest with
      | nil =>
          simp only [System.next, hk, hrest, Option.some.injEq] at h
          exact Or.inl ⟨rfl, h.symm⟩
      | cons st rest =>
          simp only [System.next, hk, hrest, System.exec_calls, Option.some.injEq] at h
          exact Or.inr ⟨st, rest, rfl, h.symm⟩

theorem System.next_call {k : κ} {c : Command} (h : s.next (.call k c) = some s') :
    s.calls k = none ∧ ∃ call : Call, call.command = c ∧ call.rest = c.body ∧
      s' = { s with
        calls := Function.update s.calls k (some call), started := s.started + 1 } := by
  cases hk : s.calls k with
  | some call => simp [System.next, hk] at h
  | none =>
      simp only [System.next, hk, Option.some.injEq] at h
      exact ⟨rfl, _, rfl, rfl, h.symm⟩

end Drive
