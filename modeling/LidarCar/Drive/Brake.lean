-- SUMMARY: The brake that carStop sets holds exactly until the loop comes to its setpwm.
import LidarCar.Drive.SpeedMutex

/-!
# The brake

`carStop` sets all four inputs of the bridge, which brakes the motors. The speed
thread writes the same pins in each iteration, and for a `pwm` of zero too. Each
`setpwm` clears one input of each wheel, so the brake lasts as long as none of its
writes comes after those of `carStop`.
-/

namespace Drive

open Transition (Reach Run)

/-- The inputs of the bridge. -/
def motorPins : List Pin := [motor_in_1, motor_in_2, motor_in_3, motor_in_4]

/-- The brake state: all four inputs of the bridge are set. -/
def System.InputsHigh {κ : Type*} (s : System κ) : Prop :=
  ∀ pin ∈ motorPins, s.pins pin = .high

instance System.decidableInputsHigh {κ : Type*} (s : System κ) : Decidable s.InputsHigh :=
  inferInstanceAs (Decidable (∀ pin ∈ motorPins, _))

/-! ## setpwm -/

theorem drive_lowers (inA inB : Pin) (pwm : Int16) :
    (inA, .low) ∈ (drive inA inB pwm).1 ∨ (inB, .low) ∈ (drive inA inB pwm).1 := by
  rw [drive]
  split
  · exact Or.inl List.mem_cons_self
  · exact Or.inr (List.mem_cons_of_mem _ List.mem_cons_self)

/-- Every `setpwm` clears one input of each wheel. -/
theorem setpwm_lowers (pwm1 pwm2 : Int16) :
    ((motor_in_1, .low) ∈ (setpwm pwm1 pwm2).pins ∨ (motor_in_2, .low) ∈ (setpwm pwm1 pwm2).pins) ∧
      ((motor_in_3, .low) ∈ (setpwm pwm1 pwm2).pins ∨
        (motor_in_4, .low) ∈ (setpwm pwm1 pwm2).pins) :=
  ⟨(drive_lowers 155 154 pwm1).imp (List.mem_append_left _) (List.mem_append_left _),
    (drive_lowers 156 157 pwm2).imp (List.mem_append_right _) (List.mem_append_right _)⟩

theorem drive_fst (inA inB : Pin) (pwm : Int16) :
    (drive inA inB pwm).1.map Prod.fst = [inA, inB] := by
  rw [drive]
  split <;> rfl

/-- Every `setpwm` writes each input once. -/
theorem setpwm_fst (pwm1 pwm2 : Int16) :
    (setpwm pwm1 pwm2).pins.map Prod.fst = motorPins := by
  simp only [setpwm, List.map_append, drive_fst]
  rfl

/-! ## Braking -/

/-- The next step of the call is its return, from `carStop`. -/
def Call.stopReturns (call : Call) : Bool :=
  call.rest.isEmpty && call.command = .carStop

/-- The call is a `carStop` that has written `pin`. -/
def Call.HasRaised (call : Call) (pin : Pin) : Prop :=
  call.command = .carStop ∧ .pinWrite pin .high ∉ call.rest

/-- The drive, and whether a `carStop` has returned since a command function was
last started. -/
structure Braked (κ : Type*) where
  system : System κ
  braking : Bool

section Steps

variable {κ : Type*} [DecidableEq κ] {s s' : System κ} {t t' : Braked κ} {a : Label κ}

def Braked.brakingAfter (t : Braked κ) : Label κ → Bool
  | .call _ _ => false
  | .caller k => t.braking || (t.system.calls k).any Call.stopReturns
  | .speed _ _ => t.braking

def Braked.next (t : Braked κ) (a : Label κ) : Option (Braked κ) :=
  (t.system.next a).map fun s => { system := s, braking := t.brakingAfter a }

def Braked.init (priority : Thread κ → UInt8) : Braked κ where
  system := .init priority
  braking := false

/-- A `carStop` that returned or that is still in progress has set `pin`. -/
def Braked.Holds (t : Braked κ) (pin : Pin) : Prop :=
  t.braking = true ∨ ∃ k call, t.system.calls k = some call ∧ call.HasRaised pin

/-- The pin that the next statement writes. -/
def SpeedPc.writes : SpeedPc → Option Pin
  | .setpwm ((pin, _) :: _) => some pin
  | _ => none

/-- The speed thread does not come to write a pin that a `carStop` has set, from the
write of the `carStop` to the start of the next command. -/
def Braked.Undisturbed (t : Braked κ) : Label κ → Prop
  | .call _ _ | .caller _ => True
  | .speed _ _ => ∀ pin ∈ t.system.speed.pc.writes, ¬ t.Holds pin

/-- Calls only ever set pins, and the pins that are held are set. -/
structure Braked.Kept (t : Braked κ) : Prop where
  raises : ∀ k call, t.system.calls k = some call → ∀ pin, .pinWrite pin .low ∉ call.rest
  high : ∀ pin ∈ motorPins, t.Holds pin → t.system.pins pin = .high

theorem Braked.next_eq (hnext : t.next a = some t') :
    t.system.next a = some t'.system ∧ t'.braking = t.brakingAfter a := by
  obtain ⟨s, hs, rfl⟩ := Option.map_eq_some_iff.mp hnext
  exact ⟨hs, rfl⟩

theorem body_raises (c : Command) (pin : Pin) : .pinWrite pin .low ∉ c.body := by
  cases c <;> simp [Command.body, carForward, carBack, carLeft, carRight, carStop, move]

/-- A `carStop` that starts has all its writes ahead. -/
theorem not_hasRaised_of_body {call : Call} {pin : Pin} (hrest : call.rest = call.command.body)
    (hpin : pin ∈ motorPins) : ¬ call.HasRaised pin := by
  rintro ⟨hstop, hraised⟩
  rw [hrest, hstop] at hraised
  apply hraised
  simp only [motorPins, List.mem_cons, List.not_mem_nil, or_false] at hpin
  rcases hpin with rfl | rfl | rfl | rfl <;> simp [Command.body, carStop]

/-! ## One statement -/

/-- A statement that does not clear the pin leaves it set. -/
theorem System.exec_pin_high {k : κ} {o : Origin} {st : Statement} {pin : Pin}
    (hst : st ≠ .pinWrite pin .low) (h : s.pins pin = .high) :
    (s.exec k o st).pins pin = .high := by
  cases st with
  | pinWrite pin' value =>
      apply pins_update_high h
      rintro ⟨rfl, rfl⟩
      exact hst rfl
  | wantspeed1 v => exact h
  | wantspeed2 v => exact h
  | mutexRelease => exact h

/-- The pin writes of the `setpwm` that the locals call for. -/
def SpeedThread.pinWrites (t : SpeedThread) : List (Pin × Level) :=
  (setpwm t.wheel1.pwm t.wheel2.pwm).pins

/-- A statement of the speed thread is a pin write of `setpwm`, or leaves the pins as
they are; then a `setpwm` after it has not begun. -/
theorem System.stepSpeed_pins (s : System κ) (speed1 speed2 : Int16) :
    (∃ pin value rest, s.speed.pc = .setpwm ((pin, value) :: rest) ∧
      s.stepSpeed speed1 speed2 =
        { s with
          pins := Function.update s.pins pin value
          speed := { s.speed with pc := .setpwm rest } }) ∨
      (s.speed.pc.writes = none ∧ (s.stepSpeed speed1 speed2).pins = s.pins ∧
        ∀ rest, (s.stepSpeed speed1 speed2).speed.pc = .setpwm rest →
          rest = (s.stepSpeed speed1 speed2).speed.pinWrites) := by
  cases hs : s.speed.pc
  case setpwm pins =>
    rcases pins with - | ⟨⟨pin, value⟩, rest⟩
    · exact Or.inr ⟨rfl, by simp [System.stepSpeed, hs], by simp [System.stepSpeed, hs]⟩
    · exact Or.inl ⟨pin, value, rest, rfl, by simp only [System.stepSpeed, hs]⟩
  case take =>
    refine Or.inr ⟨rfl, by simp only [System.stepSpeed, hs], fun rest hrest => ?_⟩
    simp only [System.stepSpeed, hs, SpeedThread.branchTaken] at hrest
    split at hrest <;> cases hrest
  case test =>
    refine Or.inr ⟨rfl, by simp only [System.stepSpeed, hs], fun rest hrest => ?_⟩
    simp only [System.stepSpeed, hs, SpeedThread.next] at hrest
    split at hrest <;> cases hrest
  case clear2 =>
    refine Or.inr ⟨rfl, by simp only [System.stepSpeed, hs], fun rest hrest => ?_⟩
    simp only [System.stepSpeed, hs, SpeedThread.next, SpeedPc.setpwm.injEq] at hrest ⊢
    exact hrest.symm
  case lastDiff2 =>
    refine Or.inr ⟨rfl, by simp only [System.stepSpeed, hs], fun rest hrest => ?_⟩
    simp only [System.stepSpeed, hs, SpeedThread.next, SpeedPc.setpwm.injEq] at hrest ⊢
    exact hrest.symm
  all_goals
    refine Or.inr ⟨rfl, by simp only [System.stepSpeed, hs], ?_⟩
    simp [System.stepSpeed, hs, SpeedThread.next, SpeedThread.readFirst, SpeedThread.readSecond]

/-- A statement that does not write the pin leaves it as it is. -/
theorem System.stepSpeed_pin {speed1 speed2 : Int16} {pin : Pin}
    (hpc : pin ∉ s.speed.pc.writes) : (s.stepSpeed speed1 speed2).pins pin = s.pins pin := by
  rcases s.stepSpeed_pins speed1 speed2 with ⟨pin', value, rest, hs, heq⟩ | ⟨-, heq, -⟩
  · rw [hs] at hpc
    rw [heq]
    exact Function.update_of_ne (fun hpin => hpc (by rw [hpin]; rfl)) ..
  · rw [heq]

/-! ## Steps -/

theorem Braked.Kept.call (h : t.Kept) {k : κ} {c : Command}
    (hnext : t.next (.call k c) = some t') : t'.Kept := by
  obtain ⟨hsystem, hbraking⟩ := Braked.next_eq hnext
  obtain ⟨-, call, rfl, hrest, heq⟩ := System.next_call hsystem
  have hcalls : t'.system.calls = Function.update t.system.calls k (some call) := by rw [heq]
  have hpins : t'.system.pins = t.system.pins := by rw [heq]
  constructor
  case raises =>
    intro k' call' hk' pin
    rw [hcalls] at hk'
    rcases calls_update hk' with ⟨-, hcall⟩ | ⟨-, hbefore⟩
    · obtain rfl := Option.some.inj hcall
      rw [hrest]
      exact body_raises call.command pin
    · exact h.raises k' call' hbefore pin
  case high =>
    intro pin hpin hholds
    rw [hpins]
    apply h.high pin hpin
    rcases hholds with hbrakes | ⟨k', call', hk', hraised⟩
    · rw [hbraking] at hbrakes
      cases hbrakes
    · rw [hcalls] at hk'
      rcases calls_update hk' with ⟨-, hcall⟩ | ⟨-, hbefore⟩
      · obtain rfl := Option.some.inj hcall
        exact absurd hraised (not_hasRaised_of_body hrest hpin)
      · exact Or.inr ⟨k', call', hbefore, hraised⟩

theorem Braked.Kept.return (h : t.Kept) {k : κ} {call : Call}
    (hk : t.system.calls k = some call) (hrest : call.rest = [])
    (hsystem : t'.system = { t.system with calls := Function.update t.system.calls k none })
    (hbraking : t'.braking = t.brakingAfter (.caller k)) : t'.Kept := by
  have hupdate : t'.system.calls = Function.update t.system.calls k none := by rw [hsystem]
  have hcalls : ∀ k' call', t'.system.calls k' = some call' →
      t.system.calls k' = some call' := by
    intro k' call' hk'
    rw [hupdate] at hk'
    rcases calls_update hk' with ⟨-, hnone⟩ | ⟨-, hbefore⟩
    · cases hnone
    · exact hbefore
  have hpins : t'.system.pins = t.system.pins := by rw [hsystem]
  constructor
  case raises => exact fun k' call' hk' => h.raises k' call' (hcalls k' call' hk')
  case high =>
    intro pin hpin hholds
    rw [hpins]
    apply h.high pin hpin
    rcases hholds with hbrakes | ⟨k', call', hk', hraised⟩
    · rw [hbraking, Braked.brakingAfter, hk, Option.any_some, Bool.or_eq_true] at hbrakes
      rcases hbrakes with hbrakes | hstop
      · exact Or.inl hbrakes
      · -- the `carStop` that returns has no write ahead
        rw [Call.stopReturns, Bool.and_eq_true, decide_eq_true_eq] at hstop
        exact Or.inr ⟨k, call, hk, hstop.2, by rw [hrest]; nofun⟩
    · exact Or.inr ⟨k', call', hcalls k' call' hk', hraised⟩

theorem Braked.Kept.advance (h : t.Kept) {k : κ} {call : Call} {st : Statement}
    {rest : List Statement} (hk : t.system.calls k = some call) (hrest : call.rest = st :: rest)
    (hsystem : t'.system = t.system.advance k call st rest)
    (hbraking : t'.braking = t.brakingAfter (.caller k)) : t'.Kept := by
  have hraises := h.raises k call hk
  simp only [hrest, List.mem_cons, not_or] at hraises
  have hcalls : t'.system.calls =
      Function.update t.system.calls k (some { call with rest := rest }) := by
    rw [hsystem, System.advance]
  have hpins : t'.system.pins = (t.system.exec k call.origin st).pins := by rw [hsystem]; rfl
  constructor
  case raises =>
    intro k' call' hk' pin
    rw [hcalls] at hk'
    rcases calls_update hk' with ⟨-, hcall⟩ | ⟨-, hbefore⟩
    · obtain rfl := Option.some.inj hcall
      exact (hraises pin).2
    · exact h.raises k' call' hbefore pin
  case high =>
    intro pin hpin hholds
    rw [hpins]
    have hkeep : t.Holds pin → (t.system.exec k call.origin st).pins pin = .high := fun hheld =>
      System.exec_pin_high (Ne.symm (hraises pin).1) (h.high pin hpin hheld)
    rcases hholds with hbrakes | ⟨k', call', hk', hraised⟩
    · apply hkeep
      rw [hbraking, Braked.brakingAfter, hk, Option.any_some, Call.stopReturns, hrest] at hbrakes
      exact Or.inl ((Bool.or_false _).symm.trans hbrakes)
    · rw [hcalls] at hk'
      rcases calls_update hk' with ⟨-, hcall⟩ | ⟨-, hbefore⟩
      · obtain rfl := Option.some.inj hcall
        -- either this statement sets the pin, or an earlier one did
        by_cases hst : st = .pinWrite pin .high
        · subst hst
          exact Function.update_self _ _ _
        · refine hkeep (Or.inr ⟨k, call, hk, hraised.1, ?_⟩)
          rw [hrest, List.mem_cons, not_or]
          exact ⟨Ne.symm hst, hraised.2⟩
      · exact hkeep (Or.inr ⟨k', call', hbefore, hraised⟩)

theorem Braked.Kept.speed (h : t.Kept) {speed1 speed2 : Int16}
    (hC : t.Undisturbed (.speed speed1 speed2))
    (hnext : t.next (.speed speed1 speed2) = some t') : t'.Kept := by
  obtain ⟨hsystem, hbraking⟩ := Braked.next_eq hnext
  obtain heq : t.system.stepSpeed speed1 speed2 = t'.system := Option.some.inj hsystem
  have hcalls : t'.system.calls = t.system.calls := by
    rw [← heq]
    exact (t.system.stepSpeed_commands speed1 speed2).1
  constructor
  case raises =>
    rw [hcalls]
    exact h.raises
  case high =>
    intro pin hpin hholds
    have hheld : t.Holds pin := by
      rwa [Braked.Holds, hcalls, hbraking] at hholds
    rw [← heq, System.stepSpeed_pin fun hwrites => hC pin hwrites hheld]
    exact h.high pin hpin hheld

theorem Braked.Kept.step (h : t.Kept) (hC : t.Undisturbed a) (hnext : t.next a = some t') :
    t'.Kept := by
  cases a with
  | call k c => exact h.call hnext
  | caller k =>
      obtain ⟨hsystem, hbraking⟩ := Braked.next_eq hnext
      obtain ⟨call, hk, ⟨hrest, heq⟩ | ⟨st, rest, hrest, heq⟩⟩ := System.next_caller hsystem
      · exact h.return hk hrest heq hbraking
      · exact h.advance hk hrest heq hbraking
  | speed speed1 speed2 => exact h.speed hC hnext

/-- As long as the speed thread writes no pin that a `carStop` has set, all four
inputs are high from its return to the start of the next command. -/
theorem brake_holds {priority : Thread κ → UInt8}
    (h : Reach Braked.next Braked.Undisturbed (.init priority) t) (hbraking : t.braking = true) :
    t.system.InputsHigh := by
  have hkept : t.Kept := by
    refine h.invariant ⟨fun k call hk => ?_, fun _ _ _ => rfl⟩ fun hi hC hnext => hi.step hC hnext
    exact absurd hk (Option.some_ne_none call).symm
  exact fun pin hpin => hkept.high pin hpin (Or.inl hbraking)

/-! ## What the loop writes after a command -/

/-- `setpwm` has done some of its pin writes, and has others left to do. -/
def SpeedPc.Midway : SpeedPc → Prop
  | .setpwm pins => 0 < pins.length ∧ pins.length < 4
  | _ => False

/-- No command in progress has a pin write left to do. -/
def System.Written (s : System κ) : Prop :=
  ∀ k call, s.calls k = some call → ∀ pin value, .pinWrite pin value ∉ call.rest

/-- The brake is set: the inputs are high, and the writes to them are done. -/
structure System.Settled (s : System κ) : Prop where
  high : s.InputsHigh
  written : s.Written
  between : ¬ s.speed.pc.Midway

/-- No command starts, and the loop writes no pin. -/
def Untouched (s : System κ) : Label κ → Prop
  | .call _ _ => False
  | .caller _ => True
  | .speed _ _ => s.speed.pc.writes = none

/-- The loop has come to a `setpwm` since the inputs were set: it has done the writes
`done` of it, or is past one. -/
def System.Rewritten (s : System κ) : Prop :=
  (∃ done rest, s.speed.pc = .setpwm rest ∧ s.speed.pinWrites = done ++ rest ∧ done ≠ [] ∧
    ∀ w ∈ done, s.pins w.1 = w.2) ∨
  (¬ s.InputsHigh ∧ ∀ rest, s.speed.pc = .setpwm rest → rest = s.speed.pinWrites)

theorem SpeedThread.length_pinWrites (t : SpeedThread) : t.pinWrites.length = 4 := by
  have hfst := congrArg List.length (setpwm_fst t.wheel1.pwm t.wheel2.pwm)
  rwa [List.length_map] at hfst

omit [DecidableEq κ] in
/-- A `setpwm` that is done has cleared an input. -/
theorem System.not_inputsHigh (h : ∀ w ∈ s.speed.pinWrites, s.pins w.1 = w.2) : ¬ s.InputsHigh := by
  intro hhigh
  have hlow {pin : Pin} (hpin : pin ∈ motorPins)
      (hmem : (pin, .low) ∈ s.speed.pinWrites) : False := by
    have heq : s.pins pin = .low := h _ hmem
    rw [hhigh pin hpin] at heq
    cases heq
  rcases (setpwm_lowers s.speed.wheel1.pwm s.speed.wheel2.pwm).1 with hmem | hmem
  · exact hlow (by decide) hmem
  · exact hlow (by decide) hmem

omit [DecidableEq κ] in
theorem System.Rewritten.not_inputsHigh (h : s.Rewritten) (hpc : ¬ s.speed.pc.Midway) :
    ¬ s.InputsHigh := by
  rcases h with ⟨done, rest, hs, hwrites, hne, hdone⟩ | ⟨hlow, -⟩
  · have hlength := s.speed.length_pinWrites
    have hpos := List.length_pos_iff.mpr hne
    rw [hwrites, List.length_append] at hlength
    rw [hs, SpeedPc.Midway] at hpc
    obtain rfl : rest = [] := List.length_eq_zero_iff.mp (by omega)
    rw [List.append_nil] at hwrites
    exact System.not_inputsHigh (hwrites ▸ hdone)
  · exact hlow

/-- A step of a command with its pin writes done. -/
theorem System.Written.caller (h : s.Written) {k : κ} (hnext : s.next (.caller k) = some s') :
    s'.Written ∧ s'.pins = s.pins ∧ s'.speed = s.speed := by
  obtain ⟨call, hk, ⟨hrest, rfl⟩ | ⟨st, rest, hrest, rfl⟩⟩ := System.next_caller hnext
  · refine ⟨fun k' call' hk' => ?_, rfl, rfl⟩
    rcases calls_update hk' with ⟨-, hnone⟩ | ⟨-, hbefore⟩
    · cases hnone
    · exact h k' call' hbefore
  · have hcall := h k call hk
    simp only [hrest, List.mem_cons, not_or] at hcall
    refine ⟨fun k' call' hk' pin value => ?_, ?_, s.exec_speed k call.origin st⟩
    · rcases calls_update hk' with ⟨-, hsome⟩ | ⟨-, hbefore⟩
      · obtain rfl := Option.some.inj hsome
        exact (hcall pin value).2
      · exact h k' call' hbefore pin value
    · cases st with
      | pinWrite pin value => exact absurd rfl (hcall pin value).1
      | wantspeed1 v => rfl
      | wantspeed2 v => rfl
      | mutexRelease => rfl

theorem System.Written.stepSpeed (h : s.Written) (speed1 speed2 : Int16) :
    (s.stepSpeed speed1 speed2).Written := by
  rw [System.Written, (s.stepSpeed_commands speed1 speed2).1]
  exact h

/-- While no command starts and none has a pin write left, a property of the pins and the
speed thread holds on as long as the speed thread keeps it. -/
theorem System.Written.invariant {C : System κ → Label κ → Prop} {I : System κ → Prop}
    {as : List (Label κ)} (hw : s.Written) (h : I s) (hrun : Run System.next C s as s')
    (hcall : ∀ {s k c}, ¬ C s (.call k c))
    (hframe : ∀ {s s' : System κ}, s'.pins = s.pins → s'.speed = s.speed → I s → I s')
    (hspeed : ∀ {s} speed1 speed2, C s (.speed speed1 speed2) → I s →
      I (s.stepSpeed speed1 speed2)) : I s' := by
  have hinv : I s' ∧ s'.Written := by
    refine hrun.invariant (I := fun s => I s ∧ s.Written) ⟨h, hw⟩ fun {s s' a} hi hC hnext => ?_
    obtain ⟨h, hw⟩ := hi
    cases a with
    | call k c => exact absurd hC hcall
    | caller k =>
        obtain ⟨hw', hpins, hthread⟩ := hw.caller hnext
        exact ⟨hframe hpins hthread h, hw'⟩
    | speed speed1 speed2 =>
        obtain rfl : s.stepSpeed speed1 speed2 = s' := Option.some.inj hnext
        exact ⟨hspeed speed1 speed2 hC h, hw.stepSpeed speed1 speed2⟩
  exact hinv.1

omit [DecidableEq κ] in
/-- The loop does the first write of a `setpwm`, or the next one. -/
theorem System.rewritten_write {done rest : List (Pin × Level)} {pin : Pin} {value : Level}
    (hwrites : s.speed.pinWrites = done ++ (pin, value) :: rest)
    (hdone : ∀ w ∈ done, s.pins w.1 = w.2) :
    System.Rewritten { s with
      pins := Function.update s.pins pin value
      speed := { s.speed with pc := .setpwm rest } } := by
  refine Or.inl ⟨done ++ [(pin, value)], rest, rfl, ?_, by simp, fun w hw => ?_⟩
  · rw [List.append_assoc]
    exact hwrites
  · have hnodup : (s.speed.pinWrites.map Prod.fst).Nodup := by
      rw [SpeedThread.pinWrites, setpwm_fst]
      decide
    rw [hwrites, List.map_append, List.nodup_append] at hnodup
    rcases List.mem_append.mp hw with hw | hw
    · -- an input is written once
      have hne : w.1 ≠ pin :=
        hnodup.2.2 w.1 (List.mem_map_of_mem hw) pin List.mem_cons_self
      exact (Function.update_of_ne hne ..).trans (hdone w hw)
    · obtain rfl := List.mem_singleton.mp hw
      exact Function.update_self ..

theorem System.Rewritten.stepSpeed (h : s.Rewritten) (speed1 speed2 : Int16) :
    (s.stepSpeed speed1 speed2).Rewritten := by
  rcases s.stepSpeed_pins speed1 speed2 with
    ⟨pin, value, rest, hs, heq⟩ | ⟨hs, hpins, hwrites⟩
  · rw [heq]
    rcases h with ⟨done, rest', hs', hwrites, -, hdone⟩ | ⟨-, hfull⟩
    · obtain rfl := SpeedPc.setpwm.inj (hs.symm.trans hs')
      exact System.rewritten_write hwrites hdone
    · have hwrites : s.speed.pinWrites = [] ++ (pin, value) :: rest := (hfull _ hs).symm
      exact System.rewritten_write hwrites nofun
  · refine Or.inr ⟨?_, hwrites⟩
    rw [System.InputsHigh, hpins]
    rcases h with ⟨done, rest, hs', hwrites', -, hdone⟩ | ⟨hlow, -⟩
    · have hnil : rest = [] := by
        rw [hs'] at hs
        cases rest with
        | nil => rfl
        | cons w rest => cases hs
      rw [hnil, List.append_nil] at hwrites'
      exact System.not_inputsHigh (hwrites' ▸ hdone)
    · exact hlow

theorem System.Rewritten.run {as : List (Label κ)} (h : s.Rewritten) (hw : s.Written)
    (hrun : Run System.next NoCall s as s') : s'.Rewritten := by
  refine hw.invariant h hrun (fun hC => hC) ?_ ?_
  · intro s s' hpins hspeed hr
    rwa [System.Rewritten, System.InputsHigh, hpins, hspeed]
  · intro s speed1 speed2 _ hr
    exact hr.stepSpeed speed1 speed2

/-- While no command starts, the loop writes no pin, or has come to a `setpwm`. -/
theorem System.untouched_or_rewritten {as : List (Label κ)} (hw : s.Written)
    (hpc : ∀ rest, s.speed.pc = .setpwm rest → rest = [] ∨ rest = s.speed.pinWrites)
    (hrun : Run System.next NoCall s as s') :
    Run System.next Untouched s as s' ∨ s'.Rewritten := by
  induction as generalizing s with
  | nil => exact Or.inl hrun
  | cons a as ih =>
      obtain ⟨hC, u, hu, hrest⟩ := hrun
      cases a with
      | call k c => cases hC
      | caller k =>
          obtain ⟨hw', -, hspeed⟩ := hw.caller hu
          exact (ih hw' (by rwa [hspeed]) hrest).imp_left fun hrun => ⟨trivial, u, hu, hrun⟩
      | speed speed1 speed2 =>
          obtain rfl : s.stepSpeed speed1 speed2 = u := Option.some.inj hu
          have hw' := hw.stepSpeed speed1 speed2
          rcases s.stepSpeed_pins speed1 speed2 with
            ⟨pin, value, rest, hs, heq⟩ | ⟨hs, -, hwrites⟩
          · have hwrites : s.speed.pinWrites = [] ++ (pin, value) :: rest :=
              ((hpc _ hs).resolve_left nofun).symm
            have hfirst : (s.stepSpeed speed1 speed2).Rewritten := by
              rw [heq]
              exact System.rewritten_write hwrites nofun
            exact Or.inr (hfirst.run hw' hrest)
          · exact (ih hw' (fun rest hrest => Or.inr (hwrites rest hrest)) hrest).imp_left
              fun hrun => ⟨hs, _, hu, hrun⟩

/-- Pins that nobody writes stay as they are. -/
theorem System.Written.inputsHigh {as : List (Label κ)} (hw : s.Written) (h : s.InputsHigh)
    (hrun : Run System.next Untouched s as s') : s'.InputsHigh := by
  refine hw.invariant h hrun (fun hC => hC) ?_ ?_
  · intro s s' hpins _ hhigh
    rwa [System.InputsHigh, hpins]
  · intro s speed1 speed2 hC hhigh pin hpin
    have hwrites : s.speed.pc.writes = none := hC
    rw [System.stepSpeed_pin (by rw [hwrites]; nofun)]
    exact hhigh pin hpin

/-- The writes that a `setpwm` in progress has left are the last ones of it. -/
theorem System.pinWrites_of_reach {priority : Thread κ → UInt8}
    (h : Reach System.next (fun _ _ => True) (.init priority) s) :
    ∀ rest, s.speed.pc = .setpwm rest → rest <:+ s.speed.pinWrites := by
  refine h.invariant (I := fun s => ∀ rest, s.speed.pc = .setpwm rest → rest <:+ s.speed.pinWrites)
    (fun _ hrest => by cases hrest) fun {s s' a} hi _ hnext => ?_
  cases a with
  | call k c =>
      obtain ⟨-, call, -, -, rfl⟩ := System.next_call hnext
      exact hi
  | caller k =>
      have hspeed : s'.speed = s.speed := by
        obtain ⟨call, -, ⟨-, rfl⟩ | ⟨st, rest, -, rfl⟩⟩ := System.next_caller hnext
        · rfl
        · exact s.exec_speed k call.origin st
      rwa [hspeed]
  | speed speed1 speed2 =>
      obtain rfl : s.stepSpeed speed1 speed2 = s' := Option.some.inj hnext
      rcases s.stepSpeed_pins speed1 speed2 with ⟨pin, value, rest, hs, heq⟩ | ⟨-, -, hwrites⟩
      · rw [heq]
        rintro rest' ⟨⟩
        exact (List.suffix_cons _ _).trans (hi _ hs)
      · intro rest hrest
        rw [hwrites rest hrest]

/-- With the brake set, all four inputs are high as long as the loop has not come to a
`setpwm`. -/
theorem System.Settled.inputsHigh_iff {priority : Thread κ → UInt8} {as : List (Label κ)}
    (h : s.Settled) (hs : Reach System.next (fun _ _ => True) (.init priority) s)
    (hrun : Run System.next NoCall s as s') (hpc : ¬ s'.speed.pc.Midway) :
    s'.InputsHigh ↔ Run System.next Untouched s as s' := by
  constructor
  · intro hhigh
    have hwrites : ∀ rest, s.speed.pc = .setpwm rest → rest = [] ∨ rest = s.speed.pinWrites := by
      intro rest hrest
      have hsuffix := System.pinWrites_of_reach hs rest hrest
      have hbetween := h.between
      rw [hrest, SpeedPc.Midway] at hbetween
      cases Nat.eq_zero_or_pos rest.length with
      | inl hzero => exact Or.inl (List.length_eq_zero_iff.mp hzero)
      | inr hpos =>
          have hle := s.speed.length_pinWrites
          exact Or.inr (hsuffix.eq_of_length_le (by omega))
    apply (System.untouched_or_rewritten h.written hwrites hrun).resolve_right
    intro hrewritten
    exact hrewritten.not_inputsHigh hpc hhigh
  · exact h.written.inputsHigh h.high

/-- In every run in which the loop writes no input from the write of a `carStop` to the
start of the next command, the brake holds; and from a state with the brake set on, all
four inputs are high if and only if the loop has written none. -/
theorem brake_holds_iff {priority : Thread κ → UInt8} :
    (∀ t : Braked κ, Reach Braked.next Braked.Undisturbed (.init priority) t →
      t.braking = true → t.system.InputsHigh) ∧
    ∀ (s s' : System κ) (as : List (Label κ)),
      Reach System.next (fun _ _ => True) (.init priority) s → s.Settled →
        Run System.next NoCall s as s' → ¬ s'.speed.pc.Midway →
          (s'.InputsHigh ↔ Run System.next Untouched s as s') :=
  ⟨fun _ ht hbraking => brake_holds ht hbraking,
    fun _ _ _ hs hsettled hrun hpc => hsettled.inputsHigh_iff hs hrun hpc⟩

end Steps

/-! ## The delay and the iteration after it -/

/-- The statements of the loop up to the delay. -/
def iteration : List (Label Caller) :=
  List.replicate 14 (.speed 0 0)

/-- `carStop` in the master thread, from its start to its return. -/
def stopCall : List (Label Caller) :=
  .call .master .carStop :: List.replicate 8 (.caller .master)

/-- The speed thread runs only while no command does and the car does not brake. -/
def Braked.Apart (t : Braked Caller) : Label Caller → Prop
  | .call _ _ | .caller _ => True
  | .speed _ _ =>
    t.braking = false ∧ t.system.calls .master = none ∧ t.system.calls .shell = none

instance (t : Braked Caller) : (a : Label Caller) → Decidable (t.Apart a)
  | .call _ _ | .caller _ => inferInstanceAs (Decidable True)
  | .speed _ _ => inferInstanceAs (Decidable (_ ∧ _))

theorem Braked.Apart.undisturbed {t : Braked Caller} {a : Label Caller} (h : t.Apart a) :
    t.Undisturbed a := by
  cases a with
  | call k c => trivial
  | caller k => trivial
  | speed speed1 speed2 =>
      obtain ⟨hbraking, hmaster, hshell⟩ := h
      rintro pin - (hbrakes | ⟨k, call, hk, -⟩)
      · rw [hbraking] at hbrakes
        cases hbrakes
      · cases k with
        | master => rw [hmaster] at hk; cases hk
        | shell => rw [hshell] at hk; cases hk

/-- The brake is set in the delay of the speed thread, and gone with the next iteration. -/
theorem brake_holds_iff_in_delay :
    (∃ t : Braked Caller, Reach Braked.next Braked.Undisturbed (.init createdPriority) t ∧
      t.braking = true ∧ t.system.InputsHigh) ∧
    ∃ s s' : System Caller, Reach System.next (fun _ _ => True) (.init createdPriority) s ∧
      s.Settled ∧ Run System.next NoCall s iteration s' ∧ ¬ s'.InputsHigh ∧
        ¬ Run System.next Untouched s iteration s' := by
  constructor
  · have hrun : (Transition.exec Braked.next Braked.Apart (.init createdPriority)
        (iteration ++ stopCall)).any (fun t => t.braking) = true := by decide
    obtain ⟨t, hreach, hbraking⟩ := Transition.exists_reach_of_exec hrun
    have ht : Reach Braked.next Braked.Undisturbed (.init createdPriority) t :=
      hreach.mono Braked.Apart.undisturbed
    exact ⟨t, ht, hbraking, brake_holds_iff.1 t ht hbraking⟩
  · have hrun : (Transition.exec System.next (fun _ _ => True) (.init createdPriority)
        (iteration ++ stopCall)).any (fun s => (s.InputsHigh ∧ s.speed.pc = .delay ∧
          (s.calls .master).isNone ∧ (s.calls .shell).isNone) ∧
        (Transition.exec System.next NoCall s iteration).any (fun s' =>
          s'.speed.pc = .compare ∧ ¬ s'.InputsHigh)) = true := by decide
    obtain ⟨s, hs, htest⟩ := Transition.exists_reach_of_exec hrun
    obtain ⟨⟨hhigh, hpc, hmaster, hshell⟩, hrest⟩ := of_decide_eq_true htest
    obtain ⟨s', hexec, hend⟩ := (Option.any_eq_true _ _).mp hrest
    obtain ⟨hpc', hlow⟩ := of_decide_eq_true hend
    have hsettled : s.Settled := by
      refine ⟨hhigh, fun k call hk => ?_, by rw [hpc]; exact id⟩
      cases k with
      | master => rw [hk] at hmaster; cases hmaster
      | shell => rw [hk] at hshell; cases hshell
    have hrun' := Transition.run_of_exec hexec
    have hiff := brake_holds_iff.2 s s' iteration hs hsettled hrun' (by rw [hpc']; exact id)
    exact ⟨s, s', hs, hsettled, hrun', hlow, fun huntouched => hlow (hiff.mpr huntouched)⟩

/-- The next iteration releases it, before any other command starts. -/
theorem brake_released :
    ∃ t : Braked Caller, Reach Braked.next (fun _ _ => True) (.init createdPriority) t ∧
      t.braking = true ∧ t.system.pins motor_in_1 = .low ∧ t.system.pins motor_in_3 = .low := by
  have hrun : (Transition.exec Braked.next (fun _ _ => True) (.init createdPriority)
      (iteration ++ stopCall ++ iteration)).any (fun t => t.braking ∧
        t.system.pins motor_in_1 = .low ∧ t.system.pins motor_in_3 = .low) = true := by decide
  obtain ⟨t, hreach, htest⟩ := Transition.exists_reach_of_exec hrun
  exact ⟨t, hreach, of_decide_eq_true htest⟩

end Drive
