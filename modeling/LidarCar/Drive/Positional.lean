-- SUMMARY: The incremental control law as a positional one modulo 2^16, and what a stop leaves behind.
import Mathlib.Data.Int.ModEq
import Mathlib.Tactic.Ring
import LidarCar.Drive.Balance
import LidarCar.Drive.Controller

/-!
# The positional form

The control law adds to `pwm` in each iteration. Modulo 2 ^ 16 the additions
telescope: `pwm` is a function of the errors since the run began, of the value
it began with and of the `Last_diff` it began with. A stop resets the first of
the two and not the second.
-/

namespace Drive

open Transition (Reach)

/-! ## The two wheels -/

/-- Which of two variables such as `pwm1` and `pwm2` is meant. -/
inductive Side where
  | first
  | second
  deriving DecidableEq, Repr

def Controller.wheel (c : Controller) : Side → Wheel
  | .first => c.wheel1
  | .second => c.wheel2

def Sample.speed (i : Sample) : Side → Int16
  | .first => i.speed1
  | .second => i.speed2

def Sample.wantspeed (i : Sample) : Side → Int16
  | .first => i.wantspeed1
  | .second => i.wantspeed2

theorem Controller.ext_wheel {c c' : Controller} (h : ∀ side, c.wheel side = c'.wheel side) :
    c = c' := by
  cases c
  cases c'
  rw [Controller.mk.injEq]
  exact ⟨h .first, h .second⟩

theorem Controller.target_wheel (c : Controller) (i : Sample) (side : Side) :
    (c.target i).wheel side =
      { c.wheel side with
        xspeed := if i.took then i.wantspeed side else (c.wheel side).xspeed } := by
  rw [Controller.target]
  cases side <;> split <;> rfl

/-- The iteration has both targets zero. -/
def Controller.BothZero (c : Controller) (i : Sample) : Prop :=
  ∀ side, ((c.target i).wheel side).xspeed = 0

theorem Sample.stops_iff (i : Sample) :
    i.stops = true ↔ i.took = true ∧ ∀ side, i.wantspeed side = 0 := by
  simp only [Sample.stops, Bool.and_eq_true, decide_eq_true_eq, and_assoc]
  refine and_congr_right fun _ => ⟨?_, fun h => ⟨h .first, h .second⟩⟩
  rintro ⟨h1, h2⟩ side
  cases side with
  | first => exact h1
  | second => exact h2

theorem Controller.bothZero_of_stops (c : Controller) {i : Sample} (h : i.stops = true) :
    c.BothZero i := by
  obtain ⟨htook, hzero⟩ := i.stops_iff.mp h
  intro side
  rw [Controller.target_wheel, htook, if_pos rfl]
  exact hzero side

theorem iterate_wheel (c : Controller) (i : Sample) (side : Side) :
    (iterate c i).1.wheel side =
      if i.stops then { (c.target i).wheel side with pwm := 0 }
      else ((c.target i).wheel side).control (i.speed side) := by
  simp only [iterate]
  cases side <;> split <;> rfl

/-- A stop resets all but `Last_diff`. -/
theorem iterate_stops (c : Controller) {i : Sample} (h : i.stops = true) (side : Side) :
    (iterate c i).1.wheel side =
      { xspeed := 0, lastDiff := (c.wheel side).lastDiff, pwm := 0 } := by
  have hzero := c.bothZero_of_stops h side
  rw [Controller.target_wheel] at hzero
  rw [iterate_wheel, if_pos h, Controller.target_wheel, Wheel.mk.injEq]
  exact ⟨hzero, rfl, rfl⟩

/-! ## The iterations of the thread -/

/-- The completed iterations have taken the mutex, and so has the current one if
it is past the take. -/
def SpeedThread.Took (t : SpeedThread) : Prop :=
  (t.pc.beforeTake = false → t.sample.took = true) ∧ ∀ i ∈ t.samples, i.took = true

section Reach

variable {κ : Type*} [DecidableEq κ] {s : System κ}

theorem System.MutexKept.took (hm : s.MutexKept) (h : s.speed.Took) (speed1 speed2 : Int16) :
    (s.stepSpeed speed1 speed2).speed.Took := by
  obtain ⟨hok, -, -⟩ := hm.take s.priority
  obtain ⟨hsample, hsamples⟩ := h
  cases hpc : s.speed.pc
  case getspeedcounter | setcounterzero =>
    simp only [System.stepSpeed, hpc, SpeedThread.next]
    exact ⟨fun hbefore => Bool.noConfusion hbefore, hsamples⟩
  case take =>
    simp only [System.stepSpeed, hpc, SpeedThread.branchTaken, hok]
    exact ⟨fun _ => rfl, hsamples⟩
  case delay =>
    simp only [System.stepSpeed, hpc, SpeedThread.next]
    refine ⟨fun hbefore => Bool.noConfusion hbefore,
      List.forall_mem_append.mpr ⟨hsamples, List.forall_mem_singleton.mpr ?_⟩⟩
    exact hsample (by rw [hpc]; rfl)
  case setpwm pins =>
    cases pins <;> simp only [System.stepSpeed, hpc] <;>
      exact ⟨fun _ => hsample (by rw [hpc]; rfl), hsamples⟩
  all_goals
    simp only [System.stepSpeed, hpc, SpeedThread.next]
    exact ⟨fun _ => hsample (by rw [hpc]; rfl), hsamples⟩

/-- In every run, each iteration takes the mutex. -/
theorem took_of_reach {C : System κ → Label κ → Prop} {priority : Thread κ → UInt8}
    (h : Reach System.next C (.init priority) s) : ∀ i ∈ s.speed.samples, i.took = true := by
  have hinv : s.MutexKept ∧ s.speed.Took := by
    refine h.invariant (I := fun s => s.MutexKept ∧ s.speed.Took)
      ⟨Kernel.Mutex.OnlyFor.init _, nofun, nofun⟩ fun {s s' a} hi _ hnext => ⟨hi.1.step hnext, ?_⟩
    cases a with
    | call k c =>
        obtain ⟨-, call, -, -, rfl⟩ := System.next_call hnext
        exact hi.2
    | caller k =>
        obtain ⟨call, -, ⟨-, rfl⟩ | ⟨st, rest, -, rfl⟩⟩ := System.next_caller hnext
        · exact hi.2
        · rw [System.advance, System.exec_speed]
          exact hi.2
    | speed speed1 speed2 =>
        obtain rfl : s.stepSpeed speed1 speed2 = s' := Option.some.inj hnext
        exact hi.1.took hi.2 speed1 speed2
  exact hinv.2.2

/-- So its iterations with both targets zero are the stops. -/
theorem stops_iff_of_reach {C : System κ → Label κ → Prop} {priority : Thread κ → UInt8}
    (h : Reach System.next C (.init priority) s) {i : Sample} (hi : i ∈ s.speed.samples)
    (c : Controller) : i.stops = true ↔ c.BothZero i := by
  have htook := took_of_reach h i hi
  rw [Sample.stops_iff, and_iff_right htook]
  refine forall_congr' fun side => ?_
  rw [Controller.target_wheel, htook, if_pos rfl]

end Reach

/-! ## Telescoping -/

theorem toInt_ofInt_modEq (x : Int) : (Int16.ofInt x).toInt ≡ x [ZMOD 2 ^ 16] := by
  rw [Int16.toInt_ofInt]
  exact Int.bmod_emod

theorem eq_of_modEq {x y : Int16} (h : x.toInt ≡ y.toInt [ZMOD 2 ^ 16]) : x = y := by
  have hx := x.le_toInt
  have hx' := x.toInt_lt
  have hy := y.le_toInt
  have hy' := y.toInt_lt
  apply Int16.toInt_inj.mp
  rw [Int.ModEq] at h
  omega

theorem nextPwm_modEq (pwm diff lastDiff : Int16) :
    (nextPwm pwm diff lastDiff).toInt ≡
      pwm.toInt + 6 * diff.toInt + 5 * (diff.toInt - lastDiff.toInt) [ZMOD 2 ^ 16] :=
  toInt_ofInt_modEq _

/-- `diff` of one wheel in each iteration of the run on `is`, as stored. -/
def errors (side : Side) : Controller → List Sample → List Int
  | _, [] => []
  | c, i :: is =>
    (((c.target i).wheel side).diff (i.speed side)).toInt :: errors side (iterate c i).1 is

/-- Over a run without a stop, `pwm` is the positional control law of the errors,
modulo 2 ^ 16. -/
theorem pwm_positional (c : Controller) (is : List Sample)
    (h : Machine.Along iterate (fun c i => ¬ c.BothZero i) c is) (side : Side) :
    ((Machine.run iterate c is).1.wheel side).pwm.toInt ≡
      (c.wheel side).pwm.toInt + 6 * (errors side c is).sum +
        5 * ((errors side c is).getLastD (c.wheel side).lastDiff.toInt -
          (c.wheel side).lastDiff.toInt) [ZMOD 2 ^ 16] := by
  induction is generalizing c with
  | nil =>
      rw [Machine.run_nil]
      simp only [errors, List.sum_nil, List.getLastD_nil, sub_self, mul_zero, add_zero]
      exact Int.ModEq.refl _
  | cons i is ih =>
      obtain ⟨hzero, hrest⟩ := Machine.along_cons.mp h
      have hrun : i.stops ≠ true := fun hstop => hzero (c.bothZero_of_stops hstop)
      have hwheel := iterate_wheel c i side
      rw [if_neg hrun] at hwheel
      have hih := ih (iterate c i).1 hrest
      rw [hwheel] at hih
      have hstep := nextPwm_modEq (c.wheel side).pwm
        (((c.target i).wheel side).diff (i.speed side)) (c.wheel side).lastDiff
      have hlaw : (((c.target i).wheel side).control (i.speed side)).pwm =
          nextPwm (c.wheel side).pwm (((c.target i).wheel side).diff (i.speed side))
            (c.wheel side).lastDiff := by
        rw [Wheel.control, Controller.target_wheel]
      -- the proportional terms of this iteration and of the rest telescope
      rw [Machine.run_cons, errors, List.sum_cons, List.getLastD_cons]
      refine hih.trans ?_
      rw [hlaw]
      refine ((hstep.add_right _).add_right _).trans (congrArg (· % 2 ^ 16) ?_)
      simp only [Wheel.control]
      ring

/-- Two iterations of `carForward` from the start of the thread, with a reading
that is not the target in each. -/
theorem pwm_positional_forward :
    ((Machine.run iterate .entry
        [stalled, { stalled with speed1 := 30, speed2 := -30 }]).1.wheel .first).pwm.toInt ≡
      0 + 6 * (80 + 50) + 5 * (50 - 0) [ZMOD 2 ^ 16] := by
  have hrun : Machine.Along iterate (fun c i => ¬ c.BothZero i) .entry
      [stalled, { stalled with speed1 := 30, speed2 := -30 }] :=
    ⟨fun h => absurd (h .first) (by decide), fun h => absurd (h .first) (by decide), trivial⟩
  have hpwm := pwm_positional .entry _ hrun .first
  rwa [show errors .first .entry [stalled, { stalled with speed1 := 30, speed2 := -30 }] =
    [80, 50] from by decide] at hpwm

/-! ## After a stop -/

/-- The two controllers differ at most in `Last_diff`. -/
def Controller.Agree (c c' : Controller) : Prop :=
  ∀ side, (c.wheel side).xspeed = (c'.wheel side).xspeed ∧
    (c.wheel side).pwm = (c'.wheel side).pwm

/-- `Last_diff1` and `Last_diff2` are the same in both. -/
def Controller.SameLastDiff (c c' : Controller) : Prop :=
  ∀ side, (c.wheel side).lastDiff = (c'.wheel side).lastDiff

section Stop

variable {c c' : Controller} {i j : Sample}

theorem Controller.Agree.eq (h : c.Agree c') (hlast : c.SameLastDiff c') : c = c' := by
  apply Controller.ext_wheel
  intro side
  obtain ⟨hxspeed, hpwm⟩ := h side
  have hd := hlast side
  cases hw : c.wheel side
  cases hw' : c'.wheel side
  rw [hw, hw'] at hxspeed hpwm hd
  rw [Wheel.mk.injEq]
  exact ⟨hxspeed, hd, hpwm⟩

/-- Any two stops leave the controllers equal up to `Last_diff`. -/
theorem agree_of_stops (c c' : Controller) (hi : i.stops = true) (hj : j.stops = true) :
    (iterate c i).1.Agree (iterate c' j).1 := fun side => by
  rw [iterate_stops c hi, iterate_stops c' hj]
  exact ⟨rfl, rfl⟩

theorem sameLastDiff_iterate_stops (c c' : Controller) (hi : i.stops = true)
    (hj : j.stops = true) :
    (iterate c i).1.SameLastDiff (iterate c' j).1 ↔ c.SameLastDiff c' := by
  simp only [Controller.SameLastDiff, iterate_stops c hi, iterate_stops c' hj]

/-- The factor 5 of the proportional term has an inverse modulo 2 ^ 16. -/
theorem nextPwm_inj {pwm diff lastDiff lastDiff' : Int16}
    (h : nextPwm pwm diff lastDiff = nextPwm pwm diff lastDiff') : lastDiff = lastDiff' := by
  have hmod : pwm.toInt + 6 * diff.toInt + 5 * (diff.toInt - lastDiff.toInt) ≡
      pwm.toInt + 6 * diff.toInt + 5 * (diff.toInt - lastDiff'.toInt) [ZMOD 2 ^ 16] :=
    (nextPwm_modEq pwm diff lastDiff).symm.trans
      ((congrArg Int16.toInt h) ▸ nextPwm_modEq pwm diff lastDiff')
  have hfive : (2 : Int) ^ 16 ∣ 5 * (lastDiff.toInt - lastDiff'.toInt) := by
    have hdvd := Int.modEq_iff_dvd.mp (Int.ModEq.add_left_cancel' _ hmod)
    rwa [← mul_sub, sub_sub_sub_cancel_left] at hdvd
  have hdvd : (2 : Int) ^ 16 ∣ lastDiff.toInt - lastDiff'.toInt :=
    Int.dvd_of_dvd_mul_right_of_gcd_one hfive (by decide)
  exact eq_of_modEq (Int.modEq_iff_dvd.mpr hdvd).symm

/-- The first iteration that runs the control law tells the two apart. -/
theorem Controller.Agree.pwm_iterate_iff (h : c.Agree c') (hi : i.stops = false) :
    (∀ side, ((iterate c i).1.wheel side).pwm = ((iterate c' i).1.wheel side).pwm) ↔
      c.SameLastDiff c' := by
  refine forall_congr' fun side => ?_
  obtain ⟨hxspeed, hpwm⟩ := h side
  have hrun : i.stops ≠ true := by
    rw [hi]
    nofun
  rw [iterate_wheel, iterate_wheel, if_neg hrun, if_neg hrun, Controller.target_wheel,
    Controller.target_wheel]
  simp only [Wheel.control, Wheel.diff, hxspeed, hpwm]
  refine ⟨nextPwm_inj, fun hlast => ?_⟩
  rw [hlast]

/-- Controllers that agree up to `Last_diff` have the same `pwm` in all later
iterations exactly if these are all stops or `Last_diff` is the same too. -/
theorem Controller.Agree.pwm_iff (h : c.Agree c') (ks : List Sample) :
    (∀ js, js <+: ks → ∀ side, ((Machine.run iterate c js).1.wheel side).pwm =
        ((Machine.run iterate c' js).1.wheel side).pwm) ↔
      (∀ k ∈ ks, k.stops = true) ∨ c.SameLastDiff c' := by
  induction ks generalizing c c' with
  | nil =>
      refine iff_of_true (fun js hjs side => ?_) (Or.inl nofun)
      obtain rfl := List.prefix_nil.mp hjs
      exact (h side).2
  | cons k ks ih =>
      constructor
      · intro hall
        cases hk : k.stops with
        | true =>
            have hrest := (ih (agree_of_stops c c' hk hk)).mp fun js hjs =>
              hall (k :: js) (List.cons_prefix_cons.mpr ⟨rfl, hjs⟩)
            rw [sameLastDiff_iterate_stops c c' hk hk] at hrest
            exact hrest.imp_left fun hks => List.forall_mem_cons.mpr ⟨hk, hks⟩
        | false =>
            exact Or.inr ((h.pwm_iterate_iff hk).mp
              (hall [k] (List.cons_prefix_cons.mpr ⟨rfl, List.nil_prefix⟩)))
      · rintro (hstops | hlast) js hjs side
        · cases js with
          | nil => exact (h side).2
          | cons k' js =>
              obtain ⟨rfl, hprefix⟩ := List.cons_prefix_cons.mp hjs
              obtain ⟨hk, hks⟩ := List.forall_mem_cons.mp hstops
              exact (ih (agree_of_stops c c' hk hk)).mpr (Or.inl hks) js hprefix side
        · rw [h.eq hlast]

end Stop

/-- The error of the last iteration that is not a stop, as stored. -/
def lastError (side : Side) (is : List Sample) : Int16 :=
  (is.filter fun i => !i.stops).getLast?.elim 0 fun i =>
    .ofInt ((i.wantspeed side).toInt - (i.speed side).toInt)

/-- `Last_diff` is the wanted speed less the reading of that iteration. -/
theorem lastDiff_eq {is : List Sample} (h : ∀ i ∈ is, i.took = true) (side : Side) :
    ((Machine.run iterate .entry is).1.wheel side).lastDiff = lastError side is := by
  induction is using List.reverseRecOn with
  | nil => cases side <;> rfl
  | append_singleton is i ih =>
      obtain ⟨his, hi⟩ := List.forall_mem_append.mp h
      have htook : i.took = true := hi i List.mem_cons_self
      rw [Machine.run_concat, iterate_wheel, Controller.target_wheel, htook, lastError,
        List.filter_append]
      cases hstops : i.stops with
      | true =>
          rw [if_pos rfl, List.filter_cons_of_neg (by simp [hstops]), List.filter_nil,
            List.append_nil]
          exact ih his
      | false =>
          rw [if_neg nofun, List.filter_cons_of_pos (by simp [hstops]), List.filter_nil,
            List.getLast?_concat]
          rfl

/-- Whether two runs have the same `Last_diff` is decided by the wanted speeds and the
readings of these iterations. -/
theorem sameLastDiff_iff {is js : List Sample} (his : ∀ i ∈ is, i.took = true)
    (hjs : ∀ j ∈ js, j.took = true) :
    (Machine.run iterate .entry is).1.SameLastDiff (Machine.run iterate .entry js).1 ↔
      ∀ side, lastError side is = lastError side js := by
  simp only [Controller.SameLastDiff, lastDiff_eq his, lastDiff_eq hjs]

/-- Two runs that each contain a stop and go on with the same readings have the
same `pwm1` and `pwm2` in all iterations after it exactly if these are all stops,
or both runs had the same `Last_diff1` and `Last_diff2` when they stopped. -/
theorem reset_by_stop_iff (is js : List Sample) {i j : Sample} (hi : i.stops = true)
    (hj : j.stops = true) (ks : List Sample) :
    (∀ ls, ls <+: ks → ∀ side,
        ((Machine.run iterate .entry (is ++ i :: ls)).1.wheel side).pwm =
          ((Machine.run iterate .entry (js ++ j :: ls)).1.wheel side).pwm) ↔
      (∀ k ∈ ks, k.stops = true) ∨
        (Machine.run iterate .entry is).1.SameLastDiff (Machine.run iterate .entry js).1 := by
  have hagree := agree_of_stops (Machine.run iterate .entry is).1
    (Machine.run iterate .entry js).1 hi hj
  simp only [Machine.run_append, Machine.run_cons]
  rw [hagree.pwm_iff ks, sameLastDiff_iterate_stops _ _ hi hj]

/-- `carStop`, read by an iteration while the wheels stand. -/
def stopped : Sample where
  took := true
  wantspeed1 := 0
  wantspeed2 := 0
  speed1 := 0
  speed2 := 0

/-- Two runs that differ in how often they stopped. -/
theorem reset_by_stop_iff_stopped :
    stopped.stops = true ∧ ∀ ls, ls <+: [stalled] → ∀ side,
      ((Machine.run iterate .entry ([stalled, stopped] ++ stopped :: ls)).1.wheel side).pwm =
        ((Machine.run iterate .entry ([stalled] ++ stopped :: ls)).1.wheel side).pwm := by
  have hstops : stopped.stops = true := rfl
  refine ⟨hstops, (reset_by_stop_iff [stalled, stopped] [stalled] hstops hstops [stalled]).mpr ?_⟩
  exact Or.inr fun side => by cases side <;> rfl

/-- After a stop, `carForward` starts with another `pwm` if the car had been
driven before. -/
theorem stop_keeps_lastDiff :
    ¬ ∀ (is js ks : List Sample) (i j : Sample), i.stops = true → j.stops = true →
      ∀ ls, ls <+: ks → ∀ side,
        ((Machine.run iterate .entry (is ++ i :: ls)).1.wheel side).pwm =
          ((Machine.run iterate .entry (js ++ j :: ls)).1.wheel side).pwm := by
  intro h
  have hpwm := h [stalled] [] [stalled] stopped stopped rfl rfl [stalled]
    (List.prefix_refl _) .first
  have h480 : ((Machine.run iterate .entry ([stalled] ++ stopped :: [stalled])).1.wheel
      .first).pwm = 480 := by decide
  have h880 : ((Machine.run iterate .entry ([] ++ stopped :: [stalled])).1.wheel
      .first).pwm = 880 := by decide
  rw [h480, h880] at hpwm
  exact absurd hpwm (by decide)

end Drive
