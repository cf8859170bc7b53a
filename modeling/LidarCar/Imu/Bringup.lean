-- SUMMARY: The bring-up of the IMU: the stages of mpu_dmp_init, the retries of mpu9250_init, and which failures pass as success.
import LidarCar.Base.Bytes
import LidarCar.Base.Machine
import LidarCar.Base.Stages
import LidarCar.Imu.I2c

/-!
# Bringing up the IMU

`mpu_dmp_init` calls the stages of the bring-up one after the other and returns
zero for success. `mpu9250_init` calls it until it does, and then starts the
thread that reads the IMU. What a stage returns is an arbitrary `int`.
-/

namespace Imu

open Kernel (Err)

/-! ## The stages -/

/-- The functions that `mpu_dmp_init` calls. -/
inductive Stage where
  | mpuInit
  | invInitMpl
  | invEnableQuaternion
  | invEnable9xSensorFusion
  | invEnableFastNomot
  | invEnableGyroTc
  | invEnableVectorCompassCal
  | invEnableMagneticDisturbance
  | invEnableEMPLOutputs
  | invStartMpl
  | mpuSetSensors
  | mpuConfigureFifo
  | mpuSetSampleRate
  | mpuSetCompassSampleRate
  | mpuGetSampleRate
  | mpuGetGyroFsr
  | mpuGetAccelFsr
  | mpuGetCompassFsr
  | invSetGyroSampleRate
  | invSetAccelSampleRate
  | invSetCompassSampleRate
  | invSetGyroOrientationAndScale
  | invSetAccelOrientationAndScale
  | invSetCompassOrientationAndScale
  | dmpLoadMotionDriverFirmware
  | dmpSetOrientation
  | dmpEnableFeature
  | dmpSetFifoRate
  | runSelfTest
  | mpuSetDmpState
  deriving DecidableEq, Repr

/-- What each of the stages returns if it is called. -/
abbrev Results := Stage → Int32

/-- The stages inside `if (mpu_init(&int_param) == 0)`. For those of the form
`res = stage(..); if (res) return code;` the code. -/
def steps : List (Stage × Option UInt8) :=
  [(.invInitMpl, some 1),
    (.invEnableQuaternion, none),
    (.invEnable9xSensorFusion, none),
    (.invEnableFastNomot, none),
    (.invEnableGyroTc, none),
    (.invEnableVectorCompassCal, none),
    (.invEnableMagneticDisturbance, none),
    (.invEnableEMPLOutputs, none),
    (.invStartMpl, some 1),
    (.mpuSetSensors, some 2),
    (.mpuConfigureFifo, some 3),
    (.mpuSetSampleRate, some 4),
    (.mpuSetCompassSampleRate, some 5),
    (.mpuGetSampleRate, none),
    (.mpuGetGyroFsr, none),
    (.mpuGetAccelFsr, none),
    (.mpuGetCompassFsr, none),
    (.invSetGyroSampleRate, none),
    (.invSetAccelSampleRate, none),
    (.invSetCompassSampleRate, none),
    (.invSetGyroOrientationAndScale, none),
    (.invSetAccelOrientationAndScale, none),
    (.invSetCompassOrientationAndScale, none),
    (.dmpLoadMotionDriverFirmware, some 6),
    (.dmpSetOrientation, some 7),
    (.dmpEnableFeature, some 8),
    (.dmpSetFifoRate, some 9),
    (.runSelfTest, some 10),
    (.mpuSetDmpState, some 11)]

/-- `if (res)`, where `res` is an `rt_uint8_t`. -/
def Results.fails (r : Results) (stage : Stage) : Bool :=
  UInt8.ofInt (r stage).toInt ≠ 0

/-- `mpu_dmp_init`, with the stages it calls. -/
def mpuDmpInit (r : Results) : UInt8 × List Stage :=
  if r .mpuInit = 0 then
    let o := Stages.run r.fails steps
    (o.1.getD 0, .mpuInit :: o.2)
  else (0, [.mpuInit])

/-! ## The retries -/

/-- Where `mpu9250_init` is. -/
inductive InitPc where
  /-- `while (mpu_dmp_init())` -/
  | retrying
  | returned (err : Err)
  deriving DecidableEq, Repr

inductive InitEvent where
  /-- "mpu_dmp_init waiting" is printed, and 100 ms pass. -/
  | waiting
  /-- "mpu_dmp_init is ok !" is printed after the attempt. -/
  | ok (attempt : Results)
  /-- `rt_thread_startup` of `mpu9250_thread_entry` after the attempt. -/
  | startup (attempt : Results)

/-- `mpu9250_init` up to its loop, with the success of `rt_device_find` and of
`rt_device_open`. -/
def mpu9250Init (found opened : Bool) : InitPc :=
  if !found then .returned .error
  else if !opened then .returned .error
  else .retrying

/-- An attempt of the loop, and what follows the one that ends it, with the
success of `rt_thread_create`. -/
def mpu9250Attempt (created : Bool) : InitPc → Results → InitPc × List InitEvent
  | .retrying, r =>
    if (mpuDmpInit r).1 ≠ 0 then (.retrying, [.waiting])
    else (.returned .eok, .ok r :: if created then [.startup r] else [])
  | .returned err, _ => (.returned err, [])

/-! ## What success should mean -/

/-- The stages whose results decide the bring-up. -/
def deciding : List Stage :=
  .mpuInit :: Stages.checked steps

theorem deciding_eq :
    deciding = [.mpuInit, .invInitMpl, .invStartMpl, .mpuSetSensors, .mpuConfigureFifo,
      .mpuSetSampleRate, .mpuSetCompassSampleRate, .dmpLoadMotionDriverFirmware,
      .dmpSetOrientation, .dmpEnableFeature, .dmpSetFifoRate, .runSelfTest, .mpuSetDmpState] :=
  rfl

/-- The bring-up is complete: each stage that decides it has been called and has
returned zero. -/
def Results.Complete (r : Results) : Prop :=
  ∀ stage ∈ deciding, stage ∈ (mpuDmpInit r).2 ∧ r stage = 0

/-- `mpu_init` returns zero. If all stages after it return multiples of 256, they
all return zero. -/
def Results.Visible (r : Results) : Prop :=
  r .mpuInit = 0 ∧ ((∀ stage ∈ Stages.checked steps, 256 ∣ (r stage).toInt) →
    ∀ stage ∈ Stages.checked steps, r stage = 0)

/-- Success is reported only of a complete bring-up. -/
def InitEvent.Fine : InitEvent → Prop
  | .waiting => True
  | .ok attempt => attempt.Complete
  | .startup attempt => attempt.Complete

section Results

variable {r : Results}

theorem Results.fails_eq_false_iff {stage : Stage} :
    r.fails stage = false ↔ 256 ∣ (r stage).toInt := by
  rw [Results.fails, decide_eq_false_iff_not, not_not, ← UInt8.toNat_inj, ← Int.natCast_inj,
    Bytes.ofInt_toNat]
  exact Int.dvd_iff_emod_eq_zero.symm

theorem steps_code_ne_zero : ∀ step ∈ steps, step.2 ≠ some 0 := by
  decide

theorem mpuDmpInit_of_ne (h : r .mpuInit ≠ 0) : mpuDmpInit r = (0, [.mpuInit]) := by
  rw [mpuDmpInit, if_neg h]

theorem mpuDmpInit_of_eq (h : r .mpuInit = 0) :
    mpuDmpInit r = ((Stages.run r.fails steps).1.getD 0,
      .mpuInit :: (Stages.run r.fails steps).2) := by
  rw [mpuDmpInit, if_pos h]

/-- A return value other than zero names the stage that was called last, which is
the first after `mpu_init` to fail. -/
theorem mpuDmpInit_code (h : (mpuDmpInit r).1 ≠ 0) :
    ∃ done stage rest, steps = done ++ (stage, some (mpuDmpInit r).1) :: rest ∧
      r.fails stage = true ∧ (∀ s ∈ Stages.checked done, r.fails s = false) ∧
        (mpuDmpInit r).2 = .mpuInit :: (done.map Prod.fst ++ [stage]) := by
  have hinit : r .mpuInit = 0 := by
    by_contra hne
    rw [mpuDmpInit_of_ne hne] at h
    exact h rfl
  rw [mpuDmpInit_of_eq hinit] at h ⊢
  cases hrun : (Stages.run r.fails steps).1 with
  | none =>
      rw [hrun] at h
      exact absurd rfl h
  | some code =>
      obtain ⟨done, stage, rest, hsteps, hfails, hdone, hcalls⟩ := Stages.run_eq_some hrun
      exact ⟨done, stage, rest, hsteps, hfails, hdone, congrArg _ hcalls⟩

/-- Zero is returned if all stages pass, and also if `mpu_init` fails. -/
theorem mpuDmpInit_eq_zero_iff :
    (mpuDmpInit r).1 = 0 ↔
      r .mpuInit ≠ 0 ∨ ∀ stage ∈ Stages.checked steps, 256 ∣ (r stage).toInt := by
  by_cases hinit : r .mpuInit = 0
  · rw [mpuDmpInit_of_eq hinit, or_iff_right (not_not.mpr hinit)]
    simp only [← Results.fails_eq_false_iff]
    rw [← Stages.run_eq_none_iff]
    cases hrun : (Stages.run r.fails steps).1 with
    | none => exact iff_of_true rfl rfl
    | some code =>
        obtain ⟨done, stage, rest, hsteps, -⟩ := Stages.run_eq_some hrun
        refine iff_of_false (fun hzero => ?_) nofun
        obtain rfl : code = 0 := hzero
        refine steps_code_ne_zero (stage, some 0) ?_ rfl
        rw [hsteps]
        exact List.mem_append_right _ List.mem_cons_self
  · rw [mpuDmpInit_of_ne hinit]
    exact iff_of_true rfl (Or.inl hinit)

/-- If zero is returned after `mpu_init` has passed, all stages have been called. -/
theorem mpuDmpInit_calls (hinit : r .mpuInit = 0) (h : (mpuDmpInit r).1 = 0) :
    (mpuDmpInit r).2 = .mpuInit :: steps.map Prod.fst := by
  have hall := (mpuDmpInit_eq_zero_iff.mp h).resolve_left (not_not.mpr hinit)
  simp only [← Results.fails_eq_false_iff] at hall
  rw [mpuDmpInit_of_eq hinit, Stages.run_calls (Stages.run_eq_none_iff.mpr hall)]

/-- The return value tells a complete bring-up exactly if the failures, if any,
are visible to it. -/
theorem Results.complete_iff : ((mpuDmpInit r).1 = 0 → r.Complete) ↔ r.Visible := by
  constructor
  · intro h
    have hinit : r .mpuInit = 0 := by
      by_contra hne
      exact hne (h (mpuDmpInit_eq_zero_iff.mpr (Or.inl hne)) .mpuInit List.mem_cons_self).2
    refine ⟨hinit, fun hall stage hstage => ?_⟩
    exact (h (mpuDmpInit_eq_zero_iff.mpr (Or.inr hall)) stage (List.mem_cons_of_mem _ hstage)).2
  · rintro ⟨hinit, hvisible⟩ hzero stage hstage
    have hall := (mpuDmpInit_eq_zero_iff.mp hzero).resolve_left (not_not.mpr hinit)
    rw [mpuDmpInit_calls hinit hzero]
    rcases List.mem_cons.mp hstage with rfl | hchecked
    · exact ⟨List.mem_cons_self, hinit⟩
    · exact ⟨List.mem_cons_of_mem _ (Stages.mem_of_checked hchecked),
        hvisible hall stage hchecked⟩

end Results

/-! ## The retries -/

theorem mpu9250Attempt_fine_iff (created : Bool) (pc : InitPc) (r : Results) :
    (∀ e ∈ (mpu9250Attempt created pc r).2, e.Fine) ↔ (pc = .retrying → r.Visible) := by
  cases pc with
  | returned err => exact iff_of_true nofun nofun
  | retrying =>
      have hvisible : (InitPc.retrying = .retrying → r.Visible) ↔ r.Visible :=
        ⟨fun h => h rfl, fun h _ => h⟩
      rw [hvisible, ← Results.complete_iff, mpu9250Attempt]
      by_cases hzero : (mpuDmpInit r).1 = 0
      · rw [if_neg (not_not.mpr hzero), forall_prop_of_true hzero]
        cases created with
        | true => simp [InitEvent.Fine]
        | false => simp [InitEvent.Fine]
      · rw [if_pos hzero]
        exact iff_of_true (List.forall_mem_singleton.mpr trivial) fun heq => absurd heq hzero

/-- Success is reported, and the thread started, only after a complete bring-up
exactly if that can be told of all attempts of the loop. -/
theorem mpu9250Init_fine_iff (pc : InitPc) (created : Bool) (attempts : List Results) :
    (∀ e ∈ (Machine.run (mpu9250Attempt created) pc attempts).2, e.Fine) ↔
      Machine.Along (mpu9250Attempt created) (fun pc r => pc = .retrying → r.Visible)
        pc attempts := by
  rw [Machine.outputs_iff_along]
  exact Machine.along_congr (I := fun _ => True) (fun _ _ _ => trivial)
    (fun pc r _ => mpu9250Attempt_fine_iff created pc r) trivial

/-- Failures are not reported as success exactly under these conditions: of an
attempt, if its failures are visible; of `mpu9250_init`, if they are in all
attempts that it makes; and of `mpu9250_set_sample_rate`, if the first of its
writes succeeds or the second fails too. -/
theorem failures_reported_iff (r : Results) (found opened created : Bool)
    (attempts : List Results) (bus : Bus) (rate : UInt16) :
    (((mpuDmpInit r).1 = 0 → r.Complete) ↔ r.Visible) ∧
      ((∀ e ∈ (Machine.run (mpu9250Attempt created) (mpu9250Init found opened) attempts).2,
          e.Fine) ↔
        Machine.Along (mpu9250Attempt created) (fun pc r => pc = .retrying → r.Visible)
          (mpu9250Init found opened) attempts) ∧
      (((mpu9250SetSampleRate bus rate).1 = .eok →
          bus.WroteUntil (mpu9250SetSampleRate bus rate).2 mpu9250Addr sampleRateReg ∧
            bus.WroteUntil (mpu9250SetSampleRate bus rate).2 mpu9250Addr cfgReg) ↔
        0 < bus.nextRet.toInt32 ∨
          ¬ 0 < (bus.masterXfer (bus.transfers.length + 1)).toInt32) :=
  ⟨Results.complete_iff, mpu9250Init_fine_iff _ created attempts,
    mpu9250SetSampleRate_fine_iff bus rate⟩

/-- An IMU that does not answer: `mpu_init` returns -1. -/
def absent : Results := fun stage =>
  if stage = .mpuInit then -1 else 0

/-- A bus on which the first transfer fails with `-RT_EIO`. -/
def noisy : Bus where
  masterXfer := fun n => if n = 0 then 0xFFFFFFF8 else 1
  mpu9250 := fun _ => 0
  ak8963 := fun _ => 0
  transfers := []

/-- Without an IMU the thread is started after the first attempt, and a sample
rate that has not been written is reported as set. -/
theorem absent_starts :
    (mpuDmpInit absent).1 = 0 ∧ ¬ absent.Complete ∧
      .startup absent ∈
        (Machine.run (mpu9250Attempt true) (mpu9250Init true true) [absent]).2 ∧
      (mpu9250SetSampleRate noisy 100).1 = .eok ∧
        ¬ noisy.WroteUntil (mpu9250SetSampleRate noisy 100).2 mpu9250Addr sampleRateReg := by
  have hzero : (mpuDmpInit absent).1 = 0 := by decide
  refine ⟨hzero, fun hcomplete => ?_, ?_, by decide, fun hwrote => ?_⟩
  · exact absurd (hcomplete .mpuInit List.mem_cons_self).2 (by decide)
  · rw [Machine.run_cons, Machine.run_nil]
    refine List.mem_append_left _ ?_
    rw [show mpu9250Init true true = .retrying from rfl, mpu9250Attempt,
      if_neg (not_not.mpr hzero)]
    exact List.mem_cons_of_mem _ List.mem_cons_self
  · exact absurd ((mpu9250SetSampleRate_wroteUntil noisy 100).1.mp hwrote) (by decide)

end Imu
