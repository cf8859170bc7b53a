-- SUMMARY: Which of the readers of app_mpu9250.c agree with those of inv_mpu.c, and on what data that of the magnetometer does.
import LidarCar.Imu.Axes

/-!
# Two readers of each sensor

The readers in `app_mpu9250.c` are one and the same but for the registers they
read. That is right for the accelerometer and the gyroscope, whose high bytes
come first, and wrong for the magnetometer, whose low bytes do.
-/

namespace Imu

section Readers

variable {bus : Bus} {cfg : ChipCfg}

theorem readRegs_fst (addr : UInt16) (reg len : UInt8) :
    (readRegs bus addr reg len).1 =
      if bus.nextRet = 2 then some fun i => bus.register addr (reg + .ofNat i) else none := rfl

/-! ## Accelerometer and gyroscope -/

/-- A reader of `inv_mpu.c` that takes the high bytes first returns what one of
`app_mpu9250.c` does. -/
theorem mpuGetReg_toOption {mask : UInt8} (h : cfg.sensors &&& mask ≠ 0) (reg : UInt8) :
    (mpuGetReg cfg mask reg bus).1.toOption =
      (mpu9250ReadRegs bus reg 6).1.map highFirst := by
  have hread : mpuDmpReadLen bus hwAddr reg 6 = mpu9250ReadRegs bus reg 6 := rfl
  rw [mpuGetReg, if_neg h, hread]
  dsimp only
  cases (mpu9250ReadRegs bus reg 6).1 with
  | none => rfl
  | some buf => rfl

/-- The two readers of the gyroscope agree. -/
theorem gyroscope_agrees (h : cfg.sensors &&& invXyzGyro ≠ 0) :
    (mpuGetGyroReg cfg bus).1.toOption = (mpu9250GetGyroscope bus).1 :=
  mpuGetReg_toOption h gyroXouthReg

/-- The two readers of the accelerometer agree. -/
theorem accelerometer_agrees (h : cfg.sensors &&& invXyzAccel ≠ 0) :
    (mpuGetAccelReg cfg bus).1.toOption = (mpu9250GetAccelerometer bus).1 :=
  mpuGetReg_toOption h accelXouthReg

/-! ## Magnetometer -/

/-- The words of the data registers, `high * 256 + low`, with a sign. -/
def Bus.field (bus : Bus) : Axes where
  x := .ofInt (Bytes.combine [bus.ak8963 magXoutH, bus.ak8963 magXoutL] : Nat)
  y := .ofInt (Bytes.combine [bus.ak8963 magYoutH, bus.ak8963 magYoutL] : Nat)
  z := .ofInt (Bytes.combine [bus.ak8963 magZoutH, bus.ak8963 magZoutL] : Nat)

/-- What `mpu_get_compass_reg` has in `tmp` when its read succeeds. -/
def Bus.compassBytes (bus : Bus) : Nat → UInt8 := fun i =>
  bus.register mpu9250Addr (rawCompass + .ofNat i)

/-- The raw triple in `mpu_get_compass_reg` is that of the words. -/
theorem compassRaw_compassBytes (bus : Bus) : compassRaw bus.compassBytes = bus.field := by
  simp only [Bus.field, ← word_eq]
  rfl

/-- What `mpu_get_compass_reg` returns in case of success. -/
theorem mpuGetCompassReg_ok {data : Axes} (h : (mpuGetCompassReg cfg bus).1 = .ok data) :
    data = bus.field.adjust cfg.magSensAdj := by
  rw [mpuGetCompassReg] at h
  split at h
  · cases h
  · have htmp : (mpuDmpReadLen bus hwAddr rawCompass 8).1 =
        if bus.nextRet = 2 then some bus.compassBytes else none := rfl
    simp only [htmp] at h
    split at h
    · rw [Option.elim_some, compassData] at h
      split at h
      · cases h
      · split at h
        · cases h
        · rw [compassRaw_compassBytes] at h
          exact (Except.ok.inj h).symm
    · cases h

theorem adjust_256 (data : Int16) : adjust data 256 = data := by
  rw [adjust, show (256 : Int16).toInt = 256 from rfl, Int.shiftRight_eq_div_pow]
  have hdiv : data.toInt * 256 / ((2 ^ 8 : Nat) : Int) = data.toInt :=
    Int.mul_ediv_cancel _ (by decide)
  rw [hdiv, Int16.ofInt_toInt]

/-- With the neutral adjustment it returns the field itself. -/
theorem mpuGetCompassReg_neutral {data : Axes} (hadj : cfg.magSensAdj = ⟨256, 256, 256⟩)
    (h : (mpuGetCompassReg cfg bus).1 = .ok data) : data = bus.field := by
  rw [mpuGetCompassReg_ok h, hadj]
  simp only [Axes.adjust, adjust_256]

/-- `mpu9250_get_magnetometer` exchanges the bytes of each word. -/
theorem mpu9250GetMagnetometer_fst : (mpu9250GetMagnetometer bus).1 =
    if bus.nextRet = 2 then
      some { x := word (bus.ak8963 magXoutL) (bus.ak8963 magXoutH)
             y := word (bus.ak8963 magYoutL) (bus.ak8963 magYoutH)
             z := word (bus.ak8963 magZoutL) (bus.ak8963 magZoutH) }
    else none := by
  rw [mpu9250GetMagnetometer, mpu9250ReadMagnetometerRegs]
  change (readRegs bus ak8963Addr magXoutL 6).1.map highFirst = _
  rw [readRegs_fst, apply_ite (Option.map highFirst)]
  rfl

/-- `m` is the field, which is what `mpu_get_compass_reg` makes of the same
registers before its adjustment. -/
structure Bus.Agrees (bus : Bus) (m : Axes) : Prop where
  words : m = bus.field
  raw : m = compassRaw bus.compassBytes
  adjusted : ∀ cfg data, (mpuGetCompassReg cfg bus).1 = .ok data →
    data = m.adjust cfg.magSensAdj

theorem Bus.agrees_iff {m : Axes} : bus.Agrees m ↔ m = bus.field := by
  refine ⟨fun h => h.words, ?_⟩
  rintro rfl
  exact ⟨rfl, (compassRaw_compassBytes bus).symm, fun _ _ => mpuGetCompassReg_ok⟩

end Readers

/-- The two readers of the magnetometer agree exactly if the read fails or the two
bytes of each axis are equal. -/
theorem magnetometer_agrees_iff (bus : Bus) :
    (∀ m, (mpu9250GetMagnetometer bus).1 = some m → bus.Agrees m) ↔
      bus.nextRet ≠ 2 ∨ (bus.ak8963 magXoutL = bus.ak8963 magXoutH ∧
        bus.ak8963 magYoutL = bus.ak8963 magYoutH ∧
          bus.ak8963 magZoutL = bus.ak8963 magZoutH) := by
  rw [mpu9250GetMagnetometer_fst]
  by_cases hret : bus.nextRet = 2
  · rw [if_pos hret, or_iff_right (not_not.mpr hret)]
    simp only [Option.some.injEq, forall_eq', Bus.agrees_iff, Bus.field, ← word_eq,
      Axes.mk.injEq, word_swap_iff]
  · rw [if_neg hret]
    exact iff_of_true nofun (Or.inl hret)

/-- A measurement with 0x1234 on the first axis. -/
def measured : Bus where
  masterXfer := fun _ => 2
  mpu9250 := fun _ => 0
  ak8963 := fun reg =>
    if reg = akmRegSt1 then akmDataReady
    else if reg = magXoutL then 0x34
    else if reg = magXoutH then 0x12
    else 0
  transfers := []

/-- One reader returns 0x3412 of it and the other 0x1234. -/
theorem measured_disagrees :
    (mpu9250GetMagnetometer measured).1 = some ⟨0x3412, 0, 0⟩ ∧
      measured.field = ⟨0x1234, 0, 0⟩ ∧
      (mpuGetCompassReg ⟨invXyzCompass, ⟨256, 256, 256⟩⟩ measured).1 = .ok ⟨0x1234, 0, 0⟩ ∧
        ¬ ∀ m, (mpu9250GetMagnetometer measured).1 = some m → measured.Agrees m := by
  have hget : (mpu9250GetMagnetometer measured).1 = some ⟨0x3412, 0, 0⟩ := by decide
  have hfield : measured.field = ⟨0x1234, 0, 0⟩ := by decide
  refine ⟨hget, hfield, rfl, fun hall => ?_⟩
  have hwords := (hall _ hget).words
  rw [hfield] at hwords
  exact absurd hwords (by decide)

end Imu
