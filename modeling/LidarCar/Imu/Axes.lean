-- SUMMARY: The readers of the three axes of the IMU in app_mpu9250.c and in inv_mpu.c, and the byte order each takes them in.
import LidarCar.Base.Bytes
import LidarCar.Imu.I2c

/-!
# Reading three axes

The accelerometer, the gyroscope and the magnetometer each have six data
registers, two an axis. The MPU9250 has the high byte at the lower address, the
AK8963 the low byte. `app_mpu9250.c` and `inv_mpu.c` each have a reader of their
own for each of the three.
-/

namespace Imu

/-- `MPU_GYRO_XOUTH_REG` and `st.reg->raw_gyro`. -/
def gyroXouthReg : UInt8 := 0x43

/-- `MPU_ACCEL_XOUTH_REG` and `st.reg->raw_accel`. -/
def accelXouthReg : UInt8 := 0x3B

/-- `MAG_XOUT_L`. -/
def magXoutL : UInt8 := 0x03

/-- `MAG_XOUT_H`. -/
def magXoutH : UInt8 := 0x04

/-- `MAG_YOUT_L`. -/
def magYoutL : UInt8 := 0x05

/-- `MAG_YOUT_H`. -/
def magYoutH : UInt8 := 0x06

/-- `MAG_ZOUT_L`. -/
def magZoutL : UInt8 := 0x07

/-- `MAG_ZOUT_H`. -/
def magZoutH : UInt8 := 0x08

@[ext] structure Axes where
  x : Int16
  y : Int16
  z : Int16
  deriving DecidableEq, Repr

/-- `(high << 8) | low`, stored in 16 bits with a sign. -/
def word (high low : UInt8) : Int16 :=
  (high.toUInt16 <<< 8 ||| low.toUInt16).toInt16

/-- `(buf[0] << 8) | buf[1]` and so on. -/
def highFirst (buf : Nat → UInt8) : Axes where
  x := word (buf 0) (buf 1)
  y := word (buf 2) (buf 3)
  z := word (buf 4) (buf 5)

/-! ## app_mpu9250.c -/

/-- `mpu9250_get_gyroscope`. -/
def mpu9250GetGyroscope (bus : Bus) : Option Axes × Bus :=
  let r := mpu9250ReadRegs bus gyroXouthReg 6
  (r.1.map highFirst, r.2)

/-- `mpu9250_get_accelerometer`. -/
def mpu9250GetAccelerometer (bus : Bus) : Option Axes × Bus :=
  let r := mpu9250ReadRegs bus accelXouthReg 6
  (r.1.map highFirst, r.2)

/-- `mpu9250_get_magnetometer`. -/
def mpu9250GetMagnetometer (bus : Bus) : Option Axes × Bus :=
  let r := mpu9250ReadMagnetometerRegs bus magXoutL 6
  (r.1.map highFirst, r.2)

/-! ## inv_mpu.c -/

/-- `struct chip_cfg_s`, as far as the readers use it. -/
structure ChipCfg where
  sensors : UInt8
  magSensAdj : Axes

/-- `INV_XYZ_GYRO`. -/
def invXyzGyro : UInt8 := 0x70

/-- `INV_XYZ_ACCEL`. -/
def invXyzAccel : UInt8 := 0x08

/-- `INV_XYZ_COMPASS`. -/
def invXyzCompass : UInt8 := 0x01

/-- `st.hw->addr`. -/
def hwAddr : UInt8 := 0x68

/-- The body of the next two. -/
def mpuGetReg (cfg : ChipCfg) (mask reg : UInt8) (bus : Bus) : Except Int32 Axes × Bus :=
  if cfg.sensors &&& mask = 0 then (.error (-1), bus)
  else
    let r := mpuDmpReadLen bus hwAddr reg 6
    (r.1.elim (.error (-1)) fun tmp => .ok (highFirst tmp), r.2)

/-- `mpu_get_gyro_reg`. -/
def mpuGetGyroReg (cfg : ChipCfg) (bus : Bus) : Except Int32 Axes × Bus :=
  mpuGetReg cfg invXyzGyro gyroXouthReg bus

/-- `mpu_get_accel_reg`. -/
def mpuGetAccelReg (cfg : ChipCfg) (bus : Bus) : Except Int32 Axes × Bus :=
  mpuGetReg cfg invXyzAccel accelXouthReg bus

/-- `AKM_DATA_READY`. -/
def akmDataReady : UInt8 := 0x01

/-- `AKM_DATA_OVERRUN`. -/
def akmDataOverrun : UInt8 := 0x02

/-- `AKM_OVERFLOW`. -/
def akmOverflow : UInt8 := 0x80

/-- `(tmp[2] << 8) | tmp[1]` and so on, after `AKM_REG_ST1` in `tmp[0]`. -/
def compassRaw (tmp : Nat → UInt8) : Axes where
  x := word (tmp 2) (tmp 1)
  y := word (tmp 4) (tmp 3)
  z := word (tmp 6) (tmp 5)

/-- `((long)data * adj) >> 8`, stored in 16 bits. The product fits a `long`. -/
def adjust (data adj : Int16) : Int16 :=
  .ofInt ((data.toInt * adj.toInt) >>> (8 : Nat))

/-- The sensitivity adjustment of the three axes. -/
def Axes.adjust (data adj : Axes) : Axes where
  x := Imu.adjust data.x adj.x
  y := Imu.adjust data.y adj.y
  z := Imu.adjust data.z adj.z

/-- `mpu_get_compass_reg` after its read, for the AK8963. -/
def compassData (cfg : ChipCfg) (tmp : Nat → UInt8) : Except Int32 Axes :=
  if tmp 0 &&& akmDataReady = 0 ∨ tmp 0 &&& akmDataOverrun ≠ 0 then .error (-2)
  else if tmp 7 &&& akmOverflow ≠ 0 then .error (-3)
  else .ok ((compassRaw tmp).adjust cfg.magSensAdj)

/-- `mpu_get_compass_reg`. -/
def mpuGetCompassReg (cfg : ChipCfg) (bus : Bus) : Except Int32 Axes × Bus :=
  if cfg.sensors &&& invXyzCompass = 0 then (.error (-1), bus)
  else
    let r := mpuDmpReadLen bus hwAddr rawCompass 8
    (r.1.elim (.error (-1)) (compassData cfg), r.2)

/-! ## Words -/

theorem word_toUInt16_toNat (high low : UInt8) :
    (high.toUInt16 <<< 8 ||| low.toUInt16).toNat = 256 * high.toNat + low.toNat := by
  have hhigh := high.toNat_lt
  have hlow := low.toNat_lt
  have hshift : (high.toUInt16 <<< 8).toNat = high.toNat <<< 8 := by
    rw [UInt16.toNat_shiftLeft, UInt8.toNat_toUInt16, show (8 : UInt16).toNat % 16 = 8 from rfl,
      Nat.shiftLeft_eq]
    exact Nat.mod_eq_of_lt (by omega)
  rw [UInt16.toNat_or, hshift, UInt8.toNat_toUInt16, ← Nat.shiftLeft_add_eq_or_of_lt hlow,
    Nat.shiftLeft_eq]
  omega

/-- The two bytes are the digits of the word. -/
theorem word_eq (high low : UInt8) :
    word high low = .ofInt (Bytes.combine [high, low] : Nat) := by
  have hcombine : Bytes.combine [high, low] = 256 * high.toNat + low.toNat := by
    simp [Bytes.combine]
  rw [hcombine, ← word_toUInt16_toNat, Int16.ofInt_eq_ofNat, ← UInt16.toInt16_ofNat',
    UInt16.ofNat_toNat, word]

/-- Exchanging the bytes changes the word unless they are equal. -/
theorem word_swap_iff {a b : UInt8} : word a b = word b a ↔ a = b := by
  constructor
  · intro h
    have hnat := congrArg (fun w => w.toUInt16.toNat) h
    simp only [word, UInt16.toUInt16_toInt16, word_toUInt16_toNat] at hnat
    have ha := a.toNat_lt
    have hb := b.toNat_lt
    apply UInt8.toNat_inj.mp
    omega
  · rintro rfl
    rfl

end Imu
