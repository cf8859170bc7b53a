-- SUMMARY: The I2C bus of the IMU and the register accesses of app_mpu9250.c.
import LidarCar.Kernel.Ipc

/-!
# Registers of the IMU

The MPU9250 and the AK8963 magnetometer in it are read and written a register at
a time or several in a row. What a transfer returns is up to the bus.
-/

namespace Imu

open Kernel (Err)

/-! ## The bus -/

/-- `struct rt_i2c_msg`: a write of the bytes in `buf`, or a read of `len` bytes. -/
inductive Msg where
  | write (addr : UInt16) (buf : List UInt8)
  | read (addr : UInt16) (len : UInt16)
  deriving DecidableEq, Repr

structure Transfer where
  msgs : List Msg
  /-- What `master_xfer` has returned: the number of messages, or an error. -/
  ret : UInt32
  deriving DecidableEq, Repr

/-- `MPU9250_ADDR`. -/
def mpu9250Addr : UInt16 := 0x68

/-- `AK8963_ADDR`. -/
def ak8963Addr : UInt16 := 0x0C

/-- `st.reg->raw_compass`. -/
def rawCompass : UInt8 := 0x49

/-- `AKM_REG_ST1`. -/
def akmRegSt1 : UInt8 := 0x02

structure Bus where
  /-- What `master_xfer` returns for the `n`-th transfer. -/
  masterXfer : Nat → UInt32
  /-- The registers of the MPU9250 itself. -/
  mpu9250 : UInt8 → UInt8
  /-- The registers of the AK8963. -/
  ak8963 : UInt8 → UInt8
  /-- The transfers so far. -/
  transfers : List Transfer

/-- A register as it is read. `setup_compass` has slave 0 of the MPU9250 copy 8
registers of the AK8963, from `AKM_REG_ST1` on, to where the driver reads them. -/
def Bus.register (bus : Bus) (addr : UInt16) (reg : UInt8) : UInt8 :=
  if addr = ak8963Addr then bus.ak8963 reg
  else if rawCompass ≤ reg ∧ reg < rawCompass + 8 then
    bus.ak8963 (akmRegSt1 + (reg - rawCompass))
  else bus.mpu9250 reg

/-- What the next transfer returns. -/
def Bus.nextRet (bus : Bus) : UInt32 :=
  bus.masterXfer bus.transfers.length

/-- `rt_i2c_transfer`. -/
def rtI2cTransfer (bus : Bus) (msgs : List Msg) : UInt32 × Bus :=
  (bus.nextRet, { bus with transfers := bus.transfers ++ [⟨msgs, bus.nextRet⟩] })

/-- `rt_i2c_master_send`, which makes any positive number the count. -/
def rtI2cMasterSend (bus : Bus) (addr : UInt16) (buf : List UInt8) : UInt32 × Bus :=
  let r := rtI2cTransfer bus [.write addr buf]
  (if 0 < r.1.toInt32 then .ofNat buf.length else r.1, r.2)

/-! ## Register accesses -/

/-- The body of the functions that write a register. -/
def writeReg (bus : Bus) (addr : UInt16) (reg data : UInt8) : Err × Bus :=
  let r := rtI2cMasterSend bus addr [reg, data]
  (if r.1 = 2 then .eok else .error, r.2)

/-- `mpu9250_write_reg`. -/
def mpu9250WriteReg (bus : Bus) (reg data : UInt8) : Err × Bus :=
  writeReg bus mpu9250Addr reg data

/-- The body of the functions that read registers. In case of success, the bytes
that are in `buf`, of which the read fills the first `len`. -/
def readRegs (bus : Bus) (addr : UInt16) (reg len : UInt8) : Option (Nat → UInt8) × Bus :=
  let r := rtI2cTransfer bus [.write addr [reg], .read addr len.toUInt16]
  (if r.1 = 2 then some fun i => bus.register addr (reg + .ofNat i) else none, r.2)

/-- `mpu9250_read_regs`. -/
def mpu9250ReadRegs (bus : Bus) (reg len : UInt8) : Option (Nat → UInt8) × Bus :=
  readRegs bus mpu9250Addr reg len

/-- `mpu9250_read_magnetometer_regs`. -/
def mpu9250ReadMagnetometerRegs (bus : Bus) (reg len : UInt8) : Option (Nat → UInt8) × Bus :=
  readRegs bus ak8963Addr reg len

/-- `mpu_dmp_read_Len`. -/
def mpuDmpReadLen (bus : Bus) (addr reg len : UInt8) : Option (Nat → UInt8) × Bus :=
  readRegs bus addr.toUInt16 reg len

/-! ## The sample rate -/

/-- `MPU_SAMPLE_RATE_REG`. -/
def sampleRateReg : UInt8 := 0x19

/-- `MPU_CFG_REG`. -/
def cfgReg : UInt8 := 0x1A

/-- `mpu9250_set_lpf`. -/
def mpu9250SetLpf (bus : Bus) (lpf : UInt16) : Err × Bus :=
  let data : UInt8 :=
    if lpf ≥ 188 then 1
    else if lpf ≥ 98 then 2
    else if lpf ≥ 42 then 3
    else if lpf ≥ 20 then 4
    else if lpf ≥ 10 then 5
    else 6
  mpu9250WriteReg bus cfgReg data

/-- `mpu9250_set_sample_rate`. The result of the first write goes to `data`,
which nothing reads. -/
def mpu9250SetSampleRate (bus : Bus) (rate : UInt16) : Err × Bus :=
  let rate := if rate > 1000 then 1000 else rate
  let rate := if rate < 4 then 4 else rate
  let data := (1000 / rate - 1).toUInt8
  let r := mpu9250WriteReg bus sampleRateReg data
  mpu9250SetLpf r.2 (rate / 2)

/-! ## Writes -/

/-- The transfer has written the register. -/
def Transfer.Wrote (t : Transfer) (addr : UInt16) (reg : UInt8) : Prop :=
  0 < t.ret.toInt32 ∧ ∃ data, t.msgs = [.write addr [reg, data]]

/-- The register has been written between `bus` and `bus'`. -/
def Bus.WroteUntil (bus bus' : Bus) (addr : UInt16) (reg : UInt8) : Prop :=
  ∃ t ∈ bus'.transfers.drop bus.transfers.length, t.Wrote addr reg

section Writes

variable {bus : Bus} {addr : UInt16} {reg data : UInt8}

theorem rtI2cMasterSend_ret (buf : List UInt8) : (rtI2cMasterSend bus addr buf).1 =
    if 0 < bus.nextRet.toInt32 then .ofNat buf.length else bus.nextRet := rfl

/-- A write fails exactly if the bus does not return a positive number. -/
theorem writeReg_eok_iff : (writeReg bus addr reg data).1 = .eok ↔ 0 < bus.nextRet.toInt32 := by
  rw [writeReg, rtI2cMasterSend_ret]
  by_cases hret : 0 < bus.nextRet.toInt32
  · rw [if_pos hret]
    exact iff_of_true rfl hret
  · have hne : bus.nextRet ≠ 2 := by
      intro htwo
      apply hret
      rw [htwo]
      decide
    rw [if_neg hret, if_neg hne]
    exact iff_of_false nofun hret

theorem writeReg_transfers : (writeReg bus addr reg data).2.transfers =
    bus.transfers ++ [⟨[.write addr [reg, data]], bus.nextRet⟩] := rfl

theorem writeReg_nextRet :
    (writeReg bus addr reg data).2.nextRet = bus.masterXfer (bus.transfers.length + 1) := by
  rw [Bus.nextRet, writeReg_transfers, List.length_append, List.length_singleton]
  rfl

/-- What `mpu9250_set_sample_rate` sends, whatever the bus returns: the divider
and then the filter. -/
theorem mpu9250SetSampleRate_transfers (bus : Bus) (rate : UInt16) :
    ∃ divider filter, (mpu9250SetSampleRate bus rate).2.transfers = bus.transfers ++
      [⟨[.write mpu9250Addr [sampleRateReg, divider]], bus.masterXfer bus.transfers.length⟩,
        ⟨[.write mpu9250Addr [cfgReg, filter]], bus.masterXfer (bus.transfers.length + 1)⟩] := by
  simp only [mpu9250SetSampleRate, mpu9250SetLpf, mpu9250WriteReg, writeReg_transfers,
    writeReg_nextRet, List.append_assoc, List.singleton_append]
  exact ⟨_, _, rfl⟩

/-- Its result is that of the second write alone. -/
theorem mpu9250SetSampleRate_eok_iff (bus : Bus) (rate : UInt16) :
    (mpu9250SetSampleRate bus rate).1 = .eok ↔
      0 < (bus.masterXfer (bus.transfers.length + 1)).toInt32 := by
  simp only [mpu9250SetSampleRate, mpu9250SetLpf, mpu9250WriteReg, writeReg_eok_iff,
    writeReg_nextRet]

theorem Transfer.wrote_iff {ret : UInt32} {reg' : UInt8} :
    (⟨[.write addr [reg, data]], ret⟩ : Transfer).Wrote addr reg' ↔
      0 < ret.toInt32 ∧ reg = reg' := by
  simp [Transfer.Wrote]

/-- Each of its two writes is a write of its own register if the bus says so. -/
theorem mpu9250SetSampleRate_wroteUntil (bus : Bus) (rate : UInt16) :
    (bus.WroteUntil (mpu9250SetSampleRate bus rate).2 mpu9250Addr sampleRateReg ↔
        0 < bus.nextRet.toInt32) ∧
      (bus.WroteUntil (mpu9250SetSampleRate bus rate).2 mpu9250Addr cfgReg ↔
        0 < (bus.masterXfer (bus.transfers.length + 1)).toInt32) := by
  obtain ⟨divider, filter, htransfers⟩ := mpu9250SetSampleRate_transfers bus rate
  have hne : sampleRateReg ≠ cfgReg := by decide
  constructor
  · simp [Bus.WroteUntil, htransfers, Transfer.wrote_iff, hne.symm, Bus.nextRet]
  · simp [Bus.WroteUntil, htransfers, Transfer.wrote_iff, hne]

/-- Success is reported only of two writes exactly if the first succeeds or the
second fails. -/
theorem mpu9250SetSampleRate_fine_iff (bus : Bus) (rate : UInt16) :
    ((mpu9250SetSampleRate bus rate).1 = .eok →
        bus.WroteUntil (mpu9250SetSampleRate bus rate).2 mpu9250Addr sampleRateReg ∧
          bus.WroteUntil (mpu9250SetSampleRate bus rate).2 mpu9250Addr cfgReg) ↔
      0 < bus.nextRet.toInt32 ∨ ¬ 0 < (bus.masterXfer (bus.transfers.length + 1)).toInt32 := by
  obtain ⟨hdivider, hfilter⟩ := mpu9250SetSampleRate_wroteUntil bus rate
  rw [mpu9250SetSampleRate_eok_iff, hdivider, hfilter]
  constructor
  · intro h
    by_cases hsecond : 0 < (bus.masterXfer (bus.transfers.length + 1)).toInt32
    · exact Or.inl (h hsecond).1
    · exact Or.inr hsecond
  · rintro (hfirst | hsecond) heok
    · exact ⟨hfirst, heok⟩
    · exact absurd heok hsecond

end Writes

end Imu
