-- SUMMARY: The register accesses of app_mpu9250.c over the bit-banged bus.
import LidarCar.I2c.Registers
import LidarCar.Imu.I2c

/-!
# Registers of the IMU on the lines

`readRegs` and `writeReg` say what the driver gets for what the transfer returns.
Where the transfer is the bit-banged one and the IMU is at its lines, that is the
content of the registers.
-/

namespace Imu

open Kernel (Err)
open I2c (Board Access board lines quiet i2cBitXfer writeMsg readMsg fetch store)
open TwoWire (chip)

variable {bus : Bus} {addr : UInt16} {reg data len : UInt8} {b : Board} {retries : Nat}

theorem fetch_eq_map (regs : I2c.Registers) (reg : UInt8) (len : Nat) :
    fetch regs reg len = (List.range len).map fun i => regs (reg + .ofNat i) := by
  induction len generalizing reg with
  | zero => rfl
  | succ len ih =>
      rw [fetch, ih, List.range_succ_eq_map, List.map_cons, List.map_map]
      refine congrArg₂ _ (by simp) (List.map_congr_left fun i _ => ?_)
      simp only [Function.comp_apply, Nat.succ_eq_add_one, UInt8.ofNat_add]
      rw [UInt8.add_assoc, UInt8.add_comm (UInt8.ofNat i)]
      rfl

/-- The bus has the driver's transfer of `access` on the lines of the board next. -/
def Bus.Next (bus : Bus) (retries : Nat) (access : Access) (b : Board) : Prop :=
  bus.nextRet = .ofInt (i2cBitXfer (lines (chip board)) retries access.msgs (quiet b)).1

/-- A read of registers over the lines succeeds exactly if the chip is there, and
gives the registers. -/
theorem readRegs_on_lines (haddr : addr < 128) (hlen : len ≠ 0)
    (hnext : bus.Next retries (.read addr reg len.toNat) b)
    (hregs : ∀ regs ∈ b.chips addr.toUInt8, regs = bus.register addr) :
    (readRegs bus addr reg len).1 =
        (b.chips addr.toUInt8).map (fun regs i => regs (reg + .ofNat i)) ∧
      ∀ f, (readRegs bus addr reg len).1 = some f →
        (i2cBitXfer (lines (chip board)) retries (Access.read addr reg len.toNat).msgs
          (quiet b)).2.1 = [writeMsg addr [reg], readMsg addr ((List.range len.toNat).map f)] := by
  have hvalid : (Access.read addr reg len.toNat).Valid :=
    ⟨haddr, fun hzero => hlen (UInt8.toNat_inj.mp hzero)⟩
  obtain ⟨b', -, hlines⟩ := Access.transfer_lines _ hvalid retries b
  rw [Bus.Next, hlines] at hnext
  rw [hlines]
  cases hchip : b.chips addr.toUInt8 with
  | none =>
      have hret : bus.nextRet ≠ 2 := by
        rw [hnext]
        simp only [Access.perform, hchip]
        decide
      have hnone : (readRegs bus addr reg len).1 = none := if_neg hret
      refine ⟨hnone, fun f hf => ?_⟩
      rw [hnone] at hf
      cases hf
  | some regs =>
      have hret : bus.nextRet = 2 := by
        rw [hnext]
        simp only [Access.perform, hchip]
        decide
      have hsome : (readRegs bus addr reg len).1 =
          some fun i => bus.register addr (reg + .ofNat i) := if_pos hret
      have heq := hregs regs hchip
      refine ⟨hsome.trans (by rw [heq]; rfl), fun f hf => ?_⟩
      obtain rfl := Option.some.inj (hsome.symm.trans hf)
      simp only [Access.perform, hchip, fetch_eq_map, heq]

/-- Register 0x75 of a chip whose registers all hold 0x71. -/
theorem readRegs_on_lines_who :
    (readRegs ⟨fun _ => 2, fun _ => 0x71, fun _ => 0x71, []⟩ 0x68 0x75 1).1 =
      (Function.update (fun _ => none) 0x68 (some fun _ => 0x71) (0x68 : UInt8)).map
        (fun (regs : I2c.Registers) i => regs (0x75 + .ofNat i)) := by
  have hregs : ∀ regs ∈ Function.update (fun _ => none) 0x68 (some fun _ => 0x71) (0x68 : UInt8),
      regs = Bus.register ⟨fun _ => 2, fun _ => 0x71, fun _ => 0x71, []⟩ 0x68 := by
    intro regs hmem
    rw [Function.update_self, Option.mem_some_iff] at hmem
    rw [← hmem]
    funext reg
    simp [Bus.register]
  have hnext : Bus.Next ⟨fun _ => 2, fun _ => 0x71, fun _ => 0x71, []⟩ 0
      (.read 0x68 0x75 (1 : UInt8).toNat)
      ⟨Function.update (fun _ => none) 0x68 (some fun _ => 0x71), 0, 0, false⟩ := by
    unfold Bus.Next
    rfl
  exact (readRegs_on_lines (by decide) (by decide) hnext hregs).1

/-- A write of a register over the lines succeeds exactly if the chip is there, and
changes this register of this chip. -/
theorem writeReg_on_lines (haddr : addr < 128)
    (hnext : bus.Next retries (.write addr reg [data]) b) :
    ((writeReg bus addr reg data).1 = .eok ↔ (b.chips addr.toUInt8).isSome) ∧
      ∃ b' : Board, (i2cBitXfer (lines (chip board)) retries
          (Access.write addr reg [data]).msgs (quiet b)).2.2 = quiet b' ∧
        b'.chips = Function.update b.chips addr.toUInt8
          ((b.chips addr.toUInt8).map fun regs => Function.update regs reg data) := by
  obtain ⟨b', hchips, hlines⟩ :=
    Access.transfer_lines (.write addr reg [data]) haddr retries b
  rw [Bus.Next, hlines] at hnext
  rw [writeReg_eok_iff, hlines, hnext]
  cases hchip : b.chips addr.toUInt8 with
  | none =>
      refine ⟨?_, b', rfl, ?_⟩
      · simp only [Access.perform, hchip]
        decide
      · rw [hchips]
        simp only [Access.perform, hchip]
        exact (Function.update_eq_self_iff.mpr hchip.symm).symm
  | some regs =>
      refine ⟨?_, b', rfl, ?_⟩
      · simp only [Access.perform, hchip]
        exact iff_of_true (by decide) rfl
      · rw [hchips]
        simp [Access.perform, hchip, store]

/-- A board with one chip, at address 0x68. -/
def whoBoard : Board :=
  ⟨Function.update (fun _ => none) 0x68 (some fun _ => 0x71), 0, 0, false⟩

/-- The chip at address 0x68 takes the value, and nobody answers at address 0x0C. -/
theorem writeReg_on_lines_board :
    ((writeReg ⟨fun _ => 1, fun _ => 0, fun _ => 0, []⟩ 0x68 0x6B 0x80).1 = .eok ∧
      ∃ b' : Board, (i2cBitXfer (lines (chip board)) 1 (Access.write 0x68 0x6B [0x80]).msgs
          (quiet whoBoard)).2.2 = quiet b' ∧
        b'.chips 0x68 = some (Function.update (fun _ => 0x71) 0x6B 0x80)) ∧
    (writeReg ⟨fun _ => 0xFFFFFFF8, fun _ => 0, fun _ => 0, []⟩ 0x0C 0x0A 0x16).1 ≠ .eok := by
  constructor
  · have hnext : Bus.Next ⟨fun _ => 1, fun _ => 0, fun _ => 0, []⟩ 1 (.write 0x68 0x6B [0x80])
        whoBoard := by
      unfold Bus.Next
      rfl
    obtain ⟨hret, b', hlines, hchips⟩ := writeReg_on_lines (by decide) hnext
    refine ⟨hret.mpr rfl, b', hlines, ?_⟩
    rw [hchips]
    rfl
  · have hnext : Bus.Next ⟨fun _ => 0xFFFFFFF8, fun _ => 0, fun _ => 0, []⟩ 1
        (.write 0x0C 0x0A [0x16]) whoBoard := by
      unfold Bus.Next
      rfl
    rw [Ne, (writeReg_on_lines (by decide) hnext).1]
    nofun

end Imu
