-- SUMMARY: The frames that app_mpu9250.c sends to the ground station, and when they are whole.
import Mathlib.Logic.Function.Basic
import LidarCar.Base.Bytes

/-!
# Telemetry frames

`usart1_niming_report` builds a frame in `send_buf`, which is on the stack, and
sends it. It clears the byte before the check sum and adds up the check sum in
whatever the stack held.
-/

namespace Telemetry

/-! ## usart1_niming_report -/

/-- The number of bytes of `send_buf`. -/
def sendBufSize : Nat := 32

/-- The stack from `send_buf[0]` on, the indices written so far and the bytes
passed to `wireless_putchar`. -/
structure Report where
  sendBuf : Nat → UInt8
  writes : List Nat
  sent : List UInt8

/-- `send_buf[i] = v`. -/
def Report.store (r : Report) (i : Nat) (v : UInt8) : Report :=
  { r with sendBuf := Function.update r.sendBuf i v, writes := r.writes ++ [i] }

@[simp] theorem Report.store_sendBuf (r : Report) (i : Nat) (v : UInt8) :
    (r.store i v).sendBuf = Function.update r.sendBuf i v := rfl

@[simp] theorem Report.store_writes (r : Report) (i : Nat) (v : UInt8) :
    (r.store i v).writes = r.writes ++ [i] := rfl

@[simp] theorem Report.store_sent (r : Report) (i : Nat) (v : UInt8) :
    (r.store i v).sent = r.sent := rfl

/-- `send_buf[4 + i] = data[i]` for `i < n`. -/
def Report.copyData (r : Report) (data : Nat → UInt8) (n : Nat) : Report :=
  (List.range n).foldl (fun r i => r.store (4 + i) (data i)) r

/-- `send_buf[target] += send_buf[i]` for `i < n`. -/
def Report.addUp (r : Report) (target n : Nat) : Report :=
  (List.range n).foldl (fun r i => r.store target (r.sendBuf target + r.sendBuf i)) r

/-- `wireless_putchar(send_buf[i])` for `i < n`. -/
def Report.putchars (r : Report) (n : Nat) : Report :=
  (List.range n).foldl (fun r i => { r with sent := r.sent ++ [r.sendBuf i] }) r

/-- `usart1_niming_report(fun, data, len)` with `stack` in `send_buf`. -/
def usart1NimingReport (stack : Nat → UInt8) (func : UInt8) (data : Nat → UInt8) (len : UInt8) :
    Report :=
  let r : Report := { sendBuf := stack, writes := [], sent := [] }
  if len > 28 then r
  else
    let n := len.toNat
    let r := r.store (n + 3) 0
    let r := r.store 0 0xAA
    let r := r.store 1 0xAA
    let r := r.store 2 func
    let r := r.store 3 len
    let r := r.copyData data n
    let r := r.addUp (n + 4) (n + 4)
    r.putchars (n + 5)

/-! ## The two reports -/

/-- `(v >> shift) & 0XFF`. -/
def byteOf (v : Int) (shift : Nat) : UInt8 :=
  .ofInt (v >>> shift)

/-- The array `tbuf` with these elements. -/
def tbuf (elements : List UInt8) : Nat → UInt8 := fun i => elements.getD i 0

def mpu6050SendData (stack : Nat → UInt8) (aacx aacy aacz gyrox gyroy gyroz : Int16) : Report :=
  usart1NimingReport stack 0x02
    (tbuf [byteOf aacx.toInt 8, byteOf aacx.toInt 0, byteOf aacy.toInt 8, byteOf aacy.toInt 0,
      byteOf aacz.toInt 8, byteOf aacz.toInt 0, byteOf gyrox.toInt 8, byteOf gyrox.toInt 0,
      byteOf gyroy.toInt 8, byteOf gyroy.toInt 0, byteOf gyroz.toInt 8, byteOf gyroz.toInt 0,
      0, 0, 0, 0, 0, 0]) 18

def usart1ReportImu (stack : Nat → UInt8) (roll pitch yaw csb : Int16) (prs : Int32) : Report :=
  usart1NimingReport stack 0x01
    (tbuf [byteOf roll.toInt 8, byteOf roll.toInt 0, byteOf pitch.toInt 8, byteOf pitch.toInt 0,
      byteOf yaw.toInt 8, byteOf yaw.toInt 0, byteOf csb.toInt 8, byteOf csb.toInt 0,
      byteOf prs.toInt 24, byteOf prs.toInt 16, byteOf prs.toInt 8, byteOf prs.toInt 0]) 12

/-! ## The receiver -/

/-- The bytes of the frame before its check sum. -/
def frameBody (func : UInt8) (data : Nat → UInt8) (len : UInt8) : List UInt8 :=
  [0xAA, 0xAA, func, len] ++ (List.range len.toNat).map data

/-- What the function is to send. -/
def frame (func : UInt8) (data : Nat → UInt8) (len : UInt8) : List UInt8 :=
  if len > 28 then [] else
    frameBody func data len ++ [Bytes.sum (frameBody func data len)]

/-- No byte outside `send_buf` is written and the frame is sent. -/
def SendsFrame (stack : Nat → UInt8) (func : UInt8) (data : Nat → UInt8) (len : UInt8) : Prop :=
  (∀ i ∈ (usart1NimingReport stack func data len).writes, i < sendBufSize) ∧
    (usart1NimingReport stack func data len).sent = frame func data len

/-- A frame with the right check sum, length and function code, without them. -/
def receive (func : UInt8) (bytes : List UInt8) : Option (List UInt8) :=
  (Bytes.openSealed bytes).bind fun
    | 0xAA :: 0xAA :: f :: len :: payload =>
      if f = func ∧ payload.length = len.toNat then some payload else none
    | _ => none

/-- Two's complement, most significant byte first. -/
def word (bytes : List UInt8) : Int16 :=
  .ofInt (Bytes.combine bytes)

def long (bytes : List UInt8) : Int32 :=
  .ofInt (Bytes.combine bytes)

/-- The 16-bit words of a payload. -/
def words : List UInt8 → List Int16
  | hi :: lo :: rest => word [hi, lo] :: words rest
  | [_] | [] => []

/-- Roll, pitch, yaw, `csb` and `prs` from the bytes of a frame. -/
def receiveImu (bytes : List UInt8) : Option (List Int16 × Int32) :=
  (receive 0x01 bytes).map fun payload => (words (payload.take 8), long (payload.drop 8))

/-- The words in a frame of acceleration and gyroscope data. -/
def receiveData (bytes : List UInt8) : Option (List Int16) :=
  (receive 0x02 bytes).map words

/-! ## What the loops do -/

section Loops

variable (r : Report) (data : Nat → UInt8)

theorem Report.copyData_succ (n : Nat) :
    r.copyData data (n + 1) = (r.copyData data n).store (4 + n) (data n) := by
  rw [Report.copyData, List.range_succ, List.foldl_append]
  rfl

theorem Report.copyData_sendBuf (n j : Nat) :
    (r.copyData data n).sendBuf j =
      if 4 ≤ j ∧ j < 4 + n then data (j - 4) else r.sendBuf j := by
  induction n with
  | zero =>
      rw [if_neg (by omega)]
      rfl
  | succ n ih =>
      rw [Report.copyData_succ, Report.store_sendBuf]
      by_cases hj : j = 4 + n
      · rw [hj, Function.update_self, if_pos (by omega), Nat.add_sub_cancel_left]
      · rw [Function.update_of_ne hj, ih]
        exact if_congr (by omega) rfl rfl

theorem Report.copyData_writes (n : Nat) :
    (r.copyData data n).writes = r.writes ++ (List.range n).map (4 + ·) := by
  induction n with
  | zero => simp [Report.copyData]
  | succ n ih =>
      rw [Report.copyData_succ, Report.store_writes, ih, List.range_succ, List.map_append,
        List.append_assoc]
      rfl

theorem Report.copyData_sent (n : Nat) : (r.copyData data n).sent = r.sent := by
  induction n with
  | zero => rfl
  | succ n ih => rw [Report.copyData_succ, Report.store_sent, ih]

theorem Report.addUp_succ (target n : Nat) :
    r.addUp target (n + 1) =
      (r.addUp target n).store target
        ((r.addUp target n).sendBuf target + (r.addUp target n).sendBuf n) := by
  rw [Report.addUp, List.range_succ, List.foldl_append]
  rfl

/-- The sum of the bytes before `target` is added to what is in it. -/
theorem Report.addUp_sendBuf {target n : Nat} (hn : n ≤ target) :
    (r.addUp target n).sendBuf = Function.update r.sendBuf target
      (r.sendBuf target + Bytes.sum ((List.range n).map r.sendBuf)) := by
  induction n with
  | zero =>
      have hzero : r.sendBuf target + Bytes.sum [] = r.sendBuf target := UInt8.add_zero _
      rw [List.range_zero, List.map_nil, hzero, Function.update_eq_self]
      rfl
  | succ n ih =>
      have hne : n ≠ target := Nat.ne_of_lt hn
      rw [Report.addUp_succ, Report.store_sendBuf, ih (Nat.le_of_lt hn), Function.update_self,
        Function.update_of_ne hne, Function.update_idem, List.range_succ, List.map_append,
        List.map_singleton, Bytes.sum_concat, UInt8.add_assoc]

theorem Report.addUp_writes (target n : Nat) :
    (r.addUp target n).writes = r.writes ++ List.replicate n target := by
  induction n with
  | zero => simp [Report.addUp]
  | succ n ih =>
      rw [Report.addUp_succ, Report.store_writes, ih, List.replicate_succ', List.append_assoc]

theorem Report.addUp_sent (target n : Nat) : (r.addUp target n).sent = r.sent := by
  induction n with
  | zero => rfl
  | succ n ih => rw [Report.addUp_succ, Report.store_sent, ih]

theorem Report.putchars_eq (n : Nat) :
    r.putchars n = { r with sent := r.sent ++ (List.range n).map r.sendBuf } := by
  induction n with
  | zero => simp [Report.putchars]
  | succ n ih =>
      have hsucc : r.putchars (n + 1) =
          { r.putchars n with sent := (r.putchars n).sent ++ [(r.putchars n).sendBuf n] } := by
        rw [Report.putchars, List.range_succ, List.foldl_append]
        rfl
      rw [hsucc, ih, List.range_succ, List.map_append, List.append_assoc]
      rfl

end Loops

/-! ## What a report writes and sends -/

section Report

variable (stack : Nat → UInt8) (func : UInt8) (data : Nat → UInt8) {len : UInt8}

/-- The report up to the check sum. -/
def beforeSum (len : UInt8) : Report :=
  ((((({ sendBuf := stack, writes := [], sent := [] } : Report).store (len.toNat + 3) 0).store
    0 0xAA).store 1 0xAA).store 2 func).store 3 len |>.copyData data len.toNat

theorem usart1NimingReport_eq (h : ¬ len > 28) :
    usart1NimingReport stack func data len =
      ((beforeSum stack func data len).addUp (len.toNat + 4) (len.toNat + 4)).putchars
        (len.toNat + 5) := by
  rw [usart1NimingReport, if_neg h]
  rfl

theorem beforeSum_sendBuf (j : Nat) :
    (beforeSum stack func data len).sendBuf j =
      if 4 ≤ j ∧ j < 4 + len.toNat then data (j - 4) else
        Function.update (Function.update (Function.update (Function.update
          (Function.update stack (len.toNat + 3) 0) 0 0xAA) 1 0xAA) 2 func) 3 len j :=
  Report.copyData_sendBuf _ _ _ _

/-- The frame is in `send_buf` up to its check sum. -/
theorem beforeSum_frameBody :
    (List.range (len.toNat + 4)).map (beforeSum stack func data len).sendBuf =
      frameBody func data len := by
  have hrange : List.range (len.toNat + 4) =
      [0, 1, 2, 3] ++ (List.range len.toNat).map (4 + ·) := by
    rw [Nat.add_comm, List.range_add]
    rfl
  have hdata : ∀ i ∈ List.range len.toNat,
      (beforeSum stack func data len).sendBuf (4 + i) = data i := by
    intro i hi
    have hlt := List.mem_range.mp hi
    rw [beforeSum_sendBuf, if_pos ⟨Nat.le_add_right 4 i, Nat.add_lt_add_left hlt 4⟩,
      Nat.add_sub_cancel_left]
  have hhead : [0, 1, 2, 3].map (beforeSum stack func data len).sendBuf =
      [0xAA, 0xAA, func, len] := by
    simp [beforeSum_sendBuf]
  rw [hrange, List.map_append, List.map_map, hhead, frameBody]
  exact congrArg _ (List.map_congr_left hdata)

/-- The place of the check sum still holds what the stack held. -/
theorem beforeSum_stack :
    (beforeSum stack func data len).sendBuf (len.toNat + 4) = stack (len.toNat + 4) := by
  rw [beforeSum_sendBuf, if_neg (by omega), Function.update_of_ne (by omega),
    Function.update_of_ne (by omega), Function.update_of_ne (by omega),
    Function.update_of_ne (by omega), Function.update_of_ne (by omega)]

theorem beforeSum_writes :
    (beforeSum stack func data len).writes =
      [len.toNat + 3, 0, 1, 2, 3] ++ (List.range len.toNat).map (4 + ·) :=
  Report.copyData_writes _ _ _

theorem beforeSum_sent : (beforeSum stack func data len).sent = [] :=
  Report.copyData_sent _ _ _

/-- The check sum is the right one plus what the stack held in its place. -/
theorem usart1NimingReport_sent (h : ¬ len > 28) :
    (usart1NimingReport stack func data len).sent =
      frameBody func data len ++
        [stack (len.toNat + 4) + Bytes.sum (frameBody func data len)] := by
  have hsum := Report.addUp_sendBuf (beforeSum stack func data len) (Nat.le_refl (len.toNat + 4))
  have hbody : (List.range (len.toNat + 4)).map
      ((beforeSum stack func data len).addUp (len.toNat + 4) (len.toNat + 4)).sendBuf =
        frameBody func data len := by
    rw [hsum, ← beforeSum_frameBody stack]
    refine List.map_congr_left fun i hi => Function.update_of_ne ?_ _ _
    exact Nat.ne_of_lt (List.mem_range.mp hi)
  rw [usart1NimingReport_eq stack func data h, Report.putchars_eq, Report.addUp_sent,
    beforeSum_sent, List.nil_append, List.range_succ, List.map_append, hbody, hsum,
    List.map_singleton, Function.update_self, beforeSum_stack, beforeSum_frameBody]

theorem usart1NimingReport_writes (h : ¬ len > 28) :
    (usart1NimingReport stack func data len).writes =
      [len.toNat + 3, 0, 1, 2, 3] ++ (List.range len.toNat).map (4 + ·) ++
        List.replicate (len.toNat + 4) (len.toNat + 4) := by
  rw [usart1NimingReport_eq stack func data h, Report.putchars_eq, Report.addUp_writes,
    beforeSum_writes]

/-- The check sum is the last byte written. -/
theorem writes_lt_iff (h : ¬ len > 28) :
    (∀ i ∈ (usart1NimingReport stack func data len).writes, i < sendBufSize) ↔ len < 28 := by
  have hle : len.toNat ≤ 28 := UInt8.le_iff_toNat_le.mp (UInt8.not_lt.mp h)
  rw [usart1NimingReport_writes stack func data h, sendBufSize, UInt8.lt_iff_toNat_lt]
  constructor
  · intro hall
    have hlast := hall (len.toNat + 4) (by simp)
    exact Nat.lt_of_add_lt_add_right hlast
  · intro hlt i hi
    have hlt' : len.toNat < 28 := hlt
    simp only [List.mem_append, List.mem_cons, List.not_mem_nil, or_false, List.mem_map,
      List.mem_range, List.mem_replicate] at hi
    rcases hi with (hi | ⟨j, hj, rfl⟩) | ⟨-, rfl⟩ <;> omega

/-- A report is one frame and stays in `send_buf` exactly if nothing is to be sent,
or the check sum has a byte of its own and the stack held a zero there. -/
theorem sendsFrame_iff :
    SendsFrame stack func data len ↔
      len > 28 ∨ (len < 28 ∧ stack (len.toNat + 4) = 0) := by
  by_cases h : len > 28
  · refine iff_of_true ?_ (Or.inl h)
    rw [SendsFrame, usart1NimingReport, if_pos h, frame, if_pos h]
    exact ⟨fun i hi => absurd hi List.not_mem_nil, rfl⟩
  · rw [SendsFrame, writes_lt_iff stack func data h, usart1NimingReport_sent stack func data h,
      frame, if_neg h, or_iff_right h, List.append_cancel_left_eq, List.cons.injEq,
      and_iff_left rfl]
    exact and_congr_right fun _ => UInt8.add_eq_right

/-! ## What the receiver reads -/

theorem receive_frameBody (c : UInt8) :
    receive func (frameBody func data len ++ [c]) =
      if c = Bytes.sum (frameBody func data len) then some ((List.range len.toNat).map data)
      else none := by
  rw [receive, Bytes.openSealed_append]
  split
  · simp [frameBody]
  · rfl

/-- The receiver accepts a report exactly if the stack held a zero in the place of
the check sum. -/
theorem receive_report (h : ¬ len > 28) :
    receive func (usart1NimingReport stack func data len).sent =
      if stack (len.toNat + 4) = 0 then some ((List.range len.toNat).map data) else none := by
  rw [usart1NimingReport_sent stack func data h, receive_frameBody]
  exact if_congr UInt8.add_eq_right rfl rfl

end Report

theorem word_byteOf (v : Int16) : word [byteOf v.toInt 8, byteOf v.toInt 0] = v :=
  Bytes.ofInt_combine_split_two v

theorem long_byteOf (v : Int32) :
    long [byteOf v.toInt 24, byteOf v.toInt 16, byteOf v.toInt 8, byteOf v.toInt 0] = v :=
  Bytes.ofInt_combine_split_four v

/-- Without a zero in the place of the check sum the receiver rejects the report,
with one it reads what `read` finds in the payload. -/
theorem map_receive_iff {α : Type*} {stack : Nat → UInt8} {func : UInt8} {data : Nat → UInt8}
    {len : UInt8} {read : List UInt8 → α} {value : α} (h : ¬ len > 28)
    (hread : read ((List.range len.toNat).map data) = value) :
    (receive func (usart1NimingReport stack func data len).sent).map read = some value ↔
      stack (len.toNat + 4) = 0 := by
  rw [receive_report stack func data h]
  split
  case isTrue hzero => exact iff_of_true (congrArg some hread) hzero
  case isFalse hne => exact iff_of_false nofun hne

theorem receiveImu_iff (stack : Nat → UInt8) (roll pitch yaw csb : Int16) (prs : Int32) :
    receiveImu (usart1ReportImu stack roll pitch yaw csb prs).sent =
      some ([roll, pitch, yaw, csb], prs) ↔ stack 16 = 0 := by
  refine map_receive_iff (by decide) (Prod.ext ?_ (long_byteOf prs))
  change [word [byteOf roll.toInt 8, byteOf roll.toInt 0],
    word [byteOf pitch.toInt 8, byteOf pitch.toInt 0],
    word [byteOf yaw.toInt 8, byteOf yaw.toInt 0],
    word [byteOf csb.toInt 8, byteOf csb.toInt 0]] = [roll, pitch, yaw, csb]
  simp only [word_byteOf]

theorem receiveData_iff (stack : Nat → UInt8) (aacx aacy aacz gyrox gyroy gyroz : Int16) :
    receiveData (mpu6050SendData stack aacx aacy aacz gyrox gyroy gyroz).sent =
      some [aacx, aacy, aacz, gyrox, gyroy, gyroz, 0, 0, 0] ↔ stack 22 = 0 := by
  refine map_receive_iff (by decide) ?_
  have hzero : word [0, 0] = 0 := rfl
  change [word [byteOf aacx.toInt 8, byteOf aacx.toInt 0],
    word [byteOf aacy.toInt 8, byteOf aacy.toInt 0],
    word [byteOf aacz.toInt 8, byteOf aacz.toInt 0],
    word [byteOf gyrox.toInt 8, byteOf gyrox.toInt 0],
    word [byteOf gyroy.toInt 8, byteOf gyroy.toInt 0],
    word [byteOf gyroz.toInt 8, byteOf gyroz.toInt 0], word [0, 0], word [0, 0],
    word [0, 0]] = [aacx, aacy, aacz, gyrox, gyroy, gyroz, 0, 0, 0]
  simp only [word_byteOf, hzero]

/-- A report is one whole frame, and the receiver reads what was reported, exactly
where the byte summed into is in `send_buf` and the stack held a zero there. -/
theorem telemetry_exact_iff (stack : Nat → UInt8) :
    (∀ func data len, SendsFrame stack func data len ↔
        len > 28 ∨ (len < 28 ∧ stack (len.toNat + 4) = 0)) ∧
      (∀ roll pitch yaw csb prs,
        receiveImu (usart1ReportImu stack roll pitch yaw csb prs).sent =
          some ([roll, pitch, yaw, csb], prs) ↔ stack 16 = 0) ∧
      ∀ aacx aacy aacz gyrox gyroy gyroz,
        receiveData (mpu6050SendData stack aacx aacy aacz gyrox gyroy gyroz).sent =
          some [aacx, aacy, aacz, gyrox, gyroy, gyroz, 0, 0, 0] ↔ stack 22 = 0 :=
  ⟨fun func data _ => sendsFrame_iff stack func data, receiveImu_iff stack,
    receiveData_iff stack⟩

/-- An empty payload over a stack full of ones, and the longest one over zeros. -/
theorem telemetry_not_exact :
    ¬ SendsFrame (fun _ => 1) 0x01 (fun _ => 0) 0 ∧
      ¬ SendsFrame (fun _ => 0) 0x01 (fun _ => 0) 28 := by
  constructor
  · rintro ⟨-, hsent⟩
    exact absurd hsent (by decide)
  · rintro ⟨hwrites, -⟩
    have hlast : 32 ∈ (usart1NimingReport (fun _ => 0) 0x01 (fun _ => 0) 28).writes := by decide
    exact absurd (hwrites 32 hlast) (by decide)

end Telemetry
