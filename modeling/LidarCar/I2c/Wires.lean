-- SUMMARY: Each operation of the bit-banged master on the lines of a chip is one step of the conversation.
import Mathlib.Tactic.IntervalCases
import LidarCar.I2c.BitOps

/-!
# From lines to bytes

Between two bytes the clock line is low, and the shift register of the chip is
empty or holds a whole byte. An operation of the master clocks it through one
byte or one acknowledge bit.
-/

namespace I2c

open TwoWire

variable {σ : Type*} {p : Partner σ}

/-! ## Bits -/

theorem length_bits (byte : UInt8) : (bits byte).length = 8 := rfl

theorem bit_lowest (b : Bool) {i : Nat} (hi : i < 8) :
    (if b then (1 : UInt8) else 0).toBitVec[i] = (b && i == 0) := by
  cases b with
  | false => simp
  | true => interval_cases i <;> simp

theorem ofBits_bits (byte : UInt8) : ofBits (bits byte) = byte := by
  apply UInt8.toBitVec_inj.mp
  ext i hi
  interval_cases i <;> simp [ofBits, bits, shiftIn, bit_lowest]

/-! ## Lines of a chip -/

section Lines

variable {scl sda level first : Bool} {s : σ} {c : Chip σ}

theorem setSda_low : Lines.setSda (chip p) ⟨false, sda, c⟩ level = ⟨false, level, c⟩ := rfl

theorem sclL_high : sclL (chip p) ⟨true, sda, c⟩ = ⟨false, sda, c.fall p⟩ := rfl

theorem sclH_low :
    sclH (chip p) ⟨false, sda, c⟩ = (true, ⟨true, sda, c.rise (sda && !c.pulls)⟩) := rfl

/-! ## Writing a byte -/

theorem i2cWriteBits_cons {b : Bool} {bs acc : List Bool} (h : acc.length < 8) :
    i2cWriteBits (chip p) (b :: bs) ⟨scl, sda, ⟨.take first acc, s⟩⟩ =
      i2cWriteBits (chip p) bs ⟨true, b, ⟨.take first (acc ++ [b]), s⟩⟩ := by
  have hlow : sclL (chip p) ⟨scl, sda, ⟨.take first acc, s⟩⟩ =
      ⟨false, sda, ⟨.take first acc, s⟩⟩ := by
    cases scl with
    | false => rfl
    | true => simp [sclL_high, Chip.fall, Nat.ne_of_lt h]
  simp [i2cWriteBits, hlow, setSda_low, sclH_low, Chip.rise, Chip.pulls]

/-- Bits are shifted in as long as there is room for them. -/
theorem i2cWriteBits_take {bs acc : List Bool} (h : acc.length + bs.length ≤ 8)
    (hbs : bs ≠ []) :
    ∃ sda', i2cWriteBits (chip p) bs ⟨scl, sda, ⟨.take first acc, s⟩⟩ =
      (true, ⟨true, sda', ⟨.take first (acc ++ bs), s⟩⟩) := by
  induction bs generalizing acc scl sda with
  | nil => exact absurd rfl hbs
  | cons b bs ih =>
      rw [List.length_cons] at h
      rw [i2cWriteBits_cons (by omega)]
      cases bs with
      | nil => exact ⟨b, rfl⟩
      | cons b' bs =>
          have hroom : (acc ++ [b]).length + (b' :: bs).length ≤ 8 := by
            rw [List.length_append, List.length_singleton]
            omega
          obtain ⟨sda', hrest⟩ := ih hroom (List.cons_ne_nil _ _)
          exact ⟨sda', by rw [hrest, List.append_assoc]; rfl⟩

/-- An idle chip takes no notice. -/
theorem i2cWriteBits_idle {bs : List Bool} (hbs : bs ≠ []) :
    ∃ sda', i2cWriteBits (chip p) bs ⟨scl, sda, ⟨.idle, s⟩⟩ =
      (true, ⟨true, sda', ⟨.idle, s⟩⟩) := by
  induction bs generalizing scl sda with
  | nil => exact absurd rfl hbs
  | cons b bs ih =>
      have hcons : i2cWriteBits (chip p) (b :: bs) ⟨scl, sda, ⟨.idle, s⟩⟩ =
          i2cWriteBits (chip p) bs ⟨true, b, ⟨.idle, s⟩⟩ := by
        cases scl <;> rfl
      rw [hcons]
      cases bs with
      | nil => exact ⟨b, rfl⟩
      | cons b' bs => exact ih (List.cons_ne_nil _ _)

/-- The ninth clock of a byte: the chip that has taken the byte answers. -/
theorem i2cWaitack_chip :
    i2cWaitack (chip p) ⟨false, sda, c⟩ =
      (if (c.rise (!c.pulls)).pulls then 1 else 0,
        ⟨false, true, (c.rise (!c.pulls)).fall p⟩) := by
  simp only [i2cWaitack, setSda_low, sclH_low, sclL_high, Bool.true_and]
  cases h : (c.rise (!c.pulls)).pulls <;> simp [Lines.data, chip, h]

end Lines

/-! ## The conversation on the lines -/

/-- Between two bytes: the clock is low, and the chip is where the conversation is. -/
structure Agrees (c : Talk σ) (w : Lines (Chip σ)) : Prop where
  scl : w.scl = false
  device : w.device = c.chip

/-- The lines while there is no conversation. -/
def quiet (s : σ) : Lines (Chip σ) :=
  ⟨true, true, ⟨.idle, s⟩⟩

variable {c : Talk σ} {w : Lines (Chip σ)}

theorem Agrees.eq (h : Agrees c w) : w = ⟨false, w.sda, ⟨c.mode.shift, c.partner⟩⟩ := by
  obtain ⟨hscl, hdevice⟩ := h
  cases w
  simp_all [Talk.chip]

/-- The chip is not in the middle of a byte of its own. -/
inductive Silent : Mode → Prop where
  | idle : Silent .idle
  | listen (first : Bool) : Silent (.listen first)

theorem i2cStart_quiet (c : Talk σ) : Agrees c.start (i2cStart (chip p) (quiet c.partner)) :=
  ⟨rfl, rfl⟩

theorem i2cRestart_agrees (h : Agrees c w) (hc : Silent c.mode) :
    Agrees c.start (i2cRestart (chip p) w) := by
  obtain ⟨mode, s⟩ := c
  rw [h.eq]
  cases hc with
  | idle => exact ⟨rfl, rfl⟩
  | listen first => exact ⟨rfl, rfl⟩

theorem i2cStop_agrees (h : Agrees c w) (hc : Silent c.mode) :
    i2cStop (chip p) w = quiet c.partner := by
  obtain ⟨mode, s⟩ := c
  rw [h.eq]
  cases hc with
  | idle => rfl
  | listen first => rfl

theorem fall_bits {first : Bool} {s s' : σ} {byte : UInt8} {answer : Option Bool}
    (h : p.take first s byte = (answer, s')) :
    Chip.fall p ⟨.take first (bits byte), s⟩ = ⟨answer.elim .idle .ack, s'⟩ := by
  simp only [Chip.fall, length_bits, ofBits_bits, if_true, h]
  cases answer with
  | none => rfl
  | some asked => rfl

/-- A byte goes to a chip that listens or is idle. -/
theorem i2cWriteb_agrees (h : Agrees c w) (hc : Silent c.mode) (byte : UInt8) :
    (i2cWriteb (chip p) w byte).1 = ((talk p).writeb c byte).1 ∧
      Agrees ((talk p).writeb c byte).2 (i2cWriteb (chip p) w byte).2 := by
  obtain ⟨mode, s⟩ := c
  have hbits : bits byte ≠ [] := nofun
  rw [h.eq]
  cases hc with
  | idle =>
      obtain ⟨sda, hwrite⟩ : ∃ sda, i2cWriteBits (chip p) (bits byte)
          ⟨false, w.sda, ⟨.idle, s⟩⟩ = (true, ⟨true, sda, ⟨.idle, s⟩⟩) := i2cWriteBits_idle hbits
      simp only [Mode.shift, i2cWriteb, hwrite, sclL_high, i2cWaitack_chip]
      exact ⟨rfl, rfl, rfl⟩
  | listen first =>
      obtain ⟨sda, hwrite⟩ : ∃ sda, i2cWriteBits (chip p) (bits byte)
          ⟨false, w.sda, ⟨.take first [], s⟩⟩ =
            (true, ⟨true, sda, ⟨.take first ([] ++ bits byte), s⟩⟩) :=
        i2cWriteBits_take (by simp [length_bits]) hbits
      obtain ⟨⟨answer, s'⟩, htake⟩ : ∃ r, p.take first s byte = r := ⟨_, rfl⟩
      simp only [Mode.shift, i2cWriteb, hwrite, List.nil_append, sclL_high, i2cWaitack_chip,
        fall_bits htake, talk, Talk.write, htake]
      cases answer with
      | none => exact ⟨rfl, rfl, rfl⟩
      | some asked => cases asked <;> exact ⟨rfl, rfl, rfl⟩

/-! ## Reading a byte -/

theorem i2cReadBits_succ {c : Chip σ} {i : Nat} {data : UInt8} :
    i2cReadBits (chip p) (i + 1) data ⟨false, true, c⟩ =
      i2cReadBits (chip p) i (shiftIn data !(c.rise (!c.pulls)).pulls)
        ⟨false, true, (c.rise (!c.pulls)).fall p⟩ := by
  simp only [i2cReadBits, sclH_low, sclL_high, Bool.true_and]
  cases h : (c.rise (!c.pulls)).pulls <;> simp [Lines.data, chip, h, shiftIn]

/-- A chip that talks shifts its byte out. -/
theorem i2cReadBits_give {bs : List Bool} {data : UInt8} {s : σ} (hbs : bs ≠ []) :
    i2cReadBits (chip p) bs.length data ⟨false, true, ⟨.give bs, s⟩⟩ =
      (some (bs.foldl shiftIn data), ⟨false, true, ⟨.hear, s⟩⟩) := by
  induction bs generalizing data with
  | nil => exact absurd rfl hbs
  | cons b bs ih =>
      rw [List.length_cons, i2cReadBits_succ]
      simp only [Chip.rise, Chip.pulls, Bool.not_not]
      cases bs with
      | nil => rfl
      | cons b' bs => exact ih (List.cons_ne_nil _ _)

/-- A chip that listens takes the ones that the master leaves on the line. -/
theorem i2cReadBits_take {first : Bool} {acc : List Bool} {n : Nat} {data : UInt8} {s : σ}
    (h : acc.length + (n + 1) = 8) :
    i2cReadBits (chip p) (n + 1) data ⟨false, true, ⟨.take first acc, s⟩⟩ =
      (some ((List.replicate (n + 1) true).foldl shiftIn data),
        ⟨false, true, Chip.fall p ⟨.take first (acc ++ List.replicate (n + 1) true), s⟩⟩) := by
  induction n generalizing acc data with
  | zero =>
      rw [i2cReadBits_succ]
      rfl
  | succ n ih =>
      have hlength : (acc ++ [true]).length + (n + 1) = 8 := by
        rw [List.length_append, List.length_singleton]
        omega
      have hroom : (acc ++ [true]).length ≠ 8 := by omega
      rw [i2cReadBits_succ]
      simp only [Chip.rise, Chip.pulls, Bool.not_false, Chip.fall, hroom, if_false]
      rw [ih hlength, List.append_assoc]
      rfl

theorem i2cReadBits_idle {n : Nat} {data : UInt8} {s : σ} :
    i2cReadBits (chip p) n data ⟨false, true, ⟨.idle, s⟩⟩ =
      (some ((List.replicate n true).foldl shiftIn data), ⟨false, true, ⟨.idle, s⟩⟩) := by
  induction n generalizing data with
  | zero => rfl
  | succ n ih =>
      rw [i2cReadBits_succ]
      exact ih

/-- The chip talks, listens or is idle. -/
inductive Readable : Mode → Prop where
  | idle : Readable .idle
  | listen (first : Bool) : Readable (.listen first)
  | talk (byte : UInt8) : Readable (.talk byte)

/-- The acknowledge bit is due. -/
inductive Due : Mode → Prop where
  | idle : Due .idle
  | turn : Due .turn
  | ack (asked : Bool) : Due (.ack asked)

theorem i2cReadb_agrees (h : Agrees c w) (hc : Readable c.mode) :
    (i2cReadb (chip p) w).1 = some (c.read p).1 ∧ Agrees (c.read p).2 (i2cReadb (chip p) w).2 ∧
      (i2cReadb (chip p) w).2.sda = true ∧ Due (c.read p).2.mode := by
  obtain ⟨mode, s⟩ := c
  rw [h.eq]
  cases hc with
  | idle =>
      have hread : i2cReadb (chip p) ⟨false, w.sda, ⟨.idle, s⟩⟩ =
          (some 0xFF, ⟨false, true, ⟨.idle, s⟩⟩) := by
        rw [i2cReadb, setSda_low, i2cReadBits_idle]
        rfl
      simp only [Mode.shift, hread]
      exact ⟨rfl, ⟨rfl, rfl⟩, trivial, .idle⟩
  | talk byte =>
      have hread : i2cReadb (chip p) ⟨false, w.sda, ⟨.give (bits byte), s⟩⟩ =
          (some (ofBits (bits byte)), ⟨false, true, ⟨.hear, s⟩⟩) := by
        rw [i2cReadb, setSda_low]
        have hbits : bits byte ≠ [] := nofun
        exact i2cReadBits_give hbits
      simp only [Mode.shift, hread, ofBits_bits]
      exact ⟨rfl, ⟨rfl, rfl⟩, trivial, .turn⟩
  | listen first =>
      obtain ⟨⟨answer, s'⟩, htake⟩ : ∃ r, p.take first s 0xFF = r := ⟨_, rfl⟩
      have hread : i2cReadb (chip p) ⟨false, w.sda, ⟨.take first [], s⟩⟩ =
          (some 0xFF, ⟨false, true, ⟨answer.elim .idle .ack, s'⟩⟩) := by
        rw [i2cReadb, setSda_low, i2cReadBits_take rfl, ← fall_bits htake]
        rfl
      simp only [Mode.shift, hread, Talk.read, htake]
      cases answer with
      | none => exact ⟨rfl, ⟨rfl, rfl⟩, trivial, .idle⟩
      | some asked => exact ⟨rfl, ⟨rfl, rfl⟩, trivial, .ack asked⟩

theorem i2cSendAckOrNack_agrees (h : Agrees c w) (hsda : w.sda = true) (hc : Due c.mode)
    (ack : Bool) :
    (i2cSendAckOrNack (chip p) w ack).1 = 0 ∧
      Agrees (c.answer p ack) (i2cSendAckOrNack (chip p) w ack).2 := by
  obtain ⟨mode, s⟩ := c
  rw [h.eq, hsda]
  cases hc with
  | idle => cases ack <;> exact ⟨rfl, rfl, rfl⟩
  | turn => cases ack <;> exact ⟨rfl, rfl, rfl⟩
  | ack asked => cases ack <;> cases asked <;> exact ⟨rfl, rfl, rfl⟩

end I2c
