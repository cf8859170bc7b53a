-- SUMMARY: The receive ring of serial.c and the list of bytes it holds.
import LidarCar.Base.Circular

/-!
# The receive ring

`rt_hw_serial_isr` puts bytes in the ring and `_serial_int_rx` takes them out.
As long as the ring does not fill it is a first-in first-out queue.
-/

namespace Serial

/-- `RT_SERIAL_RB_BUFSZ`. -/
def bufsz : Nat := 64

/-- `struct rt_serial_rx_fifo`. -/
structure RxFifo where
  buffer : Nat → UInt8
  putIndex : Nat
  getIndex : Nat
  isFull : Bool

/-- The ring when the device is opened. -/
def RxFifo.init : RxFifo where
  buffer := fun _ => 0
  putIndex := 0
  getIndex := 0
  isFull := false

/-- `index += 1; if (index >= serial->config.bufsz) index = 0`. -/
def wrap (index : Nat) : Nat :=
  if index + 1 ≥ bufsz then 0 else index + 1

/-- The loop body of `rt_hw_serial_isr`. A ring that fills discards its oldest byte. -/
def RxFifo.put (r : RxFifo) (ch : UInt8) : RxFifo :=
  let buffer := Function.update r.buffer r.putIndex ch
  let putIndex := wrap r.putIndex
  if putIndex = r.getIndex then
    { buffer := buffer, putIndex := putIndex, getIndex := wrap r.getIndex, isFull := true }
  else
    { r with buffer := buffer, putIndex := putIndex }

/-- `_serial_int_rx` with length 1. -/
def RxFifo.get (r : RxFifo) : Option (UInt8 × RxFifo) :=
  if r.getIndex = r.putIndex ∧ r.isFull = false then
    none
  else
    some (r.buffer r.getIndex, { r with getIndex := wrap r.getIndex, isFull := false })

/-- `rx_length` in `rt_hw_serial_isr`. -/
def RxFifo.rxLength (r : RxFifo) : Nat :=
  if r.putIndex ≥ r.getIndex then r.putIndex - r.getIndex
  else bufsz - (r.getIndex - r.putIndex)

/-! ## The bytes held -/

/-- The ring holds the bytes `l`, oldest first. -/
structure RxFifo.Holds (r : RxFifo) (l : List UInt8) : Prop where
  slots : Circular.Holds bufsz r.buffer r.getIndex r.putIndex l
  notFull : r.isFull = false

theorem RxFifo.init_holds : RxFifo.init.Holds [] where
  slots := .nil (by decide)
  notFull := rfl

theorem RxFifo.Holds.put {r : RxFifo} {l : List UInt8} (h : r.Holds l)
    (hlen : l.length + 1 < bufsz) (ch : UInt8) : (r.put ch).Holds (l ++ [ch]) := by
  have hpush := h.slots.push hlen ch
  have hne : wrap r.putIndex ≠ r.getIndex := fun heq => by
    have hnil := hpush.get_eq_put_iff.mp heq.symm
    exact absurd hnil (by simp)
  rw [RxFifo.put, if_neg hne]
  exact ⟨hpush, h.notFull⟩

theorem RxFifo.Holds.get {r : RxFifo} {ch : UInt8} {l : List UInt8} (h : r.Holds (ch :: l)) :
    ∃ r', r.get = some (ch, r') ∧ r'.Holds l := by
  have hne : r.getIndex ≠ r.putIndex := fun heq => by
    have hnil := h.slots.get_eq_put_iff.mp heq
    exact absurd hnil (by simp)
  refine ⟨{ r with getIndex := wrap r.getIndex, isFull := false }, ?_, ⟨h.slots.pop, rfl⟩⟩
  rw [RxFifo.get, if_neg (fun hempty => hne hempty.1), h.slots.head]

theorem RxFifo.Holds.rxLength {r : RxFifo} {l : List UInt8} (h : r.Holds l) :
    r.rxLength = l.length :=
  h.slots.distance

/-- A put that does not fill the ring appends to what it holds. -/
theorem RxFifo.Holds.put_of_not_full {r : RxFifo} {l : List UInt8} (h : r.Holds l) {ch : UInt8}
    (hfull : (r.put ch).isFull = false) : (r.put ch).Holds (l ++ [ch]) := by
  rcases Nat.lt_or_ge (l.length + 1) bufsz with hlen | hlen
  · exact h.put hlen ch
  · have hlt := h.slots.length_lt
    have hwrap : wrap r.putIndex = r.getIndex := h.slots.advance_put (by omega)
    rw [RxFifo.put, if_pos hwrap] at hfull
    cases hfull

/-! ## The indices -/

/-- The indices are in the buffer, and differ if the ring is full. -/
structure RxFifo.Valid (r : RxFifo) : Prop where
  put_lt : r.putIndex < bufsz
  get_lt : r.getIndex < bufsz
  full : r.isFull = true → r.getIndex ≠ r.putIndex

theorem RxFifo.init_valid : RxFifo.init.Valid where
  put_lt := by decide
  get_lt := by decide
  full := nofun

theorem wrap_lt (index : Nat) : wrap index < bufsz := by
  rw [wrap]
  split
  · decide
  · omega

theorem wrap_ne {index : Nat} (h : index < bufsz) : wrap index ≠ index := by
  rw [bufsz] at h
  rw [wrap, bufsz]
  split <;> omega

section Valid

variable {r r' : RxFifo} {ch : UInt8}

theorem RxFifo.Valid.put (h : r.Valid) (ch : UInt8) :
    (r.put ch).Valid ∧ (r.put ch).getIndex ≠ (r.put ch).putIndex := by
  simp only [RxFifo.put]
  split
  case isTrue hfull =>
    have hne : wrap r.getIndex ≠ wrap r.putIndex := by
      rw [hfull]
      exact wrap_ne h.get_lt
    exact ⟨⟨wrap_lt _, wrap_lt _, fun _ => hne⟩, hne⟩
  case isFalse hroom =>
    have hne : r.getIndex ≠ wrap r.putIndex := Ne.symm hroom
    exact ⟨⟨wrap_lt _, h.get_lt, fun _ => hne⟩, hne⟩

theorem RxFifo.Valid.get (h : r.Valid) (hget : r.get = some (ch, r')) : r'.Valid := by
  rw [RxFifo.get] at hget
  split at hget
  · cases hget
  · cases hget
    exact ⟨h.put_lt, wrap_lt _, nofun⟩

theorem RxFifo.Valid.get_eq_none_iff (h : r.Valid) :
    r.get = none ↔ r.getIndex = r.putIndex := by
  rw [RxFifo.get]
  split
  case isTrue hempty => exact iff_of_true rfl hempty.1
  case isFalse hsome =>
    refine iff_of_false nofun fun heq => hsome ⟨heq, ?_⟩
    exact Bool.eq_false_iff.mpr fun hfull => h.full hfull heq

/-- `rx_length` is zero exactly if there is nothing to read. -/
theorem RxFifo.Valid.rxLength_eq_zero_iff (h : r.Valid) : r.rxLength = 0 ↔ r.get = none := by
  have hput := h.put_lt
  have hget := h.get_lt
  rw [h.get_eq_none_iff, RxFifo.rxLength]
  split <;> omega

/-- After a put there is something to read. -/
theorem RxFifo.Valid.rxLength_put (h : r.Valid) (ch : UInt8) : (r.put ch).rxLength ≠ 0 := by
  obtain ⟨hvalid, hne⟩ := h.put ch
  rw [Ne, hvalid.rxLength_eq_zero_iff, hvalid.get_eq_none_iff]
  exact hne

end Valid

end Serial
