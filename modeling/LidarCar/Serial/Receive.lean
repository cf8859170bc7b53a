-- SUMMARY: The receive path of the lidar's UART, from the data register to eaix4_getchar.
import LidarCar.Base.Transition
import LidarCar.Kernel.Ipc
import LidarCar.Serial.RxFifo

/-!
# The receive path

A byte goes from the data register through the receive ring and `Eaix4Mq` to
`eaix4_getchar`. The interrupt handler is taken apart into its statements, since
a byte may arrive between any two of them.
-/

namespace Serial

open Kernel (MessageQueue)

/-- Where `USART2_IRQHandler` is. -/
inductive IsrPc where
  /-- Not in the handler. -/
  | idle
  /-- The test of the RXNE flag. -/
  | enter
  /-- `ch = serial->ops->getc(serial)` -/
  | getc
  /-- `ch` is put in the ring. -/
  | put (ch : UInt8)
  /-- `if (rx_length)` -/
  | rxLength
  /-- `rt_device_read(eaix4_device, 0, &ch, 1)` in `eaix4_intput` -/
  | read
  /-- `rt_mq_send(&Eaix4Mq, &ch, 1)` -/
  | send (ch : UInt8)
  /-- `__HAL_UART_CLEAR_FLAG(&uart->UartHandle, UART_FLAG_RXNE)` -/
  | clear
  | leave
  deriving DecidableEq, Repr

structure Uart where
  /-- The data register, while the RXNE flag is set. -/
  dr : Option UInt8
  /-- The receive interrupt is pending. -/
  pending : Bool
  pc : IsrPc
  ring : RxFifo
  mq : MessageQueue UInt8
  /-- History: the bytes the UART has received. -/
  received : List UInt8
  /-- History: the bytes `eaix4_getchar` has returned. -/
  returned : List UInt8

inductive Label where
  /-- A byte arrives in the data register. -/
  | arrive (b : UInt8)
  /-- The interrupt is taken, or the handler takes its next step. -/
  | isr
  /-- `eaix4_getchar` returns. -/
  | getchar
  deriving DecidableEq, Repr

/-- One step of `USART2_IRQHandler`. -/
def Uart.stepIsr (s : Uart) : Option Uart :=
  match s.pc with
  | .idle => if s.pending then some { s with pc := .enter, pending := false } else none
  | .enter => some { s with pc := if s.dr.isSome then .getc else .leave }
  | .getc =>
    match s.dr with
    | some ch => some { s with dr := none, pc := .put ch }
    | none => some { s with pc := .rxLength }
  | .put ch => some { s with ring := s.ring.put ch, pc := .getc }
  | .rxLength => some { s with pc := if s.ring.rxLength ≠ 0 then .read else .clear }
  | .read =>
    match s.ring.get with
    | some (ch, ring) => some { s with ring := ring, pc := .send ch }
    | none => some { s with pc := .clear }
  | .send ch => some { s with mq := (s.mq.send ch).1, pc := .clear }
  | .clear => some { s with dr := none, pc := .leave }
  | .leave => some { s with pc := .idle }

/-- A byte arrives only in an empty data register, and threads run only while the
handler does not. -/
def Uart.next (s : Uart) : Label → Option Uart
  | .arrive b =>
    match s.dr with
    | none => some { s with dr := some b, pending := true, received := s.received ++ [b] }
    | some _ => none
  | .isr => s.stepIsr
  | .getchar =>
    if s.pc = .idle then
      s.mq.recv.map fun r => { s with mq := r.2, returned := s.returned ++ [r.1] }
    else none

/-- `eaix4_open`. -/
def Uart.init : Uart where
  dr := none
  pending := false
  pc := .idle
  ring := .init
  mq := .init 1 45000
  received := []
  returned := []

/-! ## Where the received bytes are -/

/-- The handler is between its first read of the data register and the clearing
of the flag. -/
def IsrPc.draining : IsrPc → Bool
  | .getc | .put _ | .rxLength | .read | .send _ | .clear => true
  | .idle | .enter | .leave => false

/-- No byte arrives while the handler drains, and `Eaix4Mq` has room. -/
def Spaced (s : Uart) : Label → Prop
  | .arrive _ => s.pc.draining = false
  | .isr => ∀ ch, s.pc = .send ch → s.mq.messages.length < s.mq.maxMsgs
  | .getchar => True

/-- No receive interrupt is pending or in progress. -/
def Uart.Quiescent (s : Uart) : Prop :=
  s.pc = .idle ∧ s.pending = false

/-- The byte the handler has taken out of the ring and not yet sent. -/
def IsrPc.outgoing : IsrPc → List UInt8
  | .send ch => [ch]
  | _ => []

/-- The byte the handler has read and not yet put in the ring. -/
def IsrPc.incoming : IsrPc → List UInt8
  | .put ch => [ch]
  | _ => []

/-- What ring and data register hold at each point of the handler: one byte at a
time goes through. -/
def Uart.Fits (s : Uart) (ring : List UInt8) : Prop :=
  match s.pc with
  | .idle | .leave => ring = [] ∧ (s.pending = false → s.dr = none)
  | .enter => ring = []
  | .getc => (ring = [] ∧ ∃ b, s.dr = some b) ∨ (s.dr = none ∧ ∃ b, ring = [b])
  | .rxLength | .read => s.dr = none ∧ ∃ b, ring = [b]
  | .put _ | .send _ | .clear => s.dr = none ∧ ring = []

/-- Every received byte is in one place, in order of arrival. -/
structure Uart.Tracks (s : Uart) (ring : List UInt8) : Prop where
  holds : s.ring.Holds ring
  fits : s.Fits ring
  order : s.received =
    s.returned ++ s.mq.messages ++ s.pc.outgoing ++ ring ++ s.pc.incoming ++ s.dr.toList

theorem Uart.init_tracks : Uart.init.Tracks [] where
  holds := RxFifo.init_holds
  fits := ⟨rfl, fun _ => rfl⟩
  order := rfl

theorem Uart.Tracks.arrive {s : Uart} {l : List UInt8} {b : UInt8} (h : s.Tracks l)
    (hdr : s.dr = none) (hpc : s.pc.draining = false) :
    ({ s with dr := some b, pending := true, received := s.received ++ [b] } : Uart).Tracks l := by
  refine ⟨h.holds, ?_, ?_⟩
  · have hfits := h.fits
    cases hs : s.pc with
    | idle | enter | leave =>
        simp only [Uart.Fits, hs] at hfits ⊢
        simp [hfits]
    | getc | put ch | rxLength | read | send ch | clear =>
        rw [hs] at hpc
        cases hpc
  · simp [h.order, hdr]

theorem Uart.Tracks.getchar {s s' : Uart} {l : List UInt8} (h : s.Tracks l)
    (hnext : s.next .getchar = some s') : s'.Tracks l := by
  obtain ⟨hpc, hrecv⟩ := Option.ite_none_right_eq_some.mp hnext
  obtain ⟨⟨b, mq⟩, hmq, rfl⟩ := Option.map_eq_some_iff.mp hrecv
  have hmessages : s.mq.messages = b :: mq.messages := by
    simp only [MessageQueue.recv] at hmq
    split at hmq
    · cases hmq
    · cases hmq
      assumption
  refine ⟨h.holds, h.fits, ?_⟩
  simp [h.order, hmessages]

/-- One byte at a time the handler passes on what it finds. -/
theorem Uart.Tracks.isr {s s' : Uart} {l : List UInt8} (h : s.Tracks l)
    (hC : Spaced s .isr) (hnext : s.stepIsr = some s') : ∃ l', s'.Tracks l' := by
  obtain ⟨hholds, hfits, horder⟩ := h
  cases hpc : s.pc with
  | idle =>
      simp only [Uart.stepIsr, hpc, Option.ite_none_right_eq_some, Option.some.injEq] at hnext
      obtain ⟨-, rfl⟩ := hnext
      simp only [Uart.Fits, hpc] at hfits
      exact ⟨l, hholds, hfits.1, by simp [horder, hpc, IsrPc.outgoing, IsrPc.incoming]⟩
  | enter =>
      simp only [Uart.stepIsr, hpc, Option.some.injEq] at hnext
      subst hnext
      simp only [Uart.Fits, hpc] at hfits
      cases hdr : s.dr with
      | none =>
          refine ⟨l, hholds, ⟨hfits, fun _ => rfl⟩, ?_⟩
          simp [horder, hpc, hdr, IsrPc.outgoing, IsrPc.incoming]
      | some b =>
          refine ⟨l, hholds, Or.inl ⟨hfits, b, rfl⟩, ?_⟩
          simp [horder, hpc, hdr, IsrPc.outgoing, IsrPc.incoming]
  | getc =>
      simp only [Uart.Fits, hpc] at hfits
      rcases hfits with ⟨hl, b, hdr⟩ | ⟨hdr, b, hl⟩
      · simp only [Uart.stepIsr, hpc, hdr, Option.some.injEq] at hnext
        subst hnext
        refine ⟨l, hholds, ⟨rfl, hl⟩, ?_⟩
        simp [horder, hpc, hdr, IsrPc.outgoing, IsrPc.incoming]
      · simp only [Uart.stepIsr, hpc, hdr, Option.some.injEq] at hnext
        subst hnext
        refine ⟨l, hholds, ⟨rfl, b, hl⟩, ?_⟩
        simp [horder, hpc, hdr, IsrPc.outgoing, IsrPc.incoming]
  | put ch =>
      simp only [Uart.stepIsr, hpc, Option.some.injEq] at hnext
      subst hnext
      simp only [Uart.Fits, hpc] at hfits
      obtain ⟨hdr, rfl⟩ := hfits
      refine ⟨[ch], hholds.put (by decide) ch, Or.inr ⟨hdr, ch, rfl⟩, ?_⟩
      simp [horder, hpc, hdr, IsrPc.outgoing, IsrPc.incoming]
  | rxLength =>
      simp only [Uart.stepIsr, hpc, Option.some.injEq] at hnext
      subst hnext
      simp only [Uart.Fits, hpc] at hfits
      obtain ⟨hdr, b, rfl⟩ := hfits
      have hlength : s.ring.rxLength ≠ 0 := by rw [hholds.rxLength]; exact Nat.one_ne_zero
      refine ⟨[b], hholds, ?_, ?_⟩
      · simp only [Uart.Fits, if_pos hlength]
        exact ⟨hdr, b, rfl⟩
      · simp [horder, hpc, hdr, if_pos hlength, IsrPc.outgoing, IsrPc.incoming]
  | read =>
      simp only [Uart.Fits, hpc] at hfits
      obtain ⟨hdr, b, rfl⟩ := hfits
      obtain ⟨ring, hget, hring⟩ := hholds.get
      simp only [Uart.stepIsr, hpc, hget, Option.some.injEq] at hnext
      subst hnext
      refine ⟨[], hring, ⟨hdr, rfl⟩, ?_⟩
      simp [horder, hpc, hdr, IsrPc.outgoing, IsrPc.incoming]
  | send ch =>
      simp only [Uart.stepIsr, hpc, Option.some.injEq] at hnext
      subst hnext
      simp only [Uart.Fits, hpc] at hfits
      have hsend : s.mq.send ch = ({ s.mq with messages := s.mq.messages ++ [ch] }, .eok) :=
        if_pos (hC ch hpc)
      refine ⟨l, hholds, hfits, ?_⟩
      simp [horder, hpc, hsend, hfits, IsrPc.outgoing, IsrPc.incoming]
  | clear =>
      simp only [Uart.stepIsr, hpc, Option.some.injEq] at hnext
      subst hnext
      simp only [Uart.Fits, hpc] at hfits
      refine ⟨l, hholds, ⟨hfits.2, fun _ => rfl⟩, ?_⟩
      simp [horder, hpc, hfits, IsrPc.outgoing, IsrPc.incoming]
  | leave =>
      simp only [Uart.stepIsr, hpc, Option.some.injEq] at hnext
      subst hnext
      simp only [Uart.Fits, hpc] at hfits
      exact ⟨l, hholds, hfits, by simp [horder, hpc, IsrPc.outgoing, IsrPc.incoming]⟩

theorem Uart.tracks_step {s s' : Uart} {a : Label} (h : ∃ l, s.Tracks l) (hC : Spaced s a)
    (hnext : s.next a = some s') : ∃ l, s'.Tracks l := by
  obtain ⟨l, h⟩ := h
  cases a with
  | arrive b =>
      cases hdr : s.dr with
      | some b' => simp [Uart.next, hdr] at hnext
      | none =>
          simp only [Uart.next, hdr, Option.some.injEq] at hnext
          exact ⟨l, hnext ▸ h.arrive hdr hC⟩
  | isr => exact h.isr hC hnext
  | getchar => exact ⟨l, h.getchar hnext⟩

/-- If no byte arrives while the handler drains, then between interrupts the ring
is empty and the bytes received are those returned and those in `Eaix4Mq`. -/
theorem received_in_order {s : Uart} (h : Transition.Reach Uart.next Spaced .init s)
    (hq : s.Quiescent) :
    s.ring.Holds [] ∧ s.returned ++ s.mq.messages = s.received := by
  obtain ⟨l, hholds, hfits, horder⟩ :=
    h.invariant ⟨[], Uart.init_tracks⟩ fun hi hC hnext => Uart.tracks_step hi hC hnext
  obtain ⟨hpc, hpending⟩ := hq
  simp only [Uart.Fits, hpc] at hfits
  obtain ⟨rfl, hdr⟩ := hfits
  refine ⟨hholds, ?_⟩
  simp [horder, hpc, hdr hpending, IsrPc.outgoing, IsrPc.incoming]

/-! ## Back-to-back bytes -/

instance (s : Uart) : (a : Label) → Decidable (Spaced s a)
  | .arrive _ => inferInstanceAs (Decidable (_ = _))
  | .isr =>
    match hpc : s.pc with
    | .send ch =>
      decidable_of_iff (s.mq.messages.length < s.mq.maxMsgs)
        ⟨fun h ch' _ => h, fun h => h ch hpc⟩
    | .idle | .enter | .getc | .put _ | .rxLength | .read | .clear | .leave =>
      isTrue fun ch h => by rw [hpc] at h; cases h
  | .getchar => isTrue trivial

/-- Two bytes, the second after the handler for the first has ended. -/
def spacedRun : List Label :=
  .arrive 0xAA :: List.replicate 10 .isr ++ .arrive 0x55 :: List.replicate 10 .isr ++ [.getchar]

theorem received_in_order_spacedRun :
    ∃ s, Transition.Reach Uart.next Spaced .init s ∧ s.Quiescent ∧ s.received = [0xAA, 0x55] ∧
      s.returned ++ s.mq.messages = s.received := by
  have hrun : (Transition.exec Uart.next Spaced .init spacedRun).any
      (fun s => s.pc = .idle ∧ s.pending = false ∧ s.received = [0xAA, 0x55]) = true := by decide
  obtain ⟨s, hreach, htest⟩ := Transition.exists_reach_of_exec hrun
  obtain ⟨hpc, hpending, hreceived⟩ := of_decide_eq_true htest
  exact ⟨s, hreach, ⟨hpc, hpending⟩, hreceived, (received_in_order hreach ⟨hpc, hpending⟩).2⟩

/-- Two bytes, the second while the handler puts the first in the ring. -/
def backToBackRun : List Label :=
  [.arrive 0xAA] ++ List.replicate 3 .isr ++ [.arrive 0x55] ++ List.replicate 12 .isr

/-- The second byte stays in the ring when all interrupts are done. -/
theorem backToBackRun_holds_back :
    ∃ s, Transition.Reach Uart.next (fun _ _ => True) .init s ∧ s.Quiescent ∧
      s.received = [0xAA, 0x55] ∧ s.returned ++ s.mq.messages = [0xAA] ∧ s.ring.rxLength = 1 := by
  have hrun : (Transition.exec Uart.next (fun _ _ => True) .init backToBackRun).any
      (fun s => s.pc = .idle ∧ s.pending = false ∧ s.received = [0xAA, 0x55] ∧
        s.returned ++ s.mq.messages = [0xAA] ∧ s.ring.rxLength = 1) = true := by decide
  obtain ⟨s, hreach, htest⟩ := Transition.exists_reach_of_exec hrun
  obtain ⟨hpc, hpending, hrest⟩ := of_decide_eq_true htest
  exact ⟨s, hreach, ⟨hpc, hpending⟩, hrest⟩

end Serial
