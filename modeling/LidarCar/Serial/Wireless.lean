-- SUMMARY: The wireless link, from the data register to wireless_getchar, and the event that wakes its reader.
import LidarCar.Base.Transition
import LidarCar.Kernel.Ipc
import LidarCar.Serial.RxFifo

/-!
# The wireless link

`wireless_getchar` reads the receive ring itself and waits for an event only if
it found nothing. Between the read and the wait an interrupt may fill the ring,
and the event does not count bytes, so it may be set for bytes already read.
-/

namespace Serial

open Kernel (Event)
open Transition (Reach)

namespace Wireless

/-- `WIRELESS_RX_EVENT`. -/
def rxEvent : UInt32 := 1

/-- Where `USART6_IRQHandler` is. -/
inductive IsrPc where
  /-- Not in the handler. -/
  | idle
  /-- The test of the RXNE flag. -/
  | enter
  /-- `ch = serial->ops->getc(serial)` -/
  | getc
  /-- `ch` is put in the ring. -/
  | put (ch : UInt8)
  /-- `if (rx_length)` -/
  | rxLength
  /-- `rt_event_send(&wirelessevent, WIRELESS_RX_EVENT)` in `wireless_intput` -/
  | send
  /-- `__HAL_UART_CLEAR_FLAG(&uart->UartHandle, UART_FLAG_RXNE)` -/
  | clear
  | leave
  deriving DecidableEq, Repr

/-- Where the thread is in its calls of `wireless_getchar`. -/
inductive GetcharPc where
  /-- `rt_device_read(wireless_device, 0, &ch, 1) != 1` -/
  | read
  /-- `rt_event_recv(&wirelessevent, WIRELESS_RX_EVENT, ..)` -/
  | recv
  /-- Suspended in `rt_event_recv`. -/
  | suspended
  deriving DecidableEq, Repr

structure Link where
  /-- The data register, while the RXNE flag is set. -/
  dr : Option UInt8
  /-- The receive interrupt is pending. -/
  pending : Bool
  pc : IsrPc
  ring : RxFifo
  event : Event
  thread : GetcharPc
  /-- History: the bytes put in the ring. -/
  stored : List UInt8
  /-- History: a put has filled the ring and discarded its oldest byte. -/
  overflowed : Bool
  /-- History: the bytes `wireless_getchar` has returned. -/
  returned : List UInt8

inductive Label where
  /-- A byte arrives in the data register. -/
  | arrive (b : UInt8)
  /-- The interrupt is taken, or the handler takes its next step. -/
  | isr
  /-- The thread takes its next step. -/
  | getchar
  deriving DecidableEq, Repr

/-! ## Steps -/

/-- `ch` is put in the ring. -/
def Link.putRing (s : Link) (ch : UInt8) : Link :=
  { s with
      ring := s.ring.put ch
      stored := s.stored ++ [ch]
      overflowed := s.overflowed || (s.ring.put ch).isFull }

/-- `wireless_intput`. A thread that the event resumes goes on in the loop of
`wireless_getchar`. -/
def Link.intput (s : Link) : Link :=
  let r := s.event.sendAnd rxEvent
  { s with event := r.1, thread := if r.2.isSome then .read else s.thread }

/-- One step of `USART6_IRQHandler`. -/
def Link.stepIsr (s : Link) : Option Link :=
  match s.pc with
  | .idle => if s.pending then some { s with pc := .enter, pending := false } else none
  | .enter => some { s with pc := if s.dr.isSome then .getc else .leave }
  | .getc =>
    match s.dr with
    | some ch => some { s with dr := none, pc := .put ch }
    | none => some { s with pc := .rxLength }
  | .put ch => some { s.putRing ch with pc := .getc }
  | .rxLength => some { s with pc := if s.ring.rxLength ≠ 0 then .send else .clear }
  | .send => some { s.intput with pc := .clear }
  | .clear => some { s with dr := none, pc := .leave }
  | .leave => some { s with pc := .idle }

/-- One step of `wireless_getchar`, which is called again whenever it returns. -/
def Link.stepGetchar (s : Link) : Option Link :=
  match s.thread with
  | .read =>
    match s.ring.get with
    | some (ch, ring) => some { s with ring := ring, returned := s.returned ++ [ch] }
    | none => some { s with thread := .recv }
  | .recv =>
    let r := s.event.recvAnd rxEvent
    some { s with event := r.1, thread := if r.2.isSome then .read else .suspended }
  | .suspended => none

/-- A byte arrives only in an empty data register, and the thread runs only while
the handler does not. -/
def Link.next (s : Link) : Label → Option Link
  | .arrive b =>
    match s.dr with
    | none => some { s with dr := some b, pending := true }
    | some _ => none
  | .isr => s.stepIsr
  | .getchar => if s.pc = .idle then s.stepGetchar else none

/-- `wireless_open` has just returned. Bytes may be in the ring by then, and in
the data register. -/
structure Link.Opened (s : Link) : Prop where
  pc : s.pc = .idle
  event : s.event = .init
  thread : s.thread = .read
  returned : s.returned = []
  valid : s.ring.Valid
  stored : s.overflowed = false → s.ring.Holds s.stored

/-! ## The reader is awake or will be woken -/

/-- The handler is between its first put and the event. -/
def IsrPc.announcing : IsrPc → Bool
  | .getc | .put _ | .rxLength | .send => true
  | .idle | .enter | .clear | .leave => false

/-- Whatever is in the ring will be noticed: the reader is about to read, or the
event is set and it is about to test it, or the handler is on its way to the event. -/
def Link.Noticed (s : Link) : Prop :=
  match s.thread with
  | .read => True
  | .recv => s.ring.get = none ∨ s.event.set &&& rxEvent = rxEvent ∨ s.pc.announcing = true
  | .suspended => s.ring.get = none ∨ s.pc.announcing = true

structure Link.Keeps (s : Link) : Prop where
  valid : s.ring.Valid
  fifo : s.overflowed = false → ∃ l, s.ring.Holds l ∧ s.stored = s.returned ++ l
  waiter : s.event.waiter = if s.thread = .suspended then some rxEvent else none
  noticed : s.Noticed

theorem Link.Opened.keeps {s : Link} (h : s.Opened) : s.Keeps where
  valid := h.valid
  fifo := fun hover => ⟨s.stored, h.stored hover, by rw [h.returned]; rfl⟩
  waiter := by
    rw [h.event, h.thread]
    rfl
  noticed := by
    rw [Link.Noticed, h.thread]
    trivial

section Steps

variable {s s' : Link}

/-- While the handler announces, nothing more is asked of it. -/
theorem Link.noticed_of_announcing (h : s.pc.announcing = true) : s.Noticed := by
  rw [Link.Noticed]
  cases s.thread with
  | read => trivial
  | recv => exact Or.inr (Or.inr h)
  | suspended => exact Or.inr h

/-- The handler goes on, and stops announcing only if there is nothing in the ring. -/
theorem Link.Keeps.goOn (h : s.Keeps) (dr : Option UInt8) (pending : Bool) {pc : IsrPc}
    (hpc : s.pc.announcing = true → s.ring.get = none ∨ pc.announcing = true) :
    ({ s with dr := dr, pending := pending, pc := pc } : Link).Keeps where
  valid := h.valid
  fifo := h.fifo
  waiter := h.waiter
  noticed := by
    have hnoticed := h.noticed
    simp only [Link.Noticed] at hnoticed ⊢
    cases hs : s.thread with
    | read => trivial
    | recv =>
        rw [hs] at hnoticed
        rcases hnoticed with hempty | hset | hannouncing
        · exact Or.inl hempty
        · exact Or.inr (Or.inl hset)
        · exact (hpc hannouncing).imp_right Or.inr
    | suspended =>
        rw [hs] at hnoticed
        rcases hnoticed with hempty | hannouncing
        · exact Or.inl hempty
        · exact hpc hannouncing

theorem Link.Keeps.putRing (h : s.Keeps) (ch : UInt8) :
    ({ s.putRing ch with pc := .getc } : Link).Keeps where
  valid := (h.valid.put ch).1
  fifo := by
    intro hover
    obtain ⟨hbefore, hfull⟩ := Bool.or_eq_false_iff.mp hover
    obtain ⟨l, hholds, hstored⟩ := h.fifo hbefore
    refine ⟨l ++ [ch], hholds.put_of_not_full hfull, ?_⟩
    simp only [Link.putRing, hstored, List.append_assoc]
  waiter := h.waiter
  noticed := Link.noticed_of_announcing rfl

/-- After the event the reader is about to read, or will find the event set. -/
theorem Link.Keeps.intput (h : s.Keeps) : ({ s.intput with pc := .clear } : Link).Keeps := by
  have hwaiter := h.waiter
  by_cases hthread : s.thread = .suspended
  · rw [if_pos hthread] at hwaiter
    obtain ⟨hnone, hresumed⟩ := Event.sendAnd_of_waiter hwaiter
    have hread : s.intput.thread = .read := by rw [Link.intput, hresumed]; rfl
    constructor
    case valid => exact h.valid
    case fifo => exact h.fifo
    case waiter => exact hnone.trans (if_neg (by rw [hread]; nofun)).symm
    case noticed =>
      rw [Link.Noticed, hread]
      trivial
  · rw [if_neg hthread] at hwaiter
    have hsend :
        s.event.sendAnd rxEvent = ({ s.event with set := s.event.set ||| rxEvent }, none) :=
      Event.sendAnd_of_none hwaiter
    have hsame : s.intput.thread = s.thread := by rw [Link.intput, hsend]; rfl
    constructor
    case valid => exact h.valid
    case fifo => exact h.fifo
    case waiter =>
      simp only [Link.intput, hsend, hwaiter, Option.isSome_none, Bool.false_eq_true, if_false,
        if_neg hthread]
    case noticed =>
      rw [Link.Noticed, hsame]
      cases hs : s.thread with
      | read => trivial
      | recv =>
          have hset : s.intput.event.set &&& rxEvent = rxEvent := by
            simp only [Link.intput, hsend]
            exact Kernel.or_and_absorb s.event.set rxEvent
          exact Or.inr (Or.inl hset)
      | suspended => exact absurd hs hthread

theorem Link.Keeps.isr (h : s.Keeps) (hnext : s.stepIsr = some s') : s'.Keeps := by
  cases hpc : s.pc with
  | idle =>
      simp only [Link.stepIsr, hpc, Option.ite_none_right_eq_some, Option.some.injEq] at hnext
      obtain ⟨-, rfl⟩ := hnext
      apply h.goOn
      rw [hpc]
      nofun
  | enter =>
      simp only [Link.stepIsr, hpc, Option.some.injEq] at hnext
      subst hnext
      apply h.goOn
      rw [hpc]
      nofun
  | getc =>
      cases hdr : s.dr with
      | some ch =>
          simp only [Link.stepIsr, hpc, hdr, Option.some.injEq] at hnext
          subst hnext
          exact h.goOn none s.pending fun _ => Or.inr rfl
      | none =>
          simp only [Link.stepIsr, hpc, hdr, Option.some.injEq] at hnext
          subst hnext
          exact h.goOn _ _ fun _ => Or.inr rfl
  | put ch =>
      simp only [Link.stepIsr, hpc, Option.some.injEq] at hnext
      subst hnext
      exact h.putRing ch
  | rxLength =>
      simp only [Link.stepIsr, hpc, Option.some.injEq] at hnext
      subst hnext
      apply h.goOn
      intro _
      split
      case isTrue => exact Or.inr rfl
      case isFalse hlength =>
        -- nothing in the ring, nothing to announce
        exact Or.inl (h.valid.rxLength_eq_zero_iff.mp (not_not.mp hlength))
  | send =>
      simp only [Link.stepIsr, hpc, Option.some.injEq] at hnext
      subst hnext
      exact h.intput
  | clear =>
      simp only [Link.stepIsr, hpc, Option.some.injEq] at hnext
      subst hnext
      apply h.goOn
      rw [hpc]
      nofun
  | leave =>
      simp only [Link.stepIsr, hpc, Option.some.injEq] at hnext
      subst hnext
      apply h.goOn
      rw [hpc]
      nofun

theorem Link.Keeps.getchar (h : s.Keeps) (hnext : s.stepGetchar = some s') : s'.Keeps := by
  have hwaiter := h.waiter
  cases hs : s.thread with
  | read =>
      rw [hs, if_neg (by nofun)] at hwaiter
      cases hget : s.ring.get with
      | some r =>
          obtain ⟨ch, ring⟩ := r
          simp only [Link.stepGetchar, hs, hget, Option.some.injEq] at hnext
          subst hnext
          constructor
          case valid => exact h.valid.get hget
          case fifo =>
            intro hover
            obtain ⟨l, hholds, hstored⟩ := h.fifo hover
            cases l with
            | nil =>
                have hnone : s.ring.get = none :=
                  h.valid.get_eq_none_iff.mpr (hholds.slots.get_eq_put_iff.mpr rfl)
                rw [hnone] at hget
                cases hget
            | cons b l =>
                obtain ⟨ring', hget', hholds'⟩ := hholds.get
                obtain ⟨rfl, rfl⟩ := Prod.mk.inj (Option.some.inj (hget'.symm.trans hget))
                exact ⟨l, hholds', by rw [hstored]; simp⟩
          case waiter => rw [hwaiter, if_neg (by nofun)]
          case noticed => rw [Link.Noticed]; trivial
      | none =>
          simp only [Link.stepGetchar, hs, hget, Option.some.injEq] at hnext
          subst hnext
          exact ⟨h.valid, h.fifo, by rw [hwaiter]; rfl, Or.inl hget⟩
  | recv =>
      rw [hs, if_neg (by nofun)] at hwaiter
      have hnoticed := h.noticed
      rw [Link.Noticed, hs] at hnoticed
      simp only [Link.stepGetchar, hs, Option.some.injEq] at hnext
      subst hnext
      rcases s.event.recvAnd_cases rxEvent with ⟨-, hsome, hsame⟩ | ⟨hclear, hsuspend⟩
      · constructor
        case valid => exact h.valid
        case fifo => exact h.fifo
        case waiter =>
          simp only [hsome, Option.isSome_some, if_true, hsame, hwaiter]
          rfl
        case noticed =>
          simp only [Link.Noticed, hsome, Option.isSome_some, if_true]
      · constructor
        case valid => exact h.valid
        case fifo => exact h.fifo
        case waiter =>
          simp only [hsuspend, Option.isSome_none, Bool.false_eq_true, if_false, if_true]
        case noticed =>
          simp only [Link.Noticed, hsuspend, Option.isSome_none, Bool.false_eq_true, if_false]
          rcases hnoticed with hempty | hset | hannouncing
          · exact Or.inl hempty
          · exact absurd hset hclear
          · exact Or.inr hannouncing
  | suspended => simp [Link.stepGetchar, hs] at hnext

theorem Link.Keeps.step {a : Label} (h : s.Keeps) (hnext : s.next a = some s') : s'.Keeps := by
  cases a with
  | arrive b =>
      cases hdr : s.dr with
      | some b' => simp [Link.next, hdr] at hnext
      | none =>
          simp only [Link.next, hdr, Option.some.injEq] at hnext
          subst hnext
          exact h.goOn (some b) true Or.inr
  | isr => exact h.isr hnext
  | getchar =>
      obtain ⟨-, hstep⟩ := Option.ite_none_right_eq_some.mp hnext
      exact h.getchar hstep

end Steps

/-- Whatever the order of bytes, interrupts and steps of the reader, while the
reader is suspended and no handler runs there is nothing to read in the ring, and
what it has returned is a prefix of what was put in the ring, as long as that
never overflowed. -/
theorem wakeup_not_lost {s₀ s : Link} (h₀ : s₀.Opened)
    (h : Reach Link.next (fun _ _ => True) s₀ s) :
    (s.thread = .suspended → s.pc = .idle → s.ring.rxLength = 0 ∧ s.ring.get = none) ∧
      (s.overflowed = false → s.returned <+: s.stored) := by
  have hkeeps : s.Keeps := h.invariant h₀.keeps fun hi _ hnext => hi.step hnext
  constructor
  · intro hthread hpc
    have hnoticed := hkeeps.noticed
    rw [Link.Noticed, hthread] at hnoticed
    rcases hnoticed with hempty | hannouncing
    · exact ⟨hkeeps.valid.rxLength_eq_zero_iff.mpr hempty, hempty⟩
    · rw [hpc] at hannouncing
      cases hannouncing
  · intro hover
    obtain ⟨l, -, hstored⟩ := hkeeps.fifo hover
    rw [hstored]
    exact List.prefix_append s.returned l

/-- The link with nothing received. -/
def Link.fresh : Link where
  dr := none
  pending := false
  pc := .idle
  ring := .init
  event := .init
  thread := .read
  stored := []
  overflowed := false
  returned := []

theorem Link.fresh_opened : Link.fresh.Opened where
  pc := rfl
  event := rfl
  thread := rfl
  returned := rfl
  valid := RxFifo.init_valid
  stored := fun _ => RxFifo.init_holds

/-- A byte is read before the reader ever waits, so the event is left over, and
the reader tries once more before it is suspended. -/
def leftoverRun : List Label :=
  [.arrive 0xA5] ++ List.replicate 9 .isr ++ List.replicate 5 .getchar

theorem wakeup_not_lost_leftover :
    ∃ s, Reach Link.next (fun _ _ => True) .fresh s ∧ s.thread = .suspended ∧
      s.returned = [0xA5] ∧ s.ring.rxLength = 0 ∧ s.returned <+: s.stored := by
  have hrun : (Transition.exec Link.next (fun _ _ => True) .fresh leftoverRun).any
      (fun s => s.thread = .suspended ∧ s.pc = .idle ∧ s.overflowed = false ∧
        s.returned = [0xA5]) = true := by decide
  obtain ⟨s, hreach, htest⟩ := Transition.exists_reach_of_exec hrun
  obtain ⟨hthread, hpc, hover, hreturned⟩ := of_decide_eq_true htest
  obtain ⟨hempty, hprefix⟩ := wakeup_not_lost Link.fresh_opened hreach
  exact ⟨s, hreach, hthread, hreturned, (hempty hthread hpc).1, hprefix hover⟩

end Wireless

end Serial
