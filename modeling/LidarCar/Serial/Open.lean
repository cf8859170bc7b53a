-- SUMMARY: The open functions of the three serial links, and the interrupts between their statements.
import LidarCar.Base.Machine
import LidarCar.Kernel.Ipc
import LidarCar.Serial.RxFifo

/-!
# Opening a serial link

`eaix4_open`, `wireless_open` and `uart_open` are one sequence of statements:
the device is found, given its callback and opened, and then the object that the
callback sends on is initialised. The receive interrupt is enabled in
`rt_device_open`.
-/

namespace Serial

open Kernel (Err Event MessageQueue)

/-! ## Callbacks -/

/-- A static object, before and after its initialisation. -/
inductive Static (ο : Type*) where
  /-- All zero. -/
  | zero
  | ready (object : ο)

/-- What a callback does that matters outside. -/
inductive Report where
  /-- `rt_mq_send` or `rt_event_send` is called on an object that has been
  initialised, or has not. -/
  | send (ready : Bool)
  /-- A received byte is dropped, as the queue has not been initialised. -/
  | discard (ch : UInt8)
  deriving DecidableEq, Repr

/-- `eaix4_intput`. In a queue that is all zero the message size is 0, and
`rt_mq_send` returns before it looks for a free message. -/
def eaix4Intput (ring : RxFifo) (mq : Static (MessageQueue UInt8)) :
    RxFifo × Static (MessageQueue UInt8) × List Report :=
  match ring.get with
  | none => (ring, mq, [])
  | some (ch, ring) =>
    match mq with
    | .zero => (ring, .zero, [.send false, .discard ch])
    | .ready mq => (ring, .ready (mq.send ch).1, [.send true])

/-- The body of the other two callbacks. In an event that is all zero the list of
suspended threads does not look empty: the loop of `rt_event_send` follows its
null pointer, and nothing is modelled of what it does there. -/
def eventIntput (set : UInt32) (ring : RxFifo) (event : Static Event) :
    RxFifo × Static Event × List Report :=
  match event with
  | .zero => (ring, .zero, [.send false])
  | .ready event => (ring, .ready (event.sendAnd set).1, [.send true])

/-- `wireless_intput`, which sends `WIRELESS_RX_EVENT`. -/
def wirelessIntput : RxFifo → Static Event → RxFifo × Static Event × List Report :=
  eventIntput 1

/-- `uart_intput`, which sends `UART_RX_EVENT`. -/
def uartIntput : RxFifo → Static Event → RxFifo × Static Event × List Report :=
  eventIntput 1

/-! ## The open functions -/

/-- What an open function is about: its callback, and what it initialises the
object of the callback with. -/
structure Opener (ο : Type*) where
  intput : RxFifo → Static ο → RxFifo × Static ο × List Report
  initial : ο

/-- `eaix4_open`. -/
def eaix4Open : Opener (MessageQueue UInt8) where
  intput := eaix4Intput
  initial := .init 1 45000

/-- `wireless_open`. -/
def wirelessOpen : Opener Event where
  intput := wirelessIntput
  initial := .init

/-- `uart_open`. -/
def uartOpen : Opener Event where
  intput := uartIntput
  initial := .init

/-- The next statement of an open function. -/
inductive OpenPc where
  /-- `rt_device_find` -/
  | find
  /-- `rt_device_set_rx_indicate`, which always succeeds -/
  | setRxIndicate
  /-- `rt_device_open` -/
  | deviceOpen
  /-- `rt_mq_init` or `rt_event_init` -/
  | init
  /-- It has returned. -/
  | done (res : Err)
  deriving DecidableEq, Repr

structure Opening (ο : Type*) where
  pc : OpenPc
  /-- `rx_indicate` of the device is set. -/
  indicate : Bool
  /-- The receive interrupt of the device is enabled. -/
  enabled : Bool
  ring : RxFifo
  object : Static ο

inductive OpenLabel where
  /-- The next statement, with the success of `rt_device_find` and of `rt_device_open`. -/
  | thread (ok : Bool)
  /-- A receive interrupt, with the bytes that the handler finds. -/
  | interrupt (ch : UInt8) (chs : List UInt8)
  deriving DecidableEq, Repr

section Steps

variable {ο : Type*}

def Opening.start : Opening ο where
  pc := .find
  indicate := false
  enabled := false
  ring := .init
  object := .zero

/-- One statement of the open function. -/
def Opener.statement (f : Opener ο) (s : Opening ο) (ok : Bool) : Opening ο :=
  match s.pc with
  | .find => { s with pc := if ok then .setRxIndicate else .done .error }
  | .setRxIndicate => { s with indicate := true, pc := .deviceOpen }
  | .deviceOpen =>
    if ok then { s with enabled := true, pc := .init } else { s with pc := .done .error }
  | .init => { s with object := .ready f.initial, pc := .done .eok }
  | .done _ => s

/-- `rt_hw_serial_isr`. No statement of the open function comes between its own. -/
def Opener.interrupt (f : Opener ο) (s : Opening ο) (ch : UInt8) (chs : List UInt8) :
    Opening ο × List Report :=
  if s.enabled then
    let ring := (ch :: chs).foldl RxFifo.put s.ring
    if s.indicate ∧ ring.rxLength ≠ 0 then
      let r := f.intput ring s.object
      ({ s with ring := r.1, object := r.2.1 }, r.2.2)
    else ({ s with ring := ring }, [])
  else (s, [])

def Opener.step (f : Opener ο) (s : Opening ο) : OpenLabel → Opening ο × List Report
  | .thread ok => (f.statement s ok, [])
  | .interrupt ch chs => f.interrupt s ch chs

/-- The callback sends on an initialised object and drops nothing. -/
def Report.Fine : Report → Prop
  | .send ready => ready = true
  | .discard _ => False

def Static.isZero : Static ο → Bool
  | .zero => true
  | .ready _ => false

/-- The step is a receive interrupt between the enabling and the initialisation. -/
def Opening.Early (s : Opening ο) : OpenLabel → Prop
  | .thread _ => False
  | .interrupt _ _ => s.enabled = true ∧ s.object.isZero = true

/-! ## Early interrupts -/

theorem foldl_put_valid {ring : RxFifo} (h : ring.Valid) (chs : List UInt8) :
    (chs.foldl RxFifo.put ring).Valid := by
  induction chs generalizing ring with
  | nil => exact h
  | cons ch chs ih => exact ih (h.put ch).1

theorem foldl_put_rxLength {ring : RxFifo} (h : ring.Valid) (ch : UInt8) (chs : List UInt8) :
    ((ch :: chs).foldl RxFifo.put ring).rxLength ≠ 0 := by
  rw [← List.dropLast_concat_getLast (List.cons_ne_nil ch chs), List.foldl_append]
  exact (foldl_put_valid h _).rxLength_put _

/-- What the three callbacks have in common. -/
structure Opener.Sends (f : Opener ο) : Prop where
  valid : ∀ {ring object}, ring.Valid → (f.intput ring object).1.Valid
  /-- With something to read, a callback sends. -/
  early : ∀ {ring}, ring.Valid → ring.rxLength ≠ 0 →
    ∃ r ∈ (f.intput ring .zero).2.2, ¬ r.Fine
  fine : ∀ {ring object}, ∀ r ∈ (f.intput ring (.ready object)).2.2, r.Fine

/-- The device is not open before it has its callback. -/
structure Opening.Regular (s : Opening ο) : Prop where
  ring : s.ring.Valid
  ready : s.pc = .deviceOpen → s.indicate = true
  indicate : s.enabled = true → s.indicate = true

variable {f : Opener ο} {s : Opening ο}

theorem Opener.Sends.regular (hf : f.Sends) (h : s.Regular) (a : OpenLabel) :
    (f.step s a).1.Regular := by
  cases a with
  | thread ok =>
      simp only [Opener.step, Opener.statement]
      cases hpc : s.pc with
      | find =>
          refine ⟨h.ring, ?_, h.indicate⟩
          dsimp only
          split <;> nofun
      | setRxIndicate => exact ⟨h.ring, fun _ => rfl, fun _ => rfl⟩
      | deviceOpen =>
          cases ok with
          | true => exact ⟨h.ring, nofun, fun _ => h.ready hpc⟩
          | false => exact ⟨h.ring, nofun, h.indicate⟩
      | init => exact ⟨h.ring, nofun, h.indicate⟩
      | done res => exact h
  | interrupt ch chs =>
      have hring := foldl_put_valid h.ring (ch :: chs)
      simp only [Opener.step, Opener.interrupt]
      split
      · split
        · exact ⟨hf.valid hring, h.ready, h.indicate⟩
        · exact ⟨hring, h.ready, h.indicate⟩
      · exact h

/-- A step goes wrong exactly if it is an early interrupt. -/
theorem Opener.Sends.fine_iff (hf : f.Sends) (h : s.Regular) (a : OpenLabel) :
    (∀ r ∈ (f.step s a).2, r.Fine) ↔ ¬ s.Early a := by
  cases a with
  | thread ok => exact iff_of_true nofun id
  | interrupt ch chs =>
      have hring := foldl_put_valid h.ring (ch :: chs)
      have hlength := foldl_put_rxLength h.ring ch chs
      by_cases henabled : s.enabled = true
      · have hcalls : s.indicate = true ∧
            ((ch :: chs).foldl RxFifo.put s.ring).rxLength ≠ 0 := ⟨h.indicate henabled, hlength⟩
        simp only [Opener.step, Opener.interrupt, if_pos henabled, if_pos hcalls]
        cases hobject : s.object with
        | zero =>
            obtain ⟨r, hr, hbad⟩ := hf.early hring hlength
            refine iff_of_false (fun hall => hbad (hall r hr)) fun hlate => hlate ⟨henabled, ?_⟩
            rw [hobject]
            rfl
        | ready object =>
            refine iff_of_true hf.fine fun hearly => ?_
            have hzero := hearly.2
            rw [hobject] at hzero
            cases hzero
      · simp only [Opener.step, Opener.interrupt, if_neg henabled]
        exact iff_of_true nofun fun hearly => henabled hearly.1

theorem Opener.Sends.reports_iff (hf : f.Sends) (labels : List OpenLabel) :
    (∀ r ∈ (Machine.run f.step .start labels).2, r.Fine) ↔
      Machine.Along f.step (fun s a => ¬ s.Early a) .start labels := by
  have hstart : (Opening.start : Opening ο).Regular := ⟨RxFifo.init_valid, nofun, nofun⟩
  rw [Machine.outputs_iff_along]
  exact Machine.along_congr (I := Opening.Regular) (fun _ a h => hf.regular h a)
    (fun _ a h => hf.fine_iff h a) hstart

end Steps

theorem eaix4Open_sends : eaix4Open.Sends where
  valid := by
    intro ring mq h
    simp only [eaix4Open, eaix4Intput]
    cases hget : ring.get with
    | none => exact h
    | some r => cases mq <;> exact h.get hget
  early := by
    intro ring h hlength
    simp only [eaix4Open, eaix4Intput]
    cases hget : ring.get with
    | none => exact absurd (h.rxLength_eq_zero_iff.mpr hget) hlength
    | some r => exact ⟨.send false, List.mem_cons_self, nofun⟩
  fine := by
    intro ring mq
    simp only [eaix4Open, eaix4Intput]
    cases ring.get with
    | none => nofun
    | some r => exact List.forall_mem_singleton.mpr rfl

theorem eventIntput_sends (set : UInt32) (initial : Event) :
    (Opener.mk (eventIntput set) initial).Sends where
  valid := by
    intro ring event h
    cases event <;> exact h
  early := fun _ _ => ⟨.send false, List.mem_cons_self, nofun⟩
  fine := List.forall_mem_singleton.mpr rfl

/-- In each of the three open functions the callback finds its object initialised
and drops nothing exactly if no receive interrupt is taken between the enabling
in `rt_device_open` and the initialisation. -/
theorem callbacks_ready_iff (labels : List OpenLabel) :
    ((∀ r ∈ (Machine.run eaix4Open.step .start labels).2, r.Fine) ↔
        Machine.Along eaix4Open.step (fun s a => ¬ s.Early a) .start labels) ∧
      ((∀ r ∈ (Machine.run wirelessOpen.step .start labels).2, r.Fine) ↔
          Machine.Along wirelessOpen.step (fun s a => ¬ s.Early a) .start labels) ∧
        ((∀ r ∈ (Machine.run uartOpen.step .start labels).2, r.Fine) ↔
          Machine.Along uartOpen.step (fun s a => ¬ s.Early a) .start labels) :=
  ⟨eaix4Open_sends.reports_iff labels, (eventIntput_sends 1 .init).reports_iff labels,
    (eventIntput_sends 1 .init).reports_iff labels⟩

/-- A byte that arrives right after the device has been opened. -/
def earlyByte : List OpenLabel :=
  [.thread true, .thread true, .thread true, .interrupt 0xA5 [], .thread true]

/-- The lidar's byte is dropped, and the events are sent on null lists. -/
theorem earlyByte_reports :
    (Machine.run eaix4Open.step .start earlyByte).2 = [.send false, .discard 0xA5] ∧
      (Machine.run wirelessOpen.step .start earlyByte).2 = [.send false] ∧
        (Machine.run uartOpen.step .start earlyByte).2 = [.send false] ∧
          (Machine.run eaix4Open.step .start earlyByte).1.pc = .done .eok := by
  decide

end Serial
