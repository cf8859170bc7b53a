-- SUMMARY: The scan cycle: the lidar, the parser thread, the master thread and the initial start request.
import LidarCar.Base.Transition
import LidarCar.Kernel.Ipc
import LidarCar.Master.Decision
import LidarCar.Slam.Parser

/-!
# The scan cycle

Three parties take turns. The lidar sends bytes to the parser thread, the parser
thread stops the lidar and wakes the master thread, and the master thread
decides and starts the lidar again. Bytes to the lidar arrive as they are put;
bytes from it wait, unread, until the parser thread takes them.
-/

namespace Scan

open Slam (AroundPoint Effect)
open Kernel (Event)
open Master (Action Locals)

/-! ## The lidar -/

/-- The lidar, as far as its commands go. -/
structure Lidar where
  /-- The last byte it received began a command. -/
  gotA5 : Bool
  streaming : Bool
  /-- It has not yet answered the last start request with the scan header. -/
  owesHeader : Bool
  deriving DecidableEq, Repr

/-- The byte completes a start request, `A5 60`. -/
def Lidar.starts (l : Lidar) (b : UInt8) : Bool :=
  l.gotA5 && b = 0x60

/-- The lidar receives a byte. `A5 65` stops it. -/
def Lidar.receive (l : Lidar) (b : UInt8) : Lidar :=
  if l.starts b then { gotA5 := false, streaming := true, owesHeader := true }
  else if l.gotA5 ∧ b = 0x65 then { l with gotA5 := false, streaming := false }
  else { l with gotA5 := b = 0xA5 }

/-! ## The state -/

/-- The two calls of `eaix4_putchar` in `Eaix4Scaning`. -/
inductive RequestPc where
  | first
  | second
  | done
  deriving DecidableEq, Repr

/-- Where `master_thread_entry` is. -/
inductive MasterPc where
  /-- `rt_event_recv` is called. -/
  | recv
  /-- Suspended in `rt_event_recv`. -/
  | waiting
  /-- `if (e & controlEventEaix4)` -/
  | received (e : UInt32)
  /-- The loops over the points, at point `x` of turn `i`. -/
  | loop (i x : Nat)
  /-- The statements after the loops. -/
  | act (todo : List Action)
  /-- `Eaix4Scaning` -/
  | request (r : RequestPc)
  deriving DecidableEq, Repr

structure System where
  lidar : Lidar
  /-- All bytes the lidar has sent. -/
  sent : List UInt8
  /-- How many of them the parser thread has taken. -/
  nread : Nat
  parser : Slam.Parser
  /-- What `manipulationData` has left to do before its next read or its return. -/
  out : List Effect
  controlEvent : Event
  master : MasterPc
  locals : Locals
  /-- The initial start request of the shell. -/
  shell : RequestPc
  /-- History: where the last scan header begins. -/
  opened : Option Nat
  /-- History: a stop has been sent since the lidar began to stream. -/
  stopSent : Bool
  /-- History: the master thread has not called `Eaix4Scaning` since the last event. -/
  window : Bool
  /-- History: the scans completed. -/
  completed : Nat
  /-- History: the events the master thread has received. -/
  receptions : Nat

/-- The parser thread is inside `manipulationData`. -/
def System.InManip (s : System) : Prop :=
  s.parser.inManip = true ∨ s.out ≠ []

/-! ## Steps -/

def controlEventEaix4 : UInt32 := 1

/-- `eaix4_putchar(b)`. -/
def System.putchar (s : System) (b : UInt8) : System :=
  { s with lidar := s.lidar.receive b, stopSent := s.stopSent && !s.lidar.starts b }

/-- `eaix4_getchar` returns the next byte to the parser thread. -/
def System.take (s : System) (b : UInt8) : System :=
  { s with
      nread := s.nread + 1
      parser := (Slam.step s.parser b).1
      out := (Slam.step s.parser b).2.filter Effect.isOutput
      completed :=
        if (Slam.step s.parser b).2.any Effect.isEvent then s.completed + 1 else s.completed }

/-- `rt_event_send(&ControlEvent, controlEventEaix4)`. -/
def System.eventSend (s : System) : System :=
  match s.controlEvent.send controlEventEaix4 with
  | (event, none) => { s with controlEvent := event, window := true }
  | (event, some e) =>
    { s with
        controlEvent := event
        window := true
        master := .received e
        receptions := s.receptions + 1 }

/-- The parser thread sends one output. -/
def System.output (s : System) : Effect → System
  | .putchar b => { s.putchar b with stopSent := (s.putchar b).stopSent || b = 0x65 }
  | .eventSend => s.eventSend
  | .circleInc | .number _ | .firstpoint _ | .ap _ _ | .buf _ | .divide _ => s

/-- The parser thread takes its next step. -/
def System.stepParser (s : System) : Option System :=
  match s.out with
  | e :: out => some { s.output e with out := out }
  | [] => s.sent[s.nread]?.map s.take

/-- The master thread takes its next step. What an `Action` does to the car is
left out. -/
def System.stepMaster (s : System) : Option System :=
  match s.master with
  | .recv =>
    match s.controlEvent.recv controlEventEaix4 with
    | (event, none) => some { s with controlEvent := event, master := .waiting }
    | (event, some e) =>
      some { s with controlEvent := event, master := .received e, receptions := s.receptions + 1 }
  | .waiting => none
  | .received e =>
    some { s with master := if e &&& controlEventEaix4 ≠ 0 then .loop 1 0 else .recv }
  | .loop i x =>
    if i < 5 then
      if x < (s.parser.around i).number.toInt then
        some { s with
          locals :=
            { s.locals with
              toSignals := Master.examine s.locals.toSignals ((s.parser.around i).ap x) }
          master := .loop i (x + 1) }
      else
        some { s with master := .loop (i + 1) 0 }
    else
      some { s with locals := (Master.react s.locals).1, master := .act (Master.react s.locals).2 }
  | .act (.scan :: _) => some { s with master := .request .first }
  | .act (_ :: todo) => some { s with master := .act todo }
  | .act [] => some { s with master := .recv }
  | .request .first => some { s.putchar 0xA5 with master := .request .second }
  | .request .second =>
    some { s.putchar 0x60 with master := .request .done, window := false }
  | .request .done => some { s with master := .recv }

/-- The shell takes the next step of its one start request. -/
def System.stepShell (s : System) : Option System :=
  match s.shell with
  | .first => some { s.putchar 0xA5 with shell := .second }
  | .second => some { s.putchar 0x60 with shell := .done }
  | .done => none

inductive Label where
  /-- The lidar answers a start request with the scan header. -/
  | answer
  /-- The lidar sends a byte of its own. -/
  | byte (b : UInt8)
  | parser
  | master
  | shell
  deriving DecidableEq, Repr

def System.next (s : System) : Label → Option System
  | .answer =>
    if s.lidar.owesHeader then
      some { s with
        lidar := { s.lidar with owesHeader := false }
        sent := s.sent ++ Slam.scanHeader
        opened := some s.sent.length }
    else none
  | .byte b => some { s with sent := s.sent ++ [b] }
  | .parser => s.stepParser
  | .master => s.stepMaster
  | .shell => s.stepShell

/-- The state after start-up. -/
def System.init (swing : Int32) : System where
  lidar := { gotA5 := false, streaming := false, owesHeader := false }
  sent := []
  nread := 0
  parser := Slam.powerUp
  out := []
  controlEvent := .init
  master := .recv
  locals := Master.entry swing
  shell := .first
  opened := none
  stopSent := false
  window := false
  completed := 0
  receptions := 0

/-! ## What the steps do to the lidar -/

theorem Lidar.receive_owesHeader (l : Lidar) (b : UInt8) :
    (l.receive b).owesHeader = (l.starts b || l.owesHeader) := by
  unfold Lidar.receive
  split
  · next h => rw [h]; rfl
  · next h =>
      rw [Bool.eq_false_iff.mpr h]
      split <;> rfl

theorem Lidar.receive_streaming {l : Lidar} {b : UInt8} (h : (l.receive b).streaming = true)
    (hstarts : l.starts b = false) : l.streaming = true := by
  unfold Lidar.receive at h
  split at h
  · next h' => rw [hstarts] at h'; cases h'
  · split at h
    · cases h
    · exact h

/-- The master thread moves on by itself or puts one byte. -/
theorem System.stepMaster_cases {s s' : System} (h : s.stepMaster = some s') :
    (∃ event master locals receptions, s' =
        { s with
          controlEvent := event, master := master, locals := locals, receptions := receptions }) ∨
      ∃ b master window, s' = { s.putchar b with master := master, window := window } := by
  unfold System.stepMaster at h
  split at h
  case h_1 =>
    left
    split at h <;> cases h <;> exact ⟨_, _, _, _, rfl⟩
  case h_4 =>
    left
    split_ifs at h <;> cases h <;> exact ⟨_, _, _, _, rfl⟩
  case h_2 => cases h
  case h_8 | h_9 => exact Or.inr ⟨_, _, _, (Option.some.inj h).symm⟩
  all_goals exact Or.inl ⟨_, _, _, _, (Option.some.inj h).symm⟩

/-- The shell puts one byte. -/
theorem System.stepShell_cases {s s' : System} (h : s.stepShell = some s') :
    ∃ b shell, s' = { s.putchar b with shell := shell } := by
  unfold System.stepShell at h
  split at h
  · exact ⟨_, _, (Option.some.inj h).symm⟩
  · exact ⟨_, _, (Option.some.inj h).symm⟩
  · cases h

end Scan
