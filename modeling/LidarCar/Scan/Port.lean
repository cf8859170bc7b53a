-- SUMMARY: Three threads put two-byte commands on the lidar's port, and when they arrive whole.
import LidarCar.Base.Channel
import LidarCar.Scan.Handoff

/-!
# The port to the lidar

The parser thread, the master thread and the shell put their commands byte by
byte with `eaix4_putchar`, and nothing keeps a thread from putting a byte between
the two bytes of another's command. The shell calls `eaix4cmd` any number of
times, with any arguments.
-/

namespace Scan

open Slam (Effect stopAndSend)
open Transition (Reach)
open Channel (Phase)

/-! ## The commands -/

/-- The bytes that `Eaix4Scaning` puts. -/
def eaix4Scaning : List UInt8 :=
  [0xA5, 0x60]

/-- The bytes that `Eaix4stop` puts. -/
def eaix4stop : List UInt8 :=
  [0xA5, 0x65]

/-- The bytes that `Eaix4Version` puts. -/
def eaix4Version : List UInt8 :=
  [0xA5, 0x90]

/-- The bytes that `Eaix4Health` puts. -/
def eaix4Health : List UInt8 :=
  [0xA5, 0x91]

def stop := "-s"

def forceStoppage := "-fs"

def startScanning := "-sc"

def forceStartScanning := "-fsc"

def getVersionInformation := "-gvf"

def getHealthStatus := "-ghs"

/-- The bytes that `eaix4cmd` puts. -/
def eaix4cmd : List String → List UInt8
  | _ :: arg :: _ =>
    if arg = stop then eaix4stop
    else if arg = forceStoppage then [0xA5, 0x00]
    else if arg = startScanning then eaix4Scaning
    else if arg = forceStartScanning then [0xA5, 0x61]
    else if arg = getVersionInformation then eaix4Version
    else if arg = getHealthStatus then eaix4Health
    else []
  | [_] | [] => []

/-! ## The senders -/

inductive Sender where
  | parser
  | master
  | shell
  deriving DecidableEq, Repr

instance : Fintype Sender where
  elems := {.parser, .master, .shell}
  complete := fun i => by cases i <;> decide

/-- The byte an output puts. -/
def putByte : Effect → Option UInt8
  | .putchar b => some b
  | .eventSend | .circleInc | .number _ | .firstpoint _ | .ap _ _ | .buf _ | .divide _ => none

/-- The bytes the master thread has left to put in `Eaix4Scaning`. -/
def MasterPc.left : MasterPc → List UInt8
  | .request .first => eaix4Scaning
  | .request .second => eaix4Scaning.tail
  | .recv | .waiting | .received _ | .loop _ _ | .act _ | .request .done => []

/-- The scan cycle, with a shell that calls `eaix4cmd`. -/
structure Port where
  system : System
  /-- The bytes the shell has left to put in its call of `eaix4cmd`. -/
  shell : List UInt8
  /-- History: the bytes put. -/
  toLidar : List UInt8
  /-- History: the codes of the commands the three threads have called. -/
  issued : List UInt8
  /-- History: a command was begun between the two bytes of another. -/
  overlapped : Bool

/-- The bytes a thread has left to put in the command it is in. -/
def Port.left (s : Port) : Sender → List UInt8
  | .parser => s.system.out.filterMap putByte
  | .master => s.system.master.left
  | .shell => s.shell

/-- What a thread that has the bytes `left` to put is doing. -/
def phaseOf : List UInt8 → Phase UInt8
  | [] => .idle
  | [c] => .begun c
  | _ :: c :: _ => .called c

/-- The port as a channel that the three threads share. -/
def Port.channel (s : Port) : Channel.State Sender UInt8 where
  phase := fun i => phaseOf (s.left i)
  sent := s.toLidar
  issued := s.issued
  overlapped := s.overlapped

/-- No thread is between the two bytes of a command. -/
def Port.Quiet (s : Port) : Prop :=
  s.channel.occupied = false

/-- The bytes put are complete commands, one for each command called that is
not still to be begun. -/
def Port.CommandsWhole (s : Port) : Prop :=
  s.channel.Whole 0xA5

/-! ## Steps -/

/-- The thread `i` steps from `s` to `t`. -/
def Port.observe (s : Port) (i : Sender) (t : Port) : Port :=
  { t with
    toLidar := s.toLidar ++ (s.left i).take 1
    issued := s.issued ++ if s.left i = [] then (t.left i).drop 1 else []
    overlapped := s.overlapped || ((s.left i).length = 2 && s.channel.occupied) }

inductive Port.Label where
  | answer
  | byte (b : UInt8)
  | parser
  | master
  /-- The shell calls `eaix4cmd`. -/
  | eaix4cmd (argv : List String)
  /-- The shell puts its next byte. -/
  | shell
  deriving DecidableEq, Repr

def Port.next (s : Port) : Port.Label → Option Port
  | .answer => (s.system.next .answer).map fun t => { s with system := t }
  | .byte b => (s.system.next (.byte b)).map fun t => { s with system := t }
  | .parser => (s.system.next .parser).map fun t => s.observe .parser { s with system := t }
  | .master => (s.system.next .master).map fun t => s.observe .master { s with system := t }
  | .eaix4cmd argv =>
    if s.shell = [] then some (s.observe .shell { s with shell := Scan.eaix4cmd argv }) else none
  | .shell =>
    match s.shell with
    | [] => none
    | b :: rest =>
      some (s.observe .shell { s with system := s.system.putchar b, shell := rest })

/-- The state after start-up. -/
def Port.init (swing : Int32) : Port where
  system := { System.init swing with shell := .done }
  shell := []
  toLidar := []
  issued := []
  overlapped := false

/-! ## How a thread moves -/

/-- What a step does to the bytes that the thread taking it has left. -/
inductive Moves : List UInt8 → List UInt8 → Prop where
  | idle : Moves [] []
  | call {c : UInt8} (hc : c ≠ 0xA5) : Moves [] [0xA5, c]
  | putLead {c : UInt8} : Moves [0xA5, c] [c]
  | putCode {c : UInt8} : Moves [c] []

/-- What a step has left to put, the next one puts. -/
theorem Moves.next {l rest : List UInt8} {b : UInt8} (h : Moves l (b :: rest)) :
    Moves (b :: rest) rest := by
  cases h with
  | call hc => exact .putLead
  | putLead => exact .putCode

/-- The step of one thread is a step of the channel, or invisible to it. -/
theorem Port.observe_channel {s t : Port} {i : Sender} (hmove : Moves (s.left i) (t.left i))
    (hframe : ∀ j ≠ i, t.left j = s.left j) :
    (s.observe i t).channel = s.channel ∨
      ∃ b, Channel.Codes 0xA5 s.channel b ∧
        s.channel.next 0xA5 b = some (s.observe i t).channel := by
  have hphase : (s.observe i t).channel.phase =
      Function.update s.channel.phase i (phaseOf (t.left i)) :=
    Function.eq_update_iff.mpr ⟨rfl, fun j hj => congrArg phaseOf (hframe j hj)⟩
  have hchannel : (s.observe i t).channel =
      { phase := Function.update s.channel.phase i (phaseOf (t.left i))
        sent := s.toLidar ++ (s.left i).take 1
        issued := s.issued ++ if s.left i = [] then (t.left i).drop 1 else []
        overlapped := s.overlapped || ((s.left i).length = 2 && s.channel.occupied) } := by
    rw [← hphase]
    rfl
  have hi : s.channel.phase i = phaseOf (s.left i) := rfl
  rw [hchannel]
  generalize s.left i = l at hmove hi
  generalize t.left i = l' at hmove
  cases hmove with
  | idle =>
      left
      rw [← hi, Function.update_eq_self]
      simp [Port.channel]
  | call hc =>
      refine Or.inr ⟨.call i _, hc, (Channel.State.next_call hi).trans ?_⟩
      simp [Channel.State.call, phaseOf, Port.channel]
  | putLead =>
      refine Or.inr ⟨.put i, trivial, (Channel.State.next_putLead hi).trans ?_⟩
      simp [Channel.State.putLead, phaseOf, Port.channel]
  | putCode =>
      refine Or.inr ⟨.put i, trivial, (Channel.State.next_putCode hi).trans ?_⟩
      simp [Channel.State.putCode, phaseOf, Port.channel]

/-! ## The threads -/

/-- What the parser thread has left to send, and when the master thread waits. -/
structure System.Senders (s : System) : Prop where
  out : s.out <:+ stopAndSend
  waiter : s.controlEvent.waiter = none ∨ s.master = .waiting

theorem System.Senders.init (swing : Int32) :
    System.Senders { System.init swing with shell := .done } where
  out := List.nil_suffix
  waiter := Or.inl rfl

/-- Only a master thread that waits is moved by the event. -/
theorem System.Senders.eventSend {s : System} (h : s.Senders) :
    s.eventSend.Senders ∧ s.eventSend.out = s.out ∧ s.eventSend.master.left = s.master.left := by
  have hsend := s.controlEvent.send_waiter controlEventEaix4
  unfold System.eventSend
  split
  case h_1 event heq =>
    rw [heq] at hsend
    rcases hsend with ⟨-, hsame⟩ | ⟨hnone, -⟩
    · exact ⟨⟨h.out, h.waiter.imp_left hsame.trans⟩, rfl, rfl⟩
    · exact ⟨⟨h.out, Or.inl hnone⟩, rfl, rfl⟩
  case h_2 event e heq =>
    rw [heq] at hsend
    rcases hsend with ⟨hcontra, -⟩ | ⟨hnone, hsome⟩
    · cases hcontra
    · have hwaiting := h.waiter.resolve_left hsome
      exact ⟨⟨h.out, Or.inl hnone⟩, rfl, by rw [hwaiting]; rfl⟩

theorem System.Senders.parser {s t : System} (h : s.Senders) (hnext : s.stepParser = some t) :
    t.Senders ∧ Moves (s.out.filterMap putByte) (t.out.filterMap putByte) ∧
      t.master.left = s.master.left := by
  unfold System.stepParser at hnext
  split at hnext
  case h_1 e out hout =>
    obtain rfl := Option.some.inj hnext
    have hsuffix := h.out
    rw [hout] at hsuffix
    have htail : out <:+ stopAndSend := (List.suffix_cons e out).trans hsuffix
    rw [hout]
    rcases Slam.stopAndSend_suffix_cons hsuffix with ⟨rfl, rfl⟩ | ⟨rfl, rfl⟩ | ⟨rfl, rfl⟩
    · exact ⟨⟨htail, h.waiter⟩, .putLead, rfl⟩
    · exact ⟨⟨htail, h.waiter⟩, .putCode, rfl⟩
    · obtain ⟨hsenders, -, hleft⟩ := h.eventSend
      exact ⟨⟨htail, hsenders.waiter⟩, .idle, hleft⟩
  case h_2 hout =>
    obtain ⟨b, -, rfl⟩ := Option.map_eq_some_iff.mp hnext
    rw [hout]
    rcases s.take_cases b with ⟨hout', -⟩ | ⟨hout', -⟩
    · rw [hout']
      exact ⟨⟨by rw [hout']; exact List.nil_suffix, h.waiter⟩, .idle, rfl⟩
    · rw [hout']
      exact ⟨⟨by rw [hout'], h.waiter⟩, .call (by decide), rfl⟩

theorem System.Senders.master {s t : System} (h : s.Senders) (hnext : s.stepMaster = some t) :
    t.Senders ∧ Moves s.master.left t.master.left ∧ t.out = s.out := by
  have hrunning : s.master ≠ .waiting → s.controlEvent.waiter = none :=
    fun hmaster => h.waiter.resolve_right hmaster
  unfold System.stepMaster at hnext
  split at hnext
  case h_1 hpc =>
    have hnone := hrunning (by rw [hpc]; nofun)
    rw [hpc]
    unfold Kernel.Event.recv at hnext
    split_ifs at hnext
    · obtain rfl := Option.some.inj hnext
      exact ⟨⟨h.out, Or.inl hnone⟩, .idle, rfl⟩
    · obtain rfl := Option.some.inj hnext
      exact ⟨⟨h.out, Or.inr rfl⟩, .idle, rfl⟩
  case h_2 => cases hnext
  case h_3 e hpc =>
    obtain rfl := Option.some.inj hnext
    have hnone := hrunning (by rw [hpc]; nofun)
    rw [hpc]
    dsimp only
    split
    · exact ⟨⟨h.out, Or.inl hnone⟩, .idle, rfl⟩
    · exact ⟨⟨h.out, Or.inl hnone⟩, .idle, rfl⟩
  case h_4 i x hpc =>
    have hnone := hrunning (by rw [hpc]; nofun)
    rw [hpc]
    split_ifs at hnext
    all_goals
      obtain rfl := Option.some.inj hnext
      exact ⟨⟨h.out, Or.inl hnone⟩, .idle, rfl⟩
  case h_5 todo hpc =>
    obtain rfl := Option.some.inj hnext
    rw [hpc]
    exact ⟨⟨h.out, Or.inl (hrunning (by rw [hpc]; nofun))⟩, .call (by decide), rfl⟩
  case h_8 hpc =>
    obtain rfl := Option.some.inj hnext
    rw [hpc]
    exact ⟨⟨h.out, Or.inl (hrunning (by rw [hpc]; nofun))⟩, .putLead, rfl⟩
  case h_9 hpc =>
    obtain rfl := Option.some.inj hnext
    rw [hpc]
    exact ⟨⟨h.out, Or.inl (hrunning (by rw [hpc]; nofun))⟩, .putCode, rfl⟩
  all_goals
    rename_i hpc
    obtain rfl := Option.some.inj hnext
    rw [hpc]
    exact ⟨⟨h.out, Or.inl (hrunning (by rw [hpc]; nofun))⟩, .idle, rfl⟩

/-- A call of `eaix4cmd` has one command to put, or nothing. -/
theorem eaix4cmd_moves (argv : List String) : Moves [] (eaix4cmd argv) := by
  unfold eaix4cmd
  split
  · split_ifs <;> first | exact .call (by decide) | exact .idle
  · exact .idle
  · exact .idle

/-! ## Every run -/

variable {s t : Port}

theorem Port.next_answer (hnext : s.next .answer = some t) :
    t = { s with
      system := { s.system with
        lidar := { s.system.lidar with owesHeader := false }
        sent := s.system.sent ++ Slam.scanHeader
        opened := some s.system.sent.length } } := by
  obtain ⟨u, hu, rfl⟩ := Option.map_eq_some_iff.mp hnext
  obtain ⟨-, hu⟩ := Option.ite_none_right_eq_some.mp hu
  obtain rfl := Option.some.inj hu
  rfl

theorem Port.next_eaix4cmd {argv : List String} (hnext : s.next (.eaix4cmd argv) = some t) :
    s.shell = [] ∧ t = s.observe .shell { s with shell := Scan.eaix4cmd argv } := by
  obtain ⟨hidle, ht⟩ := Option.ite_none_right_eq_some.mp hnext
  exact ⟨hidle, (Option.some.inj ht).symm⟩

theorem Port.next_shell (hnext : s.next .shell = some t) :
    ∃ b rest, s.shell = b :: rest ∧
      t = s.observe .shell { s with system := s.system.putchar b, shell := rest } := by
  rw [Port.next] at hnext
  split at hnext
  · cases hnext
  · next b rest hleft => exact ⟨b, rest, hleft, (Option.some.inj hnext).symm⟩

/-- The threads are within commands. -/
structure Port.Sending (s : Port) : Prop where
  senders : s.system.Senders
  shell : ∃ l, Moves l s.shell

/-- A step is one of the channel's steps or leaves the channel alone. -/
theorem Port.Sending.step {a : Port.Label} (h : s.Sending) (hnext : s.next a = some t) :
    t.Sending ∧ (t.channel = s.channel ∨
      ∃ b, Channel.Codes 0xA5 s.channel b ∧ s.channel.next 0xA5 b = some t.channel) := by
  obtain ⟨hsenders, l, hshell⟩ := h
  cases a with
  | answer =>
      obtain rfl := Port.next_answer hnext
      exact ⟨⟨⟨hsenders.out, hsenders.waiter⟩, l, hshell⟩, Or.inl rfl⟩
  | byte b =>
      obtain rfl := Option.some.inj hnext
      exact ⟨⟨⟨hsenders.out, hsenders.waiter⟩, l, hshell⟩, Or.inl rfl⟩
  | parser =>
      obtain ⟨u, hu, rfl⟩ := Option.map_eq_some_iff.mp hnext
      obtain ⟨hsenders', hmoves, hmaster⟩ := hsenders.parser hu
      refine ⟨⟨hsenders', l, hshell⟩, Port.observe_channel hmoves fun j hj => ?_⟩
      cases j with
      | parser => exact absurd rfl hj
      | master => exact hmaster
      | shell => rfl
  | master =>
      obtain ⟨u, hu, rfl⟩ := Option.map_eq_some_iff.mp hnext
      obtain ⟨hsenders', hmoves, hout⟩ := hsenders.master hu
      refine ⟨⟨hsenders', l, hshell⟩, Port.observe_channel hmoves fun j hj => ?_⟩
      cases j with
      | parser => exact congrArg (List.filterMap putByte) hout
      | master => exact absurd rfl hj
      | shell => rfl
  | eaix4cmd argv =>
      obtain ⟨hidle, rfl⟩ := Port.next_eaix4cmd hnext
      have hmoves : Moves s.shell (Scan.eaix4cmd argv) := by
        rw [hidle]
        exact eaix4cmd_moves argv
      refine ⟨⟨hsenders, s.shell, hmoves⟩, Port.observe_channel hmoves fun j hj => ?_⟩
      cases j with
      | parser | master => rfl
      | shell => exact absurd rfl hj
  | shell =>
      obtain ⟨b, rest, hleft, rfl⟩ := Port.next_shell hnext
      rw [hleft] at hshell
      have hmoves : Moves s.shell rest := by
        rw [hleft]
        exact hshell.next
      refine ⟨⟨⟨hsenders.out, hsenders.waiter⟩, s.shell, hmoves⟩,
        Port.observe_channel hmoves fun j hj => ?_⟩
      cases j with
      | parser | master => rfl
      | shell => exact absurd rfl hj

theorem Port.Sending.of_reach {swing : Int32}
    (h : Reach Port.next (fun _ _ => True) (.init swing) s) : s.Sending :=
  have hinit : (Port.init swing).Sending := ⟨System.Senders.init swing, [], .idle⟩
  h.invariant hinit fun hi _ hnext => (hi.step hnext).1

/-- The lidar's port is a channel that the three threads share. -/
theorem Port.channel_of_reach {swing : Int32}
    (h : Reach Port.next (fun _ _ => True) (.init swing) s) :
    Reach (Channel.State.next 0xA5) (Channel.Codes 0xA5) .init s.channel := by
  have hinit : (Port.init swing).channel = .init := by
    unfold Port.channel Channel.State.init
    congr 1
    funext i
    cases i <;> rfl
  rw [← hinit]
  exact h.simulate fun hs _ hnext => ((Port.Sending.of_reach hs).step hnext).2

/-! ## What the lidar hears -/

/-- What the commands do to the lidar: the header it owes is up to itself. -/
def Lidar.heard (l : Lidar) : Bool × Bool :=
  (l.gotA5, l.streaming)

theorem Lidar.heard_receive {l l' : Lidar} (h : l.heard = l'.heard) (b : UInt8) :
    (l.receive b).heard = (l'.receive b).heard := by
  obtain ⟨hgot, hstreaming⟩ := Prod.mk.inj h
  unfold Lidar.receive Lidar.starts Lidar.heard
  rw [hgot]
  split
  · rfl
  · split
    · rfl
    · exact congrArg (Prod.mk _) hstreaming

theorem Lidar.heard_foldl {l l' : Lidar} (h : l.heard = l'.heard) (bs : List UInt8) :
    (bs.foldl Lidar.receive l).heard = (bs.foldl Lidar.receive l').heard := by
  induction bs generalizing l l' with
  | nil => exact h
  | cons b bs ih => exact ih (Lidar.heard_receive h b)

theorem System.eventSend_lidar (s : System) : s.eventSend.lidar = s.lidar := by
  unfold System.eventSend
  split <;> rfl

theorem System.Senders.lidar_parser {s t : System} (h : s.Senders)
    (hnext : s.stepParser = some t) :
    t.lidar = ((s.out.filterMap putByte).take 1).foldl Lidar.receive s.lidar := by
  unfold System.stepParser at hnext
  split at hnext
  case h_1 e out hout =>
    obtain rfl := Option.some.inj hnext
    have hsuffix := h.out
    rw [hout] at hsuffix
    rw [hout]
    rcases Slam.stopAndSend_suffix_cons hsuffix with ⟨rfl, rfl⟩ | ⟨rfl, rfl⟩ | ⟨rfl, rfl⟩
    · rfl
    · rfl
    · exact s.eventSend_lidar
  case h_2 hout =>
    obtain ⟨b, -, rfl⟩ := Option.map_eq_some_iff.mp hnext
    rw [hout]
    rfl

theorem System.lidar_master {s t : System} (hnext : s.stepMaster = some t) :
    t.lidar = (s.master.left.take 1).foldl Lidar.receive s.lidar := by
  unfold System.stepMaster at hnext
  split at hnext
  case h_1 hpc =>
    rw [hpc]
    split at hnext <;> cases hnext <;> rfl
  case h_2 => cases hnext
  case h_4 hpc =>
    rw [hpc]
    split_ifs at hnext <;> cases hnext <;> rfl
  all_goals
    rename_i hpc
    rw [hpc]
    cases hnext
    rfl

/-- The bytes a step adds to the history are those the lidar receives. -/
theorem Port.Sending.heard {a : Port.Label} (h : s.Sending) (hnext : s.next a = some t) :
    ∃ bs, t.toLidar = s.toLidar ++ bs ∧
      t.system.lidar.heard = (bs.foldl Lidar.receive s.system.lidar).heard := by
  cases a with
  | answer =>
      obtain rfl := Port.next_answer hnext
      exact ⟨[], (List.append_nil _).symm, rfl⟩
  | byte b =>
      obtain rfl := Option.some.inj hnext
      exact ⟨[], (List.append_nil _).symm, rfl⟩
  | parser =>
      obtain ⟨u, hu, rfl⟩ := Option.map_eq_some_iff.mp hnext
      exact ⟨_, rfl, congrArg Lidar.heard (h.senders.lidar_parser hu)⟩
  | master =>
      obtain ⟨u, hu, rfl⟩ := Option.map_eq_some_iff.mp hnext
      exact ⟨_, rfl, congrArg Lidar.heard (System.lidar_master hu)⟩
  | eaix4cmd argv =>
      obtain ⟨hidle, rfl⟩ := Port.next_eaix4cmd hnext
      refine ⟨s.shell.take 1, rfl, ?_⟩
      rw [hidle]
      rfl
  | shell =>
      obtain ⟨b, rest, hleft, rfl⟩ := Port.next_shell hnext
      refine ⟨s.shell.take 1, rfl, ?_⟩
      rw [hleft]
      rfl

/-- The lidar is in the state that the bytes put bring it to. -/
theorem lidar_heard {swing : Int32} (h : Reach Port.next (fun _ _ => True) (.init swing) s) :
    s.system.lidar.heard =
      (s.toLidar.foldl Lidar.receive (Port.init swing).system.lidar).heard := by
  induction h with
  | init => rfl
  | step hs _ hnext ih =>
      obtain ⟨bs, hsent, hheard⟩ := (Port.Sending.of_reach hs).heard hnext
      rw [hheard, hsent, List.foldl_append]
      exact Lidar.heard_foldl ih bs

/-! ## Whole commands -/

/-- When no thread is between the two bytes of a command, the bytes put are whole
commands, each called once, if and only if no thread ever began a command between
the two bytes of another. -/
theorem commands_whole_iff {swing : Int32}
    (h : Reach Port.next (fun _ _ => True) (.init swing) s) (hquiet : s.Quiet) :
    s.CommandsWhole ↔ s.overlapped = false :=
  Channel.whole_iff (Port.channel_of_reach h) hquiet

/-! ## A torn stop -/

/-- The shell starts a scan of empty turns, which the parser thread reads up to
the start packet that completes it. -/
def scanned : List Port.Label :=
  [.eaix4cmd ["eaix4cmd", "-sc"], .shell, .shell, .answer] ++
    ((List.replicate 6 (startBytes 0x01)).flatten ++ [0xAA, 0x55, 0x01]).map .byte ++
      List.replicate 82 .parser

/-- The shell asks for the version, between the calls of the parser thread's stop
and its own first byte. -/
def wholeRun : List Port.Label :=
  scanned ++ [.parser, .eaix4cmd ["eaix4cmd", "-gvf"], .parser, .shell, .shell]

theorem commands_whole_iff_wholeRun :
    ∃ s, Reach Port.next (fun _ _ => True) (.init 0) s ∧ s.Quiet ∧ s.overlapped = false ∧
      s.toLidar = [0xA5, 0x60, 0xA5, 0x65, 0xA5, 0x90] ∧
      (s.CommandsWhole ↔ s.overlapped = false) := by
  have hrun : (Transition.exec Port.next (fun _ _ => True) (.init 0) wholeRun).any
      (fun s => s.channel.occupied = false ∧ s.overlapped = false ∧
        s.toLidar = [0xA5, 0x60, 0xA5, 0x65, 0xA5, 0x90]) = true := by
    decide +kernel
  obtain ⟨s, hreach, htest⟩ := Transition.exists_reach_of_exec hrun
  obtain ⟨hquiet, hover, hsent⟩ := of_decide_eq_true htest
  exact ⟨s, hreach, hquiet, hover, hsent, commands_whole_iff hreach hquiet⟩

/-- The shell asks for the version between the two bytes of the parser thread's
stop. -/
def tornStop : List Port.Label :=
  scanned ++ [.parser, .eaix4cmd ["eaix4cmd", "-gvf"], .shell, .shell, .parser]

/-- The lidar is not stopped: what follows its last `A5` is not `65`. -/
theorem tornStop_not_whole :
    ∃ s, Reach Port.next (fun _ _ => True) (.init 0) s ∧ s.Quiet ∧
      s.toLidar = [0xA5, 0x60, 0xA5, 0xA5, 0x90, 0x65] ∧ s.issued = [0x60, 0x65, 0x90] ∧
      s.system.lidar.streaming = true ∧ ¬ s.CommandsWhole := by
  have hrun : (Transition.exec Port.next (fun _ _ => True) (.init 0) tornStop).any
      (fun s => s.channel.occupied = false ∧
        s.toLidar = [0xA5, 0x60, 0xA5, 0xA5, 0x90, 0x65] ∧ s.issued = [0x60, 0x65, 0x90] ∧
        s.system.lidar.streaming = true) = true := by
    decide +kernel
  obtain ⟨s, hreach, htest⟩ := Transition.exists_reach_of_exec hrun
  obtain ⟨hquiet, hsent, hissued, hstreaming⟩ := of_decide_eq_true htest
  have htorn : s.channel.Torn 0xA5 := ⟨[0x60], [0x90, 0x65], hsent⟩
  have hcodes : ∀ c ∈ s.channel.issued, c ≠ 0xA5 := by
    rw [show s.channel.issued = _ from hissued]
    simp
  exact ⟨s, hreach, hquiet, hsent, hissued, hstreaming, htorn.not_whole hcodes⟩

end Scan
