-- SUMMARY: The scan map is handed from the parser thread to the master thread and back, one scan at a time.
import Mathlib.Data.Set.Subsingleton
import LidarCar.Base.Pattern
import LidarCar.Scan.Streaming
import LidarCar.Slam.Exit

/-!
# The hand-off of a scan

Nothing locks `around`. What keeps the two threads apart is a token that goes
round with the scan: a start request, the header that answers it, the parser
inside `manipulationData`, the event, the master thread up to its next request.
If the lidar sends a scan header only in answer to a request, no step duplicates
the token.
-/

namespace Scan

open Slam (Effect scanHeader scanReply stopAndSend)
open Kernel (Event)
open Pattern (OccursAt)
open Transition (Reach)

/-- The lidar's own bytes complete no scan header. -/
def HeaderOnlyInAnswer (s : System) : Label → Prop
  | .byte b => ¬ scanHeader <:+ s.sent ++ [b]
  | _ => True

/-! ## The token -/

/-- The master thread has received an event and not yet requested the next scan. -/
def MasterPc.busy : MasterPc → Bool
  | .recv | .waiting | .request .done => false
  | _ => true

/-- Where the token can be. -/
inductive Place where
  /-- The shell's start request. -/
  | shell
  /-- A request the lidar has not answered. -/
  | owed
  /-- The scan header at this position, not read to its end. -/
  | header (p : Nat)
  /-- The parser, inside `manipulationData`. -/
  | scan
  /-- A pending `controlEventEaix4`. -/
  | event
  /-- The master thread. -/
  | master
  deriving DecidableEq

/-- A token is at the place. -/
def System.TokenAt (s : System) : Place → Prop
  | .shell => s.shell ≠ .done
  | .owed => s.lidar.owesHeader = true
  | .header p => OccursAt scanHeader s.sent p ∧ s.nread < p + scanHeader.length
  | .scan => s.InManip
  | .event => s.controlEvent.set ≠ 0
  | .master => s.master.busy = true

/-- There is at most one token. -/
def System.Exclusive (s : System) : Prop :=
  {place | s.TokenAt place}.Subsingleton

variable {s s' : System}

/-- A step that brings no token anywhere. -/
theorem System.Exclusive.frame (h : s.Exclusive) (hs' : ∀ x, s'.TokenAt x → s.TokenAt x) :
    s'.Exclusive :=
  Set.Subsingleton.anti h hs'

/-- A step that takes the token from `q` to `r`. -/
theorem System.Exclusive.move {q r : Place} (h : s.Exclusive) (hq : s.TokenAt q)
    (hs' : ∀ x, s'.TokenAt x → x = r ∨ (x ≠ q ∧ s.TokenAt x)) : s'.Exclusive := by
  have hall : ∀ x, s'.TokenAt x → x = r := by
    intro x hx
    rcases hs' x hx with hr | ⟨hne, hold⟩
    · exact hr
    · exact absurd (h hold hq) hne
  intro x hx y hy
  rw [hall x hx, hall y hy]

/-! ## What the parser has read -/

/-- The bytes that `EAI_X4_GetDate` has matched are the last ones it has read. -/
structure Reading (sent : List UInt8) (nread : Nat) (pc : Slam.Pc) : Prop where
  nread_le : nread ≤ sent.length
  head2 : pc = .getDate .head2 → ∃ pre, sent.take nread = pre ++ [0xA5]
  reply : ∀ got, pc = .getDate (.reply got) → ∃ pre, sent.take nread = pre ++ 0xA5 :: 0x5A :: got

variable {sent : List UInt8} {nread : Nat} {pc : Slam.Pc}

theorem Reading.init : Reading [] 0 (.getDate .head) where
  nread_le := Nat.le_refl 0
  head2 := nofun
  reply := nofun

theorem Reading.append (h : Reading sent nread pc) (more : List UInt8) :
    Reading (sent ++ more) nread pc := by
  have htake : (sent ++ more).take nread = sent.take nread :=
    List.take_append_of_le_length h.nread_le
  refine ⟨h.nread_le.trans (by simp), fun hpc => ?_, fun got hpc => ?_⟩
  · rw [htake]
    exact h.head2 hpc
  · rw [htake]
    exact h.reply got hpc

theorem take_succ_of_getElem? {b : UInt8} (hb : sent[nread]? = some b) :
    sent.take (nread + 1) = sent.take nread ++ [b] := by
  rw [List.take_add_one, hb, Option.toList_some]

theorem Reading.take {b : UInt8} (h : Reading s.sent s.nread s.parser.pc)
    (hb : s.sent[s.nread]? = some b) :
    Reading (s.take b).sent (s.take b).nread (s.take b).parser.pc := by
  have hlt : s.nread < s.sent.length := (List.getElem?_eq_some_iff.mp hb).1
  cases hpc : s.parser.pc with
  | manip q =>
      have hnot : (s.take b).parser.inManip = true ∨ (s.take b).parser.pc = .getDate .head := by
        rw [System.take, Slam.step_manip hpc]
        exact Slam.manipulationData_pc q s.parser b
      refine ⟨hlt, fun hq => ?_, fun got hq => ?_⟩
      · rw [Slam.Parser.inManip, hq] at hnot
        rcases hnot with hin | hhead
        · cases hin
        · cases hhead
      · rw [Slam.Parser.inManip, hq] at hnot
        rcases hnot with hin | hhead
        · cases hin
        · cases hhead
  | getDate q =>
      have hparser : (s.take b).parser.pc = Slam.eaiX4GetDate q b := by
        rw [System.take, Slam.step_getDate hpc]
      refine ⟨hlt, fun hq => ?_, fun got hq => ?_⟩
      · obtain rfl := Slam.eaiX4GetDate_head2 (hparser.symm.trans hq)
        exact ⟨_, take_succ_of_getElem? hb⟩
      · rcases Slam.eaiX4GetDate_reply (hparser.symm.trans hq) with
          ⟨rfl, rfl, rfl⟩ | ⟨got₀, rfl, rfl⟩
        · obtain ⟨pre, hpre⟩ := h.head2 hpc
          refine ⟨pre, (take_succ_of_getElem? hb).trans ?_⟩
          rw [hpre, List.append_assoc]
          rfl
        · obtain ⟨pre, hpre⟩ := h.reply got₀ hpc
          refine ⟨pre, (take_succ_of_getElem? hb).trans ?_⟩
          rw [hpre, List.append_assoc]
          rfl

/-- The last byte of a scan reply is the last byte of an unread scan header. -/
theorem Reading.header_end {b : UInt8} {got : List UInt8}
    (h : Reading sent nread (.getDate (.reply got))) (hb : sent[nread]? = some b)
    (hgot : got ++ [b] = scanReply) :
    ∃ p, OccursAt scanHeader sent p ∧ nread + 1 = p + scanHeader.length := by
  obtain ⟨pre, hpre⟩ := h.reply got rfl
  have hread : sent.take (nread + 1) = pre ++ scanHeader := by
    rw [take_succ_of_getElem? hb, hpre, List.append_assoc, scanHeader, ← hgot]
    rfl
  have hlt : nread < sent.length := (List.getElem?_eq_some_iff.mp hb).1
  refine ⟨pre.length, ?_, ?_⟩
  · rw [← List.take_append_drop (nread + 1) sent, hread]
    exact (Pattern.occursAt_length_append scanHeader pre).append _
  · have hlen := congrArg List.length hread
    rw [List.length_take, List.length_append, Nat.min_eq_left hlt] at hlen
    exact hlen

/-! ## The invariant -/

/-- What the parser thread has yet to send. -/
structure Outputs (out : List Effect) (parser : Slam.Parser) : Prop where
  suffix : out <:+ stopAndSend
  hunting : out ≠ [] → parser.inManip = false

/-- The event and the master thread that waits for it. -/
structure Wakeup (event : Event) (master : MasterPc) (window : Bool) : Prop where
  set : event.set = 0 ∨ event.set = 1
  waiter : event.waiter = if master = .waiting then some 1 else none
  received : ∀ e, master = .received e → e = 1
  act : ∀ todo, master = .act todo → .scan ∈ todo
  window : window = true → event.set ≠ 0 ∨ master.busy = true

/-- The completed scans whose event the master thread has not received. -/
def System.pending (s : System) : Nat :=
  (if s.out = [] then 0 else 1) + if s.controlEvent.set = 0 then 0 else 1

structure Protocol (s : System) : Prop where
  exclusive : s.Exclusive
  reading : Reading s.sent s.nread s.parser.pc
  outputs : Outputs s.out s.parser
  wakeup : Wakeup s.controlEvent s.master s.window
  completed : s.completed = s.receptions + s.pending

theorem System.init_exclusive (swing : Int32) : (System.init swing).Exclusive := by
  have hall : ∀ x, (System.init swing).TokenAt x → x = .shell := by
    intro x hx
    cases x with
    | shell => rfl
    | header p =>
        have hle := hx.1.le_length (by decide)
        exact absurd hle (by simp [System.init, Slam.scanHeader])
    | scan => rcases hx with hin | hout <;> contradiction
    | owed | master => cases hx
    | event => exact absurd rfl hx
  intro x hx y hy
  rw [hall x hx, hall y hy]

theorem Protocol.init (swing : Int32) : Protocol (.init swing) where
  exclusive := System.init_exclusive swing
  reading := .init
  outputs := ⟨List.nil_suffix, nofun⟩
  wakeup := ⟨Or.inl rfl, rfl, nofun, nofun, nofun⟩
  completed := rfl

theorem System.Exclusive.set_eq_zero (h : s.Exclusive) (hin : s.InManip) :
    s.controlEvent.set = 0 := by
  by_contra hset
  have heq := h (x := .scan) hin (y := .event) hset
  cases heq

theorem System.Exclusive.pending_le (h : s.Exclusive) : s.pending ≤ 1 := by
  unfold System.pending
  split
  · split <;> simp
  · next hout =>
      rw [if_pos (h.set_eq_zero (Or.inr hout))]

/-! ## The lidar's steps -/

theorem scanHeader_first (i : Nat) (hi : 0 < i) (hlt : i < scanHeader.length) :
    scanHeader[i]? ≠ scanHeader[0]? := by
  have hall : ∀ i < scanHeader.length, 0 < i → scanHeader[i]? ≠ scanHeader[0]? := by decide
  exact hall i hlt hi

theorem Protocol.answer (h : Protocol s) (howes : s.lidar.owesHeader = true) :
    Protocol { s with
      lidar := { s.lidar with owesHeader := false }
      sent := s.sent ++ scanHeader
      opened := some s.sent.length } where
  exclusive := by
    apply h.exclusive.move (q := .owed) (r := .header s.sent.length) howes
    intro x hx
    cases x with
    | header p =>
        obtain ⟨hocc, hread⟩ := hx
        rcases hocc.of_append_self scanHeader_first (by decide) with hold | rfl
        · exact Or.inr ⟨nofun, hold, hread⟩
        · exact Or.inl rfl
    | owed => cases hx
    | shell | scan | event | master => exact Or.inr ⟨nofun, hx⟩
  reading := h.reading.append scanHeader
  outputs := h.outputs
  wakeup := h.wakeup
  completed := h.completed

theorem Protocol.byte {b : UInt8} (h : Protocol s) (hC : HeaderOnlyInAnswer s (.byte b)) :
    Protocol { s with sent := s.sent ++ [b] } where
  exclusive := by
    apply h.exclusive.frame
    intro x hx
    cases x with
    | header p => exact ⟨hx.1.of_concat hC, hx.2⟩
    | shell | owed | scan | event | master => exact hx
  reading := h.reading.append [b]
  outputs := h.outputs
  wakeup := h.wakeup
  completed := h.completed

/-! ## The parser's steps -/

theorem Outputs.cons {e : Effect} {out : List Effect} {parser : Slam.Parser}
    (h : Outputs (e :: out) parser) :
    (e = .putchar 0xA5 ∧ out = [.putchar 0x65, .eventSend]) ∨
      (e = .putchar 0x65 ∧ out = [.eventSend]) ∨ (e = .eventSend ∧ out = []) :=
  Slam.stopAndSend_suffix_cons h.suffix

theorem Outputs.tail {e : Effect} {out : List Effect} {parser : Slam.Parser}
    (h : Outputs (e :: out) parser) : Outputs out parser where
  suffix := (List.suffix_cons e out).trans h.suffix
  hunting := fun _ => h.hunting nofun

/-- A byte other than the second of a start request brings no token to the lidar. -/
theorem Lidar.receive_owesHeader_of_ne (l : Lidar) {b : UInt8} (hb : b ≠ 0x60) :
    (l.receive b).owesHeader = l.owesHeader := by
  rw [Lidar.receive_owesHeader, Lidar.starts, decide_eq_false hb, Bool.and_false, Bool.false_or]

theorem Protocol.putStop {b : UInt8} {out : List Effect} {stopSent : Bool} (h : Protocol s)
    (hout : s.out = .putchar b :: out) :
    Protocol { s.putchar b with out := out, stopSent := stopSent } := by
  have houtputs := h.outputs
  rw [hout] at houtputs
  have hb : b ≠ 0x60 ∧ out ≠ [] := by
    rcases houtputs.cons with ⟨he, rfl⟩ | ⟨he, rfl⟩ | ⟨he, -⟩ <;> cases he
    · exact ⟨by decide, List.cons_ne_nil _ _⟩
    · exact ⟨by decide, List.cons_ne_nil _ _⟩
  obtain ⟨hb, hne⟩ := hb
  have hold : s.out ≠ [] := by
    rw [hout]
    exact List.cons_ne_nil _ _
  refine ⟨h.exclusive.frame fun x hx => ?_, h.reading, houtputs.tail, h.wakeup, ?_⟩
  · cases x with
    | owed => exact (s.lidar.receive_owesHeader_of_ne hb).symm.trans hx
    | scan => exact Or.inr hold
    | shell | header | event | master => exact hx
  · have hcompleted := h.completed
    rw [System.pending, if_neg hold] at hcompleted
    exact hcompleted.trans (by rw [System.pending, if_neg hne]; rfl)

theorem System.eventSend_waiting (h : s.controlEvent = ⟨0, some 1⟩) :
    s.eventSend =
      { s with
        controlEvent := ⟨0, none⟩
        window := true
        master := .received 1
        receptions := s.receptions + 1 } := by
  have hsend : s.controlEvent.send controlEventEaix4 = (⟨0, none⟩, some 1) := by
    rw [h]
    decide
  rw [System.eventSend, hsend]

theorem System.eventSend_running (h : s.controlEvent = ⟨0, none⟩) :
    s.eventSend = { s with controlEvent := ⟨1, none⟩, window := true } := by
  have hsend : s.controlEvent.send controlEventEaix4 = (⟨1, none⟩, none) := by
    rw [h]
    decide
  rw [System.eventSend, hsend]

theorem Protocol.eventSend {out : List Effect} (h : Protocol s)
    (hout : s.out = .eventSend :: out) : Protocol { s.eventSend with out := out } := by
  have houtputs := h.outputs
  rw [hout] at houtputs
  obtain rfl : out = [] := by
    rcases houtputs.cons with ⟨he, -⟩ | ⟨he, -⟩ | ⟨-, hnil⟩
    · cases he
    · cases he
    · exact hnil
  have hold : s.out ≠ [] := by
    rw [hout]
    exact List.cons_ne_nil _ _
  have hscan : s.TokenAt .scan := Or.inr hold
  have hhunting := h.outputs.hunting hold
  have hset : s.controlEvent.set = 0 := h.exclusive.set_eq_zero hscan
  have hcompleted := h.completed
  rw [System.pending, if_neg hold, if_pos hset] at hcompleted
  have hnoscan : ¬ (s.parser.inManip = true ∨ ([] : List Effect) ≠ []) := by
    rw [hhunting]
    decide
  by_cases hwaiting : s.master = .waiting
  · have hevent : s.controlEvent = ⟨0, some 1⟩ := by
      rw [← hset, ← (h.wakeup.waiter.trans (if_pos hwaiting))]
    rw [System.eventSend_waiting hevent]
    refine ⟨h.exclusive.move (q := .scan) (r := .master) hscan fun x hx => ?_, h.reading,
      houtputs.tail, ⟨Or.inl rfl, rfl, fun e he => (MasterPc.received.inj he).symm, nofun,
        fun _ => Or.inr rfl⟩, hcompleted⟩
    cases x with
    | scan => exact absurd hx hnoscan
    | event => exact absurd rfl hx
    | master => exact Or.inl rfl
    | shell | owed | header => exact Or.inr ⟨nofun, hx⟩
  · have hevent : s.controlEvent = ⟨0, none⟩ := by
      rw [← hset, ← (h.wakeup.waiter.trans (if_neg hwaiting))]
    rw [System.eventSend_running hevent]
    refine ⟨h.exclusive.move (q := .scan) (r := .event) hscan fun x hx => ?_, h.reading,
      houtputs.tail, ⟨Or.inr rfl, (if_neg hwaiting).symm, h.wakeup.received, h.wakeup.act,
        fun _ => Or.inl (show (1 : UInt32) ≠ 0 by decide)⟩, hcompleted⟩
    cases x with
    | scan => exact absurd hx hnoscan
    | event => exact Or.inl rfl
    | shell | owed | header | master => exact Or.inr ⟨nofun, hx⟩

theorem System.enters_of_tokenAt_scan {q : Slam.GetDatePc} {b : UInt8}
    (hpc : s.parser.pc = .getDate q) (h : (s.take b).TokenAt .scan) :
    ∃ m, Slam.eaiX4GetDate q b = .manip m := by
  have hstep := Slam.step_getDate hpc b
  rcases h with hin | hout
  · rw [System.take, hstep, Slam.Parser.inManip] at hin
    split at hin
    · exact ⟨_, by assumption⟩
    · cases hin
  · rw [System.take, hstep] at hout
    exact absurd rfl hout

/-- Only the last byte of a header takes the parser into `manipulationData`. -/
theorem System.Exclusive.take {b : UInt8} (h : s.Exclusive)
    (hreading : Reading s.sent s.nread s.parser.pc) (hb : s.sent[s.nread]? = some b) :
    (s.take b).Exclusive := by
  have hread : ∀ p, (s.take b).TokenAt (.header p) → s.TokenAt (.header p) :=
    fun p hx => ⟨hx.1, Nat.lt_of_succ_lt hx.2⟩
  cases hin : s.parser.inManip with
  | true =>
      apply h.frame
      intro x hx
      cases x with
      | header p => exact hread p hx
      | scan => exact Or.inl hin
      | shell | owed | event | master => exact hx
  | false =>
      obtain ⟨q, hpc⟩ := Slam.Parser.getDate_of_not_inManip hin
      cases hnext : Slam.eaiX4GetDate q b with
      | getDate q' =>
          apply h.frame
          intro x hx
          cases x with
          | header p => exact hread p hx
          | scan =>
              obtain ⟨m, hm⟩ := System.enters_of_tokenAt_scan hpc hx
              cases hnext.symm.trans hm
          | shell | owed | event | master => exact hx
      | manip m =>
          obtain ⟨got, rfl, hgot⟩ := Slam.eaiX4GetDate_enters hnext
          rw [hpc] at hreading
          obtain ⟨p, hocc, hend⟩ := hreading.header_end hb hgot
          have htoken : s.TokenAt (.header p) := ⟨hocc, Nat.lt_of_succ_le hend.le⟩
          apply h.move (r := .scan) htoken
          intro x hx
          cases x with
          | scan => exact Or.inl rfl
          | header p' =>
              refine Or.inr ⟨?_, hread p' hx⟩
              rintro ⟨rfl⟩
              exact absurd hx.2 (Nat.not_lt.mpr hend.ge)
          | shell | owed | event | master => exact Or.inr ⟨nofun, hx⟩

/-- A byte completes no scan and leaves nothing to send, or completes one. -/
theorem System.take_cases (s : System) (b : UInt8) :
    ((s.take b).out = [] ∧ (s.take b).completed = s.completed) ∨
      ((s.take b).out = stopAndSend ∧ (s.take b).completed = s.completed + 1 ∧
        (s.take b).parser.pc = .getDate .head ∧ s.parser.inManip = true) := by
  have hevent : (s.take b).completed =
      if (s.take b).out.any Effect.isEvent then s.completed + 1 else s.completed := by
    simp only [System.take, ← Slam.any_isEvent_eq]
  have hnone : (s.take b).out = [] →
      (s.take b).out = [] ∧ (s.take b).completed = s.completed := by
    intro hout
    rw [hout] at hevent
    exact ⟨hout, hevent⟩
  cases hpc : s.parser.pc with
  | getDate q =>
      left
      apply hnone
      rw [System.take, Slam.step_getDate hpc]
      rfl
  | manip q =>
      have hstep := Slam.step_manip hpc b
      rcases Slam.manipulationData_outputs q s.parser b with hout | ⟨hout, hhead⟩
      · left
        apply hnone
        rw [System.take, hstep]
        exact hout
      · right
        rw [← hstep] at hout hhead
        have hout' : (s.take b).out = stopAndSend := hout
        rw [hout'] at hevent
        refine ⟨hout', hevent, hhead, ?_⟩
        rw [Slam.Parser.inManip, hpc]

theorem Protocol.take {b : UInt8} (h : Protocol s) (hout : s.out = [])
    (hb : s.sent[s.nread]? = some b) : Protocol (s.take b) := by
  have hexclusive := h.exclusive.take h.reading hb
  have hcompleted := h.completed
  rw [System.pending, if_pos hout, Nat.zero_add] at hcompleted
  rcases s.take_cases b with ⟨hnone, hcount⟩ | ⟨hstop, hcount, hhead, hin⟩
  · refine ⟨hexclusive, h.reading.take hb, ⟨?_, fun hne => absurd hnone hne⟩, h.wakeup, ?_⟩
    · rw [hnone]
      exact List.nil_suffix
    · rw [System.pending, if_pos hnone, Nat.zero_add, hcount]
      exact hcompleted
  · have hset : s.controlEvent.set = 0 := h.exclusive.set_eq_zero (Or.inl hin)
    have hnot : (s.take b).parser.inManip = false := by
      rw [Slam.Parser.inManip, hhead]
    have houtputs : Outputs (s.take b).out (s.take b).parser := by
      rw [hstop]
      exact ⟨List.suffix_refl _, fun _ => hnot⟩
    have hne : (s.take b).out ≠ [] := by
      rw [hstop]
      exact List.cons_ne_nil _ _
    refine ⟨hexclusive, h.reading.take hb, houtputs, h.wakeup, ?_⟩
    rw [if_pos hset] at hcompleted
    rw [System.pending, if_neg hne, hcount, hcompleted,
      if_pos (show (s.take b).controlEvent.set = 0 from hset)]
    rfl

theorem Protocol.parser (h : Protocol s) (hnext : s.stepParser = some s') : Protocol s' := by
  unfold System.stepParser at hnext
  split at hnext
  case h_1 e out hout =>
    obtain rfl := Option.some.inj hnext
    have houtputs := h.outputs
    rw [hout] at houtputs
    -- nothing but the stop and the event is ever left to send
    rcases houtputs.cons with ⟨rfl, -⟩ | ⟨rfl, -⟩ | ⟨rfl, -⟩
    · exact h.putStop hout
    · exact h.putStop hout
    · exact h.eventSend hout
  case h_2 hout =>
    obtain ⟨b, hb, rfl⟩ := Option.map_eq_some_iff.mp hnext
    exact h.take hout hb

/-! ## The master thread's steps -/

/-- A step inside the master thread's round, or outside it. -/
theorem Protocol.masterMoves {m m' : MasterPc} {locals : Master.Locals} (h : Protocol s)
    (hmaster : s.master = m) (hbusy : m'.busy = m.busy) (hold : m ≠ .waiting)
    (hnew : m' ≠ .waiting) (hreceived : ∀ e, m' ≠ .received e)
    (hact : ∀ todo, m' = .act todo → .scan ∈ todo) :
    Protocol { s with master := m', locals := locals } where
  exclusive := by
    apply h.exclusive.frame
    intro x hx
    cases x with
    | master =>
        rw [System.TokenAt, hmaster, ← hbusy]
        exact hx
    | shell | owed | header | scan | event => exact hx
  reading := h.reading
  outputs := h.outputs
  wakeup := by
    refine ⟨h.wakeup.set, ?_, fun e he => absurd he (hreceived e), hact, fun hwindow => ?_⟩
    · rw [if_neg hnew]
      exact h.wakeup.waiter.trans (if_neg (by rw [hmaster]; exact hold))
    · rw [hbusy, ← hmaster]
      exact h.wakeup.window hwindow
  completed := h.completed

/-- The event is received. -/
theorem Protocol.receive (h : Protocol s) (hset : s.controlEvent.set = 1) :
    Protocol { s with
      controlEvent := ⟨0, none⟩, master := .received 1, receptions := s.receptions + 1 } := by
  have hevent : s.TokenAt .event := by
    rw [System.TokenAt, hset]
    decide
  refine ⟨h.exclusive.move (q := .event) (r := .master) hevent fun x hx => ?_, h.reading,
    h.outputs, ⟨Or.inl rfl, rfl, fun e he => (MasterPc.received.inj he).symm, nofun,
      fun _ => Or.inr rfl⟩, ?_⟩
  · cases x with
    | event => exact absurd rfl hx
    | master => exact Or.inl rfl
    | shell | owed | header | scan => exact Or.inr ⟨nofun, hx⟩
  · have hcompleted := h.completed
    rw [System.pending, if_neg hevent] at hcompleted
    rw [System.pending, if_pos rfl]
    dsimp only
    omega

/-- The master thread is suspended. -/
theorem Protocol.suspend (h : Protocol s) (hmaster : s.master = .recv)
    (hset : s.controlEvent.set = 0) :
    Protocol { s with controlEvent := ⟨0, some 1⟩, master := .waiting } where
  exclusive := by
    apply h.exclusive.frame
    intro x hx
    cases x with
    | event => exact absurd rfl hx
    | master => cases hx
    | shell | owed | header | scan => exact hx
  reading := h.reading
  outputs := h.outputs
  wakeup := by
    refine ⟨Or.inl rfl, rfl, nofun, nofun, fun hwindow => ?_⟩
    rcases h.wakeup.window hwindow with hne | hbusy
    · exact absurd hset hne
    · rw [hmaster] at hbusy
      cases hbusy
  completed := by
    have hcompleted := h.completed
    rw [System.pending, if_pos hset] at hcompleted
    exact hcompleted

/-- A byte of the car's own start requests other than the last one. -/
theorem Protocol.putFirst {b : UInt8} (h : Protocol s) (hb : b ≠ 0x60) :
    Protocol (s.putchar b) where
  exclusive := by
    apply h.exclusive.frame
    intro x hx
    cases x with
    | owed => exact (s.lidar.receive_owesHeader_of_ne hb).symm.trans hx
    | shell | header | scan | event | master => exact hx
  reading := h.reading
  outputs := h.outputs
  wakeup := h.wakeup
  completed := h.completed

theorem Protocol.request (h : Protocol s) (hmaster : s.master = .request .second) :
    Protocol { s.putchar 0x60 with master := .request .done, window := false } where
  exclusive := by
    have htoken : s.TokenAt .master := by
      rw [System.TokenAt, hmaster]
      rfl
    apply h.exclusive.move (q := .master) (r := .owed) htoken
    intro x hx
    cases x with
    | owed => exact Or.inl rfl
    | master => cases hx
    | shell | header | scan | event => exact Or.inr ⟨nofun, hx⟩
  reading := h.reading
  outputs := h.outputs
  wakeup := by
    refine ⟨h.wakeup.set, ?_, nofun, nofun, nofun⟩
    exact h.wakeup.waiter.trans (if_neg (by rw [hmaster]; nofun))
  completed := h.completed

theorem Protocol.master (h : Protocol s) (hnext : s.stepMaster = some s') : Protocol s' := by
  unfold System.stepMaster at hnext
  split at hnext
  case h_1 hmaster =>
    have hwaiter : s.controlEvent.waiter = none :=
      h.wakeup.waiter.trans (if_neg (by rw [hmaster]; nofun))
    rcases h.wakeup.set with hset | hset
    · have hrecv : s.controlEvent.recv controlEventEaix4 = (⟨0, some 1⟩, none) := by
        rw [show s.controlEvent = ⟨0, none⟩ by rw [← hset, ← hwaiter]]
        decide
      rw [hrecv] at hnext
      obtain rfl := Option.some.inj hnext
      exact h.suspend hmaster hset
    · have hrecv : s.controlEvent.recv controlEventEaix4 = (⟨0, none⟩, some 1) := by
        rw [show s.controlEvent = ⟨1, none⟩ by rw [← hset, ← hwaiter]]
        decide
      rw [hrecv] at hnext
      obtain rfl := Option.some.inj hnext
      exact h.receive hset
  case h_2 => cases hnext
  case h_3 e hmaster =>
    obtain rfl := Option.some.inj hnext
    obtain rfl := h.wakeup.received e hmaster
    have hloop : Protocol { s with master := .loop 1 0, locals := s.locals } :=
      h.masterMoves hmaster rfl nofun nofun nofun nofun
    exact hloop
  case h_4 i x hmaster =>
    split_ifs at hnext
    · obtain rfl := Option.some.inj hnext
      exact h.masterMoves hmaster rfl nofun nofun nofun nofun
    · obtain rfl := Option.some.inj hnext
      exact h.masterMoves hmaster rfl nofun nofun nofun nofun
    · obtain rfl := Option.some.inj hnext
      refine h.masterMoves hmaster rfl nofun nofun nofun fun todo htodo => ?_
      obtain rfl := MasterPc.act.inj htodo
      exact Master.scan_mem_react s.locals
  case h_5 todo hmaster =>
    obtain rfl := Option.some.inj hnext
    exact h.masterMoves hmaster rfl nofun nofun nofun nofun
  case h_6 a todo hne hmaster =>
    obtain rfl := Option.some.inj hnext
    refine h.masterMoves hmaster rfl nofun nofun nofun fun todo' htodo => ?_
    obtain rfl := MasterPc.act.inj htodo
    have hscan : .scan ∈ a :: todo := h.wakeup.act _ hmaster
    exact (List.mem_cons.mp hscan).resolve_left fun ha => hne ha.symm
  case h_7 hmaster => cases h.wakeup.act [] hmaster
  case h_8 hmaster =>
    obtain rfl := Option.some.inj hnext
    have hput := h.putFirst (b := 0xA5) (by decide)
    exact hput.masterMoves hmaster rfl nofun nofun nofun nofun
  case h_9 hmaster =>
    obtain rfl := Option.some.inj hnext
    exact h.request hmaster
  case h_10 hmaster =>
    obtain rfl := Option.some.inj hnext
    exact h.masterMoves hmaster rfl nofun nofun nofun nofun

/-! ## The shell's start request -/

theorem Protocol.shell (h : Protocol s) (hnext : s.stepShell = some s') : Protocol s' := by
  unfold System.stepShell at hnext
  split at hnext
  · next hshell =>
      obtain rfl := Option.some.inj hnext
      have hput := h.putFirst (b := 0xA5) (by decide)
      refine ⟨hput.exclusive.frame fun x hx => ?_, hput.reading, hput.outputs, hput.wakeup,
        hput.completed⟩
      cases x with
      | shell =>
          have hfirst : s.shell ≠ .done := by
            rw [hshell]
            nofun
          exact hfirst
      | owed | header | scan | event | master => exact hx
  · next hshell =>
      obtain rfl := Option.some.inj hnext
      have htoken : s.TokenAt .shell := by
        rw [System.TokenAt, hshell]
        nofun
      refine ⟨h.exclusive.move (q := .shell) (r := .owed) htoken fun x hx => ?_, h.reading,
        h.outputs, h.wakeup, h.completed⟩
      cases x with
      | owed => exact Or.inl rfl
      | shell => exact absurd rfl hx
      | header | scan | event | master => exact Or.inr ⟨nofun, hx⟩
  · cases hnext

/-! ## Runs -/

theorem Protocol.step {a : Label} (h : Protocol s) (hC : HeaderOnlyInAnswer s a)
    (hnext : s.next a = some s') : Protocol s' := by
  cases a with
  | answer =>
      obtain ⟨howes, hs'⟩ := Option.ite_none_right_eq_some.mp hnext
      obtain rfl := Option.some.inj hs'
      exact h.answer howes
  | byte b =>
      obtain rfl := Option.some.inj hnext
      exact h.byte hC
  | parser => exact h.parser hnext
  | master => exact h.master hnext
  | shell => exact h.shell hnext

/-- What the parser thread does in a step. -/
def System.effects (s : System) : Label → List Effect
  | .parser =>
    match s.out, s.sent[s.nread]? with
    | e :: _, _ => [e]
    | [], some b => (Slam.step s.parser b).2
    | [], none => []
  | _ => []

theorem System.getDate_of_not_inManip (h : ¬ s.InManip) :
    s.out = [] ∧ ∃ q, s.parser.pc = .getDate q := by
  constructor
  · by_contra hne
    exact h (Or.inr hne)
  · apply Slam.Parser.getDate_of_not_inManip
    exact Bool.eq_false_iff.mpr fun hin => h (Or.inl hin)

/-- Outside `manipulationData` the parser thread has no effects. -/
theorem System.effects_of_not_inManip {a : Label} (h : ¬ s.InManip) : s.effects a = [] := by
  obtain ⟨hout, q, hpc⟩ := System.getDate_of_not_inManip h
  cases a with
  | parser =>
      rw [System.effects, hout]
      cases s.sent[s.nread]? with
      | none => rfl
      | some b => exact congrArg Prod.snd (Slam.step_getDate hpc b)
  | answer | byte _ | master | shell => rfl

/-- Outside `manipulationData` no step changes `around`. -/
theorem System.around_of_not_inManip {a : Label} (h : ¬ s.InManip) (hnext : s.next a = some s') :
    s'.parser.around = s.parser.around := by
  cases a with
  | answer =>
      obtain ⟨-, hs'⟩ := Option.ite_none_right_eq_some.mp hnext
      obtain rfl := Option.some.inj hs'
      rfl
  | byte b =>
      obtain rfl := Option.some.inj hnext
      rfl
  | parser =>
      obtain ⟨hout, q, hpc⟩ := System.getDate_of_not_inManip h
      have htake : s.stepParser = s.sent[s.nread]?.map s.take := by
        rw [System.stepParser, hout]
      obtain ⟨b, -, rfl⟩ := Option.map_eq_some_iff.mp (htake.symm.trans hnext)
      rw [System.take, Slam.step_getDate hpc]
  | master => rcases System.stepMaster_cases hnext with ⟨_, _, _, _, rfl⟩ | ⟨_, _, _, rfl⟩ <;> rfl
  | shell =>
      obtain ⟨_, _, rfl⟩ := System.stepShell_cases hnext
      rfl

theorem protocol_of_reach {swing : Int32}
    (h : Reach System.next HeaderOnlyInAnswer (.init swing) s) : Protocol s :=
  h.invariant (Protocol.init swing) fun hi hC hnext => hi.step hC hnext

theorem Protocol.not_inManip (h : Protocol s) (hwindow : s.window = true) : ¬ s.InManip := by
  intro hin
  rcases h.wakeup.window hwindow with hset | hbusy
  · exact hset (h.exclusive.set_eq_zero hin)
  · have heq := h.exclusive (x := .scan) hin (y := .master) hbusy
    cases heq

/-- Whatever the order of the steps, no entry of `around` is written from the
parser thread's `rt_event_send` to the master thread's next start request, and
each completed scan is received once, but for one that may be pending. -/
theorem scan_handed_off {swing : Int32} {s : System}
    (h : Reach System.next HeaderOnlyInAnswer (.init swing) s) :
    (s.window = true → ∀ a s', s.next a = some s' →
        (∀ e ∈ s.effects a, e.turn = none) ∧ s'.parser.around = s.parser.around) ∧
      s.completed = s.receptions + s.pending ∧ s.pending ≤ 1 := by
  have hprotocol := protocol_of_reach h
  refine ⟨fun hwindow a s' hnext => ?_, hprotocol.completed, hprotocol.exclusive.pending_le⟩
  have hout := hprotocol.not_inManip hwindow
  refine ⟨fun e he => ?_, System.around_of_not_inManip hout hnext⟩
  rw [System.effects_of_not_inManip hout] at he
  cases he

instance (s : System) : (a : Label) → Decidable (HeaderOnlyInAnswer s a)
  | .byte b => inferInstanceAs (Decidable (¬ scanHeader <:+ s.sent ++ [b]))
  | .answer | .parser | .master | .shell => isTrue trivial

/-- The master thread waits for the event of a scan of empty turns, which the
parser thread sends with one more byte unread. -/
def handOver : List Label :=
  [.master, .shell, .shell, .answer] ++
    ((List.replicate 6 (startBytes 0x01)).flatten ++ [0xAA, 0x55, 0x01, 0x00]).map .byte ++
      List.replicate 85 .parser

theorem scan_handed_off_handOver :
    ∃ s s', Reach System.next HeaderOnlyInAnswer (.init 0) s ∧ s.window = true ∧
      s.completed = 1 ∧ s.next .parser = some s' ∧ s'.parser.around = s.parser.around ∧
        s.completed = s.receptions + s.pending ∧ s.pending ≤ 1 := by
  have hrun : (Transition.exec System.next HeaderOnlyInAnswer (.init 0) handOver).any
      (fun s => s.window ∧ s.completed = 1 ∧ (s.next .parser).isSome) = true := by
    decide +kernel
  obtain ⟨s, hreach, htest⟩ := Transition.exists_reach_of_exec hrun
  obtain ⟨hwindow, hcompleted, hsome⟩ := of_decide_eq_true htest
  obtain ⟨s', hnext⟩ := Option.isSome_iff_exists.mp hsome
  obtain ⟨huntouched, hcount⟩ := scan_handed_off hreach
  have haround := (huntouched hwindow .parser s' hnext).2
  exact ⟨s, s', hreach, hwindow, hcompleted, hnext, haround, hcount⟩

end Scan
