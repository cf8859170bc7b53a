-- SUMMARY: Event sets that any number of threads wait for, with every option of `rt_event_recv`.
import LidarCar.Base.Transition
import LidarCar.Kernel.Contention

/-!
# Waiting for events

`rt_event_send` sets events and goes through the threads that wait, resuming each
whose condition is satisfied; a thread that clears what it receives takes it from
those behind it. Each of the functions changes the event with interrupts
disabled, so each is one step, and so is a time-out.
-/

namespace Kernel

open Transition (Reach)

variable {θ : Type*} [DecidableEq θ]

/-! ## Sets of events -/

/-- Event `i` of a set. -/
def bit (set : UInt32) (i : Nat) : Bool :=
  set.toBitVec.getLsbD i

theorem bit_or (x y : UInt32) (i : Nat) : bit (x ||| y) i = (bit x i || bit y i) := by
  simp [bit]

theorem bit_and (x y : UInt32) (i : Nat) : bit (x &&& y) i = (bit x i && bit y i) := by
  simp [bit]

theorem bit_diff (x y : UInt32) (i : Nat) : bit (x &&& ~~~y) i = (bit x i && !bit y i) := by
  by_cases hi : i < 32
  · simp [bit, hi]
  · have hx : x.toBitVec.getLsbD i = false := BitVec.getLsbD_of_ge _ _ (Nat.le_of_not_lt hi)
    simp [bit, hx]

theorem eq_of_bit {x y : UInt32} (h : ∀ i, bit x i = bit y i) : x = y :=
  UInt32.toBitVec_inj.mp (BitVec.eq_of_getLsbD_eq fun i _ => h i)

theorem bit_zero (i : Nat) : bit 0 i = false := by
  simp [bit]

/-- How many of the sets have event `i`. -/
def tally (sets : List UInt32) (i : Nat) : Nat :=
  sets.countP (bit · i)

theorem tally_cons (set : UInt32) (sets : List UInt32) (i : Nat) :
    tally (set :: sets) i = tally sets i + (bit set i).toNat := by
  cases h : bit set i <;> simp [tally, h]

/-! ## The functions -/

/-- The options of `rt_event_recv`. -/
structure EventFlag where
  /-- `RT_EVENT_FLAG_AND` -/
  and : Bool
  /-- `RT_EVENT_FLAG_OR` -/
  or : Bool
  /-- `RT_EVENT_FLAG_CLEAR` -/
  clear : Bool
  deriving DecidableEq, Repr

/-- The events `set` satisfy a thread that waits for `wanted`. Without the options
AND and OR, which the assertion asks for, none do. -/
def EventFlag.met (option : EventFlag) (wanted set : UInt32) : Bool :=
  if option.and then wanted &&& set == wanted
  else if option.or then wanted &&& set != 0
  else false

/-- What the thread receives then. -/
def EventFlag.received (option : EventFlag) (wanted set : UInt32) : UInt32 :=
  if option.and then wanted else wanted &&& set

/-- An event and the threads that wait for it. -/
structure Events (θ : Type*) where
  set : UInt32
  flag : IpcFlag
  suspendThread : List θ
  currentPriority : θ → UInt8
  eventSet : θ → UInt32
  eventInfo : θ → EventFlag
  phase : θ → Phase
  /-- History: what the thread asked for. -/
  asked : θ → UInt32
  /-- History: the events that were sent while they were not set. -/
  raised : List UInt32
  /-- History: the events that were cleared by a thread that received them. -/
  taken : List UInt32
  /-- History: the events that were set when the event was reset. -/
  dropped : List UInt32

/-- `rt_event_send` resumes `t`, which receives `got`. -/
def Events.resume (s : Events θ) (t : θ) (got : UInt32) : Events θ :=
  { s with
    set := if (s.eventInfo t).clear then s.set &&& ~~~got else s.set
    suspendThread := s.suspendThread.erase t
    eventSet := Function.update s.eventSet t got
    phase := Function.update s.phase t (.resumed .eok)
    taken := if (s.eventInfo t).clear then got :: s.taken else s.taken }

/-- `rt_event_send` looks at `t`. -/
def Events.offer (s : Events θ) (t : θ) : Events θ :=
  if (s.eventInfo t).met (s.eventSet t) s.set then
    s.resume t ((s.eventInfo t).received (s.eventSet t) s.set)
  else s

/-- `rt_event_send(event, set)` -/
def Events.send (s : Events θ) (set : UInt32) : Events θ × Err :=
  if set = 0 then (s, .error)
  else
    let s' := { s with set := s.set ||| set, raised := (set &&& ~~~s.set) :: s.raised }
    (s'.suspendThread.foldl Events.offer s', .eok)

/-- `rt_event_recv(event, set, option, timeout, recved)` in `t`: what it returns, or
the thread is suspended. -/
def Events.recv (s : Events θ) (t : θ) (set : UInt32) (option : EventFlag) (timeout : Int32) :
    Events θ × Option (Err × UInt32) :=
  if set = 0 then (s, some (.error, 0))
  else if option.met set s.set then
    let got := s.set &&& set
    if option.clear then
      ({ s with set := s.set &&& ~~~set, taken := got :: s.taken }, some (.eok, got))
    else (s, some (.eok, got))
  else if timeout = 0 then (s, some (.etimeout, 0))
  else
    ({ s with
      eventSet := Function.update s.eventSet t set
      eventInfo := Function.update s.eventInfo t option
      suspendThread := ipcListSuspend s.flag s.currentPriority s.suspendThread t
      phase := Function.update s.phase t (.suspended timeout)
      asked := Function.update s.asked t set }, none)

/-- `rt_ipc_list_resume_all` resumes `t`. -/
def Events.release (s : Events θ) (t : θ) : Events θ :=
  { s with
    suspendThread := s.suspendThread.erase t
    phase := Function.update s.phase t (.resumed .error) }

/-- `rt_event_control` with `RT_IPC_CMD_RESET`. -/
def Events.reset (s : Events θ) : Events θ :=
  let s' := s.suspendThread.foldl Events.release s
  { s' with set := 0, dropped := s'.set :: s'.dropped }

inductive Events.Label (θ : Type*) where
  | send (set : UInt32)
  | recv (t : θ) (set : UInt32) (option : EventFlag) (timeout : Int32)
  /-- `rt_event_recv` returns in a thread that was suspended. -/
  | back (t : θ)
  /-- `rt_thread_timeout` -/
  | timeout (t : θ)
  | reset

def Events.next (s : Events θ) : Events.Label θ → Option (Events θ)
  | .send set => some (s.send set).1
  | .recv t set option timeout =>
    if s.phase t = .running then some (s.recv t set option timeout).1 else none
  | .back t =>
    match s.phase t with
    | .resumed _ => some { s with phase := Function.update s.phase t .running }
    | _ => none
  | .timeout t =>
    match s.phase t with
    | .suspended time =>
      if time > 0 then
        some { s with
          suspendThread := s.suspendThread.erase t
          phase := Function.update s.phase t (.resumed .etimeout) }
      else none
    | _ => none
  | .reset => some s.reset

/-- After `rt_event_init`. -/
def Events.init (flag : IpcFlag) (priority : θ → UInt8) : Events θ where
  set := 0
  flag := flag
  suspendThread := []
  currentPriority := priority
  eventSet := fun _ => 0
  eventInfo := fun _ => ⟨false, false, false⟩
  phase := fun _ => .running
  asked := fun _ => 0
  raised := []
  taken := []
  dropped := []

/-! ## The invariant -/

/-- Each event that was raised is set, or was taken by one thread, or dropped. -/
def Events.Balanced (s : Events θ) : Prop :=
  ∀ i, tally s.raised i = tally s.taken i + tally s.dropped i + (bit s.set i).toNat

/-- What a thread received was asked for: some of it, or all with the option AND. -/
def Events.Served (s : Events θ) (t : θ) : Prop :=
  s.eventSet t ≠ 0 ∧ s.eventSet t &&& s.asked t = s.eventSet t ∧
    ((s.eventInfo t).and = true → s.eventSet t = s.asked t)

/-- The threads in `list` are still to be looked at. -/
structure Events.Keeps (s : Events θ) (list : List θ) : Prop where
  nodup : s.suspendThread.Nodup
  mem : ∀ t, t ∈ s.suspendThread ↔ ∃ time, s.phase t = .suspended time
  asked : ∀ t ∈ s.suspendThread, s.eventSet t = s.asked t ∧ s.asked t ≠ 0
  /-- No thread waits for what is there. -/
  unmet : ∀ t ∈ s.suspendThread, t ∉ list → (s.eventInfo t).met (s.eventSet t) s.set = false
  served : ∀ t, s.phase t = .resumed .eok → s.Served t
  balanced : s.Balanced

/-! ## Conditions -/

theorem and_eq_self_iff {x y : UInt32} : x &&& y = x ↔ ∀ i, bit x i = true → bit y i = true := by
  constructor
  · intro h i hi
    rw [← h, bit_and, Bool.and_eq_true] at hi
    exact hi.2
  · intro h
    refine eq_of_bit fun i => ?_
    rw [bit_and]
    cases hi : bit x i with
    | false => rfl
    | true => exact h i hi

theorem and_eq_zero_iff {x y : UInt32} : x &&& y = 0 ↔ ∀ i, bit x i = true → bit y i = false := by
  constructor
  · intro h i hi
    have hbit := congrArg (bit · i) h
    simpa only [bit_and, bit_zero, hi, Bool.true_and] using hbit
  · intro h
    refine eq_of_bit fun i => ?_
    rw [bit_and, bit_zero]
    cases hi : bit x i with
    | false => rfl
    | true => exact h i hi

/-- With fewer events set no more conditions are satisfied. -/
theorem EventFlag.met_mono {option : EventFlag} {wanted set set' : UInt32}
    (hsub : ∀ i, bit set' i = true → bit set i = true) (h : option.met wanted set = false) :
    option.met wanted set' = false := by
  unfold EventFlag.met at h ⊢
  split
  · rename_i hand
    rw [if_pos hand, beq_eq_false_iff_ne] at h
    refine beq_eq_false_iff_ne.mpr fun hall => h ?_
    exact and_eq_self_iff.mpr fun i hi => hsub i (and_eq_self_iff.mp hall i hi)
  · rename_i hand
    rw [if_neg hand] at h
    split
    · rename_i hor
      rw [if_pos hor, bne_eq_false_iff_eq] at h
      refine bne_eq_false_iff_eq.mpr (and_eq_zero_iff.mpr fun i hi => ?_)
      exact Bool.eq_false_iff.mpr fun hset =>
        absurd (hsub i hset) (Bool.eq_false_iff.mp (and_eq_zero_iff.mp h i hi))
    · rfl

/-- What is received is set. -/
theorem EventFlag.received_sub {option : EventFlag} {wanted set : UInt32}
    (h : option.met wanted set = true) (i : Nat)
    (hi : bit (option.received wanted set) i = true) : bit set i = true := by
  unfold EventFlag.met at h
  unfold EventFlag.received at hi
  split at h
  · rename_i hand
    rw [if_pos hand] at hi
    exact and_eq_self_iff.mp (beq_iff_eq.mp h) i hi
  · rename_i hand
    rw [if_neg hand, bit_and, Bool.and_eq_true] at hi
    exact hi.2

/-- A thread receives some of what it wants, or all with the option AND. -/
theorem EventFlag.received_spec {option : EventFlag} {wanted set : UInt32} (hwanted : wanted ≠ 0)
    (h : option.met wanted set = true) :
    option.received wanted set ≠ 0 ∧
      option.received wanted set &&& wanted = option.received wanted set ∧
      (option.and = true → option.received wanted set = wanted) := by
  unfold EventFlag.met at h
  unfold EventFlag.received
  split at h
  · rename_i hand
    simp only [if_pos hand]
    exact ⟨hwanted, UInt32.and_self, fun _ => trivial⟩
  · rename_i hand
    simp only [if_neg hand]
    split at h
    · refine ⟨bne_iff_ne.mp h, ?_, fun heq => absurd heq hand⟩
      rw [UInt32.and_comm, ← UInt32.and_assoc, UInt32.and_self]
    · cases h

/-! ## Sending events -/

section Steps

variable {s s' : Events θ} {t : θ} {list : List θ} {l : Events.Label θ}

omit [DecidableEq θ] in
theorem Events.Keeps.init (flag : IpcFlag) (priority : θ → UInt8) :
    (Events.init flag priority).Keeps [] where
  nodup := List.nodup_nil
  mem := fun t => iff_of_false List.not_mem_nil nofun
  asked := nofun
  unmet := nofun
  served := nofun
  balanced := fun i => by simp [Events.init, tally, bit_zero]

/-- Events that are raised are counted once. -/
theorem tally_raise (raised : List UInt32) (set new : UInt32) (i : Nat) :
    tally ((new &&& ~~~set) :: raised) i + (bit set i).toNat =
      tally raised i + (bit (set ||| new) i).toNat := by
  rw [tally_cons, bit_diff, bit_or]
  cases bit set i <;> cases bit new i <;> simp

/-- Events that are taken down are counted once. -/
theorem tally_take (taken : List UInt32) {set got : UInt32}
    (hsub : ∀ i, bit got i = true → bit set i = true) (i : Nat) :
    tally (got :: taken) i + (bit (set &&& ~~~got) i).toNat = tally taken i + (bit set i).toNat := by
  rw [tally_cons, bit_diff]
  have hi := hsub i
  cases hgot : bit got i with
  | false => simp
  | true => simp [hi hgot]

/-- `t` leaves the list and has the phase `phase`. -/
theorem Events.mem_leave (hnodup : s.suspendThread.Nodup)
    (hmem : ∀ u, u ∈ s.suspendThread ↔ ∃ time, s.phase u = .suspended time) {phase : Phase}
    (hphase : ∀ time, phase ≠ .suspended time) (u : θ) :
    u ∈ s.suspendThread.erase t ↔ ∃ time, Function.update s.phase t phase u = .suspended time := by
  rw [hnodup.mem_erase_iff]
  by_cases hne : u = t
  · subst hne
    rw [Function.update_self]
    exact iff_of_false (fun h => h.1 rfl) fun ⟨time, htime⟩ => hphase time htime
  · rw [Function.update_of_ne hne, ← hmem]
    exact and_iff_right hne

theorem Events.bit_resume (t : θ) (got : UInt32) (i : Nat)
    (hi : bit (s.resume t got).set i = true) : bit s.set i = true := by
  simp only [Events.resume] at hi
  split at hi
  · rw [bit_diff, Bool.and_eq_true] at hi
    exact hi.1
  · exact hi

theorem Events.Balanced.resume (h : s.Balanced) {got : UInt32}
    (hgot : ∀ i, bit got i = true → bit s.set i = true) : (s.resume t got).Balanced := by
  intro i
  have hi := h i
  simp only [Events.resume]
  split
  · have htake := tally_take s.taken hgot i
    omega
  · exact hi

theorem Events.Keeps.resume (h : s.Keeps (t :: list)) (ht : t ∈ s.suspendThread)
    (hmet : (s.eventInfo t).met (s.eventSet t) s.set = true) :
    (s.resume t ((s.eventInfo t).received (s.eventSet t) s.set)).Keeps list := by
  have hne : ∀ u ∈ s.suspendThread.erase t, u ≠ t := fun u hu heq =>
    h.nodup.not_mem_erase (heq ▸ hu)
  obtain ⟨hasked, hpos⟩ := h.asked t ht
  constructor
  · exact h.nodup.erase t
  · exact Events.mem_leave h.nodup h.mem nofun
  · intro u hu
    simp only [Events.resume, Function.update_of_ne (hne u hu)]
    exact h.asked u (List.mem_of_mem_erase hu)
  · intro u hu hnot
    refine EventFlag.met_mono (Events.bit_resume t _) ?_
    simp only [Events.resume, Function.update_of_ne (hne u hu)]
    exact h.unmet u (List.mem_of_mem_erase hu)
      (List.not_mem_cons_of_ne_of_not_mem (hne u hu) hnot)
  · intro u hphase
    by_cases heq : u = t
    · subst heq
      simp only [Events.Served, Events.resume, Function.update_self, ← hasked]
      exact EventFlag.received_spec (hasked ▸ hpos) hmet
    · simp only [Events.resume, Function.update_of_ne heq] at hphase
      simp only [Events.Served, Events.resume, Function.update_of_ne heq]
      exact h.served u hphase
  · exact h.balanced.resume (EventFlag.received_sub hmet)

theorem Events.Keeps.offer (h : s.Keeps (t :: list)) (ht : t ∈ s.suspendThread) :
    (s.offer t).Keeps list := by
  unfold Events.offer
  cases hmet : (s.eventInfo t).met (s.eventSet t) s.set with
  | true => exact h.resume ht hmet
  | false =>
      have hunmet : ∀ u ∈ s.suspendThread, u ∉ list →
          (s.eventInfo u).met (s.eventSet u) s.set = false := by
        intro u hu hnot
        by_cases hne : u = t
        · exact hne ▸ hmet
        · exact h.unmet u hu (List.not_mem_cons_of_ne_of_not_mem hne hnot)
      exact { h with unmet := hunmet }

theorem Events.mem_offer {u : θ} (hu : u ∈ s.suspendThread) (hne : u ≠ t) :
    u ∈ (s.offer t).suspendThread := by
  unfold Events.offer
  split
  · exact (List.mem_erase_of_ne hne).mpr hu
  · exact hu

/-- The walk of `rt_event_send` through the threads that wait. -/
theorem Events.Keeps.walk (h : s.Keeps list) (hlist : ∀ t ∈ list, t ∈ s.suspendThread)
    (hnodup : list.Nodup) : (list.foldl Events.offer s).Keeps [] := by
  induction list generalizing s with
  | nil => exact h
  | cons t list ih =>
      obtain ⟨hnot, hrest⟩ := List.nodup_cons.mp hnodup
      obtain ⟨ht, hlater⟩ := List.forall_mem_cons.mp hlist
      refine ih (h.offer ht) (fun u hu => ?_) hrest
      exact Events.mem_offer (hlater u hu) fun heq => hnot (heq ▸ hu)

theorem Events.Keeps.send (h : s.Keeps []) (set : UInt32) : (s.send set).1.Keeps [] := by
  unfold Events.send
  split
  · exact h
  · refine Events.Keeps.walk ?_ (fun t ht => ht) h.nodup
    constructor
    · exact h.nodup
    · exact h.mem
    · exact h.asked
    · exact fun t ht hnot => absurd ht hnot
    · exact h.served
    · intro i
      have hi := h.balanced i
      have hraise := tally_raise s.raised s.set set i
      dsimp only
      omega

/-! ## The other steps -/

theorem Events.Keeps.recv (h : s.Keeps []) (hphase : s.phase t = .running) (set : UInt32)
    (option : EventFlag) (timeout : Int32) : (s.recv t set option timeout).1.Keeps [] := by
  unfold Events.recv
  split
  · exact h
  rename_i hset
  split
  · split
    · have hsub : ∀ i, bit (s.set &&& ~~~set) i = true → bit s.set i = true := by
        intro i hi
        rw [bit_diff, Bool.and_eq_true] at hi
        exact hi.1
      constructor
      · exact h.nodup
      · exact h.mem
      · exact h.asked
      · exact fun u hu hnot => EventFlag.met_mono hsub (h.unmet u hu hnot)
      · exact h.served
      · intro i
        have hi := h.balanced i
        have hgot : ∀ i, bit (s.set &&& set) i = true → bit s.set i = true := by
          intro i hi
          rw [bit_and, Bool.and_eq_true] at hi
          exact hi.1
        have htake := tally_take s.taken hgot i
        have hclear : bit (s.set &&& ~~~set) i = bit (s.set &&& ~~~(s.set &&& set)) i := by
          rw [bit_diff, bit_diff, bit_and]
          cases bit s.set i <;> simp
        simp only [hclear]
        omega
    · exact h
  · rename_i hmet
    split
    · exact h
    · have hnot : t ∉ s.suspendThread := by
        intro hmem
        obtain ⟨time, htime⟩ := (h.mem t).mp hmem
        rw [hphase] at htime
        cases htime
      constructor
      · exact nodup_ipcListSuspend _ _ _ _ hnot h.nodup
      · intro u
        rw [mem_ipcListSuspend]
        by_cases hne : u = t
        · subst hne
          simp
        · simp only [Function.update_of_ne hne, hne, false_or]
          exact h.mem u
      · intro u hu
        by_cases hne : u = t
        · subst hne
          simpa using hset
        · simp only [Function.update_of_ne hne]
          exact h.asked u (((mem_ipcListSuspend _ _ _ _).mp hu).resolve_left hne)
      · intro u hu hlist
        by_cases hne : u = t
        · subst hne
          simpa using hmet
        · simp only [Function.update_of_ne hne]
          exact h.unmet u (((mem_ipcListSuspend _ _ _ _).mp hu).resolve_left hne) hlist
      · intro u hu
        have hne : u ≠ t := by
          intro heq
          subst heq
          simp at hu
        simp only [Function.update_of_ne hne] at hu
        simp only [Events.Served, Function.update_of_ne hne]
        exact h.served u hu
      · exact h.balanced

/-- A thread goes on without having received anything. -/
theorem Events.Keeps.leave (h : s.Keeps []) (t : θ) {phase : Phase}
    (hsuspended : ∀ time, phase ≠ .suspended time) (heok : phase ≠ .resumed .eok) :
    Events.Keeps { s with
      suspendThread := s.suspendThread.erase t
      phase := Function.update s.phase t phase } [] where
  nodup := h.nodup.erase t
  mem := Events.mem_leave h.nodup h.mem hsuspended
  asked := fun u hu => h.asked u (List.mem_of_mem_erase hu)
  unmet := fun u hu => h.unmet u (List.mem_of_mem_erase hu)
  served := fun u hu => by
    have hne : u ≠ t := by
      intro heq
      subst heq
      simp only [Function.update_self] at hu
      exact heok hu
    simp only [Function.update_of_ne hne] at hu
    exact h.served u hu
  balanced := h.balanced

theorem Events.Keeps.release (h : s.Keeps []) (list : List θ) :
    (list.foldl Events.release s).Keeps [] := by
  induction list generalizing s with
  | nil => exact h
  | cons t list ih => exact ih (h.leave t nofun nofun)

theorem Events.Keeps.reset (h : s.Keeps []) : s.reset.Keeps [] where
  nodup := (h.release s.suspendThread).nodup
  mem := (h.release s.suspendThread).mem
  asked := (h.release s.suspendThread).asked
  unmet := fun u hu hnot =>
    EventFlag.met_mono (fun i hi => by simp [Events.reset, bit_zero] at hi)
      ((h.release s.suspendThread).unmet u hu hnot)
  served := (h.release s.suspendThread).served
  balanced := fun i => by
    have hi := (h.release s.suspendThread).balanced i
    simp only [Events.reset, tally_cons, bit_zero, Bool.toNat_false]
    omega

theorem Events.Keeps.step (h : s.Keeps []) (hnext : s.next l = some s') : s'.Keeps [] := by
  cases l with
  | send set =>
      cases hnext
      exact h.send set
  | recv t set option timeout =>
      simp only [Events.next] at hnext
      split at hnext
      · rename_i hphase
        cases hnext
        exact h.recv hphase set option timeout
      · cases hnext
  | back t =>
      simp only [Events.next] at hnext
      split at hnext
      · rename_i err hphase
        cases hnext
        have hnot : t ∉ s.suspendThread := by
          intro hmem
          obtain ⟨time, htime⟩ := (h.mem t).mp hmem
          rw [hphase] at htime
          cases htime
        have hleave : Events.Keeps { s with
            suspendThread := s.suspendThread.erase t
            phase := Function.update s.phase t .running } [] := h.leave t nofun nofun
        rw [List.erase_of_not_mem hnot] at hleave
        exact hleave
      · cases hnext
  | timeout t =>
      simp only [Events.next] at hnext
      split at hnext
      · split at hnext
        · cases hnext
          exact h.leave t nofun nofun
        · cases hnext
      · cases hnext
  | reset =>
      cases hnext
      exact h.reset

end Steps

/-! ## Every run -/

section Runs

variable {s : Events θ} {flag : IpcFlag} {priority : θ → UInt8}

theorem Events.keeps_of_reach
    (h : Reach Events.next (fun _ _ => True) (Events.init flag priority) s) : s.Keeps [] :=
  h.invariant (I := fun s => s.Keeps []) (.init flag priority) fun hs _ hnext => hs.step hnext

/-- No wake-up is lost: in every run, while a thread is suspended on the event,
what is set does not satisfy it, whatever others send, clear and wait for. -/
theorem no_event_missed
    (h : Reach Events.next (fun _ _ => True) (Events.init flag priority) s) {t : θ} {time : Int32}
    (ht : s.phase t = .suspended time) : (s.eventInfo t).met (s.asked t) s.set = false := by
  have hkeeps := Events.keeps_of_reach h
  have hmem := (hkeeps.mem t).mpr ⟨time, ht⟩
  rw [← (hkeeps.asked t hmem).1]
  exact hkeeps.unmet t hmem List.not_mem_nil

/-- Two threads wait for the first event, and the more urgent one takes it. -/
theorem no_event_missed_taken :
    ∃ s, Reach Events.next (fun _ _ => True)
        (Events.init .prio fun t : Bool => if t then 5 else 6) s ∧
      s.phase true = .resumed .eok ∧ s.phase false = .suspended (-1) ∧ s.raised = [3] ∧
      (s.eventInfo false).met (s.asked false) s.set = false := by
  have hexec : (Transition.exec Events.next (fun _ _ => True)
      (Events.init .prio fun t : Bool => if t then 5 else 6)
      [.recv false 1 ⟨false, true, true⟩ (-1), .recv true 1 ⟨false, true, true⟩ (-1),
        .send 3]).any
      (fun s => decide (s.phase true = .resumed .eok ∧ s.phase false = .suspended (-1) ∧
        s.raised = [3])) = true := by decide +kernel
  obtain ⟨s, hreach, hs⟩ := Transition.exists_reach_of_exec hexec
  obtain ⟨htrue, hfalse, hraised⟩ := of_decide_eq_true hs
  exact ⟨s, hreach, htrue, hfalse, hraised, no_event_missed hreach hfalse⟩

/-- No event is received twice: in every run each event was sent, while it was
not set, as often as it was cleared by a thread that received it or dropped by a
reset, and once more if it is set. A thread that is resumed has received some of
the events it asked for, or all of them if it waits with AND. -/
theorem event_taken_once
    (h : Reach Events.next (fun _ _ => True) (Events.init flag priority) s) :
    (∀ i, tally s.raised i = tally s.taken i + tally s.dropped i + (bit s.set i).toNat) ∧
      ∀ t, s.phase t = .resumed .eok →
        s.eventSet t ≠ 0 ∧ s.eventSet t &&& s.asked t = s.eventSet t ∧
          ((s.eventInfo t).and = true → s.eventSet t = s.asked t) :=
  ⟨(Events.keeps_of_reach h).balanced, (Events.keeps_of_reach h).served⟩

/-- A thread waits for two events, of which only one is sent at first. -/
theorem event_taken_once_all :
    ∃ s, Reach Events.next (fun _ _ => True)
        (Events.init .fifo fun _ : Bool => 5) s ∧
      s.phase true = .resumed .eok ∧ s.eventSet true = 3 ∧
      ∀ i, tally s.raised i = tally s.taken i + tally s.dropped i + (bit s.set i).toNat := by
  have hexec : (Transition.exec Events.next (fun _ _ => True)
      (Events.init .fifo fun _ : Bool => 5)
      [.recv true 3 ⟨true, false, true⟩ 10, .send 1, .send 6]).any
      (fun s => decide (s.phase true = .resumed .eok ∧ s.eventSet true = 3)) = true := by
    decide +kernel
  obtain ⟨s, hreach, hs⟩ := Transition.exists_reach_of_exec hexec
  obtain ⟨htrue, hset⟩ := of_decide_eq_true hs
  exact ⟨s, hreach, htrue, hset, (event_taken_once hreach).1⟩

end Runs

/-! ## One receiver -/

/-- The event as its only receiver sees it. -/
def Events.single (s : Events θ) : Event where
  set := s.set
  waiter := s.suspendThread.head?.map s.eventSet

section Single

variable {s : Events θ} {t : θ} {set : UInt32}

omit [DecidableEq θ] in
theorem Events.single_suspended (h : s.suspendThread = [t]) :
    s.single = ⟨s.set, some (s.eventSet t)⟩ := by
  simp [Events.single, h]

/-- With one receiver, which waits with OR and CLEAR, `rt_event_send` does what it
does to a single event. -/
theorem Events.send_single (hset : set ≠ 0)
    (h : s.suspendThread = [] ∨ ∃ t, s.suspendThread = [t] ∧ s.eventInfo t = ⟨false, true, true⟩) :
    (s.send set).1.single = (s.single.send set).1 := by
  rcases h with hnone | ⟨t, ht, hinfo⟩
  · simp [Events.send, hset, Events.single, Event.send, hnone]
  · rw [Events.single_suspended ht]
    by_cases hmet : s.eventSet t &&& (s.set ||| set) = 0
    · simp [Events.send, hset, Events.single, Event.send, ht, Events.offer, hinfo, EventFlag.met,
        hmet]
    · simp [Events.send, hset, Events.single, Event.send, ht, Events.offer, hinfo, EventFlag.met,
        EventFlag.received, Events.resume, hmet]

/-- With AND and CLEAR likewise. -/
theorem Events.sendAnd_single (hset : set ≠ 0)
    (h : s.suspendThread = [] ∨ ∃ t, s.suspendThread = [t] ∧ s.eventInfo t = ⟨true, false, true⟩) :
    (s.send set).1.single = (s.single.sendAnd set).1 := by
  rcases h with hnone | ⟨t, ht, hinfo⟩
  · simp [Events.send, hset, Events.single, Event.sendAnd, hnone]
  · rw [Events.single_suspended ht]
    by_cases hmet : s.eventSet t &&& (s.set ||| set) = s.eventSet t
    · simp [Events.send, hset, Events.single, Event.sendAnd, ht, Events.offer, hinfo,
        EventFlag.met, EventFlag.received, Events.resume, hmet]
    · simp [Events.send, hset, Events.single, Event.sendAnd, ht, Events.offer, hinfo,
        EventFlag.met, hmet]

theorem Events.recv_single (hset : set ≠ 0) (h : s.suspendThread = []) :
    (s.recv t set ⟨false, true, true⟩ (-1)).1.single = (s.single.recv set).1 ∧
      (s.recv t set ⟨false, true, true⟩ (-1)).2.map Prod.snd = (s.single.recv set).2 := by
  by_cases hmet : s.set &&& set = 0
  · cases hflag : s.flag <;>
      simp [Events.recv, hset, Events.single, Event.recv, EventFlag.met, h, hmet,
        UInt32.and_comm set, ipcListSuspend, hflag]
  · simp [Events.recv, hset, Events.single, Event.recv, EventFlag.met, h, hmet,
      UInt32.and_comm set]

theorem Events.recvAnd_single (hset : set ≠ 0) (h : s.suspendThread = []) :
    (s.recv t set ⟨true, false, true⟩ (-1)).1.single = (s.single.recvAnd set).1 ∧
      (s.recv t set ⟨true, false, true⟩ (-1)).2.map Prod.snd = (s.single.recvAnd set).2 := by
  by_cases hmet : s.set &&& set = set
  · simp [Events.recv, hset, Events.single, Event.recvAnd, EventFlag.met, h, hmet,
      UInt32.and_comm set]
  · cases hflag : s.flag <;>
      simp [Events.recv, hset, Events.single, Event.recvAnd, EventFlag.met, h, hmet,
        UInt32.and_comm set, ipcListSuspend, hflag]

end Single

end Kernel
