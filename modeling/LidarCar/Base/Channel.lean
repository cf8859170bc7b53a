-- SUMMARY: A channel shared by senders of two-symbol commands, and when it has carried whole commands.
import Mathlib.Algebra.BigOperators.Group.Finset.Piecewise
import Mathlib.Algebra.Order.Group.Multiset
import Mathlib.Data.Fintype.Basic
import LidarCar.Base.Transition

/-!
# A shared channel

A command is the symbol `lead` and a code. A sender is called with a code and
puts the two symbols in two steps, between which the other senders take theirs.
As no code is `lead`, two symbols `lead` in a row show that a command was torn,
and nothing that follows hides it.
-/

namespace Channel

open Transition (Reach)

variable {ι β : Type*}

/-! ## Senders -/

/-- What a sender is doing. -/
inductive Phase (β : Type*) where
  | idle
  /-- It has been called with the code `c`. -/
  | called (c : β)
  /-- It has put `lead`, and `c` is next. -/
  | begun (c : β)
  deriving DecidableEq, Repr

def Phase.isBegun : Phase β → Bool
  | .begun _ => true
  | .idle | .called _ => false

/-- The command the sender has been called with and has not begun. -/
def Phase.waiting : Phase β → Multiset β
  | .called c => {c}
  | .idle | .begun _ => 0

/-- The command the sender has been called with and has not sent. -/
def Phase.unsent : Phase β → Multiset β
  | .called c | .begun c => {c}
  | .idle => 0

theorem Phase.unsent_eq_waiting {p : Phase β} (h : p.isBegun = false) : p.unsent = p.waiting := by
  cases p with
  | idle | called => rfl
  | begun c => cases h

structure State (ι β : Type*) where
  phase : ι → Phase β
  sent : List β
  /-- History: the codes the senders have been called with. -/
  issued : List β
  /-- History: a sender has begun a command while a command was begun and not sent. -/
  overlapped : Bool

inductive Label (ι β : Type*) where
  | call (i : ι) (c : β)
  | put (i : ι)

/-- The symbols of the command with code `c`. -/
def command (lead c : β) : List β :=
  [lead, c]

/-- No code is `lead`. -/
def Codes (lead : β) (_ : State ι β) : Label ι β → Prop
  | .call _ c => c ≠ lead
  | .put _ => True

/-! ## Steps -/

section Steps

variable [DecidableEq ι] (s : State ι β) (i : ι) (c : β)

def State.call : State ι β :=
  { s with phase := Function.update s.phase i (.called c), issued := s.issued ++ [c] }

/-- `overlaps` says that some sender is between its two symbols. -/
def State.putLead (lead : β) (overlaps : Bool) : State ι β :=
  { s with
    phase := Function.update s.phase i (.begun c)
    sent := s.sent ++ [lead]
    overlapped := s.overlapped || overlaps }

def State.putCode : State ι β :=
  { s with phase := Function.update s.phase i .idle, sent := s.sent ++ [c] }

@[simp] theorem State.call_phase :
    (s.call i c).phase = Function.update s.phase i (.called c) := rfl

@[simp] theorem State.putLead_phase (lead : β) (overlaps : Bool) :
    (s.putLead i c lead overlaps).phase = Function.update s.phase i (.begun c) := rfl

@[simp] theorem State.putCode_phase :
    (s.putCode i c).phase = Function.update s.phase i .idle := rfl

end Steps

/-- Nothing has been sent. -/
def State.init : State ι β where
  phase := fun _ => .idle
  sent := []
  issued := []
  overlapped := false

variable [Fintype ι] {lead : β} {s s' : State ι β} {i : ι} {c : β}

/-- A sender is between its two symbols. -/
def State.occupied (s : State ι β) : Bool :=
  decide (∃ i, (s.phase i).isBegun = true)

/-- What was sent is whole commands, and each command issued was sent once or has
not been begun. -/
def State.Whole (lead : β) (s : State ι β) : Prop :=
  ∃ cs : List β, (cs : Multiset β) + ∑ i, (s.phase i).waiting = s.issued ∧
    s.sent = cs.flatMap (command lead)

def State.next [DecidableEq ι] (lead : β) (s : State ι β) : Label ι β → Option (State ι β)
  | .call i c =>
    match s.phase i with
    | .idle => some (s.call i c)
    | .called _ | .begun _ => none
  | .put i =>
    match s.phase i with
    | .idle => none
    | .called c => some (s.putLead i c lead s.occupied)
    | .begun c => some (s.putCode i c)

section Next

variable [DecidableEq ι]

theorem State.next_call (h : s.phase i = .idle) : s.next lead (.call i c) = some (s.call i c) := by
  simp only [State.next, h]

theorem State.next_putLead (h : s.phase i = .called c) :
    s.next lead (.put i) = some (s.putLead i c lead s.occupied) := by
  simp only [State.next, h]

theorem State.next_putCode (h : s.phase i = .begun c) :
    s.next lead (.put i) = some (s.putCode i c) := by
  simp only [State.next, h]

end Next

/-! ## The invariant -/

/-- Whole commands were sent, and after them at most a first symbol, by the only
sender that is between its symbols. -/
def State.Orderly (lead : β) (s : State ι β) : Prop :=
  ∃ cs : List β, (cs : Multiset β) + ∑ i, (s.phase i).unsent = s.issued ∧
    (((∀ i, (s.phase i).isBegun = false) ∧ s.sent = cs.flatMap (command lead)) ∨
      ∃ i, (s.phase i).isBegun = true ∧ (∀ j, (s.phase j).isBegun = true → j = i) ∧
        s.sent = cs.flatMap (command lead) ++ [lead])

/-- `lead` was sent where a code is due. -/
def State.Torn (lead : β) (s : State ι β) : Prop :=
  ∃ (cs : List β) (rest : List β), s.sent = cs.flatMap (command lead) ++ lead :: lead :: rest

structure State.Recorded (lead : β) (s : State ι β) : Prop where
  codes : ∀ c ∈ s.issued, c ≠ lead
  orderly : s.overlapped = false → s.Orderly lead
  torn : s.overlapped = true → s.Torn lead

theorem State.Recorded.init : (State.init : State ι β).Recorded lead where
  codes := nofun
  orderly := fun _ => ⟨[], by simp [State.init, Phase.unsent], Or.inl ⟨fun _ => rfl, rfl⟩⟩
  torn := nofun

theorem State.occupied_eq_false : s.occupied = false ↔ ∀ i, (s.phase i).isBegun = false := by
  simp [State.occupied]

omit [Fintype ι] in
theorem State.Torn.append {rest : List β} (h : s.Torn lead) (hsent : s'.sent = s.sent ++ rest) :
    s'.Torn lead := by
  obtain ⟨cs, rest₀, heq⟩ := h
  refine ⟨cs, rest₀ ++ rest, ?_⟩
  rw [hsent, heq, List.append_assoc]
  rfl

section Steps

variable [DecidableEq ι]

/-- Changing one sender's phase changes its share of a sum over all senders. -/
theorem sum_update (f : Phase β → Multiset β) (phase : ι → Phase β) (i : ι) (p : Phase β) :
    ∑ j, f (Function.update phase i p j) + f (phase i) = ∑ j, f (phase j) + f p := by
  have happly : ∀ j, f (Function.update phase i p j) =
      Function.update (fun k => f (phase k)) i (f p) j :=
    Function.apply_update (fun _ => f) phase i p
  have hmem : i ∈ Finset.univ := Finset.mem_univ i
  rw [Finset.sum_congr rfl fun j _ => happly j, Finset.sum_update_of_mem hmem,
    Finset.sdiff_singleton_eq_erase, add_assoc,
    Finset.sum_erase_add Finset.univ (fun j => f (phase j)) hmem, add_comm]

omit [Fintype ι] in
/-- A phase that is not between the symbols adds no sender that is. -/
theorem isBegun_of_update {p : Phase β} (hp : p.isBegun = false) {j : ι}
    (h : (Function.update s.phase i p j).isBegun = true) :
    j ≠ i ∧ (s.phase j).isBegun = true := by
  have hne : j ≠ i := by
    rintro rfl
    rw [Function.update_self, hp] at h
    cases h
  rw [Function.update_of_ne hne] at h
  exact ⟨hne, h⟩

theorem State.Orderly.call (h : s.Orderly lead) (hidle : s.phase i = .idle) :
    (s.call i c).Orderly lead := by
  obtain ⟨cs, hcount, hsent⟩ := h
  refine ⟨cs, ?_, ?_⟩
  · have hsum := sum_update Phase.unsent s.phase i (.called c)
    rw [hidle, show (Phase.idle : Phase β).unsent = 0 from rfl, add_zero] at hsum
    rw [State.call_phase, hsum, ← add_assoc, hcount, State.call, ← Multiset.coe_add]
    rfl
  · have hold : ∀ j, ((s.call i c).phase j).isBegun = true → (s.phase j).isBegun = true :=
      fun j hj => (isBegun_of_update rfl hj).2
    rcases hsent with ⟨hfree, hsent⟩ | ⟨k, hk, honly, hsent⟩
    · refine Or.inl ⟨fun j => Bool.eq_false_iff.mpr fun hj => ?_, hsent⟩
      have hj' := hold j hj
      rw [hfree j] at hj'
      cases hj'
    · have hne : k ≠ i := by
        rintro rfl
        rw [hidle] at hk
        cases hk
      refine Or.inr ⟨k, ?_, fun j hj => honly j (hold j hj), hsent⟩
      rw [State.call_phase, Function.update_of_ne hne]
      exact hk

/-- Beginning a command while no sender is between its symbols keeps order. -/
theorem State.Orderly.putLead (h : s.Orderly lead) (hcalled : s.phase i = .called c)
    (hfree : ∀ j, (s.phase j).isBegun = false) :
    (s.putLead i c lead s.occupied).Orderly lead := by
  obtain ⟨cs, hcount, hsent⟩ := h
  have hsent : s.sent = cs.flatMap (command lead) := by
    rcases hsent with ⟨-, hsent⟩ | ⟨k, hk, -⟩
    · exact hsent
    · rw [hfree k] at hk
      cases hk
  refine ⟨cs, ?_, Or.inr ⟨i, ?_, fun j hj => ?_, ?_⟩⟩
  · have hsum := sum_update Phase.unsent s.phase i (.begun c)
    rw [hcalled] at hsum
    rw [State.putLead_phase, add_right_cancel hsum]
    exact hcount
  · rw [State.putLead_phase, Function.update_self]
    rfl
  · by_contra hne
    rw [State.putLead_phase, Function.update_of_ne hne, hfree j] at hj
    cases hj
  · rw [State.putLead, hsent]

/-- Beginning a command while some sender is between its symbols tears one. -/
theorem State.Orderly.torn (h : s.Orderly lead) (hbusy : ¬ ∀ j, (s.phase j).isBegun = false) :
    (s.putLead i c lead s.occupied).Torn lead := by
  obtain ⟨cs, -, ⟨hfree, -⟩ | ⟨k, -, -, hsent⟩⟩ := h
  · exact absurd hfree hbusy
  · refine ⟨cs, [], ?_⟩
    rw [State.putLead, hsent, List.append_assoc]
    rfl

theorem State.Orderly.putCode (h : s.Orderly lead) (hbegun : s.phase i = .begun c) :
    (s.putCode i c).Orderly lead := by
  obtain ⟨cs, hcount, ⟨hfree, -⟩ | ⟨k, -, honly, hsent⟩⟩ := h
  · have hi := hfree i
    rw [hbegun] at hi
    cases hi
  · have hik : i = k := honly i (by rw [hbegun]; rfl)
    refine ⟨cs ++ [c], ?_, Or.inl ⟨fun j => Bool.eq_false_iff.mpr fun hj => ?_, ?_⟩⟩
    · have hsum := sum_update Phase.unsent s.phase i .idle
      rw [hbegun, show (Phase.idle : Phase β).unsent = 0 from rfl, add_zero] at hsum
      calc ((cs ++ [c] : List β) : Multiset β) + ∑ j, ((s.putCode i c).phase j).unsent
          = cs + (∑ j, ((s.putCode i c).phase j).unsent + {c}) := by
            rw [← Multiset.coe_add, add_assoc, add_comm (Multiset.ofList [c])]
            rfl
        _ = cs + ∑ j, (s.phase j).unsent := congrArg (_ + ·) hsum
        _ = s.issued := hcount
    · obtain ⟨hne, hj⟩ := isBegun_of_update rfl hj
      exact hne ((honly j hj).trans hik.symm)
    · rw [State.putCode, hsent, List.append_assoc, List.flatMap_append]
      rfl

end Steps

/-! ## Runs -/

theorem State.Recorded.step [DecidableEq ι] {a : Label ι β} (h : s.Recorded lead)
    (hC : Codes lead s a) (hnext : s.next lead a = some s') : s'.Recorded lead := by
  cases a with
  | call i c =>
      simp only [State.next] at hnext
      split at hnext
      case h_1 hidle =>
        obtain rfl := Option.some.inj hnext
        refine ⟨fun d hd => ?_, fun ho => (h.orderly ho).call hidle, fun ho => h.torn ho⟩
        rcases List.mem_append.mp hd with hold | hnew
        · exact h.codes d hold
        · rw [List.mem_singleton.mp hnew]
          exact hC
      all_goals cases hnext
  | put i =>
      simp only [State.next] at hnext
      split at hnext
      case h_1 => cases hnext
      case h_2 c hcalled =>
        obtain rfl := Option.some.inj hnext
        refine ⟨h.codes, fun ho => ?_, fun ho => ?_⟩
        · obtain ⟨hold, hfree⟩ := Bool.or_eq_false_iff.mp ho
          exact (h.orderly hold).putLead hcalled (State.occupied_eq_false.mp hfree)
        · cases hold : s.overlapped with
          | true => exact (h.torn hold).append rfl
          | false =>
              refine (h.orderly hold).torn fun hfree => ?_
              rw [State.putLead, hold, State.occupied_eq_false.mpr hfree] at ho
              cases ho
      case h_3 c hbegun =>
        obtain rfl := Option.some.inj hnext
        exact ⟨h.codes, fun ho => (h.orderly ho).putCode hbegun, fun ho => (h.torn ho).append rfl⟩

theorem State.Orderly.whole (h : s.Orderly lead) (hfree : ∀ i, (s.phase i).isBegun = false) :
    s.Whole lead := by
  obtain ⟨cs, hcount, ⟨-, hsent⟩ | ⟨k, hk, -⟩⟩ := h
  · refine ⟨cs, ?_, hsent⟩
    rw [← hcount, Finset.sum_congr rfl fun i _ => Phase.unsent_eq_waiting (hfree i)]
  · rw [hfree k] at hk
    cases hk

/-- Whole commands do not show `lead` where a code is due. -/
theorem flatMap_command_ne {cs cs' rest : List β} (h : ∀ c ∈ cs', c ≠ lead) :
    cs'.flatMap (command lead) ≠ cs.flatMap (command lead) ++ lead :: lead :: rest := by
  induction cs generalizing cs' with
  | nil =>
      cases cs' with
      | nil => nofun
      | cons c cs' =>
          intro heq
          have htail := (List.cons.inj heq).2
          exact h c List.mem_cons_self (List.cons.inj htail).1
  | cons d cs ih =>
      cases cs' with
      | nil => nofun
      | cons c cs' =>
          intro heq
          have htail := (List.cons.inj heq).2
          exact ih (fun c' hc' => h c' (List.mem_cons_of_mem c hc')) (List.cons.inj htail).2

theorem State.Torn.not_whole (h : s.Torn lead) (hcodes : ∀ c ∈ s.issued, c ≠ lead) :
    ¬ s.Whole lead := by
  rintro ⟨cs', hcount, hsent⟩
  obtain ⟨cs, rest, htorn⟩ := h
  refine flatMap_command_ne (fun c hc => hcodes c ?_) (hsent.symm.trans htorn)
  have hmem : c ∈ (cs' : Multiset β) + ∑ i, (s.phase i).waiting :=
    Multiset.mem_add.mpr (Or.inl hc)
  rw [hcount] at hmem
  exact hmem

/-- When no sender is between its two symbols, whole commands were sent, each once,
if and only if no sender ever began a command while another was between its two. -/
theorem whole_iff [DecidableEq ι] (h : Reach (State.next lead) (Codes lead) .init s)
    (hfree : s.occupied = false) : s.Whole lead ↔ s.overlapped = false := by
  have hrecorded : s.Recorded lead :=
    h.invariant State.Recorded.init fun hi hC hnext => hi.step hC hnext
  constructor
  · intro hwhole
    cases hover : s.overlapped with
    | false => rfl
    | true => exact absurd hwhole ((hrecorded.torn hover).not_whole hrecorded.codes)
  · intro hover
    exact (hrecorded.orderly hover).whole (State.occupied_eq_false.mp hfree)

end Channel
