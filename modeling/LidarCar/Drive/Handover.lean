-- SUMMARY: When the speed loop uses a pair of wanted speeds that one command function set.
import Mathlib.Data.Fintype.Basic
import LidarCar.Base.PairRegister
import LidarCar.Drive.System

/-!
# Handing over the wanted speeds

A command function writes the two wanted speeds one after the other and the loop
reads them one after the other. The pair the loop uses comes from one call as
long as no party begins its two accesses between the two accesses of another.
-/

namespace Drive

open Transition (Reach)
open PairRegister (Register)

variable {κ : Type*}

/-! ## Pairs of accesses -/

/-- The call's next statement is the assignment to `wantspeed1`. -/
def Call.atFirst (call : Call) : Bool :=
  match call.rest with
  | .wantspeed1 _ :: _ => true
  | _ => false

/-- The call's next statement is the assignment to `wantspeed2`. -/
def Call.halfway (call : Call) : Bool :=
  match call.rest with
  | .wantspeed2 _ :: _ => true
  | _ => false

/-- Some party is between its two accesses to the wanted speeds. -/
def System.Between (s : System κ) : Prop :=
  (∃ k, (s.calls k).any Call.halfway = true) ∨ s.speed.pc = .xspeed2

/-- The step is the first of the two accesses of its party. -/
def System.Begins (s : System κ) : Label κ → Prop
  | .call _ _ => False
  | .caller k => (s.calls k).any Call.atFirst = true
  | .speed _ _ => s.speed.pc = .xspeed1

/-- A party begins its two accesses only if no party is between its own. -/
def Exclusive (s : System κ) (a : Label κ) : Prop :=
  s.Begins a → ¬ s.Between

instance [Fintype κ] (s : System κ) : Decidable s.Between :=
  inferInstanceAs (Decidable (_ ∨ _))

instance (s : System κ) : (a : Label κ) → Decidable (s.Begins a)
  | .call _ _ => inferInstanceAs (Decidable False)
  | .caller k => inferInstanceAs (Decidable ((s.calls k).any Call.atFirst = true))
  | .speed _ _ => inferInstanceAs (Decidable (s.speed.pc = .xspeed1))

instance [Fintype κ] (s : System κ) (a : Label κ) : Decidable (Exclusive s a) :=
  inferInstanceAs (Decidable (_ → _))

/-! ## Where a call is -/

/-- The statements after the two assignments. -/
def Command.tail (c : Command) : List Statement :=
  c.body.drop 2

/-- Every command function assigns its pair first. -/
theorem Command.body_eq (c : Command) :
    c.body = .wantspeed1 c.pair.1 :: .wantspeed2 c.pair.2 :: c.tail := by
  cases c <;> rfl

def Statement.setsSpeed : Statement → Bool
  | .wantspeed1 _ | .wantspeed2 _ => true
  | .pinWrite _ _ | .mutexRelease => false

/-- And it assigns no speed after that. -/
theorem Command.tail_setsSpeed (c : Command) : ∀ st ∈ c.tail, st.setsSpeed = false := by
  cases c <;> decide

/-- Where a call can be in its function. -/
inductive Call.Place (call : Call) : Prop where
  | first (h : call.rest = call.command.body)
  | second (h : call.rest = .wantspeed2 call.command.pair.2 :: call.command.tail)
  | after (h : ∀ st ∈ call.rest, st.setsSpeed = false)

/-- Every call is somewhere in its function, and every speed is the one that its
origin sets. -/
structure Labelled (s : System κ) : Prop where
  place : ∀ k call, s.calls k = some call → call.Place
  want1 : s.wantspeed1 = s.origin1.pair.1
  want2 : s.wantspeed2 = s.origin2.pair.2
  xspeed1 : s.speed.wheel1.xspeed = s.speed.origin1.pair.1
  xspeed2 : s.speed.wheel2.xspeed = s.speed.origin2.pair.2

/-! ## The view as a pair of cells -/

/-- The origin that a thread has assigned to `wantspeed1` and not yet to `wantspeed2`. -/
def halfOrigin (call : Option Call) : Option Origin :=
  call.bind fun call => if call.halfway then some call.origin else none

/-- The origins of the speeds: what the writers assign and the loop reads. -/
def System.register (s : System κ) : Register κ Origin where
  cell1 := s.origin1
  cell2 := s.origin2
  half := halfOrigin ∘ s.calls
  got1 := s.speed.origin1
  got2 := s.speed.origin2
  reading := s.speed.pc = .xspeed2

theorem System.half_eq_none_iff (s : System κ) (k : κ) :
    s.register.half k = none ↔ ¬ (s.calls k).any Call.halfway = true := by
  cases hk : s.calls k with
  | none => simp [System.register, halfOrigin, hk]
  | some call => simp [System.register, halfOrigin, hk]

theorem System.quiet_iff (s : System κ) : s.register.Quiet ↔ ¬ s.Between := by
  simp only [Register.Quiet, System.Between, System.half_eq_none_iff, not_or, not_exists]
  simp [System.register]

/-! ## Steps of the speed thread -/

/-- What a statement of the speed thread other than the two reads leaves alone. -/
structure System.Frame (s s' : System κ) : Prop where
  calls : s'.calls = s.calls
  wantspeed1 : s'.wantspeed1 = s.wantspeed1
  wantspeed2 : s'.wantspeed2 = s.wantspeed2
  origin1 : s'.origin1 = s.origin1
  origin2 : s'.origin2 = s.origin2
  xspeed1 : s'.speed.wheel1.xspeed = s.speed.wheel1.xspeed
  xspeed2 : s'.speed.wheel2.xspeed = s.speed.wheel2.xspeed
  got1 : s'.speed.origin1 = s.speed.origin1
  got2 : s'.speed.origin2 = s.speed.origin2
  pc : s.speed.pc ≠ .xspeed2
  pc' : s'.speed.pc ≠ .xspeed2

theorem System.stepSpeed_cases [DecidableEq κ] (s : System κ) (speed1 speed2 : Int16) :
    (s.speed.pc = .xspeed1 ∧ s.stepSpeed speed1 speed2 =
        { s with speed := s.speed.readFirst s.wantspeed1 s.origin1 }) ∨
      (s.speed.pc = .xspeed2 ∧ s.stepSpeed speed1 speed2 =
        { s with speed := s.speed.readSecond s.wantspeed2 s.origin2 }) ∨
      s.Frame (s.stepSpeed speed1 speed2) := by
  cases hpc : s.speed.pc
  case xspeed1 => exact Or.inl ⟨rfl, by simp only [System.stepSpeed, hpc]⟩
  case xspeed2 => exact Or.inr (Or.inl ⟨rfl, by simp only [System.stepSpeed, hpc]⟩)
  case setpwm pins =>
    right; right
    cases pins <;> constructor <;> simp [System.stepSpeed, hpc]
  case take =>
    right; right
    constructor <;> simp [System.stepSpeed, hpc, SpeedThread.branchTaken]
    split <;> simp
  case test =>
    right; right
    constructor <;> simp [System.stepSpeed, hpc, SpeedThread.next]
    split <;> simp
  all_goals
    right; right
    constructor <;> simp [System.stepSpeed, hpc, SpeedThread.next]

/-! ## Steps of a caller -/

theorem Call.Place.next {call : Call} (h : call.Place) {st : Statement} {rest : List Statement}
    (hrest : call.rest = st :: rest) :
    (st = .wantspeed1 call.command.pair.1 ∧
        rest = .wantspeed2 call.command.pair.2 :: call.command.tail) ∨
      (st = .wantspeed2 call.command.pair.2 ∧ rest = call.command.tail) ∨
      (st.setsSpeed = false ∧ ∀ st ∈ rest, st.setsSpeed = false) := by
  cases h with
  | first h =>
      rw [h, Command.body_eq, List.cons.injEq] at hrest
      exact Or.inl ⟨hrest.1.symm, hrest.2.symm⟩
  | second h =>
      rw [h, List.cons.injEq] at hrest
      exact Or.inr (Or.inl ⟨hrest.1.symm, hrest.2.symm⟩)
  | after h =>
      rw [hrest] at h
      exact Or.inr (Or.inr (List.forall_mem_cons.mp h))

theorem Call.halfway_of_after {call : Call} (h : ∀ st ∈ call.rest, st.setsSpeed = false) :
    call.halfway = false := by
  unfold Call.halfway
  split
  case h_1 heq =>
    rw [heq] at h
    exact absurd (h _ List.mem_cons_self) (by simp [Statement.setsSpeed])
  case h_2 => rfl

/-! ## Every speed is the one that its origin sets -/

section Step

variable [DecidableEq κ] {s s' : System κ}

theorem Labelled.place_update (h : Labelled s) (k : κ) {call : Option Call}
    (hcall : ∀ c ∈ call, c.Place) :
    ∀ k' c, Function.update s.calls k call k' = some c → c.Place := by
  intro k' c hc
  rcases calls_update hc with ⟨-, hsome⟩ | ⟨-, hbefore⟩
  · exact hcall c hsome
  · exact h.place k' c hbefore

theorem Labelled.advance {k : κ} {call : Call} {st : Statement} {rest : List Statement}
    (h : Labelled s) (hk : s.calls k = some call) (hrest : call.rest = st :: rest) :
    Labelled (s.advance k call st rest) := by
  have hplace : ({ call with rest := rest } : Call).Place →
      ∀ k' c, (s.advance k call st rest).calls k' = some c → c.Place := fun hp =>
    h.place_update k (by simpa using hp)
  rcases (h.place k call hk).next hrest with ⟨rfl, rfl⟩ | ⟨rfl, rfl⟩ | ⟨hst, hafter⟩
  · exact ⟨hplace (.second rfl), rfl, h.want2, h.xspeed1, h.xspeed2⟩
  · exact ⟨hplace (.after call.command.tail_setsSpeed), h.want1, rfl, h.xspeed1, h.xspeed2⟩
  · have hp := hplace (.after hafter)
    cases st with
    | wantspeed1 v => cases hst
    | wantspeed2 v => cases hst
    | pinWrite pin value => exact ⟨hp, h.want1, h.want2, h.xspeed1, h.xspeed2⟩
    | mutexRelease => exact ⟨hp, h.want1, h.want2, h.xspeed1, h.xspeed2⟩

theorem Labelled.step {a : Label κ} (h : Labelled s) (hnext : s.next a = some s') :
    Labelled s' := by
  cases a with
  | call k c =>
      obtain ⟨-, call, rfl, hrest, rfl⟩ := System.next_call hnext
      exact ⟨h.place_update k (by simpa using .first hrest), h.want1, h.want2, h.xspeed1,
        h.xspeed2⟩
  | caller k =>
      obtain ⟨call, hk, ⟨-, rfl⟩ | ⟨st, rest, hrest, rfl⟩⟩ := System.next_caller hnext
      · exact ⟨h.place_update k (by simp), h.want1, h.want2, h.xspeed1, h.xspeed2⟩
      · exact h.advance hk hrest
  | speed speed1 speed2 =>
      obtain rfl : s.stepSpeed speed1 speed2 = s' := Option.some.inj hnext
      rcases s.stepSpeed_cases speed1 speed2 with ⟨-, heq⟩ | ⟨-, heq⟩ | hf
      · rw [heq]
        exact ⟨h.place, h.want1, h.want2, h.want1, h.xspeed2⟩
      · rw [heq]
        exact ⟨h.place, h.want1, h.want2, h.xspeed1, h.want2⟩
      · constructor
        case place => rw [hf.calls]; exact h.place
        case want1 => rw [hf.wantspeed1, hf.origin1]; exact h.want1
        case want2 => rw [hf.wantspeed2, hf.origin2]; exact h.want2
        case xspeed1 => rw [hf.xspeed1, hf.got1]; exact h.xspeed1
        case xspeed2 => rw [hf.xspeed2, hf.got2]; exact h.xspeed2

omit [DecidableEq κ] in
theorem Labelled.init (priority : Thread κ → UInt8) : Labelled (System.init priority) :=
  ⟨nofun, rfl, rfl, rfl, rfl⟩

/-! ## The drive is a pair register -/

theorem halfOrigin_of_after {call : Call} (h : ∀ st ∈ call.rest, st.setsSpeed = false) :
    halfOrigin (some call) = none := by
  simp [halfOrigin, Call.halfway_of_after h]

/-- A call that is not halfway, before and after, changes nothing in the view. -/
theorem update_halfOrigin {calls : κ → Option Call} {k : κ} {call : Option Call}
    (h : halfOrigin call = none) (h' : halfOrigin (calls k) = none) :
    halfOrigin ∘ Function.update calls k call = halfOrigin ∘ calls := by
  rw [Function.comp_update, h, ← h']
  exact Function.update_eq_self k (halfOrigin ∘ calls)

theorem System.register_advance {k : κ} {call : Call} {st : Statement} {rest : List Statement}
    (h : call.Place) (hk : s.calls k = some call) (hrest : call.rest = st :: rest) :
    (s.advance k call st rest).register = s.register ∨
      ∃ e, (e.begins = true → s.Begins (.caller k)) ∧
        s.register.next e = some (s.advance k call st rest).register := by
  rcases h.next hrest with ⟨rfl, rfl⟩ | ⟨rfl, rfl⟩ | ⟨hst, hafter⟩
  · right
    have hbegins : s.Begins (.caller k) := by simp [System.Begins, hk, Call.atFirst, hrest]
    refine ⟨.write1 k call.origin, fun _ => hbegins, ?_⟩
    simp only [System.register, System.advance, Function.comp_update]
    rfl
  · right
    have hhalf : s.register.half k = some call.origin := by
      simp [System.register, halfOrigin, hk, Call.halfway, hrest]
    have hnone : halfOrigin (some { call with rest := call.command.tail }) = none :=
      halfOrigin_of_after call.command.tail_setsSpeed
    refine ⟨.write2 k, nofun, ?_⟩
    rw [Register.next, hhalf]
    simp only [System.register, System.advance, Function.comp_update, hnone]
    rfl
  · left
    have hnone : halfOrigin (s.calls k) = none := by
      rw [hk]
      apply halfOrigin_of_after
      rw [hrest]
      exact List.forall_mem_cons.mpr ⟨hst, hafter⟩
    have hcalls := update_halfOrigin (k := k)
      (show halfOrigin (some { call with rest := rest }) = none from halfOrigin_of_after hafter)
      hnone
    cases st with
    | wantspeed1 v => cases hst
    | wantspeed2 v => cases hst
    | pinWrite pin value =>
        simp only [System.register, System.advance, System.exec, hcalls]
        rfl
    | mutexRelease =>
        simp only [System.register, System.advance, System.exec, hcalls]
        rfl

/-- Every step of the drive is an access to the pair or leaves it alone. -/
theorem System.register_step {a : Label κ} (h : Labelled s) (hnext : s.next a = some s') :
    s'.register = s.register ∨
      ∃ e, (e.begins = true → s.Begins a) ∧ s.register.next e = some s'.register := by
  cases a with
  | call k c =>
      obtain ⟨hnone, call, rfl, hrest, rfl⟩ := System.next_call hnext
      left
      have hhalf : halfOrigin (some call) = none := by
        simp [halfOrigin, Call.halfway, hrest, Command.body_eq]
      have hbefore : halfOrigin (s.calls k) = none := by rw [hnone]; rfl
      have hcalls := update_halfOrigin (k := k) hhalf hbefore
      simp only [System.register, hcalls]
  | caller k =>
      obtain ⟨call, hk, ⟨hnil, rfl⟩ | ⟨st, rest, hrest, rfl⟩⟩ := System.next_caller hnext
      · left
        have hnone : halfOrigin (s.calls k) = none := by
          rw [hk]
          exact halfOrigin_of_after (by simp [hnil])
        have hcalls := update_halfOrigin (show halfOrigin none = none from rfl) hnone
        simp only [System.register, hcalls]
      · exact System.register_advance (h.place k call hk) hk hrest
  | speed speed1 speed2 =>
      obtain rfl : s.stepSpeed speed1 speed2 = s' := Option.some.inj hnext
      rcases s.stepSpeed_cases speed1 speed2 with ⟨hpc, heq⟩ | ⟨hpc, heq⟩ | hf
      · rw [heq]
        exact Or.inr ⟨.read1, fun _ => hpc, by
          simp [System.register, Register.next, SpeedThread.readFirst]⟩
      · rw [heq]
        exact Or.inr ⟨.read2, nofun, by
          simp [System.register, Register.next, SpeedThread.readSecond, hpc]⟩
      · left
        simp only [System.register, hf.calls, hf.origin1, hf.origin2, hf.got1, hf.got2, hf.pc,
          hf.pc', decide_false]

end Step

/-! ## The pair that the loop uses -/

section Reach

variable [DecidableEq κ] {priority : Thread κ → UInt8} {s : System κ}

theorem labelled_of_reach {C : System κ → Label κ → Prop}
    (h : Reach System.next C (.init priority) s) : Labelled s :=
  h.invariant (Labelled.init priority) fun hl _ hnext => hl.step hnext

/-- If no party begins its two accesses between the two of another, the loop uses
a pair that one call set, or the initial pair. -/
theorem speeds_handed_over_whole (h : Reach System.next Exclusive (.init priority) s)
    (hpc : s.speed.pc ≠ .xspeed2) :
    s.speed.origin1 = s.speed.origin2 ∧
      (s.speed.wheel1.xspeed, s.speed.wheel2.xspeed) = s.speed.origin1.pair := by
  have hregister : Reach Register.next PairRegister.Exclusive
      (System.init priority).register s.register :=
    h.simulate fun hs hC hnext => by
      rcases System.register_step (labelled_of_reach hs) hnext with hsame | ⟨e, hbegins, he⟩
      · exact Or.inl hsame
      · exact Or.inr ⟨e, fun hb => (System.quiet_iff _).mpr (hC (hbegins hb)), he⟩
  have horigin : s.speed.origin1 = s.speed.origin2 :=
    PairRegister.got_eq_of_reach hregister (by simpa [System.register] using hpc)
  refine ⟨horigin, ?_⟩
  have hl := labelled_of_reach h
  rw [hl.xspeed1, hl.xspeed2, ← horigin]

end Reach

/-! ## Two threads -/

/-- The two threads that call command functions. -/
inductive Caller where
  | master
  | shell
  deriving DecidableEq, Repr

instance : Fintype Caller where
  elems := {.master, .shell}
  complete := fun k => by cases k <;> decide

/-- The priorities the threads are created with. -/
def createdPriority : Thread Caller → UInt8
  | .speed | .caller .master => 3
  | .caller .shell => 20

/-- The loop's first iteration up to the test, after the given steps. -/
def firstReads (before between : List (Label Caller)) : List (Label Caller) :=
  before ++ List.replicate 3 (.speed 0 0) ++ between ++ List.replicate 2 (.speed 0 0)

/-- `carForward` as a whole, and then the reads of the loop. -/
def wholeRun : List (Label Caller) :=
  firstReads (.call .master .carForward :: List.replicate 3 (.caller .master)) []

theorem speeds_handed_over_whole_wholeRun :
    ∃ s, Reach System.next Exclusive (.init createdPriority) s ∧ s.speed.pc = .test ∧
      (s.speed.wheel1.xspeed, s.speed.wheel2.xspeed) = (80, 80) ∧
      s.speed.origin1 = s.speed.origin2 := by
  have hrun : (Transition.exec System.next Exclusive (.init createdPriority) wholeRun).any
      (fun s => s.speed.pc = .test ∧ s.speed.origin1 = .call 0 .carForward) = true := by decide
  obtain ⟨s, hreach, htest⟩ := Transition.exists_reach_of_exec hrun
  obtain ⟨hpc, horigin⟩ := of_decide_eq_true htest
  obtain ⟨hsame, hpair⟩ := speeds_handed_over_whole hreach (by rw [hpc]; decide)
  exact ⟨s, hreach, hpc, by rw [hpair, horigin]; rfl, hsame⟩

/-- The loop reads between the two assignments of `carForward`. -/
def tornRun : List (Label Caller) :=
  firstReads [.call .master .carForward] [.caller .master]

/-- It uses the first speed of `carForward` with the initial second speed. -/
theorem tornRun_mixes :
    (∀ c : Command, c.pair ≠ (80, 0)) ∧ Origin.initial.pair ≠ (80, 0) ∧
      ∃ s, Reach System.next (fun _ _ => True) (.init createdPriority) s ∧ s.speed.pc = .test ∧
        (s.speed.wheel1.xspeed, s.speed.wheel2.xspeed) = (80, 0) := by
  refine ⟨fun c => by cases c <;> decide, by decide, ?_⟩
  have hrun : (Transition.exec System.next (fun _ _ => True) (.init createdPriority) tornRun).any
      (fun s => s.speed.pc = .test ∧
        (s.speed.wheel1.xspeed, s.speed.wheel2.xspeed) = (80, 0)) = true := by decide
  obtain ⟨s, hreach, htest⟩ := Transition.exists_reach_of_exec hrun
  obtain ⟨hpc, hpair⟩ := of_decide_eq_true htest
  exact ⟨s, hreach, hpc, hpair⟩

end Drive
