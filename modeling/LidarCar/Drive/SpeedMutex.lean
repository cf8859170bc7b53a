-- SUMMARY: The speed thread gets SpeedMutex in every iteration, so no command is overlooked.
import LidarCar.Drive.Handover

/-!
# SpeedMutex and the commands

The commands release a mutex they do not own, and the speed thread never
releases the one it owns. No release succeeds and no take fails, so every
iteration reads the wanted speeds.
-/

namespace Drive

open Transition (Reach)
open Kernel (Mutex)

/-! ## Iterations -/

/-- The iteration has executed both reads. -/
def SpeedPc.afterReads : SpeedPc → Bool
  | .getspeedcounter | .setcounterzero | .take | .xspeed1 | .xspeed2 => false
  | .test | .clear1 | .clear2 | .diff1 | .diff2 | .pwm1 | .pwm2 | .lastDiff1 | .lastDiff2
  | .setpwm _ | .compare | .delay => true

variable {κ : Type*}

/-- The step does not end the iteration. -/
def WithinIteration (s : System κ) : Label κ → Prop
  | .speed _ _ => s.speed.pc ≠ .delay
  | .call _ _ | .caller _ => True

/-- The step is not the start of a command. -/
def NoCall (_ : System κ) : Label κ → Prop
  | .call _ _ => False
  | .caller _ | .speed _ _ => True

section Steps

variable [DecidableEq κ] {s s' : System κ} {a : Label κ}

/-! ## The mutex -/

/-- No command has the mutex. -/
def System.MutexKept (s : System κ) : Prop :=
  s.speedMutex.OnlyFor .speed

theorem System.stepSpeed_mutex (speed1 speed2 : Int16) :
    (s.stepSpeed speed1 speed2).speedMutex =
      if s.speed.pc = .take then (s.speedMutex.take s.priority .speed).1 else s.speedMutex := by
  cases hpc : s.speed.pc
  case setpwm pins => cases pins <;> simp [System.stepSpeed, hpc]
  all_goals simp [System.stepSpeed, hpc]

theorem System.MutexKept.exec (h : s.MutexKept) (k : κ) (o : Origin) (st : Statement) :
    (s.exec k o st).speedMutex = s.speedMutex := by
  cases st with
  | mutexRelease =>
      have hrelease := h.release s.priority (show Thread.caller k ≠ .speed from nofun)
      simp only [System.exec, hrelease]
  | wantspeed1 v => rfl
  | wantspeed2 v => rfl
  | pinWrite pin value => rfl

theorem System.MutexKept.step (h : s.MutexKept) (hnext : s.next a = some s') : s'.MutexKept := by
  cases a with
  | call k c =>
      obtain ⟨-, call, -, -, rfl⟩ := System.next_call hnext
      exact h
  | caller k =>
      obtain ⟨call, -, ⟨-, rfl⟩ | ⟨st, rest, -, rfl⟩⟩ := System.next_caller hnext
      · exact h
      · rw [System.MutexKept, System.advance, h.exec]
        exact h
  | speed speed1 speed2 =>
      obtain rfl : s.stepSpeed speed1 speed2 = s' := Option.some.inj hnext
      rw [System.MutexKept, System.stepSpeed_mutex]
      split
      · exact h.take_onlyFor s.priority
      · exact h

/-! ## Progress of an iteration -/

/-- The step is not a read, and it does not pass the reads. -/
structure System.SameProgress (s s' : System κ) : Prop where
  between : s'.speed.pc = .xspeed2 → s.speed.pc = .xspeed2
  after : s'.speed.pc.afterReads = true → s.speed.pc.afterReads = true
  xspeed1 : s'.speed.wheel1.xspeed = s.speed.wheel1.xspeed
  xspeed2 : s'.speed.wheel2.xspeed = s.speed.wheel2.xspeed

omit [DecidableEq κ] in
theorem System.SameProgress.of_speed (h : s'.speed = s.speed) : s.SameProgress s' := by
  constructor <;> rw [h]
  · exact id
  · exact id

/-- The speed thread passes the reads only by reading, as the take succeeds. -/
theorem System.MutexKept.stepSpeed_progress (h : s.MutexKept) (speed1 speed2 : Int16) :
    (s.speed.pc = .xspeed1 ∧ s.stepSpeed speed1 speed2 =
        { s with speed := s.speed.readFirst s.wantspeed1 s.origin1 }) ∨
      (s.speed.pc = .xspeed2 ∧ s.stepSpeed speed1 speed2 =
        { s with speed := s.speed.readSecond s.wantspeed2 s.origin2 }) ∨
      s.SameProgress (s.stepSpeed speed1 speed2) := by
  rcases s.stepSpeed_cases speed1 speed2 with hfirst | hsecond | hframe
  · exact Or.inl hfirst
  · exact Or.inr (Or.inl hsecond)
  · refine Or.inr (Or.inr ⟨fun hpc => absurd hpc hframe.pc', ?_, hframe.xspeed1, hframe.xspeed2⟩)
    cases hpc : s.speed.pc
    case getspeedcounter | setcounterzero =>
      simp only [System.stepSpeed, hpc, SpeedThread.next]
      exact fun hafter => hafter
    case take =>
      obtain ⟨hok, -, -⟩ := h.take s.priority
      simp only [System.stepSpeed, hpc, hok, SpeedThread.branchTaken, decide_true, if_true]
      exact fun hafter => hafter
    case xspeed1 =>
      simp only [System.stepSpeed, hpc]
      exact fun hafter => hafter
    case xspeed2 => exact absurd hpc hframe.pc
    all_goals exact fun _ => rfl

theorem System.MutexKept.progress (h : s.MutexKept) (hnext : s.next a = some s') :
    (s.speed.pc = .xspeed1 ∧
        s' = { s with speed := s.speed.readFirst s.wantspeed1 s.origin1 }) ∨
      (s.speed.pc = .xspeed2 ∧
        s' = { s with speed := s.speed.readSecond s.wantspeed2 s.origin2 }) ∨
      s.SameProgress s' := by
  cases a with
  | call k c =>
      obtain ⟨-, call, -, -, rfl⟩ := System.next_call hnext
      exact Or.inr (Or.inr (.of_speed rfl))
  | caller k =>
      obtain ⟨call, -, ⟨-, rfl⟩ | ⟨st, rest, -, rfl⟩⟩ := System.next_caller hnext
      · exact Or.inr (Or.inr (.of_speed rfl))
      · exact Or.inr (Or.inr (.of_speed (System.exec_speed _ _ _)))
  | speed speed1 speed2 =>
      obtain rfl : s.stepSpeed speed1 speed2 = s' := Option.some.inj hnext
      exact h.stepSpeed_progress speed1 speed2

/-- Where the speeds that the iteration uses in `t` come from: reads of it. -/
structure ReadSince (s t : System κ) : Prop where
  first : t.speed.pc = .xspeed2 → ∃ s₁, Reach System.next WithinIteration s s₁ ∧
    Reach System.next WithinIteration s₁ t ∧ s₁.speed.pc = .xspeed1 ∧
      t.speed.wheel1.xspeed = s₁.wantspeed1
  both : t.speed.pc.afterReads = true → ∃ s₁ s₂, Reach System.next WithinIteration s s₁ ∧
    Reach System.next WithinIteration s₁ s₂ ∧ Reach System.next WithinIteration s₂ t ∧
      s₁.speed.pc = .xspeed1 ∧ s₂.speed.pc = .xspeed2 ∧
        t.speed.wheel1.xspeed = s₁.wantspeed1 ∧ t.speed.wheel2.xspeed = s₂.wantspeed2

theorem ReadSince.step {t t' : System κ} (h : ReadSince s t) (hm : t.MutexKept)
    (hreach : Reach System.next WithinIteration s t) (hC : WithinIteration t a)
    (hnext : t.next a = some t') : ReadSince s t' := by
  have hreach' : Reach System.next WithinIteration t t' := .step .init hC hnext
  rcases hm.progress hnext with ⟨hpc, rfl⟩ | ⟨hpc, rfl⟩ | hsame
  · constructor
    case first => exact fun _ => ⟨t, hreach, hreach', hpc, rfl⟩
    case both => exact fun hafter => Bool.noConfusion hafter
  · constructor
    case first => exact fun hpc' => SpeedPc.noConfusion hpc'
    case both =>
      intro _
      obtain ⟨s₁, hs₁, ht, hfirst, hval⟩ := h.first hpc
      exact ⟨s₁, t, hs₁, ht, hreach', hfirst, hpc, hval, rfl⟩
  · constructor
    case first =>
      intro hpc'
      obtain ⟨s₁, hs₁, ht, hfirst, hval⟩ := h.first (hsame.between hpc')
      exact ⟨s₁, hs₁, ht.trans hreach', hfirst, hsame.xspeed1.trans hval⟩
    case both =>
      intro hafter
      obtain ⟨s₁, s₂, hs₁, hs₂, ht, hfirst, hsecond, hval1, hval2⟩ := h.both (hsame.after hafter)
      exact ⟨s₁, s₂, hs₁, hs₂, ht.trans hreach', hfirst, hsecond, hsame.xspeed1.trans hval1,
        hsame.xspeed2.trans hval2⟩

/-! ## A command that overlaps no other -/

/-- How far the only command in progress is, which is `c` in thread `k`. -/
inductive System.Stage (s : System κ) (k : κ) (c : Command) : Prop where
  | called (call : Call) (h : s.calls k = some call) (hcommand : call.command = c)
      (hrest : call.rest = c.body)
  | halfway (call : Call) (h : s.calls k = some call) (hcommand : call.command = c)
      (hrest : call.rest = .wantspeed2 c.pair.2 :: c.tail) (hfirst : s.wantspeed1 = c.pair.1)
  | assigned (h : ∀ call, s.calls k = some call → ∀ st ∈ call.rest, st.setsSpeed = false)
      (hpair : (s.wantspeed1, s.wantspeed2) = c.pair)

/-- No thread but `k` is in a command, and `k` is in `c` or has left it. -/
structure System.Only (s : System κ) (k : κ) (c : Command) : Prop where
  others : ∀ k', k' ≠ k → s.calls k' = none
  stage : s.Stage k c

theorem System.stepSpeed_commands (s : System κ) (speed1 speed2 : Int16) :
    (s.stepSpeed speed1 speed2).calls = s.calls ∧
      (s.stepSpeed speed1 speed2).wantspeed1 = s.wantspeed1 ∧
        (s.stepSpeed speed1 speed2).wantspeed2 = s.wantspeed2 := by
  rcases s.stepSpeed_cases speed1 speed2 with ⟨-, heq⟩ | ⟨-, heq⟩ | hframe
  · rw [heq]
    exact ⟨rfl, rfl, rfl⟩
  · rw [heq]
    exact ⟨rfl, rfl, rfl⟩
  · exact ⟨hframe.calls, hframe.wantspeed1, hframe.wantspeed2⟩

theorem System.Only.call {k : κ} {c : Command} (hidle : ∀ k', s.calls k' = none)
    (hnext : s.next (.call k c) = some s') : s'.Only k c := by
  obtain ⟨-, call, hcommand, hrest, rfl⟩ := System.next_call hnext
  constructor
  case others => exact fun k' hne => (Function.update_of_ne hne _ _).trans (hidle k')
  case stage => exact .called call (Function.update_self _ _ _) hcommand hrest

theorem System.Only.advance {k : κ} {c : Command} (h : s.Only k c) {call : Call}
    (hk : s.calls k = some call) {st : Statement} {rest : List Statement}
    (hrest : call.rest = st :: rest) : (s.advance k call st rest).Only k c := by
  have hself : (s.advance k call st rest).calls k = some { call with rest := rest } :=
    Function.update_self _ _ _
  constructor
  case others => exact fun k' hne => (Function.update_of_ne hne _ _).trans (h.others k' hne)
  case stage =>
    cases h.stage with
    | called call' hk' hcommand hbody =>
        obtain rfl : call = call' := Option.some.inj (hk.symm.trans hk')
        rw [hbody, Command.body_eq, List.cons.injEq] at hrest
        obtain ⟨rfl, rfl⟩ := hrest
        exact .halfway _ hself hcommand rfl rfl
    | halfway call' hk' hcommand hhalf hfirst =>
        obtain rfl : call = call' := Option.some.inj (hk.symm.trans hk')
        rw [hhalf, List.cons.injEq] at hrest
        obtain ⟨rfl, rfl⟩ := hrest
        refine .assigned (fun d hd => ?_) (Prod.ext hfirst rfl)
        obtain rfl := Option.some.inj (hself.symm.trans hd)
        exact c.tail_setsSpeed
    | assigned hafter hpair =>
        have hsets := hafter call hk
        rw [hrest, List.forall_mem_cons] at hsets
        refine .assigned (fun d hd => ?_) ?_
        · obtain rfl := Option.some.inj (hself.symm.trans hd)
          exact hsets.2
        · cases st with
          | wantspeed1 v => exact Bool.noConfusion hsets.1
          | wantspeed2 v => exact Bool.noConfusion hsets.1
          | pinWrite pin value => exact hpair
          | mutexRelease => exact hpair

theorem System.Only.step {k : κ} {c : Command} (h : s.Only k c) (hC : NoCall s a)
    (hnext : s.next a = some s') : s'.Only k c := by
  cases a with
  | call k' c' => exact hC.elim
  | caller k' =>
      obtain ⟨call, hk', hcase⟩ := System.next_caller hnext
      obtain rfl : k' = k := by
        by_contra hne
        rw [h.others k' hne] at hk'
        cases hk'
      rcases hcase with ⟨hnil, rfl⟩ | ⟨st, rest, hrest, rfl⟩
      · constructor
        case others => exact fun k hne => (Function.update_of_ne hne _ _).trans (h.others k hne)
        case stage =>
          cases h.stage with
          | called call' hk _ hbody =>
              obtain rfl : call = call' := Option.some.inj (hk'.symm.trans hk)
              rw [hnil, Command.body_eq] at hbody
              cases hbody
          | halfway call' hk _ hhalf _ =>
              obtain rfl : call = call' := Option.some.inj (hk'.symm.trans hk)
              rw [hnil] at hhalf
              cases hhalf
          | assigned _ hpair =>
              refine .assigned (fun d hd => ?_) hpair
              have hnone := hd.symm.trans (Function.update_self k' none s.calls)
              cases hnone
      · exact h.advance hk' hrest
  | speed speed1 speed2 =>
      obtain rfl : s.stepSpeed speed1 speed2 = s' := Option.some.inj hnext
      obtain ⟨hcalls, hwant1, hwant2⟩ := s.stepSpeed_commands speed1 speed2
      constructor
      case others => rw [hcalls]; exact h.others
      case stage =>
        cases h.stage with
        | called call hk hcommand hbody => exact .called call (by rw [hcalls, hk]) hcommand hbody
        | halfway call hk hcommand hhalf hfirst =>
            exact .halfway call (by rw [hcalls, hk]) hcommand hhalf (hwant1.trans hfirst)
        | assigned hafter hpair =>
            exact .assigned (by rw [hcalls]; exact hafter) (by rw [hwant1, hwant2]; exact hpair)

/-- A command that has returned has set its pair. -/
theorem System.Only.returned {k : κ} {c : Command} (h : s.Only k c) (hk : s.calls k = none) :
    (∀ k', s.calls k' = none) ∧ (s.wantspeed1, s.wantspeed2) = c.pair := by
  constructor
  · intro k'
    by_cases hkk : k' = k
    · rw [hkk, hk]
    · exact h.others k' hkk
  · cases h.stage with
    | called call hsome => rw [hk] at hsome; cases hsome
    | halfway call hsome => rw [hk] at hsome; cases hsome
    | assigned _ hpair => exact hpair

/-- No command is in progress, and the reads of the iteration found `pair`. -/
structure System.Uses (s : System κ) (pair : Int16 × Int16) : Prop where
  idle : ∀ k, s.calls k = none
  want : (s.wantspeed1, s.wantspeed2) = pair
  first : s.speed.pc = .xspeed2 → s.speed.wheel1.xspeed = pair.1
  both : s.speed.pc.afterReads = true →
    (s.speed.wheel1.xspeed, s.speed.wheel2.xspeed) = pair

theorem System.Uses.step {pair : Int16 × Int16} (h : s.Uses pair) (hm : s.MutexKept)
    (hC : NoCall s a) (hnext : s.next a = some s') : s'.Uses pair := by
  cases a with
  | call k c => exact hC.elim
  | caller k =>
      obtain ⟨call, hk, -⟩ := System.next_caller hnext
      rw [h.idle k] at hk
      cases hk
  | speed speed1 speed2 =>
      obtain rfl : s.stepSpeed speed1 speed2 = s' := Option.some.inj hnext
      obtain ⟨hcalls, hwant1, hwant2⟩ := s.stepSpeed_commands speed1 speed2
      have hidle : ∀ k, (s.stepSpeed speed1 speed2).calls k = none := by
        rw [hcalls]
        exact h.idle
      have hwant : ((s.stepSpeed speed1 speed2).wantspeed1,
          (s.stepSpeed speed1 speed2).wantspeed2) = pair := by
        rw [hwant1, hwant2]
        exact h.want
      refine ⟨hidle, hwant, ?_, ?_⟩
      all_goals rcases hm.stepSpeed_progress speed1 speed2 with ⟨hpc, heq⟩ | ⟨hpc, heq⟩ | hsame
      · rw [heq]
        exact fun _ => congrArg Prod.fst h.want
      · rw [heq]
        exact fun hpc' => SpeedPc.noConfusion hpc'
      · intro hpc'
        rw [hsame.xspeed1]
        exact h.first (hsame.between hpc')
      · rw [heq]
        exact fun hafter => Bool.noConfusion hafter
      · rw [heq]
        have hsecond : s.wantspeed2 = pair.2 := congrArg Prod.snd h.want
        exact fun _ => Prod.ext (h.first hpc) hsecond
      · intro hafter
        rw [hsame.xspeed1, hsame.xspeed2]
        exact h.both (hsame.after hafter)

end Steps

/-! ## No command is overlooked -/

section Reach

variable [DecidableEq κ] {priority : Thread κ → UInt8} {s t : System κ}

theorem mutexKept_of_reach {C : System κ → Label κ → Prop} (h : Reach System.next C s t)
    (hs : s.MutexKept) : t.MutexKept :=
  h.invariant hs fun hm _ hnext => hm.step hnext

theorem readSince_of_reach (h : Reach System.next WithinIteration s t) (hs : s.MutexKept)
    (hpc : s.speed.pc = .getspeedcounter) : ReadSince s t := by
  induction h with
  | init => constructor <;> rw [hpc] <;> nofun
  | step hreach hC hnext ih => exact ih.step (mutexKept_of_reach hreach hs) hreach hC hnext

theorem uses_of_reach {c : Command} (h : Reach System.next NoCall s t) (hs : s.MutexKept)
    (hu : s.Uses c.pair) : t.Uses c.pair :=
  (h.invariant (I := fun t => t.MutexKept ∧ t.Uses c.pair) ⟨hs, hu⟩
    fun hi hC hnext => ⟨hi.1.step hnext, hi.2.step hi.1 hC hnext⟩).2

/-- In every run the speed thread gets the mutex, the speeds it uses are read in
the same iteration, and a command that overlapped no other is what every later
iteration uses, until the next one starts. -/
theorem no_command_overlooked (h : Reach System.next (fun _ _ => True) (.init priority) s) :
    (s.speed.pc = .take → (s.speedMutex.take s.priority .speed).2 = .eok) ∧
      (∀ t, s.speed.pc = .getspeedcounter → Reach System.next WithinIteration s t →
        t.speed.pc.afterReads = true → ∃ s₁ s₂, Reach System.next WithinIteration s s₁ ∧
          Reach System.next WithinIteration s₁ s₂ ∧ Reach System.next WithinIteration s₂ t ∧
            s₁.speed.pc = .xspeed1 ∧ s₂.speed.pc = .xspeed2 ∧
              t.speed.wheel1.xspeed = s₁.wantspeed1 ∧ t.speed.wheel2.xspeed = s₂.wantspeed2) ∧
      ∀ k c s₁ s₂ t, (∀ k', s.calls k' = none) → s.next (.call k c) = some s₁ →
        Reach System.next NoCall s₁ s₂ → s₂.calls k = none →
          s₂.speed.pc = .getspeedcounter → Reach System.next NoCall s₂ t →
            t.speed.pc.afterReads = true →
              (t.speed.wheel1.xspeed, t.speed.wheel2.xspeed) = c.pair := by
  have hm : s.MutexKept := mutexKept_of_reach h (Mutex.OnlyFor.init _)
  refine ⟨fun _ => (hm.take s.priority).1, fun t hpc ht hafter => ?_, ?_⟩
  · exact (readSince_of_reach ht hm hpc).both hafter
  · intro k c s₁ s₂ t hidle hcall hs₂ hk hpc ht hafter
    have honly : s₂.Only k c :=
      hs₂.invariant (I := fun u => u.Only k c) (System.Only.call hidle hcall)
        fun ho hC hnext => ho.step hC hnext
    obtain ⟨hnone, hpair⟩ := honly.returned hk
    have hm₂ : s₂.MutexKept := mutexKept_of_reach hs₂ (hm.step hcall)
    have huses : s₂.Uses c.pair := by
      refine ⟨hnone, hpair, ?_, ?_⟩ <;> rw [hpc] <;> nofun
    exact (uses_of_reach ht hm₂ huses).both hafter

end Reach

instance (s : System κ) : (a : Label κ) → Decidable (NoCall s a)
  | .call _ _ => inferInstanceAs (Decidable False)
  | .caller _ | .speed _ _ => inferInstanceAs (Decidable True)

/-- `carForward` called at the start, and the first reads after it has returned. -/
theorem no_command_overlooked_carForward :
    ∃ s₁ s₂ t : System Caller,
      (System.init createdPriority).next (.call .master .carForward) = some s₁ ∧
        Reach System.next NoCall s₁ s₂ ∧ s₂.calls .master = none ∧
          s₂.speed.pc = .getspeedcounter ∧ Reach System.next NoCall s₂ t ∧
            t.speed.pc = .test ∧
              (t.speed.wheel1.xspeed, t.speed.wheel2.xspeed) = (80, 80) := by
  obtain ⟨s₁, hcall⟩ : ∃ s₁,
      (System.init createdPriority).next (.call .master .carForward) = some s₁ := ⟨_, rfl⟩
  have hrun : (Transition.exec System.next NoCall s₁ (List.replicate 4 (.caller .master))).any
      (fun s₂ => s₂.calls .master = none ∧ s₂.speed.pc = .getspeedcounter ∧
        (Transition.exec System.next NoCall s₂ (List.replicate 5 (.speed 0 0))).any
          (fun t => t.speed.pc = .test) = true) = true := by
    obtain rfl := Option.some.inj hcall
    decide
  obtain ⟨s₂, hs₂, htest⟩ := Transition.exists_reach_of_exec hrun
  obtain ⟨hreturned, hpc, hreads⟩ := of_decide_eq_true htest
  obtain ⟨t, ht, hafter⟩ := Transition.exists_reach_of_exec hreads
  have hpc' : t.speed.pc = .test := of_decide_eq_true hafter
  have hinit : Reach System.next (fun _ _ => True) (.init createdPriority)
      (.init createdPriority) := .init
  obtain ⟨-, -, hlater⟩ := no_command_overlooked hinit
  exact ⟨s₁, s₂, t, hcall, hs₂, hreturned, hpc, ht, hpc',
    hlater .master .carForward s₁ s₂ t (fun _ => rfl) hcall hs₂ hreturned hpc ht
      (by rw [hpc']; rfl)⟩

end Drive
