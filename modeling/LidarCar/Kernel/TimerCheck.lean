-- SUMMARY: `rt_timer_check` calls each timer that is due once, and a timer that was stopped is not called.
import LidarCar.Kernel.Deadlines

/-!
# Checking and stopping timers

`rt_timer_check` looks at the first timer again and again until its time is not
up. What it calls are timers that were due when the tick came, unless a timer is
started for no time. Whether a timer can be stopped is decided by its flag, which
says whether the timer is on the list as long as no one-shot timer is started by
its own timeout function.
-/

namespace Kernel

open Transition (Reach exec)

variable {θ : Type*} [DecidableEq θ]

/-! ## What a check calls -/

/-- The timers on the list whose time is up. -/
def Timers.due (s : Timers θ) : List θ :=
  s.list.filter fun t => s.history.due t ≤ s.history.now

def Timers.Label.called : Timers.Label θ → Option θ
  | .call t => some t
  | _ => none

/-- A step within `rt_timer_check` that starts no timer for no time. -/
def Timers.Lasting (s : Timers θ) : Timers.Label θ → Prop
  | .start t => (s.timer t).initTick < rtTickMax / 2 ∧ (s.timer t).initTick ≠ 0
  | .back t =>
    (s.timer t).periodic → (s.timer t).activated →
      (s.timer t).initTick < rtTickMax / 2 ∧ (s.timer t).initTick ≠ 0
  | .increase | .leave => False
  | _ => True

instance (s : Timers θ) (l : Timers.Label θ) : Decidable (s.Lasting l) :=
  match l with
  | .start t => inferInstanceAs
      (Decidable ((s.timer t).initTick < rtTickMax / 2 ∧ (s.timer t).initTick ≠ 0))
  | .back t => inferInstanceAs (Decidable ((s.timer t).periodic → (s.timer t).activated →
      (s.timer t).initTick < rtTickMax / 2 ∧ (s.timer t).initTick ≠ 0))
  | .increase | .leave => isFalse id
  | .stop _ | .control .. | .call _ => isTrue trivial

section Check

variable {s s' : Timers θ} {t : θ} {l : Timers.Label θ}

omit [DecidableEq θ] in
theorem Timers.Lasting.asserts (hC : s.Lasting l) : s.Asserts l := by
  cases l with
  | start t => exact hC.1
  | back t => exact fun hperiodic hactivated => (hC hperiodic hactivated).1
  | _ => trivial

omit [DecidableEq θ] in
theorem Timers.filter_walk {timer : θ → Timer} {p : θ → Bool} (ht : p t = false)
    (list : List θ) : (Timers.walk timer t list).filter p = list.filter p := by
  induction list with
  | nil => simp [Timers.walk, ht]
  | cons u list ih =>
      unfold Timers.walk
      split
      · simp only [List.filter_cons, ih]
      · split
        · simp only [List.filter_cons, ht, Bool.false_eq_true, if_false]
        · simp only [List.filter_cons, ih]

/-- A timer that is started for some time is not due. -/
theorem Timers.due_start (hs : s.list.Nodup) (htime : (s.timer t).initTick ≠ 0) :
    (s.start t).due.Sublist s.due := by
  have hpos : 0 < (s.timer t).initTick.toNat :=
    Nat.pos_of_ne_zero fun heq => htime (UInt32.toNat_inj.mp heq)
  have hlater : (s.start t).history.now < (s.start t).history.due t := by
    simp only [Timers.start, Agenda.History.set_due_self, Agenda.History.set_now]
    omega
  have hdue : (s.start t).due =
      (s.list.erase t).filter fun u => s.history.due u ≤ s.history.now := by
    have hwalk : (s.start t).due = (s.list.erase t).filter
        fun u => (s.start t).history.due u ≤ (s.start t).history.now :=
      Timers.filter_walk (p := fun u => (s.start t).history.due u ≤ (s.start t).history.now)
        (decide_eq_false (Nat.not_le_of_lt hlater)) (s.list.erase t)
    refine hwalk.trans (List.filter_congr fun u hu => ?_)
    have hne : u ≠ t := fun heq => hs.not_mem_erase (heq ▸ hu)
    simp only [Timers.start, Agenda.History.set_due_of_ne hne, Agenda.History.set_now]
  rw [hdue]
  exact List.erase_sublist.filter _

theorem Timers.due_back (hs : s.list.Nodup) (hC : s.Lasting (.back t)) :
    (s.back t).due.Sublist s.due := by
  cases hagain : (s.timer t).periodic && (s.timer t).activated with
  | false =>
      simp only [Timers.back, hagain, Bool.false_eq_true, if_false]
      exact List.Sublist.refl _
  | true =>
      obtain ⟨hperiodic, hactivated⟩ := Bool.and_eq_true_iff.mp hagain
      simp only [Timers.back, hagain, if_true]
      refine Timers.due_start hs ?_
      simpa using (hC hperiodic hactivated).2

/-- The timer whose function is called was the first that was due. -/
theorem Timers.Keeps.due_step (h : s.Keeps) (hC : s.Lasting l) (hnext : s.next l = some s') :
    (l.called.toList ++ s'.due).Sublist s.due := by
  cases l with
  | start t =>
      obtain ⟨-, rfl⟩ := Timers.within_eq_some hnext
      exact Timers.due_start h.ordered.nodup hC.2
  | stop t =>
      obtain ⟨-, rfl⟩ := Timers.within_eq_some hnext
      simp only [Timers.Label.called, Option.toList_none, List.nil_append, Timers.stop]
      split
      · exact List.erase_sublist.filter _
      · exact List.Sublist.refl _
  | control t cmd arg =>
      obtain ⟨-, rfl⟩ := Timers.within_eq_some hnext
      exact List.Sublist.refl _
  | increase => exact hC.elim
  | call t =>
      obtain ⟨currentTick, list, hphase, hlist, hexpired, rfl⟩ := Timers.next_call hnext
      have hdue := (h.expired_iff hphase (hlist ▸ List.mem_cons_self)).mp hexpired
      simp [Timers.due, Timers.Label.called, hlist, hdue]
  | back t =>
      simp only [Timers.next] at hnext
      split at hnext
      · cases hnext
        exact Timers.due_back h.ordered.nodup hC
      · cases hnext
  | leave => exact hC.elim

theorem Timers.Keeps.due_exec (h : s.Keeps) {labels : List (Timers.Label θ)}
    (hexec : exec Timers.next Timers.Lasting s labels = some s') :
    s'.Keeps ∧ (labels.filterMap (·.called) ++ s'.due).Sublist s.due := by
  induction labels generalizing s with
  | nil =>
      cases hexec
      exact ⟨h, List.Sublist.refl _⟩
  | cons l labels ih =>
      rw [exec] at hexec
      split at hexec
      · rename_i hC
        obtain ⟨r, hr, hrest⟩ := Option.bind_eq_some_iff.mp hexec
        obtain ⟨hkeeps, hlater⟩ := ih (h.moves hC.asserts hr).1 hrest
        refine ⟨hkeeps, ?_⟩
        have hnow := (hlater.append_left l.called.toList).trans (h.due_step hC hr)
        rw [← List.append_assoc] at hnow
        cases hcalled : l.called with
        | none => simpa [List.filterMap_cons, hcalled] using hnow
        | some u => simpa [List.filterMap_cons, hcalled] using hnow
      · cases hexec

/-- The loop of `rt_timer_check` is left when no timer is due any more, and goes
on with the first of those that are. -/
theorem Timers.Keeps.check_next (h : s.Keeps) {currentTick : UInt32}
    (hphase : s.phase = .checking currentTick) :
    (s.next .leave).isSome = s.due.isEmpty ∧
      ∀ t ∈ s.due.head?, (s.next (.call t)).isSome := by
  cases hlist : s.list with
  | nil => simp [Timers.next, Timers.due, hphase, hlist]
  | cons u list =>
      have hexpired := h.expired_iff hphase (hlist ▸ List.mem_cons_self : u ∈ s.list)
      have hdue : s.history.now < s.history.due u → s.due = [] := by
        intro hlt
        refine List.filter_eq_nil_iff.mpr fun v hv hle => ?_
        by_cases hne : v = u
        · subst hne
          simp at hle
          omega
        · have hearlier := (h.first hlist v hv hne).due_le
          simp at hle
          omega
      cases hu : s.expired currentTick u with
      | true =>
          have hle := hexpired.mp hu
          simp [Timers.next, Timers.due, hphase, hlist, hu, hle]
      | false =>
          have hlt : s.history.now < s.history.due u := by
            refine Nat.lt_of_not_le fun hle => ?_
            rw [hexpired.mpr hle] at hu
            cases hu
          rw [hdue hlt]
          simp [Timers.next, hphase, hlist, hu]

end Check

section Runs

variable {s s' : Timers θ} {t : θ} {tick : UInt32} {time : θ → UInt32} {periodic : θ → Bool}

/-- As long as no timer is started for no time, what one `rt_timer_check` calls
are timers that were due when the tick came, in their order and each of them
once, whatever the timeout functions start and stop; and it returns when none of
them is left. -/
theorem check_calls_due
    (h : Reach Timers.next Timers.Asserts (Timers.init tick time periodic) s)
    {labels : List (Timers.Label θ)}
    (hexec : exec Timers.next Timers.Lasting s labels = some s') :
    (labels.filterMap (·.called) ++ s'.due).Sublist s.due ∧ s.due.Nodup ∧
      ∀ currentTick, s'.phase = .checking currentTick →
        (s'.next .leave).isSome = s'.due.isEmpty ∧
          ∀ t ∈ s'.due.head?, (s'.next (.call t)).isSome := by
  have hkeeps := Timers.keeps_of_reach h
  obtain ⟨hkeeps', hsub⟩ := hkeeps.due_exec hexec
  exact ⟨hsub, hkeeps.ordered.nodup.filter _, fun _ hphase => hkeeps'.check_next hphase⟩

/-- The first of two timers that are due stops the second. -/
theorem check_calls_due_stop :
    ∃ s s', Reach Timers.next Timers.Asserts
        (Timers.init 0 (fun _ : Bool => 1) fun _ => false) s ∧
      s.due = [true, false] ∧
      exec Timers.next Timers.Lasting s [.call true, .stop false, .back true] = some s' ∧
      (true :: s'.due).Sublist s.due := by
  have hexec : (exec Timers.next Timers.Asserts
      (Timers.init 0 (fun _ : Bool => 1) fun _ => false)
      [.start true, .start false, .increase]).any
        (fun s => decide (s.due = [true, false]) &&
          (exec Timers.next Timers.Lasting s
            [.call true, .stop false, .back true]).isSome) = true := by decide
  obtain ⟨s, hreach, hs⟩ := Transition.exists_reach_of_exec hexec
  obtain ⟨hdue, hsome⟩ := Bool.and_eq_true_iff.mp hs
  obtain ⟨s', hs'⟩ := Option.isSome_iff_exists.mp hsome
  exact ⟨s, s', hreach, of_decide_eq_true hdue, hs', (check_calls_due hreach hs').1⟩

end Runs

/-! ## Stopping a timer -/

/-- `rt_timer_start` is as asserted, and no one-shot timer is on the list when its
own timeout function returns. -/
def Timers.Proper (s : Timers θ) : Timers.Label θ → Prop
  | .back t =>
    s.Asserts (.back t) ∧ (t ∈ s.list → (s.timer t).periodic ∧ (s.timer t).activated)
  | l => s.Asserts l

instance (s : Timers θ) (l : Timers.Label θ) : Decidable (s.Proper l) :=
  match l with
  | .back t => inferInstanceAs (Decidable (s.Asserts (.back t) ∧
      (t ∈ s.list → (s.timer t).periodic ∧ (s.timer t).activated)))
  | .start t => inferInstanceAs (Decidable (s.Asserts (.start t)))
  | .stop _ | .control .. | .increase | .call _ | .leave => isTrue trivial

/-- The flag of a timer says whether it is on the list. While its function runs
the timer may be off the list with its flag set. -/
structure Timers.Flagged (s : Timers θ) : Prop where
  nodup : s.list.Nodup
  activated : ∀ t ∈ s.list, (s.timer t).activated = true
  mem : ∀ t, s.phase ≠ .calling t → (s.timer t).activated = true → t ∈ s.list

/-- The timer is neither on the list nor about to go there. -/
def Timers.Silent (s : Timers θ) (t : θ) : Prop :=
  t ∉ s.list ∧ (s.timer t).activated = false

section Stop

variable {s s' : Timers θ} {t u : θ} {l : Timers.Label θ}

omit [DecidableEq θ] in
theorem Timers.nodup_walk {timer : θ → Timer} {list : List θ} (ht : t ∉ list)
    (hlist : list.Nodup) : (Timers.walk timer t list).Nodup := by
  induction list with
  | nil => simp [Timers.walk]
  | cons u list ih =>
      obtain ⟨hu, hrest⟩ := List.nodup_cons.mp hlist
      obtain ⟨hne, ht'⟩ := not_or.mp (mt List.mem_cons.mpr ht)
      have hbehind : (u :: Timers.walk timer t list).Nodup := by
        refine List.nodup_cons.mpr ⟨fun hmem => ?_, ih ht' hrest⟩
        cases Timers.mem_walk.mp hmem with
        | inl heq => exact hne heq.symm
        | inr hmem => exact hu hmem
      unfold Timers.walk
      split
      · exact hbehind
      · split
        · exact List.nodup_cons.mpr ⟨ht, hlist⟩
        · exact hbehind

theorem Timers.mem_start_list : u ∈ (s.start t).list ↔ u = t ∨ u ∈ s.list := by
  refine Timers.mem_walk.trans (or_congr_right' fun hne => ?_)
  exact List.mem_erase_of_ne hne

/-- Starting a timer sets its flag, whatever it was. -/
theorem Timers.flagged_start (hnodup : s.list.Nodup)
    (hactivated : ∀ u ∈ s.list, u ≠ t → (s.timer u).activated = true)
    (hmem : ∀ u, u ≠ t → s.phase ≠ .calling u → (s.timer u).activated = true → u ∈ s.list) :
    (s.start t).Flagged := by
  constructor
  · exact Timers.nodup_walk hnodup.not_mem_erase (hnodup.erase t)
  · intro u hu
    by_cases hne : u = t
    · subst hne
      simp [Timers.start]
    · simp only [Timers.start, Function.update_of_ne hne]
      exact hactivated u ((Timers.mem_start_list.mp hu).resolve_left hne) hne
  · intro u hphase hu
    by_cases hne : u = t
    · exact Timers.mem_start_list.mpr (Or.inl hne)
    · simp only [Timers.start, Function.update_of_ne hne] at hu
      exact Timers.mem_start_list.mpr (Or.inr (hmem u hne hphase hu))

theorem Timers.Flagged.start (h : s.Flagged) (t : θ) : (s.start t).Flagged :=
  Timers.flagged_start h.nodup (fun u hu _ => h.activated u hu) fun u _ => h.mem u

theorem Timers.Flagged.stop (h : s.Flagged) (t : θ) :
    (s.stop t).1.Flagged ∧ (s.stop t).1.Silent t := by
  unfold Timers.stop
  split
  · refine ⟨?_, h.nodup.not_mem_erase, by simp⟩
    constructor
    · exact h.nodup.erase t
    · intro u hu
      have hne : u ≠ t := fun heq => h.nodup.not_mem_erase (heq ▸ hu)
      simp only [Function.update_of_ne hne]
      exact h.activated u (List.mem_of_mem_erase hu)
    · intro u hphase hu
      have hne : u ≠ t := by
        intro heq
        subst heq
        simp at hu
      simp only [Function.update_of_ne hne] at hu
      exact (List.mem_erase_of_ne hne).mpr (h.mem u hphase hu)
  · rename_i hoff
    exact ⟨h, fun hmem => hoff (h.activated t hmem), Bool.eq_false_iff.mpr hoff⟩

theorem Timers.Flagged.control (h : s.Flagged) (t : θ) (cmd : TimerCtrl) (arg : UInt32) :
    (s.control t cmd arg).Flagged := by
  have hactivated : ∀ u, ((s.control t cmd arg).timer u).activated = (s.timer u).activated := by
    intro u
    by_cases hne : u = t
    · subst hne
      cases cmd <;> simp [Timers.control, Timer.control]
    · simp only [Timers.control, Function.update_of_ne hne]
  constructor
  · exact h.nodup
  · exact fun u hu => (hactivated u).trans (h.activated u hu)
  · exact fun u hphase hu => h.mem u hphase ((hactivated u).symm.trans hu)

theorem Timers.Flagged.call (h : s.Flagged) (hnext : s.next (.call t) = some s') :
    s'.Flagged := by
  obtain ⟨currentTick, list, hphase, hlist, hexpired, rfl⟩ := Timers.next_call hnext
  have hnodup := h.nodup
  rw [hlist] at hnodup
  constructor
  · exact (List.nodup_cons.mp hnodup).2
  · exact fun u hu => h.activated u (hlist ▸ List.mem_cons_of_mem _ hu)
  · intro u hne hu
    have hmem := h.mem u (by simp [hphase]) hu
    rw [hlist] at hmem
    exact List.mem_of_ne_of_mem (fun heq => hne (heq ▸ rfl)) hmem

theorem Timers.Flagged.back (h : s.Flagged) (hphase : s.phase = .calling t)
    (hC : t ∈ s.list → (s.timer t).periodic ∧ (s.timer t).activated) : (s.back t).Flagged := by
  have hother : ∀ u, u ≠ t → ((Function.update s.timer t
      { s.timer t with activated := false }) u).activated = (s.timer u).activated := by
    intro u hne
    rw [Function.update_of_ne hne]
  have hcalling : ∀ u, u ≠ t → s.phase ≠ .calling u := by
    intro u hne heq
    rw [hphase] at heq
    exact hne (Timers.Phase.calling.inj heq).symm
  unfold Timers.back
  simp only
  split
  · refine Timers.flagged_start h.nodup ?_ ?_
    · intro u hu hne
      exact (hother u hne).trans (h.activated u hu)
    · intro u hne _ hu
      exact h.mem u (hcalling u hne) ((hother u hne).symm.trans hu)
  · rename_i hagain
    have hoff : t ∉ s.list := fun hmem => hagain (Bool.and_eq_true_iff.mpr (hC hmem))
    constructor
    · exact h.nodup
    · intro u hu
      have hne : u ≠ t := fun heq => hoff (heq ▸ hu)
      exact (hother u hne).trans (h.activated u hu)
    · intro u _ hu
      have hne : u ≠ t := by
        intro heq
        subst heq
        simp at hu
      exact h.mem u (hcalling u hne) ((hother u hne).symm.trans hu)

theorem Timers.Flagged.step (h : s.Flagged) (hC : s.Proper l) (hnext : s.next l = some s') :
    s'.Flagged := by
  cases l with
  | start t =>
      obtain ⟨-, rfl⟩ := Timers.within_eq_some hnext
      exact h.start t
  | stop t =>
      obtain ⟨-, rfl⟩ := Timers.within_eq_some hnext
      exact (h.stop t).1
  | control t cmd arg =>
      obtain ⟨-, rfl⟩ := Timers.within_eq_some hnext
      exact h.control t cmd arg
  | increase =>
      simp only [Timers.next] at hnext
      split at hnext
      · rename_i hphase
        cases hnext
        exact ⟨h.nodup, h.activated, fun u _ hu => h.mem u (by simp [hphase]) hu⟩
      · cases hnext
  | call t => exact h.call hnext
  | back t =>
      simp only [Timers.next] at hnext
      split at hnext
      · rename_i hphase
        cases hnext
        exact h.back hphase hC.2
      · cases hnext
  | leave =>
      obtain ⟨currentTick, hphase, -, rfl⟩ := Timers.next_leave hnext
      exact ⟨h.nodup, h.activated, fun u _ hu => h.mem u (by simp [hphase]) hu⟩

/-! ## A timer that was stopped -/

/-- A silent timer stays silent until it is started, and is not called. -/
theorem Timers.Silent.step (h : s.Silent t) (hl : l ≠ .start t) (hnext : s.next l = some s') :
    s'.Silent t ∧ l ≠ .call t := by
  obtain ⟨hoff, hflag⟩ := h
  cases l with
  | start u =>
      obtain ⟨-, rfl⟩ := Timers.within_eq_some hnext
      have hne : t ≠ u := fun heq => hl (heq ▸ rfl)
      refine ⟨⟨fun hmem => ?_, ?_⟩, by simp⟩
      · exact (Timers.mem_start_list.mp hmem).elim hne hoff
      · simpa [Timers.start, Function.update_of_ne hne] using hflag
  | stop u =>
      obtain ⟨-, rfl⟩ := Timers.within_eq_some hnext
      refine ⟨?_, by simp⟩
      unfold Timers.stop
      split
      · refine ⟨fun hmem => hoff (List.mem_of_mem_erase hmem), ?_⟩
        by_cases hne : t = u
        · subst hne
          simp
        · simpa [Function.update_of_ne hne] using hflag
      · exact ⟨hoff, hflag⟩
  | control u cmd arg =>
      obtain ⟨-, rfl⟩ := Timers.within_eq_some hnext
      refine ⟨⟨hoff, ?_⟩, by simp⟩
      by_cases hne : t = u
      · subst hne
        cases cmd <;> simpa [Timers.control, Timer.control] using hflag
      · simpa [Timers.control, Function.update_of_ne hne] using hflag
  | increase =>
      simp only [Timers.next] at hnext
      split at hnext
      · cases hnext
        exact ⟨⟨hoff, hflag⟩, by simp⟩
      · cases hnext
  | call u =>
      obtain ⟨currentTick, list, hphase, hlist, hexpired, rfl⟩ := Timers.next_call hnext
      rw [hlist, List.mem_cons, not_or] at hoff
      exact ⟨⟨hoff.2, hflag⟩, fun heq => hoff.1 (Timers.Label.call.inj heq).symm⟩
  | back u =>
      simp only [Timers.next] at hnext
      split at hnext
      · cases hnext
        refine ⟨?_, by simp⟩
        unfold Timers.back
        simp only
        by_cases hne : t = u
        · subst hne
          simp [Timers.Silent, hflag, hoff]
        · split
          · refine ⟨fun hmem => (Timers.mem_start_list.mp hmem).elim hne hoff, ?_⟩
            simpa [Timers.start, Function.update_of_ne hne] using hflag
          · exact ⟨hoff, by simpa [Function.update_of_ne hne] using hflag⟩
      · cases hnext
  | leave =>
      obtain ⟨currentTick, hphase, -, rfl⟩ := Timers.next_leave hnext
      exact ⟨⟨hoff, hflag⟩, by simp⟩

theorem Timers.Silent.exec (h : s.Silent t) {labels : List (Timers.Label θ)}
    (hlabels : ∀ l ∈ labels, l ≠ .start t)
    (hexec : exec Timers.next (fun _ _ => True) s labels = some s') :
    ∀ l ∈ labels, l ≠ .call t := by
  induction labels generalizing s with
  | nil => exact nofun
  | cons l labels ih =>
      obtain ⟨hl, hlater⟩ := List.forall_mem_cons.mp hlabels
      rw [Transition.exec, if_pos trivial] at hexec
      obtain ⟨r, hr, hrest⟩ := Option.bind_eq_some_iff.mp hexec
      obtain ⟨hsilent, hcall⟩ := h.step hl hr
      exact List.forall_mem_cons.mpr ⟨hcall, ih hsilent hlater hrest⟩

/-- Where no one-shot timer is started by its own timeout function, `rt_timer_stop`
answers whether the timer was on the list, and whatever it answers the timer is
not called any more unless it is started. -/
theorem stopped_timer_silent {tick : UInt32} {time : θ → UInt32} {periodic : θ → Bool}
    (h : Reach Timers.next Timers.Proper (Timers.init tick time periodic) s) (t : θ) :
    (s.phase ≠ .calling t → ((s.stop t).2 = .eok ↔ t ∈ s.list)) ∧
      ∀ labels s', exec Timers.next (fun _ _ => True) (s.stop t).1 labels = some s' →
        (∀ l ∈ labels, l ≠ .start t) → ∀ l ∈ labels, l ≠ .call t := by
  have hflagged : s.Flagged :=
    h.invariant
      { nodup := List.nodup_nil
        activated := fun _ hmem => absurd hmem List.not_mem_nil
        mem := fun _ _ hactivated => Bool.noConfusion hactivated }
      fun hs hC hnext => hs.step hC hnext
  refine ⟨fun hphase => ?_, fun labels s' hexec hlabels => ?_⟩
  · unfold Timers.stop
    split
    · rename_i hon
      exact iff_of_true rfl (hflagged.mem t hphase hon)
    · rename_i hoff
      exact iff_of_false nofun fun hmem => hoff (hflagged.activated t hmem)
  · exact (hflagged.stop t).2.exec hlabels hexec

/-- A timer that is armed is stopped. -/
theorem stopped_timer_silent_armed :
    ∃ s, Reach Timers.next Timers.Proper
        (Timers.init 0 (fun _ : Bool => 2) fun _ => false) s ∧
      true ∈ s.list ∧ ((s.stop true).2 = .eok ↔ true ∈ s.list) := by
  have hexec : (Transition.exec Timers.next Timers.Proper
      (Timers.init 0 (fun _ : Bool => 2) fun _ => false) [.start true, .increase, .leave]).any
        (fun s => decide (true ∈ s.list ∧ s.phase = .outside)) = true := by decide
  obtain ⟨s, hreach, hs⟩ := Transition.exists_reach_of_exec hexec
  obtain ⟨hmem, hphase⟩ := of_decide_eq_true hs
  refine ⟨s, hreach, hmem, (stopped_timer_silent hreach true).1 ?_⟩
  rw [hphase]
  exact nofun

/-- A one-shot timer that is started by its own timeout function is on the list
when that returns, and cannot be stopped. -/
theorem restarted_one_shot (hphase : s.phase = .calling t) (hone : (s.timer t).periodic = false) :
    ∃ s₁ s₂, s.next (.start t) = some s₁ ∧ s₁.next (.back t) = some s₂ ∧ t ∈ s₂.list ∧
      s₂.stop t = (s₂, .error) := by
  refine ⟨s.start t, (s.start t).back t, ?_, ?_, ?_, ?_⟩
  · simp [Timers.next, Timers.within, hphase]
  · simp [Timers.next, Timers.start, hphase]
  · have hmem : t ∈ (s.start t).list := Timers.mem_start_list.mpr (Or.inl rfl)
    simpa [Timers.back, Timers.start, hone] using hmem
  · simp [Timers.back, Timers.stop, Timers.start, hone]

end Stop

end Kernel
