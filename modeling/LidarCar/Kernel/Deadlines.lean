-- SUMMARY: The timers on the kernel's wrapping tick are rung as on an agenda in unbounded time.
import LidarCar.Kernel.Timer

/-!
# Timers ring on time

The kernel counts ticks modulo `2 ^ 32`. Between the ticks of two timers on the
list lies less than half of that, since no timer is started for longer and none
is left behind when `rt_timer_check` returns, and so the differences of ticks
order the timers as the agenda orders them.
-/

namespace Kernel

open Transition (Reach)

variable {θ : Type*} [DecidableEq θ]

/-! ## Ticks -/

theorem tick_sub_eq_zero {a b : ℕ} (hab : a < b + 0x100000000) (hba : b < a + 0x100000000) :
    UInt32.ofNat a - UInt32.ofNat b = 0 ↔ a = b := by
  rw [← UInt32.toNat_inj, UInt32.toNat_sub, UInt32.toNat_ofNat', UInt32.toNat_ofNat']
  simp only [UInt32.toNat_zero]
  omega

theorem tick_sub_lt_half {a b : ℕ} (hab : a < b + 0x7FFFFFFF) (hba : b < a + 0x80000001) :
    UInt32.ofNat a - UInt32.ofNat b < rtTickMax / 2 ↔ b ≤ a := by
  rw [UInt32.lt_iff_toNat_lt, UInt32.toNat_sub, UInt32.toNat_ofNat', UInt32.toNat_ofNat']
  have hhalf : (rtTickMax / 2).toNat = 0x7FFFFFFF := by decide
  rw [hhalf]
  omega

/-! ## The agenda -/

def Timers.Phase.ringing : Timers.Phase θ → Bool
  | .outside => false
  | _ => true

/-- The agenda that the timers stand for. -/
def Timers.agenda (s : Timers θ) : Agenda θ :=
  ⟨s.history, {t | t ∈ s.list}, s.phase.ringing⟩

/-- The step of the agenda that a step of the kernel stands for. -/
def Timers.Label.agenda (s : Timers θ) : Timers.Label θ → Option (Agenda.Label θ)
  | .start t => some (.set t (s.timer t).initTick.toNat)
  | .stop t => if (s.timer t).activated then some (.cancel t) else none
  | .control .. => none
  | .increase => some .tick
  | .call t => some (.ring t)
  | .back t =>
    if (s.timer t).periodic && (s.timer t).activated then
      some (.set t (s.timer t).initTick.toNat)
    else none
  | .leave => some .rest

structure Timers.Keeps (s : Timers θ) : Prop where
  timely : s.agenda.Timely (rtTickMax / 2).toNat
  ordered : s.history.Ordered s.list
  tick_eq : s.tick = UInt32.ofNat s.history.now
  timeout_eq : ∀ t ∈ s.list, (s.timer t).timeoutTick = UInt32.ofNat (s.history.due t)
  current : ∀ currentTick, s.phase = .checking currentTick → currentTick = s.tick

section Steps

variable {s s' : Timers θ} {t u : θ} {l : Timers.Label θ}

omit [DecidableEq θ] in
theorem Timers.Keeps.init (tick : UInt32) (time : θ → UInt32) (periodic : θ → Bool) :
    (Timers.init tick time periodic).Keeps where
  timely :=
    { since_le_due := nofun
      le_latest := nofun
      lt_latest := nofun
      due_lt := nofun
      rank_lt := nofun }
  ordered := List.Pairwise.nil
  tick_eq := (UInt32.ofNat_toNat).symm
  timeout_eq := nofun
  current := nofun

/-! ## Starting a timer -/

omit [DecidableEq θ] in
theorem Timers.mem_walk {timer : θ → Timer} {list : List θ} :
    u ∈ Timers.walk timer t list ↔ u = t ∨ u ∈ list := by
  induction list with
  | nil => simp [Timers.walk]
  | cons v list ih =>
      unfold Timers.walk
      split
      · rw [List.mem_cons, ih, List.mem_cons, or_left_comm]
      · split
        · rw [List.mem_cons]
        · rw [List.mem_cons, ih, List.mem_cons, or_left_comm]

omit [DecidableEq θ] in
/-- The walk compares the moments, where these are close enough. -/
theorem Timers.walk_eq {timer : θ → Timer} {due : θ → ℕ} {list : List θ}
    (ht : (timer t).timeoutTick = UInt32.ofNat (due t))
    (hlist : ∀ u ∈ list, (timer u).timeoutTick = UInt32.ofNat (due u))
    (hafter : ∀ u ∈ list, due u < due t + 0x7FFFFFFF)
    (hbefore : ∀ u ∈ list, due t < due u + 0x80000001) :
    Timers.walk timer t list = list.orderedInsert (due · < due ·) t := by
  induction list with
  | nil => rfl
  | cons u list ih =>
      have hu := List.mem_cons_self (a := u) (l := list)
      have hzero := tick_sub_eq_zero (a := due u) (b := due t)
        ((hafter u hu).trans (by omega)) ((hbefore u hu).trans (by omega))
      have hhalf := tick_sub_lt_half (hafter u hu) (hbefore u hu)
      have hrest := ih (fun v hv => hlist v (List.mem_cons_of_mem _ hv))
        (fun v hv => hafter v (List.mem_cons_of_mem _ hv))
        (fun v hv => hbefore v (List.mem_cons_of_mem _ hv))
      simp only [Timers.walk, List.orderedInsert_cons, ht, hlist u hu, hzero, hhalf, hrest]
      rcases Nat.lt_trichotomy (due u) (due t) with hlt | heq | hgt
      · simp [Nat.ne_of_lt hlt, Nat.not_le_of_lt hlt, Nat.lt_asymm hlt]
      · simp [heq]
      · simp [Nat.ne_of_gt hgt, Nat.le_of_lt hgt, hgt]

theorem Timers.agenda_start (s : Timers θ) (t : θ) :
    (s.start t).agenda =
      ⟨s.history.set t (s.timer t).initTick.toNat, insert t s.agenda.entries, s.phase.ringing⟩ := by
  have hentries : {u | u ∈ (s.start t).list} = insert t {u | u ∈ s.list} := by
    ext u
    simp only [Timers.start, Set.mem_ofPred_eq, Timers.mem_walk, Set.mem_insert_iff]
    refine or_congr_right' fun hne => ?_
    exact List.mem_erase_of_ne hne
  simp only [Timers.agenda, hentries]
  rfl

theorem Timers.Keeps.start (h : s.Keeps) (htime : (s.timer t).initTick < rtTickMax / 2) :
    (s.start t).Keeps := by
  have htimely : (s.start t).agenda.Timely (rtTickMax / 2).toNat := by
    rw [Timers.agenda_start]
    exact h.timely.set t (UInt32.lt_iff_toNat_lt.mp htime)
  have hnotmem : t ∉ s.list.erase t := h.ordered.nodup.not_mem_erase
  have hsub : ∀ u ∈ s.list.erase t, u ∈ s.list ∧ u ≠ t := fun u hu =>
    ⟨List.mem_of_mem_erase hu, fun heq => hnotmem (heq ▸ hu)⟩
  have htimeout : ∀ u, u = t ∨ u ∈ s.list.erase t →
      ((s.start t).timer u).timeoutTick = UInt32.ofNat ((s.start t).history.due u) := by
    intro u hu
    cases hu with
    | inl heq =>
        subst heq
        simp only [Timers.start, Function.update_self, Agenda.History.set_due_self,
          UInt32.ofNat_add, UInt32.ofNat_toNat, h.tick_eq]
    | inr hmem =>
        obtain ⟨hu, hne⟩ := hsub u hmem
        simp only [Timers.start, Function.update_of_ne hne, Agenda.History.set_due_of_ne hne]
        exact h.timeout_eq u hu
  have hhalf : (rtTickMax / 2).toNat = 0x7FFFFFFF := by decide
  have hbound := UInt32.lt_iff_toNat_lt.mp htime
  have hdue : ∀ u ∈ s.list.erase t, (s.start t).history.due u = s.history.due u := fun u hu =>
    Agenda.History.set_due_of_ne (hsub u hu).2
  have hdue_self : (s.start t).history.due t = s.history.now + (s.timer t).initTick.toNat :=
    Agenda.History.set_due_self
  have hlist : (s.start t).list =
      (s.list.erase t).orderedInsert
        ((s.start t).history.due · < (s.start t).history.due ·) t := by
    refine Timers.walk_eq (htimeout t (Or.inl rfl)) (fun u hu => htimeout u (Or.inr hu)) ?_ ?_
    · intro u hu
      rw [hdue u hu, hdue_self]
      have hlt : s.history.due u < s.history.now + (rtTickMax / 2).toNat :=
        h.timely.due_lt u (hsub u hu).1
      omega
    · intro u hu
      rw [hdue u hu, hdue_self]
      have hle : s.history.now ≤ s.history.due u + 1 := h.timely.due_le (hsub u hu).1
      omega
  constructor
  · exact htimely
  · rw [hlist]
    have hordered : s.history.Ordered (s.list.erase t) := h.ordered.sublist List.erase_sublist
    refine Agenda.History.Ordered.orderedInsert (.set hordered hnotmem) fun u hu => ?_
    simp only [Timers.start, Agenda.History.set_rank_of_ne (hsub u hu).2,
      Agenda.History.set_rank_self]
    exact h.timely.rank_lt u (hsub u hu).1
  · exact h.tick_eq
  · intro u hu
    exact htimeout u (Timers.mem_walk.mp hu)
  · exact h.current

/-! ## The other steps -/

/-- What is kept does not depend on the flags and the times of the timers. -/
theorem Timers.Keeps.update (h : s.Keeps) {timer : Timer}
    (htimeout : timer.timeoutTick = (s.timer t).timeoutTick) :
    Timers.Keeps { s with timer := Function.update s.timer t timer } where
  timely := h.timely
  ordered := h.ordered
  tick_eq := h.tick_eq
  timeout_eq := fun u hu => by
    refine Eq.trans ?_ (h.timeout_eq u hu)
    by_cases hne : u = t
    · subst hne
      simpa using htimeout
    · simp [Function.update_of_ne hne]
  current := h.current

theorem Timers.agenda_stop (hs : s.list.Nodup) (ht : (s.timer t).activated = true) :
    (s.stop t).1.agenda = ⟨s.history, s.agenda.entries \ {t}, s.phase.ringing⟩ := by
  have hentries : {u | u ∈ s.list.erase t} = {u | u ∈ s.list} \ {t} := by
    ext u
    simp only [Set.mem_ofPred_eq, Set.mem_sdiff, Set.mem_singleton_iff, hs.mem_erase_iff, and_comm]
  simp only [Timers.stop, ht, if_true, Timers.agenda, hentries]

theorem Timers.Keeps.stop (h : s.Keeps) (t : θ) : (s.stop t).1.Keeps := by
  cases ht : (s.timer t).activated with
  | false =>
      simp only [Timers.stop, ht]
      exact h
  | true =>
      have htimely : (s.stop t).1.agenda.Timely (rtTickMax / 2).toNat := by
        rw [Timers.agenda_stop h.ordered.nodup ht]
        exact h.timely.remove
      simp only [Timers.stop, ht, if_true] at htimely ⊢
      have hkeeps : Timers.Keeps { s with list := s.list.erase t } :=
        { timely := htimely
          ordered := h.ordered.sublist List.erase_sublist
          tick_eq := h.tick_eq
          timeout_eq := fun u hu => h.timeout_eq u (List.mem_of_mem_erase hu)
          current := h.current }
      exact hkeeps.update rfl

theorem Timers.Keeps.control (h : s.Keeps) (t : θ) (cmd : TimerCtrl) (arg : UInt32) :
    (s.control t cmd arg).Keeps := by
  refine h.update ?_
  cases cmd <;> rfl

omit [DecidableEq θ] in
/-- Whether a timer's time is up, in ticks that do not wrap. -/
theorem Timers.Keeps.expired_iff (h : s.Keeps) {currentTick : UInt32}
    (hphase : s.phase = .checking currentTick) (ht : t ∈ s.list) :
    s.expired currentTick t = true ↔ s.history.due t ≤ s.history.now := by
  have hlt : s.history.due t < s.history.now + (rtTickMax / 2).toNat := h.timely.due_lt t ht
  have hle : s.history.now ≤ s.history.due t + 1 := h.timely.due_le ht
  have hhalf : (rtTickMax / 2).toNat = 0x7FFFFFFF := by decide
  unfold Timers.expired
  rw [decide_eq_true_iff, h.current _ hphase, h.tick_eq, h.timeout_eq t ht]
  exact tick_sub_lt_half (by omega) (by omega)

omit [DecidableEq θ] in
/-- The kernel's list is in the agenda's order. -/
theorem Timers.Keeps.first {list : List θ} (h : s.Keeps) (hlist : s.list = t :: list) :
    ∀ u ∈ s.agenda.entries, u ≠ t → s.history.Earlier t u := by
  intro u hu hne
  have hu' : u ∈ s.list := hu
  have hordered := h.ordered
  rw [hlist] at hu' hordered
  exact (List.pairwise_cons.mp hordered).1 u (List.mem_of_ne_of_mem hne hu')

theorem Timers.Keeps.moves_call (h : s.Keeps) (hnext : s.next (.call t) = some s') :
    s'.Keeps ∧ s.agenda.Moves (some (.ring t)) s'.agenda := by
  obtain ⟨currentTick, list, hphase, hlist, hexpired, rfl⟩ := Timers.next_call hnext
  have hmem : t ∈ s.list := hlist ▸ List.mem_cons_self
  have hringing : s.phase.ringing = true := by rw [hphase]; rfl
  have hnodup := h.ordered.nodup
  rw [hlist] at hnodup
  have hentries : {u | u ∈ list} = s.agenda.entries \ {t} := by
    ext u
    simp only [Timers.agenda, hlist, Set.mem_sdiff, Set.mem_ofPred_eq, List.mem_cons,
      Set.mem_singleton_iff]
    have hne : u ∈ list → u ≠ t := fun hu heq => (List.nodup_cons.mp hnodup).1 (heq ▸ hu)
    tauto
  have hmoves : s.agenda.Moves (some (.ring t)) ⟨s.history, {u | u ∈ list}, true⟩ :=
    hentries ▸ .ring hringing hmem ((h.expired_iff hphase hmem).mp hexpired) (h.first hlist)
  refine ⟨?_, hmoves⟩
  constructor
  · exact h.timely.moves (by simp [Agenda.Label.Within]) hmoves
  · exact (List.pairwise_cons.mp (hlist ▸ h.ordered)).2
  · exact h.tick_eq
  · exact fun u hu => h.timeout_eq u (hlist ▸ List.mem_cons_of_mem _ hu)
  · exact nofun

theorem Timers.Keeps.moves_leave (h : s.Keeps) (hnext : s.next .leave = some s') :
    s'.Keeps ∧ s.agenda.Moves (some .rest) s'.agenda := by
  obtain ⟨currentTick, hphase, hhead, rfl⟩ := Timers.next_leave hnext
  have hringing : s.phase.ringing = true := by rw [hphase]; rfl
  have hnone : ∀ t ∈ s.list, s.history.now < s.history.due t := by
    intro t ht
    cases hlist : s.list with
    | nil => exact absurd (hlist ▸ ht) List.not_mem_nil
    | cons u list =>
        have hu : u ∈ s.list := hlist ▸ List.mem_cons_self
        have hexpired := hhead u (by rw [hlist]; rfl)
        have hlt : s.history.now < s.history.due u := by
          refine Nat.lt_of_not_le fun hle => ?_
          rw [(h.expired_iff hphase hu).mpr hle] at hexpired
          cases hexpired
        by_cases hne : t = u
        · exact hne ▸ hlt
        · exact Nat.lt_of_lt_of_le hlt (h.first hlist t ht hne).due_le
  have hmoves : s.agenda.Moves (some .rest) ⟨s.history, {u | u ∈ s.list}, false⟩ :=
    .rest hringing hnone
  refine ⟨?_, hmoves⟩
  constructor
  · exact h.timely.moves (by simp [Agenda.Label.Within]) hmoves
  · exact h.ordered
  · exact h.tick_eq
  · exact h.timeout_eq
  · exact nofun

theorem Timers.Keeps.moves_back (h : s.Keeps) (hC : s.Asserts (.back t))
    (hnext : s.next (.back t) = some s') :
    s'.Keeps ∧ s.agenda.Moves (Timers.Label.agenda s (.back t)) s'.agenda := by
  simp only [Timers.next] at hnext
  split at hnext
  · rename_i hphase
    cases hnext
    have hringing : s.phase.ringing = true := by rw [hphase]; rfl
    have hkeeps : Timers.Keeps { s with phase := .checking s.tick } :=
      { timely := by
          have htimely := h.timely
          simp only [Timers.agenda, hringing] at htimely
          exact htimely
        ordered := h.ordered
        tick_eq := h.tick_eq
        timeout_eq := h.timeout_eq
        current := fun _ heq => (Timers.Phase.checking.inj heq).symm }
    have hoff : Timers.Keeps { s with
        timer := Function.update s.timer t { s.timer t with activated := false }
        phase := .checking s.tick } := hkeeps.update rfl
    cases hagain : (s.timer t).periodic && (s.timer t).activated with
    | false =>
        simp only [Timers.back, Timers.Label.agenda, hagain, Bool.false_eq_true, if_false]
        exact ⟨hoff, by simp only [Agenda.Moves, Timers.agenda, hringing]; rfl⟩
    | true =>
        obtain ⟨hperiodic, hactivated⟩ := Bool.and_eq_true_iff.mp hagain
        have htime := hC hperiodic hactivated
        simp only [Timers.back, Timers.Label.agenda, hagain, if_true]
        refine ⟨hoff.start (by simpa using htime), ?_⟩
        rw [Timers.agenda_start]
        simp only [Function.update_self, Timers.agenda, hringing]
        exact .set t _
  · cases hnext

theorem Timers.Keeps.moves_increase (h : s.Keeps) (hnext : s.next .increase = some s') :
    s'.Keeps ∧ s.agenda.Moves (some .tick) s'.agenda := by
  simp only [Timers.next] at hnext
  split at hnext
  · rename_i hphase
    cases hnext
    have hquiet : s.phase.ringing = false := by rw [hphase]; rfl
    have hmoves : s.agenda.Moves (some .tick) s.increase.agenda := .tick hquiet
    refine ⟨?_, hmoves⟩
    constructor
    · exact h.timely.moves (by simp [Agenda.Label.Within]) hmoves
    · exact h.ordered
    · simp only [Timers.increase, Agenda.History.tick_now, UInt32.ofNat_add, ← h.tick_eq]
      rfl
    · exact h.timeout_eq
    · exact fun _ heq => (Timers.Phase.checking.inj heq).symm
  · cases hnext

/-- One step of the kernel is one step of the agenda, or none. -/
theorem Timers.Keeps.moves (h : s.Keeps) (hC : s.Asserts l) (hnext : s.next l = some s') :
    s'.Keeps ∧ s.agenda.Moves (l.agenda s) s'.agenda := by
  cases l with
  | start t =>
      obtain ⟨-, rfl⟩ := Timers.within_eq_some hnext
      refine ⟨h.start hC, ?_⟩
      rw [Timers.agenda_start]
      exact .set t _
  | stop t =>
      obtain ⟨-, rfl⟩ := Timers.within_eq_some hnext
      refine ⟨h.stop t, ?_⟩
      cases ht : (s.timer t).activated with
      | false => simp [Timers.Label.agenda, Timers.stop, ht, Agenda.Moves]
      | true =>
          rw [Timers.agenda_stop h.ordered.nodup ht]
          simp only [Timers.Label.agenda, ht, if_true]
          exact .cancel t
  | control t cmd arg =>
      obtain ⟨-, rfl⟩ := Timers.within_eq_some hnext
      exact ⟨h.control t cmd arg, rfl⟩
  | increase => exact h.moves_increase hnext
  | call t => exact h.moves_call hnext
  | back t => exact h.moves_back hC hnext
  | leave => exact h.moves_leave hnext

end Steps

/-! ## Every run -/

section Runs

variable {s s' : Timers θ} {t : θ} {l : Timers.Label θ} {tick : UInt32} {time : θ → UInt32}
  {periodic : θ → Bool}

theorem Timers.keeps_of_reach
    (h : Reach Timers.next Timers.Asserts (Timers.init tick time periodic) s) : s.Keeps :=
  h.invariant (.init tick time periodic) fun hs hC hnext => (hs.moves hC hnext).1

/-- In every run the timers on the wrapping tick do what the agenda does in
unbounded time: each step is a step of the agenda or leaves it unchanged. -/
theorem timers_refine (h : Reach Timers.next Timers.Asserts (Timers.init tick time periodic) s)
    (hC : s.Asserts l) (hnext : s.next l = some s') : s.agenda.Moves (l.agenda s) s'.agenda :=
  ((Timers.keeps_of_reach h).moves hC hnext).2

/-- A timer that is started two ticks before the tick wraps is called behind it. -/
theorem timers_refine_wrap :
    ∃ s s', Reach Timers.next Timers.Asserts
        (Timers.init 0xFFFFFFFE (fun _ : Bool => 3) fun _ => false) s ∧
      s.next (.call true) = some s' ∧ s.agenda.Moves (some (.ring true)) s'.agenda := by
  have hexec : (Transition.exec Timers.next Timers.Asserts
      (Timers.init 0xFFFFFFFE (fun _ : Bool => 3) fun _ => false)
      [.start true, .increase, .leave, .increase, .leave, .increase]).any
        (fun s => (s.next (.call true)).isSome) = true := by decide
  obtain ⟨s, hreach, hcall⟩ := Transition.exists_reach_of_exec hexec
  obtain ⟨s', hnext⟩ := Option.isSome_iff_exists.mp hcall
  exact ⟨s, s', hreach, hnext, timers_refine (l := .call true) hreach trivial hnext⟩

/-- No timer is late or early: while no tick is handled every timer's time lies
ahead, and a timer whose function is called is due, not later than in the tick
after the one it was started in if it was started for no time, and the first of
those that are armed. -/
theorem timer_on_time
    (h : Reach Timers.next Timers.Asserts (Timers.init tick time periodic) s) :
    (s.phase = .outside → ∀ t ∈ s.list, s.history.now < s.history.latest t) ∧
      ∀ t s', s.next (.call t) = some s' →
        s.history.due t ≤ s.history.now ∧ s.history.now ≤ s.history.latest t ∧
          ∀ u ∈ s.list, u ≠ t → s.history.Earlier t u := by
  have hkeeps := Timers.keeps_of_reach h
  refine ⟨fun hphase t ht => ?_, fun t s' hnext => ?_⟩
  · have hquiet : s.phase.ringing = false := by rw [hphase]; rfl
    exact hkeeps.timely.lt_latest hquiet t ht
  · exact hkeeps.timely.ring (hkeeps.moves_call hnext).2

/-- A periodic timer is called in every second tick. -/
theorem timer_on_time_periodic :
    ∃ s, Reach Timers.next Timers.Asserts
        (Timers.init 0xFFFFFFFE (fun _ : Bool => 2) fun _ => true) s ∧
      s.history.now = 0x100000002 ∧
      ∀ t s', s.next (.call t) = some s' →
        s.history.due t ≤ s.history.now ∧ s.history.now ≤ s.history.latest t ∧
          ∀ u ∈ s.list, u ≠ t → s.history.Earlier t u := by
  have hexec : (Transition.exec Timers.next Timers.Asserts
      (Timers.init 0xFFFFFFFE (fun _ : Bool => 2) fun _ => true)
      [.start true, .increase, .leave, .increase, .call true, .back true, .leave, .increase,
        .leave, .increase]).any
        (fun s => decide (s.history.now = 0x100000002)) = true := by decide
  obtain ⟨s, hreach, hnow⟩ := Transition.exists_reach_of_exec hexec
  exact ⟨s, hreach, of_decide_eq_true hnow, (timer_on_time hreach).2⟩

end Runs

end Kernel
