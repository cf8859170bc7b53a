-- SUMMARY: Agendas: entries that are rung when they are due, the earliest first, in time that does not end.
import Mathlib.Data.List.Sort
import Mathlib.Data.Set.Insert
import Mathlib.Logic.Function.Basic

/-!
# Agendas

An entry of an agenda is set for a number of moments from now, and is rung when
they have passed unless it is cancelled. Time passes in moments: the entries that
are due in a moment are rung one after the other, and the next moment comes when
none is left.
-/

variable {θ : Type*}

/-- When the entries of an agenda were set, and for when. -/
structure Agenda.History (θ : Type*) where
  now : ℕ
  due : θ → ℕ
  since : θ → ℕ
  /-- How many entries were set before this one. -/
  rank : θ → ℕ
  count : ℕ

structure Agenda (θ : Type*) extends Agenda.History θ where
  entries : Set θ
  /-- The entries that are due are being rung. -/
  ringing : Bool

namespace Agenda

/-- `t` is due before `u`, or at the same time and was set before it. -/
def History.Earlier (h : History θ) (t u : θ) : Prop :=
  h.due t < h.due u ∨ h.due t = h.due u ∧ h.rank t < h.rank u

def History.tick (h : History θ) : History θ :=
  { h with now := h.now + 1 }

def History.set [DecidableEq θ] (h : History θ) (t : θ) (time : ℕ) : History θ :=
  { h with
    due := Function.update h.due t (h.now + time)
    since := Function.update h.since t h.now
    rank := Function.update h.rank t h.count
    count := h.count + 1 }

/-- The moment in which `t` is rung at the latest: an entry that is set for the
moment it is set in may have to wait for the next. -/
def History.latest (h : History θ) (t : θ) : ℕ :=
  max (h.due t) (h.since t + 1)

inductive Label (θ : Type*) where
  | set (t : θ) (time : ℕ)
  | cancel (t : θ)
  | tick
  | ring (t : θ)
  | rest

inductive Step [DecidableEq θ] : Agenda θ → Label θ → Agenda θ → Prop where
  | set {a : Agenda θ} (t : θ) (time : ℕ) :
      Step a (.set t time) ⟨a.toHistory.set t time, insert t a.entries, a.ringing⟩
  | cancel {a : Agenda θ} (t : θ) : Step a (.cancel t) ⟨a.toHistory, a.entries \ {t}, a.ringing⟩
  | tick {a : Agenda θ} (hquiet : a.ringing = false) :
      Step a .tick ⟨a.toHistory.tick, a.entries, true⟩
  /-- The earliest of the entries is rung, if it is due. -/
  | ring {a : Agenda θ} {t : θ} (hringing : a.ringing = true) (hmem : t ∈ a.entries)
      (hdue : a.due t ≤ a.now) (hfirst : ∀ u ∈ a.entries, u ≠ t → a.Earlier t u) :
      Step a (.ring t) ⟨a.toHistory, a.entries \ {t}, true⟩
  | rest {a : Agenda θ} (hringing : a.ringing = true) (hnone : ∀ t ∈ a.entries, a.now < a.due t) :
      Step a .rest ⟨a.toHistory, a.entries, false⟩

/-- A step, or none. -/
def Moves [DecidableEq θ] (a : Agenda θ) : Option (Label θ) → Agenda θ → Prop
  | some l, a' => Step a l a'
  | none, a' => a' = a

/-- The entry is not set for later than the horizon. -/
def Label.Within (horizon : ℕ) : Label θ → Prop
  | .set _ time => time < horizon
  | _ => True

/-- No entry is missed. -/
structure Timely (horizon : ℕ) (a : Agenda θ) : Prop where
  since_le_due : ∀ t ∈ a.entries, a.since t ≤ a.due t
  /-- The moment has not passed in which the entry must be rung. -/
  le_latest : ∀ t ∈ a.entries, a.now ≤ a.latest t
  /-- Nor is it over. -/
  lt_latest : a.ringing = false → ∀ t ∈ a.entries, a.now < a.latest t
  due_lt : ∀ t ∈ a.entries, a.due t < a.now + horizon
  rank_lt : ∀ t ∈ a.entries, a.rank t < a.count

section Histories

variable {h : History θ} {t u v : θ}

@[simp] theorem History.tick_now : h.tick.now = h.now + 1 := rfl
@[simp] theorem History.tick_due : h.tick.due = h.due := rfl
@[simp] theorem History.tick_rank : h.tick.rank = h.rank := rfl

theorem History.Earlier.irrefl : ¬ h.Earlier t t := by
  intro hearlier
  cases hearlier with
  | inl hlt => exact Nat.lt_irrefl _ hlt
  | inr hlt => exact Nat.lt_irrefl _ hlt.2

theorem History.Earlier.ne (hearlier : h.Earlier t u) : t ≠ u := by
  intro heq
  exact Earlier.irrefl (heq ▸ hearlier)

theorem History.Earlier.due_le (hearlier : h.Earlier t u) : h.due t ≤ h.due u := by
  cases hearlier with
  | inl hlt => exact Nat.le_of_lt hlt
  | inr heq => exact Nat.le_of_eq heq.1

/-- A list in the order of the moments, and for one moment in the order of setting. -/
abbrev History.Ordered (h : History θ) (l : List θ) : Prop :=
  l.Pairwise h.Earlier

theorem History.Ordered.nodup {l : List θ} (hl : h.Ordered l) : l.Nodup :=
  List.Pairwise.imp Earlier.ne hl

variable [DecidableEq θ] {time : ℕ}

@[simp] theorem History.set_now : (h.set t time).now = h.now := rfl
@[simp] theorem History.set_count : (h.set t time).count = h.count + 1 := rfl

@[simp] theorem History.set_due_self : (h.set t time).due t = h.now + time :=
  Function.update_self ..

@[simp] theorem History.set_since_self : (h.set t time).since t = h.now :=
  Function.update_self ..

@[simp] theorem History.set_rank_self : (h.set t time).rank t = h.count :=
  Function.update_self ..

theorem History.set_due_of_ne (hne : u ≠ t) : (h.set t time).due u = h.due u :=
  Function.update_of_ne hne ..

theorem History.set_since_of_ne (hne : u ≠ t) : (h.set t time).since u = h.since u :=
  Function.update_of_ne hne ..

theorem History.set_rank_of_ne (hne : u ≠ t) : (h.set t time).rank u = h.rank u :=
  Function.update_of_ne hne ..

theorem History.set_latest_of_ne (hne : u ≠ t) : (h.set t time).latest u = h.latest u := by
  unfold History.latest
  rw [set_due_of_ne hne, set_since_of_ne hne]

theorem History.Earlier.set (hu : u ≠ t) (hv : v ≠ t) (hearlier : h.Earlier u v) :
    (h.set t time).Earlier u v := by
  unfold History.Earlier
  rw [set_due_of_ne hu, set_due_of_ne hv, set_rank_of_ne hu, set_rank_of_ne hv]
  exact hearlier

omit [DecidableEq θ] in
/-- An entry that was set last goes behind those that are due before it or with it. -/
theorem History.Ordered.orderedInsert {l : List θ} (hl : h.Ordered l)
    (hrank : ∀ u ∈ l, h.rank u < h.rank t) :
    h.Ordered (l.orderedInsert (h.due · < h.due ·) t) := by
  induction l with
  | nil => exact List.pairwise_singleton _ _
  | cons u l ih =>
      obtain ⟨hu, hrest⟩ := List.pairwise_cons.mp hl
      rw [List.orderedInsert]
      split
      · rename_i hlt
        refine List.pairwise_cons.mpr ⟨fun v hv => Or.inl ?_, hl⟩
        cases List.mem_cons.mp hv with
        | inl heq => exact heq ▸ hlt
        | inr hmem => exact Nat.lt_of_lt_of_le hlt (hu v hmem).due_le
      · rename_i hle
        refine List.pairwise_cons.mpr
          ⟨fun v hv => ?_, ih hrest fun v hv => hrank v (List.mem_cons_of_mem _ hv)⟩
        cases (List.mem_orderedInsert _).mp hv with
        | inl heq =>
            cases Nat.lt_or_eq_of_le (Nat.le_of_not_lt hle) with
            | inl hlt => exact Or.inl (heq ▸ hlt)
            | inr hdue => exact Or.inr (heq ▸ ⟨hdue, hrank u List.mem_cons_self⟩)
        | inr hmem => exact hu v hmem

/-- The other entries keep their order. -/
theorem History.Ordered.set {l : List θ} (hl : h.Ordered l) (ht : t ∉ l) :
    (h.set t time).Ordered l :=
  List.Pairwise.imp_of_mem
    (fun hu hv hearlier => hearlier.set (fun heq => ht (heq ▸ hu)) (fun heq => ht (heq ▸ hv))) hl

end Histories

/-! ## No entry is missed -/

section Steps

variable [DecidableEq θ] {horizon : ℕ} {a a' : Agenda θ} {l : Label θ} {t : θ}

omit [DecidableEq θ] in
theorem Timely.due_le (h : Timely horizon a) (ht : t ∈ a.entries) : a.now ≤ a.due t + 1 := by
  have hlatest := h.le_latest t ht
  have hsince := h.since_le_due t ht
  unfold History.latest at hlatest
  omega

omit [DecidableEq θ] in
/-- Fewer entries. -/
theorem Timely.remove (h : Timely horizon a) :
    Timely horizon ⟨a.toHistory, a.entries \ {t}, a.ringing⟩ where
  since_le_due := fun u hu => h.since_le_due u hu.1
  le_latest := fun u hu => h.le_latest u hu.1
  lt_latest := fun hquiet u hu => h.lt_latest hquiet u hu.1
  due_lt := fun u hu => h.due_lt u hu.1
  rank_lt := fun u hu => h.rank_lt u hu.1

theorem Timely.set (h : Timely horizon a) (t : θ) {time : ℕ} (htime : time < horizon) :
    Timely horizon ⟨a.toHistory.set t time, insert t a.entries, a.ringing⟩ := by
  have hself : ∀ u ∈ insert t a.entries, u ≠ t → u ∈ a.entries := fun u hu hne =>
    Set.mem_of_mem_insert_of_ne hu hne
  constructor
  · intro u hu
    by_cases hne : u = t
    · subst hne
      simp
    · simp only [History.set_since_of_ne hne, History.set_due_of_ne hne]
      exact h.since_le_due u (hself u hu hne)
  · intro u hu
    by_cases hne : u = t
    · subst hne
      simp [History.latest]
    · simp only [History.set_latest_of_ne hne]
      exact h.le_latest u (hself u hu hne)
  · intro hquiet u hu
    by_cases hne : u = t
    · subst hne
      simp [History.latest]
    · simp only [History.set_latest_of_ne hne]
      exact h.lt_latest hquiet u (hself u hu hne)
  · intro u hu
    by_cases hne : u = t
    · subst hne
      simpa using htime
    · simp only [History.set_due_of_ne hne]
      exact h.due_lt u (hself u hu hne)
  · intro u hu
    by_cases hne : u = t
    · subst hne
      simp
    · simp only [History.set_rank_of_ne hne]
      exact Nat.lt_succ_of_lt (h.rank_lt u (hself u hu hne))

theorem Timely.step (h : Timely horizon a) (hl : l.Within horizon) (hstep : Step a l a') :
    Timely horizon a' := by
  cases hstep with
  | set t time => exact h.set t hl
  | cancel t => exact h.remove
  | tick hquiet =>
      exact
        { since_le_due := h.since_le_due
          le_latest := h.lt_latest hquiet
          lt_latest := nofun
          due_lt := fun t ht => by
            have hlt := h.due_lt t ht
            simp only [History.tick_due, History.tick_now]
            omega
          rank_lt := h.rank_lt }
  | @ring t hringing hmem hdue hfirst =>
      have hremove := h.remove (t := t)
      rw [hringing] at hremove
      exact hremove
  | rest hringing hnone =>
      exact
        { since_le_due := h.since_le_due
          le_latest := h.le_latest
          lt_latest := fun _ t ht => Nat.lt_of_lt_of_le (hnone t ht) (Nat.le_max_left _ _)
          due_lt := h.due_lt
          rank_lt := h.rank_lt }

/-- An entry is rung when it is due, at the latest in its last moment, and before
the others. -/
theorem Timely.ring (h : Timely horizon a) (hstep : Step a (.ring t) a') :
    a.due t ≤ a.now ∧ a.now ≤ a.latest t ∧ ∀ u ∈ a.entries, u ≠ t → a.Earlier t u := by
  cases hstep with
  | ring hringing hmem hdue hfirst => exact ⟨hdue, h.le_latest t hmem, hfirst⟩

theorem Timely.moves {l : Option (Label θ)} (h : Timely horizon a)
    (hl : ∀ l' ∈ l, l'.Within horizon) (hmoves : a.Moves l a') : Timely horizon a' := by
  cases l with
  | none => exact hmoves ▸ h
  | some l => exact h.step (hl l rfl) hmoves

end Steps

end Agenda
