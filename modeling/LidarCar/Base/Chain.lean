-- SUMMARY: Singly linked lists threaded through a table of links.
import Mathlib.Data.List.Nodup
import Mathlib.Logic.Function.Basic

/-!
# Linked lists

A table gives each cell the cell after it. A list is threaded through the table
if following the links from its start visits just its cells, in order. Changing
the links of other cells leaves it as it is; the lemmas below say what the usual
changes to the cells at its ends do.
-/

namespace Chain

variable {α : Type*}

/-- Following the links from `start` visits the cells `l` and ends. -/
def Linked (next : α → Option α) : Option α → List α → Prop
  | start, [] => start = none
  | start, a :: l => start = some a ∧ Linked next (next a) l

variable {next : α → Option α} {start : Option α} {l : List α} {a : α}

@[simp] theorem linked_nil : Linked next start [] ↔ start = none := Iff.rfl

@[simp] theorem linked_cons :
    Linked next start (a :: l) ↔ start = some a ∧ Linked next (next a) l := Iff.rfl

theorem linked_none : Linked next none l ↔ l = [] := by
  cases l with
  | nil => simp
  | cons a l => simp

theorem Linked.head? (h : Linked next start l) : start = l.head? := by
  cases l with
  | nil => exact h
  | cons a l => exact h.1

/-- A list that does not end at once begins with its start. -/
theorem Linked.of_some (h : Linked next (some a) l) :
    ∃ l', l = a :: l' ∧ Linked next (next a) l' := by
  cases l with
  | nil => cases h
  | cons b l =>
      obtain ⟨hb, hl⟩ := h
      obtain rfl := Option.some.inj hb
      exact ⟨l, rfl, hl⟩

/-- The links lead through one list only. -/
theorem Linked.unique {l' : List α} (h : Linked next start l) (h' : Linked next start l') :
    l = l' := by
  induction l generalizing start l' with
  | nil =>
      rw [linked_nil] at h
      rw [h, linked_none] at h'
      exact h'.symm
  | cons a l ih =>
      obtain ⟨rfl, hl⟩ := h
      obtain ⟨l'', rfl, hl'⟩ := h'.of_some
      rw [ih hl hl']

theorem Linked.drop {l₁ l₂ : List α} (h : Linked next start (l₁ ++ a :: l₂)) :
    Linked next (some a) (a :: l₂) := by
  induction l₁ generalizing start with
  | nil => exact ⟨rfl, h.2⟩
  | cons b l₁ ih => exact ih h.2

/-- A list that ends visits no cell twice. -/
theorem Linked.nodup (h : Linked next start l) : l.Nodup := by
  induction l generalizing start with
  | nil => exact List.nodup_nil
  | cons a l ih =>
      refine List.nodup_cons.mpr ⟨fun ha => ?_, ih h.2⟩
      -- the list from the second visit on would be the whole list
      obtain ⟨l₁, l₂, rfl⟩ := List.append_of_mem ha
      have hagain : Linked next (some a) (a :: l₂) := h.2.drop
      have heq := (show Linked next (some a) (a :: (l₁ ++ a :: l₂)) from ⟨rfl, h.2⟩).unique hagain
      have hlength := congrArg List.length heq
      simp only [List.length_cons, List.length_append] at hlength
      omega

/-- Only the links of its own cells matter to a list. -/
theorem Linked.congr {next' : α → Option α} (h : Linked next start l)
    (hsame : ∀ a ∈ l, next' a = next a) : Linked next' start l := by
  induction l generalizing start with
  | nil => exact h
  | cons a l ih =>
      refine ⟨h.1, ?_⟩
      rw [hsame a List.mem_cons_self]
      exact ih h.2 fun b hb => hsame b (List.mem_cons_of_mem a hb)

section Update

variable [DecidableEq α]

theorem Linked.update (h : Linked next start l) (ha : a ∉ l) (b : Option α) :
    Linked (Function.update next a b) start l := by
  apply h.congr
  intro c hc
  have hne : c ≠ a := by
    rintro rfl
    exact ha hc
  rw [Function.update_of_ne hne]

/-- A cell is put before the first one. -/
theorem Linked.push (h : Linked next start l) (ha : a ∉ l) :
    Linked (Function.update next a start) (some a) (a :: l) := by
  refine ⟨rfl, ?_⟩
  rw [Function.update_self]
  exact h.update ha start

/-- A cell without a successor is put after the last one. -/
theorem Linked.concat {t : α} (h : Linked next start (l ++ [t])) (ha : a ∉ l ++ [t])
    (hnone : next a = none) :
    Linked (Function.update next t (some a)) start (l ++ [t] ++ [a]) := by
  induction l generalizing start with
  | nil =>
      have hne : a ≠ t := by
        rintro rfl
        exact ha List.mem_cons_self
      refine ⟨h.1, ?_⟩
      rw [Function.update_self]
      refine ⟨rfl, ?_⟩
      rw [Function.update_of_ne hne]
      exact hnone
  | cons b l ih =>
      have hb : b ≠ t := by
        rintro rfl
        have hnodup := h.nodup
        simp at hnodup
      refine ⟨h.1, ?_⟩
      rw [Function.update_of_ne hb]
      exact ih h.2 fun hmem => ha (List.mem_cons_of_mem b hmem)

end Update

end Chain
