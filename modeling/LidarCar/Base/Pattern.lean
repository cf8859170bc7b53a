-- SUMMARY: Occurrences of a pattern in a growing text.
import Mathlib.Data.List.Basic

/-!
# Patterns in a text

A pattern whose first symbol occurs nowhere else in it does not overlap itself,
so appending it to a text adds one occurrence and no other.
-/

namespace Pattern

variable {α : Type*} {pat text : List α} {p : Nat}

/-- `pat` occurs in `text` at position `p`. -/
def OccursAt (pat text : List α) (p : Nat) : Prop :=
  ∀ i, i < pat.length → text[p + i]? = pat[i]?

theorem OccursAt.le_length (h : OccursAt pat text p) (hpat : pat ≠ []) :
    p + pat.length ≤ text.length := by
  have hpos : 0 < pat.length := List.length_pos_iff.mpr hpat
  have hlast := h (pat.length - 1) (by omega)
  rw [List.getElem?_eq_getElem (show pat.length - 1 < pat.length by omega)] at hlast
  obtain ⟨hlt, -⟩ := List.getElem?_eq_some_iff.mp hlast
  omega

theorem OccursAt.append (h : OccursAt pat text p) (more : List α) :
    OccursAt pat (text ++ more) p := fun i hi => by
  have hp := h i hi
  rw [List.getElem?_eq_getElem hi] at hp
  obtain ⟨hlt, -⟩ := List.getElem?_eq_some_iff.mp hp
  rw [List.getElem?_append_left hlt, hp, List.getElem?_eq_getElem hi]

/-- An occurrence that ends within the old text is an old occurrence. -/
theorem OccursAt.of_append {more : List α} (h : OccursAt pat (text ++ more) p)
    (hend : p + pat.length ≤ text.length) : OccursAt pat text p := fun i hi => by
  rw [← h i hi, List.getElem?_append_left (by omega)]

theorem occursAt_length_append (pat text : List α) : OccursAt pat (text ++ pat) text.length :=
  fun i _ => by rw [List.getElem?_append_right (by omega), Nat.add_sub_cancel_left]

/-- One more symbol completes an occurrence or adds none. -/
theorem OccursAt.of_concat {a : α} (h : OccursAt pat (text ++ [a]) p)
    (hsuffix : ¬ pat <:+ text ++ [a]) : OccursAt pat text p := by
  rcases Nat.lt_or_ge text.length (p + pat.length) with hlt | hge
  · refine absurd ?_ hsuffix
    have hpat : pat ≠ [] := fun hnil => hsuffix (hnil ▸ List.nil_suffix)
    have hle := h.le_length hpat
    rw [List.length_append, List.length_singleton] at hle
    have hdrop : (text ++ [a]).drop p = pat := by
      apply List.ext_getElem?
      intro i
      rw [List.getElem?_drop]
      rcases Nat.lt_or_ge i pat.length with hi | hi
      · exact h i hi
      · rw [List.getElem?_eq_none (by simp; omega), List.getElem?_eq_none hi]
    rw [← hdrop]
    exact List.drop_suffix p _
  · exact h.of_append hge

/-- Appending the pattern adds the one occurrence at the end. -/
theorem OccursAt.of_append_self (hfirst : ∀ i, 0 < i → i < pat.length → pat[i]? ≠ pat[0]?)
    (h : OccursAt pat (text ++ pat) p) (hpat : pat ≠ []) :
    OccursAt pat text p ∨ p = text.length := by
  have hle := h.le_length hpat
  rw [List.length_append] at hle
  rcases Nat.lt_or_ge text.length (p + pat.length) with hlt | hge
  · right
    by_contra hne
    -- the symbol after the old text is the first of the appended pattern
    have hi : text.length - p < pat.length := by omega
    have hfst := h (text.length - p) hi
    rw [show p + (text.length - p) = text.length by omega,
      List.getElem?_append_right (Nat.le_refl _), Nat.sub_self] at hfst
    exact hfirst (text.length - p) (by omega) hi hfst.symm
  · exact Or.inl (h.of_append hge)

end Pattern
