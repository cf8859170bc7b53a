-- SUMMARY: A matcher for a two-symbol header that drops the symbol it does not expect.
import Mathlib.Algebra.Group.Nat.Even
import Mathlib.Data.List.Induction
import LidarCar.Base.Machine
import LidarCar.Base.Pattern

/-!
# Hunting for a header

A program that hunts for `a b` reads a symbol, and if it is `a` reads a second
one. If that is not `b` the hunt begins again behind it, also where it is an `a`.
So behind a run of `a` it stands in one of two states by the parity of the run.
-/

namespace Hunt

open Pattern (OccursAt)

variable {ι : Type*} [DecidableEq ι]

/-- The length of the run of `a` that `g` ends with. -/
def trailing (a : ι) (g : List ι) : Nat :=
  (g.reverse.takeWhile (· = a)).length

/-- `a b` occurs first behind `g`. -/
def Garbage (a b : ι) (g : List ι) : Prop :=
  ¬ [a, b] <:+: g ∧ ∀ p, OccursAt [a, b] (g ++ [a, b]) p → p = g.length

omit [DecidableEq ι] in
theorem infix_of_occursAt {a b : ι} {g : List ι} {p : Nat} (h : OccursAt [a, b] g p) :
    [a, b] <:+: g := by
  have hle := h.le_length (List.cons_ne_nil a [b])
  have hfirst := h 0 Nat.zero_lt_two
  have hsecond := h 1 Nat.one_lt_two
  obtain ⟨hlt, ha⟩ := List.getElem?_eq_some_iff.mp hfirst
  obtain ⟨hlt', hb⟩ := List.getElem?_eq_some_iff.mp hsecond
  refine ⟨g.take p, g.drop (p + 2), ?_⟩
  calc g.take p ++ [a, b] ++ g.drop (p + 2)
      = g.take p ++ g[p] :: g[p + 1] :: g.drop (p + 1 + 1) := by
        rw [List.append_assoc, ← ha, ← hb]
        rfl
    _ = g.take p ++ g.drop p := by
        rw [List.getElem_cons_drop, List.getElem_cons_drop]
    _ = g := List.take_append_drop p g

omit [DecidableEq ι] in
/-- A header of two different symbols does not overlap itself. -/
theorem garbage_iff {a b : ι} (hab : a ≠ b) {g : List ι} :
    Garbage a b g ↔ ¬ [a, b] <:+: g := by
  refine ⟨fun h => h.1, fun h => ⟨h, fun p hp => ?_⟩⟩
  have hfirst : ∀ i, 0 < i → i < [a, b].length → [a, b][i]? ≠ [a, b][0]? := by
    intro i hpos hlt
    obtain rfl : i = 1 := by
      simp only [List.length_cons, List.length_nil] at hlt
      omega
    exact fun heq => hab (Option.some.inj heq).symm
  rcases hp.of_append_self hfirst (List.cons_ne_nil a [b]) with hocc | hend
  · exact absurd (infix_of_occursAt hocc) h
  · exact hend

theorem trailing_concat (a x : ι) (g : List ι) :
    trailing a (g ++ [x]) = if x = a then trailing a g + 1 else 0 := by
  rw [trailing, List.reverse_append, List.reverse_singleton, List.singleton_append]
  split
  case isTrue h =>
    rw [List.takeWhile_cons_of_pos (by simpa using h), List.length_cons, trailing]
  case isFalse h => rw [List.takeWhile_cons_of_neg (by simpa using h), List.length_nil]

/-- A string with a run at its end ends with its symbol. -/
theorem exists_concat_of_trailing {a : ι} {g : List ι} (h : trailing a g ≠ 0) :
    ∃ g', g = g' ++ [a] := by
  induction g using List.reverseRecOn with
  | nil => exact absurd rfl h
  | append_singleton g x =>
      rw [trailing_concat] at h
      split at h
      · next hx => exact ⟨g, by rw [hx]⟩
      · exact absurd rfl h

/-! ## The states of the hunt -/

variable {σ ω : Type*} {step : σ → ι → σ × List ω}

/-- `s₁` hunts for `a b`, and `s₂` has read `a`. -/
structure Hunts (step : σ → ι → σ × List ω) (a b : ι) (s₁ s₂ : σ) : Prop where
  first : ∀ x, step s₁ x = (if x = a then s₂ else s₁, [])
  second : ∀ x, x ≠ b → step s₂ x = (s₁, [])

/-- Without the header the state is told by the run of `a` at the end. -/
theorem Hunts.run {a b : ι} {s₁ s₂ : σ} (h : Hunts step a b s₁ s₂) {g : List ι}
    (hg : ¬ [a, b] <:+: g) :
    Machine.run step s₁ g = (if trailing a g % 2 = 1 then s₂ else s₁, []) := by
  induction g using List.reverseRecOn with
  | nil => rfl
  | append_singleton g x ih =>
      have hprefix : ¬ [a, b] <:+: g := fun hocc =>
        hg (hocc.trans (List.prefix_append g [x]).isInfix)
      rw [Machine.run_concat, ih hprefix, trailing_concat, List.nil_append]
      by_cases hodd : trailing a g % 2 = 1
      · have hx : x ≠ b := by
          rintro rfl
          obtain ⟨g', rfl⟩ := exists_concat_of_trailing (a := a) (g := g) (by omega)
          exact hg ⟨g', [], by simp⟩
        rw [if_pos hodd, h.second x hx, if_neg]
        split <;> omega
      · rw [if_neg hodd, h.first x]
        by_cases hx : x = a
        · rw [if_pos hx, if_pos hx, if_pos (by omega)]
        · rw [if_neg hx, if_neg hx, if_neg (by decide)]

/-- Behind a run of even length the hunt is where it began. -/
theorem Hunts.run_append_of_even {a b : ι} {s₁ s₂ : σ} (h : Hunts step a b s₁ s₂) {g : List ι}
    (hg : ¬ [a, b] <:+: g) (heven : Even (trailing a g)) (is : List ι) :
    Machine.run step s₁ (g ++ is) = Machine.run step s₁ is := by
  have hne : ¬ trailing a g % 2 = 1 := by
    rw [Nat.even_iff.mp heven]
    decide
  rw [Machine.run_append, h.run hg, if_neg hne, List.nil_append]

/-- Behind a run of odd length it has already read an `a`. -/
theorem Hunts.run_append_of_odd {a b : ι} {s₁ s₂ : σ} (h : Hunts step a b s₁ s₂) {g : List ι}
    (hg : ¬ [a, b] <:+: g) (hodd : ¬ Even (trailing a g)) (is : List ι) :
    Machine.run step s₁ (g ++ is) = Machine.run step s₂ is := by
  have hone : trailing a g % 2 = 1 := Nat.not_even_iff.mp hodd
  rw [Machine.run_append, h.run hg, if_pos hone, List.nil_append]

end Hunt
