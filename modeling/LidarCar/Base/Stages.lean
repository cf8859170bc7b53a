-- SUMMARY: Sequences of calls with an early return at the first failure: what was called, and what the code returned says.
import Mathlib.Data.List.Basic

/-!
# Stages

A function that calls others one after the other, and returns a code of its own
at the first whose result it looks at and finds to be a failure. Results that it
does not look at never stop it.
-/

namespace Stages

variable {σ ε : Type*}

/-- Call the stages in order. With each comes the code to return if it fails, or
nothing if its result is not looked at. -/
def run (fails : σ → Bool) : List (σ × Option ε) → Option ε × List σ
  | [] => (none, [])
  | (stage, code) :: steps =>
    if code.isSome ∧ fails stage then (code, [stage])
    else
      let r := run fails steps
      (r.1, stage :: r.2)

/-- The stages whose results are looked at. -/
def checked (steps : List (σ × Option ε)) : List σ :=
  (steps.filter fun step => step.2.isSome).map Prod.fst

theorem mem_of_checked {steps : List (σ × Option ε)} {stage : σ} (h : stage ∈ checked steps) :
    stage ∈ steps.map Prod.fst :=
  List.map_subset Prod.fst List.filter_sublist.subset h

variable {fails : σ → Bool}

theorem run_cons_fail {stage : σ} {code : Option ε} (h : code.isSome ∧ fails stage)
    (steps : List (σ × Option ε)) : run fails ((stage, code) :: steps) = (code, [stage]) := by
  rw [run, if_pos h]

theorem run_cons_pass {stage : σ} {code : Option ε} (h : ¬ (code.isSome ∧ fails stage))
    (steps : List (σ × Option ε)) :
    run fails ((stage, code) :: steps) =
      ((run fails steps).1, stage :: (run fails steps).2) := by
  rw [run, if_neg h]

theorem forall_checked_cons {P : σ → Prop} {stage : σ} {code : Option ε}
    {steps : List (σ × Option ε)} :
    (∀ s ∈ checked ((stage, code) :: steps), P s) ↔
      (code.isSome → P stage) ∧ ∀ s ∈ checked steps, P s := by
  cases code with
  | none => simp [checked]
  | some c => simp [checked]

/-- No code is returned exactly if no result that is looked at is a failure. -/
theorem run_eq_none_iff {steps : List (σ × Option ε)} :
    (run fails steps).1 = none ↔ ∀ s ∈ checked steps, fails s = false := by
  induction steps with
  | nil => exact iff_of_true rfl nofun
  | cons step steps ih =>
      obtain ⟨stage, code⟩ := step
      rw [forall_checked_cons]
      by_cases h : code.isSome ∧ fails stage
      · rw [run_cons_fail h]
        refine iff_of_false (Option.isSome_iff_ne_none.mp h.1) fun hall => ?_
        exact Bool.false_ne_true ((hall.1 h.1).symm.trans h.2)
      · rw [run_cons_pass h, ih]
        refine (and_iff_right fun hcode => ?_).symm
        exact Bool.eq_false_iff.mpr fun hfails => h ⟨hcode, hfails⟩

/-- Then all stages have been called. -/
theorem run_calls {steps : List (σ × Option ε)} (h : (run fails steps).1 = none) :
    (run fails steps).2 = steps.map Prod.fst := by
  induction steps with
  | nil => rfl
  | cons step steps ih =>
      obtain ⟨stage, code⟩ := step
      by_cases hstop : code.isSome ∧ fails stage
      · rw [run_cons_fail hstop] at h
        exact absurd h (Option.isSome_iff_ne_none.mp hstop.1)
      · rw [run_cons_pass hstop] at h ⊢
        rw [ih h, List.map_cons]

/-- A code is that of the last stage called, which is the first to fail. -/
theorem run_eq_some {steps : List (σ × Option ε)} {code : ε}
    (h : (run fails steps).1 = some code) :
    ∃ done stage rest, steps = done ++ (stage, some code) :: rest ∧ fails stage = true ∧
      (∀ s ∈ checked done, fails s = false) ∧
        (run fails steps).2 = done.map Prod.fst ++ [stage] := by
  induction steps with
  | nil => cases h
  | cons step steps ih =>
      obtain ⟨stage, code'⟩ := step
      by_cases hstop : code'.isSome ∧ fails stage
      · rw [run_cons_fail hstop] at h ⊢
        obtain rfl : code' = some code := h
        exact ⟨[], stage, steps, rfl, hstop.2, nofun, rfl⟩
      · rw [run_cons_pass hstop] at h ⊢
        obtain ⟨done, last, rest, rfl, hfails, hdone, hcalls⟩ := ih h
        refine ⟨(stage, code') :: done, last, rest, rfl, hfails, ?_, ?_⟩
        · refine forall_checked_cons.mpr ⟨fun hcode => ?_, hdone⟩
          exact Bool.eq_false_iff.mpr fun hstage => hstop ⟨hcode, hstage⟩
        · rw [hcalls, List.map_cons, List.cons_append]

end Stages
