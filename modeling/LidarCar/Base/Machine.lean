-- SUMMARY: Input-driven machines: runs over input lists, their outputs, and conditions on the steps a run visits.
import Mathlib.Data.List.Basic

/-!
# Input-driven machines

A machine answers each input with a new state and a list of outputs. A program
that blocks on its next input is such a machine: one step is everything it does
between two reads. A loop over a list of indices is one too.
-/

namespace Machine

variable {σ ι ω : Type*}

/-- Feed a list of inputs, collecting the outputs in order. -/
def run (step : σ → ι → σ × List ω) : σ → List ι → σ × List ω
  | s, [] => (s, [])
  | s, i :: is =>
    let r := step s i
    let q := run step r.1 is
    (q.1, r.2 ++ q.2)

/-- Every step of the run on `is` satisfies `P` at the state it starts from. -/
def Along (step : σ → ι → σ × List ω) (P : σ → ι → Prop) : σ → List ι → Prop
  | _, [] => True
  | s, i :: is => P s i ∧ Along step P (step s i).1 is

/-- Run up to and including the first step that outputs something satisfying
`stop`, and return the state reached with the outputs so far. -/
def runTo (step : σ → ι → σ × List ω) (stop : ω → Bool) : σ → List ι → Option (σ × List ω)
  | _, [] => none
  | s, i :: is =>
    let r := step s i
    if r.2.any stop then some r
    else (runTo step stop r.1 is).map (fun q => (q.1, r.2 ++ q.2))

/-- Every step of the run on `is` satisfies `P`, which may look at the inputs that
are still to come. -/
def Ahead (step : σ → ι → σ × List ω) (P : σ → ι → List ι → Prop) : σ → List ι → Prop
  | _, [] => True
  | s, i :: is => P s i is ∧ Ahead step P (step s i).1 is

variable {step : σ → ι → σ × List ω}

/-! ## Runs -/

@[simp] theorem run_nil (s : σ) : run step s [] = (s, []) := rfl

@[simp] theorem run_cons (s : σ) (i : ι) (is : List ι) :
    run step s (i :: is) =
      ((run step (step s i).1 is).1, (step s i).2 ++ (run step (step s i).1 is).2) := rfl

theorem run_append (s : σ) (is js : List ι) :
    run step s (is ++ js) =
      ((run step (run step s is).1 js).1,
        (run step s is).2 ++ (run step (run step s is).1 js).2) := by
  induction is generalizing s with
  | nil => simp
  | cons i is ih => simp [ih, List.append_assoc]

theorem run_concat (s : σ) (is : List ι) (i : ι) :
    run step s (is ++ [i]) =
      ((step (run step s is).1 i).1, (run step s is).2 ++ (step (run step s is).1 i).2) := by
  simp [run_append]

/-- An invariant of the single step is an invariant of the run. -/
theorem run_invariant {I : σ → Prop} (hstep : ∀ s i, I s → I (step s i).1) {s : σ} (hs : I s)
    (is : List ι) : I (run step s is).1 := by
  induction is generalizing s with
  | nil => exact hs
  | cons i is ih => exact ih (hstep s i hs)

/-- A machine that skips some inputs and hands the others to another machine
runs that machine on the inputs it does not skip. -/
theorem run_filterMap {κ : Type*} {step' : σ → κ → σ × List ω} {f : ι → Option κ}
    (h : ∀ s i, step s i = (f i).elim (s, []) (step' s)) (s : σ) (is : List ι) :
    run step s is = run step' s (is.filterMap f) := by
  induction is generalizing s with
  | nil => rfl
  | cons i is ih =>
      rw [run_cons, h]
      cases hf : f i with
      | none => simp [ih, hf]
      | some k => simp [ih, hf]

/-! ## Conditions along a run -/

@[simp] theorem along_nil (P : σ → ι → Prop) (s : σ) : Along step P s [] := trivial

@[simp] theorem along_cons {P : σ → ι → Prop} {s : σ} {i : ι} {is : List ι} :
    Along step P s (i :: is) ↔ P s i ∧ Along step P (step s i).1 is := Iff.rfl

theorem along_append {P : σ → ι → Prop} {s : σ} {is js : List ι} :
    Along step P s (is ++ js) ↔ Along step P s is ∧ Along step P (run step s is).1 js := by
  induction is generalizing s with
  | nil => simp
  | cons i is ih => simp only [List.cons_append, along_cons, ih, run_cons, and_assoc]

/-- A property of all outputs is a property of each step's outputs. -/
theorem outputs_iff_along {Q : ω → Prop} {s : σ} {is : List ι} :
    (∀ o ∈ (run step s is).2, Q o) ↔ Along step (fun s i => ∀ o ∈ (step s i).2, Q o) s is := by
  induction is generalizing s with
  | nil => simp
  | cons i is ih => simp only [run_cons, List.forall_mem_append, along_cons, ih]

/-- Conditions that agree wherever the invariant holds agree along a run. -/
theorem along_congr {I : σ → Prop} {P P' : σ → ι → Prop}
    (hstep : ∀ s i, I s → I (step s i).1) (hP : ∀ s i, I s → (P s i ↔ P' s i))
    {s : σ} (hs : I s) {is : List ι} : Along step P s is ↔ Along step P' s is := by
  induction is generalizing s with
  | nil => exact Iff.rfl
  | cons i is ih =>
      rw [along_cons, along_cons, hP s i hs, ih (hstep s i hs)]

/-- Two machines, of which one simulates the other as long as its condition
holds, meet their conditions on the same runs. -/
theorem along_iff_of_simulation {τ ω' : Type*} {step' : τ → ι → τ × List ω'}
    {P : σ → ι → Prop} {Q : τ → ι → Prop} {R : σ → τ → Prop}
    (hPQ : ∀ s t i, R s t → (P s i ↔ Q t i))
    (hR : ∀ s t i, R s t → P s i → R (step s i).1 (step' t i).1)
    {s : σ} {t : τ} (h : R s t) {is : List ι} : Along step P s is ↔ Along step' Q t is := by
  induction is generalizing s t with
  | nil => exact Iff.rfl
  | cons i is ih =>
      rw [along_cons, along_cons, ← hPQ s t i h]
      exact and_congr_right fun hP => ih (hR s t i h hP)

/-! ## Faults that are due -/

/-- The steps of a machine whose faults are announced: `due s = some n` if step `n`
from now on outputs something bad, whatever the inputs are. Bad are the outputs
that do not satisfy `Q`. -/
structure Announces (step : σ → ι → σ × List ω) (Q : ω → Prop) (I : σ → Prop)
    (P : σ → ι → List ι → Prop) (due : σ → Option Nat) : Prop where
  pos : ∀ {s}, I s → due s ≠ some 0
  fault : ∀ {s i}, I s → due s = some 1 → ∃ o ∈ (step s i).2, ¬ Q o
  /-- While a fault is due no other is announced. -/
  wait : ∀ {s i n}, I s → due s = some (n + 2) → (∀ o ∈ (step s i).2, Q o) ∧
    I (step s i).1 ∧ due (step s i).1 = some (n + 1) ∧ ∀ is, P s i is
  /-- `P` says that the inputs end before a fault that the step announces. -/
  free : ∀ {s i}, I s → due s = none → (∀ o ∈ (step s i).2, Q o) ∧
    I (step s i).1 ∧ ∀ is, P s i is ↔ ∀ n, due (step s i).1 = some n → is.length < n

theorem Announces.outputs_iff {Q : ω → Prop} {I : σ → Prop} {P : σ → ι → List ι → Prop}
    {due : σ → Option Nat} (h : Announces step Q I P due) {s : σ} (hs : I s) (is : List ι) :
    (∀ o ∈ (run step s is).2, Q o) ↔
      (∀ n, due s = some n → is.length < n) ∧ Ahead step P s is := by
  induction is generalizing s with
  | nil =>
      refine iff_of_true nofun ⟨fun n hn => Nat.pos_of_ne_zero ?_, trivial⟩
      rintro rfl
      exact h.pos hs hn
  | cons i is ih =>
      rw [run_cons, List.forall_mem_append, Ahead]
      cases hdue : due s with
      | none =>
          obtain ⟨hgood, hI, hP⟩ := h.free (i := i) hs hdue
          have hnone : ∀ n, (none : Option Nat) = some n → (i :: is).length < n := nofun
          rw [ih hI, hP is, and_iff_right hgood, and_iff_right hnone]
      | some n =>
          match n with
          | 0 => exact absurd hdue (h.pos hs)
          | 1 =>
              obtain ⟨o, ho, hbad⟩ := h.fault (i := i) hs hdue
              refine iff_of_false (fun hall => hbad (hall.1 o ho)) fun hall => ?_
              have hlen := hall.1 1 rfl
              rw [List.length_cons] at hlen
              exact Nat.not_lt_zero _ (Nat.lt_of_succ_lt_succ hlen)
          | n + 2 =>
              obtain ⟨hgood, hI, hdue', hP⟩ := h.wait (i := i) hs hdue
              rw [ih hI, hdue', and_iff_right hgood, and_iff_right (hP is)]
              simp

/-! ## Running to the first marked output -/

theorem runTo_cons_stop {stop : ω → Bool} {s : σ} {i : ι} {is : List ι}
    (h : (step s i).2.any stop = true) : runTo step stop s (i :: is) = some (step s i) := by
  simp [runTo, h]

/-- A prefix without a marked output is run through. -/
theorem runTo_append {stop : ω → Bool} {s : σ} {is js : List ι}
    (h : (run step s is).2.any stop = false) :
    runTo step stop s (is ++ js) =
      (runTo step stop (run step s is).1 js).map (fun q => (q.1, (run step s is).2 ++ q.2)) := by
  induction is generalizing s with
  | nil => simp
  | cons i is ih =>
      simp only [run_cons, List.any_append, Bool.or_eq_false_iff] at h
      obtain ⟨hi, his⟩ := h
      simp only [List.cons_append, runTo, hi, Bool.false_eq_true, if_false, ih his, run_cons,
        Option.map_map, Function.comp_def, List.append_assoc]

/-- The input after such a prefix stops the run if its outputs are marked. -/
theorem runTo_append_cons {stop : ω → Bool} {s : σ} {is : List ι} {i : ι} (js : List ι)
    (h : (run step s is).2.any stop = false) (hi : (step (run step s is).1 i).2.any stop = true) :
    runTo step stop s (is ++ i :: js) =
      some ((step (run step s is).1 i).1,
        (run step s is).2 ++ (step (run step s is).1 i).2) := by
  rw [runTo_append h, runTo_cons_stop hi, Option.map_some]

end Machine
