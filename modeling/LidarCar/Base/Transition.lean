-- SUMMARY: Labelled transition systems: states reached by steps that meet a condition, and their invariants.
import Mathlib.Data.Option.Basic

/-!
# Transition systems

A system is a partial step function: each label names one step of one party, and
is refused where that party cannot take it. A condition on the steps describes
the runs a result is about.
-/

namespace Transition

variable {σ α : Type*}

/-- The states reached from `s₀` by steps that all meet `C` where they start. -/
inductive Reach (next : σ → α → Option σ) (C : σ → α → Prop) (s₀ : σ) : σ → Prop where
  | init : Reach next C s₀ s₀
  | step {s t : σ} {a : α} (hs : Reach next C s₀ s) (hC : C s a) (h : next s a = some t) :
      Reach next C s₀ t

/-- Take the listed steps, as long as they meet `C`. -/
def exec (next : σ → α → Option σ) (C : σ → α → Prop) [∀ s a, Decidable (C s a)] :
    σ → List α → Option σ
  | s, [] => some s
  | s, a :: as => if C s a then (next s a).bind (exec next C · as) else none

/-- The listed steps lead from one state to the other, and meet `C` where they start. -/
def Run (next : σ → α → Option σ) (C : σ → α → Prop) : σ → List α → σ → Prop
  | s, [], t => s = t
  | s, a :: as, t => C s a ∧ ∃ u, next s a = some u ∧ Run next C u as t

variable {next : σ → α → Option σ} {C : σ → α → Prop} {s₀ s t : σ}

/-- What holds initially and is kept by every step holds of every state reached. -/
theorem Reach.invariant {I : σ → Prop} (h0 : I s₀)
    (hstep : ∀ {s t a}, I s → C s a → next s a = some t → I t) (h : Reach next C s₀ s) : I s := by
  induction h with
  | init => exact h0
  | step _ hC h ih => exact hstep ih hC h

theorem Reach.trans (h : Reach next C s₀ s) (h' : Reach next C s t) : Reach next C s₀ t := by
  induction h' with
  | init => exact h
  | step _ hC hstep ih => exact .step ih hC hstep

/-- A weaker condition lets the same states be reached. -/
theorem Reach.mono {C' : σ → α → Prop} (hC : ∀ {s a}, C s a → C' s a)
    (h : Reach next C s₀ s) : Reach next C' s₀ s := by
  induction h with
  | init => exact .init
  | step _ hstep hnext ih => exact .step ih (hC hstep) hnext

/-- A system whose steps are steps of another or leave its view unchanged reaches
only what the other reaches. -/
theorem Reach.simulate {τ β : Type*} {next' : τ → β → Option τ} {C' : τ → β → Prop}
    {view : σ → τ}
    (hstep : ∀ {s t a}, Reach next C s₀ s → C s a → next s a = some t →
      view t = view s ∨ ∃ b, C' (view s) b ∧ next' (view s) b = some (view t))
    (h : Reach next C s₀ s) : Reach next' C' (view s₀) (view s) := by
  induction h with
  | init => exact .init
  | step hs hC h ih =>
      rcases hstep hs hC h with hsame | ⟨b, hC', hb⟩
      · rw [hsame]
        exact ih
      · exact .step ih hC' hb

theorem Run.reach {as : List α} (h : Run next C s as t) : Reach next C s t := by
  induction as generalizing s with
  | nil =>
      obtain rfl : s = t := h
      exact .init
  | cons a as ih =>
      obtain ⟨hC, u, hu, hrest⟩ := h
      exact Reach.trans (.step .init hC hu) (ih hrest)

/-- What a step keeps holds at the end of a run. -/
theorem Run.invariant {I : σ → Prop} {as : List α} (hs : I s)
    (hstep : ∀ {s t a}, I s → C s a → next s a = some t → I t) (h : Run next C s as t) : I t :=
  h.reach.invariant hs hstep

theorem run_of_exec [∀ s a, Decidable (C s a)] {as : List α} (h : exec next C s as = some t) :
    Run next C s as t := by
  induction as generalizing s with
  | nil => exact Option.some.inj h
  | cons a as ih =>
      rw [exec] at h
      split at h
      · obtain ⟨u, hu, hrest⟩ := Option.bind_eq_some_iff.mp h
        exact ⟨‹_›, u, hu, ih hrest⟩
      · cases h

theorem reach_of_exec [∀ s a, Decidable (C s a)] {as : List α} (h : exec next C s as = some t) :
    Reach next C s t :=
  (run_of_exec h).reach

/-- A list of steps that can be taken reaches the state it computes. -/
theorem exists_reach_of_exec [∀ s a, Decidable (C s a)] {as : List α} {p : σ → Bool}
    (h : (exec next C s as).any p = true) : ∃ t, Reach next C s t ∧ p t = true := by
  cases hexec : exec next C s as with
  | none =>
      rw [hexec] at h
      cases h
  | some t =>
      rw [hexec] at h
      exact ⟨t, reach_of_exec hexec, h⟩

end Transition
