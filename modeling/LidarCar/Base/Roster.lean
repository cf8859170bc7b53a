-- SUMMARY: Finite lists of the places where a partial function is defined.
import Mathlib.Data.List.Nodup
import Mathlib.Data.List.Perm.Basic
import Mathlib.Logic.Function.Basic

/-!
# Rosters

Any number of threads run, but at each moment only finitely many hold something.
A partial function says what a thread holds; its roster lists who holds what, so
that what is held can be counted, and changes by one entry when one thread
changes.
-/

namespace Roster

variable {θ β : Type*}

/-- `l` lists each `t` with `f t = some b` once, as `(t, b)`. -/
structure Lists (f : θ → Option β) (l : List (θ × β)) : Prop where
  nodup : (l.map Prod.fst).Nodup
  mem : ∀ t b, (t, b) ∈ l ↔ f t = some b

variable {f g : θ → Option β} {l : List (θ × β)} {t : θ} {b : β}

theorem Lists.empty (h : ∀ t, f t = none) : Lists f [] where
  nodup := List.nodup_nil
  mem := fun t b => by simp [h t]

theorem Lists.congr (h : Lists f l) (hfg : ∀ t, g t = f t) : Lists g l :=
  funext hfg ▸ h

theorem Lists.not_mem (h : Lists f l) (ht : f t = none) : t ∉ l.map Prod.fst := by
  intro hmem
  obtain ⟨⟨t', b⟩, hb, rfl⟩ := List.mem_map.mp hmem
  rw [h.mem, ht] at hb
  cases hb

section Update

variable [DecidableEq θ]

/-- A thread that holds nothing comes to hold `b`. -/
theorem Lists.insert (h : Lists f l) (ht : f t = none) (b : β) :
    Lists (Function.update f t (some b)) ((t, b) :: l) where
  nodup := List.nodup_cons.mpr ⟨h.not_mem ht, h.nodup⟩
  mem := by
    intro u c
    rw [List.mem_cons, h.mem, Prod.mk.injEq]
    by_cases hu : u = t
    · subst hu
      rw [Function.update_self, ht]
      simp [eq_comm]
    · rw [Function.update_of_ne hu]
      simp [hu]

/-- A thread lets go of what it holds. -/
theorem Lists.remove (h : Lists f l) (ht : f t = some b) :
    ∃ l', l.Perm ((t, b) :: l') ∧ Lists (Function.update f t none) l' := by
  obtain ⟨l₁, l₂, rfl⟩ := List.append_of_mem ((h.mem t b).mpr ht)
  have hperm : (l₁ ++ (t, b) :: l₂).Perm ((t, b) :: (l₁ ++ l₂)) := List.perm_middle
  have hnodup := (hperm.map Prod.fst).nodup_iff.mp h.nodup
  obtain ⟨hnot, hrest⟩ := List.nodup_cons.mp hnodup
  refine ⟨l₁ ++ l₂, hperm, hrest, fun u c => ?_⟩
  by_cases hu : u = t
  · subst hu
    rw [Function.update_self]
    refine iff_of_false (fun hmem => hnot ?_) nofun
    exact List.mem_map.mpr ⟨(u, c), hmem, rfl⟩
  · rw [Function.update_of_ne hu, ← h.mem, hperm.mem_iff, List.mem_cons, Prod.mk.injEq]
    simp [hu]

/-- A thread that holds nothing goes on holding nothing. -/
theorem Lists.keep (h : Lists f l) (ht : f t = none) : Lists (Function.update f t none) l := by
  refine h.congr fun u => ?_
  by_cases hu : u = t
  · rw [hu, Function.update_self, ht]
  · rw [Function.update_of_ne hu]

end Update

end Roster
