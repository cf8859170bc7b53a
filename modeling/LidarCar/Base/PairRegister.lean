-- SUMMARY: A pair of cells written and read one cell at a time, and when no read is torn.
import Mathlib.Logic.Function.Basic
import LidarCar.Base.Transition

/-!
# Pair registers

Writers assign a value to two cells, one cell a step, and a reader copies the
two cells, one cell a step. If no party begins its two accesses between the two
accesses of another, the reader never holds two different values.
-/

namespace PairRegister

structure Register (κ ω : Type*) where
  cell1 : ω
  cell2 : ω
  /-- The value that a writer between its two writes has written to `cell1`. -/
  half : κ → Option ω
  /-- The reader's copy of `cell1`. -/
  got1 : ω
  /-- The reader's copy of `cell2`. -/
  got2 : ω
  /-- The reader is between its two reads. -/
  reading : Bool

inductive Event (κ ω : Type*) where
  | write1 (k : κ) (v : ω)
  | write2 (k : κ)
  | read1
  | read2

/-- The event is the first of the two accesses of its party. -/
def Event.begins {κ ω : Type*} : Event κ ω → Bool
  | .write1 _ _ | .read1 => true
  | .write2 _ | .read2 => false

variable {κ ω : Type*} [DecidableEq κ]

def Register.next (r : Register κ ω) : Event κ ω → Option (Register κ ω)
  | .write1 k v => some { r with cell1 := v, half := Function.update r.half k (some v) }
  | .write2 k =>
    (r.half k).map fun v => { r with cell2 := v, half := Function.update r.half k none }
  | .read1 => some { r with got1 := r.cell1, reading := true }
  | .read2 => if r.reading then some { r with got2 := r.cell2, reading := false } else none

/-- No party is between its two accesses. -/
def Register.Quiet (r : Register κ ω) : Prop :=
  (∀ k, r.half k = none) ∧ r.reading = false

def Exclusive (r : Register κ ω) (e : Event κ ω) : Prop :=
  e.begins = true → r.Quiet

structure Register.Whole (r : Register κ ω) : Prop where
  /-- A writer between its writes is alone, and `cell1` is its value. -/
  writing : ∀ k v, r.half k = some v →
    r.cell1 = v ∧ r.reading = false ∧ ∀ k', k' ≠ k → r.half k' = none
  /-- Without one the cells agree. -/
  cells : (∀ k, r.half k = none) → r.cell1 = r.cell2
  reading : r.reading = true → r.got1 = r.cell1
  got : r.reading = false → r.got1 = r.got2

theorem Register.Whole.step {r r' : Register κ ω} {e : Event κ ω} (h : r.Whole)
    (he : Exclusive r e) (hnext : r.next e = some r') : r'.Whole := by
  cases e with
  | write1 k v =>
      obtain ⟨hhalf, hreading⟩ := he rfl
      cases hnext
      constructor
      case writing =>
        intro k' v' hk'
        by_cases hkk : k' = k
        · subst hkk
          refine ⟨by simpa using hk', hreading, fun k'' hne => ?_⟩
          simp [Function.update_of_ne hne, hhalf]
        · simp [Function.update_of_ne hkk, hhalf] at hk'
      case cells =>
        intro hnone
        simpa using hnone k
      case reading => exact fun hr => absurd hr (by simp [hreading])
      case got => exact h.got
  | write2 k =>
      obtain ⟨v, hv, rfl⟩ := Option.map_eq_some_iff.mp hnext
      obtain ⟨hcell, -, hothers⟩ := h.writing k v hv
      have hnone : ∀ k', Function.update r.half k none k' = none := fun k' => by
        by_cases hkk : k' = k
        · rw [hkk, Function.update_self]
        · rw [Function.update_of_ne hkk, hothers k' hkk]
      constructor
      case writing => exact fun k' v' hk' => absurd hk' (by simp [hnone])
      case cells => exact fun _ => hcell
      case reading => exact h.reading
      case got => exact h.got
  | read1 =>
      obtain ⟨hhalf, -⟩ := he rfl
      cases hnext
      constructor
      case writing => exact fun k v hk => absurd hk (by simp [hhalf])
      case cells => exact h.cells
      case reading => exact fun _ => rfl
      case got => exact fun hr => absurd hr (by simp)
  | read2 =>
      obtain ⟨hreading, hr'⟩ := Option.ite_none_right_eq_some.mp hnext
      cases hr'
      have hhalf : ∀ k, r.half k = none := fun k => by
        cases hk : r.half k with
        | none => rfl
        | some v => rw [(h.writing k v hk).2.1] at hreading; cases hreading
      constructor
      case writing => exact fun k v hk => absurd hk (by simp [hhalf])
      case cells => exact h.cells
      case reading => exact fun hr => absurd hr (by simp)
      case got => exact fun _ => (h.reading hreading).trans (h.cells hhalf)

/-- The register before any access. -/
def Register.init (v : ω) : Register κ ω where
  cell1 := v
  cell2 := v
  half := fun _ => none
  got1 := v
  got2 := v
  reading := false

omit [DecidableEq κ] in
theorem Register.Whole.init (v : ω) : (Register.init v : Register κ ω).Whole where
  writing := fun _ _ hk => by cases hk
  cells := fun _ => rfl
  reading := fun hr => by cases hr
  got := fun _ => rfl

/-- The reader never holds two different values after its second read. -/
theorem got_eq_of_reach {v : ω} {r : Register κ ω}
    (h : Transition.Reach Register.next Exclusive (.init v) r) (hr : r.reading = false) :
    r.got1 = r.got2 :=
  (h.invariant (Register.Whole.init v) fun hw he hnext => hw.step he hnext).got hr

end PairRegister
