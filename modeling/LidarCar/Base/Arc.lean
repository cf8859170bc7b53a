-- SUMMARY: Arcs on a circle of n units: their length, and how evenly spaced marks divide them.
import Mathlib.Data.Int.ModEq

/-!
# Arcs

A circle of `n` units is the integers modulo `n`. The arc from `a` to `b` goes
forward. Dividing its length by `k` with a remainder gives the step between
evenly spaced marks, which fall behind the end by what the division leaves.
-/

namespace Arc

/-- The length of the arc from `a` forward to `b`. -/
def span (n a b : Nat) : Nat :=
  (((b : Int) - a) % n).toNat

variable {n a b : Nat}

theorem span_of_le (hle : a ≤ b) (hb : b < n) : span n a b = b - a := by
  rw [span, Int.emod_eq_of_lt (by omega) (by omega)]
  omega

theorem span_of_lt (hlt : b < a) (ha : a < n) : span n a b = b + (n - a) := by
  rw [span, ← Int.add_emod_right, Int.emod_eq_of_lt (by omega) (by omega)]
  omega

theorem span_lt (hn : 0 < n) : span n a b < n := by
  have hnonneg := Int.emod_nonneg ((b : Int) - a) (Int.natCast_ne_zero.mpr hn.ne')
  have hlt := Int.emod_lt_of_pos ((b : Int) - a) (Int.natCast_pos.mpr hn)
  rw [span]
  omega

/-- The arc ends in `b`. -/
theorem add_span (hn : 0 < n) : ((a + span n a b : Nat) : Int) ≡ b [ZMOD n] := by
  have hnonneg := Int.emod_nonneg ((b : Int) - a) (Int.natCast_ne_zero.mpr hn.ne')
  rw [Nat.cast_add, span, Int.toNat_of_nonneg hnonneg]
  have hmod : ((b : Int) - a) % n ≡ b - a [ZMOD n] := Int.mod_modEq _ _
  have hadd := hmod.add_left a
  rwa [add_sub_cancel] at hadd

/-! ## Marks -/

variable {s k i : Nat}

/-- No mark is past the end. -/
theorem mark_le (h : i ≤ k) : i * (s / k) ≤ s :=
  (Nat.mul_le_mul_right _ h).trans (Nat.mul_div_le s k)

/-- What the mark before the `k`-th leaves of the arc. -/
theorem mark_pred_add (hk : 0 < k) : (k - 1) * (s / k) + (s / k + s % k) = s := by
  have hstep : (k - 1) * (s / k) + s / k = k * (s / k) := by
    rw [← Nat.succ_mul, Nat.succ_eq_add_one, Nat.sub_add_cancel hk]
  rw [← Nat.add_assoc, hstep, Nat.div_add_mod]

end Arc
