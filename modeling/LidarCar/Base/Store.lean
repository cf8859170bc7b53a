-- SUMMARY: Byte-addressed memory: little-endian numbers in it, copied and filled ranges, and what each write leaves alone.
import Mathlib.Algebra.Group.Nat.Defs

/-!
# Memory

A memory gives each address a byte. Numbers are stored least significant byte
first. A write changes the range it names; what is read from another range is
what was read before.
-/

namespace Store

/-- The number in the `n` bytes from `a` on. -/
def load (m : Nat → UInt8) (a : Nat) : Nat → Nat
  | 0 => 0
  | n + 1 => (m a).toNat + 256 * load m (a + 1) n

/-- Put the low `n` bytes of `v` at `a`. -/
def store (m : Nat → UInt8) (a n v : Nat) : Nat → UInt8 :=
  fun x => if a ≤ x ∧ x < a + n then .ofNat (v / 256 ^ (x - a)) else m x

/-- Copy `n` bytes from `source` to `target`, ranges that do not overlap. -/
def copy (m : Nat → UInt8) (target source n : Nat) : Nat → UInt8 :=
  fun x => if target ≤ x ∧ x < target + n then m (source + (x - target)) else m x

/-- Fill `n` bytes from `a` on. -/
def fill (m : Nat → UInt8) (a : Nat) (b : UInt8) (n : Nat) : Nat → UInt8 :=
  fun x => if a ≤ x ∧ x < a + n then b else m x

variable {m m' : Nat → UInt8} {a n v x : Nat}

theorem store_of_not (h : ¬ (a ≤ x ∧ x < a + n)) : store m a n v x = m x :=
  if_neg h

theorem copy_of_not {s : Nat} (h : ¬ (a ≤ x ∧ x < a + n)) : copy m a s n x = m x :=
  if_neg h

theorem copy_add {s i : Nat} (h : i < n) : copy m a s n (a + i) = m (s + i) := by
  have hin : a ≤ a + i ∧ a + i < a + n := ⟨Nat.le_add_right a i, Nat.add_lt_add_left h a⟩
  rw [copy, if_pos hin, Nat.add_sub_cancel_left]

theorem fill_of_not {b : UInt8} (h : ¬ (a ≤ x ∧ x < a + n)) : fill m a b n x = m x :=
  if_neg h

theorem fill_add {b : UInt8} {i : Nat} (h : i < n) : fill m a b n (a + i) = b :=
  if_pos ⟨Nat.le_add_right a i, Nat.add_lt_add_left h a⟩

/-- A number depends on its own bytes only. -/
theorem load_congr (h : ∀ x, a ≤ x → x < a + n → m' x = m x) : load m' a n = load m a n := by
  induction n generalizing a with
  | zero => rfl
  | succ n ih =>
      have hhead : m' a = m a := h a (Nat.le_refl a) (by omega)
      have htail : load m' (a + 1) n = load m (a + 1) n :=
        ih fun x hx hlt => h x (by omega) (by omega)
      rw [load, load, hhead, htail]

theorem load_store_of_disjoint {b k : Nat} (h : a + n ≤ b ∨ b + k ≤ a) :
    load (store m b k v) a n = load m a n := by
  apply load_congr
  intro x hx hlt
  apply store_of_not
  omega

/-- The bytes of a stored number from the `j`-th on. -/
theorem load_store_drop (b k j : Nat) (h : j + n ≤ k) :
    load (store m b k v) (b + j) n = v / 256 ^ j % 256 ^ n := by
  induction n generalizing j with
  | zero => simp [load, Nat.mod_one]
  | succ n ih =>
      have hbyte : (store m b k v (b + j)).toNat = v / 256 ^ j % 256 := by
        rw [store, if_pos ⟨by omega, by omega⟩, Nat.add_sub_cancel_left]
        exact UInt8.toNat_ofNat'
      have hrest : load (store m b k v) (b + j + 1) n = v / 256 ^ j / 256 % 256 ^ n := by
        rw [Nat.add_assoc, ih (j + 1) (by omega), Nat.pow_succ, Nat.div_div_eq_div_mul]
      rw [load, hbyte, hrest, Nat.pow_succ, Nat.mul_comm (256 ^ n), Nat.mod_mul]

/-- What was stored is read back, up to its width. -/
@[simp] theorem load_store : load (store m a n v) a n = v % 256 ^ n := by
  simpa using load_store_drop (m := m) (v := v) a n 0 (by omega)

end Store
