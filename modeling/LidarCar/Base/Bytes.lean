-- SUMMARY: Big-endian two's complement numbers and check sums of byte strings.
import Mathlib.Algebra.Ring.Int.Defs
import Mathlib.Tactic.Ring

/-!
# Byte strings

Numbers sent most significant byte first, and byte strings closed by the sum of
their bytes.
-/

namespace Bytes

/-! ## Big-endian numbers -/

/-- The low `n` bytes of `v`, most significant first. -/
def split : Nat → Int → List UInt8
  | 0, _ => []
  | n + 1, v => .ofInt (v >>> (8 * n)) :: split n v

/-- The number with these digits to the base 256. -/
def combine (bytes : List UInt8) : Nat :=
  bytes.foldl (fun acc b => 256 * acc + b.toNat) 0

theorem ofInt_toNat (v : Int) : ((UInt8.ofInt v).toNat : Int) = v % 256 := by
  rw [UInt8.ofInt, UInt8.toNat_ofNat']
  omega

theorem foldl_split (n : Nat) (v : Int) (acc : Nat) :
    (((split n v).foldl (fun acc b => 256 * acc + b.toNat) acc : Nat) : Int) =
      acc * 256 ^ n + v % 256 ^ n := by
  induction n generalizing acc with
  | zero => simp [split]
  | succ n ih =>
      have hshift : v >>> (8 * n) = v / 256 ^ n := by
        rw [Int.shiftRight_eq_div_pow, Nat.pow_mul]
        norm_cast
      have hdiv : v / 256 ^ (n + 1) = v / 256 ^ n / 256 := by
        rw [Int.pow_succ, Int.ediv_ediv_of_nonneg (Int.pow_nonneg (by decide))]
      have hmod : v % 256 ^ (n + 1) = v % 256 ^ n + 256 ^ n * (v / 256 ^ n % 256) := by
        rw [Int.emod_def, Int.emod_def v, Int.emod_def (v / 256 ^ n), hdiv]
        ring
      rw [split, List.foldl_cons, ih, hshift, hmod, Nat.cast_add, Nat.cast_mul, ofInt_toNat]
      push_cast
      ring

/-- The digits of `v` give back `v` up to multiples of `256 ^ n`. -/
theorem combine_split (n : Nat) (v : Int) : (combine (split n v) : Int) = v % 256 ^ n := by
  rw [combine, foldl_split]
  simp

/-- A 16-bit number is what its two bytes are read as. -/
theorem ofInt_combine_split_two (v : Int16) :
    Int16.ofInt (combine (split 2 v.toInt) : Nat) = v := by
  rw [Int16.ofInt_eq_iff_bmod_eq_toInt, combine_split]
  exact (Int.emod_bmod v.toInt (2 ^ 16)).trans v.toInt_bmod_size

theorem ofInt_combine_split_four (v : Int32) :
    Int32.ofInt (combine (split 4 v.toInt) : Nat) = v := by
  rw [Int32.ofInt_eq_iff_bmod_eq_toInt, combine_split]
  exact (Int.emod_bmod v.toInt (2 ^ 32)).trans v.toInt_bmod_size

/-! ## Check sums -/

def sum (bytes : List UInt8) : UInt8 :=
  bytes.foldl (· + ·) 0

@[simp] theorem sum_concat (bytes : List UInt8) (c : UInt8) :
    sum (bytes ++ [c]) = sum bytes + c := by
  simp [sum]

/-- The string without its last byte, if that is the sum of the others. -/
def openSealed (bytes : List UInt8) : Option (List UInt8) :=
  bytes.getLast?.bind fun c => if c = sum bytes.dropLast then some bytes.dropLast else none

theorem openSealed_append (bytes : List UInt8) (c : UInt8) :
    openSealed (bytes ++ [c]) = if c = sum bytes then some bytes else none := by
  simp [openSealed]

end Bytes
