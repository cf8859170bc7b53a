-- SUMMARY: Circular buffers with a get and a put index: the list they hold, and how pushing and popping change it.
import Mathlib.Data.Int.ModEq
import Mathlib.Logic.Function.Basic

/-!
# Circular buffers

A buffer of `n` slots between a get index and a put index holds the list of the
slots from the one to the other. Equal indices mean the empty list, so it holds
fewer than `n` elements.
-/

namespace Circular

variable {α : Type*} {n : Nat} {buffer : Nat → α} {get put : Nat} {l : List α} {a : α}

/-- The index after `i`. -/
def advance (n i : Nat) : Nat :=
  if i + 1 ≥ n then 0 else i + 1

theorem advance_eq_mod {i : Nat} (h : i < n) : advance n i = (i + 1) % n := by
  unfold advance
  split
  · rw [show i + 1 = n by omega, Nat.mod_self]
  · rw [Nat.mod_eq_of_lt (by omega)]

/-- The slots from `get` to `put` hold `l`. -/
structure Holds (n : Nat) (buffer : Nat → α) (get put : Nat) (l : List α) : Prop where
  get_lt : get < n
  length_lt : l.length < n
  put_eq : put = (get + l.length) % n
  slot : ∀ i (h : i < l.length), buffer ((get + i) % n) = l[i]

theorem Holds.put_lt (h : Holds n buffer get put l) : put < n := by
  rw [h.put_eq]
  exact Nat.mod_lt _ (Nat.zero_lt_of_lt h.get_lt)

theorem Holds.nil (h : get < n) : Holds n buffer get get [] where
  get_lt := h
  length_lt := Nat.zero_lt_of_lt h
  put_eq := (Nat.mod_eq_of_lt h).symm
  slot := fun _ hi => absurd hi (Nat.not_lt_zero _)

/-- Two offsets within one lap meet in one slot only if they are equal. -/
theorem slot_inj {i j : Nat} (hi : i < n) (hj : j < n) (h : (get + i) % n = (get + j) % n) :
    i = j := by
  have hmod : i ≡ j [MOD n] := Nat.ModEq.add_left_cancel' get h
  exact Nat.ModEq.eq_of_lt_of_lt hmod hi hj

theorem Holds.push (h : Holds n buffer get put l) (hlen : l.length + 1 < n) (a : α) :
    Holds n (Function.update buffer put a) get (advance n put) (l ++ [a]) where
  get_lt := h.get_lt
  length_lt := by simpa using hlen
  put_eq := by
    rw [advance_eq_mod h.put_lt, h.put_eq, List.length_append, List.length_singleton,
      Nat.mod_add_mod, Nat.add_assoc]
  slot := fun i hi => by
    rw [List.length_append, List.length_singleton] at hi
    by_cases hlast : i = l.length
    · subst hlast
      rw [← h.put_eq, Function.update_self]
      simp
    · have hlt : i < l.length := by omega
      have hne : (get + i) % n ≠ put := fun heq =>
        hlast (slot_inj (by omega) h.length_lt (heq.trans h.put_eq))
      rw [Function.update_of_ne hne, h.slot i hlt, List.getElem_append_left hlt]

theorem Holds.head (h : Holds n buffer get put (a :: l)) : buffer get = a := by
  have hslot := h.slot 0 (by simp)
  rwa [Nat.add_zero, Nat.mod_eq_of_lt h.get_lt] at hslot

theorem Holds.pop (h : Holds n buffer get put (a :: l)) :
    Holds n buffer (advance n get) put l where
  get_lt := by
    rw [advance_eq_mod h.get_lt]
    exact Nat.mod_lt _ (Nat.zero_lt_of_lt h.get_lt)
  length_lt := Nat.lt_of_succ_lt h.length_lt
  put_eq := by
    rw [h.put_eq, advance_eq_mod h.get_lt, List.length_cons, Nat.mod_add_mod]
    congr 1
    omega
  slot := fun i hi => by
    have hslot := h.slot (i + 1) (by simpa using hi)
    rw [advance_eq_mod h.get_lt, Nat.mod_add_mod, Nat.add_assoc, Nat.add_comm 1 i, hslot]
    rfl

/-- In a buffer that holds all it can the next put index is the get index. -/
theorem Holds.advance_put (h : Holds n buffer get put l) (hlen : l.length + 1 = n) :
    advance n put = get := by
  rw [advance_eq_mod h.put_lt, h.put_eq, Nat.mod_add_mod, Nat.add_assoc, hlen,
    Nat.add_mod_right, Nat.mod_eq_of_lt h.get_lt]

/-- The indices are equal exactly if nothing is held. -/
theorem Holds.get_eq_put_iff (h : Holds n buffer get put l) : get = put ↔ l = [] := by
  rw [h.put_eq, ← List.length_eq_zero_iff]
  constructor
  · intro heq
    have h0 : (get + 0) % n = (get + l.length) % n := by
      rwa [Nat.add_zero, Nat.mod_eq_of_lt h.get_lt]
    exact (slot_inj (Nat.zero_lt_of_lt h.get_lt) h.length_lt h0).symm
  · intro hzero
    rw [hzero, Nat.add_zero, Nat.mod_eq_of_lt h.get_lt]

/-- The distance from the get to the put index is the number of elements held. -/
theorem Holds.distance (h : Holds n buffer get put l) :
    (if put ≥ get then put - get else n - (get - put)) = l.length := by
  have hget := h.get_lt
  have hlen := h.length_lt
  rcases Nat.lt_or_ge (get + l.length) n with hlt | hge
  · have hput : put = get + l.length := by rw [h.put_eq, Nat.mod_eq_of_lt hlt]
    rw [if_pos (by omega)]
    omega
  · have hput : put = get + l.length - n := by
      rw [h.put_eq, Nat.mod_eq_sub_mod hge, Nat.mod_eq_of_lt (by omega)]
    rw [if_neg (by omega)]
    omega

end Circular
