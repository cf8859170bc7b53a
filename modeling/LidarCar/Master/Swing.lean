-- SUMMARY: When the escape turn comes with the fourth scan in a row that stops the car.
import Mathlib.Tactic.IntervalCases
import LidarCar.Master.Decision

/-!
# The stuck counter

`swing` counts the scans in a row with a signal and starts the escape turn at
four. The thread never initialises it, so the count is right from the first scan
on only if the stack happens to hold a zero.
-/

namespace Master

open Slam (Around)

/-- The scan leaves `fsignal` nonzero. -/
def signalled (around : Int → Around) : Bool :=
  (examineScan { fsignal := 0, ffsignal := 0 } around).fsignal ≠ 0

/-- The two seconds of turning with the beeper are among the actions. -/
def Escapes (actions : List Action) : Prop :=
  [.beep true, .delay 2000, .beep false] <:+: actions

instance (actions : List Action) : Decidable (Escapes actions) :=
  inferInstanceAs (Decidable (_ <:+: _))

/-! ## What the counter should do -/

/-- Next to the locals, the number of scans with a signal since the last scan
without one, the last escape turn or the start of the thread. -/
def observe (x : Locals × Nat) (around : Int → Around) : (Locals × Nat) × List Empty :=
  let r := handleScan x.1 around
  ((r.1, if signalled around ∧ ¬ Escapes r.2 then x.2 + 1 else 0), [])

/-- The range of `swing` at the top of the loop. -/
def Locals.SwingOk (l : Locals) : Prop :=
  0 ≤ l.swing ∧ l.swing ≤ 3

/-- `swing` is in range, and the escape turn is performed for the fourth scan in a
row with a signal and for no other. -/
def CountsRight (x : Locals × Nat) (around : Int → Around) : Prop :=
  x.1.SwingOk ∧ (Escapes (handleScan x.1 around).2 ↔ signalled around = true ∧ x.2 = 3)

/-- At every scan, and at the top of the loop after the last. -/
def StuckCounterRight (swing : Int32) (scans : List (Int → Around)) : Prop :=
  Machine.Along observe CountsRight (entry swing, 0) scans ∧
    (Machine.run observe (entry swing, 0) scans).1.1.SwingOk

/-! ## One scan -/

theorem escapes_react_iff (l : Locals) :
    Escapes (react l).2 ↔ l.fsignal ≠ 0 ∧ l.swing + 1 ≥ 4 := by
  have hshort : ∀ actions : List Action, actions.length < 3 → ¬ Escapes actions := by
    intro actions hlen hesc
    have hle := hesc.length_le
    simp only [List.length_cons, List.length_nil] at hle
    omega
  simp only [react]
  split_ifs with hsignal hswing
  · refine iff_of_true ?_ ⟨hsignal, hswing⟩
    exact ⟨[.car (steer l.fsignal), .car (if l.ffsignal + l.fsignal > 0 then .carRight
      else .carLeft)], [.scan], rfl⟩
  · exact iff_of_false (hshort _ (by simp)) fun h => hswing h.2
  · exact iff_of_false (hshort _ (by simp)) fun h => hsignal h.1

section Scan

variable {l : Locals} {around : Int → Around}

theorem handleScan_fsignal (hl : l.toSignals = { fsignal := 0, ffsignal := 0 }) :
    (examineScan l.toSignals around).fsignal ≠ 0 ↔ signalled around = true := by
  rw [hl, signalled, decide_eq_true_iff]

theorem escapes_handleScan_iff (hl : l.toSignals = { fsignal := 0, ffsignal := 0 }) :
    Escapes (handleScan l around).2 ↔ signalled around = true ∧ l.swing + 1 ≥ 4 := by
  rw [handleScan, escapes_react_iff, ← handleScan_fsignal hl]

theorem handleScan_swing (hl : l.toSignals = { fsignal := 0, ffsignal := 0 }) :
    (handleScan l around).1.swing =
      if signalled around = true ∧ ¬ l.swing + 1 ≥ 4 then l.swing + 1 else 0 := by
  have hsignal : (examineScan l.toSignals around).fsignal ≠ 0 ↔ signalled around = true :=
    handleScan_fsignal hl
  simp only [handleScan, react]
  by_cases hs : signalled around = true
  · rw [if_pos (hsignal.mpr hs)]
    by_cases hfour : l.swing + 1 ≥ 4
    · rw [if_pos hfour, if_neg fun h => h.2 hfour]
    · rw [if_neg hfour, if_pos ⟨hs, hfour⟩]
  · rw [if_neg fun h => hs (hsignal.mp h), if_neg fun h => hs h.1]

end Scan

/-! ## Sequences of scans -/

/-- `swing` stands at `n`, no more than three, and both signals are zero. -/
structure Locals.StandsAt (l : Locals) (n : Nat) : Prop where
  signals : l.toSignals = { fsignal := 0, ffsignal := 0 }
  swing : l.swing = Int32.ofNat n
  le : n ≤ 3

section StandsAt

variable {l : Locals} {n : Nat} {around : Int → Around}

theorem Locals.StandsAt.swingOk (h : l.StandsAt n) : l.SwingOk := by
  obtain ⟨-, hswing, hle⟩ := h
  rw [Locals.SwingOk, hswing]
  interval_cases n <;> decide

theorem Locals.StandsAt.four_iff (h : l.StandsAt n) : l.swing + 1 ≥ 4 ↔ n = 3 := by
  obtain ⟨-, hswing, hle⟩ := h
  rw [hswing]
  interval_cases n <;> decide

theorem Locals.StandsAt.escapes_iff (h : l.StandsAt n) :
    Escapes (handleScan l around).2 ↔ signalled around = true ∧ n = 3 := by
  rw [escapes_handleScan_iff h.signals, h.four_iff]

theorem Locals.StandsAt.swing_next (h : l.StandsAt n) :
    (handleScan l around).1.swing =
      if signalled around = true ∧ n ≠ 3 then Int32.ofNat (n + 1) else 0 := by
  have hcond : (signalled around = true ∧ ¬ l.swing + 1 ≥ 4) ↔
      (signalled around = true ∧ n ≠ 3) := by
    rw [h.four_iff]
  rw [handleScan_swing h.signals, Int32.ofNat_add, ← h.swing]
  exact if_congr hcond rfl rfl

/-- A scan without a signal and the escape turn start the count again. -/
theorem Locals.StandsAt.restarts (h : l.StandsAt n)
    (hrestart : ¬ (signalled around = true ∧ n ≠ 3)) : (handleScan l around).1.StandsAt 0 where
  signals := react_locals _
  swing := by
    rw [h.swing_next, if_neg hrestart]
    rfl
  le := Nat.zero_le 3

theorem Locals.StandsAt.counts (h : l.StandsAt n) (hsignal : signalled around = true)
    (hlt : n ≠ 3) : (handleScan l around).1.StandsAt (n + 1) where
  signals := react_locals _
  swing := by
    rw [h.swing_next, if_pos ⟨hsignal, hlt⟩]
  le := by
    have hle := h.le
    omega

end StandsAt

/-- Where `swing` is `d` ahead of the count, the escape turn is right as long as
it is not reached. Where it is not ahead it is always right. -/
theorem along_countsRight_iff {l : Locals} {k d : Nat} (h : l.StandsAt (k + d))
    (scans : List (Int → Around)) :
    (Machine.Along observe CountsRight (l, k) scans ∧
        (Machine.run observe (l, k) scans).1.1.SwingOk) ↔
      d = 0 ∨ k + d + (scans.takeWhile signalled).length < 4 := by
  have hle := h.le
  induction scans generalizing l k d with
  | nil =>
      refine iff_of_true ⟨trivial, h.swingOk⟩ (Or.inr ?_)
      exact Nat.lt_succ_of_le hle
  | cons around scans ih =>
      have hright : CountsRight (l, k) around ↔
          ((signalled around = true ∧ k + d = 3) ↔ (signalled around = true ∧ k = 3)) := by
        rw [CountsRight, h.escapes_iff, and_iff_right h.swingOk]
      have hnext : (observe (l, k) around).1 = ((handleScan l around).1,
          if signalled around = true ∧ k + d ≠ 3 then k + 1 else 0) := by
        have hcond : (signalled around = true ∧ ¬ Escapes (handleScan l around).2) ↔
            (signalled around = true ∧ k + d ≠ 3) := by
          rw [h.escapes_iff]
          exact and_congr_right fun hs => not_congr (and_iff_right hs)
        simp only [observe, hcond]
      rw [Machine.along_cons, Machine.run_cons, hright, hnext, and_assoc]
      by_cases hs : signalled around = true
      · by_cases hthree : k + d = 3
        · -- the escape turn: right only if three scans were counted
          rw [if_neg fun hc => hc.2 hthree]
          have hrest : (handleScan l around).1.StandsAt 0 := h.restarts fun hc => hc.2 hthree
          have hih := (ih (k := 0) (d := 0) hrest (Nat.zero_le 3)).mpr (Or.inl rfl)
          rw [and_iff_left hih, List.takeWhile_cons_of_pos hs, List.length_cons]
          constructor
          · intro hiff
            have hk := (hiff.mp ⟨hs, hthree⟩).2
            omega
          · rintro (hd | hlt)
            · exact iff_of_true ⟨hs, hthree⟩ ⟨hs, by omega⟩
            · omega
        · rw [if_pos ⟨hs, hthree⟩, List.takeWhile_cons_of_pos hs, List.length_cons]
          have hrest := h.counts hs hthree
          rw [Nat.add_right_comm] at hrest
          have hlen : k + 1 + d + (scans.takeWhile signalled).length =
              k + d + ((scans.takeWhile signalled).length + 1) := by
            omega
          have hnot : (signalled around = true ∧ k + d = 3) ↔ (signalled around = true ∧ k = 3) :=
            iff_of_false (fun hc => hthree hc.2) fun hc => hthree (by omega)
          rw [and_iff_right hnot, ← hlen]
          exact ih hrest hrest.le
      · rw [if_neg fun hc => hs hc.1, List.takeWhile_cons_of_neg hs]
        have hrest : (handleScan l around).1.StandsAt 0 := h.restarts fun hc => hs hc.1
        refine iff_of_true ⟨iff_of_false (fun hc => hs hc.1) fun hc => hs hc.1, ?_⟩ ?_
        · exact (ih (k := 0) (d := 0) hrest (Nat.zero_le 3)).mpr (Or.inl rfl)
        · exact Or.inr (Nat.lt_succ_of_le hle)

theorem Locals.SwingOk.standsAt {swing : Int32} (h : (entry swing).SwingOk) :
    (entry swing).StandsAt swing.toInt.toNat := by
  obtain ⟨hge, hle⟩ := h
  have hge' : 0 ≤ swing.toInt := Int32.le_iff_toInt_le.mp hge
  have hle' : swing.toInt ≤ 3 := Int32.le_iff_toInt_le.mp hle
  refine ⟨rfl, ?_, Int.toNat_le.mpr hle'⟩
  calc swing = Int32.ofInt swing.toInt := (Int32.ofInt_toInt swing).symm
    _ = Int32.ofInt (swing.toInt.toNat : Int) := by rw [Int.toNat_of_nonneg hge']
    _ = Int32.ofNat swing.toInt.toNat := Int32.ofInt_eq_ofNat

/-- The counter is right in a run exactly if the stack held a zero, or a small
number and the run begins with too few scans in a row to reach four. -/
theorem stuckCounter_right_iff (swing : Int32) (scans : List (Int → Around)) :
    StuckCounterRight swing scans ↔
      swing = 0 ∨ (0 ≤ swing ∧ swing ≤ 3 ∧
        swing.toInt + (scans.takeWhile signalled).length < 4) := by
  have hstart : StuckCounterRight swing scans → (entry swing).SwingOk := by
    rintro ⟨halong, hlast⟩
    cases scans with
    | nil => exact hlast
    | cons around scans => exact halong.1.1
  by_cases hok : (entry swing).SwingOk
  · have hstands := hok.standsAt
    rw [← Nat.zero_add swing.toInt.toNat] at hstands
    have hright := along_countsRight_iff hstands scans
    have hge : 0 ≤ swing.toInt := Int32.le_iff_toInt_le.mp hok.1
    have hzero : swing.toInt.toNat = 0 ↔ swing = 0 := by
      rw [← Int32.toInt_inj, show (0 : Int32).toInt = 0 from rfl]
      omega
    rw [StuckCounterRight, hright, hzero]
    constructor
    · rintro (h | h)
      · exact Or.inl h
      · exact Or.inr ⟨hok.1, hok.2, by omega⟩
    · rintro (h | ⟨-, -, h⟩)
      · exact Or.inl h
      · exact Or.inr (by omega)
  · refine iff_of_false (fun h => hok (hstart h)) ?_
    rintro (rfl | ⟨hge, hle, -⟩)
    · exact hok ⟨by decide, by decide⟩
    · exact hok ⟨hge, hle⟩

/-- One near point at 330 degrees, in turn 1. -/
def obstacle : Int → Around := fun i =>
  { firstpoint := default
    ap := fun _ => ⟨21120, 500⟩
    number := if i = 1 then 1 else 0 }

/-- With a three on the stack the first scan already makes the car turn. -/
theorem escape_at_first_scan : ¬ StuckCounterRight 3 [obstacle] := by
  rintro ⟨⟨⟨-, hright⟩, -⟩, -⟩
  have hescapes : Escapes (handleScan (entry 3) obstacle).2 := by decide
  exact absurd (hright.mp hescapes).2 (by decide)

end Master
