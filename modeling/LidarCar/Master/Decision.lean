-- SUMMARY: The decision of master_thread_entry on one scan, and when it drives forward past a near obstacle.
import Mathlib.Algebra.Ring.Int.Defs
import Mathlib.Tactic.Ring
import LidarCar.Drive.Move
import LidarCar.Slam.Memory

/-!
# The decision of the master thread

One iteration of `master_thread_entry` counts the near points of a scan, points
on one side upwards and points on the other side downwards, and commands the car
by the two signed counts.
-/

namespace Master

open Slam (Around AroundPoint)
open Drive (Command)

/-! ## The loop over the points -/

/-- `fsignal` and `ffsignal`. -/
structure Signals where
  fsignal : Int32
  ffsignal : Int32
  deriving DecidableEq, Repr

/-- `buf = (rt_uint32_t)angle * 100 / 64`, in units of 1/100 degree. -/
def centidegrees (angle : UInt16) : UInt32 :=
  angle.toUInt32 * 100 / 64

/-- The body of the inner loop. -/
def examine (g : Signals) (pt : AroundPoint) : Signals :=
  if pt.distance ≤ 1200 then
    let buf := centidegrees pt.angle
    if pt.distance ≤ 600 then
      if buf > 32500 ∨ buf < 3500 then
        if buf > 32500 then { g with fsignal := g.fsignal + 1 }
        else if buf < 3500 then { g with fsignal := g.fsignal - 1 }
        else g
      else g
    else
      if buf > 18000 then { g with ffsignal := g.ffsignal + 1 }
      else if buf < 18000 then { g with ffsignal := g.ffsignal - 1 }
      else g
  else g

/-- The points the loops visit, in order: those of the turns 1 to 4. -/
def visited (around : Int → Around) : List AroundPoint :=
  [1, 2, 3, 4].flatMap fun i : Int => (around i).recorded

/-- Both loops. -/
def examineScan (g : Signals) (around : Int → Around) : Signals :=
  (visited around).foldl examine g

/-! ## The commands -/

/-- What the master thread does after the loops, in program order. -/
inductive Action where
  | car (c : Command)
  | beep (on : Bool)
  /-- `rt_thread_delay(rt_tick_from_millisecond(ms))` -/
  | delay (ms : Nat)
  /-- `Eaix4Scaning()` -/
  | scan
  deriving DecidableEq, Repr

/-- `fsignal`, `ffsignal` and `swing`, which live across iterations. -/
structure Locals extends Signals where
  swing : Int32
  deriving DecidableEq, Repr

/-- The command on a nonzero `fsignal`. -/
def steer (fsignal : Int32) : Command :=
  if fsignal ≥ -10 ∧ fsignal ≤ 10 then .carStop
  else if fsignal > 10 then .carRight
  else .carLeft

/-- The turn that ends four swings. -/
def escapeTurn (ffsignal : Int32) : List Action :=
  [.car (if ffsignal > 0 then .carRight else .carLeft), .beep true, .delay 2000, .beep false]

/-- From the end of the loops to the next `rt_event_recv`. -/
def react (l : Locals) : Locals × List Action :=
  if l.fsignal ≠ 0 then
    let swing := l.swing + 1
    if swing ≥ 4 then
      let ffsignal := l.ffsignal + l.fsignal
      ({ fsignal := 0, ffsignal := 0, swing := 0 },
        .car (steer l.fsignal) :: escapeTurn ffsignal ++ [.scan])
    else
      ({ fsignal := 0, ffsignal := 0, swing := swing }, [.car (steer l.fsignal), .scan])
  else
    ({ fsignal := 0, ffsignal := 0, swing := 0 }, [.car .carForward, .scan])

/-- One iteration of `master_thread_entry` on a received `controlEventEaix4`. -/
def handleScan (l : Locals) (around : Int → Around) : Locals × List Action :=
  react { l with toSignals := examineScan l.toSignals around }

/-- The locals at the entry of the thread. `swing` is not initialised. -/
def entry (swing : Int32) : Locals :=
  { fsignal := 0, ffsignal := 0, swing := swing }

/-! ## The counts -/

/-- A near point in the upper half of the front sector. -/
def isHigh (pt : AroundPoint) : Bool :=
  pt.distance ≤ 600 && centidegrees pt.angle > 32500

/-- A near point in the lower half of the front sector. -/
def isLow (pt : AroundPoint) : Bool :=
  pt.distance ≤ 600 && centidegrees pt.angle < 3500

theorem examine_fsignal (g : Signals) (pt : AroundPoint) :
    (examine g pt).fsignal =
      if isHigh pt then g.fsignal + 1 else if isLow pt then g.fsignal - 1 else g.fsignal := by
  by_cases hnear : pt.distance ≤ 600
  · have hfar : pt.distance ≤ 1200 := UInt16.le_trans hnear (by decide)
    by_cases hhigh : centidegrees pt.angle > 32500
    · simp [examine, isHigh, hnear, hfar, hhigh]
    · by_cases hlow : centidegrees pt.angle < 3500
      · simp [examine, isHigh, isLow, hnear, hfar, hhigh, hlow]
      · simp [examine, isHigh, isLow, hnear, hfar, hhigh, hlow]
  · simp only [examine, isHigh, isLow, hnear, decide_false, Bool.false_and, Bool.false_eq_true,
      if_false]
    split_ifs <;> rfl

theorem isLow_of_isHigh {pt : AroundPoint} (h : isHigh pt = true) : isLow pt = false := by
  simp only [isHigh, isLow, Bool.and_eq_true, decide_eq_true_eq, Bool.and_eq_false_iff,
    decide_eq_false_iff_not] at h ⊢
  exact Or.inr fun hlow => UInt32.lt_irrefl _
    (UInt32.lt_trans h.2 (UInt32.lt_trans hlow (by decide)))

/-- A fold that counts some elements upwards and others downwards in `get`. -/
theorem foldl_count {σ α : Type*} {f : σ → α → σ} {get : σ → Int32} {up down : α → Bool}
    (hf : ∀ g a, get (f g a) = if up a then get g + 1 else if down a then get g - 1 else get g)
    (hexcl : ∀ a, up a = true → down a = false) (g : σ) (l : List α) :
    get (l.foldl f g) = get g + Int32.ofInt ((l.countP up : Int) - l.countP down) := by
  induction l generalizing g with
  | nil => simp
  | cons a l ih =>
      rw [List.foldl_cons, ih, hf, List.countP_cons, List.countP_cons]
      cases hup : up a with
      | true =>
          simp only [hexcl a hup, if_true, Bool.false_eq_true, if_false, Nat.add_zero,
            Nat.cast_add, Nat.cast_one, Int32.ofInt_sub, Int32.ofInt_add]
          grind
      | false =>
          cases hdown : down a with
          | true =>
              simp only [if_true, Bool.false_eq_true, if_false, Nat.add_zero, Nat.cast_add,
                Nat.cast_one, Int32.ofInt_sub, Int32.ofInt_add]
              grind
          | false => simp

/-- The loops count the high points upwards and the low points downwards. -/
theorem foldl_examine_fsignal (g : Signals) (pts : List AroundPoint) :
    (pts.foldl examine g).fsignal =
      g.fsignal + Int32.ofInt ((pts.countP isHigh : Int) - pts.countP isLow) :=
  foldl_count examine_fsignal (fun _ => isLow_of_isHigh) g pts

theorem react_locals (l : Locals) : (react l).1.toSignals = { fsignal := 0, ffsignal := 0 } := by
  simp only [react]
  split_ifs <;> rfl

/-- Every reaction ends with a request for the next scan. -/
theorem scan_mem_react (l : Locals) : .scan ∈ (react l).2 := by
  simp only [react, escapeTurn]
  split_ifs <;> simp

theorem handleScan_signals {l : Locals} (scans : List (Int → Around))
    (h : l.toSignals = { fsignal := 0, ffsignal := 0 }) :
    (Machine.run handleScan l scans).1.toSignals = { fsignal := 0, ffsignal := 0 } :=
  Machine.run_invariant (I := fun l : Locals => l.toSignals = { fsignal := 0, ffsignal := 0 })
    (fun _ _ _ => react_locals _) h scans

theorem visited_length_le (around : Int → Around) : (visited around).length ≤ 4 * 32767 := by
  have hturn : ∀ a : Around, a.recorded.length ≤ 32767 := fun a => by
    have := a.number.toInt_lt
    simp only [Around.recorded, List.length_map, List.length_range]
    omega
  have h1 := hturn (around 1)
  have h2 := hturn (around 2)
  have h3 := hturn (around 3)
  have h4 := hturn (around 4)
  simp only [visited, List.flatMap_cons, List.flatMap_nil, List.length_append, List.length_nil]
  omega

/-- `fsignal` after the loops is zero exactly if the two counts are equal. -/
theorem examineScan_fsignal_eq_zero_iff {g : Signals} (h : g.fsignal = 0)
    (around : Int → Around) :
    (examineScan g around).fsignal = 0 ↔
      (visited around).countP isHigh = (visited around).countP isLow := by
  have hhigh := List.countP_le_length (p := isHigh) (l := visited around)
  have hlow := List.countP_le_length (p := isLow) (l := visited around)
  have hlen := visited_length_le around
  rw [examineScan, foldl_examine_fsignal, h, Int32.zero_add, ← Int32.toInt_inj,
    Int32.toInt_ofInt_of_le (by omega) (by omega), show (0 : Int32).toInt = 0 from rfl]
  omega

/-! ## The last command -/

def Action.command : Action → Option Command
  | .car c => some c
  | _ => none

/-- The command that the car is left with. -/
def lastCommand (actions : List Action) : Option Command :=
  (actions.filterMap Action.command).getLast?

theorem steer_ne_carForward (fsignal : Int32) : steer fsignal ≠ .carForward := by
  simp only [steer]
  split_ifs <;> simp

theorem lastCommand_react (l : Locals) :
    lastCommand (react l).2 = some .carForward ↔ l.fsignal = 0 := by
  simp only [react, escapeTurn]
  split_ifs with hsignal hswing hright
  · simp [lastCommand, Action.command, hsignal, List.filterMap_cons]
  · simp [lastCommand, Action.command, hsignal, List.filterMap_cons]
  · simp [lastCommand, Action.command, hsignal, List.filterMap_cons, steer_ne_carForward]
  · simpa [lastCommand, Action.command, List.filterMap_cons] using hsignal

/-- A recorded point the car must not drive towards. -/
def InFront (pt : AroundPoint) : Prop :=
  pt.distance ≤ 600 ∧ (centidegrees pt.angle > 32500 ∨ centidegrees pt.angle < 3500)

theorem inFront_iff (pt : AroundPoint) : InFront pt ↔ isHigh pt = true ∨ isLow pt = true := by
  simp [InFront, isHigh, isLow, and_or_left]

/-- Whatever the scans before, a scan with a near point in front does not end
with `carForward` exactly if the two halves of the front sector do not balance. -/
theorem obstacle_avoided_iff (swing : Int32) (scans : List (Int → Around))
    (around : Int → Around) :
    ((∃ pt ∈ visited around, InFront pt) →
        lastCommand (handleScan (Machine.run handleScan (entry swing) scans).1 around).2 ≠
          some .carForward) ↔
      ((visited around).countP isHigh = (visited around).countP isLow →
        (visited around).countP isHigh = 0) := by
  have hsignals := handleScan_signals (l := entry swing) scans rfl
  have hforward : lastCommand
        (handleScan (Machine.run handleScan (entry swing) scans).1 around).2 = some .carForward ↔
      (visited around).countP isHigh = (visited around).countP isLow := by
    rw [handleScan, lastCommand_react]
    exact examineScan_fsignal_eq_zero_iff (congrArg Signals.fsignal hsignals) around
  have hfront : (∃ pt ∈ visited around, InFront pt) ↔
      0 < (visited around).countP isHigh ∨ 0 < (visited around).countP isLow := by
    simp only [inFront_iff, List.countP_pos_iff, and_or_left, exists_or]
  rw [hfront, Ne, hforward]
  constructor
  · intro h hbalance
    by_contra hne
    exact h (Or.inl (Nat.pos_of_ne_zero hne)) hbalance
  · intro h hpos hbalance
    have hhigh := h hbalance
    omega

/-- One near point on each side of straight ahead, in turn 1. -/
def gate : Int → Around := fun i =>
  { firstpoint := default
    ap := fun x => if x = 0 then ⟨21120, 500⟩ else ⟨1920, 500⟩
    number := if i = 1 then 2 else 0 }

theorem gate_drives_forward :
    (∃ pt ∈ visited gate, InFront pt) ∧
      lastCommand (handleScan (entry 0) gate).2 = some .carForward := by
  refine ⟨⟨⟨21120, 500⟩, ?_, ?_⟩, ?_⟩
  · decide
  · exact ⟨by decide, Or.inl (by decide)⟩
  · decide

end Master
