-- SUMMARY: The decision on a scan and the decision on its mirror image.
import LidarCar.Master.Decision

/-!
# Mirrored scans

Straight ahead is 0 and 23040, so the mirror image of a direction is 23040 minus
its angle. The thresholds of the decision are images of one another, and with
left and right exchanged the car is commanded the same way on both scans.
-/

namespace Master

open Slam (Around AroundPoint)
open Drive (Command)

/-! ## Images -/

/-- The image of a point. -/
def mirror (pt : AroundPoint) : AroundPoint :=
  { pt with angle := 23040 - pt.angle }

/-- Left for right. -/
def mirrorCommand : Command → Command
  | .carLeft => .carRight
  | .carRight => .carLeft
  | .carForward => .carForward
  | .carBack => .carBack
  | .carStop => .carStop

def Action.mirror : Action → Action
  | .car c => .car (mirrorCommand c)
  | .beep on => .beep on
  | .delay ms => .delay ms
  | .scan => .scan

/-- `around'` holds the images of the points of `around`, in any places. -/
def MirrorImage (around around' : Int → Around) : Prop :=
  (visited around').Perm ((visited around).map mirror)

/-! ## The two counts of a point -/

/-- A point counted upwards in `ffsignal`. -/
def isFarHigh (pt : AroundPoint) : Bool :=
  600 < pt.distance && pt.distance ≤ 1200 && centidegrees pt.angle > 18000

/-- A point counted downwards in `ffsignal`. -/
def isFarLow (pt : AroundPoint) : Bool :=
  600 < pt.distance && pt.distance ≤ 1200 && centidegrees pt.angle < 18000

theorem examine_ffsignal (g : Signals) (pt : AroundPoint) :
    (examine g pt).ffsignal =
      if isFarHigh pt then g.ffsignal + 1
      else if isFarLow pt then g.ffsignal - 1 else g.ffsignal := by
  by_cases hnear : pt.distance ≤ 600
  · have hfar : ¬ 600 < pt.distance := UInt16.not_lt.mpr hnear
    simp only [examine, isFarHigh, isFarLow, hnear, hfar, decide_false, Bool.false_and,
      Bool.false_eq_true, if_true, if_false]
    split_ifs <;> rfl
  · have hfar : 600 < pt.distance := UInt16.not_le.mp hnear
    by_cases hout : pt.distance ≤ 1200
    · simp only [examine, isFarHigh, isFarLow, hnear, hfar, hout, decide_true, Bool.true_and,
        if_true, if_false, decide_eq_true_eq]
      split_ifs <;> rfl
    · simp only [examine, isFarHigh, isFarLow, hout, decide_false, Bool.and_false,
        Bool.false_and, Bool.false_eq_true, if_false]

theorem isFarLow_of_isFarHigh {pt : AroundPoint} (h : isFarHigh pt = true) :
    isFarLow pt = false := by
  simp only [isFarHigh, isFarLow, Bool.and_eq_true, decide_eq_true_eq, Bool.and_eq_false_iff,
    decide_eq_false_iff_not] at h ⊢
  exact Or.inr fun hlow => UInt32.lt_irrefl _ (UInt32.lt_trans h.2 hlow)

theorem foldl_examine_ffsignal (g : Signals) (pts : List AroundPoint) :
    (pts.foldl examine g).ffsignal =
      g.ffsignal + Int32.ofInt ((pts.countP isFarHigh : Int) - pts.countP isFarLow) :=
  foldl_count examine_ffsignal (fun _ => isFarLow_of_isFarHigh) g pts

/-! ## The thresholds -/

theorem centidegrees_toNat (angle : UInt16) :
    (centidegrees angle).toNat = angle.toNat * 100 / 64 := by
  have hlt := angle.toNat_lt
  simp only [centidegrees, UInt32.toNat_div, UInt32.toNat_mul, UInt16.toNat_toUInt32,
    UInt32.reduceToNat]
  rw [Nat.mod_eq_of_lt (by omega)]

theorem centidegrees_gt_iff (angle : UInt16) {bound : UInt32} :
    centidegrees angle > bound ↔ bound.toNat < angle.toNat * 100 / 64 := by
  rw [gt_iff_lt, UInt32.lt_iff_toNat_lt, centidegrees_toNat]

theorem centidegrees_lt_iff (angle : UInt16) {bound : UInt32} :
    centidegrees angle < bound ↔ angle.toNat * 100 / 64 < bound.toNat := by
  rw [UInt32.lt_iff_toNat_lt, centidegrees_toNat]

section Image

variable {pt : AroundPoint}

theorem mirror_distance (pt : AroundPoint) : (mirror pt).distance = pt.distance := by
  rw [mirror]

theorem mirror_angle_toNat (h : pt.angle ≤ 23040) :
    (mirror pt).angle.toNat = 23040 - pt.angle.toNat :=
  UInt16.toNat_sub_of_le _ _ h

/-- 32500 and 3500 are images, in spite of the truncating division. -/
theorem mirror_front (h : pt.angle ≤ 23040) :
    (centidegrees (mirror pt).angle > 32500 ↔ centidegrees pt.angle < 3500) ∧
      (centidegrees (mirror pt).angle < 3500 ↔ centidegrees pt.angle > 32500) := by
  have hle : pt.angle.toNat ≤ 23040 := UInt16.le_iff_toNat_le.mp h
  simp only [centidegrees_gt_iff, centidegrees_lt_iff, mirror_angle_toNat h,
    show (32500 : UInt32).toNat = 32500 from rfl, show (3500 : UInt32).toNat = 3500 from rfl]
  omega

/-- 18000 is its own image. -/
theorem mirror_side (h : pt.angle ≤ 23040) :
    (centidegrees (mirror pt).angle > 18000 ↔ centidegrees pt.angle < 18000) ∧
      (centidegrees (mirror pt).angle < 18000 ↔ centidegrees pt.angle > 18000) := by
  have hle : pt.angle.toNat ≤ 23040 := UInt16.le_iff_toNat_le.mp h
  simp only [centidegrees_gt_iff, centidegrees_lt_iff, mirror_angle_toNat h,
    show (18000 : UInt32).toNat = 18000 from rfl]
  omega

theorem isHigh_mirror (h : pt.angle ≤ 23040) : isHigh (mirror pt) = isLow pt := by
  simp only [isHigh, isLow, mirror_distance, (mirror_front h).1]

theorem isLow_mirror (h : pt.angle ≤ 23040) : isLow (mirror pt) = isHigh pt := by
  simp only [isHigh, isLow, mirror_distance, (mirror_front h).2]

theorem isFarHigh_mirror (h : pt.angle ≤ 23040) : isFarHigh (mirror pt) = isFarLow pt := by
  simp only [isFarHigh, isFarLow, mirror_distance, (mirror_side h).1]

theorem isFarLow_mirror (h : pt.angle ≤ 23040) : isFarLow (mirror pt) = isFarHigh pt := by
  simp only [isFarHigh, isFarLow, mirror_distance, (mirror_side h).2]

end Image

/-! ## The signals -/

section Scan

variable {around around' : Int → Around}

/-- A count over the images is the count of what the images are. -/
theorem MirrorImage.countP {f f' : AroundPoint → Bool} (h : MirrorImage around around')
    (hangle : ∀ pt ∈ visited around, pt.angle ≤ 23040)
    (hf : ∀ pt : AroundPoint, pt.angle ≤ 23040 → f (mirror pt) = f' pt) :
    (visited around').countP f = (visited around).countP f' := by
  rw [List.Perm.countP_eq f h, List.countP_map]
  apply List.countP_congr
  intro pt hpt
  rw [Function.comp_apply, hf pt (hangle pt hpt)]

/-- A signal before the wrap-around of 32 bits is reached. -/
def Small (signal : Int32) : Prop :=
  -(4 * 32767) ≤ signal.toInt ∧ signal.toInt ≤ 4 * 32767

theorem small_ofInt_sub {n m : Nat} (hn : n ≤ 4 * 32767) (hm : m ≤ 4 * 32767) :
    Small (.ofInt ((n : Int) - m)) := by
  rw [Small, Int32.toInt_ofInt_of_le (by omega) (by omega)]
  omega

/-- From zero, the loops leave the difference of two counts in each signal. -/
theorem examineScan_zero {g : Signals} (hg : g = { fsignal := 0, ffsignal := 0 })
    (around : Int → Around) :
    (examineScan g around).fsignal =
        .ofInt (((visited around).countP isHigh : Int) - (visited around).countP isLow) ∧
      (examineScan g around).ffsignal =
        .ofInt (((visited around).countP isFarHigh : Int) - (visited around).countP isFarLow) := by
  subst hg
  constructor
  · rw [examineScan, foldl_examine_fsignal, Int32.zero_add]
  · rw [examineScan, foldl_examine_ffsignal, Int32.zero_add]

theorem examineScan_small {g : Signals} (hg : g = { fsignal := 0, ffsignal := 0 })
    (around : Int → Around) :
    Small (examineScan g around).fsignal ∧ Small (examineScan g around).ffsignal := by
  have hcount : ∀ f : AroundPoint → Bool, (visited around).countP f ≤ 4 * 32767 := fun f =>
    (List.countP_le_length).trans (visited_length_le around)
  obtain ⟨hf, hff⟩ := examineScan_zero hg around
  rw [hf, hff]
  exact ⟨small_ofInt_sub (hcount _) (hcount _), small_ofInt_sub (hcount _) (hcount _)⟩

/-- The signals of the image are the negated ones. -/
theorem MirrorImage.examineScan {g : Signals} (h : MirrorImage around around')
    (hg : g = { fsignal := 0, ffsignal := 0 })
    (hangle : ∀ pt ∈ visited around, pt.angle ≤ 23040) :
    (examineScan g around').fsignal = -(examineScan g around).fsignal ∧
      (examineScan g around').ffsignal = -(examineScan g around).ffsignal := by
  obtain ⟨hf, hff⟩ := examineScan_zero hg around
  obtain ⟨hf', hff'⟩ := examineScan_zero hg around'
  rw [hf, hff, hf', hff', h.countP hangle fun _ => isHigh_mirror,
    h.countP hangle fun _ => isLow_mirror, h.countP hangle fun _ => isFarHigh_mirror,
    h.countP hangle fun _ => isFarLow_mirror, ← Int32.ofInt_neg, ← Int32.ofInt_neg, neg_sub, neg_sub]
  exact ⟨rfl, rfl⟩

end Scan

/-! ## The commands -/

section Commands

variable {f f' : Int32} {l l' : Locals}

theorem Small.toInt_neg (h : Small f) : (-f).toInt = -f.toInt := by
  obtain ⟨hge, hle⟩ := h
  rw [← Int32.ofInt_toInt f, ← Int32.ofInt_neg, Int32.ofInt_toInt,
    Int32.toInt_ofInt_of_le (by omega) (by omega)]

theorem neg_eq_zero_iff (f : Int32) : -f = 0 ↔ f = 0 := by
  constructor
  · intro h
    calc f = - -f := Int32.neg_neg.symm
      _ = -0 := by rw [h]
      _ = 0 := rfl
  · rintro rfl
    rfl

theorem steer_eq (f : Int32) :
    steer f = if -10 ≤ f.toInt ∧ f.toInt ≤ 10 then .carStop
      else if f.toInt > 10 then .carRight else .carLeft := by
  simp only [steer, ge_iff_le, gt_iff_lt, Int32.le_iff_toInt_le, Int32.lt_iff_toInt_lt,
    show (10 : Int32).toInt = 10 from rfl, show (-10 : Int32).toInt = -10 from rfl]

/-- Left and right are exchanged in the command on the front sector. -/
theorem steer_neg (h : Small f) : steer (-f) = mirrorCommand (steer f) := by
  rw [steer_eq, steer_eq, h.toInt_neg]
  by_cases hstop : -10 ≤ f.toInt ∧ f.toInt ≤ 10
  · rw [if_pos hstop, if_pos (by omega)]
    rfl
  · rw [if_neg hstop, if_neg (by omega)]
    by_cases hright : f.toInt > 10
    · rw [if_pos hright, if_neg (by omega)]
      rfl
    · rw [if_neg hright, if_pos (by omega)]
      rfl

/-- The sum of two small signals, as long as it is not zero, decides the turn. -/
theorem escapeTurn_neg {s : Int32} (hneg : (-s).toInt = -s.toInt) (hne : s ≠ 0) :
    escapeTurn (-s) = (escapeTurn s).map Action.mirror := by
  have hpos : ∀ x : Int32, x > 0 ↔ 0 < x.toInt := fun x => Int32.lt_iff_toInt_lt
  have hzero : s.toInt ≠ 0 := fun h => hne (Int32.toInt_inj.mp h)
  simp only [escapeTurn, hpos, hneg]
  by_cases hright : 0 < s.toInt
  · rw [if_pos hright, if_neg (by omega)]
    rfl
  · rw [if_neg hright, if_pos (by omega)]
    rfl

/-- The escape turn of an even scan. -/
def leftTurn : List Action :=
  [.car .carLeft, .beep true, .delay 2000, .beep false, .scan]

/-- The scan ends four swings, and its near points and its far points cancel out. -/
def Locals.EscapesEvenly (l : Locals) : Prop :=
  l.fsignal ≠ 0 ∧ l.swing + 1 ≥ 4 ∧ l.ffsignal + l.fsignal = 0

instance (l : Locals) : Decidable l.EscapesEvenly :=
  inferInstanceAs (Decidable (_ ∧ _))

/-- Negated signals exchange left and right in what the car is commanded. -/
theorem react_mirror (hf : Small l.fsignal) (hff : Small l.ffsignal)
    (hf' : l'.fsignal = -l.fsignal) (hff' : l'.ffsignal = -l.ffsignal)
    (hswing : l'.swing = l.swing) :
    (react l').1 = (react l).1 ∧
      if l.EscapesEvenly then
        (react l).2 = .car (steer l.fsignal) :: leftTurn ∧
          (react l').2 = .car (mirrorCommand (steer l.fsignal)) :: leftTurn
      else (react l').2 = (react l).2.map Action.mirror := by
  have hne : l'.fsignal ≠ 0 ↔ l.fsignal ≠ 0 := by
    rw [hf', Ne, neg_eq_zero_iff]
  have hsum : l'.ffsignal + l'.fsignal = -(l.ffsignal + l.fsignal) := by
    rw [hf', hff']
    grind
  have hsmall : (-(l.ffsignal + l.fsignal)).toInt = -(l.ffsignal + l.fsignal).toInt := by
    obtain ⟨hfge, hfle⟩ := hf
    obtain ⟨hffge, hffle⟩ := hff
    rw [← hsum, hf', hff', Int32.toInt_add, Int32.toInt_add, Small.toInt_neg ⟨hffge, hffle⟩,
      Small.toInt_neg ⟨hfge, hfle⟩, Int.bmod_eq_of_le (by omega) (by omega),
      Int.bmod_eq_of_le (by omega) (by omega)]
    omega
  have hsteer : steer l'.fsignal = mirrorCommand (steer l.fsignal) := by
    rw [hf', steer_neg hf]
  by_cases hfront : l.fsignal ≠ 0
  · by_cases hfour : l.swing + 1 ≥ 4
    · simp only [react, if_pos hfront, if_pos (hne.mpr hfront), hswing, if_pos hfour, hsteer,
        hsum, true_and]
      split
      case isTrue heven =>
        rw [heven.2.2]
        exact ⟨rfl, rfl⟩
      case isFalse hodd =>
        rw [escapeTurn_neg hsmall fun hzero => hodd ⟨hfront, hfour, hzero⟩]
        simp [Action.mirror]
    · have hodd : ¬ l.EscapesEvenly := fun heven => hfour heven.2.1
      simp only [react, if_pos hfront, if_pos (hne.mpr hfront), hswing, if_neg hfour, hsteer,
        if_neg hodd, true_and]
      rfl
  · have hodd : ¬ l.EscapesEvenly := fun heven => hfront heven.1
    simp only [react, if_neg hfront, if_neg (mt hne.mp hfront), if_neg hodd, true_and]
    rfl

end Commands

/-- Whatever the scans before, on the mirror image of a scan the two signals are
negated, left and right are exchanged in all commands and the locals are left the
same. Only the escape turn of an even scan goes left on both. -/
theorem decision_mirrored (swing : Int32) (scans : List (Int → Around))
    {around around' : Int → Around} (hangle : ∀ pt ∈ visited around, pt.angle ≤ 23040)
    (himage : MirrorImage around around') :
    let l := (Machine.run handleScan (entry swing) scans).1
    let g := examineScan l.toSignals around
    (examineScan l.toSignals around').fsignal = -g.fsignal ∧
      (examineScan l.toSignals around').ffsignal = -g.ffsignal ∧
        (handleScan l around').1 = (handleScan l around).1 ∧
          if ({ l with toSignals := g } : Locals).EscapesEvenly then
            (handleScan l around).2 = .car (steer g.fsignal) :: leftTurn ∧
              (handleScan l around').2 = .car (mirrorCommand (steer g.fsignal)) :: leftTurn
          else (handleScan l around').2 = (handleScan l around).2.map Action.mirror := by
  intro l g
  have hzero : l.toSignals = { fsignal := 0, ffsignal := 0 } :=
    handleScan_signals (l := entry swing) scans rfl
  obtain ⟨hf, hff⟩ := himage.examineScan hzero hangle
  obtain ⟨hsmall, hsmall'⟩ := examineScan_small hzero around
  exact ⟨hf, hff, react_mirror hsmall hsmall' hf hff rfl⟩

/-- One near point in turn `turn`. -/
def lone (turn : Int) (angle : UInt16) : Int → Around := fun i =>
  { firstpoint := default
    ap := fun _ => ⟨angle, 500⟩
    number := if i = turn then 1 else 0 }

/-- A point a little to one side in turn 1, and a point as far to the other side
in turn 3, after three swings. -/
theorem decision_mirrored_lone :
    (handleScan (Machine.run handleScan (entry 3) []).1 (lone 3 1920)).2 =
      (handleScan (Machine.run handleScan (entry 3) []).1 (lone 1 21120)).2.map Action.mirror := by
  have hangle : ∀ pt ∈ visited (lone 1 21120), pt.angle ≤ 23040 := by decide
  have himage : MirrorImage (lone 1 21120) (lone 3 1920) := by
    rw [MirrorImage]
    decide
  obtain ⟨-, -, -, hactions⟩ := decision_mirrored 3 [] hangle himage
  rwa [if_neg (by decide)] at hactions

end Master
