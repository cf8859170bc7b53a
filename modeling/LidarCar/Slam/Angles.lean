-- SUMMARY: The angles manipulationData computes for the samples of a packet, as marks on a circle.
import LidarCar.Base.Arc
import LidarCar.Master.Decision
import LidarCar.Slam.Points

/-!
# The angles of a packet

A full turn is 23040 units of 1/64 degree. The two branches of
`manipulationData` give the samples of a packet angles between those of the two
ends of the packet, in 16-bit arithmetic.
-/

namespace Slam

/-! ## The two branches -/

/-- `package.fsa >> 1` -/
def PackAge.first (p : PackAge) : Nat :=
  (p.fsa >>> 1).toNat

/-- `package.lsa >> 1` -/
def PackAge.last (p : PackAge) : Nat :=
  (p.lsa >>> 1).toNat

/-- What the branch that is taken divides by `package.lsn`. -/
def PackAge.sweep (p : PackAge) : Nat :=
  if p.fsa > p.lsa then p.last + (23040 - p.first) else p.last - p.first

/-- The value of `angleDiff`. -/
def PackAge.angleDiff (p : PackAge) : UInt16 :=
  if p.fsa > p.lsa then angleDiffAcross p.fsa p.lsa p.lsn else angleDiffWithin p.fsa p.lsa p.lsn

/-- The value of `angle` for sample `i`. -/
def PackAge.offset (p : PackAge) (i : Nat) : UInt16 :=
  .ofNat (i * p.angleDiff.toNat)

/-- The angle in the slot that the iteration for sample `i` writes. -/
def PackAge.storedAngle (p : PackAge) (g : Globals) (i : Nat) : UInt16 :=
  (((recordSample p g i).1.around (g.circle.toInt - 1)).ap g.count.toInt).angle

/-- The packet's angles are within a turn, and it has samples that fit its buffer. -/
structure PackAge.Regular (p : PackAge) : Prop where
  fsa : p.fsa < 46080
  lsa : p.lsa < 46080
  lsn_pos : 1 ≤ p.lsn
  lsn_le : p.lsn ≤ 40

/-- The lowest bits of both angles are equal. -/
def PackAge.SameBit (p : PackAge) : Prop :=
  p.fsa &&& 1 = p.lsa &&& 1

theorem storedAngle_eq {p : PackAge} {i : Nat} (hi : p.buf i ≠ 0) (g : Globals) :
    p.storedAngle g i = sampleAngle p.fsa p.lsa p.lsn i := by
  simp [PackAge.storedAngle, recordSample, hi, Globals.storePoint]

theorem sampleAngle_eq (p : PackAge) (i : Nat) :
    sampleAngle p.fsa p.lsa p.lsn i =
      if p.fsa > p.lsa ∧ (p.fsa >>> 1) + p.offset i > 23040 then
        (p.fsa >>> 1) + p.offset i - 23040
      else (p.fsa >>> 1) + p.offset i := by
  by_cases hacross : p.fsa > p.lsa
  · simp [sampleAngle, PackAge.offset, PackAge.angleDiff, hacross]
  · simp [sampleAngle, PackAge.offset, PackAge.angleDiff, hacross]

section Regular

variable {p : PackAge} {i : Nat}

theorem PackAge.first_eq (p : PackAge) : p.first = p.fsa.toNat / 2 := by
  simp [PackAge.first, Nat.shiftRight_eq_div_pow]

theorem PackAge.last_eq (p : PackAge) : p.last = p.lsa.toNat / 2 := by
  simp [PackAge.last, Nat.shiftRight_eq_div_pow]

theorem PackAge.Regular.first_lt (h : p.Regular) : p.first < 23040 := by
  have hfsa : p.fsa.toNat < 46080 := UInt16.lt_iff_toNat_lt.mp h.fsa
  rw [PackAge.first_eq]
  omega

theorem PackAge.Regular.last_lt (h : p.Regular) : p.last < 23040 := by
  have hlsa : p.lsa.toNat < 46080 := UInt16.lt_iff_toNat_lt.mp h.lsa
  rw [PackAge.last_eq]
  omega

theorem PackAge.Regular.lsn_toNat_pos (h : p.Regular) : 0 < p.lsn.toNat :=
  UInt8.le_iff_toNat_le.mp h.lsn_pos

theorem PackAge.last_le_first (h : p.fsa > p.lsa) : p.last ≤ p.first := by
  have hlt : p.lsa.toNat < p.fsa.toNat := UInt16.lt_iff_toNat_lt.mp h
  rw [PackAge.first_eq, PackAge.last_eq]
  omega

theorem PackAge.first_le_last (h : ¬ p.fsa > p.lsa) : p.first ≤ p.last := by
  have hle : p.fsa.toNat ≤ p.lsa.toNat := UInt16.le_iff_toNat_le.mp (UInt16.not_lt.mp h)
  rw [PackAge.first_eq, PackAge.last_eq]
  omega

/-- Neither branch leaves the turn that begins with the first angle. -/
theorem PackAge.Regular.first_add_sweep (h : p.Regular) :
    p.first + p.sweep = if p.fsa > p.lsa then p.last + 23040 else p.last := by
  have hfirst := h.first_lt
  rw [PackAge.sweep]
  split
  · omega
  · have hle := PackAge.first_le_last ‹_›
    omega

theorem PackAge.Regular.sweep_le (h : p.Regular) : p.sweep ≤ 23040 := by
  have hsum := h.first_add_sweep
  have hlast := h.last_lt
  split at hsum
  · have hle := PackAge.last_le_first ‹_›
    omega
  · omega

theorem toNat_ofInt_natCast {m : Nat} (h : m < 2 ^ 16) : (UInt16.ofInt m).toNat = m := by
  have hmod : ((m : Int) % 2 ^ 16).toNat = m := by omega
  rw [UInt16.ofInt, hmod, UInt16.toNat_ofNat_of_lt' h]

/-- The division is exact. -/
theorem PackAge.Regular.angleDiff_toNat (h : p.Regular) :
    p.angleDiff.toNat = p.sweep / p.lsn.toNat := by
  have hlt : p.sweep / p.lsn.toNat < 2 ^ 16 :=
    (Nat.div_le_self _ _).trans_lt (h.sweep_le.trans_lt (by decide))
  have hfirst := h.first_lt
  rw [← toNat_ofInt_natCast hlt, Int.ofNat_tdiv]
  congr 1
  rw [PackAge.angleDiff, PackAge.sweep]
  split
  · rw [angleDiffAcross, Nat.cast_add, Nat.cast_sub hfirst.le]
    rfl
  · rw [angleDiffWithin, Nat.cast_sub (PackAge.first_le_last ‹_›)]
    rfl

/-- So is the product. -/
theorem PackAge.Regular.offset_toNat (h : p.Regular) (hi : i < p.lsn.toNat) :
    (p.offset i).toNat = i * (p.sweep / p.lsn.toNat) := by
  have hle := Arc.mark_le (s := p.sweep) hi.le
  rw [PackAge.offset, h.angleDiff_toNat]
  exact UInt16.toNat_ofNat_of_lt' (hle.trans_lt (h.sweep_le.trans_lt (by decide)))

/-- And so is the sum. -/
theorem PackAge.Regular.sum_toNat (h : p.Regular) (hi : i < p.lsn.toNat) :
    ((p.fsa >>> 1) + p.offset i).toNat = p.first + i * (p.sweep / p.lsn.toNat) := by
  have hle := Arc.mark_le (s := p.sweep) hi.le
  have hfirst := h.first_lt
  have hsweep := h.sweep_le
  rw [UInt16.toNat_add, h.offset_toNat hi, ← PackAge.first, Nat.mod_eq_of_lt (by omega)]

/-- The angle of a sample, in exact arithmetic. -/
theorem PackAge.Regular.sampleAngle_toNat (h : p.Regular) (hi : i < p.lsn.toNat) :
    (sampleAngle p.fsa p.lsa p.lsn i).toNat =
      if p.fsa > p.lsa ∧ p.first + i * (p.sweep / p.lsn.toNat) > 23040 then
        p.first + i * (p.sweep / p.lsn.toNat) - 23040
      else p.first + i * (p.sweep / p.lsn.toNat) := by
  have hsum := h.sum_toNat hi
  have hgt : (p.fsa >>> 1) + p.offset i > 23040 ↔
      p.first + i * (p.sweep / p.lsn.toNat) > 23040 := by
    rw [gt_iff_lt, UInt16.lt_iff_toNat_lt, hsum]
    exact Iff.rfl
  rw [sampleAngle_eq]
  simp only [hgt]
  split
  case isTrue hreduce =>
    rw [UInt16.toNat_sub_of_le _ _ (UInt16.le_of_lt (hgt.mpr hreduce.2)), hsum]
    rfl
  case isFalse => exact hsum

/-! ## One circular rule -/

theorem PackAge.SameBit.mod_two (h : p.SameBit) : p.fsa.toNat % 2 = p.lsa.toNat % 2 := by
  have hbit := congrArg UInt16.toNat h
  rwa [UInt16.toNat_and, UInt16.toNat_and, UInt16.toNat_one, Nat.and_one_is_mod,
    Nat.and_one_is_mod] at hbit

/-- With equal lowest bits both branches divide the arc between the two angles. -/
theorem PackAge.Regular.sweep_eq_span (h : p.Regular) (hbit : p.SameBit) :
    p.sweep = Arc.span 23040 p.first p.last := by
  have hfirst := h.first_lt
  have hlast := h.last_lt
  rw [PackAge.sweep]
  split
  case isTrue hacross =>
    have hlt : p.last < p.first := by
      have hgt : p.lsa.toNat < p.fsa.toNat := UInt16.lt_iff_toNat_lt.mp hacross
      have hmod := hbit.mod_two
      rw [PackAge.first_eq, PackAge.last_eq]
      omega
    rw [Arc.span_of_lt hlt hfirst]
  case isFalse hwithin => rw [Arc.span_of_le (PackAge.first_le_last hwithin) hlast]

/-- Whichever branch is taken, the stored angles are marks at even distances on
the arc between the two angles of the packet, and no 16-bit value wraps. -/
theorem interpolation_circular (h : p.Regular) (hbit : p.SameBit) (hi : i < p.lsn.toNat)
    (hbuf : p.buf i ≠ 0) (g : Globals) :
    let span := Arc.span 23040 p.first p.last
    let step := span / p.lsn.toNat
    (p.storedAngle g i).toNat ≡ p.first + i * step [MOD 23040] ∧ i * step ≤ span ∧
      p.angleDiff.toNat = step ∧ (p.offset i).toNat = i * step ∧
        ((p.fsa >>> 1) + p.offset i).toNat = p.first + i * step := by
  intro span step
  have hspan : p.sweep = span := h.sweep_eq_span hbit
  have hstored := h.sampleAngle_toNat hi
  have hdiff := h.angleDiff_toNat
  have hoffset := h.offset_toNat hi
  have hsum := h.sum_toNat hi
  rw [hspan] at hstored hdiff hoffset hsum
  refine ⟨?_, Arc.mark_le hi.le, hdiff, hoffset, hsum⟩
  rw [storedAngle_eq hbuf, hstored]
  split
  case isTrue hreduce => exact (Nat.modEq_iff_dvd' (Nat.sub_le _ _)).mpr ⟨1, by omega⟩
  case isFalse => exact Nat.ModEq.refl _

/-- From 358 to 2 degrees in two samples. -/
def crossing : PackAge where
  lsn := 2
  fsa := 0xB300
  lsa := 0x0100
  cs := 0
  buf := fun _ => 0x0100

theorem crossing_regular : crossing.Regular :=
  ⟨by decide, by decide, by decide, by decide⟩

theorem interpolation_circular_crossing :
    (crossing.storedAngle powerUp.toGlobals 1).toNat ≡ 22912 + 1 * 128 [MOD 23040] ∧
      1 * 128 ≤ 256 := by
  have hcircular := interpolation_circular crossing_regular rfl (by decide : 1 < 2) (by decide)
    powerUp.toGlobals
  exact ⟨hcircular.1, hcircular.2.1⟩

/-! ## Angles of a full turn -/

/-- Sample `i` of a packet that crosses 0 degrees is at 0 degrees. -/
def PackAge.AtZero (p : PackAge) (i : Nat) : Prop :=
  p.fsa > p.lsa ∧ p.first + i * ((p.last + (23040 - p.first)) / p.lsn.toNat) = 23040

theorem PackAge.Regular.sampleAngle_lt_iff (h : p.Regular) (hi : i < p.lsn.toNat) :
    sampleAngle p.fsa p.lsa p.lsn i < 23040 ↔ ¬ p.AtZero i := by
  have hangle := h.sampleAngle_toNat hi
  have hmark := Arc.mark_le (s := p.sweep) hi.le
  have hsum := h.first_add_sweep
  have hlast := h.last_lt
  rw [UInt16.lt_iff_toNat_lt, show (23040 : UInt16).toNat = 23040 from rfl]
  by_cases hacross : p.fsa > p.lsa
  · have hsweep : p.last + (23040 - p.first) = p.sweep := (if_pos hacross).symm
    rw [if_pos hacross] at hsum
    rw [PackAge.AtZero, and_iff_right hacross, hsweep]
    simp only [hacross, true_and] at hangle
    split at hangle <;> omega
  · have hzero : ¬ p.AtZero i := fun hzero => hacross hzero.1
    rw [if_neg hacross] at hsum
    rw [if_neg fun hreduce => hacross hreduce.1] at hangle
    refine iff_of_true ?_ hzero
    omega

/-- Each of the stored angles is below a full turn, so the side of the car that a
point counts for is that of its direction. -/
structure PackAge.Canonical (p : PackAge) (g : Globals) : Prop where
  angle_lt : ∀ i < p.lsn.toNat, p.buf i ≠ 0 → p.storedAngle g i < 23040
  side : ∀ i < p.lsn.toNat, p.buf i ≠ 0 → ∀ angle : UInt16, angle < 23040 →
    angle.toNat ≡ (p.storedAngle g i).toNat [MOD 23040] → ∀ distance,
      Master.isHigh ⟨p.storedAngle g i, distance⟩ = Master.isHigh ⟨angle, distance⟩ ∧
        Master.isLow ⟨p.storedAngle g i, distance⟩ = Master.isLow ⟨angle, distance⟩

theorem eq_of_canonical {x y : UInt16} (hx : x < 23040) (hy : y < 23040)
    (h : x.toNat ≡ y.toNat [MOD 23040]) : x = y :=
  UInt16.toNat_inj.mp (h.eq_of_lt_of_lt (UInt16.lt_iff_toNat_lt.mp hx)
    (UInt16.lt_iff_toNat_lt.mp hy))

/-- The stored angles are canonical exactly if no sample of a packet that crosses
0 degrees is at 0 degrees. -/
theorem angles_canonical_iff (h : p.Regular) (g : Globals) :
    p.Canonical g ↔ ∀ i < p.lsn.toNat, p.buf i ≠ 0 → ¬ p.AtZero i := by
  have hlt : (∀ i < p.lsn.toNat, p.buf i ≠ 0 → p.storedAngle g i < 23040) ↔
      ∀ i < p.lsn.toNat, p.buf i ≠ 0 → ¬ p.AtZero i := by
    refine forall_congr' fun i => forall_congr' fun hi => forall_congr' fun hbuf => ?_
    rw [storedAngle_eq hbuf, h.sampleAngle_lt_iff hi]
  rw [← hlt]
  refine ⟨fun hcanonical => hcanonical.angle_lt, fun hall => ⟨hall, ?_⟩⟩
  intro i hi hbuf angle hangle hmod distance
  rw [eq_of_canonical hangle (hall i hi hbuf) hmod]
  exact ⟨rfl, rfl⟩

/-- From 0 to 180 degrees in two samples. -/
def halfTurn : PackAge where
  lsn := 2
  fsa := 0
  lsa := 0x5A00
  cs := 0
  buf := fun _ => 0x0100

theorem angles_canonical_iff_halfTurn : halfTurn.Canonical powerUp.toGlobals :=
  (angles_canonical_iff ⟨by decide, by decide, by decide, by decide⟩ powerUp.toGlobals).mpr
    fun _ _ _ hzero => absurd hzero.1 (by decide)

/-- Straight ahead is stored as 23040, on the one side, and as 0, on the other. -/
theorem crossing_not_canonical :
    crossing.Regular ∧ crossing.storedAngle powerUp.toGlobals 1 = 23040 ∧
      ¬ crossing.Canonical powerUp.toGlobals ∧
        Master.isHigh ⟨23040, crossing.buf 1⟩ = true ∧ Master.isLow ⟨0, crossing.buf 1⟩ = true := by
  have hstored : crossing.storedAngle powerUp.toGlobals 1 = 23040 := by decide
  refine ⟨crossing_regular, hstored, fun hcanonical => ?_, by decide, by decide⟩
  have hlt := hcanonical.angle_lt 1 (by decide) (by decide)
  rw [hstored] at hlt
  exact absurd hlt (by decide)

/-! ## The ends of the packet -/

/-- The first sample has the first angle. -/
theorem PackAge.Regular.sampleAngle_zero (h : p.Regular) :
    sampleAngle p.fsa p.lsa p.lsn 0 = p.fsa >>> 1 := by
  have hfirst := h.first_lt
  apply UInt16.toNat_inj.mp
  rw [h.sampleAngle_toNat h.lsn_toNat_pos, ← PackAge.first]
  split
  · omega
  · omega

/-- The last sample falls short of the last angle by a step and the remainder. -/
theorem PackAge.Regular.sampleAngle_last (h : p.Regular) (hbit : p.SameBit) :
    let span := Arc.span 23040 p.first p.last
    ((sampleAngle p.fsa p.lsa p.lsn (p.lsn.toNat - 1)).toNat : Int) +
      (span / p.lsn.toNat + span % p.lsn.toNat : Nat) ≡ p.last [ZMOD 23040] := by
  intro span
  have hspan : p.sweep = span := h.sweep_eq_span hbit
  have hpos := h.lsn_toNat_pos
  have hangle := h.sampleAngle_toNat (Nat.sub_lt hpos Nat.one_pos)
  have hmark : (p.lsn.toNat - 1) * (span / p.lsn.toNat) +
      (span / p.lsn.toNat + span % p.lsn.toNat) = span := Arc.mark_pred_add hpos
  have hend : ((p.first + span : Nat) : Int) ≡ p.last [ZMOD 23040] := Arc.add_span (by decide)
  rw [hspan] at hangle
  refine Int.ModEq.trans ?_ hend
  split at hangle
  case isTrue hreduce => exact Int.modEq_iff_dvd.mpr ⟨1, by omega⟩
  case isFalse => exact congrArg (· % 23040) (by omega)

/-- The angle computed for sample 0 is the first angle, and that for the last
sample is the last angle up to less than `package.lsn` units. -/
structure PackAge.Spans (p : PackAge) : Prop where
  first : sampleAngle p.fsa p.lsa p.lsn 0 = p.fsa >>> 1
  last : ∃ error : Int, |error| < p.lsn.toNat ∧
    ((sampleAngle p.fsa p.lsa p.lsn (p.lsn.toNat - 1)).toNat : Int) + error ≡ p.last [ZMOD 23040]

/-- The samples span the packet exactly if a step and the remainder of the
division by `package.lsn` are together less than `package.lsn`. -/
theorem interpolation_spans_iff (h : p.Regular) (hbit : p.SameBit) (hlsn : 2 ≤ p.lsn) :
    let span := Arc.span 23040 p.first p.last
    p.Spans ↔ span / p.lsn.toNat + span % p.lsn.toNat < p.lsn.toNat := by
  intro span
  have htwo : 2 ≤ p.lsn.toNat := UInt8.le_iff_toNat_le.mp hlsn
  have hforty : p.lsn.toNat ≤ 40 := UInt8.le_iff_toNat_le.mp h.lsn_le
  have hlast := h.sampleAngle_last hbit
  have hspan : span < 23040 := Arc.span_lt (by decide)
  have hstep : span / p.lsn.toNat ≤ span / 2 := Nat.div_le_div_left htwo (by decide)
  have hrest : span % p.lsn.toNat < p.lsn.toNat := Nat.mod_lt _ (by omega)
  constructor
  · rintro ⟨-, error, herror, hmod⟩
    have hcancel : error ≡ (span / p.lsn.toNat + span % p.lsn.toNat : Nat) [ZMOD 23040] :=
      Int.ModEq.add_left_cancel' _ (hmod.trans hlast.symm)
    obtain ⟨hge, hlt⟩ := abs_lt.mp herror
    rw [Int.ModEq] at hcancel
    omega
  · intro hless
    refine ⟨h.sampleAngle_zero, _, ?_, hlast⟩
    rw [abs_of_nonneg (Int.natCast_nonneg _)]
    exact_mod_cast hless

end Regular

/-- From 0 to 12 degrees in 40 samples. -/
def narrow : PackAge where
  lsn := 40
  fsa := 0
  lsa := 0x0600
  cs := 0
  buf := fun _ => 0x0100

theorem interpolation_spans_iff_narrow : narrow.Spans :=
  (interpolation_spans_iff (p := narrow) ⟨by decide, by decide, by decide, by decide⟩ rfl
    (by decide)).mpr (by decide)

/-- The second of two samples from 0 to 180 degrees is put at 90 degrees. -/
theorem halfTurn_not_spans :
    halfTurn.Regular ∧ halfTurn.SameBit ∧ 2 ≤ halfTurn.lsn ∧
      sampleAngle halfTurn.fsa halfTurn.lsa halfTurn.lsn 1 = 5760 ∧ halfTurn.last = 11520 ∧
        ¬ halfTurn.Spans := by
  refine ⟨⟨by decide, by decide, by decide, by decide⟩, rfl, by decide, by decide, by decide, ?_⟩
  rintro ⟨-, error, herror, hmod⟩
  have hangle : sampleAngle halfTurn.fsa halfTurn.lsa halfTurn.lsn (halfTurn.lsn.toNat - 1) =
      5760 := by decide
  rw [hangle, show halfTurn.last = 11520 from by decide] at hmod
  obtain ⟨hge, hlt⟩ := abs_lt.mp herror
  rw [show halfTurn.lsn.toNat = 2 from rfl] at hge hlt
  change (5760 + error) % 23040 = 11520 % 23040 at hmod
  omega

end Slam
