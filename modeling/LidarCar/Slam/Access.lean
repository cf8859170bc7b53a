-- SUMMARY: The index of every access to `around`: which steps of the parser stay inside the array.
import LidarCar.Slam.Packet
import LidarCar.Slam.Points

/-!
# Accesses to `around`

`circle` starts at -1, one before the first turn, and `around[circle - 1]` is
accessed as soon as a packet is complete. The accesses of a run stay inside the
array exactly if no packet that stores something is completed before a turn is
open.
-/

namespace Slam

/-- The effect accesses `around` inside the array, if it does. -/
def Effect.InRange (e : Effect) : Prop :=
  ∀ turn, e.turn = some turn → 0 ≤ turn ∧ turn < aroundSize

/-- The byte `b` completes a packet that stores into `around[circle - 1]`: a
start packet, or a point packet with a nonzero sample. -/
def Parser.Stores (s : Parser) (b : UInt8) : Prop :=
  match s.pc with
  | .manip .buf0Shift => True
  | .manip (.bufShift i) =>
      let p := s.package.setBuf i (b.toUInt16 <<< 8)
      p.lsn.toNat ≤ i + 1 ∧ ∃ j < p.lsn.toNat, p.buf j ≠ 0
  | _ => False

/-- The byte `b` completes such a packet while no turn is open. -/
def Parser.Strays (s : Parser) (b : UInt8) : Prop :=
  s.circle.toInt < 1 ∧ s.Stores b

/-! ## The turn counter -/

/-- The reads between the CT byte of a start packet and its end. -/
def Pc.inStart : Pc → Bool
  | .manip (.field .start _) | .manip .buf0 | .manip .buf0Shift => true
  | _ => false

/-- The values `circle` takes between two steps. -/
structure Parser.CircleOk (s : Parser) : Prop where
  ge : -1 ≤ s.circle.toInt
  le : s.circle.toInt ≤ 5
  started : s.pc.inStart = true → 0 ≤ s.circle.toInt

theorem powerUp_circleOk : powerUp.CircleOk :=
  ⟨by decide, by decide, by decide⟩

theorem Globals.openTurn_circle {g : Globals} (hge : -1 ≤ g.circle.toInt)
    (hle : g.circle.toInt ≤ 5) : g.openTurn.1.circle.toInt = g.circle.toInt + 1 := by
  have hnext : (Int8.ofInt (g.circle.toInt + 1)).toInt = g.circle.toInt + 1 :=
    Int8.toInt_ofInt_of_le (by omega) (by omega)
  unfold Globals.openTurn
  dsimp only
  split
  · exact hnext
  · exact hnext

/-- The turn that a start packet closes is a turn of the array. -/
theorem Globals.openTurn_inRange {g : Globals} (hge : -1 ≤ g.circle.toInt)
    (hle : g.circle.toInt ≤ 5) : ∀ e ∈ g.openTurn.2, e.InRange := by
  have hnext : (Int8.ofInt (g.circle.toInt + 1)).toInt = g.circle.toInt + 1 :=
    Int8.toInt_ofInt_of_le (by omega) (by omega)
  unfold Globals.openTurn
  dsimp only
  rw [hnext]
  split
  · next hgt =>
      intro e he turn hturn
      simp only [List.mem_cons, List.not_mem_nil, or_false] at he
      rcases he with rfl | rfl
      · cases hturn
      · cases hturn
        exact ⟨by omega, by simp only [aroundSize]; omega⟩
  · intro e he turn hturn
    rw [List.mem_singleton] at he
    subst he
    cases hturn

theorem startPacket_circleOk {s : Parser} (h : s.CircleOk) : (startPacket s).1.CircleOk := by
  have hcircle := Globals.openTurn_circle h.ge h.le
  unfold startPacket
  dsimp only
  split
  · exact ⟨by simp, by simp, by simp [Pc.inStart]⟩
  · next hne =>
      have hne' : s.toGlobals.openTurn.1.circle.toInt ≠ 6 := fun h6 =>
        hne (Int8.toInt_inj.mp (by rw [h6]; rfl))
      have hge := h.ge
      have hle := h.le
      exact ⟨by simp only; omega, by simp only; omega, fun _ => by simp only; omega⟩

theorem recordPoints_circle (p : PackAge) (g : Globals) :
    (recordPoints p g).1.circle = g.circle := by
  rw [recordPoints_eq, Globals.storePoints_circle]

/-- Recording samples keeps the counter and leaves the packet. -/
theorem sampleLoop_circleOk {s : Parser} (i : Nat) (hge : -1 ≤ s.circle.toInt)
    (hle : s.circle.toInt ≤ 5) : (sampleLoop s i).1.CircleOk := by
  unfold sampleLoop
  split
  · exact ⟨hge, hle, by simp [Pc.inStart]⟩
  · refine ⟨?_, ?_, by simp [Pc.inStart]⟩
    · simpa only [recordPoints_circle] using hge
    · simpa only [recordPoints_circle] using hle

theorem manipulationData_circleOk {q : ManipPc} {s : Parser} (hq : s.pc = .manip q)
    (h : s.CircleOk) (b : UInt8) : (manipulationData q s b).1.CircleOk := by
  obtain ⟨hge, hle, hstart⟩ := h
  cases q with
  | head => exact ⟨hge, hle, by dsimp only [manipulationData]; split <;> simp [Pc.inStart]⟩
  | head2 => exact ⟨hge, hle, by dsimp only [manipulationData]; split <;> simp [Pc.inStart]⟩
  | ct =>
      dsimp only [manipulationData]
      split
      · exact ⟨hge, hle, by simp [Pc.inStart]⟩
      · split
        · exact startPacket_circleOk ⟨hge, hle, hstart⟩
        · exact ⟨hge, hle, by simp [Pc.inStart]⟩
  | field k f =>
      cases k with
      | point =>
          cases hf : f.next with
          | none =>
              have hloop := sampleLoop_circleOk
                (s := { s with package := readField f s.package b }) 0 hge hle
              simpa only [manipulationData, hf] using hloop
          | some f' => exact ⟨by simpa [manipulationData, hf], by simpa [manipulationData, hf],
              by simp [manipulationData, hf, Pc.inStart]⟩
      | start =>
          have hpos := hstart (by rw [hq]; rfl)
          cases hf : f.next <;>
            exact ⟨by simpa [manipulationData, hf], by simpa [manipulationData, hf],
              fun _ => by simpa [manipulationData, hf]⟩
  | buf i => exact ⟨hge, hle, by simp [manipulationData, Pc.inStart]⟩
  | bufShift i => exact sampleLoop_circleOk (i + 1) hge hle
  | buf0 =>
      have hpos := hstart (by rw [hq]; rfl)
      exact ⟨hge, hle, fun _ => hpos⟩
  | buf0Shift => exact ⟨hge, hle, by simp [manipulationData, Pc.inStart]⟩

theorem step_circleOk (s : Parser) (b : UInt8) (h : s.CircleOk) : (step s b).1.CircleOk := by
  unfold step
  split
  · next q hq =>
      exact ⟨h.ge, h.le, by cases q <;> grind [eaiX4GetDate, afterReply, Pc.inStart]⟩
  · next q hq => exact manipulationData_circleOk hq h b

/-! ## The accesses of one step -/

/-- Effects that do not touch `around`. -/
theorem inRange_of_turn_none {e : Effect} (h : e.turn = none) : e.InRange := by
  intro turn hturn
  rw [h] at hturn
  cases hturn

theorem recordPoints_inRange_iff {p : PackAge} {g : Globals} (hle : g.circle.toInt ≤ 5) :
    (∀ e ∈ (recordPoints p g).2, e.InRange) ↔
      ¬ (g.circle.toInt < 1 ∧ ∃ j < p.lsn.toNat, p.buf j ≠ 0) := by
  rw [recordPoints_eq, List.forall_mem_cons]
  constructor
  · rintro ⟨-, hall⟩ ⟨hlt, j, hj, hne⟩
    have hpts : p.points ≠ [] := fun hnil => hne ((p.points_eq_nil_iff.mp hnil) j hj)
    obtain ⟨slot, hmem⟩ := Globals.exists_storePoints_effect (g := g) hpts
    have := (hall _ hmem _ rfl).1
    omega
  · intro hno
    refine ⟨inRange_of_turn_none rfl, fun e he turn hturn => ?_⟩
    obtain ⟨slot, rfl⟩ := Globals.storePoints_effects he
    cases hturn
    have hne : p.points ≠ [] := by
      intro hnil
      rw [hnil] at he
      cases he
    obtain ⟨j, hj⟩ : ∃ j < p.lsn.toNat, p.buf j ≠ 0 := by
      simpa using mt p.points_eq_nil_iff.mpr hne
    have hge : ¬ g.circle.toInt < 1 := fun hlt => hno ⟨hlt, j, hj⟩
    exact ⟨by omega, by simp only [aroundSize]; omega⟩

/-- The end of the sample loop, reached or not. -/
theorem sampleLoop_inRange_iff {s : Parser} {i : Nat} (hle : s.circle.toInt ≤ 5) :
    (∀ e ∈ (sampleLoop s i).2, e.InRange) ↔
      ¬ (s.circle.toInt < 1 ∧ s.package.lsn.toNat ≤ i ∧
        ∃ j < s.package.lsn.toNat, s.package.buf j ≠ 0) := by
  unfold sampleLoop
  split
  · next hi => simp [Nat.not_le.mpr hi]
  · next hi => simp only [recordPoints_inRange_iff hle, Nat.le_of_not_lt hi, true_and]

/-- A step leaves the array exactly if it strays. -/
theorem step_inRange_iff (s : Parser) (b : UInt8) (h : s.CircleOk) :
    (∀ e ∈ (step s b).2, e.InRange) ↔ ¬ s.Strays b := by
  have hle := h.le
  unfold step Parser.Strays Parser.Stores
  split
  · next q hq => simp [hq]
  · next q hq =>
      rw [hq]
      cases q with
      | head => simp [manipulationData]
      | head2 => simp [manipulationData]
      | ct =>
          have hopen := Globals.openTurn_inRange h.ge h.le
          dsimp only [manipulationData]
          split
          · simp
          · split
            · simp only [and_false, not_false_eq_true, iff_true, startPacket]
              split
              · simp only [List.forall_mem_append, List.forall_mem_cons]
                exact ⟨hopen, inRange_of_turn_none rfl, inRange_of_turn_none rfl,
                  inRange_of_turn_none rfl, by simp⟩
              · exact hopen
            · simp
      | field k f =>
          -- without a sample the loop stores nothing, whatever the buffer holds
          have hloop := (sampleLoop_inRange_iff (i := 0)
            (s := { s with package := readField f s.package b }) hle).mpr
            (by rintro ⟨-, hlsn, j, hj, -⟩; omega)
          cases hf : f.next <;> cases k <;>
            simp only [manipulationData, hf, List.not_mem_nil, false_imp_iff, implies_true,
              and_false, not_false_eq_true]
          exact iff_of_true hloop trivial
      | buf i =>
          have hbuf : (Effect.buf i).InRange := inRange_of_turn_none rfl
          simp [manipulationData, hbuf]
      | bufShift i =>
          have hbuf : (Effect.buf i).InRange := inRange_of_turn_none rfl
          have hloop := sampleLoop_inRange_iff (i := i + 1)
            (s := { s with package := s.package.setBuf i (b.toUInt16 <<< 8) }) hle
          simp only [manipulationData, List.forall_mem_cons, hbuf, true_and]
          exact hloop
      | buf0 =>
          have hbuf : (Effect.buf 0).InRange := inRange_of_turn_none rfl
          simp [manipulationData, hbuf]
      | buf0Shift =>
          have hpos := h.started (by rw [hq]; rfl)
          simp only [manipulationData, List.forall_mem_cons, and_true, not_lt]
          constructor
          · rintro ⟨-, hfirst, -⟩
            have := (hfirst _ rfl).1
            omega
          · intro hge
            refine ⟨inRange_of_turn_none rfl, fun turn hturn => ?_, by simp⟩
            cases hturn
            exact ⟨by omega, by simp only [aroundSize]; omega⟩

/-! ## Whole runs -/

/-- The accesses of a run since power-up stay inside `around` exactly if no byte
of it completes a storing packet before a turn is open. -/
theorem around_access_inRange_iff (bs : List UInt8) :
    (∀ e ∈ (parse powerUp bs).2, e.InRange) ↔
      Machine.Along step (fun s b => ¬ s.Strays b) powerUp bs := by
  rw [parse, Machine.outputs_iff_along]
  exact Machine.along_congr step_circleOk step_inRange_iff powerUp_circleOk

/-- The first start packet after power-up is stored in `around[-1]`. -/
theorem first_start_outOfRange :
    Effect.firstpoint (-1) ∈ (parse powerUp (scanHeader ++ blankStart.bytes)).2 ∧
      ¬ ∀ e ∈ (parse powerUp (scanHeader ++ blankStart.bytes)).2, e.InRange := by
  have hmem : Effect.firstpoint (-1) ∈
      (parse powerUp (scanHeader ++ blankStart.bytes)).2 := by decide
  refine ⟨hmem, fun hall => ?_⟩
  exact absurd (hall _ hmem (-1) rfl).1 (by decide)

end Slam
