-- SUMMARY: What a scan abandoned at an unknown CT byte leaves behind for the next scan.
import LidarCar.Slam.Recording

/-!
# Abandoned scans

On an unknown CT byte `manipulationData` returns and leaves `circle` and `count`
as they are. The next scan starts from there, so it is the scan it would have
been exactly if both are zero.
-/

namespace Slam

/-- What the master thread finds at the next event on the stream `bs`: how many
start packets it took, and number and points of the five turns. -/
def nextScan (s : Parser) (bs : List UInt8) :
    Option (Nat × (Fin 5 → Int16 × List AroundPoint)) :=
  (Machine.runTo step Effect.isEvent s bs).map fun r =>
    (startCount r.2, fun k => ((r.1.around k).number, (r.1.around k).recorded))

/-- Every later stream that completes a scan gives the scan it would have given
after a completed one. -/
def Parser.LeavesNoTrace (s : Parser) : Prop :=
  ∀ bs, nextScan s bs ≠ none → nextScan s bs = nextScan s.completed bs

/-! ## A scan of start packets alone -/

/-- `n` blank start packets and the beginning of one more. -/
def blankScan (n : Nat) : List UInt8 :=
  bytes (List.replicate n (.start blankStart)) ++ ([0xAA, 0x55] ++ [0x01])

theorem blankScan_succ (n : Nat) : blankScan (n + 1) = blankStart.bytes ++ blankScan n := by
  rw [blankScan, List.replicate_succ, bytes_cons, List.append_assoc]
  rfl

/-- Opening a turn touches only the turn before. -/
theorem Globals.openTurn_around_ne {g : Globals} (hge : -1 ≤ g.circle.toInt)
    (hle : g.circle.toInt ≤ 5) {turn : Int} (h : turn ≠ g.circle.toInt - 1) :
    g.openTurn.1.around turn = g.around turn := by
  have hnext : (Int8.ofInt (g.circle.toInt + 1)).toInt = g.circle.toInt + 1 :=
    Int8.toInt_ofInt_of_le (by omega) (by omega)
  simp only [Globals.openTurn, hnext]
  split
  · exact Function.update_of_ne (by omega) _ _
  · rfl

theorem openTurn_ne_six_of_lt {s : Parser} (h : s.CircleOk) (hlt : s.circle.toInt < 5) :
    s.toGlobals.openTurn.1.circle ≠ 6 := by
  have hopen := Globals.openTurn_circle h.ge h.le
  intro h6
  rw [h6] at hopen
  have : (6 : Int8).toInt = 6 := rfl
  omega

/-- A blank start packet opens a turn and does nothing else to the older turns. -/
theorem parse_blankStart {s : Parser} (hs : s.pc = .manip .head) (h : s.CircleOk)
    (hlt : s.circle.toInt < 5) :
    (parse s blankStart.bytes).1.pc = .manip .head ∧
      (parse s blankStart.bytes).1.CircleOk ∧
      (parse s blankStart.bytes).1.circle.toInt = s.circle.toInt + 1 ∧
      (parse s blankStart.bytes).1.count = s.toGlobals.openTurn.1.count ∧
      ∀ turn, ((parse s blankStart.bytes).1.around turn).number =
        (s.toGlobals.openTurn.1.around turn).number := by
  have hok : (parse s blankStart.bytes).1.CircleOk :=
    Machine.run_invariant step_circleOk h blankStart.bytes
  rw [parse_startPacket hs blankStart (openTurn_ne_six_of_lt h hlt)] at hok ⊢
  refine ⟨rfl, hok, Globals.openTurn_circle h.ge h.le, rfl, fun turn => ?_⟩
  by_cases hturn : turn = s.toGlobals.openTurn.1.circle.toInt - 1
  · subst hturn
    simp [Globals.storeFirstpoint]
  · simp [Globals.storeFirstpoint, Function.update_of_ne hturn]

theorem runTo_blankScan_succ {s : Parser} (hs : s.pc = .manip .head) (h : s.CircleOk)
    (hlt : s.circle.toInt < 5) (n : Nat) :
    Machine.runTo step Effect.isEvent s (blankScan (n + 1)) =
      (Machine.runTo step Effect.isEvent (parse s blankStart.bytes).1 (blankScan n)).map
        (fun q => (q.1, (parse s blankStart.bytes).2 ++ q.2)) := by
  have hreads : s.Reads (.start blankStart) := openTurn_ne_six_of_lt h hlt
  have hquiet := parse_packet_noEvent hs hreads
  rw [Packet.bytes] at hquiet
  rw [blankScan_succ, Machine.runTo_append hquiet]

/-- From `circle = 5 - n`, a blank scan completes and keeps the closed turn 0. -/
theorem runTo_blankScan {s : Parser} (hs : s.pc = .manip .head) (h : s.CircleOk) {n : Nat}
    (hn : s.circle.toInt + n = 5) :
    ∃ r, Machine.runTo step Effect.isEvent s (blankScan n) = some r ∧
      (2 ≤ s.circle.toInt → (r.1.around 0).number = (s.around 0).number) := by
  induction n generalizing s with
  | zero =>
      have hopen := Globals.openTurn_circle h.ge h.le
      have h6 : s.toGlobals.openTurn.1.circle = 6 := by
        rw [← Int8.toInt_inj, hopen, show (6 : Int8).toInt = 6 from rfl]
        simp only [Nat.cast_zero] at hn
        omega
      obtain ⟨hhead, hct⟩ := parse_lastStart hs h6
      have hrun : Machine.runTo step Effect.isEvent s (blankScan 0) =
          some (step { s with pc := .manip .ct } 0x01) := by
        rw [blankScan, List.replicate_zero, bytes, List.flatMap_nil, List.nil_append,
          Machine.runTo_append (by rw [← parse, hhead]; rfl), ← parse, hhead,
          Machine.runTo_cons_stop (by rw [hct]; simp [Effect.isEvent])]
        rfl
      refine ⟨_, hrun, fun hge => ?_⟩
      rw [hct]
      exact congrArg Around.number (Globals.openTurn_around_ne h.ge h.le (by omega))
  | succ n ih =>
      push_cast at hn
      have hlt : s.circle.toInt < 5 := by omega
      obtain ⟨hpc, hok, hcircle, -, hnumber⟩ := parse_blankStart hs h hlt
      obtain ⟨⟨t, es⟩, hrun, hkeep⟩ := ih hpc hok (by omega)
      refine ⟨(t, (parse s blankStart.bytes).2 ++ es), ?_, fun hge => ?_⟩
      · rw [runTo_blankScan_succ hs h hlt, hrun]
        rfl
      · rw [hkeep (by omega), hnumber, Globals.openTurn_around_ne h.ge h.le (by omega)]

theorem Parser.CircleOk.enter {s : Parser} (h : s.CircleOk) :
    ({ s with pc := .manip .head } : Parser).CircleOk :=
  ⟨h.ge, h.le, by simp [Pc.inStart]⟩

theorem nextScan_scanHeader {s : Parser} (hs : s.pc = .getDate .head) (bs : List UInt8) :
    nextScan s (scanHeader ++ bs) = nextScan { s with pc := .manip .head } bs := by
  have hhead := parse_scanHeader hs
  rw [nextScan, Machine.runTo_append (by rw [← parse, hhead]; rfl), ← parse, hhead]
  simp [nextScan]

theorem nextScan_ne_none {s : Parser} (hs : s.pc = .getDate .head) (h : s.CircleOk) {n : Nat}
    (hn : s.circle.toInt + n = 5) : nextScan s (scanHeader ++ blankScan n) ≠ none := by
  obtain ⟨r, hrun, -⟩ :=
    runTo_blankScan (s := { s with pc := .manip .head }) rfl h.enter (n := n) hn
  rw [nextScan_scanHeader hs, nextScan, hrun]
  simp

/-- A blank scan from `circle = 0` stores what `count` was as the number of turn 0. -/
theorem nextScan_number {s : Parser} (hs : s.pc = .getDate .head) (h : s.CircleOk)
    (hcircle : s.circle = 0) :
    (nextScan s (scanHeader ++ blankScan 5)).map (fun r => (r.2 0).1) = some s.count := by
  have hzero : s.circle.toInt = 0 := by rw [hcircle]; rfl
  rw [nextScan_scanHeader hs]
  obtain ⟨s₀, hs₀⟩ : ∃ s₀ : Parser, s₀ = { s with pc := .manip .head } := ⟨_, rfl⟩
  have hpc₀ : s₀.pc = .manip .head := by rw [hs₀]
  have hok₀ : s₀.CircleOk := by rw [hs₀]; exact h.enter
  have hcircle₀ : s₀.circle.toInt = 0 := by rw [hs₀]; exact hzero
  have hcount₀ : s₀.toGlobals.openTurn.1.count = s.count := by
    rw [hs₀, Globals.openTurn_first hcircle]
  rw [← hs₀]
  -- the first start packet keeps `count`, the second stores it
  obtain ⟨hpc₁, hok₁, hcircle₁, hcount₁, -⟩ := parse_blankStart hpc₀ hok₀ (by omega)
  obtain ⟨hpc₂, hok₂, hcircle₂, -, hnumber₂⟩ := parse_blankStart hpc₁ hok₁ (by omega)
  obtain ⟨r, hrun, hkeep⟩ := runTo_blankScan hpc₂ hok₂ (n := 3) (by omega)
  have hopen := Globals.openTurn_next (g := (parse s₀ blankStart.bytes).1.toGlobals) (c := 1)
    (by rw [hcircle₁, hcircle₀]; rfl) (by omega) (by omega)
  rw [nextScan, runTo_blankScan_succ hpc₀ hok₀ (by omega),
    runTo_blankScan_succ hpc₁ hok₁ (by omega), hrun]
  simp only [Option.map_some]
  rw [show ((0 : Fin 5) : Int) = 0 from rfl, hkeep (by omega), hnumber₂, hopen]
  simp [Globals.storeNumber, hcount₁, hcount₀]

/-! ## The traces of an abandoned scan -/

theorem Parser.CircleOk.completed {s : Parser} (hs : s.pc = .getDate .head) :
    s.completed.CircleOk :=
  ⟨by simp [Parser.completed], by simp [Parser.completed],
    by simp [Parser.completed, hs, Pc.inStart]⟩

/-- Between scans, the parser leaves no trace exactly if both counters are zero. -/
theorem Parser.leavesNoTrace_iff {s : Parser} (hs : s.pc = .getDate .head) (h : s.CircleOk) :
    s.LeavesNoTrace ↔ s.circle = 0 ∧ s.count = 0 := by
  constructor
  · intro hsame
    have hcircle : s.circle = 0 := by
      obtain ⟨n, hn⟩ : ∃ n : Nat, s.circle.toInt + n = 5 :=
        ⟨(5 - s.circle.toInt).toNat, by have := h.le; omega⟩
      obtain ⟨bs, hbs⟩ : ∃ bs, nextScan s bs ≠ none := ⟨_, nextScan_ne_none hs h hn⟩
      have heq := hsame bs hbs
      obtain ⟨⟨t, es⟩, hrun⟩ : ∃ r, Machine.runTo step Effect.isEvent s bs = some r :=
        Option.ne_none_iff_exists'.mp fun hnone => hbs (by rw [nextScan, hnone]; rfl)
      obtain ⟨⟨t', es'⟩, hrun'⟩ :
          ∃ r, Machine.runTo step Effect.isEvent s.completed bs = some r :=
        Option.ne_none_iff_exists'.mp fun hnone => hbs (by rw [heq, nextScan, hnone]; rfl)
      rw [nextScan, nextScan, hrun, hrun'] at heq
      have hcounts : startCount es = startCount es' :=
        congrArg Prod.fst (Option.some.inj heq)
      have h1 := runTo_startCount h hrun
      have h2 := runTo_startCount (.completed hs) hrun'
      have h0 : s.completed.circle.toInt = 0 := rfl
      exact Int8.toInt_inj.mp (by rw [show (0 : Int8).toInt = 0 from rfl]; omega)
    refine ⟨hcircle, ?_⟩
    have hnum := nextScan_number hs h hcircle
    have hnum0 := nextScan_number (s := s.completed) hs (.completed hs) rfl
    have hbs := nextScan_ne_none hs h (n := 5) (by rw [hcircle]; rfl)
    rw [← hsame _ hbs, hnum] at hnum0
    exact Option.some.inj hnum0
  · rintro ⟨hcircle, hcount⟩ bs -
    have : s.completed = s := by rw [Parser.completed, ← hcircle, ← hcount]
    rw [this]

/-- A scan abandoned at an unknown CT byte, anywhere in a run since power-up,
leaves no trace exactly if no start packet and no point of it is counted. -/
theorem abandoned_scan_leavesNoTrace_iff (bs : List UInt8) (ct : UInt8)
    (hpc : (parse powerUp bs).1.pc = .manip .ct) (h0 : ct ≠ 0x00) (h1 : ct ≠ 0x01) :
    (step (parse powerUp bs).1 ct).1.LeavesNoTrace ↔
      (parse powerUp bs).1.circle = 0 ∧ (parse powerUp bs).1.count = 0 := by
  have hok : (parse powerUp bs).1.CircleOk :=
    Machine.run_invariant step_circleOk powerUp_circleOk bs
  have hstep : (step (parse powerUp bs).1 ct).1 =
      { (parse powerUp bs).1 with pc := .getDate .head } := by
    simp [step, hpc, manipulationData, h0, h1]
  have hok' := step_circleOk _ ct hok
  rw [hstep] at hok' ⊢
  exact Parser.leavesNoTrace_iff rfl hok'

/-- A scan that is cut off after its third start packet. -/
def cutOffScan : List UInt8 :=
  scanHeader ++ bytes (List.replicate 3 (.start blankStart)) ++ [0xAA, 0x55]

/-- A scan that is cut off after its first start packet. -/
def cutOffStart : List UInt8 :=
  scanHeader ++ bytes [.start blankStart] ++ [0xAA, 0x55]

/-- The first start packet after power-up leaves no trace. -/
theorem abandoned_scan_leavesNoTrace_iff_cutOffScan :
    ((parse powerUp cutOffScan).1.pc = .manip .ct ∧
      ((step (parse powerUp cutOffScan).1 0x02).1.LeavesNoTrace ↔
        (parse powerUp cutOffScan).1.circle = 0 ∧ (parse powerUp cutOffScan).1.count = 0)) ∧
    (parse powerUp cutOffStart).1.pc = .manip .ct ∧
      (step (parse powerUp cutOffStart).1 0x02).1.LeavesNoTrace :=
  ⟨⟨by decide, abandoned_scan_leavesNoTrace_iff cutOffScan 0x02 (by decide) (by decide)
    (by decide)⟩, by decide, (abandoned_scan_leavesNoTrace_iff cutOffStart 0x02 (by decide)
    (by decide) (by decide)).mpr (by decide)⟩

/-- After it the next scan completes with its fourth start packet instead of the
sixth. -/
theorem cutOffScan_leaves_trace :
    let s := (step (parse powerUp cutOffScan).1 0x02).1
    let later := scanHeader ++ blankScan 3
    (nextScan s later).map Prod.fst = some 4 ∧ (nextScan s.completed later).isNone ∧
      ¬ s.LeavesNoTrace := by
  intro s later
  have hsome : (nextScan s later).map Prod.fst = some 4 := by decide
  have hnone : nextScan s.completed later = none := Option.isNone_iff_eq_none.mp (by decide)
  refine ⟨hsome, Option.isNone_iff_eq_none.mpr hnone, fun hsame => ?_⟩
  have heq := hsame later fun h => by rw [h] at hsome; cases hsome
  rw [heq, hnone] at hsome
  cases hsome

end Slam
