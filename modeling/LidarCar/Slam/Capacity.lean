-- SUMMARY: How many points a turn can take, and which streams stay below that.
import LidarCar.Slam.Recording

/-!
# The capacity of a turn

`count` is the next free slot of `ap`. It grows by one for each nonzero sample
and only a start packet that closes a turn sets it back, so it is the stream that
decides whether it stays below 1440.
-/

namespace Slam

/-- The slot is in `ap`, and `count++` does not wrap. -/
def Effect.SlotOk : Effect → Prop
  | .ap _ slot => 0 ≤ slot ∧ slot < apSize ∧ (Int16.ofInt (slot + 1)).toInt = slot + 1
  | .circleInc | .number _ | .firstpoint _ | .buf _ | .divide _ | .putchar _ | .eventSend => True

/-! ## The points of a stream -/

/-- The number of points in the packet that the byte `b` completes. -/
def Parser.recorded (s : Parser) (b : UInt8) : Nat :=
  match s.pc with
  | .manip (.bufShift i) =>
    let p := s.package.setBuf i (b.toUInt16 <<< 8)
    if i + 1 < p.lsn.toNat then 0 else p.points.length
  | _ => 0

/-- The byte `b` is the CT byte of a start packet that closes a turn. -/
def Parser.closesTurn (s : Parser) (b : UInt8) : Prop :=
  s.pc = .manip .ct ∧ b = 0x01 ∧ (Int8.ofInt (s.circle.toInt + 1)).toInt > 1

instance (s : Parser) (b : UInt8) : Decidable (s.closesTurn b) :=
  inferInstanceAs (Decidable (_ ∧ _ ∧ _))

/-- The parser, and the number of points since the last turn was closed. -/
def tally (x : Parser × Nat) (b : UInt8) : (Parser × Nat) × List Effect :=
  (((step x.1 b).1, if x.1.closesTurn b then 0 else x.2 + x.1.recorded b), (step x.1 b).2)

/-- The points since the last turn was closed fit into `ap`. -/
def Fits (x : Parser × Nat) (b : UInt8) : Prop :=
  ((x.2 + x.1.recorded b : Nat) : Int) ≤ apSize

/-! ## Storing points -/

theorem slotOk_of_lt {turn slot : Int} (h0 : 0 ≤ slot) (hlt : slot < apSize) :
    (Effect.ap turn slot).SlotOk := by
  have hlt' : slot < 1440 := hlt
  exact ⟨h0, hlt, Int16.toInt_ofInt_of_le (by omega) (by omega)⟩

/-- The points go into the slots from `count` on. -/
theorem Globals.storePoints_slotOk_iff {g : Globals} {pts : List AroundPoint}
    (h0 : 0 ≤ g.count.toInt) (hle : g.count.toInt ≤ apSize) :
    (∀ e ∈ (g.storePoints pts).2, e.SlotOk) ↔ g.count.toInt + pts.length ≤ apSize := by
  induction pts generalizing g with
  | nil => exact iff_of_true nofun (by simpa using hle)
  | cons pt pts ih =>
      have hcons : (g.storePoints (pt :: pts)).2 =
          .ap (g.circle.toInt - 1) g.count.toInt :: ((g.storePoint pt).1.storePoints pts).2 := rfl
      have hlen : g.count.toInt + ((pt :: pts).length : Nat) =
          g.count.toInt + 1 + pts.length := by
        rw [List.length_cons, Nat.cast_add_one]
        omega
      rw [hcons, List.forall_mem_cons, hlen]
      constructor
      · rintro ⟨⟨-, hlt, hwrap⟩, hrest⟩
        have hcount : (g.storePoint pt).1.count.toInt = g.count.toInt + 1 := hwrap
        rw [ih (by omega) (by omega), hcount] at hrest
        exact hrest
      · intro hfits
        have hslot : (Effect.ap (g.circle.toInt - 1) g.count.toInt).SlotOk :=
          slotOk_of_lt h0 (by omega)
        have hcount : (g.storePoint pt).1.count.toInt = g.count.toInt + 1 := hslot.2.2
        refine ⟨hslot, (ih (by omega) (by omega)).mpr ?_⟩
        rw [hcount]
        exact hfits

theorem recordPoints_slotOk_iff {p : PackAge} {g : Globals} (h0 : 0 ≤ g.count.toInt)
    (hle : g.count.toInt ≤ apSize) :
    (∀ e ∈ (recordPoints p g).2, e.SlotOk) ↔ g.count.toInt + p.points.length ≤ apSize := by
  rw [recordPoints_eq, List.forall_mem_cons, Globals.storePoints_slotOk_iff h0 hle]
  exact and_iff_right trivial

theorem recordPoints_count {p : PackAge} {g : Globals} (h0 : 0 ≤ g.count.toInt)
    (hle : g.count.toInt + p.points.length ≤ apSize) :
    (recordPoints p g).1.count.toInt = g.count.toInt + p.points.length := by
  have hle' : g.count.toInt + p.points.length ≤ 1440 := hle
  rw [recordPoints_eq]
  exact Globals.storePoints_count h0 (by omega)

/-! ## One step -/

/-- The step stores its points in order exactly if they fit, and then counts them. -/
structure Parser.CountsUp (s : Parser) (b : UInt8) : Prop where
  slots : (∀ e ∈ (step s b).2, e.SlotOk) ↔ s.count.toInt + s.recorded b ≤ apSize
  count : s.count.toInt + s.recorded b ≤ apSize → (step s b).1.count.toInt =
    if s.closesTurn b then 0 else s.count.toInt + s.recorded b

/-- A step that records no point and closes no turn. -/
theorem Parser.CountsUp.of_quiet {s : Parser} {b : UInt8} (hle : s.count.toInt ≤ apSize)
    (hslots : ∀ e ∈ (step s b).2, e.SlotOk) (hcount : (step s b).1.count = s.count)
    (hrecorded : s.recorded b = 0) (hcloses : ¬ s.closesTurn b) : s.CountsUp b := by
  constructor
  case slots =>
    refine iff_of_true hslots ?_
    rw [hrecorded]
    simpa using hle
  case count =>
    intro _
    rw [if_neg hcloses, hcount, hrecorded]
    simp

theorem openTurn_slotOk (g : Globals) : ∀ e ∈ g.openTurn.2, e.SlotOk := by
  unfold Globals.openTurn
  dsimp only
  split <;> simp [Effect.SlotOk]

theorem openTurn_count (g : Globals) :
    g.openTurn.1.count = if (Int8.ofInt (g.circle.toInt + 1)).toInt > 1 then 0 else g.count := by
  unfold Globals.openTurn
  dsimp only
  split <;> rfl

theorem startPacket_slotOk (s : Parser) : ∀ e ∈ (startPacket s).2, e.SlotOk := by
  have hopen := openTurn_slotOk s.toGlobals
  unfold startPacket
  dsimp only
  split
  · refine List.forall_mem_append.mpr ⟨hopen, ?_⟩
    simp [Effect.SlotOk]
  · exact hopen

theorem startPacket_count (s : Parser) :
    (startPacket s).1.count = s.toGlobals.openTurn.1.count := by
  unfold startPacket
  dsimp only
  split <;> rfl

/-- The head of the sample loop records the packet if it is complete. -/
theorem sampleLoop_countsUp {s : Parser} {b : UInt8} (t : Parser) (i : Nat) (es : List Effect)
    (h0 : 0 ≤ s.count.toInt) (hle : s.count.toInt ≤ apSize)
    (hstep : step s b = ((sampleLoop t i).1, es ++ (sampleLoop t i).2))
    (hes : ∀ e ∈ es, e.SlotOk) (hglobals : t.toGlobals = s.toGlobals)
    (hrecorded : s.recorded b = if i < t.package.lsn.toNat then 0 else t.package.points.length)
    (hcloses : ¬ s.closesTurn b) : s.CountsUp b := by
  by_cases hi : i < t.package.lsn.toNat
  · have hloop : sampleLoop t i = ({ t with pc := .manip (.buf i) }, []) := if_pos hi
    rw [hloop] at hstep
    rw [if_pos hi] at hrecorded
    refine .of_quiet hle ?_ ?_ hrecorded hcloses
    · rw [hstep, List.append_nil]
      exact hes
    · rw [hstep]
      exact congrArg Globals.count hglobals
  · have hloop : sampleLoop t i =
        ({ t with toGlobals := (recordPoints t.package t.toGlobals).1, pc := .manip .head },
          (recordPoints t.package t.toGlobals).2) := if_neg hi
    rw [hloop, hglobals] at hstep
    rw [if_neg hi] at hrecorded
    constructor
    case slots =>
      rw [hstep, List.forall_mem_append, and_iff_right hes, recordPoints_slotOk_iff h0 hle,
        hrecorded]
    case count =>
      intro hfits
      rw [if_neg hcloses, hstep, hrecorded]
      rw [hrecorded] at hfits
      exact recordPoints_count h0 hfits

theorem step_countsUp {s : Parser} (b : UInt8) (h0 : 0 ≤ s.count.toInt)
    (hle : s.count.toInt ≤ apSize) : s.CountsUp b := by
  have hcloses : s.pc ≠ .manip .ct → ¬ s.closesTurn b := fun hpc hc => hpc hc.1
  cases hpc : s.pc with
  | getDate q =>
      have hrecorded : s.recorded b = 0 := by rw [Parser.recorded, hpc]
      refine .of_quiet hle ?_ ?_ hrecorded (hcloses (by simp [hpc])) <;>
        rw [step_getDate hpc]
      exact List.forall_mem_nil _
  | manip q =>
      have hstep := step_manip hpc b
      cases q with
      | ct =>
          have hrecorded : s.recorded b = 0 := by rw [Parser.recorded, hpc]
          by_cases hb : b = 0x01
          · have hstart : step s b = startPacket s := by
              rw [hstep, hb]
              rfl
            have hclose : s.closesTurn b ↔ (Int8.ofInt (s.circle.toInt + 1)).toInt > 1 :=
              ⟨fun hc => hc.2.2, fun hc => ⟨hpc, hb, hc⟩⟩
            constructor
            case slots =>
              rw [hstart, hrecorded]
              exact iff_of_true (startPacket_slotOk s) (by simpa using hle)
            case count =>
              intro _
              rw [hstart, startPacket_count, openTurn_count, hrecorded]
              split
              · next hgt => rw [if_pos (hclose.mpr hgt)]; rfl
              · next hle' => rw [if_neg fun hc => hle' (hclose.mp hc)]; simp
          · refine .of_quiet hle ?_ ?_ hrecorded fun hc => hb hc.2.1
            all_goals
              rw [hstep]
              dsimp only [manipulationData]
              rw [if_neg hb]
              split <;> first | rfl | exact List.forall_mem_nil _
      | field k f =>
          have hrecorded : s.recorded b = 0 := by rw [Parser.recorded, hpc]
          have hcloses' := hcloses (by simp [hpc])
          by_cases hlast : k = .point ∧ f = .csShift
          · obtain ⟨rfl, rfl⟩ := hlast
            -- without samples the loop is left at once, and nothing is recorded
            refine sampleLoop_countsUp { s with package := readField .csShift s.package b } 0 [] h0
              hle hstep (List.forall_mem_nil _) rfl ?_ hcloses'
            rw [hrecorded]
            split
            · rfl
            · next hempty =>
                have hnil : (readField .csShift s.package b).points = [] :=
                  (PackAge.points_eq_nil_iff _).mpr fun i hi => absurd (Nat.zero_lt_of_lt hi) hempty
                rw [hnil]
                rfl
          · refine .of_quiet hle ?_ ?_ hrecorded hcloses'
            all_goals
              rw [hstep]
              cases k <;> cases f <;>
                first | rfl | exact absurd (And.intro rfl rfl) hlast | exact List.forall_mem_nil _
      | bufShift i =>
          have hrecorded : s.recorded b =
              if i + 1 < (s.package.setBuf i (b.toUInt16 <<< 8)).lsn.toNat then 0
              else (s.package.setBuf i (b.toUInt16 <<< 8)).points.length := by
            rw [Parser.recorded, hpc]
          exact sampleLoop_countsUp { s with package := s.package.setBuf i (b.toUInt16 <<< 8) }
            (i + 1) [.buf i] h0 hle hstep (List.forall_mem_singleton.mpr trivial) rfl hrecorded
            (hcloses (by simp [hpc]))
      | _ =>
          have hrecorded : s.recorded b = 0 := by rw [Parser.recorded, hpc]
          refine .of_quiet hle ?_ ?_ hrecorded (hcloses (by simp [hpc])) <;>
            rw [hstep]
          · simp [manipulationData, Effect.SlotOk]
          · rfl

/-! ## Every stream -/

/-- `count` is what was recorded since the last turn was closed. -/
structure Counts (s : Parser) (x : Parser × Nat) : Prop where
  parser : s = x.1
  count : s.count.toInt = x.2
  le : (x.2 : Int) ≤ apSize

/-- Every store into `ap` is inside it and `count` does not wrap, exactly on the
streams that record at most 1440 points between two closings of a turn. -/
theorem slots_ok_iff (bs : List UInt8) :
    (∀ e ∈ (parse powerUp bs).2, e.SlotOk) ↔ Machine.Along tally Fits (powerUp, 0) bs := by
  rw [parse, Machine.outputs_iff_along]
  have hinit : Counts powerUp (powerUp, 0) := ⟨rfl, rfl, by decide⟩
  refine Machine.along_iff_of_simulation (R := Counts) ?_ ?_ hinit
  · rintro s ⟨t, n⟩ b ⟨rfl, hcount, hle⟩
    have hstep := step_countsUp b (by omega) (hcount.trans_le hle)
    rw [hstep.slots, Fits, hcount, Nat.cast_add]
  · rintro s ⟨t, n⟩ b ⟨rfl, hcount, hle⟩ hslots
    have hstep := step_countsUp b (by omega) (hcount.trans_le hle)
    have hfits := hstep.slots.mp hslots
    have hcount' := hstep.count hfits
    rw [hcount] at hfits hcount'
    constructor
    case parser => rfl
    case count =>
      rw [hcount', tally]
      split <;> simp
    case le =>
      rw [tally]
      dsimp only
      split
      · exact (by decide : (0 : Int) ≤ apSize)
      · rw [Nat.cast_add]
        exact hfits

/-! ## Streams of packets -/

/-- The turn that is open, and the number of points since one was closed. -/
def packetTally (x : Int × Nat) : Packet → (Int × Nat) × List Empty
  | .point p => ((x.1, x.2 + p.points.length), [])
  | .start _ => ((x.1 + 1, if 1 < x.1 + 1 then 0 else x.2), [])

/-- The points of the packet fit into the turn. -/
def PacketFits (x : Int × Nat) : Packet → Prop
  | .point p => x.2 + p.points.length ≤ 1440
  | .start _ => True

theorem bufEffects_slotOk (i n : Nat) : ∀ e ∈ bufEffects i n, e.SlotOk := by
  induction n generalizing i with
  | zero => exact List.forall_mem_nil _
  | succ n ih => exact List.forall_mem_cons.mpr ⟨trivial, List.forall_mem_cons.mpr ⟨trivial, ih _⟩⟩

/-- A point packet is stored inside `ap` exactly if its points fit. -/
theorem parse_point_slotOk_iff {s : Parser} (hs : s.pc = .manip .head) {n : Nat}
    (hcount : s.count.toInt = n) (hn : n ≤ 1440) (p : PointPacket) :
    (∀ e ∈ (parse s p.bytes).2, e.SlotOk) ↔ n + p.points.length ≤ 1440 := by
  rw [parse_pointPacket hs p, List.forall_mem_append, and_iff_right (bufEffects_slotOk _ _),
    recordPoints_slotOk_iff (by omega) (by rw [apSize]; omega), p.read_points, apSize]
  omega

theorem parse_point_count {s : Parser} (hs : s.pc = .manip .head) {n : Nat}
    (hcount : s.count.toInt = n) (p : PointPacket) (hfits : n + p.points.length ≤ 1440) :
    (parse s p.bytes).1.pc = .manip .head ∧ (parse s p.bytes).1.circle = s.circle ∧
      (parse s p.bytes).1.count.toInt = (n + p.points.length : Nat) := by
  have hle : s.toGlobals.count.toInt + (p.read s.package).points.length ≤ apSize := by
    rw [p.read_points, apSize]
    omega
  have hnext := recordPoints_count (by omega) hle
  rw [p.read_points] at hnext
  rw [parse_pointPacket hs p]
  refine ⟨rfl, ?_, ?_⟩
  · change (recordPoints _ s.toGlobals).1.circle = _
    rw [recordPoints_eq]
    exact Globals.storePoints_circle ..
  · rw [hnext]
    omega

/-- A start packet that does not complete the scan stores no point, and empties the turn
it closes. -/
theorem parse_start_count {s : Parser} (hs : s.pc = .manip .head) {c : Int}
    (hcircle : s.circle.toInt = c) (hge : -1 ≤ c) (hlt : c < 5) (p : StartPacket) :
    (∀ e ∈ (parse s p.bytes).2, e.SlotOk) ∧ (parse s p.bytes).1.pc = .manip .head ∧
      (parse s p.bytes).1.circle.toInt = c + 1 ∧
        (parse s p.bytes).1.count = if 1 < c + 1 then 0 else s.count := by
  have hopen := Globals.openTurn_circle (g := s.toGlobals) (by omega) (by omega)
  have hne : s.toGlobals.openTurn.1.circle ≠ 6 := by
    intro h6
    rw [h6] at hopen
    have hsix : (6 : Int8).toInt = 6 := rfl
    omega
  rw [parse_startPacket hs p hne]
  refine ⟨List.forall_mem_append.mpr ⟨openTurn_slotOk _, ?_⟩, rfl, ?_, ?_⟩
  · simp [Effect.SlotOk]
  · exact hopen.trans (congrArg (· + 1) hcircle)
  · change s.toGlobals.openTurn.1.count = _
    have hnext : (Int8.ofInt (s.toGlobals.circle.toInt + 1)).toInt = c + 1 := by
      rw [hcircle]
      exact Int8.toInt_ofInt_of_le (by omega) (by omega)
    rw [openTurn_count, hnext]

/-- Packets that do not complete the scan are stored inside `ap` exactly if the points
between two start packets that close a turn, which the first start packet does not, fit. -/
theorem parse_slotOk_iff {s : Parser} (hs : s.pc = .manip .head) {c : Int} {n : Nat}
    (hcircle : s.circle.toInt = c) (hge : -1 ≤ c) (hcount : s.count.toInt = n) (hn : n ≤ 1440)
    {pkts : List Packet} (hstarts : c + starts pkts ≤ 5) :
    (∀ e ∈ (parse s (bytes pkts)).2, e.SlotOk) ↔
      Machine.Along packetTally PacketFits (c, n) pkts := by
  induction pkts generalizing s c n with
  | nil => exact iff_of_true (List.forall_mem_nil _) trivial
  | cons pkt ps ih =>
      rw [parse_bytes_cons, List.forall_mem_append, Machine.along_cons]
      cases pkt with
      | point p =>
          have hstarts' : c + starts ps ≤ 5 := hstarts
          rw [Packet.bytes, parse_point_slotOk_iff hs hcount hn p]
          refine and_congr_right fun hfits => ?_
          obtain ⟨hpc, hkeep, hnext⟩ := parse_point_count hs hcount p hfits
          exact ih hpc (by rw [hkeep, hcircle]) hge hnext hfits hstarts'
      | start p =>
          have hstarts' : c + 1 + starts ps ≤ 5 := by
            simp only [starts, List.countP_cons, Packet.isStart, if_true] at hstarts ⊢
            omega
          obtain ⟨hslots, hpc, hcircle', hcount'⟩ :=
            parse_start_count hs hcircle hge (by omega) p
          rw [Packet.bytes, and_iff_right hslots]
          refine (ih (n := if 1 < c + 1 then 0 else n) hpc hcircle' (by omega) ?_ ?_
            hstarts').trans (and_iff_right trivial).symm
          · rw [hcount']
            split <;> simp [hcount]
          · split <;> omega

/-- From power-up, where no turn is open yet and the first two start packets close none. -/
theorem slotOk_powerUp_iff {pkts : List Packet} (hstarts : starts pkts ≤ 6) :
    (∀ e ∈ (parse powerUp (scanHeader ++ bytes pkts)).2, e.SlotOk) ↔
      Machine.Along packetTally PacketFits (-1, 0) pkts := by
  have hhead := parse_scanHeader (s := powerUp) rfl
  rw [parse, Machine.run_append, ← parse, hhead, List.nil_append]
  exact parse_slotOk_iff (c := -1) rfl rfl (Int.le_refl _) rfl (Nat.zero_le _) (by omega)

/-- A point packet with 40 samples of 256. -/
def densePacket : PointPacket where
  fsa := 0
  lsa := 0
  cs := 0
  samples := List.replicate 40 256
  one_le := by decide
  le_forty := by decide

/-- Two start packets, which open turn 0, and 37 packets of 40 samples. -/
def denseTurn : List UInt8 :=
  scanHeader ++ blankStart.bytes ++ blankStart.bytes ++
    (List.replicate 37 densePacket).flatMap PointPacket.bytes

theorem denseTurn_not_ok : ¬ ∀ e ∈ (parse powerUp denseTurn).2, e.SlotOk := by
  intro hall
  have hmem : Effect.ap 0 1440 ∈ (parse powerUp denseTurn).2 := by decide +kernel
  exact Int.lt_irrefl 1440 (hall _ hmem).2.1

end Slam
