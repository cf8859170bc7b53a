-- SUMMARY: A complete scan is recorded exactly: each turn of `around` holds the points between its two start packets.
import LidarCar.Slam.Completion
import LidarCar.Slam.Turns

/-!
# Recording a scan

The parser on the bytes of a scan simulates reading its packets one by one. The
simulation relation `Recorded` says what the globals hold after the packets read
so far; one packet preserves it, so the packets of a scan do, up to the start
packet that completes it.
-/

namespace Slam

/-- The turn `a` is the list of points `pts`, with their number. -/
def Around.IsTurn (a : Around) (pts : List AroundPoint) : Prop :=
  a.number.toInt = pts.length ∧ a.Holds pts

/-- The parser has read the packets `done` of a scan, the last turn being open. -/
structure Recorded (s : Parser) (done : List Packet) : Prop where
  pc : s.pc = .manip .head
  started : 0 < starts done
  circle : s.circle.toInt = starts done
  count : s.count.toInt = (turnPoints (starts done - 1) done).length
  holds : (s.around (s.circle.toInt - 1)).Holds (turnPoints (starts done - 1) done)
  closed : ∀ k, k + 1 < starts done → (s.around k).IsTurn (turnPoints k done)

/-- No turn of the scan has more points than `ap` has room for. -/
def FitsTurns (pkts : List Packet) : Prop :=
  ∀ k, (turnPoints k pkts).length ≤ 1440

/-- A packet list that begins with a start packet and ends with the sixth. -/
structure IsScan (pkts : List Packet) : Prop where
  head : ∃ p, pkts.head? = some (.start p)
  last : ∃ p, pkts.getLast? = some (.start p)
  six : starts pkts = 6

theorem FitsTurns.of_append {ps qs : List Packet} (h : FitsTurns (ps ++ qs)) : FitsTurns ps :=
  fun k => (turnPoints_length_le k ps qs).trans (h k)

/-! ## Opening a turn -/

theorem Globals.openTurn_first {g : Globals} (h : g.circle = 0) :
    g.openTurn.1 = { g with circle := 1 } := by
  simp [Globals.openTurn, h]

theorem Globals.openTurn_next {g : Globals} {c : Nat} (h : g.circle.toInt = c) (hpos : 0 < c)
    (hle : c ≤ 5) :
    g.openTurn = ({ g.storeNumber (c - 1) with circle := Int8.ofInt (c + 1), count := 0 },
      [.circleInc, .number (c - 1)]) := by
  have hnext : (Int8.ofInt ((c : Int) + 1)).toInt = c + 1 :=
    Int8.toInt_ofInt_of_le (by omega) (by omega)
  have hgt : (c : Int) + 1 > 1 := by omega
  have hturn : (c : Int) + 1 - 2 = c - 1 := by omega
  simp only [Globals.openTurn, h, hnext, hgt, if_true, hturn]

theorem Globals.openTurn_ne_six {g : Globals} {c : Nat} (h : g.circle.toInt = c) (hlt : c < 5) :
    g.openTurn.1.circle ≠ 6 := by
  have hopen := Globals.openTurn_circle (g := g) (by omega) (by omega)
  intro h6
  rw [h6] at hopen
  have : (6 : Int8).toInt = 6 := rfl
  omega

/-! ## One packet -/

/-- The first start packet opens turn 0. -/
theorem Recorded.first {s : Parser} (hpc : s.pc = .manip .head) (hcircle : s.circle = 0)
    (hcount : s.count = 0) (p : StartPacket) :
    Recorded (parse s p.bytes).1 [.start p] := by
  have hne : s.toGlobals.openTurn.1.circle ≠ 6 :=
    Globals.openTurn_ne_six (c := 0) (by rw [hcircle]; rfl) (by omega)
  rw [parse_startPacket hpc p hne]
  constructor
  · rfl
  · simp
  · simp [Globals.openTurn_first hcircle]
  · simp [Globals.openTurn_first hcircle, hcount, turnPoints, leadingPoints]
  · intro i hi
    simp [turnPoints, leadingPoints] at hi
  · intro k hk
    simp at hk

/-- A point packet extends the open turn. -/
theorem Recorded.point {s : Parser} {done : List Packet} (h : Recorded s done) (p : PointPacket)
    (hfits : FitsTurns (done ++ [.point p])) :
    Recorded (parse s p.bytes).1 (done ++ [.point p]) := by
  have hpos := h.started
  have hlast : turnPoints (starts done - 1) (done ++ [.point p]) =
      turnPoints (starts done - 1) done ++ p.points :=
    turnPoints_concat_point p (by omega)
  have hlen : (turnPoints (starts done - 1) done).length + p.points.length ≤ 1440 := by
    have := hfits (starts done - 1)
    rwa [hlast, List.length_append] at this
  have hstarts : starts (done ++ [.point p]) = starts done := by simp
  rw [parse_pointPacket h.pc p, recordPoints_eq, p.read_points]
  constructor
  · rfl
  · rwa [hstarts]
  · simpa [hstarts] using h.circle
  · rw [hstarts, hlast, List.length_append, Nat.cast_add, ← h.count]
    refine Globals.storePoints_count ?_ ?_
    · rw [h.count]
      omega
    · rw [h.count]
      omega
  · rw [hstarts, hlast]
    simp only [Globals.storePoints_circle]
    exact Globals.storePoints_holds h.count (by omega) h.holds
  · intro k hk
    rw [hstarts] at hk
    have hcircle := h.circle
    rw [turnPoints_append [.point p] hk]
    have hframe : (s.toGlobals.storePoints p.points).1.around k = s.around k :=
      Globals.storePoints_around_ne s.toGlobals p.points (by omega)
    simpa only [hframe] using h.closed k hk

/-- A start packet that does not complete the scan closes the open turn and
opens the next one. -/
theorem Recorded.start {s : Parser} {done : List Packet} (h : Recorded s done) (p : StartPacket)
    (hle : starts done < 5) :
    Recorded (parse s p.bytes).1 (done ++ [.start p]) := by
  have hpos := h.started
  have hcircle := h.circle
  have hopen := Globals.openTurn_next (g := s.toGlobals) hcircle hpos (by omega)
  have hne : s.toGlobals.openTurn.1.circle ≠ 6 := Globals.openTurn_ne_six hcircle hle
  have hnext : (Int8.ofInt ((starts done : Int) + 1)).toInt = starts done + 1 :=
    Int8.toInt_ofInt_of_le (by omega) (by omega)
  have hstarts : starts (done ++ [.start p]) = starts done + 1 := by simp
  rw [parse_startPacket h.pc p hne]
  rw [hopen]
  constructor
  · rfl
  · omega
  · simpa [hstarts] using hnext
  · rw [hstarts, Nat.add_sub_cancel, turnPoints_opened p rfl]
    rfl
  · rw [hstarts, Nat.add_sub_cancel, turnPoints_opened p rfl]
    intro i hi
    simp at hi
  · intro k hk
    rw [hstarts] at hk
    rw [turnPoints_concat_start k p (by omega)]
    simp only [Globals.storeFirstpoint, hnext, Globals.storeNumber]
    rw [Function.update_of_ne (by omega)]
    by_cases hlast : k + 1 = starts done
    · have hk' : (starts done : Int) - 1 = k := by omega
      have hk1 : starts done - 1 = k := by omega
      have hcount := h.count
      have hholds := h.holds
      rw [hk1] at hcount hholds
      rw [hcircle, hk'] at hholds
      rw [hk', Function.update_self]
      exact ⟨hcount, hholds⟩
    · rw [Function.update_of_ne (by omega)]
      exact h.closed k (by omega)

/-! ## The packets before the last -/

theorem bytes_cons (pkt : Packet) (ps : List Packet) : bytes (pkt :: ps) = pkt.bytes ++ bytes ps :=
  rfl

/-- A packet and then the others. -/
theorem parse_bytes_cons (s : Parser) (pkt : Packet) (ps : List Packet) :
    parse s (bytes (pkt :: ps)) =
      ((parse (parse s pkt.bytes).1 (bytes ps)).1,
        (parse s pkt.bytes).2 ++ (parse (parse s pkt.bytes).1 (bytes ps)).2) := by
  rw [bytes_cons, parse, Machine.run_append]

theorem parse_packet_noEvent {s : Parser} (hs : s.pc = .manip .head) {pkt : Packet}
    (hr : s.Reads pkt) : (parse s pkt.bytes).2.any Effect.isEvent = false := by
  cases pkt with
  | point p => simp [Packet.bytes, parse_pointPacket hs p]
  | start p => simp [Packet.bytes, parse_startPacket hs p hr, Effect.isEvent]

/-- Any number of packets with fewer than six start packets in all. -/
theorem Recorded.run {s : Parser} {done : List Packet} (h : Recorded s done) {ps : List Packet}
    (hfits : FitsTurns (done ++ ps)) (hle : starts (done ++ ps) ≤ 5) :
    Recorded (parse s (bytes ps)).1 (done ++ ps) ∧
      (parse s (bytes ps)).2.any Effect.isEvent = false := by
  induction ps generalizing s done with
  | nil => simpa [bytes] using h
  | cons pkt ps ih =>
      rw [← List.singleton_append, ← List.append_assoc] at hfits hle
      have hstep : Recorded (parse s pkt.bytes).1 (done ++ [pkt]) ∧ s.Reads pkt := by
        cases pkt with
        | point p => exact ⟨h.point p hfits.of_append, trivial⟩
        | start p =>
            rw [starts_append, starts_append, starts_start] at hle
            exact ⟨h.start p (by omega),
              Globals.openTurn_ne_six h.circle (by omega)⟩
      obtain ⟨hrest, hquiet⟩ := ih hstep.1 hfits hle
      rw [parse_bytes_cons]
      refine ⟨by simpa using hrest, ?_⟩
      rw [List.any_append, Bool.or_eq_false_iff]
      exact ⟨parse_packet_noEvent h.pc hstep.2, hquiet⟩

/-- Reading a scan up to a packet of it that is not the first. -/
theorem Recorded.of_scan {s : Parser} (hpc : s.pc = .manip .head) (hcircle : s.circle = 0)
    (hcount : s.count = 0) {p : StartPacket} {ps : List Packet}
    (hfits : FitsTurns (.start p :: ps)) (hle : starts (.start p :: ps) ≤ 5) :
    Recorded (parse s (bytes (.start p :: ps))).1 (.start p :: ps) ∧
      (parse s (bytes (.start p :: ps))).2.any Effect.isEvent = false := by
  have hfirst := Recorded.first hpc hcircle hcount p
  obtain ⟨hrest, hquiet⟩ := hfirst.run hfits hle
  have hne : s.Reads (.start p) :=
    Globals.openTurn_ne_six (c := 0) (by rw [hcircle]; rfl) (by omega)
  rw [parse_bytes_cons]
  refine ⟨hrest, ?_⟩
  rw [List.any_append, Bool.or_eq_false_iff]
  exact ⟨parse_packet_noEvent hpc hne, hquiet⟩

/-! ## The last start packet -/

/-- The bytes of a start packet behind its CT byte. -/
def StartPacket.rest (p : StartPacket) : List UInt8 :=
  p.lsn :: (wordBytes p.fsa ++ wordBytes p.lsa ++ wordBytes p.cs ++ wordBytes p.sample)

theorem StartPacket.bytes_eq (p : StartPacket) : p.bytes = [0xAA, 0x55] ++ 0x01 :: p.rest := rfl

/-- The sixth start packet's CT byte sends the event and closes the last turn. -/
theorem Recorded.complete {s : Parser} {done : List Packet} (h : Recorded s done)
    (hfive : starts done = 5) :
    let t := step (parse s [0xAA, 0x55]).1 0x01
    (parse s [0xAA, 0x55]).2 = [] ∧
      t.2 = [.circleInc, .number 4, .putchar 0xA5, .putchar 0x65, .eventSend] ∧
      t.1.pc = .getDate .head ∧ t.1.circle = 0 ∧ t.1.count = 0 ∧
      ∀ k : Nat, k < 5 → (t.1.around k).IsTurn (turnPoints k done) := by
  have hcircle := h.circle
  have hcount := h.count
  have hholds := h.holds
  rw [hfive] at hcircle hcount hholds
  rw [hcircle] at hholds
  have hopen := Globals.openTurn_next (g := s.toGlobals) (c := 5) hcircle (by omega) (by omega)
  obtain ⟨hhead, hct⟩ := parse_lastStart h.pc (by rw [hopen]; rfl)
  rw [hhead]
  refine ⟨rfl, ?_⟩
  dsimp only
  rw [hct, hopen]
  refine ⟨rfl, rfl, rfl, rfl, fun k hk => ?_⟩
  simp only [Globals.storeNumber]
  by_cases hlast : k = 4
  · subst hlast
    exact ⟨by simpa using hcount, fun i hi => by simpa using hholds i hi⟩
  · rw [Function.update_of_ne (by omega)]
    exact h.closed k (by omega)

/-! ## The scan -/

/-- A scan is its packets before the last, and the last start packet. -/
theorem IsScan.split {pkts : List Packet} (h : IsScan pkts) :
    ∃ p ps last, pkts = .start p :: ps ++ [.start last] ∧ starts (.start p :: ps) = 5 := by
  obtain ⟨last, hlast⟩ := h.last
  obtain ⟨init, rfl⟩ := List.getLast?_eq_some_iff.mp hlast
  have hsix := h.six
  rw [starts_append, starts_start] at hsix
  obtain ⟨p, hp⟩ := h.head
  cases init with
  | nil => simp [starts] at hsix
  | cons q ps =>
      obtain rfl : q = .start p := by simpa using hp
      exact ⟨p, ps, last, rfl, by omega⟩

theorem IsScan.fits {pkts : List Packet} (h : IsScan pkts)
    (hmax : ∀ k < 5, (turnPoints k pkts).length ≤ 1440) : FitsTurns pkts := by
  intro k
  by_cases hk : k < 5
  · exact hmax k hk
  · obtain ⟨p, ps, last, rfl, hfive⟩ := h.split
    have hsix := h.six
    by_cases hk5 : k = 5
    · subst hk5
      rw [turnPoints_opened last hfive]
      simp
    · rw [turnPoints_eq_nil (by omega)]
      simp

/-- The parser records the packets `pkts` as a scan: it is in frame at each of
them, its one event comes with the CT byte of the last, and the turns then are
the points between the start packets. -/
structure RecordsScan (s : Parser) (pkts : List Packet) : Prop where
  inFrame : ∀ done rest, pkts = done ++ rest → rest ≠ [] →
    (parse s (bytes done)).1.pc = .manip .head
  event : ∃ done last, pkts = done ++ [.start last] ∧
    bytes pkts = bytes done ++ [0xAA, 0x55] ++ 0x01 :: last.rest ∧
    let before := parse s (bytes done ++ [0xAA, 0x55])
    let event := step before.1 0x01
    before.2.any Effect.isEvent = false ∧
    event.2 = [.circleInc, .number 4, .putchar 0xA5, .putchar 0x65, .eventSend] ∧
    (∀ k : Nat, k < 5 → (event.1.around k).IsTurn (turnPoints k pkts)) ∧
    (parse event.1 last.rest).2.any Effect.isEvent = false

/-- In front of every packet of the scan the parser hunts for a header. -/
theorem IsScan.inFrame {s : Parser} (hpc : s.pc = .manip .head) (hcircle : s.circle = 0)
    (hcount : s.count = 0) {pkts : List Packet} (hscan : IsScan pkts) (hfits : FitsTurns pkts)
    {done rest : List Packet} (hsplit : pkts = done ++ rest) (hne : rest ≠ []) :
    (parse s (bytes done)).1.pc = .manip .head := by
  obtain ⟨p, ps, last, rfl, hfive⟩ := hscan.split
  cases done with
  | nil => simpa [bytes] using hpc
  | cons q done =>
      obtain ⟨rfl, htail⟩ : Packet.start p = q ∧ ps ++ [.start last] = done ++ rest := by
        simpa using hsplit
      obtain ⟨rest', x, rfl⟩ := (List.eq_nil_or_concat' rest).resolve_left hne
      rw [← List.append_assoc] at htail
      obtain rfl : ps = done ++ rest' := (List.append_inj' htail rfl).1
      rw [← List.cons_append, List.append_assoc] at hfits
      rw [← List.cons_append, starts_append] at hfive
      exact (Recorded.of_scan hpc hcircle hcount hfits.of_append (by omega)).1.pc

/-- A scan is recorded exactly, from the state a completed scan leaves. -/
theorem scan_recorded {s : Parser} (hpc : s.pc = .manip .head) (hcircle : s.circle = 0)
    (hcount : s.count = 0) {pkts : List Packet} (hscan : IsScan pkts)
    (hmax : ∀ k < 5, (turnPoints k pkts).length ≤ 1440) : RecordsScan s pkts := by
  have hfits := hscan.fits hmax
  refine ⟨fun done rest => hscan.inFrame hpc hcircle hcount hfits, ?_⟩
  obtain ⟨p, ps, last, rfl, hfive⟩ := hscan.split
  obtain ⟨hrec, hquiet⟩ := Recorded.of_scan hpc hcircle hcount hfits.of_append hfive.le
  obtain ⟨hhead, heffects, hpc', -, -, hturns⟩ := hrec.complete hfive
  refine ⟨.start p :: ps, last, rfl, ?_, ?_⟩
  · rw [bytes_append, bytes_singleton, Packet.bytes, StartPacket.bytes_eq]
    simp
  · rw [parse, Machine.run_append]
    refine ⟨by simp only [hquiet, hhead, List.append_nil], heffects, fun k hk => ?_, ?_⟩
    · rw [turnPoints_concat_start k last (by omega)]
      exact hturns k hk
    · refine parse_noEvent_of_short ?_
      rw [hpc']
      exact (by decide : 9 < 10)

/-- The parser as it enters `manipulationData` after a completed scan. -/
def scanStart : Parser :=
  { powerUp.completed with pc := .manip .head }

/-- A scan with one point in its second turn. -/
def onePointScan : List Packet :=
  [.start blankStart, .start blankStart, .point nearPacket, .start blankStart,
    .start blankStart, .start blankStart, .start blankStart]

theorem scan_recorded_onePointScan :
    turnPoints 1 onePointScan = [{ angle := 640, distance := 256 }] ∧
      RecordsScan scanStart onePointScan :=
  ⟨by decide, scan_recorded rfl rfl rfl ⟨⟨_, rfl⟩, ⟨_, rfl⟩, rfl⟩ (by decide)⟩

end Slam
