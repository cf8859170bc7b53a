-- SUMMARY: Which samples of a scan the decision of the master thread looks at.
import Mathlib.Data.List.Flatten
import LidarCar.Master.Decision
import LidarCar.Slam.Decode
import LidarCar.Slam.Recording

/-!
# The samples that count

The parser stores the sample of a start packet in `firstpoint` and those of point
packets in `ap`, unless their second byte is zero. The decision looks at `ap`.
-/

namespace Master

open Slam

/-! ## Lists with omissions -/

section Omissions

variable {α β : Type*} {f g : α → List β}

theorem eq_of_flatMap_eq {l : List α} (h : ∀ a, (f a).Sublist (g a))
    (heq : l.flatMap f = l.flatMap g) : ∀ a ∈ l, f a = g a := by
  induction l with
  | nil => nofun
  | cons a l ih =>
      rw [List.flatMap_cons, List.flatMap_cons] at heq
      have hlen := congrArg List.length heq
      rw [List.length_append, List.length_append] at hlen
      have hrest := (List.Sublist.flatMap_right l fun a _ => h a).length_le
      have hhead : f a = g a := (h a).eq_of_length_le (by omega)
      rw [hhead] at heq
      exact List.forall_mem_cons.mpr ⟨hhead, ih (List.append_cancel_left heq)⟩

/-- If each part may only leave something out, the whole is a rearrangement of the
complete parts only if nothing is left out. -/
theorem flatMap_perm_iff {l : List α} (h : ∀ a, (f a).Sublist (g a)) :
    (l.flatMap f).Perm (l.flatMap g) ↔ ∀ a ∈ l, f a = g a := by
  constructor
  · intro hperm
    have hsub := List.Sublist.flatMap_right l fun a _ => h a
    exact eq_of_flatMap_eq h (hsub.eq_of_length hperm.length_eq)
  · intro heq
    rw [List.flatMap_congr heq]

end Omissions

/-! ## What is sent and what is recorded -/

/-- The point that the parser makes of sample `i`. -/
def pointAt (p : PointPacket) (i : Nat) : AroundPoint where
  angle := sampleAngle (decodedWord p.fsa) (decodedWord p.lsa) p.lsn i
  distance := decodedWord (p.samples.getD i 0)

/-- The points of the samples of a packet that are not zero. -/
def sent : Packet → List AroundPoint
  | .point p =>
    ((List.range p.samples.length).filter fun i => p.samples.getD i 0 ≠ 0).map (pointAt p)
  | .start p =>
    if p.sample ≠ 0 then
      [{ angle := decodedWord p.fsa >>> 1, distance := decodedWord p.sample }]
    else []

/-- The points of a packet that go into `ap`. -/
def recorded : Packet → List AroundPoint
  | .point p => p.points
  | .start _ => []

/-- Every nonzero sample of the packet goes into `ap`. -/
def AllRecorded : Packet → Prop
  | .point p => ∀ w ∈ p.samples, w ≠ 0 → highByte w ≠ 0
  | .start p => p.sample = 0

instance : (pkt : Packet) → Decidable (AllRecorded pkt)
  | .point p => List.decidableBAll (fun w => w ≠ 0 → highByte w ≠ 0) p.samples
  | .start p => inferInstanceAs (Decidable (p.sample = 0))

/-- The point packets in front of the next start packet. -/
def leadingPackets : List Packet → List Packet
  | [] => []
  | .point p :: ps => .point p :: leadingPackets ps
  | .start _ :: _ => []

/-- The packets of turn `k`: its start packet and the point packets behind it. -/
def turnPackets : Nat → List Packet → List Packet
  | _, [] => []
  | k, .point _ :: ps => turnPackets k ps
  | 0, .start p :: ps => .start p :: leadingPackets ps
  | k + 1, .start _ :: ps => turnPackets k ps

/-- The packets of the turns that the decision looks at. -/
def decidingPackets (pkts : List Packet) : List Packet :=
  [1, 2, 3, 4].flatMap fun k => turnPackets k pkts

theorem leadingPoints_eq (pkts : List Packet) :
    leadingPoints pkts = (leadingPackets pkts).flatMap recorded := by
  induction pkts with
  | nil => rfl
  | cons pkt pkts ih =>
      cases pkt with
      | point p => rw [leadingPoints, leadingPackets, List.flatMap_cons, ih, recorded]
      | start p => rfl

theorem turnPoints_eq (k : Nat) (pkts : List Packet) :
    turnPoints k pkts = (turnPackets k pkts).flatMap recorded := by
  induction pkts generalizing k with
  | nil => rfl
  | cons pkt pkts ih =>
      cases pkt with
      | point p => exact ih k
      | start p =>
          cases k with
          | zero => exact leadingPoints_eq pkts
          | succ k => exact ih k

/-! ## One packet -/

theorem filterMap_ite {α β : Type*} (l : List α) (P : α → Prop) [DecidablePred P] (f : α → β) :
    (l.filterMap fun a => if P a then some (f a) else none) = (l.filter fun a => P a).map f := by
  induction l with
  | nil => rfl
  | cons a l ih =>
      by_cases ha : P a
      · simp [ha, ih]
      · simp [ha, ih]

theorem recorded_point (p : PointPacket) :
    recorded (.point p) = ((List.range p.samples.length).filter
      fun i => decodedWord (p.samples.getD i 0) ≠ 0).map (pointAt p) :=
  filterMap_ite _ (fun i => decodedWord (p.samples.getD i 0) ≠ 0) (pointAt p)

theorem sample_ne_zero {w : UInt16} (h : decodedWord w ≠ 0) : w ≠ 0 := by
  rintro rfl
  exact h rfl

/-- Nothing is recorded that was not sent. -/
theorem recorded_sublist_sent (pkt : Packet) : (recorded pkt).Sublist (sent pkt) := by
  cases pkt with
  | start p => exact List.nil_sublist _
  | point p =>
      rw [recorded_point, sent]
      refine List.Sublist.map _ (List.monotone_filter_right _ fun i hi => ?_)
      rw [decide_eq_true_iff] at hi ⊢
      exact sample_ne_zero hi

theorem recorded_eq_sent_iff (pkt : Packet) : recorded pkt = sent pkt ↔ AllRecorded pkt := by
  cases pkt with
  | start p =>
      rw [recorded, sent, AllRecorded]
      split
      case isTrue h => exact iff_of_false nofun h
      case isFalse h => exact iff_of_true rfl (not_not.mp h)
  | point p =>
      rw [AllRecorded]
      constructor
      · intro heq w hw hne hhigh
        obtain ⟨i, hi, rfl⟩ := List.mem_iff_getElem.mp hw
        have hget : p.samples.getD i 0 = p.samples[i] := List.getD_eq_getElem _ _ hi
        have hsent : pointAt p i ∈ sent (.point p) := by
          refine List.mem_map.mpr ⟨i, List.mem_filter.mpr ⟨List.mem_range.mpr hi, ?_⟩, rfl⟩
          rw [decide_eq_true_iff, hget]
          exact hne
        rw [← heq, recorded_point] at hsent
        obtain ⟨j, hj, hpoint⟩ := List.mem_map.mp hsent
        have hj' := of_decide_eq_true (List.mem_filter.mp hj).2
        have hdistance : decodedWord (p.samples.getD j 0) = decodedWord (p.samples.getD i 0) :=
          congrArg AroundPoint.distance hpoint
        rw [hdistance, hget] at hj'
        exact hj' ((decodedWord_eq_zero_iff _).mpr hhigh)
      · intro hall
        rw [recorded_point, sent]
        refine congrArg _ (List.filter_congr fun i hi => decide_eq_decide.mpr ?_)
        rw [List.mem_range] at hi
        have hget : p.samples.getD i 0 = p.samples[i] := List.getD_eq_getElem _ _ hi
        rw [hget]
        refine ⟨sample_ne_zero, fun hne hzero => ?_⟩
        exact hall _ (List.getElem_mem hi) hne ((decodedWord_eq_zero_iff _).mp hzero)

/-! ## The decision -/

theorem recorded_of_isTurn {a : Around} {pts : List AroundPoint} (h : a.IsTurn pts) :
    a.recorded = pts := by
  obtain ⟨hnumber, hholds⟩ := h
  rw [Around.recorded, hnumber, Int.toNat_natCast]
  apply List.ext_getElem
  · rw [List.length_map, List.length_range]
  · intro i _ hi
    rw [List.getElem_map, List.getElem_range]
    exact hholds i hi

/-- What the decision visits is what the scan's packets record. -/
theorem visited_of_scan {s : Parser} (hpc : s.pc = .manip .head) (hcircle : s.circle = 0)
    (hcount : s.count = 0) {pkts : List Packet} (hscan : IsScan pkts)
    (hmax : ∀ k < 5, (turnPoints k pkts).length ≤ 1440) :
    ∃ t es, Machine.runTo step Effect.isEvent s (bytes pkts) = some (t, es) ∧
      visited t.around = (decidingPackets pkts).flatMap recorded := by
  have hfits := hscan.fits hmax
  obtain ⟨p, ps, last, rfl, hfive⟩ := hscan.split
  obtain ⟨hrec, hquiet⟩ := Recorded.of_scan hpc hcircle hcount hfits.of_append hfive.le
  obtain ⟨hhead, heffects, -, -, -, hturns⟩ := hrec.complete hfive
  have hbytes : bytes (.start p :: ps ++ [.start last]) =
      (bytes (.start p :: ps) ++ [0xAA, 0x55]) ++ 0x01 :: last.rest := by
    rw [bytes_append, bytes_singleton, Packet.bytes, StartPacket.bytes_eq, List.append_assoc]
  have hsplit : Machine.run step s (bytes (.start p :: ps) ++ [0xAA, 0x55]) =
      ((parse (parse s (bytes (.start p :: ps))).1 [0xAA, 0x55]).1,
        (parse s (bytes (.start p :: ps))).2) := by
    rw [Machine.run_append, hhead, List.append_nil]
  have hbefore : (Machine.run step s (bytes (.start p :: ps) ++ [0xAA, 0x55])).2.any
      Effect.isEvent = false := by
    rw [hsplit]
    exact hquiet
  have hevent : (step (Machine.run step s (bytes (.start p :: ps) ++ [0xAA, 0x55])).1
      0x01).2.any Effect.isEvent = true := by
    rw [hsplit, heffects]
    rfl
  have hturn : ∀ k < 5,
      ((step (parse (parse s (bytes (.start p :: ps))).1 [0xAA, 0x55]).1 0x01).1.around
        (k : Nat)).recorded =
          (turnPackets k (.start p :: ps ++ [.start last])).flatMap recorded := by
    intro k hk
    rw [recorded_of_isTurn (hturns k hk), ← turnPoints_eq, turnPoints_concat_start k last]
    rwa [hfive]
  have hrun := Machine.runTo_append_cons last.rest hbefore hevent
  rw [← hbytes, hsplit] at hrun
  refine ⟨_, _, hrun, ?_⟩
  rw [decidingPackets, List.flatMap_assoc, visited]
  simp only [List.flatMap_cons, List.flatMap_nil]
  rw [← hturn 1 (by decide), ← hturn 2 (by decide), ← hturn 3 (by decide), ← hturn 4 (by decide)]
  rfl

/-- When the event for the scan is sent, each nonzero sample of its turns is
visited once by the decision, and nothing else is. -/
def ExaminesEachOnce (s : Parser) (pkts : List Packet) : Prop :=
  ∃ t es, Machine.runTo step Effect.isEvent s (bytes pkts) = some (t, es) ∧
    (visited t.around).Perm ((decidingPackets pkts).flatMap sent)

section Scan

variable {s : Parser} {pkts : List Packet}

theorem examinesEachOnce_iff_perm (hpc : s.pc = .manip .head) (hcircle : s.circle = 0)
    (hcount : s.count = 0) (hscan : IsScan pkts)
    (hmax : ∀ k < 5, (turnPoints k pkts).length ≤ 1440) :
    ExaminesEachOnce s pkts ↔
      ((decidingPackets pkts).flatMap recorded).Perm ((decidingPackets pkts).flatMap sent) := by
  obtain ⟨t, es, hrun, hvisited⟩ := visited_of_scan hpc hcircle hcount hscan hmax
  rw [← hvisited]
  constructor
  · rintro ⟨t', es', hrun', hexamined⟩
    obtain ⟨rfl, -⟩ := Prod.mk.inj (Option.some.inj (hrun.symm.trans hrun'))
    exact hexamined
  · exact fun hexamined => ⟨t, es, hrun, hexamined⟩

/-- A scan is examined completely exactly if the start packets of its turns carry no
sample and their point packets none below 256. -/
theorem examined_once_iff (hpc : s.pc = .manip .head) (hcircle : s.circle = 0)
    (hcount : s.count = 0) (hscan : IsScan pkts)
    (hmax : ∀ k < 5, (turnPoints k pkts).length ≤ 1440) :
    ExaminesEachOnce s pkts ↔ ∀ pkt ∈ decidingPackets pkts, AllRecorded pkt := by
  rw [examinesEachOnce_iff_perm hpc hcircle hcount hscan hmax,
    flatMap_perm_iff recorded_sublist_sent]
  exact forall₂_congr fun pkt _ => recorded_eq_sent_iff pkt

end Scan

theorem examined_once_iff_onePointScan : ExaminesEachOnce scanStart onePointScan :=
  (examined_once_iff rfl rfl rfl ⟨⟨_, rfl⟩, ⟨_, rfl⟩, rfl⟩ (by decide)).mpr (by decide)

/-- A scan whose second turn has a start packet with a sample of 512. -/
def startSampleScan : List Packet :=
  [.start blankStart, .start { blankStart with sample := 512 }, .start blankStart,
    .start blankStart, .start blankStart, .start blankStart]

theorem startSample_not_examined : ¬ ExaminesEachOnce scanStart startSampleScan := by
  rw [examinesEachOnce_iff_perm rfl rfl rfl ⟨⟨_, rfl⟩, ⟨_, rfl⟩, rfl⟩ (by decide)]
  decide

end Master
