-- SUMMARY: What a scan should record: the points of each turn as a function of the scan's packets.
import Mathlib.Data.List.GetD
import LidarCar.Slam.Packet
import LidarCar.Slam.Points

/-!
# Scans as lists of packets

`turnPoints k pkts` is the purpose of the recording: the points between two
start packets, read off the packets alone. The lemmas say how one more packet
at the end changes them.
-/

namespace Slam

/-- The points that a point packet contributes: one for each sample whose
decoded word is nonzero. -/
def PointPacket.points (p : PointPacket) : List AroundPoint :=
  (List.range p.samples.length).filterMap fun i =>
    let w := decodedWord (p.samples.getD i 0)
    if w ≠ 0 then
      some {
        angle := sampleAngle (decodedWord p.fsa) (decodedWord p.lsa) p.lsn i
        distance := w }
    else
      none

/-- The points in front of the next start packet. -/
def leadingPoints : List Packet → List AroundPoint
  | [] => []
  | .point p :: ps => p.points ++ leadingPoints ps
  | .start _ :: _ => []

/-- The points between start packets `k + 1` and `k + 2`. -/
def turnPoints : Nat → List Packet → List AroundPoint
  | _, [] => []
  | k, .point _ :: ps => turnPoints k ps
  | 0, .start _ :: ps => leadingPoints ps
  | k + 1, .start _ :: ps => turnPoints k ps

/-- The number of start packets. -/
def starts (pkts : List Packet) : Nat := pkts.countP Packet.isStart

/-- The bytes of a list of packets. -/
def bytes (pkts : List Packet) : List UInt8 := pkts.flatMap Packet.bytes

@[simp] theorem bytes_append (ps qs : List Packet) : bytes (ps ++ qs) = bytes ps ++ bytes qs :=
  List.flatMap_append

@[simp] theorem bytes_singleton (pkt : Packet) : bytes [pkt] = pkt.bytes := by
  simp [bytes]

@[simp] theorem starts_append (ps qs : List Packet) : starts (ps ++ qs) = starts ps + starts qs :=
  List.countP_append

@[simp] theorem starts_point (p : PointPacket) : starts [.point p] = 0 := rfl

@[simp] theorem starts_start (p : StartPacket) : starts [.start p] = 1 := rfl

theorem PointPacket.read_points (p : PointPacket) (g : PackAge) :
    (p.read g).points = p.points := by
  obtain ⟨hfsa, hlsa, -⟩ := p.read_fields g
  unfold PackAge.points PointPacket.points
  rw [p.read_lsn g, p.lsn_toNat, hfsa, hlsa]
  apply List.filterMap_congr
  intro i hi
  rw [List.mem_range] at hi
  rw [p.read_buf g hi, List.getD_eq_getElem _ _ hi]

theorem leadingPoints_concat_point {ps : List Packet} (p : PointPacket) (h : starts ps = 0) :
    leadingPoints (ps ++ [.point p]) = leadingPoints ps ++ p.points := by
  induction ps with
  | nil => simp [leadingPoints]
  | cons q ps ih =>
      cases q with
      | point q => simp [leadingPoints, ih (by simpa [starts, Packet.isStart] using h)]
      | start q => simp [starts, Packet.isStart] at h

theorem leadingPoints_append {ps : List Packet} (qs : List Packet) (h : 0 < starts ps) :
    leadingPoints (ps ++ qs) = leadingPoints ps := by
  induction ps with
  | nil => simp [starts] at h
  | cons q ps ih =>
      cases q with
      | point q => simp [leadingPoints, ih (by simpa [starts, Packet.isStart] using h)]
      | start q => rfl

theorem leadingPoints_concat_start (ps : List Packet) (q : StartPacket) :
    leadingPoints (ps ++ [.start q]) = leadingPoints ps := by
  induction ps with
  | nil => rfl
  | cons r ps ih =>
      cases r with
      | point r => simp [leadingPoints, ih]
      | start r => rfl

/-- A closed turn is final. -/
theorem turnPoints_append {k : Nat} {ps : List Packet} (qs : List Packet)
    (h : k + 1 < starts ps) : turnPoints k (ps ++ qs) = turnPoints k ps := by
  induction ps generalizing k with
  | nil => simp [starts] at h
  | cons q ps ih =>
      cases q with
      | point q => exact ih (by simpa [starts, Packet.isStart] using h)
      | start q =>
          have h' : k < starts ps := by
            simp only [starts, List.countP_cons, Packet.isStart, if_true] at h ⊢
            omega
          cases k with
          | zero => exact leadingPoints_append qs h'
          | succ k => exact ih h'

/-- A point packet extends the open turn. -/
theorem turnPoints_concat_point {k : Nat} {ps : List Packet} (p : PointPacket)
    (h : starts ps = k + 1) :
    turnPoints k (ps ++ [.point p]) = turnPoints k ps ++ p.points := by
  induction ps generalizing k with
  | nil => simp [starts] at h
  | cons q ps ih =>
      cases q with
      | point q => exact ih (by simpa [starts, Packet.isStart] using h)
      | start q =>
          have h' : starts ps = k := by
            simp only [starts, List.countP_cons, Packet.isStart, if_true] at h ⊢
            omega
          cases k with
          | zero => exact leadingPoints_concat_point p h'
          | succ k => exact ih h'

/-- A start packet leaves the open turn as it is. -/
theorem turnPoints_concat_start (k : Nat) {ps : List Packet} (q : StartPacket)
    (h : k < starts ps) : turnPoints k (ps ++ [.start q]) = turnPoints k ps := by
  induction ps generalizing k with
  | nil => simp [starts] at h
  | cons r ps ih =>
      cases r with
      | point r => exact ih k (by simpa [starts, Packet.isStart] using h)
      | start r =>
          cases k with
          | zero => exact leadingPoints_concat_start ps q
          | succ k =>
              refine ih k ?_
              simp only [starts, List.countP_cons, Packet.isStart, if_true] at h ⊢
              omega

/-- A turn that no start packet has opened has no points. -/
theorem turnPoints_eq_nil {k : Nat} {ps : List Packet} (h : starts ps ≤ k) :
    turnPoints k ps = [] := by
  induction ps generalizing k with
  | nil => rfl
  | cons q ps ih =>
      cases q with
      | point q => exact ih (by simpa [starts, Packet.isStart] using h)
      | start q =>
          cases k with
          | zero => simp [starts, Packet.isStart] at h
          | succ k =>
              refine ih ?_
              simp only [starts, List.countP_cons, Packet.isStart, if_true] at h ⊢
              omega

/-- A start packet opens an empty turn. -/
theorem turnPoints_opened {k : Nat} {ps : List Packet} (q : StartPacket)
    (h : starts ps = k) : turnPoints k (ps ++ [.start q]) = [] := by
  induction ps generalizing k with
  | nil =>
      subst h
      rfl
  | cons r ps ih =>
      cases r with
      | point r => exact ih (by simpa [starts, Packet.isStart] using h)
      | start r =>
          cases k with
          | zero => simp [starts, Packet.isStart] at h
          | succ k =>
              refine ih ?_
              simp only [starts, List.countP_cons, Packet.isStart, if_true] at h ⊢
              omega

theorem leadingPoints_length_le (ps qs : List Packet) :
    (leadingPoints ps).length ≤ (leadingPoints (ps ++ qs)).length := by
  induction ps with
  | nil => simp [leadingPoints]
  | cons r ps ih =>
      cases r with
      | point r => simpa [leadingPoints] using ih
      | start r => exact le_rfl

/-- Reading on never removes points from a turn. -/
theorem turnPoints_length_le (k : Nat) (ps qs : List Packet) :
    (turnPoints k ps).length ≤ (turnPoints k (ps ++ qs)).length := by
  induction ps generalizing k with
  | nil => simp [turnPoints]
  | cons r ps ih =>
      cases r with
      | point r => exact ih k
      | start r =>
          cases k with
          | zero => exact leadingPoints_length_le ps qs
          | succ k => exact ih k

end Slam
