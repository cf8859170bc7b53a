-- SUMMARY: The check word of a packet, which nothing compares, and the packets it would have rejected.
import LidarCar.Slam.Completion
import LidarCar.Slam.Decode

/-!
# The check word

`manipulationData` reads `package.cs` and `EAI_X4.c` names the words that the sum
starts from, but no packet is ever rejected. What a packet with a wrong check word
leaves behind is told by its kind and its samples.
-/

namespace Slam

/-! ## The words under the check -/

/-- `PH`. -/
def PH : UInt16 := 0x55AA

/-- `StartCTLSN`. -/
def StartCTLSN : UInt16 := 0x0101

/-- A point packet with any length byte. -/
structure RawPoint where
  lsn : UInt8
  fsa : UInt16
  lsa : UInt16
  cs : UInt16
  samples : List UInt16
  length_eq : samples.length = lsn.toNat

/-- A packet as `manipulationData` reads it, whatever its length byte is. -/
inductive RawPacket where
  | point (p : RawPoint)
  | start (p : StartPacket)

def RawPoint.bytes (p : RawPoint) : List UInt8 :=
  headerBytes 0x00 p.lsn p.fsa p.lsa p.cs ++ p.samples.flatMap wordBytes

def RawPacket.bytes : RawPacket → List UInt8
  | .point p => p.bytes
  | .start p => p.bytes

def RawPacket.cs : RawPacket → UInt16
  | .point p => p.cs
  | .start p => p.cs

/-- The exclusive or of the words of the packet. Of CT and LSN, CT is the low byte. -/
def RawPacket.checkWord : RawPacket → UInt16
  | .point p => p.samples.foldl (· ^^^ ·) (PH ^^^ (p.lsn.toUInt16 <<< 8) ^^^ p.fsa ^^^ p.lsa)
  | .start p => PH ^^^ StartCTLSN ^^^ p.fsa ^^^ p.lsa ^^^ p.sample

/-- The parser, hunting for the next packet. -/
def Parser.hunting (s : Parser) : Parser :=
  { s with pc := .manip .head }

/-- A packet with a wrong check word leaves `around`, `circle` and `count` alone. -/
def Rejects (s : Parser) (p : RawPacket) : Prop :=
  p.cs ≠ p.checkWord → (parse s.hunting p.bytes).1.toGlobals = s.toGlobals

/-! ## Point packets -/

/-- `count++` for each point, in 16 bits. -/
theorem Globals.storePoints_count_eq (g : Globals) (pts : List AroundPoint) :
    (g.storePoints pts).1.count = g.count + Int16.ofNat pts.length := by
  induction pts generalizing g with
  | nil => exact (Int16.add_zero g.count).symm
  | cons pt pts ih =>
      have hone : (g.storePoint pt).1.count = g.count + 1 := by
        rw [Globals.storePoint_count, Int16.ofInt_add, Int16.ofInt_toInt]
        rfl
      rw [Globals.storePoints_cons, ih, hone, List.length_cons, Int16.ofNat_add, Int16.add_assoc,
        Int16.add_comm 1]
      rfl

/-- The points of one packet leave `count` as it was only if there are none. -/
theorem Globals.storePoints_eq_self_iff {g : Globals} {pts : List AroundPoint}
    (hlen : pts.length < 2 ^ 15) : (g.storePoints pts).1 = g ↔ pts = [] := by
  constructor
  · intro hself
    have hcount := congrArg Globals.count hself
    rw [Globals.storePoints_count_eq, Int16.add_eq_left] at hcount
    have hzero := Int16.toInt_ofNat_of_lt hlen
    rw [hcount] at hzero
    exact List.length_eq_zero_iff.mp (Int.natCast_eq_zero.mp hzero.symm)
  · rintro rfl
    rfl

theorem PackAge.points_length_le (p : PackAge) : p.points.length ≤ p.lsn.toNat := by
  have hle := List.length_filterMap_le (fun i => if p.buf i ≠ 0 then
    some { angle := sampleAngle p.fsa p.lsa p.lsn i, distance := p.buf i : AroundPoint } else none)
    (List.range p.lsn.toNat)
  rwa [List.length_range] at hle

/-- The packet buffer after the packet. -/
def RawPoint.read (p : RawPoint) (g : PackAge) : PackAge :=
  (g.readHeader p.lsn p.fsa p.lsa p.cs).readSamples 0 p.samples

/-- A packet contributes no point exactly if its samples are all read as zero. -/
theorem RawPoint.points_eq_nil_iff (p : RawPoint) (g : PackAge) :
    (p.read g).points = [] ↔ ∀ w ∈ p.samples, highByte w = 0 := by
  have hlsn : (p.read g).lsn = p.lsn :=
    ((g.readHeader p.lsn p.fsa p.lsa p.cs).readSamples_fields 0 p.samples).1
  have hbuf : ∀ i (h : i < p.samples.length),
      (p.read g).buf i = 0 ↔ highByte p.samples[i] = 0 := by
    intro i h
    have hi := (g.readHeader p.lsn p.fsa p.lsa p.cs).readSamples_buf 0 p.samples h
    rw [Nat.zero_add] at hi
    rw [RawPoint.read, hi, decodedWord_eq_zero_iff]
  rw [PackAge.points_eq_nil_iff, hlsn, ← p.length_eq, List.forall_mem_iff_forall_getElem]
  exact forall₂_congr hbuf

theorem rejects_point_iff (s : Parser) (p : RawPoint) :
    (parse s.hunting p.bytes).1.toGlobals = s.toGlobals ↔ ∀ w ∈ p.samples, highByte w = 0 := by
  have hread := parse_pointBytes (s := s.hunting) rfl p.fsa p.lsa p.cs p.length_eq
  have hlen : (p.read s.package).points.length < 2 ^ 15 := by
    have hle := (p.read s.package).points_length_le
    have hlt := (p.read s.package).lsn.toNat_lt
    omega
  rw [RawPoint.bytes, hread, recordPoints_eq, ← p.points_eq_nil_iff s.package]
  exact Globals.storePoints_eq_self_iff hlen

/-! ## Start packets -/

theorem openTurn_circle_eq (g : Globals) : g.openTurn.1.circle = g.circle + 1 := by
  have hnext : Int8.ofInt (g.circle.toInt + 1) = g.circle + 1 := by
    rw [Int8.ofInt_add, Int8.ofInt_toInt]
    rfl
  unfold Globals.openTurn
  dsimp only
  split
  · exact hnext
  · exact hnext

theorem sampleLoop_circle (s : Parser) (i : Nat) : (sampleLoop s i).1.circle = s.circle :=
  (sampleLoop_startCount s i).2

/-- Only a CT byte changes `circle`. -/
theorem step_circle {s : Parser} (b : UInt8) (hpc : s.pc ≠ .manip .ct) :
    (step s b).1.circle = s.circle := by
  cases hq : s.pc with
  | getDate q => rw [step_getDate hq]
  | manip q =>
      rw [step_manip hq]
      cases q with
      | ct => exact absurd hq hpc
      | field k f =>
          cases hf : f.next <;> cases k <;> simp only [manipulationData, hf]
          exact sampleLoop_circle _ _
      | bufShift i => exact sampleLoop_circle _ _
      | _ => rfl

/-- Before the next CT byte of a packet `circle` stays. -/
theorem parse_circle_of_short {s : Parser} {bs : List UInt8}
    (h : bs.length < s.pc.eventDistance) : (parse s bs).1.circle = s.circle := by
  induction bs generalizing s with
  | nil => rfl
  | cons b bs ih =>
      have hpc : s.pc ≠ .manip .ct := by
        intro hct
        rw [hct, List.length_cons, Pc.eventDistance] at h
        omega
      have hdist := step_eventDistance s b
      rw [List.length_cons] at h
      rw [parse, Machine.run_cons, ← step_circle b hpc]
      exact ih (by omega)

/-- Every start packet counts in `circle`, whatever its check word is. -/
theorem parse_start_circle (s : Parser) (p : StartPacket) :
    (parse s.hunting p.bytes).1.circle ≠ s.circle := by
  have hopen := openTurn_circle_eq s.toGlobals
  by_cases hlast : s.toGlobals.openTurn.1.circle = 6
  · -- the fields behind the CT byte go to `EAI_X4_GetDate`
    have hbytes : p.bytes = [0xAA, 0x55] ++ 0x01 :: (p.lsn ::
        (wordBytes p.fsa ++ (wordBytes p.lsa ++ wordBytes p.cs)) ++ wordBytes p.sample) := rfl
    have hshort : (p.lsn :: (wordBytes p.fsa ++ (wordBytes p.lsa ++ wordBytes p.cs)) ++
        wordBytes p.sample).length < (Pc.getDate .head).eventDistance := Nat.lt_succ_self 9
    rw [hbytes, parse_lastStart_fst (s := s.hunting) rfl hlast, parse_circle_of_short hshort]
    intro hsame
    have hzero : s.circle = 0 := hsame.symm
    rw [hlast, hzero] at hopen
    exact absurd hopen (by decide)
  · rw [parse_startPacket (s := s.hunting) rfl p hlast]
    intro hsame
    have hstays : s.circle + 1 = s.circle := hopen.symm.trans hsame
    rw [Int8.add_eq_left] at hstays
    cases hstays

/-- A packet with a wrong check word leaves the map alone exactly if it is a point
packet without a sample that is read as nonzero. -/
theorem rejects_iff (s : Parser) (p : RawPacket) :
    Rejects s p ↔
      p.cs = p.checkWord ∨ ∃ q, p = .point q ∧ ∀ w ∈ q.samples, highByte w = 0 := by
  rw [Rejects, ← or_iff_not_imp_left]
  refine or_congr_right ?_
  cases p with
  | point q =>
      rw [RawPacket.bytes, rejects_point_iff]
      constructor
      · exact fun hzero => ⟨q, rfl, hzero⟩
      · rintro ⟨q', hq, hzero⟩
        cases hq
        exact hzero
  | start q =>
      refine iff_of_false (fun hsame => ?_) nofun
      exact parse_start_circle s q (congrArg Globals.circle hsame)

/-- A packet with a point at 300 and a zero check word is recorded. -/
theorem nearPacket_not_rejected :
    ¬ Rejects powerUp (.point ⟨1, 1281, 2561, 0, [300], rfl⟩) := by
  intro hrejects
  have hsame := hrejects (by decide)
  exact absurd (congrArg Globals.count hsame) (by decide)

end Slam
