-- SUMMARY: Decoding of 16-bit words: which packets the parser's package holds as they were serialised.
import LidarCar.Slam.Packet

/-!
# Decoding a packet

Every 16-bit field is read by two assignments, and the second replaces the
first. So the package holds the high byte of each word and nothing of its low
byte.
-/

namespace Slam

theorem lowByte_toNat (w : UInt16) : (lowByte w).toNat = w.toNat % 256 := by
  simp [lowByte]

theorem highByte_toNat (w : UInt16) : (highByte w).toNat = w.toNat / 256 := by
  have hlt := w.toNat_lt
  simp only [highByte, UInt16.toNat_toUInt8, UInt16.toNat_shiftRight, UInt16.reduceToNat]
  simp only [Nat.shiftRight_eq_div_pow, Nat.reduceMod, Nat.reducePow]
  omega

theorem decodedWord_toNat (w : UInt16) : (decodedWord w).toNat = w.toNat / 256 * 256 := by
  have := w.toNat_lt
  simp only [decodedWord, highByte, UInt16.toNat_shiftLeft, UInt8.toNat_toUInt16,
    UInt16.toNat_toUInt8, UInt16.toNat_shiftRight, UInt16.reduceToNat]
  simp only [Nat.shiftRight_eq_div_pow, Nat.shiftLeft_eq, Nat.reduceMod, Nat.reducePow]
  omega

/-- Only a word with an empty low byte survives the two assignments. -/
theorem decodedWord_eq_iff (w : UInt16) : decodedWord w = w ↔ lowByte w = 0 := by
  rw [← UInt16.toNat_inj, ← UInt8.toNat_inj, decodedWord_toNat, lowByte_toNat, UInt8.toNat_zero]
  omega

/-- A word below 256 is read as zero. -/
theorem decodedWord_eq_zero_iff (w : UInt16) : decodedWord w = 0 ↔ highByte w = 0 := by
  rw [← UInt16.toNat_inj, ← UInt8.toNat_inj, decodedWord_toNat, highByte_toNat]
  exact Nat.mul_eq_zero.trans (or_iff_left (by decide))

/-- The package holds the words of the packet as they were serialised. -/
def Packet.HeldBy (g : PackAge) : Packet → Prop
  | .point p =>
      g.fsa = p.fsa ∧ g.lsa = p.lsa ∧ g.cs = p.cs ∧
        ∀ i (h : i < p.samples.length), g.buf i = p.samples[i]
  | .start p => g.fsa = p.fsa ∧ g.lsa = p.lsa ∧ g.cs = p.cs ∧ g.buf 0 = p.sample

theorem PointPacket.heldBy_read_iff (p : PointPacket) (g : PackAge) :
    (Packet.point p).HeldBy (p.read g) ↔ ∀ w ∈ (Packet.point p).words, lowByte w = 0 := by
  obtain ⟨hfsa, hlsa, hcs⟩ := p.read_fields g
  have hbuf : (∀ i (h : i < p.samples.length), (p.read g).buf i = p.samples[i]) ↔
      ∀ w ∈ p.samples, lowByte w = 0 := by
    rw [List.forall_mem_iff_forall_getElem]
    refine forall_congr' fun i => forall_congr' fun h => ?_
    rw [p.read_buf g h, decodedWord_eq_iff]
  simp only [Packet.HeldBy, Packet.words, List.forall_mem_cons, hfsa, hlsa, hcs,
    decodedWord_eq_iff, hbuf]

theorem StartPacket.heldBy_read_iff (p : StartPacket) (g : PackAge) :
    (Packet.start p).HeldBy (p.read g) ↔ ∀ w ∈ (Packet.start p).words, lowByte w = 0 := by
  simp [Packet.HeldBy, Packet.words, StartPacket.read, PackAge.readHeader, PackAge.setBuf,
    decodedWord_eq_iff]

/-- Decoding a packet undoes its serialisation exactly if no word of it has a
low byte. -/
theorem decode_exact_iff {s : Parser} (hs : s.pc = .manip .head) (pkt : Packet)
    (hr : s.Reads pkt) :
    pkt.HeldBy (parse s pkt.bytes).1.package ↔ ∀ w ∈ pkt.words, lowByte w = 0 := by
  cases pkt with
  | point p =>
      rw [Packet.bytes, parse_pointPacket hs p]
      exact p.heldBy_read_iff s.package
  | start p =>
      rw [Packet.bytes, parse_startPacket hs p hr]
      exact p.heldBy_read_iff s.package

/-- The parser in the first turn of a scan, before a packet. -/
def firstTurn : Parser :=
  { powerUp with circle := 1, pc := .manip .head }

theorem decode_exact_iff_nearPacket :
    firstTurn.pc = .manip .head ∧ firstTurn.Reads (.point nearPacket) ∧
      ((Packet.point nearPacket).HeldBy (parse firstTurn nearPacket.bytes).1.package ↔
        ∀ w ∈ (Packet.point nearPacket).words, lowByte w = 0) :=
  ⟨rfl, trivial, decode_exact_iff rfl (.point nearPacket) trivial⟩

/-- The parser reads 256 where the lidar sent 300. -/
theorem nearPacket_not_held :
    firstTurn.pc = .manip .head ∧ firstTurn.Reads (.point nearPacket) ∧
      (parse firstTurn nearPacket.bytes).1.package.buf 0 = 256 ∧
      ¬ (Packet.point nearPacket).HeldBy (parse firstTurn nearPacket.bytes).1.package := by
  have hbuf : (parse firstTurn nearPacket.bytes).1.package.buf 0 = 256 := by decide
  refine ⟨rfl, trivial, hbuf, ?_⟩
  rintro ⟨-, -, -, hsamples⟩
  exact absurd (hsamples 0 (by decide)) (by rw [hbuf]; decide)

end Slam
