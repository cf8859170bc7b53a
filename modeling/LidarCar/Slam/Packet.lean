-- SUMMARY: Lidar packets and their bytes, and what the parser makes of one packet read from its hunting state.
import Mathlib.Data.List.Range
import LidarCar.Slam.Parser

/-!
# Packets on the wire

The two packet kinds as the lidar serialises them, and one lemma for each that
says where the parser stands after reading it. Everything later about whole
scans goes through these two lemmas.
-/

namespace Slam

/-! ## Words and packets -/

/-- The byte of a 16-bit word that is sent first. -/
def lowByte (w : UInt16) : UInt8 := w.toUInt8

/-- The byte of a 16-bit word that is sent second. -/
def highByte (w : UInt16) : UInt8 := (w >>> 8).toUInt8

def wordBytes (w : UInt16) : List UInt8 := [lowByte w, highByte w]

/-- What the parser's second assignment leaves of a word. -/
def decodedWord (w : UInt16) : UInt16 := (highByte w).toUInt16 <<< 8

/-- A point packet with the number of samples the protocol allows. -/
structure PointPacket where
  fsa : UInt16
  lsa : UInt16
  cs : UInt16
  samples : List UInt16
  one_le : 1 ≤ samples.length
  le_forty : samples.length ≤ 40

/-- A start packet: one sample. -/
structure StartPacket where
  lsn : UInt8
  fsa : UInt16
  lsa : UInt16
  cs : UInt16
  sample : UInt16

inductive Packet where
  | point (p : PointPacket)
  | start (p : StartPacket)

def PointPacket.lsn (p : PointPacket) : UInt8 := UInt8.ofNat p.samples.length

def headerBytes (ct lsn : UInt8) (fsa lsa cs : UInt16) : List UInt8 :=
  0xAA :: 0x55 :: ct :: lsn :: (wordBytes fsa ++ (wordBytes lsa ++ wordBytes cs))

def PointPacket.bytes (p : PointPacket) : List UInt8 :=
  headerBytes 0x00 p.lsn p.fsa p.lsa p.cs ++ p.samples.flatMap wordBytes

def StartPacket.bytes (p : StartPacket) : List UInt8 :=
  headerBytes 0x01 p.lsn p.fsa p.lsa p.cs ++ wordBytes p.sample

def Packet.bytes : Packet → List UInt8
  | .point p => p.bytes
  | .start p => p.bytes

/-- The 16-bit words a packet carries. -/
def Packet.words : Packet → List UInt16
  | .point p => p.fsa :: p.lsa :: p.cs :: p.samples
  | .start p => [p.fsa, p.lsa, p.cs, p.sample]

def Packet.isStart : Packet → Bool
  | .point _ => false
  | .start _ => true

/-- A point packet with one sample of 300 at angles 10 and 20 degrees. -/
def nearPacket : PointPacket where
  fsa := 1281
  lsa := 2561
  cs := 0
  samples := [300]
  one_le := by decide
  le_forty := by decide

/-- A start packet with all fields zero. -/
def blankStart : StartPacket where
  lsn := 1
  fsa := 0
  lsa := 0
  cs := 0
  sample := 0

@[simp] theorem PointPacket.lsn_toNat (p : PointPacket) : p.lsn.toNat = p.samples.length := by
  have := p.le_forty
  simp only [PointPacket.lsn, UInt8.toNat_ofNat']
  omega

/-! ## Reading the fields -/

/-- The packet buffer after the fields in front of the samples. -/
def PackAge.readHeader (g : PackAge) (lsn : UInt8) (fsa lsa cs : UInt16) : PackAge :=
  { g with lsn := lsn, fsa := decodedWord fsa, lsa := decodedWord lsa, cs := decodedWord cs }

/-- The packet buffer after the samples `ws` from position `i` on. -/
def PackAge.readSamples (g : PackAge) (i : Nat) : List UInt16 → PackAge
  | [] => g
  | w :: ws => (g.setBuf i (decodedWord w)).readSamples (i + 1) ws

/-- The packet buffer after a point packet. -/
def PointPacket.read (p : PointPacket) (g : PackAge) : PackAge :=
  (g.readHeader p.lsn p.fsa p.lsa p.cs).readSamples 0 p.samples

/-- The packet buffer after a start packet. -/
def StartPacket.read (p : StartPacket) (g : PackAge) : PackAge :=
  (g.readHeader p.lsn p.fsa p.lsa p.cs).setBuf 0 (decodedWord p.sample)

@[simp] theorem PackAge.setBuf_setBuf (g : PackAge) (i : Nat) (v w : UInt16) :
    (g.setBuf i v).setBuf i w = g.setBuf i w := by
  simp [PackAge.setBuf]

@[simp] theorem PackAge.setBuf_lsn (g : PackAge) (i : Nat) (w : UInt16) :
    (g.setBuf i w).lsn = g.lsn := rfl

@[simp] theorem PackAge.setBuf_buf_self (g : PackAge) (i : Nat) (w : UInt16) :
    (g.setBuf i w).buf i = w := by
  simp [PackAge.setBuf]

@[simp] theorem PackAge.readSamples_fields (g : PackAge) (i : Nat) (ws : List UInt16) :
    (g.readSamples i ws).lsn = g.lsn ∧ (g.readSamples i ws).fsa = g.fsa ∧
      (g.readSamples i ws).lsa = g.lsa ∧ (g.readSamples i ws).cs = g.cs := by
  induction ws generalizing g i with
  | nil => exact ⟨rfl, rfl, rfl, rfl⟩
  | cons w ws ih => exact ih (g.setBuf i (decodedWord w)) (i + 1)

theorem PackAge.readSamples_buf_lt (g : PackAge) (i : Nat) (ws : List UInt16) {j : Nat}
    (hj : j < i) : (g.readSamples i ws).buf j = g.buf j := by
  induction ws generalizing g i with
  | nil => rfl
  | cons w ws ih =>
      rw [PackAge.readSamples, ih _ _ (by omega)]
      exact Function.update_of_ne (by omega) _ _

theorem PackAge.readSamples_buf (g : PackAge) (i : Nat) (ws : List UInt16) {j : Nat}
    (hj : j < ws.length) : (g.readSamples i ws).buf (i + j) = decodedWord ws[j] := by
  induction ws generalizing g i j with
  | nil => simp at hj
  | cons w ws ih =>
      cases j with
      | zero =>
          rw [PackAge.readSamples, Nat.add_zero, PackAge.readSamples_buf_lt _ _ _ (by omega)]
          exact PackAge.setBuf_buf_self g i _
      | succ j =>
          have := ih (g.setBuf i (decodedWord w)) (i + 1) (j := j) (by simpa using hj)
          rw [PackAge.readSamples, show i + (j + 1) = i + 1 + j by omega, this]
          rfl

theorem PointPacket.read_fields (p : PointPacket) (g : PackAge) :
    (p.read g).fsa = decodedWord p.fsa ∧ (p.read g).lsa = decodedWord p.lsa ∧
      (p.read g).cs = decodedWord p.cs := by
  obtain ⟨-, hfsa, hlsa, hcs⟩ :=
    (g.readHeader p.lsn p.fsa p.lsa p.cs).readSamples_fields 0 p.samples
  exact ⟨hfsa, hlsa, hcs⟩

theorem PointPacket.read_lsn (p : PointPacket) (g : PackAge) : (p.read g).lsn = p.lsn :=
  ((g.readHeader p.lsn p.fsa p.lsa p.cs).readSamples_fields 0 p.samples).1

theorem PointPacket.read_buf (p : PointPacket) (g : PackAge) {i : Nat}
    (h : i < p.samples.length) : (p.read g).buf i = decodedWord p.samples[i] := by
  have := (g.readHeader p.lsn p.fsa p.lsa p.cs).readSamples_buf 0 p.samples h
  rwa [Nat.zero_add] at this

/-! ## Reading a packet -/

/-- `manipulationData` reads the packet to its end: it leaves the start packet
that completes a scan after the CT byte. -/
def Parser.Reads (s : Parser) : Packet → Prop
  | .point _ => True
  | .start _ => s.toGlobals.openTurn.1.circle ≠ 6

/-- The effects of filling `package.buf` from `i` on with `n` samples. -/
def bufEffects (i : Nat) : Nat → List Effect
  | 0 => []
  | n + 1 => .buf i :: .buf i :: bufEffects (i + 1) n

/-- The scan header brings the parser from `EAI_X4_GetDate` to the first packet. -/
theorem parse_scanHeader {s : Parser} (hs : s.pc = .getDate .head) :
    parse s scanHeader = ({ s with pc := .manip .head }, []) := by
  simp [parse, scanHeader, scanReply, step, hs, eaiX4GetDate, afterReply]

/-- The sample loop on the rest of a point packet. -/
theorem parse_samples (s : Parser) (i : Nat) (ws : List UInt16)
    (h : i + ws.length = s.package.lsn.toNat) :
    let q := parse (sampleLoop s i).1 (ws.flatMap wordBytes)
    let r := recordPoints (s.package.readSamples i ws) s.toGlobals
    q.1 = { s with
        toGlobals := r.1, pc := .manip .head, package := s.package.readSamples i ws } ∧
      (sampleLoop s i).2 ++ q.2 = bufEffects i ws.length ++ r.2 := by
  induction ws generalizing s i with
  | nil =>
      have hi : ¬ i < s.package.lsn.toNat := by simp only [List.length_nil] at h; omega
      simp [sampleLoop, hi, PackAge.readSamples, bufEffects]
  | cons w ws ih =>
      have hi : i < s.package.lsn.toNat := by simp only [List.length_cons] at h; omega
      have hrest := ih { s with package := s.package.setBuf i (decodedWord w) } (i + 1)
        (by simpa [Nat.add_assoc, Nat.add_comm 1] using h)
      simp only [PackAge.readSamples, bufEffects, List.length_cons, List.cons_append]
      simp only [sampleLoop, hi, if_true, wordBytes, List.flatMap_cons, List.cons_append,
        List.nil_append, parse, Machine.run_cons, step, manipulationData,
        PackAge.setBuf_setBuf] at hrest ⊢
      exact ⟨hrest.1, congrArg (fun l => Effect.buf i :: Effect.buf i :: l) hrest.2⟩

/-- The bytes of a point packet of any length are read to their end. -/
theorem parse_pointBytes {s : Parser} (hs : s.pc = .manip .head) {lsn : UInt8}
    (fsa lsa cs : UInt16) {samples : List UInt16} (hlen : samples.length = lsn.toNat) :
    let p := (s.package.readHeader lsn fsa lsa cs).readSamples 0 samples
    let r := recordPoints p s.toGlobals
    parse s (headerBytes 0x00 lsn fsa lsa cs ++ samples.flatMap wordBytes) =
      ({ s with toGlobals := r.1, pc := .manip .head, package := p },
        bufEffects 0 samples.length ++ r.2) := by
  have hrest := parse_samples { s with package := s.package.readHeader lsn fsa lsa cs } 0 samples
    (by rw [Nat.zero_add, hlen]; rfl)
  simp only [headerBytes, wordBytes, List.cons_append, List.nil_append, parse, Machine.run_cons,
    step, hs, manipulationData, if_true, readField, Field.next]
  exact Prod.ext hrest.1 hrest.2

/-- A point packet read from the hunting state is recorded as a whole. -/
theorem parse_pointPacket {s : Parser} (hs : s.pc = .manip .head) (p : PointPacket) :
    let r := recordPoints (p.read s.package) s.toGlobals
    parse s p.bytes =
      ({ s with toGlobals := r.1, pc := .manip .head, package := p.read s.package },
        bufEffects 0 p.samples.length ++ r.2) :=
  parse_pointBytes hs p.fsa p.lsa p.cs p.lsn_toNat.symm

/-- A start packet that does not end the scan opens a turn and leaves its first
point. -/
theorem parse_startPacket {s : Parser} (hs : s.pc = .manip .head) (p : StartPacket)
    (hc : s.toGlobals.openTurn.1.circle ≠ 6) :
    let g := s.toGlobals.openTurn.1
    let turn := g.circle.toInt - 1
    parse s p.bytes =
      ({ s with
          toGlobals := g.storeFirstpoint turn
            { angle := decodedWord p.fsa >>> 1, distance := decodedWord p.sample }
          pc := .manip .head
          package := p.read s.package },
        s.toGlobals.openTurn.2 ++ [.buf 0, .buf 0, .firstpoint turn]) := by
  simp [StartPacket.bytes, headerBytes, wordBytes, parse, step, hs, manipulationData, startPacket,
    hc, readField, Field.next, StartPacket.read, PackAge.readHeader, decodedWord]
  rfl

/-- The CT byte of the start packet that ends the scan. -/
theorem parse_lastStart {s : Parser} (hs : s.pc = .manip .head)
    (hc : s.toGlobals.openTurn.1.circle = 6) :
    parse s [0xAA, 0x55] = ({ s with pc := .manip .ct }, []) ∧
      step { s with pc := .manip .ct } 0x01 =
        ({ s with
            toGlobals := { s.toGlobals.openTurn.1 with circle := 0 }
            pc := .getDate .head },
          s.toGlobals.openTurn.2 ++ [.putchar 0xA5, .putchar 0x65, .eventSend]) := by
  constructor
  · simp [parse, step, hs, manipulationData]
  · simp [step, manipulationData, startPacket, hc]

/-- `EAI_X4_GetDate` reads the rest of the start packet that completes a scan. -/
theorem parse_lastStart_fst {s : Parser} (hs : s.pc = .manip .head)
    (hc : s.toGlobals.openTurn.1.circle = 6) (rest : List UInt8) :
    (parse s ([0xAA, 0x55] ++ 0x01 :: rest)).1 =
      (parse
        { s with
          toGlobals := { s.toGlobals.openTurn.1 with circle := 0 }
          pc := .getDate .head } rest).1 := by
  obtain ⟨hhead, hct⟩ := parse_lastStart hs hc
  rw [parse] at hhead
  rw [parse, Machine.run_append, hhead, Machine.run_cons, hct]

end Slam
