-- SUMMARY: When a streaming lidar has a parser that reads its packets.
import LidarCar.Base.Pattern
import LidarCar.Scan.System
import LidarCar.Slam.Exit

/-!
# A streaming lidar is served

While the lidar streams and has not been told to stop, someone must read its
packets: the parser is in `manipulationData`, or the header that will bring it
there is still unread. Two kinds of bytes break this, an unknown CT byte and a
scan header that is not met in the hunting state.
-/

namespace Scan

open Slam (scanHeader headerPc stopAndSend)
open Pattern (OccursAt)
open Transition (Reach)

/-! ## The property -/

/-- The CT bytes the parser reads are known, and it meets a scan header in the
hunting state of `EAI_X4_GetDate`. -/
def Undisturbed (s : System) : Label → Prop
  | .parser => s.out = [] →
      (s.parser.pc = .manip .ct → ∀ b ∈ s.sent[s.nread]?, b = 0x00 ∨ b = 0x01) ∧
        (s.opened = some s.nread → s.parser.pc = .getDate .head ∨ s.parser.inManip = true)
  | _ => True

/-! ## The invariant -/

/-- The last scan header is sent, and the parser has followed what it has read of
it. -/
def System.HeaderAhead (s : System) : Prop :=
  ∃ p ∈ s.opened, s.nread ≤ p ∨
    ∃ k < scanHeader.length, s.nread = p + k ∧ s.parser.pc = .getDate (headerPc k)

def System.Served (s : System) : Prop :=
  s.lidar.owesHeader = true ∨ s.HeaderAhead ∨ s.parser.inManip = true ∨
    .putchar 0x65 ∈ s.out

structure OnCourse (s : System) : Prop where
  nread_le : s.nread ≤ s.sent.length
  header : ∀ p ∈ s.opened, OccursAt scanHeader s.sent p
  served : s.lidar.streaming = true → s.stopSent = false → s.Served

theorem OnCourse.init (swing : Int32) : OnCourse (.init swing) where
  nread_le := Nat.le_refl 0
  header := nofun
  served := nofun

variable {s s' : System}

theorem OnCourse.putchar (h : OnCourse s) (b : UInt8) : OnCourse (s.putchar b) where
  nread_le := h.nread_le
  header := h.header
  served := fun hstreaming hstop => by
    have howes : (s.putchar b).lidar.owesHeader = (s.lidar.starts b || s.lidar.owesHeader) :=
      s.lidar.receive_owesHeader b
    cases hstarts : s.lidar.starts b with
    | true => exact Or.inl (by rw [howes, hstarts]; rfl)
    | false =>
        have hold : s.stopSent = false := by
          simpa [System.putchar, hstarts] using hstop
        rcases h.served (Lidar.receive_streaming hstreaming hstarts) hold with ho | hrest
        · exact Or.inl (by rw [howes, ho, Bool.or_true])
        · exact Or.inr hrest

theorem OnCourse.answer (h : OnCourse s) :
    OnCourse { s with
      lidar := { s.lidar with owesHeader := false }
      sent := s.sent ++ scanHeader
      opened := some s.sent.length } where
  nread_le := h.nread_le.trans (by simp)
  header := fun p hp => by
    obtain rfl := Option.some.inj hp
    exact Pattern.occursAt_length_append _ _
  served := fun _ _ => Or.inr (Or.inl ⟨s.sent.length, rfl, Or.inl h.nread_le⟩)

theorem OnCourse.byte (h : OnCourse s) (b : UInt8) :
    OnCourse { s with sent := s.sent ++ [b] } where
  nread_le := h.nread_le.trans (by simp)
  header := fun p hp => (h.header p hp).append [b]
  served := h.served

/-! ## The parser's reads -/

/-- Reading a byte of a header that is followed follows it further. -/
theorem System.HeaderAhead.take {b : UInt8} (h : s.HeaderAhead)
    (hheader : ∀ p ∈ s.opened, OccursAt scanHeader s.sent p)
    (hb : s.sent[s.nread]? = some b)
    (hmeet : s.opened = some s.nread → s.parser.pc = .getDate .head) :
    (s.take b).HeaderAhead ∨ (s.take b).parser.inManip = true := by
  obtain ⟨p, hp, hahead⟩ := h
  have hfollow : ∀ k < scanHeader.length, s.nread = p + k →
      s.parser.pc = .getDate (headerPc k) →
      (s.take b).HeaderAhead ∨ (s.take b).parser.inManip = true := by
    intro k hk hread hpc
    have hsym : scanHeader[k]? = some b := by rw [← hheader p hp k hk, ← hread, hb]
    have hnext := Slam.eaiX4GetDate_headerPc hsym
    have hparser : (s.take b).parser.pc = Slam.eaiX4GetDate (headerPc k) b := by
      rw [System.take, Slam.step_getDate hpc]
    by_cases hlast : k = 6
    · right
      rw [if_pos hlast] at hnext
      rw [Slam.Parser.inManip, hparser, hnext]
    · left
      rw [if_neg hlast] at hnext
      have hk' : k + 1 < scanHeader.length := by
        have : scanHeader.length = 7 := rfl
        omega
      refine ⟨p, hp, Or.inr ⟨k + 1, hk', ?_, hparser.trans hnext⟩⟩
      rw [System.take, hread, Nat.add_assoc]
  rcases hahead with hle | ⟨k, hk, hread, hpc⟩
  · rcases Nat.lt_or_eq_of_le hle with hlt | heq
    · exact Or.inl ⟨p, hp, Or.inl hlt⟩
    · exact hfollow 0 (by decide) heq (hmeet (heq ▸ hp))
  · exact hfollow k hk hread hpc

/-- A byte read inside `manipulationData` leaves it only by completing the scan. -/
theorem System.take_stays {b : UInt8} (h : s.parser.inManip = true)
    (hct : s.parser.pc = .manip .ct → b = 0x00 ∨ b = 0x01) :
    (s.take b).parser.inManip = true ∨ .putchar 0x65 ∈ (s.take b).out := by
  cases hpc : s.parser.pc with
  | getDate q => rw [Slam.Parser.inManip, hpc] at h; cases h
  | manip q =>
      have hstep := Slam.step_manip hpc b
      rcases Slam.manipulationData_stays (q := q) (s := s.parser) (b := b)
          fun hq => hct (by rw [hpc, hq]) with hstay | hout
      · exact Or.inl (by rw [System.take, hstep]; exact hstay)
      · right
        have hmem : Slam.Effect.putchar 0x65 ∈ stopAndSend := by decide
        rw [System.take, hstep, hout]
        exact hmem

theorem OnCourse.take {b : UInt8} (h : OnCourse s) (hout : s.out = [])
    (hC : Undisturbed s .parser) (hb : s.sent[s.nread]? = some b) : OnCourse (s.take b) where
  nread_le := (List.getElem?_eq_some_iff.mp hb).1
  header := h.header
  served := fun hstreaming hstop => by
    obtain ⟨hct, hmeet⟩ := hC hout
    have hstay := fun hin => System.take_stays (b := b) hin fun hpc => hct hpc b hb
    rcases h.served hstreaming hstop with howes | hahead | hin | hput
    · exact Or.inl howes
    · cases hin : s.parser.inManip with
      | true => exact Or.inr (Or.inr (hstay hin))
      | false =>
          have hmeet' := fun ho => (hmeet ho).resolve_right (by rw [hin]; decide)
          rcases hahead.take h.header hb hmeet' with hahead' | hin'
          · exact Or.inr (Or.inl hahead')
          · exact Or.inr (Or.inr (Or.inl hin'))
    · exact Or.inr (Or.inr (hstay hin))
    · rw [hout] at hput
      cases hput

/-! ## Runs -/

/-- Dropping an output other than the stop byte keeps the course. -/
theorem OnCourse.drop {e : Slam.Effect} {out : List Slam.Effect} (h : OnCourse s)
    (hout : s.out = e :: out) (he : e ≠ .putchar 0x65) : OnCourse { s with out := out } where
  nread_le := h.nread_le
  header := h.header
  served := fun hstreaming hstop => by
    rcases h.served hstreaming hstop with howes | hahead | hin | hput
    · exact Or.inl howes
    · exact Or.inr (Or.inl hahead)
    · exact Or.inr (Or.inr (Or.inl hin))
    · rw [hout] at hput
      exact Or.inr (Or.inr (Or.inr (List.mem_of_ne_of_mem he.symm hput)))

theorem OnCourse.output {e : Slam.Effect} {out : List Slam.Effect} (h : OnCourse s)
    (hout : s.out = e :: out) : OnCourse { s.output e with out := out } := by
  cases e with
  | putchar b =>
      have hput := h.putchar b
      by_cases hb : b = 0x65
      · exact ⟨hput.nread_le, hput.header, fun _ hstop => by simp [System.output, hb] at hstop⟩
      · have hdrop := hput.drop (s := s.putchar b) hout (by simpa using hb)
        exact ⟨hdrop.nread_le, hdrop.header, fun hstreaming hstop =>
          hdrop.served hstreaming (by simpa [System.output, hb] using hstop)⟩
  | eventSend =>
      have hdrop := h.drop hout (by simp)
      rw [System.output, System.eventSend]
      split
      · exact ⟨hdrop.nread_le, hdrop.header, hdrop.served⟩
      · exact ⟨hdrop.nread_le, hdrop.header, hdrop.served⟩
  | circleInc | number | firstpoint | ap | buf | divide => exact h.drop hout (by simp)

theorem OnCourse.parser (h : OnCourse s) (hC : Undisturbed s .parser)
    (hnext : s.stepParser = some s') : OnCourse s' := by
  unfold System.stepParser at hnext
  split at hnext
  case h_1 e out hout =>
    obtain rfl := Option.some.inj hnext
    exact h.output hout
  case h_2 hout =>
    obtain ⟨b, hb, rfl⟩ := Option.map_eq_some_iff.mp hnext
    exact h.take hout hC hb

theorem OnCourse.step {a : Label} (h : OnCourse s) (hC : Undisturbed s a)
    (hnext : s.next a = some s') : OnCourse s' := by
  cases a with
  | answer =>
      obtain ⟨-, hs'⟩ := Option.ite_none_right_eq_some.mp hnext
      obtain rfl := Option.some.inj hs'
      exact h.answer
  | byte b =>
      obtain rfl := Option.some.inj hnext
      exact h.byte b
  | parser => exact h.parser hC hnext
  | master =>
      rcases System.stepMaster_cases hnext with ⟨_, _, _, _, rfl⟩ | ⟨b, _, _, rfl⟩
      · exact ⟨h.nread_le, h.header, h.served⟩
      · have hput := h.putchar b
        exact ⟨hput.nread_le, hput.header, hput.served⟩
  | shell =>
      obtain ⟨b, _, rfl⟩ := System.stepShell_cases hnext
      have hput := h.putchar b
      exact ⟨hput.nread_le, hput.header, hput.served⟩

instance (s : System) : (a : Label) → Decidable (Undisturbed s a)
  | .parser => inferInstanceAs (Decidable (_ → _ ∧ _))
  | .answer | .byte _ | .master | .shell => isTrue trivial

/-- The initial start request is sent and answered, and the lidar then sends `bs`. -/
def started (bs : List UInt8) : List Label :=
  [.shell, .shell, .answer] ++ bs.map .byte

/-- A start packet with the CT byte `ct`. -/
def startBytes (ct : UInt8) : List UInt8 :=
  [0xAA, 0x55, ct, 0x01, 0x51, 0x00, 0x51, 0x00, 0x00, 0x00, 0x10, 0x01]

end Scan
