-- SUMMARY: Finding the first header behind garbage, by manipulationData and by EAI_X4_GetDate.
import LidarCar.Base.Hunt
import LidarCar.Slam.Exit
import LidarCar.Slam.Packet

/-!
# Resynchronisation

Both loops of `EAI_X4.c` hunt for a two-byte header with two nested reads. They
miss the first header behind an odd run of its first byte.
-/

namespace Slam

open Hunt (Garbage Hunts trailing)

/-- The packet buffer, `around`, `circle` and `count` are the same. -/
def Parser.SameMemory (s t : Parser) : Prop :=
  s.package = t.package ∧ s.toGlobals = t.toGlobals

/-- Behind the garbage `g` the hunting state reads a packet as it does alone. -/
def FindsPacket (g : List UInt8) : Prop :=
  Garbage 0xAA 0x55 g → ∀ (s : Parser) (p : Packet), s.pc = .manip .head →
    (parse s (g ++ p.bytes)).1.SameMemory (parse s p.bytes).1

/-- Behind the garbage `g` the hunt of `EAI_X4_GetDate` reads a response as it does
alone. -/
def FindsResponse (g : List UInt8) : Prop :=
  Garbage 0xA5 0x5A g → ∀ (s : Parser) (response : List UInt8), s.pc = .getDate .head →
    parse s (g ++ 0xA5 :: 0x5A :: response) = parse s (0xA5 :: 0x5A :: response)

/-! ## The two hunts -/

/-- `manipulationData` after `0xAA`. -/
def Parser.atHead2 (s : Parser) : Parser :=
  { s with pc := .manip .head2 }

/-- `EAI_X4_GetDate` after `0xA5`. -/
def Parser.atReplyHead2 (s : Parser) : Parser :=
  { s with pc := .getDate .head2 }

theorem Parser.eq_of_pc {s : Parser} {pc : Pc} (h : s.pc = pc) : { s with pc := pc } = s := by
  rw [← h]

theorem manip_hunts {s : Parser} (h : s.pc = .manip .head) :
    Hunts step 0xAA 0x55 s s.atHead2 where
  first := by
    intro b
    have hstep : step s b = ({ s with pc := .manip (if b = 0xAA then .head2 else .head) }, []) :=
      step_manip h b
    rw [hstep]
    split
    · rfl
    · rw [Parser.eq_of_pc h]
  second := by
    intro b hb
    have hstep : step s.atHead2 b =
        ({ s with pc := .manip (if b = 0x55 then .ct else .head) }, []) := rfl
    rw [hstep, if_neg hb, Parser.eq_of_pc h]

theorem getDate_hunts {s : Parser} (h : s.pc = .getDate .head) :
    Hunts step 0xA5 0x5A s s.atReplyHead2 where
  first := by
    intro b
    have hstep : step s b = ({ s with pc := .getDate (if b = 0xA5 then .head2 else .head) }, []) :=
      step_getDate h b
    rw [hstep]
    split
    · rfl
    · rw [Parser.eq_of_pc h]
  second := by
    intro b hb
    have hstep : step s.atReplyHead2 b =
        ({ s with pc := .getDate (if b = 0x5A then .reply [] else .head) }, []) := rfl
    rw [hstep, if_neg hb, Parser.eq_of_pc h]

/-! ## Behind garbage -/

/-- A parser that hunts for its first packet. -/
def hunting : Parser :=
  { powerUp with pc := .manip .head }

/-- An odd run of `0xAA` makes the parser miss a start packet. -/
theorem not_findsPacket {g : List UInt8} (hg : Garbage 0xAA 0x55 g)
    (hodd : ¬ Even (trailing 0xAA g)) : ¬ FindsPacket g := by
  intro hfinds
  have hsame := (hfinds hg hunting (.start blankStart) rfl).2
  have hmissed := (manip_hunts (s := hunting) rfl).run_append_of_odd hg.1 hodd
    (Packet.start blankStart).bytes
  rw [parse, hmissed] at hsame
  have hcircle := congrArg Globals.circle hsame
  exact absurd hcircle (by decide)

theorem not_findsResponse {g : List UInt8} (hg : Garbage 0xA5 0x5A g)
    (hodd : ¬ Even (trailing 0xA5 g)) : ¬ FindsResponse g := by
  intro hfinds
  have hsame := hfinds hg powerUp scanReply rfl
  have hmissed := (getDate_hunts (s := powerUp) rfl).run_append_of_odd hg.1 hodd scanHeader
  have hpc := congrArg (fun r => r.1.inManip) (hmissed.symm.trans hsame)
  exact absurd hpc (by decide)

/-- The first header behind garbage is found exactly if the garbage ends with an
even number of the header's first byte. -/
theorem resync_iff (g : List UInt8) :
    (FindsPacket g ↔ (Garbage 0xAA 0x55 g → Even (trailing 0xAA g))) ∧
      (FindsResponse g ↔ (Garbage 0xA5 0x5A g → Even (trailing 0xA5 g))) := by
  refine ⟨⟨fun hfinds hg => ?_, fun heven hg s p hs => ?_⟩,
    ⟨fun hfinds hg => ?_, fun heven hg s response hs => ?_⟩⟩
  · by_contra hodd
    exact not_findsPacket hg hodd hfinds
  · rw [parse, (manip_hunts hs).run_append_of_even hg.1 (heven hg)]
    exact ⟨rfl, rfl⟩
  · by_contra hodd
    exact not_findsResponse hg hodd hfinds
  · exact (getDate_hunts hs).run_append_of_even hg.1 (heven hg) _

/-- One `0xAA` too many hides a packet, and one `0xA5` a response. -/
theorem repeated_byte_not_found : ¬ FindsPacket [0xAA] ∧ ¬ FindsResponse [0xA5] := by
  constructor
  · exact not_findsPacket ((Hunt.garbage_iff (by decide)).mpr (by decide)) (by decide)
  · exact not_findsResponse ((Hunt.garbage_iff (by decide)).mpr (by decide)) (by decide)

end Slam
