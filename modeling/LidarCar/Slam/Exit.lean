-- SUMMARY: How the parser enters and leaves manipulationData, and what it sends on the way.
import Mathlib.Tactic.IntervalCases
import LidarCar.Slam.Points

/-!
# Entering and leaving manipulationData

The parser enters `manipulationData` on the last byte of a scan header. It leaves
on an unknown CT byte, or on the CT byte that completes a scan; only then does it
send anything.
-/

namespace Slam

/-- What a completed scan sends, in program order. -/
def stopAndSend : List Effect :=
  [.putchar 0xA5, .putchar 0x65, .eventSend]

/-! ## Outputs -/

/-- What is left to send begins with the first byte of the stop, with its second
byte, or with the event. -/
theorem stopAndSend_suffix_cons {e : Effect} {out : List Effect} (h : e :: out <:+ stopAndSend) :
    (e = .putchar 0xA5 ∧ out = [.putchar 0x65, .eventSend]) ∨
      (e = .putchar 0x65 ∧ out = [.eventSend]) ∨ (e = .eventSend ∧ out = []) := by
  simpa [stopAndSend, List.suffix_cons_iff] using h

theorem recordPoints_outputs (p : PackAge) (g : Globals) :
    (recordPoints p g).2.filter Effect.isOutput = [] := by
  rw [recordPoints_eq, List.filter_eq_nil_iff]
  intro e he
  rcases List.mem_cons.mp he with rfl | he
  · simp [Effect.isOutput]
  · obtain ⟨slot, rfl⟩ := Globals.storePoints_effects he
    simp [Effect.isOutput]

theorem sampleLoop_outputs (s : Parser) (i : Nat) :
    (sampleLoop s i).2.filter Effect.isOutput = [] := by
  unfold sampleLoop
  split
  · rfl
  · exact recordPoints_outputs s.package s.toGlobals

theorem openTurn_outputs (g : Globals) : g.openTurn.2.filter Effect.isOutput = [] := by
  unfold Globals.openTurn
  dsimp only
  split <;> rfl

/-- A start packet's CT byte either completes the scan or sends nothing. -/
theorem startPacket_outputs (s : Parser) :
    ((startPacket s).2.filter Effect.isOutput = stopAndSend ∧
        (startPacket s).1.pc = .getDate .head) ∨
      ((startPacket s).2.filter Effect.isOutput = [] ∧
        (startPacket s).1.inManip = true) := by
  unfold startPacket
  dsimp only
  split
  · left
    rw [List.filter_append, openTurn_outputs]
    exact ⟨rfl, rfl⟩
  · exact Or.inr ⟨openTurn_outputs s.toGlobals, rfl⟩

/-- `manipulationData` sends nothing, or all that a completed scan sends and leaves. -/
theorem manipulationData_outputs (q : ManipPc) (s : Parser) (b : UInt8) :
    (manipulationData q s b).2.filter Effect.isOutput = [] ∨
      ((manipulationData q s b).2.filter Effect.isOutput = stopAndSend ∧
        (manipulationData q s b).1.pc = .getDate .head) := by
  cases q with
  | ct =>
      simp only [manipulationData]
      split_ifs
      · exact Or.inl rfl
      · exact (startPacket_outputs s).symm.imp And.left id
      · exact Or.inl rfl
  | field k f =>
      left
      cases hf : f.next <;> cases k <;> simp [manipulationData, hf, sampleLoop_outputs]
  | bufShift i =>
      left
      simp [manipulationData, Effect.isOutput, sampleLoop_outputs]
  | _ => exact Or.inl (by simp [manipulationData, Effect.isOutput])

theorem any_isEvent_eq (es : List Effect) :
    es.any Effect.isEvent = (es.filter Effect.isOutput).any Effect.isEvent := by
  rw [List.any_filter]
  congr 1
  funext e
  cases e <;> rfl

/-! ## EAI_X4_GetDate -/

/-- `EAI_X4_GetDate` itself has no effects. -/
theorem step_getDate {s : Parser} {q : GetDatePc} (hpc : s.pc = .getDate q) (b : UInt8) :
    step s b = ({ s with pc := eaiX4GetDate q b }, []) := by
  rw [step, hpc]

theorem step_manip {s : Parser} {q : ManipPc} (hpc : s.pc = .manip q) (b : UInt8) :
    step s b = manipulationData q s b := by
  rw [step, hpc]

theorem Parser.getDate_of_not_inManip {s : Parser} (h : s.inManip = false) :
    ∃ q, s.pc = .getDate q := by
  unfold Parser.inManip at h
  split at h
  · cases h
  · exact ⟨_, by assumption⟩

/-- `manipulationData` is entered on the last byte of a scan reply. -/
theorem eaiX4GetDate_enters {q : GetDatePc} {b : UInt8} {m : ManipPc}
    (h : eaiX4GetDate q b = .manip m) : ∃ got, q = .reply got ∧ got ++ [b] = scanReply := by
  cases q with
  | reply got =>
      refine ⟨got, rfl, ?_⟩
      simp only [eaiX4GetDate, afterReply] at h
      split_ifs at h with hlen hscan
      exact hscan
  | _ => simp [eaiX4GetDate] at h

theorem eaiX4GetDate_head2 {q : GetDatePc} {b : UInt8}
    (h : eaiX4GetDate q b = .getDate .head2) : b = 0xA5 := by
  cases q with
  | head =>
      simp only [eaiX4GetDate, Pc.getDate.injEq] at h
      split_ifs at h with hb
      exact hb
  | reply got =>
      simp only [eaiX4GetDate, afterReply] at h
      split_ifs at h <;> cases h
  | _ =>
      simp only [eaiX4GetDate, Pc.getDate.injEq] at h
      split_ifs at h

/-- A reply begins after `A5 5A` and grows by the bytes read. -/
theorem eaiX4GetDate_reply {q : GetDatePc} {b : UInt8} {got : List UInt8}
    (h : eaiX4GetDate q b = .getDate (.reply got)) :
    (q = .head2 ∧ b = 0x5A ∧ got = []) ∨ ∃ got₀, q = .reply got₀ ∧ got = got₀ ++ [b] := by
  cases q with
  | head2 =>
      left
      simp only [eaiX4GetDate, Pc.getDate.injEq] at h
      split_ifs at h with hb
      exact ⟨rfl, hb, (GetDatePc.reply.inj h).symm⟩
  | reply got₀ =>
      right
      simp only [eaiX4GetDate, afterReply] at h
      split_ifs at h with hlen
      · exact ⟨got₀, rfl, (GetDatePc.reply.inj (Pc.getDate.inj h)).symm⟩
      all_goals cases h
  | _ =>
      simp only [eaiX4GetDate, Pc.getDate.injEq] at h
      split_ifs at h

/-- The call of `eaix4_getchar` that reads the `k`-th byte of a scan header. -/
def headerPc : Nat → GetDatePc
  | 0 => .head
  | 1 => .head2
  | k + 2 => .reply (scanReply.take k)

/-- A scan header met in the hunting state is followed to its end. -/
theorem eaiX4GetDate_headerPc {k : Nat} {b : UInt8} (hb : scanHeader[k]? = some b) :
    eaiX4GetDate (headerPc k) b =
      if k = 6 then .manip .head else .getDate (headerPc (k + 1)) := by
  have hk : k < 7 := (List.getElem?_eq_some_iff.mp hb).1
  interval_cases k <;> cases hb <;> decide

/-! ## Staying in manipulationData -/

theorem sampleLoop_inManip (s : Parser) (i : Nat) : (sampleLoop s i).1.inManip = true := by
  unfold sampleLoop
  split <;> rfl

/-- Only the CT byte leads out of `manipulationData`. -/
theorem manipulationData_inManip {q : ManipPc} (hq : q ≠ .ct) (s : Parser) (b : UInt8) :
    (manipulationData q s b).1.inManip = true := by
  cases q with
  | ct => exact absurd rfl hq
  | field k f =>
      cases hf : f.next <;> cases k <;> simp only [manipulationData, hf] <;>
        first | exact sampleLoop_inManip _ _ | rfl
  | bufShift i => exact sampleLoop_inManip _ _
  | head => unfold manipulationData; rfl
  | head2 => unfold manipulationData; rfl
  | buf i => rfl
  | buf0 => rfl
  | buf0Shift => rfl

/-- With a known CT byte `manipulationData` goes on or completes the scan. -/
theorem manipulationData_stays {q : ManipPc} {s : Parser} {b : UInt8}
    (hct : q = .ct → b = 0x00 ∨ b = 0x01) :
    (manipulationData q s b).1.inManip = true ∨
      (manipulationData q s b).2.filter Effect.isOutput = stopAndSend := by
  by_cases hq : q = .ct
  · subst hq
    rcases hct rfl with rfl | rfl
    · exact Or.inl rfl
    · exact (startPacket_outputs s).symm.imp And.right And.left
  · exact Or.inl (manipulationData_inManip hq s b)

/-- `manipulationData` goes on, or `EAI_X4_GetDate` hunts for the next header. -/
theorem manipulationData_pc (q : ManipPc) (s : Parser) (b : UInt8) :
    (manipulationData q s b).1.inManip = true ∨
      (manipulationData q s b).1.pc = .getDate .head := by
  by_cases hq : q = .ct
  · subst hq
    simp only [manipulationData]
    split_ifs
    · exact Or.inl rfl
    · exact (startPacket_outputs s).symm.imp And.right And.right
    · exact Or.inr rfl
  · exact Or.inl (manipulationData_inManip hq s b)

end Slam
