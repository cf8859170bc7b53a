-- SUMMARY: When the parser sends its event: how many bytes and how many start packets away it is.
import LidarCar.Slam.Access
import LidarCar.Slam.Exit

/-!
# The completion of a scan

`rt_event_send` has one place in the parser, after the CT byte of a start packet
that finds `circle` at 5. So the bytes and the start packets up to the event can
be bounded from the parser's state, whatever the stream is.
-/

namespace Slam

/-! ## Steps and their event -/

theorem isEvent_of_outputs {es : List Effect} (h : es.filter Effect.isOutput = []) :
    es.any Effect.isEvent = false := by
  rw [any_isEvent_eq, h]
  rfl

@[simp] theorem bufEffects_isEvent (i n : Nat) :
    (bufEffects i n).any Effect.isEvent = false := by
  induction n generalizing i with
  | zero => rfl
  | succ n ih => simp [bufEffects, Effect.isEvent, ih]

@[simp] theorem recordPoints_isEvent (p : PackAge) (g : Globals) :
    (recordPoints p g).2.any Effect.isEvent = false :=
  isEvent_of_outputs (recordPoints_outputs p g)

@[simp] theorem openTurn_isEvent (g : Globals) : g.openTurn.2.any Effect.isEvent = false :=
  isEvent_of_outputs (openTurn_outputs g)

@[simp] theorem sampleLoop_isEvent (s : Parser) (i : Nat) :
    (sampleLoop s i).2.any Effect.isEvent = false :=
  isEvent_of_outputs (sampleLoop_outputs s i)

/-- Only a start packet's CT byte can send the event. -/
theorem step_isEvent {s : Parser} {b : UInt8} (h : (step s b).2.any Effect.isEvent = true) :
    s.pc = .manip .ct ∧ b = 0x01 := by
  unfold step at h
  split at h
  · simp at h
  · next q hq =>
      rw [hq]
      cases q with
      | ct =>
          refine ⟨rfl, by_contra fun hb => ?_⟩
          by_cases h0 : b = 0
          · simp [manipulationData, h0] at h
          · simp [manipulationData, h0, hb] at h
      | field k f => cases hf : f.next <;> cases k <;> simp [manipulationData, hf] at h
      | bufShift i => simp [manipulationData, Effect.isEvent] at h
      | _ => simp [manipulationData, Effect.isEvent] at h

/-! ## Bytes up to the event -/

/-- A lower bound on the number of bytes up to the next `rt_event_send`. -/
def Pc.eventDistance : Pc → Nat
  | .getDate .head | .getDate (.version _) | .getDate (.health _) => 10
  | .getDate .head2 => 9
  | .getDate (.reply got) => 8 - got.length
  | .manip .head2 => 2
  | .manip .ct => 1
  | .manip _ => 3

theorem afterReply_eventDistance (reply : List UInt8) : 3 ≤ (afterReply reply).eventDistance := by
  unfold afterReply
  split
  · exact le_rfl
  · split
    · exact (by decide : 3 ≤ 10)
    · split <;> exact (by decide : 3 ≤ 10)

theorem sampleLoop_eventDistance (s : Parser) (i : Nat) :
    (sampleLoop s i).1.pc.eventDistance = 3 := by
  unfold sampleLoop
  split <;> rfl

/-- One byte brings the event at most one byte closer. -/
theorem step_eventDistance (s : Parser) (b : UInt8) :
    s.pc.eventDistance ≤ (step s b).1.pc.eventDistance + 1 := by
  unfold step
  split
  · next q hq =>
      rw [hq]
      cases q with
      | head => by_cases hb : b = 0xA5 <;> simp [eaiX4GetDate, Pc.eventDistance, hb]
      | head2 => by_cases hb : b = 0x5A <;> simp [eaiX4GetDate, Pc.eventDistance, hb]
      | reply got =>
          have hafter := afterReply_eventDistance (got ++ [b])
          dsimp only [eaiX4GetDate]
          split
          · simp only [Pc.eventDistance, List.length_append, List.length_singleton]
            omega
          · next hlen =>
              rw [List.length_append, List.length_singleton] at hlen
              simp only [Pc.eventDistance] at hafter ⊢
              omega
      | version i => by_cases hi : i + 1 < 20 <;> simp [eaiX4GetDate, Pc.eventDistance, hi]
      | health i => by_cases hi : i + 1 < 3 <;> simp [eaiX4GetDate, Pc.eventDistance, hi]
  · next q hq =>
      rw [hq]
      cases q with
      | head => by_cases hb : b = 0xAA <;> simp [manipulationData, Pc.eventDistance, hb]
      | head2 => by_cases hb : b = 0x55 <;> simp [manipulationData, Pc.eventDistance, hb]
      | ct => exact Nat.le_add_left 1 _
      | field k f =>
          have hloop := sampleLoop_eventDistance { s with package := readField f s.package b } 0
          cases hf : f.next with
          | some f' => simp [manipulationData, hf, Pc.eventDistance]
          | none =>
              cases k with
              | point =>
                  simp only [manipulationData, hf, hloop]
                  exact Nat.le_succ 3
              | start => simp [manipulationData, hf, Pc.eventDistance]
      | bufShift i =>
          have hloop := sampleLoop_eventDistance
            { s with package := s.package.setBuf i (b.toUInt16 <<< 8) } (i + 1)
          simp only [manipulationData, hloop]
          exact Nat.le_succ 3
      | _ => simp [manipulationData, Pc.eventDistance]

/-- Fewer bytes than the distance send no event. -/
theorem parse_noEvent_of_short {s : Parser} {bs : List UInt8}
    (h : bs.length < s.pc.eventDistance) : (parse s bs).2.any Effect.isEvent = false := by
  induction bs generalizing s with
  | nil => rfl
  | cons b bs ih =>
      have hstep := step_eventDistance s b
      rw [List.length_cons] at h
      simp only [parse, Machine.run_cons, List.any_append, Bool.or_eq_false_iff]
      refine ⟨Bool.eq_false_iff.mpr fun hev => ?_, ih (by omega)⟩
      rw [(step_isEvent hev).1] at h
      simp only [Pc.eventDistance] at h
      omega

/-! ## Start packets up to the event -/

/-- The number of start packets in the effects of a run. -/
def startCount (es : List Effect) : Nat := es.count .circleInc

theorem startCount_append (es fs : List Effect) :
    startCount (es ++ fs) = startCount es + startCount fs :=
  List.count_append

theorem openTurn_startCount (g : Globals) : startCount g.openTurn.2 = 1 := by
  unfold Globals.openTurn
  dsimp only
  split <;> rfl

theorem recordPoints_startCount (p : PackAge) (g : Globals) :
    startCount (recordPoints p g).2 = 0 := by
  rw [recordPoints_eq, startCount, List.count_eq_zero, List.mem_cons, not_or]
  refine ⟨nofun, fun hmem => ?_⟩
  obtain ⟨slot, h⟩ := Globals.storePoints_effects hmem
  cases h

theorem sampleLoop_startCount (s : Parser) (i : Nat) :
    startCount (sampleLoop s i).2 = 0 ∧ (sampleLoop s i).1.circle = s.circle := by
  unfold sampleLoop
  split
  · exact ⟨rfl, rfl⟩
  · exact ⟨recordPoints_startCount _ _, recordPoints_circle _ _⟩

/-- A step counts its start packet in `circle`; the event finds `circle` at 6. -/
theorem step_startCount {s : Parser} (h : s.CircleOk) (b : UInt8) :
    s.circle.toInt + startCount (step s b).2 =
      if (step s b).2.any Effect.isEvent then 6 else (step s b).1.circle.toInt := by
  unfold step
  split
  · simp [startCount]
  · next q hq =>
      cases q with
      | ct =>
          dsimp only [manipulationData]
          split
          · simp [startCount]
          · split
            · have hopen := Globals.openTurn_circle h.ge h.le
              have hcount := openTurn_startCount s.toGlobals
              unfold startPacket
              dsimp only
              split
              · next h6 =>
                  rw [h6] at hopen
                  rw [startCount_append, hcount]
                  simp only [List.any_append, openTurn_isEvent, Bool.false_or]
                  simpa [startCount, Effect.isEvent] using hopen.symm
              · simp [hcount, hopen]
            · simp [startCount]
      | field k f =>
          have hloop := sampleLoop_startCount { s with package := readField f s.package b } 0
          cases hf : f.next <;> cases k <;>
            simp_all [manipulationData, startCount]
      | bufShift i =>
          have hloop := sampleLoop_startCount
            { s with package := s.package.setBuf i (b.toUInt16 <<< 8) } (i + 1)
          simp_all [manipulationData, startCount, Effect.isEvent]
      | _ => simp [manipulationData, startCount, Effect.isEvent, Globals.storeFirstpoint]

/-- The next event comes with start packet `6 - circle`, on every stream. -/
theorem runTo_startCount {s t : Parser} {bs : List UInt8} {es : List Effect} (h : s.CircleOk)
    (hrun : Machine.runTo step Effect.isEvent s bs = some (t, es)) :
    s.circle.toInt + startCount es = 6 := by
  induction bs generalizing s es with
  | nil => cases hrun
  | cons b bs ih =>
      have hcount := step_startCount h b
      by_cases hev : (step s b).2.any Effect.isEvent = true
      · rw [Machine.runTo_cons_stop hev] at hrun
        rw [hev, Option.some.inj hrun, if_pos rfl] at hcount
        exact hcount
      · rw [if_neg hev] at hcount
        simp only [Machine.runTo, hev, Bool.false_eq_true, if_false, Option.map_eq_some_iff,
          Prod.mk.injEq] at hrun
        obtain ⟨⟨t', es'⟩, hrest, rfl, rfl⟩ := hrun
        have := ih (step_circleOk s b h) hrest
        rw [startCount_append]
        push_cast
        omega

end Slam
