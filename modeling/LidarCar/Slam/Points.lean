-- SUMMARY: The points a point packet contributes, and the memory after storing a list of points.
import Mathlib.Tactic.Ring
import LidarCar.Slam.Parser

/-!
# Points of a packet

The loops at the end of a point packet store one point for each nonzero sample.
Stated through the list of those points, recording a packet is storing a list,
and its effect on `around` no longer mentions the loops.
-/

namespace Slam

/-- The points that the samples of the packet buffer contribute, in order. -/
def PackAge.points (p : PackAge) : List AroundPoint :=
  (List.range p.lsn.toNat).filterMap fun i =>
    if p.buf i ≠ 0 then
      some { angle := sampleAngle p.fsa p.lsa p.lsn i, distance := p.buf i }
    else
      none

/-- Storing a list of points one after the other. -/
def Globals.storePoints (g : Globals) (pts : List AroundPoint) : Globals × List Effect :=
  Machine.run Globals.storePoint g pts

theorem recordPoints_eq (p : PackAge) (g : Globals) :
    recordPoints p g =
      ((g.storePoints p.points).1, .divide p.lsn :: (g.storePoints p.points).2) := by
  have h : Machine.run (recordSample p) g (List.range p.lsn.toNat) = g.storePoints p.points := by
    apply Machine.run_filterMap
    intro g i
    by_cases hi : p.buf i = 0
    · simp [recordSample, hi]
    · simp [recordSample, hi]
  simp only [recordPoints, h]

theorem PackAge.points_eq_nil_iff (p : PackAge) :
    p.points = [] ↔ ∀ i < p.lsn.toNat, p.buf i = 0 := by
  simp [PackAge.points, List.filterMap_eq_nil_iff]

/-! ## Effects -/

theorem Globals.storePoints_effects {g : Globals} {pts : List AroundPoint} {e : Effect}
    (he : e ∈ (g.storePoints pts).2) : ∃ slot, e = .ap (g.circle.toInt - 1) slot := by
  induction pts generalizing g with
  | nil => cases he
  | cons pt pts ih =>
      rw [Globals.storePoints, Machine.run_cons, List.mem_append] at he
      rcases he with he | he
      · exact ⟨g.count.toInt, by simpa using he⟩
      · simpa using ih he

/-- Storing anything at all accesses the current turn. -/
theorem Globals.exists_storePoints_effect {g : Globals} {pts : List AroundPoint}
    (h : pts ≠ []) : ∃ slot, .ap (g.circle.toInt - 1) slot ∈ (g.storePoints pts).2 := by
  cases pts with
  | nil => exact absurd rfl h
  | cons pt pts => exact ⟨g.count.toInt, by simp [Globals.storePoints]⟩

/-! ## Memory -/

@[simp] theorem Globals.storePoints_nil (g : Globals) : (g.storePoints []).1 = g := rfl

@[simp] theorem Globals.storePoints_cons (g : Globals) (pt : AroundPoint)
    (pts : List AroundPoint) :
    (g.storePoints (pt :: pts)).1 = ((g.storePoint pt).1.storePoints pts).1 := rfl

@[simp] theorem Globals.storePoints_circle (g : Globals) (pts : List AroundPoint) :
    (g.storePoints pts).1.circle = g.circle :=
  Machine.run_invariant (I := fun g' : Globals => g'.circle = g.circle) (fun _ _ h => h) rfl pts

/-- Only the current turn changes. -/
theorem Globals.storePoints_around_ne (g : Globals) (pts : List AroundPoint) {turn : Int}
    (h : turn ≠ g.circle.toInt - 1) : (g.storePoints pts).1.around turn = g.around turn := by
  induction pts generalizing g with
  | nil => rfl
  | cons pt pts ih =>
      rw [Globals.storePoints_cons, ih (g.storePoint pt).1 h]
      exact Function.update_of_ne h _ _

/-- As long as the counter does not wrap it counts the points. -/
theorem Globals.storePoints_count {g : Globals} {pts : List AroundPoint}
    (h0 : 0 ≤ g.count.toInt) (h : g.count.toInt + pts.length < 2 ^ 15) :
    (g.storePoints pts).1.count.toInt = g.count.toInt + pts.length := by
  induction pts generalizing g with
  | nil => simp
  | cons pt pts ih =>
      rw [List.length_cons, Nat.cast_add_one] at h ⊢
      have hnext : (g.storePoint pt).1.count.toInt = g.count.toInt + 1 := by
        rw [Globals.storePoint_count, Int16.toInt_ofInt_of_le] <;> omega
      rw [Globals.storePoints_cons, ih (by omega) (by omega), hnext]
      ring

/-- `ap` holds the list `pts` from its first slot on. -/
def Around.Holds (a : Around) (pts : List AroundPoint) : Prop :=
  ∀ i (h : i < pts.length), a.ap (i : Int) = pts[i]

/-- Storing a point appends it to what the current turn holds. -/
theorem Globals.storePoint_holds {g : Globals} {held : List AroundPoint} (pt : AroundPoint)
    (hcount : g.count.toInt = held.length)
    (h : (g.around (g.circle.toInt - 1)).Holds held) :
    ((g.storePoint pt).1.around (g.circle.toInt - 1)).Holds (held ++ [pt]) := by
  intro i hi
  simp only [Globals.storePoint, Function.update_self, hcount]
  by_cases hlast : i = held.length
  · subst hlast
    simp
  · have hlt : i < held.length := by
      rw [List.length_append, List.length_singleton] at hi
      omega
    rw [Function.update_of_ne (by omega), h i hlt, List.getElem_append_left hlt]

/-- Storing a list appends it to what the current turn holds. -/
theorem Globals.storePoints_holds {g : Globals} {held pts : List AroundPoint}
    (hcount : g.count.toInt = held.length) (hlen : held.length + pts.length < 2 ^ 15)
    (h : (g.around (g.circle.toInt - 1)).Holds held) :
    ((g.storePoints pts).1.around (g.circle.toInt - 1)).Holds (held ++ pts) := by
  induction pts generalizing g held with
  | nil => simpa using h
  | cons pt pts ih =>
      rw [List.length_cons] at hlen
      have hnext : (g.storePoint pt).1.count.toInt = (held ++ [pt]).length := by
        rw [Globals.storePoint_count, Int16.toInt_ofInt_of_le] <;> simp <;> omega
      have hholds := ih (g := (g.storePoint pt).1) hnext
        (by simp only [List.length_append, List.length_singleton]; omega)
        (g.storePoint_holds pt hcount h)
      rw [Globals.storePoints_cons]
      simpa using hholds

end Slam
