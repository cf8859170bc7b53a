-- SUMMARY: The encoder counters: how they are sampled and cleared, and the edges that fall between.
import Mathlib.Algebra.BigOperators.Group.List.Basic
import Mathlib.Tactic.Linarith
import Mathlib.Tactic.Ring
import LidarCar.Base.Transition

/-!
# Sampling the encoders

The encoders move two 16-bit counters. `getspeedcounter` reads the counters one
after the other and `setcounterzero` then clears them, while the wheels turn.
-/

namespace Drive

open Transition (Reach)

/-! ## One counter -/

inductive Direction where
  | up
  | down
  deriving DecidableEq, Repr

/-- What an edge in this direction adds to the position. -/
def Direction.value : Direction → Int
  | .up => 1
  | .down => -1

/-- A counter, with what the edges have done to it. -/
structure Encoder where
  /-- The 16 bits of `CNT`. -/
  counter : UInt16
  /-- History: the net number of edges. -/
  net : Int
  /-- History: the net number of edges since the counter was last cleared. -/
  window : Int
  /-- History: the net number of edges that came after the counter had been read
  and before it was cleared. -/
  lost : Int
  deriving DecidableEq, Repr

/-- `__HAL_TIM_GET_COUNTER`. -/
def Encoder.getCounter (e : Encoder) : UInt32 :=
  e.counter.toUInt32

/-- `__HAL_TIM_SET_COUNTER(.., 0)`. -/
def Encoder.setCounterZero (e : Encoder) : Encoder :=
  { e with counter := 0, window := 0 }

/-- An edge, which comes `late` if the counter has been read and not yet cleared. -/
def Encoder.edge (e : Encoder) (late : Bool) (d : Direction) : Encoder where
  counter := if d = .up then e.counter + 1 else e.counter - 1
  net := e.net + d.value
  window := e.window + d.value
  lost := if late then e.lost + d.value else e.lost

/-- `TIM_abphase_Init`. -/
def Encoder.init : Encoder where
  counter := 0
  net := 0
  window := 0
  lost := 0

/-! ## The sampling loop -/

/-- The statements of `getspeedcounter` and `setcounterzero`. Before the first of
them the loop is between two samplings. -/
inductive SamplingPc where
  /-- `*speed1 = __HAL_TIM_GET_COUNTER(&TIM3_Handler)` -/
  | speed1
  /-- `*speed2 = 0 - __HAL_TIM_GET_COUNTER(&TIM8_Handler)` -/
  | speed2
  /-- `__HAL_TIM_SET_COUNTER(&TIM3_Handler, 0)` -/
  | zero3
  /-- `__HAL_TIM_SET_COUNTER(&TIM8_Handler, 0)` -/
  | zero8
  deriving DecidableEq, Repr

/-- TIM3 has been read and not yet cleared. -/
def SamplingPc.late3 : SamplingPc → Bool
  | .speed2 | .zero3 => true
  | .speed1 | .zero8 => false

/-- TIM8 has been read and not yet cleared. -/
def SamplingPc.late8 : SamplingPc → Bool
  | .zero3 | .zero8 => true
  | .speed1 | .speed2 => false

structure Sampling where
  pc : SamplingPc
  tim3 : Encoder
  tim8 : Encoder
  /-- The samples `speed1` so far. -/
  speeds1 : List Int16
  /-- The samples `speed2` so far. -/
  speeds2 : List Int16
  deriving DecidableEq, Repr

inductive SamplingLabel where
  /-- An edge on the encoder at TIM3. -/
  | edge3 (d : Direction)
  /-- An edge on the encoder at TIM8. -/
  | edge8 (d : Direction)
  /-- The next statement of the loop. -/
  | loop
  deriving DecidableEq, Repr

/-- One statement of the loop. -/
def Sampling.statement (s : Sampling) : Sampling :=
  match s.pc with
  | .speed1 =>
    { s with speeds1 := s.speeds1 ++ [s.tim3.getCounter.toUInt16.toInt16], pc := .speed2 }
  | .speed2 =>
    { s with speeds2 := s.speeds2 ++ [(0 - s.tim8.getCounter).toUInt16.toInt16], pc := .zero3 }
  | .zero3 => { s with tim3 := s.tim3.setCounterZero, pc := .zero8 }
  | .zero8 => { s with tim8 := s.tim8.setCounterZero, pc := .speed1 }

def Sampling.next (s : Sampling) : SamplingLabel → Option Sampling
  | .edge3 d => some { s with tim3 := s.tim3.edge s.pc.late3 d }
  | .edge8 d => some { s with tim8 := s.tim8.edge s.pc.late8 d }
  | .loop => some s.statement

def Sampling.init : Sampling where
  pc := .speed1
  tim3 := .init
  tim8 := .init
  speeds1 := []
  speeds2 := []

/-- The sum of a list of samples. -/
def total (speeds : List Int16) : Int :=
  (speeds.map Int16.toInt).sum

theorem total_concat (speeds : List Int16) (v : Int16) :
    total (speeds ++ [v]) = total speeds + v.toInt := by
  simp [total]

/-- The net count of a window fits its sample, with either sign. -/
def Moderate (count : Int) : Prop :=
  -32768 < count ∧ count < 32768

instance (count : Int) : Decidable (Moderate count) :=
  inferInstanceAs (Decidable (_ ∧ _))

/-- The window that the step reads is in range. -/
def Sampling.InRange (s : Sampling) : SamplingLabel → Prop
  | .edge3 _ | .edge8 _ => True
  | .loop => (s.pc = .speed1 → Moderate s.tim3.window) ∧ (s.pc = .speed2 → Moderate s.tim8.window)

/-! ## What the counters hold -/

theorem toInt16_ofInt (w : Int) : (UInt16.ofInt w).toInt16 = .ofInt w := by
  apply Int16.toBitVec_inj.mp
  apply BitVec.eq_of_toNat_eq
  simp [UInt16.ofInt, BitVec.ofInt]
  omega

/-- The counter holds its window, and the edges are those of the samples so far,
those that were lost, and those of the window unless it has been read. -/
structure Encoder.Accounts (e : Encoder) (late : Bool) (sampled : Int) : Prop where
  counter : e.counter = .ofInt e.window
  net : e.net = sampled + e.lost + if late then 0 else e.window

section Accounts

variable {e : Encoder} {late : Bool} {sampled : Int}

theorem Encoder.Accounts.edge (h : e.Accounts late sampled) (d : Direction) :
    (e.edge late d).Accounts late sampled := by
  obtain ⟨hcounter, hnet⟩ := h
  constructor
  case counter =>
    cases d with
    | up => simp [Encoder.edge, Direction.value, hcounter]
    | down => simp [Encoder.edge, Direction.value, hcounter, UInt16.sub_eq_add_neg]
  case net =>
    simp only [Encoder.edge, hnet]
    cases late with
    | true =>
        simp only [if_true]
        ring
    | false =>
        simp only [Bool.false_eq_true, if_false]
        ring

/-- A read moves the window to the samples. -/
theorem Encoder.Accounts.read (h : e.Accounts false sampled) :
    e.Accounts true (sampled + e.window) := by
  refine ⟨h.counter, ?_⟩
  rw [h.net, if_neg Bool.false_ne_true, if_pos rfl]
  ring

/-- A clear begins the next window. -/
theorem Encoder.Accounts.setCounterZero (h : e.Accounts true sampled) :
    e.setCounterZero.Accounts false sampled := by
  constructor
  case counter => rfl
  case net => simpa [Encoder.setCounterZero] using h.net

theorem Encoder.Accounts.toInt_counter (h : e.Accounts late sampled) (hw : Moderate e.window) :
    e.counter.toInt16.toInt = e.window := by
  rw [h.counter, toInt16_ofInt]
  exact Int16.toInt_ofInt_of_le (Int.le_of_lt hw.1) hw.2

/-- `speed1` is the window. -/
theorem Encoder.Accounts.speed1 (h : e.Accounts late sampled) (hw : Moderate e.window) :
    (e.getCounter.toUInt16.toInt16).toInt = e.window := by
  rw [Encoder.getCounter, UInt16.toUInt16_toUInt32]
  exact h.toInt_counter hw

/-- `speed2` is the negated window, although the subtraction is unsigned. -/
theorem Encoder.Accounts.speed2 (h : e.Accounts late sampled) (hw : Moderate e.window) :
    ((0 - e.getCounter).toUInt16.toInt16).toInt = -e.window := by
  have hneg : (0 - e.getCounter).toUInt16 = UInt16.ofInt (-e.window) := by
    simp [Encoder.getCounter, h.counter]
  rw [hneg, toInt16_ofInt]
  exact Int16.toInt_ofInt_of_le (Int.le_of_lt (neg_lt_neg hw.2)) (neg_lt.mp hw.1)

end Accounts

/-- Both counters account for their edges. -/
structure Sampling.Accounts (s : Sampling) : Prop where
  tim3 : s.tim3.Accounts s.pc.late3 (total s.speeds1)
  tim8 : s.tim8.Accounts s.pc.late8 (-total s.speeds2)

theorem Sampling.Accounts.statement {s : Sampling} (h : s.Accounts) (hC : s.InRange .loop) :
    s.statement.Accounts := by
  obtain ⟨h3, h8⟩ := h
  obtain ⟨hw3, hw8⟩ := hC
  cases hpc : s.pc with
  | speed1 =>
      rw [hpc] at h3 h8
      simp only [Sampling.statement, hpc]
      refine ⟨?_, h8⟩
      rw [total_concat, h3.speed1 (hw3 hpc)]
      exact h3.read
  | speed2 =>
      rw [hpc] at h3 h8
      simp only [Sampling.statement, hpc]
      refine ⟨h3, ?_⟩
      rw [total_concat, h8.speed2 (hw8 hpc), neg_add, neg_neg]
      exact h8.read
  | zero3 =>
      rw [hpc] at h3 h8
      simp only [Sampling.statement, hpc]
      exact ⟨h3.setCounterZero, h8⟩
  | zero8 =>
      rw [hpc] at h3 h8
      simp only [Sampling.statement, hpc]
      exact ⟨h3, h8.setCounterZero⟩

theorem Sampling.Accounts.step {s s' : Sampling} {a : SamplingLabel} (h : s.Accounts)
    (hC : s.InRange a) (hnext : s.next a = some s') : s'.Accounts := by
  cases a with
  | edge3 d =>
      obtain rfl := Option.some.inj hnext
      exact ⟨h.tim3.edge d, h.tim8⟩
  | edge8 d =>
      obtain rfl := Option.some.inj hnext
      exact ⟨h.tim3, h.tim8.edge d⟩
  | loop =>
      obtain rfl := Option.some.inj hnext
      exact h.statement hC

theorem Sampling.init_accounts : Sampling.init.Accounts :=
  ⟨⟨rfl, rfl⟩, ⟨rfl, rfl⟩⟩

/-- Between two samplings, samples and counters together give the edges of both
encoders exactly if the edges between a read and the clear after it cancel out. -/
theorem edges_counted_iff {s : Sampling} (h : Reach Sampling.next Sampling.InRange .init s)
    (hpc : s.pc = .speed1) (h3 : Moderate s.tim3.window) (h8 : Moderate s.tim8.window) :
    (total s.speeds1 + s.tim3.counter.toInt16.toInt = s.tim3.net ∧
        total s.speeds2 - s.tim8.counter.toInt16.toInt = -s.tim8.net) ↔
      s.tim3.lost = 0 ∧ s.tim8.lost = 0 := by
  have haccounts : s.Accounts :=
    h.invariant Sampling.init_accounts fun hi hC hnext => hi.step hC hnext
  have hnet3 := haccounts.tim3.net
  have hnet8 := haccounts.tim8.net
  rw [haccounts.tim3.toInt_counter h3, haccounts.tim8.toInt_counter h8]
  simp only [hpc, SamplingPc.late3, SamplingPc.late8, Bool.false_eq_true, if_false] at hnet3 hnet8
  constructor
  · rintro ⟨heq3, heq8⟩
    constructor <;> linarith
  · rintro ⟨hlost3, hlost8⟩
    constructor <;> linarith

/-! ## Edges between two samplings and within one -/

instance (s : Sampling) : (a : SamplingLabel) → Decidable (s.InRange a)
  | .edge3 _ | .edge8 _ => inferInstanceAs (Decidable True)
  | .loop => inferInstanceAs (Decidable (_ ∧ _))

/-- The statements of one sampling. -/
def sampling : List SamplingLabel :=
  List.replicate 4 .loop

theorem edges_counted_between :
    ∃ s, Reach Sampling.next Sampling.InRange .init s ∧ s.tim3.net = 2 ∧ s.tim8.net = -1 ∧
      total s.speeds1 + s.tim3.counter.toInt16.toInt = s.tim3.net ∧
        total s.speeds2 - s.tim8.counter.toInt16.toInt = -s.tim8.net := by
  have hrun : (Transition.exec Sampling.next Sampling.InRange .init
      ([.edge3 .up, .edge8 .down] ++ sampling ++ [.edge3 .up])).any (fun s =>
        s.pc = .speed1 ∧ Moderate s.tim3.window ∧ Moderate s.tim8.window ∧
          s.tim3.lost = 0 ∧ s.tim8.lost = 0 ∧ s.tim3.net = 2 ∧ s.tim8.net = -1) = true := by
    decide
  obtain ⟨s, hreach, htest⟩ := Transition.exists_reach_of_exec hrun
  obtain ⟨hpc, h3, h8, hlost3, hlost8, hnet3, hnet8⟩ := of_decide_eq_true htest
  exact ⟨s, hreach, hnet3, hnet8, (edges_counted_iff hreach hpc h3 h8).mpr ⟨hlost3, hlost8⟩⟩

/-- An edge between the read of TIM3 and its clear is in no sample. -/
theorem edge_lost_in_sampling :
    ∃ s, Reach Sampling.next Sampling.InRange .init s ∧ s.pc = .speed1 ∧
      Moderate s.tim3.window ∧ Moderate s.tim8.window ∧ s.tim3.net = 1 ∧
        total s.speeds1 + s.tim3.counter.toInt16.toInt = 0 := by
  have hrun : (Transition.exec Sampling.next Sampling.InRange .init
      [.loop, .edge3 .up, .loop, .loop, .loop]).any (fun s => s.pc = .speed1 ∧
        Moderate s.tim3.window ∧ Moderate s.tim8.window ∧ s.tim3.net = 1 ∧
          total s.speeds1 + s.tim3.counter.toInt16.toInt = 0) = true := by
    decide
  obtain ⟨s, hreach, htest⟩ := Transition.exists_reach_of_exec hrun
  exact ⟨s, hreach, of_decide_eq_true htest⟩

end Drive
