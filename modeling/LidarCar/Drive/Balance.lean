-- SUMMARY: SpeedMutex is taken once an iteration and never released.
import LidarCar.Drive.SpeedMutex
import LidarCar.Kernel.Balance

/-!
# The balance of SpeedMutex

The take and the releases are in different threads. The first take is never
answered by a release, so the use of the mutex is in balance only until the
speed thread gets to its first delay or a command to its release.
-/

namespace Drive

open Transition (Reach)
open Kernel (Mutex MutexEvent HandsBack ReleasesSucceed)

variable {κ : Type*} [DecidableEq κ]

/-! ## The calls on the mutex -/

/-- The next statement of the call is `rt_mutex_release(&SpeedMutex)`. -/
def Call.atRelease (call : Call) : Bool :=
  match call.rest with
  | .mutexRelease :: _ => true
  | _ => false

/-- The call on the mutex that the step makes, if it makes one. -/
def System.mutexEvents (s : System κ) : Label κ → List (MutexEvent (Thread κ))
  | .call _ _ => []
  | .caller k =>
    if (s.calls k).any Call.atRelease then
      [⟨.caller k, .release, (s.speedMutex.release s.priority (.caller k)).2.2⟩]
    else []
  | .speed _ _ =>
    if s.speed.pc = .take then
      [⟨.speed, .take, (s.speedMutex.take s.priority .speed).2⟩]
    else []

/-- The drive, with the calls made on the mutex. -/
structure Traced (κ : Type*) where
  system : System κ
  trace : List (MutexEvent (Thread κ))

def Traced.next (x : Traced κ) (a : Label κ) : Option (Traced κ) :=
  (x.system.next a).map fun s => { system := s, trace := x.trace ++ x.system.mutexEvents a }

def Traced.init (priority : Thread κ → UInt8) : Traced κ where
  system := .init priority
  trace := []

/-- The mutex is used in balance, its hold counter is at most one, it is free in
the delay, and the releases succeed. -/
structure Traced.Balanced (x : Traced κ) : Prop where
  handsBack : HandsBack x.trace
  hold_le : x.system.speedMutex.hold ≤ 1
  free : x.system.speed.pc = .delay → x.system.speedMutex.owner = none
  releases : ReleasesSucceed x.trace

/-- The step is neither a command's release nor the speed thread's into its delay. -/
def Traced.Early (x : Traced κ) : Label κ → Prop
  | .call _ _ => True
  | .caller k => ¬ (x.system.calls k).any Call.atRelease = true
  | .speed _ _ => x.system.speed.pc ≠ .compare

section Steps

variable {x y : Traced κ} {a : Label κ}

theorem Traced.next_eq (hnext : x.next a = some y) :
    x.system.next a = some y.system ∧ y.trace = x.trace ++ x.system.mutexEvents a := by
  obtain ⟨s, hs, rfl⟩ := Option.map_eq_some_iff.mp hnext
  exact ⟨hs, rfl⟩

/-- A step leaves the mutex alone, or takes it, or fails to release it. -/
theorem System.MutexKept.events {s s' : System κ} (h : s.MutexKept)
    (hnext : s.next a = some s') :
    (s.mutexEvents a = [] ∧ s'.speedMutex = s.speedMutex) ∨
      (s.mutexEvents a = [⟨.speed, .take, .eok⟩] ∧ s'.speedMutex.owner = some .speed ∧
        s'.speedMutex.hold = s.speedMutex.hold + 1) ∨
      ∃ k, s.mutexEvents a = [⟨.caller k, .release, .error⟩] ∧ s'.speedMutex = s.speedMutex := by
  cases a with
  | call k c =>
      obtain ⟨-, call, -, -, rfl⟩ := System.next_call hnext
      exact Or.inl ⟨rfl, rfl⟩
  | caller k =>
      have hrelease := h.release s.priority (show Thread.caller k ≠ .speed from nofun)
      have hsame : s'.speedMutex = s.speedMutex := by
        obtain ⟨call, -, ⟨-, rfl⟩ | ⟨st, rest, -, rfl⟩⟩ := System.next_caller hnext
        · rfl
        · exact h.exec k _ st
      rw [System.mutexEvents, hrelease]
      split
      · exact Or.inr (Or.inr ⟨k, rfl, hsame⟩)
      · exact Or.inl ⟨rfl, hsame⟩
  | speed speed1 speed2 =>
      obtain rfl : s.stepSpeed speed1 speed2 = s' := Option.some.inj hnext
      obtain ⟨hok, howner, hhold⟩ := h.take s.priority
      rw [System.mutexEvents, System.stepSpeed_mutex, hok]
      split
      · exact Or.inr (Or.inl ⟨rfl, howner, hhold⟩)
      · exact Or.inl ⟨rfl, rfl⟩

/-! ## Every run -/

/-- The takes in the trace. -/
def Traced.takes (x : Traced κ) : Nat :=
  x.trace.countP fun e => e.call = .take

/-- Takes succeed and releases fail, and `hold` counts the takes in 8 bits. -/
structure Traced.Counts (x : Traced κ) : Prop where
  kept : x.system.MutexKept
  results : ∀ e ∈ x.trace, e.result = if e.call = .take then .eok else .error
  hold : x.system.speedMutex.hold = .ofNat x.takes

theorem Traced.Counts.step (h : x.Counts) (hnext : x.next a = some y) : y.Counts := by
  obtain ⟨hsystem, htrace⟩ := Traced.next_eq hnext
  have hkept := h.kept.step hsystem
  have hresults : (∀ e ∈ x.system.mutexEvents a,
      e.result = if e.call = .take then .eok else .error) →
      ∀ e ∈ y.trace, e.result = if e.call = .take then .eok else .error := by
    intro hnew
    rw [htrace, List.forall_mem_append]
    exact ⟨h.results, hnew⟩
  have htakes : y.takes = x.takes + (x.system.mutexEvents a).countP fun e => e.call = .take := by
    rw [Traced.takes, htrace, List.countP_append, Traced.takes]
  rcases h.kept.events hsystem with ⟨hev, hmutex⟩ | ⟨hev, -, hhold⟩ | ⟨k, hev, hmutex⟩
  · rw [hev] at hresults htakes
    exact ⟨hkept, hresults nofun, by rw [hmutex, h.hold, htakes]; rfl⟩
  · rw [hev] at hresults htakes
    refine ⟨hkept, hresults (by simp), ?_⟩
    rw [hhold, h.hold, htakes, UInt8.ofNat_add]
    rfl
  · rw [hev] at hresults htakes
    exact ⟨hkept, hresults (by simp), by rw [hmutex, h.hold, htakes]; rfl⟩

/-- In every run each take succeeds and each release fails, and the hold counter
is the number of takes modulo 256. -/
theorem speedMutex_never_released {priority : Thread κ → UInt8}
    (h : Reach Traced.next (fun _ _ => True) (.init priority) x) : x.Counts :=
  have hinit : (Traced.init priority).Counts :=
    ⟨Mutex.OnlyFor.init _, fun _ he => absurd he List.not_mem_nil, rfl⟩
  h.invariant hinit fun hi _ hnext => hi.step hnext

/-! ## Up to the first delay -/

/-- The statements up to the take. -/
def SpeedPc.beforeTake : SpeedPc → Bool
  | .getspeedcounter | .setcounterzero | .take => true
  | .xspeed1 | .xspeed2 | .test | .clear1 | .clear2 | .diff1 | .diff2 | .pwm1 | .pwm2
  | .lastDiff1 | .lastDiff2 | .setpwm _ | .compare | .delay => false

/-- The states of the mutex and of its trace until the first delay. -/
inductive Traced.FirstIteration (x : Traced κ) : Prop where
  | free (hpc : x.system.speed.pc.beforeTake = true) (htrace : x.trace = [])
      (hmutex : x.system.speedMutex = .init)
  | taken (hpc : x.system.speed.pc.beforeTake = false) (hdelay : x.system.speed.pc ≠ .delay)
      (htrace : x.trace = [⟨.speed, .take, .eok⟩])
      (howner : x.system.speedMutex.owner = some .speed) (hhold : x.system.speedMutex.hold = 1)

omit [DecidableEq κ] in
theorem Traced.FirstIteration.balanced (h : x.FirstIteration) : x.Balanced := by
  cases h with
  | free hpc htrace hmutex =>
      constructor
      case handsBack => exact Kernel.handsBack_of_length_le (by rw [htrace]; exact Nat.zero_le 1)
      case hold_le => rw [hmutex]; exact UInt8.zero_le
      case free => exact fun _ => by rw [hmutex]; rfl
      case releases => rw [ReleasesSucceed, htrace]; nofun
  | taken hpc hdelay htrace howner hhold =>
      constructor
      case handsBack => exact Kernel.handsBack_of_length_le (by rw [htrace]; exact Nat.le_refl 1)
      case hold_le => rw [hhold]; decide
      case free => exact fun hpc' => absurd hpc' hdelay
      case releases => rw [ReleasesSucceed, htrace]; simp

/-- The step that leaves the statements up to the take is the take. -/
theorem System.stepSpeed_beforeTake {s : System κ} (hm : s.MutexKept) (speed1 speed2 : Int16)
    (h : s.speed.pc.beforeTake = true) :
    if s.speed.pc = .take then (s.stepSpeed speed1 speed2).speed.pc = .xspeed1
    else (s.stepSpeed speed1 speed2).speed.pc.beforeTake = true := by
  obtain ⟨hok, -, -⟩ := hm.take s.priority
  cases hpc : s.speed.pc
  case getspeedcounter | setcounterzero => simp [System.stepSpeed, SpeedThread.next, hpc,
    SpeedPc.beforeTake]
  case take => simp [System.stepSpeed, SpeedThread.branchTaken, hpc, hok]
  all_goals
    rw [hpc] at h
    cases h

/-- After the take the iteration gets to its delay only from `compare`. -/
theorem System.stepSpeed_afterTake {s : System κ} (speed1 speed2 : Int16)
    (h : s.speed.pc.beforeTake = false) (hcompare : s.speed.pc ≠ .compare)
    (hdelay : s.speed.pc ≠ .delay) :
    (s.stepSpeed speed1 speed2).speed.pc.beforeTake = false ∧
      (s.stepSpeed speed1 speed2).speed.pc ≠ .delay := by
  cases hpc : s.speed.pc
  case getspeedcounter | setcounterzero | take =>
    rw [hpc] at h
    cases h
  case compare => exact absurd hpc hcompare
  case delay => exact absurd hpc hdelay
  case xspeed1 => simp [System.stepSpeed, SpeedThread.readFirst, hpc, SpeedPc.beforeTake]
  case xspeed2 => simp [System.stepSpeed, SpeedThread.readSecond, hpc, SpeedPc.beforeTake]
  case setpwm pins => cases pins <;> simp [System.stepSpeed, hpc, SpeedPc.beforeTake]
  case test =>
    simp only [System.stepSpeed, SpeedThread.next, hpc]
    split <;> simp [SpeedPc.beforeTake]
  all_goals simp [System.stepSpeed, SpeedThread.next, hpc, SpeedPc.beforeTake]

omit [DecidableEq κ] in
theorem Traced.FirstIteration.kept (h : x.FirstIteration) : x.system.MutexKept := by
  cases h with
  | free _ _ hmutex =>
      rw [System.MutexKept, hmutex]
      exact Mutex.OnlyFor.init _
  | taken _ _ _ howner =>
      exact ⟨Or.inr howner, fun hnone => by rw [howner] at hnone; cases hnone⟩

omit [DecidableEq κ] in
/-- An early step of a command touches neither the mutex nor the trace. -/
theorem Traced.FirstIteration.caller (h : x.FirstIteration)
    (hspeed : y.system.speed = x.system.speed) (htrace : y.trace = x.trace)
    (hmutex : y.system.speedMutex = x.system.speedMutex) : y.FirstIteration := by
  cases h with
  | free hpc ht hm =>
      exact .free (by rw [hspeed, hpc]) (htrace.trans ht) (hmutex.trans hm)
  | taken hpc hdelay ht howner hhold =>
      exact .taken (by rw [hspeed, hpc]) (by rw [hspeed]; exact hdelay) (htrace.trans ht)
        (by rw [hmutex, howner]) (by rw [hmutex, hhold])

theorem Traced.FirstIteration.speed (h : x.FirstIteration) {speed1 speed2 : Int16}
    (hcompare : x.system.speed.pc ≠ .compare)
    (hnext : x.next (.speed speed1 speed2) = some y) : y.FirstIteration := by
  obtain ⟨hsystem, htrace⟩ := Traced.next_eq hnext
  have heq : x.system.stepSpeed speed1 speed2 = y.system := Option.some.inj hsystem
  have hkept := h.kept
  cases h with
  | free hpc ht hm =>
      have hpc' := System.stepSpeed_beforeTake hkept speed1 speed2 hpc
      rw [heq] at hpc'
      obtain ⟨hok, howner, hhold⟩ := hkept.take x.system.priority
      have hmutex := System.stepSpeed_mutex (s := x.system) speed1 speed2
      rw [heq] at hmutex
      rw [System.mutexEvents, ht, List.nil_append, hok] at htrace
      by_cases htake : x.system.speed.pc = .take
      · rw [if_pos htake] at hpc' hmutex htrace
        rw [hm] at hhold
        exact .taken (by rw [hpc']; rfl) (by rw [hpc']; nofun) htrace (by rw [hmutex, howner])
          (by rw [hmutex, hm, hhold]; rfl)
      · rw [if_neg htake] at hpc' hmutex htrace
        exact .free hpc' htrace (hmutex.trans hm)
  | taken hpc hdelay ht howner hhold =>
      obtain ⟨hpc', hdelay'⟩ := System.stepSpeed_afterTake speed1 speed2 hpc hcompare hdelay
      have htake : x.system.speed.pc ≠ .take := by
        intro htake
        rw [htake] at hpc
        cases hpc
      have hmutex := System.stepSpeed_mutex (s := x.system) speed1 speed2
      rw [if_neg htake] at hmutex
      rw [System.mutexEvents, if_neg htake, List.append_nil] at htrace
      rw [heq] at hpc' hdelay' hmutex
      exact .taken hpc' hdelay' (htrace.trans ht) (by rw [hmutex, howner])
        (by rw [hmutex, hhold])

theorem Traced.FirstIteration.step (h : x.FirstIteration) (hC : x.Early a)
    (hnext : x.next a = some y) : y.FirstIteration := by
  obtain ⟨hsystem, htrace⟩ := Traced.next_eq hnext
  cases a with
  | call k c =>
      obtain ⟨-, call, -, -, heq⟩ := System.next_call hsystem
      rw [System.mutexEvents, List.append_nil] at htrace
      exact h.caller (by rw [heq]) htrace (by rw [heq])
  | caller k =>
      rw [System.mutexEvents, if_neg hC, List.append_nil] at htrace
      obtain ⟨call, -, ⟨-, heq⟩ | ⟨st, rest, -, heq⟩⟩ := System.next_caller hsystem
      · exact h.caller (by rw [heq]) htrace (by rw [heq])
      · exact h.caller (by rw [heq, System.advance, System.exec_speed]) htrace
          (by rw [heq, System.advance, h.kept.exec])
  | speed speed1 speed2 => exact h.speed hC hnext

/-- A release fails, and the delay begins with the mutex taken. -/
theorem Traced.FirstIteration.not_balanced (h : x.FirstIteration) (hC : ¬ x.Early a)
    (hnext : x.next a = some y) : ¬ y.Balanced := by
  obtain ⟨hsystem, htrace⟩ := Traced.next_eq hnext
  cases a with
  | call k c => exact absurd trivial hC
  | caller k =>
      have hother : Thread.caller k ≠ .speed := by simp
      have hrelease := h.kept.release x.system.priority hother
      rw [System.mutexEvents, if_pos (not_not.mp hC), hrelease] at htrace
      intro hb
      have hok := hb.releases ⟨.caller k, .release, .error⟩ (by rw [htrace]; simp) rfl
      cases hok
  | speed speed1 speed2 =>
      have hpc : x.system.speed.pc = .compare := not_not.mp hC
      have heq : x.system.stepSpeed speed1 speed2 = y.system := Option.some.inj hsystem
      intro hb
      have hfree : y.system.speedMutex.owner = none := by
        apply hb.free
        rw [← heq, System.stepSpeed, hpc]
      rw [← heq, System.stepSpeed_mutex, if_neg (by simp [hpc])] at hfree
      cases h with
      | free hpc' => rw [hpc] at hpc'; cases hpc'
      | taken _ _ _ howner => rw [howner] at hfree; cases hfree

/-- A run is in balance exactly as long as the speed thread does not get to its
delay and no command to its release. -/
theorem speedMutex_balanced_iff {priority : Thread κ → UInt8}
    (h : Reach Traced.next Traced.Early (.init priority) x) :
    x.Balanced ∧ ∀ a y, x.next a = some y → (y.Balanced ↔ x.Early a) := by
  have hfirst : x.FirstIteration :=
    h.invariant (.free rfl rfl rfl) fun hi hC hnext => hi.step hC hnext
  refine ⟨hfirst.balanced, fun a y hnext => ⟨fun hb => ?_, fun hC => ?_⟩⟩
  · by_contra hC
    exact hfirst.not_balanced hC hnext hb
  · exact (hfirst.step hC hnext).balanced

end Steps

instance (x : Traced κ) : (a : Label κ) → Decidable (x.Early a)
  | .call _ _ => inferInstanceAs (Decidable True)
  | .caller _ => inferInstanceAs (Decidable (¬ _))
  | .speed _ _ => inferInstanceAs (Decidable (_ ≠ _))

/-- The step into the first delay ends the balance. -/
theorem speedMutex_balanced_iff_firstDelay :
    ∃ x : Traced Caller, Reach Traced.next Traced.Early (.init createdPriority) x ∧
      x.Balanced ∧ ∀ y, x.next (.speed 0 0) = some y → ¬ y.Balanced := by
  have hrun : (Transition.exec Traced.next Traced.Early (.init createdPriority)
      (List.replicate 13 (.speed 0 0))).any (fun x => x.system.speed.pc = .compare) = true := by
    decide
  obtain ⟨x, hx, htest⟩ := Transition.exists_reach_of_exec hrun
  have hpc : x.system.speed.pc = .compare := of_decide_eq_true htest
  obtain ⟨hbalanced, hnext⟩ := speedMutex_balanced_iff hx
  exact ⟨x, hx, hbalanced, fun y hy hb => (hnext _ y hy).mp hb hpc⟩

/-- The second iteration takes again what the first has not released. -/
theorem second_take_unbalanced :
    ∃ x : Traced Caller, Reach Traced.next (fun _ _ => True) (.init createdPriority) x ∧
      x.trace = [⟨.speed, .take, .eok⟩, ⟨.speed, .take, .eok⟩] ∧ ¬ x.Balanced := by
  have hrun : (Transition.exec Traced.next (fun _ _ => True) (.init createdPriority)
      (List.replicate 18 (.speed 0 0))).any
        (fun x => x.trace = [⟨.speed, .take, .eok⟩, ⟨.speed, .take, .eok⟩]) = true := by
    decide
  obtain ⟨x, hx, htest⟩ := Transition.exists_reach_of_exec hrun
  have htrace : x.trace = [⟨.speed, .take, .eok⟩, ⟨.speed, .take, .eok⟩] :=
    of_decide_eq_true htest
  refine ⟨x, hx, htrace, fun hb => ?_⟩
  have hreleased := hb.handsBack .speed .eok [] [] [] htrace
  cases hreleased

end Drive
