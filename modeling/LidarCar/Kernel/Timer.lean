-- SUMMARY: The kernel's timers: a list in the order of 32-bit time-out ticks, walked by `rt_timer_start` and `rt_timer_check`.
import LidarCar.Base.Agenda
import LidarCar.Base.Transition
import LidarCar.Kernel.Ipc

/-!
# Timers

`rt_timer_list` links the timers that are armed, with one level of the skip list
and no soft timers. `rt_timer_start` computes the tick of the time-out modulo
`2 ^ 32` and looks for the timer's place by differences of such ticks;
`rt_timer_check` is called in every tick and calls the timeout functions. The
timers are started with interrupts disabled, as the kernel starts its own, so a
call is one step; `rt_timer_check` is as many steps as it calls functions, which
may call the functions of the timers themselves.
-/

namespace Kernel

variable {θ : Type*} [DecidableEq θ]

/-! ## The functions -/

/-- `struct rt_timer` without its links. -/
structure Timer where
  timeoutTick : UInt32
  initTick : UInt32
  /-- `RT_TIMER_FLAG_ACTIVATED` -/
  activated : Bool
  /-- `RT_TIMER_FLAG_PERIODIC` -/
  periodic : Bool
  deriving DecidableEq, Repr

/-- `RT_TICK_MAX` -/
def rtTickMax : UInt32 := 0xFFFFFFFF

/-- `_rt_timer_init` -/
def Timer.init (time : UInt32) (periodic : Bool) : Timer where
  timeoutTick := 0
  initTick := time
  activated := false
  periodic := periodic

inductive TimerCtrl where
  | getTime
  | setTime
  | setOneShot
  | setPeriodic
  deriving DecidableEq, Repr

/-- `rt_timer_control`, with what `arg` points to. -/
def Timer.control (timer : Timer) (cmd : TimerCtrl) (arg : UInt32) : Timer × UInt32 :=
  match cmd with
  | .getTime => (timer, timer.initTick)
  | .setTime => ({ timer with initTick := arg }, arg)
  | .setOneShot => ({ timer with periodic := false }, arg)
  | .setPeriodic => ({ timer with periodic := true }, arg)

inductive Timers.Phase (θ : Type*) where
  | outside
  /-- In the loop of `rt_timer_check`. -/
  | checking (currentTick : UInt32)
  /-- In the timeout function of `t`. -/
  | calling (t : θ)
  deriving DecidableEq, Repr

/-- `rt_tick`, `rt_timer_list` and the timers. -/
structure Timers (θ : Type*) where
  tick : UInt32
  timer : θ → Timer
  list : List θ
  phase : Timers.Phase θ
  /-- History: the ticks that have passed, and when the timers were started. -/
  history : Agenda.History θ

/-- The walk of `rt_timer_start`: where `t` goes in the list. -/
def Timers.walk (timer : θ → Timer) (t : θ) : List θ → List θ
  | [] => [t]
  | u :: list =>
    if (timer u).timeoutTick - (timer t).timeoutTick = 0 then u :: walk timer t list
    else if (timer u).timeoutTick - (timer t).timeoutTick < rtTickMax / 2 then t :: u :: list
    else u :: walk timer t list

/-- `rt_timer_start` -/
def Timers.start (s : Timers θ) (t : θ) : Timers θ :=
  let list := s.list.erase t
  let timer := Function.update s.timer t
    { s.timer t with timeoutTick := s.tick + (s.timer t).initTick, activated := true }
  { s with
    timer := timer
    list := walk timer t list
    history := s.history.set t (s.timer t).initTick.toNat }

/-- `rt_timer_stop` -/
def Timers.stop (s : Timers θ) (t : θ) : Timers θ × Err :=
  if (s.timer t).activated then
    ({ s with
      list := s.list.erase t
      timer := Function.update s.timer t { s.timer t with activated := false } }, .eok)
  else (s, .error)

/-- `rt_timer_control` of `t`. -/
def Timers.control (s : Timers θ) (t : θ) (cmd : TimerCtrl) (arg : UInt32) : Timers θ :=
  { s with timer := Function.update s.timer t ((s.timer t).control cmd arg).1 }

/-- `rt_tick_increase`, up to the loop of `rt_timer_check`. -/
def Timers.increase (s : Timers θ) : Timers θ :=
  { s with tick := s.tick + 1, phase := .checking (s.tick + 1), history := s.history.tick }

/-- Whether the time of `t` is up, as `rt_timer_check` tests it. -/
def Timers.expired (s : Timers θ) (currentTick : UInt32) (t : θ) : Bool :=
  currentTick - (s.timer t).timeoutTick < rtTickMax / 2

/-- What `rt_timer_check` does behind the timeout function of `t`. -/
def Timers.back (s : Timers θ) (t : θ) : Timers θ :=
  let timer := Function.update s.timer t { s.timer t with activated := false }
  let s' := { s with timer := timer, phase := .checking s.tick }
  if (s.timer t).periodic && (s.timer t).activated then s'.start t else s'

inductive Timers.Label (θ : Type*) where
  | start (t : θ)
  | stop (t : θ)
  | control (t : θ) (cmd : TimerCtrl) (arg : UInt32)
  | increase
  /-- `rt_timer_check` calls the timeout function of `t`. -/
  | call (t : θ)
  /-- The timeout function of `t` returns. -/
  | back (t : θ)
  /-- `rt_timer_check` returns. -/
  | leave

/-- A thread, an interrupt handler or a timeout function calls. -/
def Timers.within (s : Timers θ) (s' : Timers θ) : Option (Timers θ) :=
  match s.phase with
  | .checking _ => none
  | _ => some s'

def Timers.next (s : Timers θ) : Timers.Label θ → Option (Timers θ)
  | .start t => s.within (s.start t)
  | .stop t => s.within (s.stop t).1
  | .control t cmd arg => s.within (s.control t cmd arg)
  | .increase => if s.phase = .outside then some s.increase else none
  | .call t =>
    match s.phase, s.list with
    | .checking currentTick, u :: list =>
      if u = t ∧ s.expired currentTick u then some { s with list := list, phase := .calling t }
      else none
    | _, _ => none
  | .back t => if s.phase = .calling t then some (s.back t) else none
  | .leave =>
    match s.phase, s.list with
    | .checking _, [] => some { s with phase := .outside }
    | .checking currentTick, u :: _ =>
      if s.expired currentTick u then none else some { s with phase := .outside }
    | _, _ => none

section Next

variable {s s' r : Timers θ} {t : θ}

omit [DecidableEq θ] in
theorem Timers.within_eq_some (h : s.within r = some s') :
    (∀ currentTick, s.phase ≠ .checking currentTick) ∧ s' = r := by
  unfold Timers.within at h
  split at h
  · cases h
  · rename_i hphase
    cases h
    exact ⟨hphase, rfl⟩

/-- The timer whose function is called is the first on the list, and its time is up. -/
theorem Timers.next_call (h : s.next (.call t) = some s') :
    ∃ currentTick list, s.phase = .checking currentTick ∧ s.list = t :: list ∧
      s.expired currentTick t = true ∧ s' = { s with list := list, phase := .calling t } := by
  simp only [Timers.next] at h
  split at h
  · rename_i currentTick u list hphase hlist
    split at h
    · rename_i hcall
      obtain ⟨rfl, hexpired⟩ := hcall
      cases h
      exact ⟨currentTick, list, hphase, hlist, hexpired, rfl⟩
    · cases h
  · cases h

/-- `rt_timer_check` returns when the first timer's time is not up. -/
theorem Timers.next_leave (h : s.next .leave = some s') :
    ∃ currentTick, s.phase = .checking currentTick ∧
      (∀ u ∈ s.list.head?, s.expired currentTick u = false) ∧
      s' = { s with phase := .outside } := by
  simp only [Timers.next] at h
  split at h
  · rename_i currentTick hphase hlist
    cases h
    exact ⟨currentTick, hphase, by simp [hlist], rfl⟩
  · rename_i currentTick u list hphase hlist
    split at h
    · cases h
    · rename_i hexpired
      cases h
      exact ⟨currentTick, hphase, by simpa [hlist] using hexpired, rfl⟩
  · cases h

end Next

/-- The assertion of `rt_timer_start`: the time is less than half of all ticks. -/
def Timers.Asserts (s : Timers θ) : Timers.Label θ → Prop
  | .start t => (s.timer t).initTick < rtTickMax / 2
  | .back t =>
    (s.timer t).periodic → (s.timer t).activated → (s.timer t).initTick < rtTickMax / 2
  | _ => True

instance (s : Timers θ) (l : Timers.Label θ) : Decidable (s.Asserts l) :=
  match l with
  | .start t => inferInstanceAs (Decidable ((s.timer t).initTick < rtTickMax / 2))
  | .back t => inferInstanceAs (Decidable ((s.timer t).periodic → (s.timer t).activated →
      (s.timer t).initTick < rtTickMax / 2))
  | .stop _ | .control .. | .increase | .call _ | .leave => isTrue trivial

/-- After `_rt_timer_init` of every timer. -/
def Timers.init (tick : UInt32) (time : θ → UInt32) (periodic : θ → Bool) : Timers θ where
  tick := tick
  timer := fun t => .init (time t) (periodic t)
  list := []
  phase := .outside
  history := ⟨tick.toNat, fun _ => 0, fun _ => 0, fun _ => 0, 0⟩

end Kernel
