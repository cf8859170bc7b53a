-- SUMMARY: The RT-Thread mutex, message queue and event of ipc.c, as far as the car uses them.
import Mathlib.Logic.Function.Basic

/-!
# Inter-process communication

The functions of `ipc.c` change their object with interrupts disabled, so each
is one step. A thread that would be suspended in one cannot take that step.
-/

namespace Kernel

/-- `rt_err_t`. -/
inductive Err where
  /-- `RT_EOK` -/
  | eok
  /-- `-RT_ERROR` -/
  | error
  /-- `-RT_ETIMEOUT` -/
  | etimeout
  /-- `-RT_EFULL` -/
  | efull
  deriving DecidableEq, Repr

/-! ## Mutexes -/

variable {θ : Type*} [DecidableEq θ]

/-- `struct rt_mutex`, with the threads of `suspend_thread` in their order. -/
structure Mutex (θ : Type*) where
  value : UInt16
  originalPriority : UInt8
  hold : UInt8
  owner : Option θ
  suspendThread : List θ

/-- `rt_mutex_init`. -/
def Mutex.init : Mutex θ where
  value := 1
  originalPriority := 0xFF
  hold := 0
  owner := none
  suspendThread := []

/-- `rt_mutex_take(mutex, RT_WAITING_NO)` in `thread`. A take that waits is left
out: `SpeedMutex` is only ever taken so. -/
def Mutex.take (m : Mutex θ) (currentPriority : θ → UInt8) (thread : θ) : Mutex θ × Err :=
  if m.owner = some thread then
    ({ m with hold := m.hold + 1 }, .eok)
  else if m.value > 0 then
    ({ m with
        value := m.value - 1
        owner := some thread
        originalPriority := currentPriority thread
        hold := m.hold + 1 }, .eok)
  else
    (m, .etimeout)

/-- `rt_mutex_release(mutex)` in `thread`, with the priorities it leaves. -/
def Mutex.release (m : Mutex θ) (currentPriority : θ → UInt8) (thread : θ) :
    Mutex θ × (θ → UInt8) × Err :=
  if m.owner ≠ some thread then
    (m, currentPriority, .error)
  else if m.hold - 1 = 0 then
    let priority := Function.update currentPriority thread m.originalPriority
    match m.suspendThread with
    | next :: rest =>
      ({ m with
          hold := m.hold - 1 + 1
          owner := some next
          originalPriority := priority next
          suspendThread := rest }, priority, .eok)
    | [] =>
      ({ m with
          hold := m.hold - 1
          value := m.value + 1
          owner := none
          originalPriority := 0xFF }, priority, .eok)
  else
    ({ m with hold := m.hold - 1 }, currentPriority, .eok)

section Ownership

variable {m : Mutex θ} {thread : θ} (currentPriority : θ → UInt8)

theorem Mutex.take_of_owner (h : m.owner = some thread) :
    m.take currentPriority thread = ({ m with hold := m.hold + 1 }, .eok) :=
  if_pos h

theorem Mutex.take_of_free (howner : m.owner = none) (hvalue : m.value = 1) :
    m.take currentPriority thread =
      ({ m with
          value := 0
          owner := some thread
          originalPriority := currentPriority thread
          hold := m.hold + 1 }, .eok) := by
  have hne : m.owner ≠ some thread := by
    rw [howner]
    nofun
  rw [Mutex.take, if_neg hne, hvalue]
  rfl

/-- Only the owner can release. -/
theorem Mutex.release_of_ne (h : m.owner ≠ some thread) :
    m.release currentPriority thread = (m, currentPriority, .error) :=
  if_pos h

/-- No thread but `thread` has the mutex. -/
structure Mutex.OnlyFor (m : Mutex θ) (thread : θ) : Prop where
  owner : m.owner = none ∨ m.owner = some thread
  value : m.owner = none → m.value = 1

omit [DecidableEq θ] in
theorem Mutex.OnlyFor.init (thread : θ) : (Mutex.init : Mutex θ).OnlyFor thread :=
  ⟨Or.inl rfl, fun _ => rfl⟩

/-- The one thread that takes the mutex always gets it. -/
theorem Mutex.OnlyFor.take (h : m.OnlyFor thread) :
    (m.take currentPriority thread).2 = .eok ∧
      (m.take currentPriority thread).1.owner = some thread ∧
      (m.take currentPriority thread).1.hold = m.hold + 1 := by
  rcases h.owner with howner | howner
  · rw [Mutex.take_of_free currentPriority howner (h.value howner)]
    exact ⟨rfl, rfl, rfl⟩
  · rw [Mutex.take_of_owner currentPriority howner]
    exact ⟨rfl, howner, rfl⟩

theorem Mutex.OnlyFor.take_onlyFor (h : m.OnlyFor thread) :
    (m.take currentPriority thread).1.OnlyFor thread := by
  obtain ⟨-, howner, -⟩ := h.take currentPriority
  exact ⟨Or.inr howner, fun hnone => by rw [howner] at hnone; cases hnone⟩

/-- The others cannot release it. -/
theorem Mutex.OnlyFor.release {other : θ} (h : m.OnlyFor thread) (hne : other ≠ thread) :
    m.release currentPriority other = (m, currentPriority, .error) := by
  apply Mutex.release_of_ne
  rcases h.owner with howner | howner
  · rw [howner]
    nofun
  · rw [howner, Ne, Option.some.injEq]
    exact fun h => hne h.symm

end Ownership

/-! ## Message queues -/

/-- `struct rt_messagequeue`: the messages from head to tail, and how many it has
room for. -/
structure MessageQueue (α : Type*) where
  messages : List α
  maxMsgs : Nat
  deriving Repr

variable {α : Type*}

/-- `rt_mq_init`. Each message takes its size, rounded up to `RT_ALIGN_SIZE`, and
a pointer. -/
def MessageQueue.init (msgSize poolSize : Nat) : MessageQueue α where
  messages := []
  maxMsgs := poolSize / ((msgSize + 3) / 4 * 4 + 4)

/-- `rt_mq_send`. -/
def MessageQueue.send (mq : MessageQueue α) (msg : α) : MessageQueue α × Err :=
  if mq.messages.length < mq.maxMsgs then
    ({ mq with messages := mq.messages ++ [msg] }, .eok)
  else
    (mq, .efull)

/-- `rt_mq_recv` with `RT_WAITING_FOREVER`, which waits while the queue is empty. -/
def MessageQueue.recv (mq : MessageQueue α) : Option (α × MessageQueue α) :=
  match mq.messages with
  | [] => none
  | msg :: rest => some (msg, { mq with messages := rest })

/-! ## Events -/

/-- `struct rt_event`, with the set the thread in `suspend_thread` waits for. The
events of the car have one receiver each. -/
structure Event where
  set : UInt32
  waiter : Option UInt32
  deriving DecidableEq, Repr

/-- `rt_event_init`. -/
def Event.init : Event where
  set := 0
  waiter := none

/-- `rt_event_send`. The second component is the set received by the thread it
resumes, which waits with `RT_EVENT_FLAG_OR | RT_EVENT_FLAG_CLEAR`. -/
def Event.send (event : Event) (set : UInt32) : Event × Option UInt32 :=
  let all := event.set ||| set
  match event.waiter with
  | none => ({ event with set := all }, none)
  | some wanted =>
    if wanted &&& all ≠ 0 then
      ({ set := all &&& ~~~(wanted &&& all), waiter := none }, some (wanted &&& all))
    else
      ({ event with set := all }, none)

/-- `rt_event_recv` with `RT_EVENT_FLAG_OR | RT_EVENT_FLAG_CLEAR` and
`RT_WAITING_FOREVER`: the received set, or the thread is suspended. -/
def Event.recv (event : Event) (set : UInt32) : Event × Option UInt32 :=
  if event.set &&& set ≠ 0 then
    ({ event with set := event.set &&& ~~~set }, some (event.set &&& set))
  else
    ({ event with waiter := some set }, none)

/-- `rt_event_send`, where the thread it may resume waits with
`RT_EVENT_FLAG_AND | RT_EVENT_FLAG_CLEAR`. -/
def Event.sendAnd (event : Event) (set : UInt32) : Event × Option UInt32 :=
  let all := event.set ||| set
  match event.waiter with
  | none => ({ event with set := all }, none)
  | some wanted =>
    if wanted &&& all = wanted then
      ({ set := all &&& ~~~wanted, waiter := none }, some wanted)
    else
      ({ event with set := all }, none)

/-- `rt_event_recv` with `RT_EVENT_FLAG_AND | RT_EVENT_FLAG_CLEAR` and
`RT_WAITING_FOREVER`. -/
def Event.recvAnd (event : Event) (set : UInt32) : Event × Option UInt32 :=
  if event.set &&& set = set then
    ({ event with set := event.set &&& ~~~set }, some (event.set &&& set))
  else
    ({ event with waiter := some set }, none)

theorem or_and_absorb (x y : UInt32) : (x ||| y) &&& y = y := by
  apply UInt32.toBitVec_inj.mp
  ext i hi
  simp
  grind

/-- A thread that waits for just what is sent is resumed. -/
theorem Event.sendAnd_of_waiter {event : Event} {set : UInt32} (h : event.waiter = some set) :
    (event.sendAnd set).1.waiter = none ∧ (event.sendAnd set).2 = some set := by
  have hall : set &&& (event.set ||| set) = set := by
    rw [UInt32.and_comm, or_and_absorb]
  simp [Event.sendAnd, h, hall]

/-- Without a waiter, what is sent stays in the event. -/
theorem Event.sendAnd_of_none {event : Event} {set : UInt32} (h : event.waiter = none) :
    event.sendAnd set = ({ event with set := event.set ||| set }, none) := by
  rw [Event.sendAnd, h]

/-- The wait ends at once if the event is set, and suspends the thread if not. -/
theorem Event.recvAnd_cases (event : Event) (set : UInt32) :
    (event.set &&& set = set ∧ (event.recvAnd set).2 = some set ∧
        (event.recvAnd set).1.waiter = event.waiter) ∨
      (event.set &&& set ≠ set ∧ event.recvAnd set = ({ event with waiter := some set }, none)) := by
  rw [Event.recvAnd]
  split
  case isTrue hset => exact Or.inl ⟨hset, congrArg some hset, rfl⟩
  case isFalse hset => exact Or.inr ⟨hset, rfl⟩

/-- A thread that an event resumes has waited for it. -/
theorem Event.send_waiter (event : Event) (set : UInt32) :
    ((event.send set).2 = none ∧ (event.send set).1.waiter = event.waiter) ∨
      ((event.send set).1.waiter = none ∧ event.waiter ≠ none) := by
  unfold Event.send
  cases hwaiter : event.waiter with
  | none => exact Or.inl ⟨rfl, rfl⟩
  | some wanted =>
      dsimp only
      split
      · exact Or.inr ⟨rfl, nofun⟩
      · exact Or.inl ⟨rfl, rfl⟩

end Kernel
