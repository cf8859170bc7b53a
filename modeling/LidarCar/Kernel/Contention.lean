-- SUMMARY: A mutex that any number of threads wait for: exclusion, hand-over and nesting in every run.
import Mathlib.Data.Fin.VecNotation
import LidarCar.Base.Transition
import LidarCar.Kernel.Ipc
import LidarCar.Kernel.Suspend

/-!
# Waiting for a mutex

`rt_mutex_take` with a waiting time suspends the thread until the mutex is handed
to it by `rt_mutex_release`, or its time is up. Each of the functions changes the
mutex with interrupts disabled, so each is one step, and so is a time-out.
-/

namespace Kernel

open Transition (Reach)

variable {θ : Type*} [DecidableEq θ]

/-! ## The system -/

inductive Phase where
  /-- Outside `rt_mutex_take`, or about to call it. -/
  | running
  /-- Suspended in `rt_mutex_take`. -/
  | suspended (time : Int32)
  /-- Behind `rt_schedule` in `rt_mutex_take`, with `thread->error`. -/
  | resumed (err : Err)
  deriving DecidableEq, Repr

/-- A mutex and the threads that contend for it. -/
structure Contended (θ : Type*) where
  mutex : Mutex θ
  flag : IpcFlag
  currentPriority : θ → UInt8
  phase : θ → Phase
  /-- History: how many times the thread has taken the mutex and not released it. -/
  depth : θ → Nat

/-- The owner comes to be at least as urgent as `t`. -/
def Contended.inherit (s : Contended θ) (t : θ) : θ → UInt8 :=
  match s.mutex.owner with
  | some owner =>
    if s.currentPriority t < s.currentPriority owner then
      Function.update s.currentPriority owner (s.currentPriority t)
    else s.currentPriority
  | none => s.currentPriority

/-- `rt_mutex_take` suspends the thread. -/
def Contended.wait (s : Contended θ) (t : θ) (time : Int32) : Contended θ :=
  { s with
    currentPriority := s.inherit t
    mutex :=
      { s.mutex with
        suspendThread := ipcListSuspend s.flag (s.inherit t) s.mutex.suspendThread t }
    phase := Function.update s.phase t (.suspended time) }

/-- `rt_mutex_take(mutex, time)` in `t`. -/
def Contended.take (s : Contended θ) (t : θ) (time : Int32) : Contended θ :=
  match s.mutex.take s.currentPriority t with
  | (mutex, .eok) =>
    { s with mutex := mutex, depth := Function.update s.depth t (s.depth t + 1) }
  | _ => if time = 0 then s else s.wait t time

/-- `rt_mutex_release(mutex)` in `t`, with the thread that it resumes. -/
def Contended.release (s : Contended θ) (t : θ) : Contended θ :=
  match s.mutex.release s.currentPriority t with
  | (mutex, priority, .eok) =>
    let depth := Function.update s.depth t (s.depth t - 1)
    if mutex.owner = some t then
      { s with mutex := mutex, currentPriority := priority, depth := depth }
    else
      match mutex.owner with
      | some next =>
        { s with
          mutex := mutex
          currentPriority := priority
          depth := Function.update depth next (depth next + 1)
          phase := Function.update s.phase next (.resumed .eok) }
      | none => { s with mutex := mutex, currentPriority := priority, depth := depth }
  | _ => s

inductive Contended.Label (θ : Type*) where
  | take (t : θ) (time : Int32)
  | release (t : θ)
  /-- `rt_mutex_take` returns in a thread that was suspended. -/
  | back (t : θ)
  /-- `rt_thread_timeout` -/
  | timeout (t : θ)

def Contended.next (s : Contended θ) : Contended.Label θ → Option (Contended θ)
  | .take t time => if s.phase t = .running then some (s.take t time) else none
  | .release t => if s.phase t = .running then some (s.release t) else none
  | .back t =>
    match s.phase t with
    | .resumed _ => some { s with phase := Function.update s.phase t .running }
    | _ => none
  | .timeout t =>
    match s.phase t with
    | .suspended time =>
      if time > 0 then
        some { s with
          mutex := { s.mutex with suspendThread := s.mutex.suspendThread.filter (· ≠ t) }
          phase := Function.update s.phase t (.resumed .etimeout) }
      else none
    | _ => none

/-- After `rt_mutex_init`, with the priorities of the threads. -/
def Contended.init (flag : IpcFlag) (priority : θ → UInt8) : Contended θ where
  mutex := .init
  flag := flag
  currentPriority := priority
  phase := fun _ => .running
  depth := fun _ => 0

/-- No thread takes the mutex while `hold`, a byte, cannot count that. -/
def Contended.HoldFits (s : Contended θ) : Contended.Label θ → Prop
  | .take t _ => s.mutex.owner = some t → s.mutex.hold ≠ 0xFF
  | _ => True

/-! ## The invariant -/

/-- The mutex in the hands of `owner`, or of nobody. -/
structure Contended.Held (s : Contended θ) (priority : θ → UInt8) (owner : Option θ) : Prop where
  ownedBy : s.mutex.owner = owner
  /-- Nobody waits for a mutex that is free. -/
  free : owner = none →
    s.mutex.value = 1 ∧ s.mutex.hold = 0 ∧ s.mutex.suspendThread = [] ∧
      s.mutex.originalPriority = 0xFF
  taken : ∀ t, owner = some t →
    s.mutex.value = 0 ∧ s.mutex.hold.toNat = s.depth t ∧ 0 < s.depth t ∧
      s.mutex.originalPriority = priority t ∧ s.currentPriority t ≤ priority t
  /-- The others have not taken it, and have their own priorities. -/
  others : ∀ t, owner ≠ some t → s.depth t = 0 ∧ s.currentPriority t = priority t
  nodup : s.mutex.suspendThread.Nodup
  mem : ∀ t, t ∈ s.mutex.suspendThread ↔ ∃ time, s.phase t = .suspended time
  /-- A thread that is handed the mutex owns it at once. -/
  handed : ∀ t, s.phase t = .resumed .eok → owner = some t
  /-- The owner does not wait. -/
  active : ∀ t, owner = some t → ∀ time, s.phase t ≠ .suspended time

section Steps

variable {s s' : Contended θ} {priority : θ → UInt8} {owner : Option θ} {t : θ}

omit [DecidableEq θ] in
theorem Contended.Held.init (flag : IpcFlag) (priority : θ → UInt8) :
    (Contended.init flag priority).Held priority none where
  ownedBy := rfl
  free := fun _ => ⟨rfl, rfl, rfl, rfl⟩
  taken := nofun
  others := fun _ _ => ⟨rfl, rfl⟩
  nodup := List.nodup_nil
  mem := fun _ => iff_of_false List.not_mem_nil nofun
  handed := nofun
  active := nofun

theorem Contended.Held.take_own (h : s.Held priority (some t)) (time : Int32) :
    s.take t time =
      { s with
        mutex := { s.mutex with hold := s.mutex.hold + 1 }
        depth := Function.update s.depth t (s.depth t + 1) } := by
  rw [Contended.take, Mutex.take_of_owner s.currentPriority h.ownedBy]

/-- The mutex is taken by its owner once more. -/
theorem Contended.Held.nest (h : s.Held priority (some t)) (hold : s.mutex.hold ≠ 0xFF)
    (time : Int32) : (s.take t time).Held priority (some t) := by
  obtain ⟨hvalue, hcount, hpos, horiginal, hurgent⟩ := h.taken t rfl
  have hhold : (s.mutex.hold + 1).toNat = s.mutex.hold.toNat + 1 := by
    have hlt := s.mutex.hold.toNat_lt
    have hne : s.mutex.hold.toNat ≠ 255 := fun heq => hold (UInt8.toNat_inj.mp heq)
    rw [UInt8.toNat_add, UInt8.toNat_one]
    omega
  rw [h.take_own]
  refine ⟨h.ownedBy, nofun, ?_, fun u hu => ?_, h.nodup, h.mem, h.handed, h.active⟩
  · rintro u ⟨rfl⟩
    refine ⟨hvalue, ?_, ?_, horiginal, hurgent⟩
    · simp only [Function.update_self, hhold, hcount]
    · simp only [Function.update_self, Nat.succ_pos]
  · have hne : u ≠ t := fun heq => hu (heq ▸ rfl)
    simp only [Function.update_of_ne hne]
    exact h.others u hu

theorem Contended.Held.take_free (h : s.Held priority none) (time : Int32) :
    s.take t time =
      { s with
        mutex :=
          { s.mutex with
            value := 0
            owner := some t
            originalPriority := s.currentPriority t
            hold := s.mutex.hold + 1 }
        depth := Function.update s.depth t (s.depth t + 1) } := by
  rw [Contended.take, Mutex.take_of_free s.currentPriority h.ownedBy (h.free rfl).1]

/-- A free mutex is taken. -/
theorem Contended.Held.first (h : s.Held priority none) (hrunning : s.phase t = .running)
    (time : Int32) : (s.take t time).Held priority (some t) := by
  obtain ⟨-, hhold, -⟩ := h.free rfl
  obtain ⟨hdepth, hpriority⟩ := h.others t nofun
  rw [h.take_free]
  refine ⟨rfl, nofun, ?_, fun u hu => ?_, h.nodup, h.mem, fun u hu => ?_, ?_⟩
  · rintro u ⟨rfl⟩
    refine ⟨rfl, ?_, ?_, hpriority, UInt8.le_of_eq hpriority⟩
    · simp only [Function.update_self, hhold, hdepth]
      rfl
    · simp only [Function.update_self, Nat.succ_pos]
  · have hne : u ≠ t := fun heq => hu (heq ▸ rfl)
    simp only [Function.update_of_ne hne]
    exact h.others u nofun
  · cases h.handed u hu
  · rintro u ⟨rfl⟩ time'
    rw [hrunning]
    nofun

/-- A thread finds the mutex taken and waits. -/
theorem Contended.Held.wait {o : θ} (h : s.Held priority (some o)) (hne : t ≠ o)
    (hrunning : s.phase t = .running) (time : Int32) : (s.wait t time).Held priority (some o) := by
  obtain ⟨hvalue, hcount, hpos, horiginal, hurgent⟩ := h.taken o rfl
  have hnot : t ∉ s.mutex.suspendThread := by
    rw [h.mem, hrunning]
    rintro ⟨_, hsuspended⟩
    cases hsuspended
  have hinherit : s.inherit t = if s.currentPriority t < s.currentPriority o then
      Function.update s.currentPriority o (s.currentPriority t) else s.currentPriority := by
    rw [Contended.inherit, h.ownedBy]
  refine ⟨h.ownedBy, nofun, ?_, fun u hu => ⟨(h.others u hu).1, ?_⟩,
    nodup_ipcListSuspend _ _ _ _ hnot h.nodup, fun u => ?_, fun u hu => ?_, ?_⟩
  · rintro u ⟨rfl⟩
    refine ⟨hvalue, hcount, hpos, horiginal, ?_⟩
    simp only [Contended.wait, hinherit]
    split
    · next hlt =>
        rw [Function.update_self]
        exact UInt8.le_trans (UInt8.le_of_lt hlt) hurgent
    · exact hurgent
  · have huo : u ≠ o := fun heq => hu (heq ▸ rfl)
    simp only [Contended.wait, hinherit]
    split
    · rw [Function.update_of_ne huo]
      exact (h.others u hu).2
    · exact (h.others u hu).2
  · simp only [Contended.wait, mem_ipcListSuspend, h.mem]
    by_cases hu : u = t
    · subst hu
      exact iff_of_true (Or.inl rfl) ⟨time, Function.update_self ..⟩
    · rw [or_iff_right hu, Function.update_of_ne hu]
  · by_cases hut : u = t
    · subst hut
      simp only [Contended.wait, Function.update_self] at hu
      cases hu
    · simp only [Contended.wait, Function.update_of_ne hut] at hu
      exact h.handed u hu
  · rintro u ⟨rfl⟩ time'
    simp only [Contended.wait, Function.update_of_ne hne.symm]
    exact h.active o rfl time'

/-- A thread finds the mutex taken. -/
theorem Contended.Held.taken_by {o : θ} (h : s.Held priority (some o)) (hne : t ≠ o)
    (time : Int32) : s.take t time = if time = 0 then s else s.wait t time := by
  have howner : s.mutex.owner ≠ some t := by
    rw [h.ownedBy, Ne, Option.some.injEq]
    exact hne.symm
  have hvalue : ¬ s.mutex.value > 0 := by
    rw [(h.taken o rfl).1]
    exact UInt16.lt_irrefl 0
  rw [Contended.take, Mutex.take, if_neg howner, if_neg hvalue]

/-- The three ways in which a thread can leave `rt_mutex_take`, or wait in it. -/
theorem Contended.Held.take (h : s.Held priority owner) (hrunning : s.phase t = .running)
    (time : Int32) (hC : s.HoldFits (.take t time)) :
    ∃ owner', (s.take t time).Held priority owner' := by
  cases owner with
  | none => exact ⟨some t, h.first hrunning time⟩
  | some o =>
      by_cases ho : t = o
      · subst ho
        exact ⟨some t, h.nest (hC h.ownedBy) time⟩
      · rw [h.taken_by ho]
        split
        · exact ⟨some o, h⟩
        · exact ⟨some o, h.wait ho hrunning time⟩

/-! ## Releases -/

omit [DecidableEq θ] in
/-- What `hold` counts down to. -/
theorem Contended.Held.hold_sub (h : s.Held priority (some t)) :
    (s.mutex.hold - 1).toNat = s.depth t - 1 := by
  obtain ⟨-, hcount, hpos, -⟩ := h.taken t rfl
  have hle : (1 : UInt8) ≤ s.mutex.hold := by
    rw [UInt8.le_iff_toNat_le, hcount]
    exact hpos
  rw [UInt8.toNat_sub_of_le _ _ hle, hcount]
  rfl

theorem Contended.Held.release_more (h : s.Held priority (some t)) (hmore : s.depth t ≠ 1) :
    s.release t =
      { s with
        mutex := { s.mutex with hold := s.mutex.hold - 1 }
        depth := Function.update s.depth t (s.depth t - 1) } := by
  obtain ⟨-, -, hpos, -⟩ := h.taken t rfl
  have hhold : s.mutex.hold - 1 ≠ 0 := by
    rw [Ne, ← UInt8.toNat_inj, h.hold_sub]
    have hzero : (0 : UInt8).toNat = 0 := rfl
    omega
  rw [Contended.release, Mutex.release, if_neg (not_not.mpr h.ownedBy), if_neg hhold]
  exact if_pos h.ownedBy

/-- The mutex is released once, but not for the last time. -/
theorem Contended.Held.unnest (h : s.Held priority (some t)) (hmore : s.depth t ≠ 1) :
    (s.release t).Held priority (some t) := by
  obtain ⟨hvalue, -, hpos, horiginal, hurgent⟩ := h.taken t rfl
  rw [h.release_more hmore]
  refine ⟨h.ownedBy, nofun, ?_, fun u hu => ?_, h.nodup, h.mem, h.handed, h.active⟩
  · rintro u ⟨rfl⟩
    refine ⟨hvalue, ?_, ?_, horiginal, hurgent⟩
    · simp only [Function.update_self, h.hold_sub]
    · simp only [Function.update_self]
      omega
  · have hne : u ≠ t := fun heq => hu (heq ▸ rfl)
    simp only [Function.update_of_ne hne]
    exact h.others u hu

/-- The priorities after the last release are those of the threads themselves. -/
theorem Contended.Held.restored (h : s.Held priority (some t)) :
    Function.update s.currentPriority t s.mutex.originalPriority = priority := by
  funext u
  by_cases hu : u = t
  · subst hu
    rw [Function.update_self]
    exact (h.taken u rfl).2.2.2.1
  · rw [Function.update_of_ne hu]
    exact (h.others u fun heq => hu (Option.some.inj heq).symm).2

omit [DecidableEq θ] in
theorem Contended.Held.hold_last (h : s.Held priority (some t)) (hlast : s.depth t = 1) :
    s.mutex.hold - 1 = 0 := by
  rw [← UInt8.toNat_inj, h.hold_sub, hlast]
  rfl

theorem Contended.Held.release_last (h : s.Held priority (some t)) (hlast : s.depth t = 1)
    (hnil : s.mutex.suspendThread = []) :
    s.release t =
      { s with
        mutex :=
          { s.mutex with
            hold := s.mutex.hold - 1
            value := s.mutex.value + 1
            owner := none
            originalPriority := 0xFF }
        currentPriority := priority
        depth := Function.update s.depth t (s.depth t - 1) } := by
  simp only [Contended.release, Mutex.release, h.ownedBy, ne_eq, not_true_eq_false, if_false,
    h.hold_last hlast, if_true, hnil, h.restored, reduceCtorEq]

/-- The last release leaves the mutex free if nobody waits. -/
theorem Contended.Held.free_release (h : s.Held priority (some t))
    (hrunning : s.phase t = .running) (hlast : s.depth t = 1)
    (hnil : s.mutex.suspendThread = []) : (s.release t).Held priority none := by
  obtain ⟨hvalue, -⟩ := h.taken t rfl
  have hhold := h.hold_last hlast
  rw [h.release_last hlast hnil]
  refine ⟨rfl, fun _ => ⟨?_, hhold, hnil, rfl⟩, nofun, fun u _ => ⟨?_, rfl⟩, h.nodup, h.mem,
    fun u hu => ?_, nofun⟩
  · simp only [hvalue]
    rfl
  · by_cases hu : u = t
    · subst hu
      simp only [Function.update_self, hlast]
    · simp only [Function.update_of_ne hu]
      exact (h.others u fun heq => hu (Option.some.inj heq).symm).1
  · -- nobody but the running thread can have been handed the mutex
    obtain rfl := Option.some.inj (h.handed u hu)
    cases hrunning.symm.trans hu

omit [DecidableEq θ] in
/-- The first thread that waits is not the owner. -/
theorem Contended.Held.first_waits {first : θ} {rest : List θ} (h : s.Held priority (some t))
    (hlist : s.mutex.suspendThread = first :: rest) :
    first ≠ t ∧ s.depth first = 0 ∧ s.currentPriority first = priority first := by
  obtain ⟨time, hsuspended⟩ : ∃ time, s.phase first = .suspended time := by
    rw [← h.mem, hlist]
    exact List.mem_cons_self
  have hne : first ≠ t := by
    rintro rfl
    exact h.active first rfl time hsuspended
  exact ⟨hne, h.others first fun heq => hne (Option.some.inj heq).symm⟩

theorem Contended.Held.release_handed {first : θ} {rest : List θ} (h : s.Held priority (some t))
    (hlast : s.depth t = 1) (hlist : s.mutex.suspendThread = first :: rest) :
    s.release t =
      { s with
        mutex :=
          { s.mutex with
            hold := 0 + 1
            owner := some first
            originalPriority := priority first
            suspendThread := rest }
        currentPriority := priority
        depth := Function.update (Function.update s.depth t 0) first 1
        phase := Function.update s.phase first (.resumed .eok) } := by
  obtain ⟨hne, hdepth, hpriority⟩ := h.first_waits hlist
  simp only [Contended.release, Mutex.release, h.ownedBy, ne_eq, not_true_eq_false, if_false,
    h.hold_last hlast, if_true, hlist, h.restored, Option.some.injEq, hne, hlast,
    Function.update_of_ne hne, hdepth, hpriority, Nat.sub_self, Nat.zero_add]

/-- The last release hands the mutex to the first thread that waits. -/
theorem Contended.Held.hand_over {first : θ} {rest : List θ} (h : s.Held priority (some t))
    (hrunning : s.phase t = .running) (hlast : s.depth t = 1)
    (hlist : s.mutex.suspendThread = first :: rest) :
    (s.release t).Held priority (some first) := by
  obtain ⟨hvalue, -⟩ := h.taken t rfl
  have hnodup := h.nodup
  rw [hlist] at hnodup
  obtain ⟨hnot, hrest⟩ := List.nodup_cons.mp hnodup
  rw [h.release_handed hlast hlist]
  refine ⟨rfl, nofun, ?_, fun u hu => ⟨?_, rfl⟩, hrest, fun u => ?_, fun u hu => ?_, ?_⟩
  · rintro u ⟨rfl⟩
    refine ⟨hvalue, ?_, ?_, rfl, UInt8.le_refl _⟩
    · simp only [Function.update_self]
      rfl
    · simp only [Function.update_self, Nat.lt_one_iff]
  · have hfirst : u ≠ first := fun heq => hu (heq ▸ rfl)
    simp only [Function.update_of_ne hfirst]
    by_cases hut : u = t
    · rw [hut, Function.update_self]
    · rw [Function.update_of_ne hut]
      exact (h.others u fun heq => hut (Option.some.inj heq).symm).1
  · by_cases hfirst : u = first
    · subst hfirst
      simp only [Function.update_self]
      exact iff_of_false hnot nofun
    · have hmem := h.mem u
      rw [hlist, List.mem_cons, or_iff_right hfirst] at hmem
      simp only [Function.update_of_ne hfirst]
      exact hmem
  · by_cases hfirst : u = first
    · rw [hfirst]
    · simp only [Function.update_of_ne hfirst] at hu
      obtain rfl := Option.some.inj (h.handed u hu)
      cases hrunning.symm.trans hu
  · rintro u ⟨rfl⟩ time'
    simp only [Function.update_self]
    nofun

/-- Only the owner can release. -/
theorem Contended.Held.release_refused (h : s.Held priority owner) (hne : owner ≠ some t) :
    s.release t = s := by
  rw [Contended.release, Mutex.release_of_ne s.currentPriority (h.ownedBy ▸ hne)]

theorem Contended.Held.release (h : s.Held priority owner) (hrunning : s.phase t = .running) :
    ∃ owner', (s.release t).Held priority owner' := by
  by_cases howner : owner = some t
  · subst howner
    by_cases hlast : s.depth t = 1
    · cases hlist : s.mutex.suspendThread with
      | nil => exact ⟨none, h.free_release hrunning hlast hlist⟩
      | cons first rest => exact ⟨some first, h.hand_over hrunning hlast hlist⟩
    · exact ⟨some t, h.unnest hlast⟩
  · rw [h.release_refused howner]
    exact ⟨owner, h⟩

/-! ## Returns and time-outs -/

theorem Contended.Held.back {err : Err} (h : s.Held priority owner)
    (hresumed : s.phase t = .resumed err) :
    Contended.Held { s with phase := Function.update s.phase t .running } priority owner := by
  refine ⟨h.ownedBy, h.free, h.taken, h.others, h.nodup, fun u => ?_, fun u hu => ?_, ?_⟩
  · by_cases hu : u = t
    · subst hu
      simp only [Function.update_self]
      refine iff_of_false (fun hmem => ?_) nofun
      obtain ⟨time, hsuspended⟩ := (h.mem u).mp hmem
      cases hresumed.symm.trans hsuspended
    · simp only [Function.update_of_ne hu]
      exact h.mem u
  · by_cases hut : u = t
    · subst hut
      simp only [Function.update_self] at hu
      cases hu
    · simp only [Function.update_of_ne hut] at hu
      exact h.handed u hu
  · intro u hu time
    by_cases hut : u = t
    · subst hut
      simp only [Function.update_self]
      nofun
    · simp only [Function.update_of_ne hut]
      exact h.active u hu time

/-- A thread gives up waiting. What it has done to the owner's priority stays. -/
theorem Contended.Held.timeout {time : Int32} (h : s.Held priority owner)
    (hsuspended : s.phase t = .suspended time) :
    Contended.Held
      { s with
        mutex := { s.mutex with suspendThread := s.mutex.suspendThread.filter (· ≠ t) }
        phase := Function.update s.phase t (.resumed .etimeout) } priority owner := by
  refine ⟨h.ownedBy, fun hnone => ?_, h.taken, h.others, h.nodup.filter _, fun u => ?_,
    fun u hu => ?_, ?_⟩
  · obtain ⟨hvalue, hhold, hnil, horiginal⟩ := h.free hnone
    refine ⟨hvalue, hhold, ?_, horiginal⟩
    simp only [hnil, List.filter_nil]
  · simp only [List.mem_filter, decide_eq_true_iff]
    by_cases hu : u = t
    · subst hu
      simp only [Function.update_self]
      exact iff_of_false (fun hmem => hmem.2 rfl) nofun
    · simp only [Function.update_of_ne hu]
      exact (and_iff_left hu).trans (h.mem u)
  · by_cases hut : u = t
    · subst hut
      simp only [Function.update_self, Phase.resumed.injEq, reduceCtorEq] at hu
    · simp only [Function.update_of_ne hut] at hu
      exact h.handed u hu
  · intro u hu time'
    by_cases hut : u = t
    · subst hut
      exact absurd hsuspended (h.active u hu time)
    · simp only [Function.update_of_ne hut]
      exact h.active u hu time'

/-! ## Runs -/

theorem Contended.Held.step {a : Contended.Label θ} (h : s.Held priority owner)
    (hC : s.HoldFits a) (hnext : s.next a = some s') : ∃ owner', s'.Held priority owner' := by
  cases a with
  | take t time =>
      obtain ⟨hrunning, hs'⟩ := Option.ite_none_right_eq_some.mp hnext
      exact Option.some.inj hs' ▸ h.take hrunning time hC
  | release t =>
      obtain ⟨hrunning, hs'⟩ := Option.ite_none_right_eq_some.mp hnext
      exact Option.some.inj hs' ▸ h.release hrunning
  | back t =>
      cases hphase : s.phase t with
      | resumed err =>
          simp only [Contended.next, hphase, Option.some.injEq] at hnext
          exact hnext ▸ ⟨owner, h.back hphase⟩
      | running | suspended _ => simp [Contended.next, hphase] at hnext
  | timeout t =>
      cases hphase : s.phase t with
      | suspended time =>
          simp only [Contended.next, hphase] at hnext
          obtain ⟨-, hs'⟩ := Option.ite_none_right_eq_some.mp hnext
          exact Option.some.inj hs' ▸ ⟨owner, h.timeout hphase⟩
      | running | resumed _ => simp [Contended.next, hphase] at hnext

theorem held_of_reach {flag : IpcFlag}
    (h : Reach Contended.next Contended.HoldFits (.init flag priority) s) :
    ∃ owner, s.Held priority owner :=
  h.invariant (I := fun s : Contended θ => ∃ owner, s.Held priority owner) ⟨none, .init flag priority⟩
    fun hi hC hnext => hi.elim fun _ hheld => hheld.step hC hnext

/-- In every run at most one thread has the mutex, `hold` counts how often, and
nobody waits for a mutex that is free. -/
theorem mutex_exclusive {flag : IpcFlag}
    (h : Reach Contended.next Contended.HoldFits (.init flag priority) s) :
    (∀ t, s.mutex.owner = some t ↔ 0 < s.depth t) ∧
      (∀ t, s.mutex.owner = some t → s.mutex.hold.toNat = s.depth t) ∧
      (s.mutex.owner = none → s.mutex.value = 1 ∧ s.mutex.suspendThread = []) := by
  obtain ⟨owner, hheld⟩ := held_of_reach h
  obtain rfl := hheld.ownedBy
  refine ⟨fun t => ⟨fun ht => (hheld.taken t ht).2.2.1, fun hpos => ?_⟩,
    fun t ht => (hheld.taken t ht).2.1, fun hnone => ?_⟩
  · by_contra hne
    rw [(hheld.others t hne).1] at hpos
    exact Nat.lt_irrefl 0 hpos
  · obtain ⟨hvalue, -, hnil, -⟩ := hheld.free hnone
    exact ⟨hvalue, hnil⟩

/-- In every run a thread has its own priority unless it has the mutex, and then
one that is at least as urgent. -/
theorem priority_restored {flag : IpcFlag}
    (h : Reach Contended.next Contended.HoldFits (.init flag priority) s) :
    ∀ t, (s.mutex.owner ≠ some t → s.currentPriority t = priority t) ∧
      s.currentPriority t ≤ priority t := by
  obtain ⟨owner, hheld⟩ := held_of_reach h
  obtain rfl := hheld.ownedBy
  intro t
  refine ⟨fun hne => (hheld.others t hne).2, ?_⟩
  by_cases ht : s.mutex.owner = some t
  · exact (hheld.taken t ht).2.2.2.2
  · exact UInt8.le_of_eq (hheld.others t ht).2

end Steps

instance (s : Contended θ) : (a : Contended.Label θ) → Decidable (s.HoldFits a)
  | .take _ _ => inferInstanceAs (Decidable (_ → _))
  | .release _ | .back _ | .timeout _ => isTrue trivial

/-- Thread 0 takes the mutex twice; the more urgent thread 1 waits for it. -/
def raised : List (Contended.Label (Fin 2)) :=
  [.take 0 (-1), .take 0 (-1), .take 1 (-1), .release 0]

theorem mutex_exclusive_raised :
    ∃ s, Reach Contended.next Contended.HoldFits (.init .fifo ![20, 5]) s ∧
      s.mutex.suspendThread = [1] ∧ s.depth 0 = 1 ∧ s.mutex.owner = some 0 := by
  have hrun : (Transition.exec Contended.next Contended.HoldFits (.init .fifo ![20, 5]) raised).any
      (fun s => s.mutex.suspendThread = [1] ∧ s.depth 0 = 1) = true := by
    decide
  obtain ⟨s, hreach, htest⟩ := Transition.exists_reach_of_exec hrun
  obtain ⟨hlist, hdepth⟩ := of_decide_eq_true htest
  have hpos : 0 < s.depth 0 := by
    rw [hdepth]
    exact Nat.one_pos
  have howner := ((mutex_exclusive hreach).1 0).mpr hpos
  exact ⟨s, hreach, hlist, hdepth, howner⟩

theorem priority_restored_raised :
    ∃ s, Reach Contended.next Contended.HoldFits (.init .fifo ![20, 5]) s ∧
      s.mutex.owner = some 1 ∧ s.currentPriority 0 = 20 := by
  have hrun : (Transition.exec Contended.next Contended.HoldFits (.init .fifo ![20, 5])
      (raised ++ [.release 0])).any (fun s => s.mutex.owner = some 1) = true := by
    decide
  obtain ⟨s, hreach, htest⟩ := Transition.exists_reach_of_exec hrun
  have howner : s.mutex.owner = some 1 := of_decide_eq_true htest
  have hne : s.mutex.owner ≠ some 0 := by
    rw [howner]
    decide
  exact ⟨s, hreach, howner, (priority_restored hreach 0).1 hne⟩

end Kernel
