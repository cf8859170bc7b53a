-- SUMMARY: The owner of a mutex is at least as urgent as every thread that waits for it.
import LidarCar.Kernel.Contention

/-!
# Priority inheritance

A thread that waits makes the owner at least as urgent as itself. Nobody does so
when the mutex is handed over, so what the other waiting threads need of the new
owner depends on which thread comes first: with `RT_IPC_FLAG_PRIO` the most urgent
one, with `RT_IPC_FLAG_FIFO` the one that has waited longest.
-/

namespace Kernel

open Transition (Reach)

variable {θ : Type*} [DecidableEq θ]

/-- The owner's last release hands the mutex to a thread that is as urgent as the
others that wait. -/
def Contended.HandsToUrgent (s : Contended θ) : Contended.Label θ → Prop
  | .release t => s.mutex.owner = some t → s.mutex.hold = 1 →
      ∀ first ∈ s.mutex.suspendThread.head?, ∀ u ∈ s.mutex.suspendThread,
        s.currentPriority first ≤ s.currentPriority u
  | _ => True

/-- The runs that priority inheritance is for. -/
def Contended.Inherits (s : Contended θ) (a : Contended.Label θ) : Prop :=
  s.HoldFits a ∧ (s.flag = .prio ∨ s.HandsToUrgent a)

omit [DecidableEq θ] in
/-- A thread is put before the first one that is less urgent. -/
theorem pairwise_ipcListSuspend {current priority : θ → UInt8} {list : List θ} {t : θ}
    (ht : current t = priority t) (hsame : ∀ u ∈ list, current u = priority u)
    (h : list.Pairwise fun t u => priority t ≤ priority u) :
    (ipcListSuspend .prio current list t).Pairwise fun t u => priority t ≤ priority u := by
  induction list with
  | nil => exact List.pairwise_singleton _ t
  | cons first rest ih =>
      obtain ⟨hfirst, hrest⟩ := List.pairwise_cons.mp h
      have hsameFirst := hsame first List.mem_cons_self
      rw [ipcListSuspend, List.orderedInsert_cons, ht, hsameFirst]
      split
      · next hlt =>
          refine List.pairwise_cons.mpr ⟨fun u hu => ?_, h⟩
          have hle := UInt8.le_of_lt hlt
          rcases List.mem_cons.mp hu with rfl | hu
          · exact hle
          · exact UInt8.le_trans hle (hfirst u hu)
      · next hnot =>
          refine List.pairwise_cons.mpr
            ⟨fun u hu => ?_, ih (fun u hu => hsame u (List.mem_cons_of_mem _ hu)) hrest⟩
          rcases (mem_ipcListSuspend .prio current rest t).mp hu with rfl | hu
          · exact UInt8.not_lt.mp hnot
          · exact hfirst u hu

/-! ## The invariant -/

structure Contended.Ordered (s : Contended θ) (priority : θ → UInt8) : Prop where
  /-- No thread that waits is more urgent than the owner. -/
  urgent : ∀ o, s.mutex.owner = some o → ∀ t ∈ s.mutex.suspendThread,
    s.currentPriority o ≤ priority t
  /-- With `RT_IPC_FLAG_PRIO` the threads wait in the order of their priorities. -/
  sorted : s.flag = .prio → s.mutex.suspendThread.Pairwise fun t u => priority t ≤ priority u

section Steps

variable {s s' : Contended θ} {priority : θ → UInt8} {owner : Option θ} {t : θ}

omit [DecidableEq θ] in
/-- A thread that waits has its own priority. -/
theorem Contended.Held.waiting_priority (h : s.Held priority owner)
    (ht : t ∈ s.mutex.suspendThread) : s.currentPriority t = priority t := by
  obtain ⟨time, hsuspended⟩ := (h.mem t).mp ht
  exact (h.others t fun howner => h.active t howner time hsuspended).2

theorem Contended.inherit_of_ne {o : θ} (h : s.mutex.owner = some o) {u : θ} (hu : u ≠ o) :
    s.inherit t u = s.currentPriority u := by
  simp only [Contended.inherit, h]
  split
  · exact Function.update_of_ne hu ..
  · rfl

/-- The owner comes to be as urgent as the thread that waits, and no less urgent. -/
theorem Contended.inherit_owner {o : θ} (h : s.mutex.owner = some o) :
    s.inherit t o ≤ s.currentPriority t ∧ s.inherit t o ≤ s.currentPriority o := by
  simp only [Contended.inherit, h]
  split
  · next hlt =>
      rw [Function.update_self]
      exact ⟨UInt8.le_refl _, UInt8.le_of_lt hlt⟩
  · next hnot => exact ⟨UInt8.not_lt.mp hnot, UInt8.le_refl _⟩

theorem Contended.Ordered.wait {o : θ} (h : s.Ordered priority) (hheld : s.Held priority (some o))
    (hne : t ≠ o) (time : Int32) : (s.wait t time).Ordered priority := by
  have ht : s.currentPriority t = priority t :=
    (hheld.others t fun heq => hne (Option.some.inj heq).symm).2
  obtain ⟨hto, hoo⟩ := Contended.inherit_owner (t := t) hheld.ownedBy
  constructor
  · intro o' ho' u hu
    obtain rfl := Option.some.inj (hheld.ownedBy.symm.trans ho')
    rcases (mem_ipcListSuspend _ _ _ _).mp hu with rfl | hu
    · exact ht ▸ hto
    · exact UInt8.le_trans hoo (h.urgent o hheld.ownedBy u hu)
  · intro hflag
    have hprio : s.flag = .prio := hflag
    simp only [Contended.wait, hprio]
    refine pairwise_ipcListSuspend ?_ (fun u hu => ?_) (h.sorted hprio)
    · rw [Contended.inherit_of_ne hheld.ownedBy hne, ht]
    · have huo : u ≠ o := by
        rintro rfl
        obtain ⟨time', hsuspended⟩ := (hheld.mem u).mp hu
        exact hheld.active u rfl time' hsuspended
      rw [Contended.inherit_of_ne hheld.ownedBy huo, hheld.waiting_priority hu]

omit [DecidableEq θ] in
/-- Without waiting threads there is nothing to show. -/
theorem Contended.Ordered.of_nil (hnil : s.mutex.suspendThread = []) : s.Ordered priority where
  urgent := by
    rw [hnil]
    exact fun _ _ _ => nofun
  sorted := by
    rw [hnil]
    exact fun _ => List.Pairwise.nil

theorem Contended.Ordered.take (h : s.Ordered priority) (hheld : s.Held priority owner)
    (time : Int32) : (s.take t time).Ordered priority := by
  cases owner with
  | none =>
      rw [hheld.take_free]
      exact .of_nil (hheld.free rfl).2.2.1
  | some o =>
      by_cases ho : t = o
      · subst ho
        rw [hheld.take_own]
        exact ⟨h.urgent, h.sorted⟩
      · rw [hheld.taken_by ho]
        split
        · exact h
        · exact h.wait hheld ho time

theorem Contended.Ordered.hand_over {first : θ} {rest : List θ} (h : s.Ordered priority)
    (hheld : s.Held priority (some t)) (hlast : s.depth t = 1)
    (hlist : s.mutex.suspendThread = first :: rest)
    (hC : s.flag = .prio ∨ s.HandsToUrgent (.release t)) : (s.release t).Ordered priority := by
  have hsorted : s.flag = .prio → (∀ u ∈ rest, priority first ≤ priority u) ∧
      rest.Pairwise fun t u => priority t ≤ priority u := by
    intro hflag
    have hpairwise := h.sorted hflag
    rw [hlist] at hpairwise
    exact List.pairwise_cons.mp hpairwise
  rw [hheld.release_handed hlast hlist]
  refine ⟨?_, fun hflag => (hsorted hflag).2⟩
  rintro o ⟨rfl⟩ u hu
  rcases hC with hflag | hhands
  · exact (hsorted hflag).1 u hu
  · have hmem : u ∈ s.mutex.suspendThread := by
      rw [hlist]
      exact List.mem_cons_of_mem _ hu
    have hhold : s.mutex.hold = 1 := by
      rw [← UInt8.toNat_inj, (hheld.taken t rfl).2.1, hlast]
      rfl
    have hle := hhands hheld.ownedBy hhold first (by rw [hlist]; rfl) u hmem
    rwa [(hheld.first_waits hlist).2.2, hheld.waiting_priority hmem] at hle

theorem Contended.Ordered.release (h : s.Ordered priority) (hheld : s.Held priority owner)
    (hC : s.flag = .prio ∨ s.HandsToUrgent (.release t)) : (s.release t).Ordered priority := by
  by_cases howner : owner = some t
  · subst howner
    by_cases hlast : s.depth t = 1
    · cases hlist : s.mutex.suspendThread with
      | nil =>
          rw [hheld.release_last hlast hlist]
          exact .of_nil hlist
      | cons first rest => exact h.hand_over hheld hlast hlist hC
    · rw [hheld.release_more hlast]
      exact ⟨h.urgent, h.sorted⟩
  · rw [hheld.release_refused howner]
    exact h

theorem Contended.Ordered.step {a : Contended.Label θ} (h : s.Ordered priority)
    (hheld : s.Held priority owner) (hC : s.Inherits a) (hnext : s.next a = some s') :
    s'.Ordered priority := by
  cases a with
  | take t time =>
      obtain ⟨-, hs'⟩ := Option.ite_none_right_eq_some.mp hnext
      exact Option.some.inj hs' ▸ h.take hheld time
  | release t =>
      obtain ⟨-, hs'⟩ := Option.ite_none_right_eq_some.mp hnext
      exact Option.some.inj hs' ▸ h.release hheld hC.2
  | back t =>
      cases hphase : s.phase t with
      | resumed err =>
          simp only [Contended.next, hphase, Option.some.injEq] at hnext
          exact hnext ▸ ⟨h.urgent, h.sorted⟩
      | running | suspended _ => simp [Contended.next, hphase] at hnext
  | timeout t =>
      cases hphase : s.phase t with
      | suspended time =>
          simp only [Contended.next, hphase] at hnext
          obtain ⟨-, hs'⟩ := Option.ite_none_right_eq_some.mp hnext
          refine Option.some.inj hs' ▸ ⟨fun o ho u hu => ?_, fun hflag => ?_⟩
          · exact h.urgent o ho u (List.mem_filter.mp hu).1
          · exact (h.sorted hflag).filter _
      | running | resumed _ => simp [Contended.next, hphase] at hnext

/-- In every run in which the mutex goes to a thread as urgent as the others that
wait, as it always does with `RT_IPC_FLAG_PRIO`, the owner is at least as urgent as
every thread that waits. -/
theorem owner_urgent {flag : IpcFlag}
    (h : Reach Contended.next Contended.Inherits (.init flag priority) s) {o : θ}
    (ho : s.mutex.owner = some o) (t : θ) (ht : t ∈ s.mutex.suspendThread) :
    s.currentPriority o ≤ s.currentPriority t := by
  obtain ⟨⟨owner, hheld⟩, hordered⟩ := h.invariant
    (I := fun s : Contended θ => (∃ owner, s.Held priority owner) ∧ s.Ordered priority)
    ⟨⟨none, .init flag priority⟩, .of_nil rfl⟩ fun hi hC hnext => by
      obtain ⟨⟨owner, hheld⟩, hordered⟩ := hi
      exact ⟨hheld.step hC.1 hnext, hordered.step hheld hC hnext⟩
  rw [hheld.waiting_priority ht]
  exact hordered.urgent o ho t ht

end Steps

instance (s : Contended θ) : (a : Contended.Label θ) → Decidable (s.HandsToUrgent a)
  | .release _ => inferInstanceAs (Decidable (_ = _ → _ = _ → _))
  | .take _ _ | .back _ | .timeout _ => isTrue trivial

instance (s : Contended θ) (a : Contended.Label θ) : Decidable (s.Inherits a) :=
  inferInstanceAs (Decidable (_ ∧ _))

/-- Threads 1 and 2 wait for thread 0, the more urgent thread 2 after the other. -/
def contenders : List (Contended.Label (Fin 3)) :=
  [.take 0 (-1), .take 1 (-1), .take 2 (-1)]

theorem owner_urgent_contenders :
    ∃ s, Reach Contended.next Contended.Inherits (.init .prio ![20, 15, 5]) s ∧
      s.mutex.suspendThread = [1] ∧ s.mutex.owner = some 2 ∧
        s.currentPriority 2 ≤ s.currentPriority 1 := by
  have hrun : (Transition.exec Contended.next Contended.Inherits (.init .prio ![20, 15, 5])
      (contenders ++ [.release 0])).any
        (fun s => s.mutex.suspendThread = [1] ∧ s.mutex.owner = some 2) = true := by
    decide
  obtain ⟨s, hreach, htest⟩ := Transition.exists_reach_of_exec hrun
  obtain ⟨hlist, howner⟩ := of_decide_eq_true htest
  have hmem : (1 : Fin 3) ∈ s.mutex.suspendThread := by
    rw [hlist]
    exact List.mem_singleton_self 1
  exact ⟨s, hreach, hlist, howner, owner_urgent hreach howner 1 hmem⟩

/-- In the order of arrival the mutex goes to thread 1, and the more urgent thread 2
waits for it at its own priority. -/
theorem fifo_inversion :
    ∃ s, Reach Contended.next Contended.HoldFits (.init .fifo ![20, 15, 5]) s ∧
      s.mutex.owner = some 1 ∧ 2 ∈ s.mutex.suspendThread ∧
        ¬ s.currentPriority 1 ≤ s.currentPriority 2 := by
  have hrun : (Transition.exec Contended.next Contended.HoldFits (.init .fifo ![20, 15, 5])
      (contenders ++ [.release 0])).any
        (fun s => s.mutex.owner = some 1 ∧ 2 ∈ s.mutex.suspendThread ∧
          ¬ s.currentPriority 1 ≤ s.currentPriority 2) = true := by
    decide
  obtain ⟨s, hreach, htest⟩ := Transition.exists_reach_of_exec hrun
  exact ⟨s, hreach, of_decide_eq_true htest⟩

end Kernel
