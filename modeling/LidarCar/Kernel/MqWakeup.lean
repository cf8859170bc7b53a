-- SUMMARY: No thread sleeps on a message queue while a message is there for it.
import LidarCar.Kernel.MqHistory

/-!
# Waking up the receivers

`rt_mq_send` resumes one thread for each message it links. The thread then has to
get to the queue, where another may be first, or a message may have arrived by
then that resumed nobody. Still no wake-up is lost: as long as threads are
suspended, there are at least as many on their way as there are messages.
-/

namespace Kernel

open Roster (Lists)
open Transition (Reach)

variable {θ : Type*} [DecidableEq θ]

/-- The thread is in the list of the suspended threads. -/
def Task.sleeps : Task → Bool
  | .suspended _ _ => true
  | _ => false

/-- Where threads are suspended, all messages but `owed` have a thread on its way. -/
structure Mq.Waiting (s : Mq θ) (owed : Nat) (woken : List (θ × Unit)) : Prop where
  nodup : s.suspendThread.Nodup
  mem : ∀ t, t ∈ s.suspendThread ↔ (s.task t).sleeps = true
  lists : Lists (Task.woken ∘ s.task) woken
  enough : s.suspendThread ≠ [] → s.pool.entry.toNat ≤ woken.length + owed

/-- How many threads `task` adds to those on their way. -/
def Task.wakes (task : Task) : Nat :=
  if task.woken = none then 0 else 1

section Steps

variable {s s' : Mq θ} {woken : List (θ × Unit)} {t : θ} {task : Task} {owed : Nat}

theorem Mq.woken_goto (s : Mq θ) (t : θ) (task : Task) :
    Task.woken ∘ (s.goto t task).task = Function.update (Task.woken ∘ s.task) t task.woken :=
  Function.comp_update ..

/-- A thread that goes on to something else is no longer on its way. -/
theorem Mq.Waiting.lists_goto (h : s.Waiting owed woken) (t : θ) :
    ∃ woken', Lists (Function.update (Task.woken ∘ s.task) t none) woken' ∧
      woken.length ≤ woken'.length + (s.task t).wakes := by
  cases hwoken : (s.task t).woken with
  | none => exact ⟨woken, h.lists.keep hwoken, Nat.le_add_right _ _⟩
  | some u =>
      obtain ⟨woken', hperm, hlists⟩ := h.lists.remove (t := t) hwoken
      refine ⟨woken', hlists, ?_⟩
      rw [hperm.length_eq, Task.wakes, hwoken]
      exact Nat.le_refl _

theorem Mq.mem_goto (h : s.Waiting owed woken) {list : List θ}
    (hlist : ∀ u, u ∈ list ↔ if u = t then task.sleeps = true else u ∈ s.suspendThread) (u : θ) :
    u ∈ list ↔ ((s.goto t task).task u).sleeps = true := by
  rw [hlist]
  split
  · next hu =>
      subst hu
      rw [Mq.goto_task_self]
  · next hu => rw [Mq.goto_task_of_ne hu, h.mem]

/-- A thread that does not sleep goes on, and takes its message if it was on its way. -/
theorem Mq.Waiting.goto (h : s.Waiting 0 woken) (task : Task) (pool : Pool) (log : List (Op θ))
    (owed : Nat) (hawake : (s.task t).sleeps = false) (hsleeps : task.sleeps = false)
    (hwoken : task.woken = none)
    (hentry : pool.entry.toNat ≤ s.pool.entry.toNat - (s.task t).wakes + owed) :
    ∃ woken', Mq.Waiting { s.goto t task with pool := pool, log := log } owed woken' := by
  obtain ⟨woken', hlists, hlength⟩ := h.lists_goto t
  refine ⟨woken', h.nodup, fun u => ?_, ?_, fun hne => ?_⟩
  · refine Mq.mem_goto h (fun u => ?_) u
    split
    · next hu =>
        rw [hu, hsleeps, ← hawake]
        exact h.mem t
    · exact Iff.rfl
  · have hhere : Task.woken ∘ (s.goto t task).task =
        Function.update (Task.woken ∘ s.task) t none := by
      rw [Mq.woken_goto, hwoken]
    exact hhere ▸ hlists
  · have henough := h.enough hne
    dsimp only
    omega

/-- With an empty queue a thread can go to sleep. -/
theorem Mq.Waiting.suspend {size : Nat} {timeout : Int32} (h : s.Waiting 0 woken)
    (hawake : (s.task t).sleeps = false) (hempty : s.pool.entry = 0) :
    ∃ woken', Mq.Waiting
      { s.goto t (.suspended size timeout) with
        suspendThread := ipcListSuspend s.flag s.currentPriority s.suspendThread t } 0 woken' := by
  obtain ⟨woken', hlists, -⟩ := h.lists_goto t
  have hnot : t ∉ s.suspendThread := by
    rw [h.mem, hawake]
    nofun
  refine ⟨woken', nodup_ipcListSuspend _ _ _ _ hnot h.nodup, ?_, ?_, fun _ => ?_⟩
  · refine Mq.mem_goto h fun u => ?_
    rw [mem_ipcListSuspend]
    split
    · next hu => exact iff_of_true (Or.inl hu) rfl
    · next hu => exact or_iff_right hu
  · exact (s.woken_goto t _).symm ▸ hlists
  · have hle : s.pool.entry.toNat ≤ woken'.length + 0 := by
      rw [hempty]
      exact Nat.zero_le _
    exact hle

/-- The resumed thread is on its way to the message that was linked. -/
theorem Mq.Waiting.resumeFirst (h : s.Waiting 1 woken) :
    ∃ woken', s.resumeFirst.Waiting 0 woken' := by
  unfold Mq.resumeFirst
  split
  · next hnil => exact ⟨woken, h.nodup, h.mem, h.lists, fun hne => absurd hnil hne⟩
  · next first rest hlist =>
      have hnodup := h.nodup
      rw [hlist] at hnodup
      obtain ⟨hnot, hrest⟩ := List.nodup_cons.mp hnodup
      have hsleeps : (s.task first).sleeps = true := by
        rw [← h.mem, hlist]
        exact List.mem_cons_self
      obtain ⟨size, timeout, htask⟩ :
          ∃ size timeout, s.task first = .suspended size timeout := by
        cases htask : s.task first with
        | suspended size timeout => exact ⟨size, timeout, rfl⟩
        | idle | busy _ | resumed _ _ _ =>
            rw [htask] at hsleeps
            cases hsleeps
      have hnone : (Task.woken ∘ s.task) first = none := congrArg Task.woken htask
      refine ⟨(first, ()) :: woken, hrest, ?_, ?_, fun _ => ?_⟩
      · refine Mq.mem_goto h fun u => ?_
        rw [hlist, htask]
        split
        · next hu =>
            subst hu
            exact iff_of_false hnot nofun
        · next hu => rw [List.mem_cons, or_iff_right hu]
      · have hinsert := h.lists.insert hnone ()
        rw [htask]
        exact (s.woken_goto first _).symm ▸ hinsert
      · have henough := h.enough (by rw [hlist]; exact List.cons_ne_nil _ _)
        rw [List.length_cons]
        exact henough

/-- A thread whose time is up leaves the list. -/
theorem Mq.Waiting.timeout {size : Nat} {timeout : Int32} (h : s.Waiting 0 woken)
    (htask : s.task t = .suspended size timeout) :
    Mq.Waiting
      { s.goto t (.resumed size timeout .etimeout) with
        suspendThread := s.suspendThread.filter (· ≠ t) } 0 woken where
  nodup := h.nodup.filter _
  mem := by
    refine Mq.mem_goto h fun u => ?_
    rw [List.mem_filter, decide_eq_true_iff]
    split
    · next hu => exact iff_of_false (fun hmem => hmem.2 hu) nofun
    · next hu => exact and_iff_left hu
  lists := by
    have hnone : (Task.woken ∘ s.task) t = none := congrArg Task.woken htask
    exact (s.woken_goto t _).symm ▸ h.lists.keep hnone
  enough := fun hne => h.enough fun hnil => hne (by rw [hnil]; rfl)

theorem Mq.Waiting.reset (h : s.Waiting 0 woken) :
    Mq.Waiting { s.resumeAll.note .reset with pool := s.pool.reset } 0 woken where
  nodup := List.nodup_nil
  mem := by
    intro u
    refine iff_of_false List.not_mem_nil ?_
    have hsleeps := h.mem u
    dsimp only [Mq.note, Mq.resumeAll]
    split
    · cases s.task u <;> exact nofun
    · next hnot =>
        rw [hsleeps] at hnot
        exact hnot
  lists := by
    refine h.lists.congr fun u => ?_
    have hsleeps := h.mem u
    dsimp only [Function.comp_apply, Mq.note, Mq.resumeAll]
    split
    · next hmem =>
        rw [hsleeps] at hmem
        cases htask : s.task u with
        | suspended size timeout => rfl
        | idle | busy _ | resumed _ _ _ => rfl
    · rfl
  enough := fun hne => absurd rfl hne

/-! ## All steps -/

/-- No wake-up is lost. -/
def Mq.Awake (s : Mq θ) : Prop :=
  ∃ woken, s.Waiting 0 woken

theorem Mq.Awake.fail (h : s.Awake) (hawake : (s.task t).sleeps = false) (err : Err)
    (hentry : (s.task t).wakes = 0 ∨ s.pool.entry = 0) : (s.fail t err).Awake := by
  obtain ⟨woken, h⟩ := h
  refine h.goto .idle s.pool _ 0 hawake rfl rfl ?_
  have hle : s.pool.entry.toNat ≤ s.pool.entry.toNat - (s.task t).wakes + 0 := by
    rcases hentry with hwakes | hzero
    · rw [hwakes]
      exact Nat.le_refl _
    · rw [hzero]
      exact Nat.zero_le _
  exact hle

theorem Mq.Awake.receive {size : Nat} {timeout : Int32} (h : s.Awake)
    (hawake : (s.task t).sleeps = false) (hnext : s.receive t size timeout = some s') :
    s'.Awake := by
  unfold Mq.receive at hnext
  split_ifs at hnext with hempty
  · obtain rfl := Option.some.inj hnext
    exact h.fail hawake _ (Or.inr hempty)
  · obtain rfl := Option.some.inj hnext
    obtain ⟨woken, h⟩ := h
    exact h.suspend hawake hempty
  · obtain ⟨⟨slot, pool⟩, hunlink, rfl⟩ := Option.map_eq_some_iff.mp hnext
    obtain ⟨-, rfl⟩ := Pool.unlink_eq_some.mp hunlink
    obtain ⟨woken, h⟩ := h
    refine h.goto (.busy (.copyOut slot size [])) _ _ 0 hawake rfl rfl ?_
    have hpos : (1 : UInt16) ≤ s.pool.entry := by
      rw [UInt16.le_iff_toNat_le, UInt16.toNat_one]
      exact Nat.pos_of_ne_zero fun hzero => hempty (UInt16.toNat_inj.mp hzero)
    have hentry : (s.pool.entry - 1).toNat = s.pool.entry.toNat - 1 :=
      UInt16.toNat_sub_of_le _ _ hpos
    have hwakes : (s.task t).wakes ≤ 1 := by
      unfold Task.wakes
      split <;> decide
    dsimp only [Pool.setEntry]
    omega

theorem Mq.Awake.stepHand {hand : Hand} (h : s.Awake) (haccounted : s.Accounted)
    (htask : s.task t = .busy hand) : (s.stepHand t hand).Awake := by
  obtain ⟨woken, h⟩ := h
  have hawake : (s.task t).sleeps = false := by
    rw [htask]
    rfl
  have hwakes : (s.task t).wakes = 0 := by
    rw [htask]
    rfl
  have hentry : s.pool.entry.toNat ≤ s.pool.entry.toNat - (s.task t).wakes + 0 := by
    rw [hwakes]
    exact Nat.le_refl _
  cases hand with
  | taken slot msg =>
      exact h.goto (.busy (.copyIn false slot msg 0)) (s.pool.clearNext slot) s.log 0 hawake rfl rfl
        hentry
  | copyIn urgent slot msg i =>
      cases hbyte : msg[i]? with
      | some b =>
          simp only [Mq.stepHand, hbyte]
          exact h.goto (.busy (.copyIn urgent slot msg (i + 1))) (s.pool.write slot i b) s.log 0
            hawake rfl rfl hentry
      | none =>
          obtain ⟨queue, free, held, d, haccounts⟩ := haccounted
          obtain ⟨held', hlinked⟩ := haccounts.link htask hbyte
          have hlength : (if urgent then slot :: queue else queue ++ [slot]).length =
              queue.length + 1 := by
            cases urgent <;> simp
          have hmore := hlinked.layout.entry
          rw [hlength, ← haccounts.layout.entry] at hmore
          simp only [Mq.stepHand, hbyte]
          obtain ⟨woken', hwaiting⟩ := h.goto .idle _ (s.log ++ [.sent t urgent msg]) 1 hawake rfl rfl
            (hmore.le.trans (Nat.add_le_add_right hentry 1))
          exact hwaiting.resumeFirst
  | copyOut slot size got =>
      rw [Mq.stepHand]
      split
      · exact h.goto (.busy (.copyOut slot size _)) s.pool s.log 0 hawake rfl rfl hentry
      · exact h.goto .idle (s.pool.putBack slot) (s.log ++ [.received t size got]) 0 hawake rfl rfl
          hentry

theorem Mq.Awake.send (h : s.Awake) (htask : s.task t = .idle) (urgent : Bool)
    (msg : List UInt8) : (s.send t urgent msg).Awake := by
  have hawake : (s.task t).sleeps = false := by
    rw [htask]
    rfl
  have hwakes : (s.task t).wakes = 0 := by
    rw [htask]
    rfl
  unfold Mq.send
  split
  · exact h.fail hawake _ (Or.inl hwakes)
  · split
    · exact h.fail hawake _ (Or.inl hwakes)
    · next slot pool hfree =>
        obtain ⟨-, rfl⟩ := Pool.getFree_eq_some.mp hfree
        obtain ⟨woken, h⟩ := h
        have hle : s.pool.entry.toNat ≤ s.pool.entry.toNat - (s.task t).wakes + 0 := by
          rw [hwakes]
          exact Nat.le_refl _
        cases urgent with
        | true => exact h.goto (.busy (.copyIn true slot msg 0)) _ s.log 0 hawake rfl rfl hle
        | false => exact h.goto (.busy (.taken slot msg)) _ s.log 0 hawake rfl rfl hle

theorem Mq.Awake.step {a : Mq.Label θ} (h : s.Awake) (haccounted : s.Accounted)
    (hnext : s.next a = some s') : s'.Awake := by
  cases a with
  | send t urgent msg =>
      cases htask : s.task t with
      | idle =>
          simp only [Mq.next, htask] at hnext
          split_ifs at hnext
          exact Option.some.inj hnext ▸ h.send htask urgent msg
      | busy _ | suspended _ _ | resumed _ _ _ => simp [Mq.next, htask] at hnext
  | recv t size timeout =>
      cases htask : s.task t with
      | idle =>
          simp only [Mq.next, htask] at hnext
          split_ifs at hnext
          exact h.receive (by rw [htask]; rfl) hnext
      | busy _ | suspended _ _ | resumed _ _ _ => simp [Mq.next, htask] at hnext
  | run t elapsed =>
      cases htask : s.task t with
      | idle | suspended _ _ => simp [Mq.next, htask] at hnext
      | busy hand =>
          simp only [Mq.next, htask, Option.some.injEq] at hnext
          exact hnext ▸ h.stepHand haccounted htask
      | resumed size timeout err =>
          have hawake : (s.task t).sleeps = false := by
            rw [htask]
            rfl
          cases err with
          | eok =>
              simp only [Mq.next, htask] at hnext
              exact h.receive hawake hnext
          | error | etimeout | efull =>
              simp only [Mq.next, htask, Option.some.injEq] at hnext
              exact hnext ▸ h.fail hawake _ (Or.inl (by rw [htask]; rfl))
  | timeout t =>
      cases htask : s.task t with
      | suspended size timeout =>
          simp only [Mq.next, htask] at hnext
          split_ifs at hnext
          obtain ⟨woken, h⟩ := h
          exact Option.some.inj hnext ▸ ⟨woken, h.timeout htask⟩
      | idle | busy _ | resumed _ _ _ => simp [Mq.next, htask] at hnext
  | reset =>
      obtain ⟨woken, h⟩ := h
      exact Option.some.inj hnext ▸ ⟨woken, h.reset⟩

end Steps

/-! ## Runs -/

section Runs

variable {s : Mq θ} {junk : Nat → Nat → UInt8} {msgSize poolSize : Nat} {flag : IpcFlag}
  {currentPriority : θ → UInt8}

omit [DecidableEq θ] in
theorem Mq.Awake.init : (Mq.init junk msgSize poolSize flag currentPriority).Awake :=
  ⟨[], List.nodup_nil, fun _ => iff_of_false List.not_mem_nil nofun, Lists.empty fun _ => rfl,
    fun hne => absurd rfl hne⟩

theorem accounted_and_awake_of_reach
    (h : Reach Mq.next (fun _ _ => True) (Mq.init junk msgSize poolSize flag currentPriority) s) :
    s.Accounted ∧ s.Awake :=
  h.invariant (I := fun s => s.Accounted ∧ s.Awake) ⟨.init, .init⟩
    fun hi _ hnext => ⟨hi.1.step hnext, hi.2.step hi.1 hnext⟩

/-- Whatever the interleaving and the time-outs, the list of the suspended threads
holds just those that sleep, and while there are any, each message in the queue
has a thread on its way to it. -/
theorem no_wakeup_lost
    (h : Reach Mq.next (fun _ _ => True) (Mq.init junk msgSize poolSize flag currentPriority) s) :
    (∀ t, t ∈ s.suspendThread ↔ (s.task t).sleeps = true) ∧
      ∃ woken, Lists (Task.woken ∘ s.task) woken ∧
        (s.suspendThread ≠ [] → s.pool.entry.toNat ≤ woken.length) := by
  obtain ⟨-, woken, hwaiting⟩ := accounted_and_awake_of_reach h
  exact ⟨hwaiting.mem, woken, hwaiting.lists, hwaiting.enough⟩

end Runs

/-- Two threads wait; a third sends once, and one of them is on its way. -/
def oneOfTwo : List (Mq.Label (Option Bool)) :=
  [.recv (some false) 4 (-1), .recv (some true) 4 10, .send none false [1]] ++
    List.replicate 3 (.run none 0)

theorem no_wakeup_lost_oneOfTwo :
    ∃ s : Mq (Option Bool), Reach Mq.next (fun _ _ => True)
        (.init (fun _ _ => 0) 4 16 .fifo fun _ => 0) s ∧
      s.suspendThread = [some true] ∧ s.pool.entry = 1 ∧ ∃ woken, Lists (Task.woken ∘ s.task) woken ∧
        1 ≤ woken.length := by
  have hrun : (Transition.exec Mq.next (fun _ _ => True)
      (Mq.init (fun _ _ => 0) 4 16 .fifo fun _ => 0) oneOfTwo).any
        (fun s => s.suspendThread = [some true] ∧ s.pool.entry = 1) = true := by
    decide
  obtain ⟨s, hreach, htest⟩ := Transition.exists_reach_of_exec hrun
  obtain ⟨hlist, hentry⟩ := of_decide_eq_true htest
  obtain ⟨-, woken, hlists, henough⟩ := no_wakeup_lost hreach
  rw [hlist, hentry] at henough
  exact ⟨s, hreach, hlist, hentry, woken, hlists, henough (List.cons_ne_nil _ _)⟩

end Kernel
