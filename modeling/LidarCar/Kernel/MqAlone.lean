-- SUMMARY: A call of rt_mq_send or rt_mq_recv that nothing interrupts is one step of the abstract message queue.
import LidarCar.Kernel.MqWakeup

/-!
# Calls that nothing interrupts

`MessageQueue` sends and receives a message in one step, and has room for
`max_msgs` of them. With no other thread inside the functions the pool does the
same: the steps of one call, taken together, are that step.
-/

namespace Kernel

open Transition (Reach)

variable {θ : Type*} [DecidableEq θ]

/-- No thread is inside one of the functions. -/
def Mq.Quiet (s : Mq θ) : Prop :=
  ∀ t, s.task t = .idle

/-- Take the listed steps. -/
abbrev Mq.exec (s : Mq θ) (as : List (Mq.Label θ)) : Option (Mq θ) :=
  Transition.exec Mq.next (fun _ _ => True) s as

section Runs

variable {s s' : Mq θ} {t : θ}

theorem Mq.exec_cons {a : Mq.Label θ} (h : s.next a = some s') (as : List (Mq.Label θ)) :
    s.exec (a :: as) = s'.exec as := by
  rw [Mq.exec, Transition.exec, if_pos trivial, h]
  rfl

/-- The thread `t` has come back, after `ops`, and nothing else has changed. -/
structure Mq.Returned (s s' : Mq θ) (t : θ) (ops : List (Op θ)) : Prop where
  task : s'.task = Function.update s.task t .idle
  suspendThread : s'.suspendThread = s.suspendThread
  log : s'.log = s.log ++ ops

theorem Mq.Returned.quiet {ops : List (Op θ)} (h : Mq.Returned s s' t ops)
    (hothers : ∀ u, u ≠ t → s.task u = .idle) : s'.Quiet := by
  intro u
  rw [h.task]
  by_cases hu : u = t
  · rw [hu, Function.update_self]
  · rw [Function.update_of_ne hu, hothers u hu]

/-- A step of `t` that changes the pool only, and then the rest of its way. -/
theorem Mq.Returned.of_goto {task : Task} {pool : Pool} {ops : List (Op θ)}
    (h : Mq.Returned { s.goto t task with pool := pool } s' t ops) : Mq.Returned s s' t ops where
  task := h.task.trans (Function.update_idem ..)
  suspendThread := h.suspendThread
  log := h.log

/-- The rest of a copy into a slot, up to the link. -/
theorem Mq.exec_copyIn {urgent : Bool} {slot : Nat} {msg : List UInt8} {i k : Nat}
    (htask : s.task t = .busy (.copyIn urgent slot msg i)) (hlist : s.suspendThread = [])
    (hk : i + k = msg.length) :
    ∃ s', s.exec (List.replicate (k + 1) (.run t 0)) = some s' ∧
      Mq.Returned s s' t [.sent t urgent msg] := by
  induction k generalizing s i with
  | zero =>
      have hbyte : msg[i]? = none := List.getElem?_eq_none_iff.mpr hk.ge
      have hnext : s.next (.run t 0) = some (s.stepHand t (.copyIn urgent slot msg i)) := by
        simp only [Mq.next, htask]
      have hpool : s.stepHand t (.copyIn urgent slot msg i) =
          { (s.goto t .idle).note (.sent t urgent msg) with
            pool := if urgent then s.pool.linkUrgent slot else s.pool.link slot } := by
        simp only [Mq.stepHand, hbyte, Mq.resumeFirst, Mq.note, Mq.goto, hlist]
      refine ⟨_, Mq.exec_cons hnext [], ?_⟩
      rw [hpool]
      exact ⟨rfl, rfl, rfl⟩
  | succ k ih =>
      have hlt : i < msg.length := by omega
      have hnext : s.next (.run t 0) = some
          { s.goto t (.busy (.copyIn urgent slot msg (i + 1))) with
            pool := s.pool.write slot i msg[i] } := by
        simp only [Mq.next, htask, Mq.stepHand, List.getElem?_eq_getElem hlt]
      have htask' : (s.goto t (.busy (.copyIn urgent slot msg (i + 1)))).task t =
          .busy (.copyIn urgent slot msg (i + 1)) := Mq.goto_task_self ..
      obtain ⟨s', hexec, hreturned⟩ := ih (s := { s.goto t (.busy (.copyIn urgent slot msg (i + 1)))
        with pool := s.pool.write slot i msg[i] }) htask' hlist (by omega)
      exact ⟨s', (Mq.exec_cons hnext _).trans hexec, hreturned.of_goto⟩

/-- The rest of a copy out of a slot, up to the return. -/
theorem Mq.exec_copyOut {slot size : Nat} {got : List UInt8} {k : Nat}
    (htask : s.task t = .busy (.copyOut slot size got))
    (hk : got.length + k = min size s.pool.msgSize.toNat) :
    ∃ s' bytes, s.exec (List.replicate (k + 1) (.run t 0)) = some s' ∧
      Mq.Returned s s' t [.received t size bytes] := by
  induction k generalizing s got with
  | zero =>
      have hdone : ¬ (got.length < size ∧ got.length < s.pool.msgSize.toNat) := by omega
      have hnext : s.next (.run t 0) = some
          { (s.goto t .idle).note (.received t size got) with pool := s.pool.putBack slot } := by
        simp only [Mq.next, htask, Mq.stepHand, if_neg hdone]
      exact ⟨_, got, Mq.exec_cons hnext [], rfl, rfl, rfl⟩
  | succ k ih =>
      have hmore : got.length < size ∧ got.length < s.pool.msgSize.toNat := by omega
      have hnext : s.next (.run t 0) = some
          (s.goto t (.busy (.copyOut slot size (got ++ [s.pool.data slot got.length])))) := by
        simp only [Mq.next, htask, Mq.stepHand, if_pos hmore]
      have hk' : (got ++ [s.pool.data slot got.length]).length + k =
          min size s.pool.msgSize.toNat := by
        rw [List.length_append, List.length_singleton, Nat.add_assoc, Nat.add_comm 1 k]
        exact hk
      obtain ⟨s', bytes, hexec, hreturned⟩ := ih (Mq.goto_task_self s t _) hk'
      exact ⟨s', bytes, (Mq.exec_cons hnext _).trans hexec, ⟨hreturned.of_goto.task,
        hreturned.suspendThread, hreturned.log⟩⟩

/-! ## The abstract message queue -/

/-- The messages linked and not taken since are those of `mq`, which has as many
places as there are slots. -/
structure Mq.Represents (s : Mq θ) (mq : MessageQueue (List UInt8)) : Prop where
  messages : (Deque.replay s.log).map Deque.queue = some mq.messages
  maxMsgs : s.pool.maxMsgs.toNat = mq.maxMsgs

variable {junk : Nat → Nat → UInt8} {msgSize poolSize : Nat} {flag : IpcFlag}
  {currentPriority : θ → UInt8} {mq : MessageQueue (List UInt8)}

theorem Mq.exec_maxMsgs {as : List (Mq.Label θ)} (h : s.exec as = some s') :
    s'.pool.maxMsgs = s.pool.maxMsgs := by
  refine (Transition.reach_of_exec h).invariant
    (I := fun s' => s'.pool.maxMsgs = s.pool.maxMsgs) rfl ?_
  exact fun hs _ hnext => (Mq.next_maxMsgs hnext).trans hs

/-- In a quiet state all slots are queued or free. -/
theorem Mq.Quiet.accounts (hquiet : s.Quiet) (h : s.Accounted) :
    ∃ queue free d, s.Accounts queue free [] d := by
  obtain ⟨queue, free, held, d, h⟩ := h
  have hnil : held = [] := by
    refine List.eq_nil_iff_forall_not_mem.mpr fun ⟨t, hand⟩ hmem => ?_
    have hhand := (h.hands.mem t hand).mp hmem
    rw [Function.comp_apply, hquiet t] at hhand
    cases hhand
  exact ⟨queue, free, d, hnil ▸ h⟩

omit [DecidableEq θ] in
/-- In a quiet state no thread waits. -/
theorem Mq.Quiet.suspendThread_eq_nil (hquiet : s.Quiet) (h : s.Awake) : s.suspendThread = [] := by
  obtain ⟨woken, h⟩ := h
  refine List.eq_nil_iff_forall_not_mem.mpr fun t hmem => ?_
  rw [h.mem, hquiet t] at hmem
  cases hmem

/-- What a call sends or takes, the replay of the log sends or takes. -/
theorem Mq.Represents.replay (h : s.Represents mq) :
    ∃ d, Deque.replay s.log = some d ∧ d.queue = mq.messages := by
  obtain ⟨d, hd, hqueue⟩ := Option.map_eq_some_iff.mp h.messages
  exact ⟨d, hd, hqueue⟩

/-- The operation that the result of `rt_mq_send` stands for. -/
def Err.sendOp (t : θ) (msg : List UInt8) : Err → Op θ
  | .eok => .sent t false msg
  | err => .failed t err

/-- `rt_mq_send`, called by `t` with nobody else inside. -/
theorem send_alone
    (h : Reach Mq.next (fun _ _ => True) (Mq.init junk msgSize poolSize flag currentPriority) s)
    (hquiet : s.Quiet) (hmq : s.Represents mq) (t : θ) {msg : List UInt8} (hne : msg ≠ [])
    (hfits : msg.length ≤ s.pool.msgSize.toNat) :
    ∃ n s', s.exec (.send t false msg :: List.replicate n (.run t 0)) = some s' ∧ s'.Quiet ∧
      s'.Represents (mq.send msg).1 ∧ s'.log = s.log ++ [(mq.send msg).2.sendOp t msg] := by
  have hboth := accounted_and_awake_of_reach h
  obtain ⟨queue, free, d, haccounts⟩ := hquiet.accounts hboth.1
  have hlist := hquiet.suspendThread_eq_nil hboth.2
  obtain ⟨d', hd', hqueue⟩ := hmq.replay
  obtain rfl : d = d' := Option.some.inj (haccounts.replay.symm.trans hd')
  have hlength : queue.length = mq.messages.length := by
    rw [← hqueue]
    exact haccounts.stored.length_eq
  have hsend : s.next (.send t false msg) = some (s.send t false msg) := by
    simp only [Mq.next, hquiet t, if_neg hne]
  have hnot : ¬ msg.length > s.pool.msgSize.toNat := Nat.not_lt.mpr hfits
  cases hfree : s.pool.getFree with
  | none =>
      have hfull : ¬ mq.messages.length < mq.maxMsgs := by
        have hcount := haccounts.layout.getFree_eq_none_iff.mp hfree
        rw [← hmq.maxMsgs, ← hcount, hlength]
        exact Nat.lt_irrefl _
      have hfail : s.send t false msg = s.fail t .efull := by
        simp only [Mq.send, if_neg hnot, hfree]
      have habstract : mq.send msg = (mq, .efull) := if_neg hfull
      rw [habstract]
      refine ⟨0, s.fail t .efull, ?_, ?_, ⟨?_, hmq.maxMsgs⟩, rfl⟩
      · rw [Mq.exec_cons hsend, hfail]
        rfl
      · intro u
        by_cases hu : u = t
        · rw [hu]
          exact Mq.goto_task_self ..
        · exact (Mq.goto_task_of_ne hu).trans (hquiet u)
      · rw [Mq.fail, Mq.note, show (s.goto t .idle).log = s.log from rfl,
          Deque.replay_concat hd']
        exact congrArg some hqueue
  | some q =>
      obtain ⟨slot, pool⟩ := q
      have hroom : mq.messages.length < mq.maxMsgs := by
        have hsome : s.pool.getFree ≠ none := by
          rw [hfree]
          exact Option.some_ne_none _
        have hcount := mt haccounts.layout.getFree_eq_none_iff.mpr hsome
        have htotal := haccounts.layout.length
        rw [← hmq.maxMsgs, ← hlength]
        simp only [List.map_nil, List.length_nil] at hcount htotal
        omega
      have habstract : mq.send msg = ({ mq with messages := mq.messages ++ [msg] }, .eok) :=
        if_pos hroom
      have hstart : s.next (.send t false msg) =
          some { s.goto t (.busy (.taken slot msg)) with pool := pool } := by
        rw [hsend, Mq.send, if_neg hnot, hfree]
        rfl
      have hclear : Mq.next { s.goto t (.busy (.taken slot msg)) with pool := pool } (.run t 0) =
          some { s.goto t (.busy (.copyIn false slot msg 0)) with pool := pool.clearNext slot } := by
        simp only [Mq.next, Mq.goto, Function.update_self, Mq.stepHand, Function.update_idem]
      obtain ⟨s', hexec, hreturned⟩ := Mq.exec_copyIn (s := { s.goto t
        (.busy (.copyIn false slot msg 0)) with pool := pool.clearNext slot })
        (Mq.goto_task_self s t _) hlist (Nat.zero_add _)
      have hall := (Mq.exec_cons hstart _).trans ((Mq.exec_cons hclear _).trans hexec)
      have hback := hreturned.of_goto
      rw [habstract]
      refine ⟨msg.length + 2, s', hall, hback.quiet fun u _ => hquiet u, ⟨?_, ?_⟩, hback.log⟩
      · rw [hback.log, Deque.replay_concat hd', ← hqueue]
        rfl
      · rw [Mq.exec_maxMsgs hall]
        exact hmq.maxMsgs

theorem send_alone_first :
    ∃ n s', (Mq.init (fun _ _ => 0) 4 16 .fifo fun _ : Bool => 0).exec
        (.send false false [1, 2] :: List.replicate n (.run false 0)) = some s' ∧
      s'.Quiet ∧ s'.Represents ⟨[[1, 2]], 2⟩ := by
  have hmq : (Mq.init (fun _ _ => 0) 4 16 .fifo fun _ : Bool => 0).Represents ⟨[], 2⟩ :=
    ⟨rfl, by decide⟩
  obtain ⟨n, s', hexec, hquiet, hrepresents, -⟩ :=
    send_alone .init (fun _ => rfl) hmq false (List.cons_ne_nil 1 [2]) (by decide)
  exact ⟨n, s', hexec, hquiet, hrepresents⟩

/-- `rt_mq_recv`, called by `t` with nobody else inside and a message in the queue. -/
theorem recv_alone
    (h : Reach Mq.next (fun _ _ => True) (Mq.init junk msgSize poolSize flag currentPriority) s)
    (hquiet : s.Quiet) (hmq : s.Represents mq) (t : θ) {size : Nat} (timeout : Int32)
    (hsize : 0 < size) {msg : List UInt8} {rest : MessageQueue (List UInt8)}
    (hrecv : mq.recv = some (msg, rest)) :
    ∃ n s' bytes, s.exec (.recv t size timeout :: List.replicate n (.run t 0)) = some s' ∧
      s'.Quiet ∧ s'.Represents rest ∧ s'.log = s.log ++ [.took t, .received t size bytes] ∧
      bytes.take msg.length = msg.take size := by
  have hboth := accounted_and_awake_of_reach h
  obtain ⟨queue, free, d, haccounts⟩ := hquiet.accounts hboth.1
  obtain ⟨d', hd', hqueue⟩ := hmq.replay
  obtain rfl : d = d' := Option.some.inj (haccounts.replay.symm.trans hd')
  obtain ⟨msgs, hmsgs, rfl⟩ : ∃ msgs, mq.messages = msg :: msgs ∧
      rest = { mq with messages := msgs } := by
    unfold MessageQueue.recv at hrecv
    split at hrecv
    · cases hrecv
    · next msg' msgs hmsgs =>
        obtain ⟨rfl, rfl⟩ := Prod.mk.inj (Option.some.inj hrecv)
        exact ⟨msgs, hmsgs, rfl⟩
  have hstored := haccounts.stored
  rw [hqueue, hmsgs] at hstored
  obtain ⟨slot, queue', -, -, rfl⟩ := List.forall₂_cons_right_iff.mp hstored
  have hhead : s.pool.msgQueueHead = some slot := haccounts.layout.fromHead.1
  have hentry : s.pool.entry ≠ 0 := by
    rw [Ne, haccounts.layout.entry_eq_zero_iff]
    exact List.cons_ne_nil _ _
  have hunlink : s.pool.unlink =
      some (slot, (s.pool.moveHead slot).setEntry (s.pool.entry - 1)) :=
    Pool.unlink_eq_some.mpr ⟨hhead, rfl⟩
  have hstart : s.next (.recv t size timeout) = some
      { (s.goto t (.busy (.copyOut slot size []))).note (.took t) with
        pool := (s.pool.moveHead slot).setEntry (s.pool.entry - 1) } := by
    simp only [Mq.next, hquiet t, if_neg hsize.ne', Mq.receive, if_neg hentry, hunlink,
      Option.map_some]
  obtain ⟨s', bytes, hexec, hreturned⟩ := Mq.exec_copyOut (s :=
    { (s.goto t (.busy (.copyOut slot size []))).note (.took t) with
      pool := (s.pool.moveHead slot).setEntry (s.pool.entry - 1) })
    (Mq.goto_task_self s t _) (Nat.zero_add _)
  have hall := (Mq.exec_cons hstart _).trans hexec
  have hlog : s'.log = s.log ++ [.took t, .received t size bytes] := by
    rw [hreturned.log]
    exact List.append_assoc ..
  have htask : s'.task = Function.update s.task t .idle :=
    hreturned.task.trans (Function.update_idem ..)
  have hquiet' : s'.Quiet := by
    intro u
    rw [htask]
    by_cases hu : u = t
    · rw [hu, Function.update_self]
    · rw [Function.update_of_ne hu, hquiet u]
  -- the history of the whole call is one of a double-ended queue
  obtain ⟨d'', -, hd'', -, -, -⟩ := history_of_deque (h.trans (Transition.reach_of_exec hall))
  have htook : d.step (.took t) =
      some { queue := msgs, inHand := Function.update d.inHand t (some msg) } := by
    simp only [Deque.step, hqueue, hmsgs]
  have hsplit : s.log ++ [.took t, .received t size bytes] =
      s.log ++ [.took t] ++ [.received t size bytes] := by
    simp
  rw [hlog, hsplit, Deque.replay_concat ((Deque.replay_concat hd' _).trans htook)] at hd''
  have hreceived : bytes.take msg.length = msg.take size ∧ d''.queue = msgs := by
    simp only [Deque.step, Function.update_self] at hd''
    split_ifs at hd'' with hbytes
    exact ⟨hbytes, (Option.some.inj hd'') ▸ rfl⟩
  refine ⟨_, s', bytes, hall, hquiet', ⟨?_, ?_⟩, hlog, hreceived.1⟩
  · rw [hlog, hsplit, Deque.replay_concat ((Deque.replay_concat hd' _).trans htook), hd'',
      Option.map_some, hreceived.2]
  · rw [Mq.exec_maxMsgs hall]
    exact hmq.maxMsgs

theorem recv_alone_first :
    ∃ s s' : Mq Bool, ∃ n bytes,
      s.exec (.recv true 4 (-1) :: List.replicate n (.run true 0)) = some s' ∧
      s'.Represents ⟨[], 2⟩ ∧ bytes.take 2 = [1, 2] ∧
        s'.log = s.log ++ [.took true, .received true 4 bytes] := by
  have hrun : (Transition.exec Mq.next (fun _ _ => True)
      (Mq.init (fun _ _ => 0) 4 16 .fifo fun _ : Bool => 0)
      (.send false false [1, 2] :: List.replicate 4 (.run false 0))).any
        (fun s => (∀ t, s.task t = .idle) ∧ (Deque.replay s.log).map Deque.queue = some [[1, 2]] ∧
          s.pool.maxMsgs.toNat = 2) = true := by
    decide
  obtain ⟨s, hreach, htest⟩ := Transition.exists_reach_of_exec hrun
  obtain ⟨hquiet, hmessages, hmaxMsgs⟩ := of_decide_eq_true htest
  have hmq : s.Represents ⟨[[1, 2]], 2⟩ := ⟨hmessages, hmaxMsgs⟩
  obtain ⟨n, s', bytes, hexec, -, hrepresents, hlog, hbytes⟩ :=
    recv_alone hreach hquiet hmq true (-1) (by decide : 0 < 4) rfl
  exact ⟨s, s', n, bytes, hexec, hrepresents, hbytes, hlog⟩

end Runs

end Kernel
