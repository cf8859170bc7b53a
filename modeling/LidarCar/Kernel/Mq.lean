-- SUMMARY: A message queue between any number of threads: the functions of ipc.c step by step, and its history as a double-ended queue.
import LidarCar.Base.Roster
import LidarCar.Base.Transition
import LidarCar.Kernel.Pool
import LidarCar.Kernel.Suspend

/-!
# Message queues between threads

`rt_mq_send` and `rt_mq_recv` copy a message with interrupts enabled, between two
critical sections. Other threads send, receive and run out of time meanwhile. A
step is one critical section, or one byte of a copy.
-/

namespace Kernel

variable {θ : Type*} [DecidableEq θ]

/-! ## Threads -/

/-- A thread with a slot in its hands. -/
inductive Hand where
  /-- `rt_mq_send` has taken the slot out of the free list. -/
  | taken (slot : Nat) (msg : List UInt8)
  /-- The message is copied into the slot, up to byte `i`. -/
  | copyIn (urgent : Bool) (slot : Nat) (msg : List UInt8) (i : Nat)
  /-- `rt_mq_recv` has copied `got` out of the slot, into a buffer of `size` bytes. -/
  | copyOut (slot size : Nat) (got : List UInt8)
  deriving DecidableEq

def Hand.slot : Hand → Nat
  | .taken slot _ | .copyIn _ slot _ _ | .copyOut slot _ _ => slot

inductive Task where
  /-- In none of the functions. -/
  | idle
  | busy (hand : Hand)
  /-- Suspended in `rt_mq_recv`. -/
  | suspended (size : Nat) (timeout : Int32)
  /-- Behind `rt_schedule` in `rt_mq_recv`, with `thread->error`. -/
  | resumed (size : Nat) (timeout : Int32) (err : Err)
  deriving DecidableEq

def Task.hand : Task → Option Hand
  | .busy hand => some hand
  | _ => none

/-- The thread is on its way to the queue. -/
def Task.woken : Task → Option Unit
  | .resumed _ _ .eok => some ()
  | _ => none

/-- `rt_thread_resume`, with `thread->error` set to `err`. -/
def Task.resume (err : Err) : Task → Task
  | .suspended size timeout => .resumed size timeout err
  | task => task

/-- What happens to the queue, in order. -/
inductive Op (θ : Type*) where
  /-- A message is linked. -/
  | sent (t : θ) (urgent : Bool) (msg : List UInt8)
  /-- The first message is taken out of the queue. -/
  | took (t : θ)
  /-- `rt_mq_recv` returns with `bytes` in the buffer of `size` bytes. -/
  | received (t : θ) (size : Nat) (bytes : List UInt8)
  /-- A function returns an error. -/
  | failed (t : θ) (err : Err)
  | reset
  deriving DecidableEq

/-- A `struct rt_messagequeue` and the threads that use it. -/
structure Mq (θ : Type*) where
  pool : Pool
  flag : IpcFlag
  currentPriority : θ → UInt8
  suspendThread : List θ
  task : θ → Task
  log : List (Op θ)

/-! ## Steps -/

/-- Thread `t` goes on with `task`. -/
def Mq.goto (s : Mq θ) (t : θ) (task : Task) : Mq θ :=
  { s with task := Function.update s.task t task }

def Mq.note (s : Mq θ) (op : Op θ) : Mq θ :=
  { s with log := s.log ++ [op] }

/-- Thread `t` returns an error. -/
def Mq.fail (s : Mq θ) (t : θ) (err : Err) : Mq θ :=
  (s.goto t .idle).note (.failed t err)

/-- `rt_ipc_list_resume`, if a thread is suspended. -/
def Mq.resumeFirst (s : Mq θ) : Mq θ :=
  match s.suspendThread with
  | [] => s
  | first :: rest => { s.goto first ((s.task first).resume .eok) with suspendThread := rest }

/-- `rt_ipc_list_resume_all`. -/
def Mq.resumeAll (s : Mq θ) : Mq θ :=
  { s with
    suspendThread := []
    task := fun t => if t ∈ s.suspendThread then (s.task t).resume .error else s.task t }

/-- `timeout` after `elapsed` ticks of waiting. -/
def remaining (timeout : Int32) (elapsed : UInt32) : Int32 :=
  if timeout > 0 then
    let left := timeout - elapsed.toInt32
    if left < 0 then 0 else left
  else timeout

/-- A round of the loop of `rt_mq_recv`, and what follows it up to the copy. There
is no step where the code would follow a null pointer. -/
def Mq.receive (s : Mq θ) (t : θ) (size : Nat) (timeout : Int32) : Option (Mq θ) :=
  if s.pool.entry = 0 then
    if timeout = 0 then some (s.fail t .etimeout)
    else
      some { s.goto t (.suspended size timeout) with
        suspendThread := ipcListSuspend s.flag s.currentPriority s.suspendThread t }
  else
    s.pool.unlink.map fun (slot, pool) =>
      { (s.goto t (.busy (.copyOut slot size []))).note (.took t) with pool := pool }

/-- A thread with a slot in its hands takes its next step. -/
def Mq.stepHand (s : Mq θ) (t : θ) : Hand → Mq θ
  | .taken slot msg =>
    { s.goto t (.busy (.copyIn false slot msg 0)) with pool := s.pool.clearNext slot }
  | .copyIn urgent slot msg i =>
    match msg[i]? with
    | some b =>
      { s.goto t (.busy (.copyIn urgent slot msg (i + 1))) with pool := s.pool.write slot i b }
    | none =>
      Mq.resumeFirst
        { (s.goto t .idle).note (.sent t urgent msg) with
          pool := if urgent then s.pool.linkUrgent slot else s.pool.link slot }
  | .copyOut slot size got =>
    if got.length < size ∧ got.length < s.pool.msgSize.toNat then
      s.goto t (.busy (.copyOut slot size (got ++ [s.pool.data slot got.length])))
    else
      { (s.goto t .idle).note (.received t size got) with pool := s.pool.putBack slot }

inductive Mq.Label (θ : Type*) where
  /-- `rt_mq_send`, or `rt_mq_urgent`, is called. -/
  | send (t : θ) (urgent : Bool) (msg : List UInt8)
  /-- `rt_mq_recv` is called. -/
  | recv (t : θ) (size : Nat) (timeout : Int32)
  /-- The thread takes its next step, `elapsed` ticks after it was suspended. -/
  | run (t : θ) (elapsed : UInt32)
  /-- `rt_thread_timeout` -/
  | timeout (t : θ)
  /-- `rt_mq_control(mq, RT_IPC_CMD_RESET, …)` -/
  | reset

/-- The message is refused, or a slot taken for it. -/
def Mq.send (s : Mq θ) (t : θ) (urgent : Bool) (msg : List UInt8) : Mq θ :=
  if msg.length > s.pool.msgSize.toNat then s.fail t .error
  else
    match s.pool.getFree with
    | none => s.fail t .efull
    | some (slot, pool) =>
      { s.goto t (.busy (if urgent then .copyIn true slot msg 0 else .taken slot msg)) with
        pool := pool }

def Mq.next (s : Mq θ) : Mq.Label θ → Option (Mq θ)
  | .send t urgent msg =>
    match s.task t with
    | .idle => if msg = [] then none else some (s.send t urgent msg)
    | _ => none
  | .recv t size timeout =>
    match s.task t with
    | .idle => if size = 0 then none else s.receive t size timeout
    | _ => none
  | .run t elapsed =>
    match s.task t with
    | .busy hand => some (s.stepHand t hand)
    | .resumed size timeout .eok => s.receive t size (remaining timeout elapsed)
    | .resumed _ _ err => some (s.fail t err)
    | .idle | .suspended _ _ => none
  | .timeout t =>
    match s.task t with
    | .suspended size timeout =>
      if timeout > 0 then
        some { s.goto t (.resumed size timeout .etimeout) with
          suspendThread := s.suspendThread.filter (· ≠ t) }
      else none
    | _ => none
  | .reset => some { s.resumeAll.note .reset with pool := s.pool.reset }

/-- After `rt_mq_init`. -/
def Mq.init (junk : Nat → Nat → UInt8) (msgSize poolSize : Nat) (flag : IpcFlag)
    (currentPriority : θ → UInt8) : Mq θ where
  pool := .init junk msgSize poolSize
  flag := flag
  currentPriority := currentPriority
  suspendThread := []
  task := fun _ => .idle
  log := []

end Kernel
