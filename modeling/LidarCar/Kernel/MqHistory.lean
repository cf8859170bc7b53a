-- SUMMARY: Any interleaving of senders and receivers leaves the slots of a message queue accounted for and its history that of a double-ended queue.
import LidarCar.Kernel.Mq

/-!
# The history of a message queue

Seen from outside, a message queue is a double-ended queue: each link appends a
message at once, each unlink takes the first one, and what a receiver ends up
with is the message it took. That the copies take time, and that the slots are
used again, does not show.
-/

namespace Kernel

open Chain (Linked)
open Roster (Lists)
open Transition (Reach)

variable {θ : Type*} [DecidableEq θ]

/-! ## Double-ended queues -/

/-- The messages that are linked, and those that are taken and not yet returned. -/
structure Deque (θ : Type*) where
  queue : List (List UInt8)
  inHand : θ → Option (List UInt8)

def Deque.empty : Deque θ where
  queue := []
  inHand := fun _ => none

/-- One operation on a double-ended queue, where it allows it. A buffer of `size`
bytes has to begin with the message, as far as that fits. -/
def Deque.step (d : Deque θ) : Op θ → Option (Deque θ)
  | .sent _ urgent msg =>
    some { d with queue := if urgent then msg :: d.queue else d.queue ++ [msg] }
  | .took t =>
    match d.queue with
    | [] => none
    | msg :: rest => some { queue := rest, inHand := Function.update d.inHand t (some msg) }
  | .received t size bytes =>
    match d.inHand t with
    | none => none
    | some msg =>
      if bytes.take msg.length = msg.take size then
        some { d with inHand := Function.update d.inHand t none }
      else none
  | .failed _ _ => some d
  | .reset => some { d with queue := [] }

/-- The double-ended queue after the operations, if it allows them all. -/
def Deque.replay (log : List (Op θ)) : Option (Deque θ) :=
  log.foldlM Deque.step .empty

theorem Deque.replay_concat {log : List (Op θ)} {d : Deque θ} (h : Deque.replay log = some d)
    (op : Op θ) : Deque.replay (log ++ [op]) = d.step op := by
  rw [Deque.replay, List.foldlM_append, ← Deque.replay, h]
  simp

/-! ## The slots in the threads' hands -/

/-- The slot begins with the message. -/
structure Pool.Stores (p : Pool) (slot : Nat) (msg : List UInt8) : Prop where
  fits : msg.length ≤ p.msgSize.toNat
  bytes : p.bytes slot msg.length = msg

/-- `rt_memcpy` has copied `i` bytes of the message into the slot. -/
structure Pool.Copied (p : Pool) (urgent : Bool) (slot : Nat) (msg : List UInt8) (i : Nat) :
    Prop where
  next : urgent = false → p.next slot = none
  fits : msg.length ≤ p.msgSize.toNat
  le : i ≤ msg.length
  bytes : p.bytes slot i = msg.take i

/-- `rt_memcpy` has copied `got` out of the slot, of the message `carried`. -/
structure Pool.Fetched (p : Pool) (slot size : Nat) (got : List UInt8)
    (carried : Option (List UInt8)) : Prop where
  le : got.length ≤ min size p.msgSize.toNat
  bytes : p.bytes slot got.length = got
  stores : ∃ msg, carried = some msg ∧ p.Stores slot msg

/-- How far a thread has got with its slot. `carried` is the message it took out of
the queue. -/
def Hand.Ok (p : Pool) (carried : Option (List UInt8)) : Hand → Prop
  | .taken _ msg => msg.length ≤ p.msgSize.toNat
  | .copyIn urgent slot msg i => p.Copied urgent slot msg i
  | .copyOut slot size got => p.Fetched slot size got carried

/-- The slots and the history of the queue agree. -/
structure Mq.Accounts (s : Mq θ) (queue free : List Nat) (held : List (θ × Hand))
    (d : Deque θ) : Prop where
  hands : Lists (Task.hand ∘ s.task) held
  layout : s.pool.Layout queue free (held.map fun h => h.2.slot)
  replay : Deque.replay s.log = some d
  stored : List.Forall₂ s.pool.Stores queue d.queue
  ok : ∀ t hand, (s.task t).hand = some hand → hand.Ok s.pool (d.inHand t)

section Frame

variable {p p' : Pool} {carried : Option (List UInt8)} {hand : Hand}

theorem Pool.Stores.frame {slot : Nat} {msg : List UInt8} (h : p.Stores slot msg)
    (hsize : p'.msgSize = p.msgSize) (hdata : p'.data slot = p.data slot) : p'.Stores slot msg where
  fits := hsize ▸ h.fits
  bytes := (Pool.bytes_congr hdata _).trans h.bytes

theorem Pool.Stores.frame_all {slots : List Nat} {msgs : List (List UInt8)}
    (h : List.Forall₂ p.Stores slots msgs) (hsize : p'.msgSize = p.msgSize)
    (hdata : ∀ slot ∈ slots, p'.data slot = p.data slot) :
    List.Forall₂ p'.Stores slots msgs := by
  induction h with
  | nil => exact .nil
  | cons hstores _ ih =>
      refine .cons (hstores.frame hsize (hdata _ List.mem_cons_self)) (ih fun slot hslot => ?_)
      exact hdata slot (List.mem_cons_of_mem _ hslot)

/-- What happens to other slots does not matter. -/
theorem Hand.Ok.frame (h : hand.Ok p carried) (hsize : p'.msgSize = p.msgSize)
    (hnext : p'.next hand.slot = p.next hand.slot)
    (hdata : p'.data hand.slot = p.data hand.slot) : hand.Ok p' carried := by
  cases hand with
  | taken slot msg =>
      rw [Hand.Ok, hsize]
      exact h
  | copyIn urgent slot msg i =>
      obtain ⟨hnone, hfits, hle, hbytes⟩ := h
      exact ⟨fun hu => hnext.trans (hnone hu), hsize ▸ hfits, hle,
        (Pool.bytes_congr hdata i).trans hbytes⟩
  | copyOut slot size got =>
      obtain ⟨hle, hgot, msg, hcarried, hstores⟩ := h
      exact ⟨hsize ▸ hle, (Pool.bytes_congr hdata _).trans hgot, msg, hcarried,
        hstores.frame hsize hdata⟩

end Frame

section Accounts

variable {s : Mq θ} {queue free : List Nat} {held : List (θ × Hand)} {d : Deque θ} {t : θ}
  {task : Task} {hand : Hand}

theorem Mq.hand_goto (s : Mq θ) (t : θ) (task : Task) :
    Task.hand ∘ (s.goto t task).task = Function.update (Task.hand ∘ s.task) t task.hand :=
  Function.comp_update ..

@[simp] theorem Mq.goto_task_self (s : Mq θ) (t : θ) (task : Task) : (s.goto t task).task t = task :=
  Function.update_self ..

theorem Mq.goto_task_of_ne {u : θ} (hu : u ≠ t) : (s.goto t task).task u = s.task u :=
  Function.update_of_ne hu ..

@[simp] theorem Task.hand_resume (err : Err) (task : Task) : (task.resume err).hand = task.hand := by
  cases task <;> rfl

/-- The slot of a busy thread, and the slots of the others. -/
theorem Mq.Accounts.split (h : s.Accounts queue free held d) (ht : (s.task t).hand = some hand) :
    ∃ held', Lists (Function.update (Task.hand ∘ s.task) t none) held' ∧
      s.pool.Layout queue free (hand.slot :: held'.map fun h => h.2.slot) := by
  obtain ⟨held', hperm, hlists⟩ := h.hands.remove ht
  exact ⟨held', hlists, h.layout.perm (hperm.map _)⟩

/-- Slots in the hands of two threads are different. -/
theorem Mq.Accounts.slot_ne (h : s.Accounts queue free held d) (ht : (s.task t).hand = some hand)
    {u : θ} {other : Hand} (hu : (s.task u).hand = some other) (hne : u ≠ t) :
    other.slot ≠ hand.slot := by
  obtain ⟨held', hlists, hlayout⟩ := h.split ht
  have hmem : (u, other) ∈ held' := by
    rw [hlists.mem, Function.update_of_ne hne]
    exact hu
  have hslot : other.slot ∈ held'.map fun h => h.2.slot := List.mem_map.mpr ⟨(u, other), hmem, rfl⟩
  exact fun heq => hlayout.held_not_mem.2.2 (heq ▸ hslot)

/-- A slot in the hands of a thread is not in the queue. -/
theorem Mq.Accounts.slot_not_mem (h : s.Accounts queue free held d)
    (ht : (s.task t).hand = some hand) : hand.slot ∉ queue := by
  obtain ⟨held', -, hlayout⟩ := h.split ht
  exact hlayout.held_not_mem.1

/-! ## Steps of one thread -/

/-- Thread `t` goes on with another hand, and leaves the slots of the others alone. -/
theorem Mq.Accounts.move {s' : Mq θ} {queue' free' : List Nat} {held' : List (θ × Hand)}
    {d' : Deque θ} {new : Option Hand} (h : s.Accounts queue free held d)
    (hhand : Task.hand ∘ s'.task = Function.update (Task.hand ∘ s.task) t new)
    (hlists : Lists (Function.update (Task.hand ∘ s.task) t new) held')
    (hlayout : s'.pool.Layout queue' free' (held'.map fun h => h.2.slot))
    (hreplay : Deque.replay s'.log = some d')
    (hstored : List.Forall₂ s'.pool.Stores queue' d'.queue)
    (hsize : s'.pool.msgSize = s.pool.msgSize)
    (hothers : ∀ u other, u ≠ t → (s.task u).hand = some other →
      s'.pool.next other.slot = s.pool.next other.slot ∧
        s'.pool.data other.slot = s.pool.data other.slot)
    (hcarried : ∀ u, u ≠ t → d'.inHand u = d.inHand u)
    (hok : ∀ hand, new = some hand → hand.Ok s'.pool (d'.inHand t)) :
    s'.Accounts queue' free' held' d' where
  hands := hhand ▸ hlists
  layout := hlayout
  replay := hreplay
  stored := hstored
  ok := by
    intro u other hother
    have hu := congrFun hhand u
    rw [Function.comp_apply, hother] at hu
    by_cases hut : u = t
    · subst hut
      rw [Function.update_self] at hu
      exact hok other hu.symm
    · rw [Function.update_of_ne hut] at hu
      obtain ⟨hnext, hdata⟩ := hothers u other hut hu.symm
      rw [hcarried u hut]
      exact (h.ok u other hu.symm).frame hsize hnext hdata

/-- A step that changes neither the slots nor what the threads do with them. -/
theorem Mq.Accounts.congr {s' : Mq θ} (h : s.Accounts queue free held d)
    (hhand : ∀ u, (s'.task u).hand = (s.task u).hand) (hpool : s'.pool = s.pool)
    (hlog : s'.log = s.log) : s'.Accounts queue free held d where
  hands := h.hands.congr hhand
  layout := hpool ▸ h.layout
  replay := hlog ▸ h.replay
  stored := hpool ▸ h.stored
  ok := fun u hand hu => hpool ▸ h.ok u hand ((hhand u).symm.trans hu)

theorem Mq.Accounts.resumeFirst (h : s.Accounts queue free held d) :
    s.resumeFirst.Accounts queue free held d := by
  unfold Mq.resumeFirst
  split
  · exact h
  · next first rest hlist =>
      refine h.congr (fun u => ?_) rfl rfl
      by_cases hu : u = first
      · subst hu
        exact (congrArg Task.hand (Mq.goto_task_self ..)).trans (Task.hand_resume _ _)
      · exact congrArg Task.hand (Mq.goto_task_of_ne hu)

/-- A thread without a slot goes on without one. -/
theorem Mq.Accounts.goto (h : s.Accounts queue free held d) (ht : (s.task t).hand = none)
    (htask : task.hand = none) : (s.goto t task).Accounts queue free held d := by
  refine h.congr (fun u => ?_) rfl rfl
  by_cases hu : u = t
  · subst hu
    rw [Mq.goto_task_self, htask, ht]
  · rw [Mq.goto_task_of_ne hu]

theorem Mq.Accounts.fail (h : s.Accounts queue free held d) (ht : (s.task t).hand = none)
    (err : Err) : (s.fail t err).Accounts queue free held d := by
  have hgoto : (s.goto t .idle).Accounts queue free held d := h.goto ht rfl
  exact ⟨hgoto.hands, hgoto.layout, Deque.replay_concat h.replay _, hgoto.stored, hgoto.ok⟩

/-- A slot is taken for a message. -/
theorem Mq.Accounts.send {slot : Nat} {pool : Pool} {hand : Hand}
    (h : s.Accounts queue free held d) (ht : (s.task t).hand = none)
    (hfree : s.pool.getFree = some (slot, pool)) (hslot : hand.slot = slot)
    (hok : hand.Ok pool (d.inHand t)) :
    ∃ free', Mq.Accounts { s.goto t (.busy hand) with pool := pool } queue free'
      ((t, hand) :: held) d := by
  obtain ⟨free', -, hlayout⟩ := h.layout.getFree hfree
  obtain ⟨-, rfl⟩ := Pool.getFree_eq_some.mp hfree
  refine ⟨free', h.move (s.hand_goto t (.busy hand)) (h.hands.insert ht hand) ?_ h.replay
    (Pool.Stores.frame_all h.stored rfl fun _ _ => rfl) rfl (fun _ _ _ _ => ⟨rfl, rfl⟩) (fun _ _ => rfl) ?_⟩
  · rw [List.map_cons, hslot]
    exact hlayout
  · rintro _ ⟨rfl⟩
    exact hok

/-- A thread goes on with the slot in its hands. -/
theorem Mq.Accounts.work {pool : Pool} {hand' : Hand} (h : s.Accounts queue free held d)
    (ht : (s.task t).hand = some hand) (hok : hand'.Ok pool (d.inHand t))
    (hslot : hand'.slot = hand.slot) (hsize : pool.msgSize = s.pool.msgSize)
    (hlayout : ∀ rest, s.pool.Layout queue free (hand.slot :: rest) →
      pool.Layout queue free (hand.slot :: rest))
    (hothers : ∀ slot, slot ≠ hand.slot →
      pool.next slot = s.pool.next slot ∧ pool.data slot = s.pool.data slot) :
    ∃ held', Mq.Accounts { s.goto t (.busy hand') with pool := pool } queue free held' d := by
  obtain ⟨held', hlists, hsplit⟩ := h.split ht
  have hinsert := hlists.insert (t := t) (Function.update_self ..) hand'
  rw [Function.update_idem] at hinsert
  refine ⟨(t, hand') :: held', h.move (s.hand_goto t (.busy hand')) hinsert ?_ h.replay ?_
    hsize ?_ (fun _ _ => rfl) ?_⟩
  · rw [List.map_cons, hslot]
    exact hlayout _ hsplit
  · refine Pool.Stores.frame_all h.stored hsize fun slot hslot => (hothers slot ?_).2
    rintro rfl
    exact h.slot_not_mem ht hslot
  · exact fun u other hne hu => hothers _ (h.slot_ne ht hu hne)
  · rintro _ ⟨rfl⟩
    exact hok

/-- The message is put into the queue, at either end. -/
theorem Mq.Accounts.link {slot i : Nat} {urgent : Bool} {msg : List UInt8}
    (h : s.Accounts queue free held d) (ht : s.task t = .busy (.copyIn urgent slot msg i))
    (hdone : msg[i]? = none) :
    ∃ held', Mq.Accounts
      { (s.goto t .idle).note (.sent t urgent msg) with
        pool := if urgent then s.pool.linkUrgent slot else s.pool.link slot }
      (if urgent then slot :: queue else queue ++ [slot]) free held'
      { d with queue := if urgent then msg :: d.queue else d.queue ++ [msg] } := by
  have hhand : (s.task t).hand = some (.copyIn urgent slot msg i) := congrArg Task.hand ht
  obtain ⟨hnone, hfits, hle, hbytes⟩ := h.ok t _ hhand
  obtain ⟨held', hlists, hsplit⟩ := h.split hhand
  have hlen : i = msg.length := Nat.le_antisymm hle (List.getElem?_eq_none_iff.mp hdone)
  have hstores : s.pool.Stores slot msg := by
    refine ⟨hfits, ?_⟩
    rw [← hlen, hbytes, hlen, List.take_length]
  have hsize : (if urgent then s.pool.linkUrgent slot else s.pool.link slot).msgSize =
      s.pool.msgSize := by
    cases urgent <;> rfl
  have hdata : (if urgent then s.pool.linkUrgent slot else s.pool.link slot).data =
      s.pool.data := by
    cases urgent <;> rfl
  have hnot : ∀ u other, u ≠ t → (s.task u).hand = some other → other.slot ≠ slot :=
    fun u other hne hu => h.slot_ne hhand hu hne
  refine ⟨held', h.move (s.hand_goto t .idle) hlists ?_ (Deque.replay_concat h.replay _) ?_
    hsize ?_ (fun _ _ => rfl) nofun⟩
  · cases urgent with
    | true => exact hsplit.linkUrgent
    | false => exact hsplit.link (hnone rfl)
  · have hqueue : List.Forall₂ (if urgent then s.pool.linkUrgent slot else s.pool.link slot).Stores
        queue d.queue := by
      refine Pool.Stores.frame_all h.stored hsize fun _ _ => ?_
      rw [hdata]
    have hnew := hstores.frame hsize (congrFun hdata slot)
    cases urgent with
    | true => exact .cons hnew hqueue
    | false => exact List.rel_append hqueue (.cons hnew .nil)
  · intro u other hne hu
    have hslot := hnot u other hne hu
    cases urgent with
    | true => exact ⟨Function.update_of_ne hslot .., rfl⟩
    | false =>
        refine ⟨?_, rfl⟩
        dsimp only [Pool.link, Bool.false_eq_true, if_false]
        cases htail : s.pool.msgQueueTail with
        | none => rfl
        | some tail =>
            -- the link that changes is that of the last message
            have hmem : tail ∈ queue := List.mem_of_getLast? (h.layout.tail.symm.trans htail)
            have hne' : other.slot ≠ tail := by
              rintro rfl
              exact h.slot_not_mem hu hmem
            exact Function.update_of_ne hne' ..

/-- The first message is taken out of the queue. -/
theorem Mq.Accounts.unlink {slot : Nat} {pool : Pool} (h : s.Accounts queue free held d)
    (size : Nat) (ht : (s.task t).hand = none) (hunlink : s.pool.unlink = some (slot, pool)) :
    ∃ queue' d', Mq.Accounts
      { (s.goto t (.busy (.copyOut slot size []))).note (.took t) with pool := pool }
      queue' free ((t, .copyOut slot size []) :: held) d' := by
  obtain ⟨queue', rfl, hlayout⟩ := h.layout.unlink hunlink
  obtain ⟨-, rfl⟩ := Pool.unlink_eq_some.mp hunlink
  obtain ⟨msg, rest, hstores, hrest, hqueue⟩ := List.forall₂_cons_left_iff.mp h.stored
  refine ⟨queue', { queue := rest, inHand := Function.update d.inHand t (some msg) },
    h.move (s.hand_goto t (.busy (.copyOut slot size []))) (h.hands.insert ht _) hlayout ?_
      (Pool.Stores.frame_all hrest rfl fun _ _ => rfl) rfl (fun _ _ _ _ => ⟨rfl, rfl⟩) (fun u hu => Function.update_of_ne hu ..) ?_⟩
  · refine (Deque.replay_concat h.replay _).trans ?_
    rw [Deque.step, hqueue]
  · rintro _ ⟨rfl⟩
    exact ⟨Nat.zero_le _, rfl, msg, Function.update_self .., hstores.frame rfl rfl⟩

/-- What is copied out in the end is the message, as far as it fits the buffer. -/
theorem Pool.Stores.take_eq {p : Pool} {slot size : Nat} {msg got : List UInt8}
    (h : p.Stores slot msg) (hgot : p.bytes slot got.length = got)
    (hlength : got.length = min size p.msgSize.toNat) :
    got.take msg.length = msg.take size := by
  have hle : min msg.length got.length = min size msg.length := by
    have hfits := h.fits
    omega
  calc got.take msg.length = (p.bytes slot got.length).take (min msg.length got.length) := by
        rw [hgot, ← List.take_eq_take_min]
    _ = p.bytes slot (min size msg.length) := by
        rw [Pool.take_bytes p slot (Nat.min_le_right _ _), hle]
    _ = (p.bytes slot msg.length).take (min size msg.length) :=
        (Pool.take_bytes p slot (Nat.min_le_right _ _)).symm
    _ = msg.take size := by rw [h.bytes, ← List.take_eq_take_min]

/-- The slot is put back, and the message returned. -/
theorem Mq.Accounts.putBack {slot size : Nat} {got : List UInt8}
    (h : s.Accounts queue free held d) (ht : s.task t = .busy (.copyOut slot size got))
    (hdone : ¬ (got.length < size ∧ got.length < s.pool.msgSize.toNat)) :
    ∃ held' d', Mq.Accounts
      { (s.goto t .idle).note (.received t size got) with pool := s.pool.putBack slot }
      queue (slot :: free) held' d' := by
  have hhand : (s.task t).hand = some (.copyOut slot size got) := congrArg Task.hand ht
  obtain ⟨hle, hgot, msg, hcarried, hstores⟩ := h.ok t _ hhand
  have hlength : got.length = min size s.pool.msgSize.toNat := by
    rw [Nat.le_min] at hle
    omega
  obtain ⟨held', hlists, hsplit⟩ := h.split hhand
  refine ⟨held', { d with inHand := Function.update d.inHand t none },
    h.move (s.hand_goto t .idle) hlists hsplit.putBack ?_
      (Pool.Stores.frame_all h.stored rfl fun _ _ => rfl) rfl ?_
      (fun u hu => Function.update_of_ne hu ..) nofun⟩
  · refine (Deque.replay_concat h.replay _).trans ?_
    simp only [Deque.step, hcarried]
    exact if_pos (hstores.take_eq hgot hlength)
  · intro u other hne hu
    exact ⟨Function.update_of_ne (h.slot_ne hhand hu hne) .., rfl⟩

theorem Mq.Accounts.reset (h : s.Accounts queue free held d) :
    ∃ free', Mq.Accounts { s.resumeAll.note .reset with pool := s.pool.reset } [] free' held
      { d with queue := [] } := by
  obtain ⟨free', hlayout⟩ := h.layout.reset
  have hhand : ∀ u, (s.resumeAll.task u).hand = (s.task u).hand := by
    intro u
    unfold Mq.resumeAll
    dsimp only
    split
    · exact Task.hand_resume _ _
    · rfl
  refine ⟨free', h.hands.congr hhand, hlayout, Deque.replay_concat h.replay _, .nil, ?_⟩
  intro u hand hu
  have hold : (s.task u).hand = some hand := (hhand u).symm.trans hu
  obtain ⟨hdata, hsize, -⟩ := Pool.drain_fixed s.pool.maxMsgs.toNat s.pool
  exact (h.ok u hand hold).frame hsize (h.layout.drain_next (h.slot_not_mem hold) _)
    (congrFun hdata _)

/-! ## All steps -/

/-- The slots are accounted for, and the history is one of a double-ended queue. -/
def Mq.Accounted (s : Mq θ) : Prop :=
  ∃ queue free held d, s.Accounts queue free held d

theorem Mq.Accounted.stepHand (h : s.Accounted) (ht : s.task t = .busy hand) :
    (s.stepHand t hand).Accounted := by
  obtain ⟨queue, free, held, d, h⟩ := h
  have hhand : (s.task t).hand = some hand := congrArg Task.hand ht
  cases hand with
  | taken slot msg =>
      have hok : Hand.Ok (s.pool.clearNext slot) (d.inHand t) (.copyIn false slot msg 0) :=
        ⟨fun _ => Function.update_self .., h.ok t _ hhand, Nat.zero_le _, rfl⟩
      obtain ⟨held', hnext⟩ := h.work hhand hok rfl rfl (fun _ hl => hl.clearNext)
        (fun _ hne => ⟨Function.update_of_ne hne .., rfl⟩)
      exact ⟨queue, free, held', d, hnext⟩
  | copyIn urgent slot msg i =>
      cases hbyte : msg[i]? with
      | none =>
          obtain ⟨held', hnext⟩ := h.link ht hbyte
          simp only [Mq.stepHand, hbyte]
          exact ⟨_, free, held', _, hnext.resumeFirst⟩
      | some b =>
          obtain ⟨hnone, hfits, hle, hbytes⟩ := h.ok t _ hhand
          have hlt : i < msg.length := (List.getElem?_eq_some_iff.mp hbyte).1
          have hok : Hand.Ok (s.pool.write slot i b) (d.inHand t)
              (.copyIn urgent slot msg (i + 1)) := by
            refine ⟨hnone, hfits, hlt, ?_⟩
            rw [Pool.bytes_write, hbytes, List.take_add_one, hbyte, Option.toList_some]
          obtain ⟨held', hnext⟩ := h.work hhand hok rfl rfl (fun _ hl => hl.write i b)
            (fun _ hne => ⟨rfl, Pool.data_write_of_ne hne i b⟩)
          simp only [Mq.stepHand, hbyte]
          exact ⟨queue, free, held', d, hnext⟩
  | copyOut slot size got =>
      rw [Mq.stepHand]
      split
      · next hmore =>
        obtain ⟨hle, hgot, msg, hcarried, hstores⟩ := h.ok t _ hhand
        have hok : Hand.Ok s.pool (d.inHand t)
            (.copyOut slot size (got ++ [s.pool.data slot got.length])) := by
          have hlength : (got ++ [s.pool.data slot got.length]).length = got.length + 1 := by
            rw [List.length_append, List.length_singleton]
          refine ⟨?_, ?_, msg, hcarried, hstores⟩
          · rw [hlength]
            exact Nat.le_min.mpr hmore
          · rw [hlength, Pool.bytes_succ, hgot]
        obtain ⟨held', hnext⟩ := h.work hhand hok rfl rfl (fun _ hl => hl) (fun _ _ => ⟨rfl, rfl⟩)
        exact ⟨queue, free, held', d, hnext⟩
      · next hdone =>
        obtain ⟨held', d', hnext⟩ := h.putBack ht hdone
        exact ⟨queue, slot :: free, held', d', hnext⟩

theorem Mq.Accounted.receive {s' : Mq θ} {size : Nat} {timeout : Int32} (h : s.Accounted)
    (ht : (s.task t).hand = none) (hnext : s.receive t size timeout = some s') : s'.Accounted := by
  obtain ⟨queue, free, held, d, h⟩ := h
  unfold Mq.receive at hnext
  split_ifs at hnext
  · obtain rfl := Option.some.inj hnext
    exact ⟨queue, free, held, d, h.fail ht _⟩
  · obtain rfl := Option.some.inj hnext
    have hgoto : (s.goto t (.suspended size timeout)).Accounts queue free held d := h.goto ht rfl
    exact ⟨queue, free, held, d, hgoto.congr (fun _ => rfl) rfl rfl⟩
  · obtain ⟨⟨slot, pool⟩, hunlink, rfl⟩ := Option.map_eq_some_iff.mp hnext
    obtain ⟨queue', d', hunlinked⟩ := h.unlink size ht hunlink
    exact ⟨queue', free, _, d', hunlinked⟩

theorem Mq.Accounted.send (h : s.Accounted) (ht : (s.task t).hand = none) (urgent : Bool)
    (msg : List UInt8) : (s.send t urgent msg).Accounted := by
  obtain ⟨queue, free, held, d, h⟩ := h
  unfold Mq.send
  split
  · exact ⟨queue, free, held, d, h.fail ht _⟩
  · next hfits =>
    split
    · exact ⟨queue, free, held, d, h.fail ht _⟩
    · next slot pool hfree =>
        obtain ⟨-, rfl⟩ := Pool.getFree_eq_some.mp hfree
        have hslot : (if urgent then Hand.copyIn true slot msg 0 else .taken slot msg).slot =
            slot := by
          cases urgent <;> rfl
        have hok : (if urgent then Hand.copyIn true slot msg 0 else .taken slot msg).Ok
            { s.pool with msgQueueFree := s.pool.next slot } (d.inHand t) := by
          cases urgent with
          | true => exact ⟨nofun, Nat.le_of_not_gt hfits, Nat.zero_le _, rfl⟩
          | false => exact Nat.le_of_not_gt hfits
        obtain ⟨free', hnext⟩ := h.send ht hfree hslot hok
        exact ⟨queue, free', _, d, hnext⟩

theorem Mq.Accounted.step {s' : Mq θ} {a : Mq.Label θ} (h : s.Accounted)
    (hnext : s.next a = some s') : s'.Accounted := by
  cases a with
  | send t urgent msg =>
      cases htask : s.task t with
      | idle =>
          simp only [Mq.next, htask] at hnext
          split_ifs at hnext
          obtain rfl := Option.some.inj hnext
          exact h.send (congrArg Task.hand htask) urgent msg
      | busy _ | suspended _ _ | resumed _ _ _ => simp [Mq.next, htask] at hnext
  | recv t size timeout =>
      cases htask : s.task t with
      | idle =>
          simp only [Mq.next, htask] at hnext
          split_ifs at hnext
          exact h.receive (congrArg Task.hand htask) hnext
      | busy _ | suspended _ _ | resumed _ _ _ => simp [Mq.next, htask] at hnext
  | run t elapsed =>
      cases htask : s.task t with
      | idle | suspended _ _ => simp [Mq.next, htask] at hnext
      | busy hand =>
          simp only [Mq.next, htask, Option.some.injEq] at hnext
          exact hnext ▸ h.stepHand htask
      | resumed size timeout err =>
          have hhand : (s.task t).hand = none := congrArg Task.hand htask
          cases err with
          | eok =>
              simp only [Mq.next, htask] at hnext
              exact h.receive hhand hnext
          | error | etimeout | efull =>
              simp only [Mq.next, htask, Option.some.injEq] at hnext
              obtain ⟨queue, free, held, d, h⟩ := h
              exact hnext ▸ ⟨queue, free, held, d, h.fail hhand _⟩
  | timeout t =>
      cases htask : s.task t with
      | suspended size timeout =>
          simp only [Mq.next, htask] at hnext
          split_ifs at hnext
          obtain rfl := Option.some.inj hnext
          obtain ⟨queue, free, held, d, h⟩ := h
          have hgoto : (s.goto t (.resumed size timeout .etimeout)).Accounts queue free held d :=
            h.goto (congrArg Task.hand htask) rfl
          exact ⟨queue, free, held, d, hgoto.congr (fun _ => rfl) rfl rfl⟩
      | idle | busy _ | resumed _ _ _ => simp [Mq.next, htask] at hnext
  | reset =>
      simp only [Mq.next, Option.some.injEq] at hnext
      obtain ⟨queue, free, held, d, h⟩ := h
      obtain ⟨free', hreset⟩ := h.reset
      exact hnext ▸ ⟨[], free', held, _, hreset⟩

end Accounts

/-! ## Runs -/

section Runs

variable {s s' : Mq θ} {junk : Nat → Nat → UInt8} {msgSize poolSize : Nat} {flag : IpcFlag}
  {currentPriority : θ → UInt8}

theorem Mq.Accounted.init : (Mq.init junk msgSize poolSize flag currentPriority).Accounted := by
  obtain ⟨free, hlayout⟩ := Pool.Layout.init junk msgSize poolSize
  exact ⟨[], free, [], .empty, Lists.empty fun _ => rfl, hlayout, rfl, .nil, nofun⟩

theorem accounted_of_reach
    (h : Reach Mq.next (fun _ _ => True) (Mq.init junk msgSize poolSize flag currentPriority) s) :
    s.Accounted :=
  h.invariant .init fun hi _ hnext => hi.step hnext

theorem Mq.receive_maxMsgs {t : θ} {size : Nat} {timeout : Int32}
    (h : s.receive t size timeout = some s') : s'.pool.maxMsgs = s.pool.maxMsgs := by
  unfold Mq.receive at h
  split_ifs at h
  · exact Option.some.inj h ▸ rfl
  · exact Option.some.inj h ▸ rfl
  · obtain ⟨⟨slot, pool⟩, hunlink, rfl⟩ := Option.map_eq_some_iff.mp h
    obtain ⟨-, rfl⟩ := Pool.unlink_eq_some.mp hunlink
    rfl

theorem Mq.resumeFirst_pool (s : Mq θ) : s.resumeFirst.pool = s.pool := by
  unfold Mq.resumeFirst
  split <;> rfl

theorem Mq.stepHand_maxMsgs (s : Mq θ) (t : θ) (hand : Hand) :
    (s.stepHand t hand).pool.maxMsgs = s.pool.maxMsgs := by
  cases hand with
  | taken slot msg => rfl
  | copyIn urgent slot msg i =>
      rw [Mq.stepHand]
      split
      · rfl
      · rw [Mq.resumeFirst_pool]
        cases urgent <;> rfl
  | copyOut slot size got =>
      rw [Mq.stepHand]
      split <;> rfl

theorem Mq.send_maxMsgs (s : Mq θ) (t : θ) (urgent : Bool) (msg : List UInt8) :
    (s.send t urgent msg).pool.maxMsgs = s.pool.maxMsgs := by
  unfold Mq.send
  split
  · rfl
  · split
    · rfl
    · next slot pool hfree =>
        obtain ⟨-, rfl⟩ := Pool.getFree_eq_some.mp hfree
        rfl

theorem Mq.next_maxMsgs {a : Mq.Label θ} (h : s.next a = some s') :
    s'.pool.maxMsgs = s.pool.maxMsgs := by
  cases a with
  | send t urgent msg =>
      simp only [Mq.next] at h
      split at h
      · split_ifs at h
        exact Option.some.inj h ▸ Mq.send_maxMsgs s t urgent msg
      · cases h
  | recv t size timeout =>
      simp only [Mq.next] at h
      split at h
      · split_ifs at h
        exact Mq.receive_maxMsgs h
      · cases h
  | run t elapsed =>
      simp only [Mq.next] at h
      split at h
      · next hand _ => exact Option.some.inj h ▸ Mq.stepHand_maxMsgs s t hand
      · exact Mq.receive_maxMsgs h
      · exact Option.some.inj h ▸ rfl
      · cases h
      · cases h
  | timeout t =>
      simp only [Mq.next] at h
      split at h
      · split_ifs at h
        exact Option.some.inj h ▸ rfl
      · cases h
  | reset => exact Option.some.inj h ▸ (Pool.drain_fixed _ s.pool).2.2

/-- However the threads interleave, each slot is in the queue, in the free list or
in the hands of one thread, and in no two of these; `entry` counts the first. -/
theorem slots_conserved
    (h : Reach Mq.next (fun _ _ => True) (Mq.init junk msgSize poolSize flag currentPriority) s) :
    ∃ queue free held, Lists (Task.hand ∘ s.task) held ∧
      s.pool.Layout queue free (held.map fun h => h.2.slot) ∧
      s.pool.maxMsgs = (Pool.init junk msgSize poolSize).maxMsgs := by
  obtain ⟨queue, free, held, d, haccounts⟩ := accounted_of_reach h
  refine ⟨queue, free, held, haccounts.hands, haccounts.layout, ?_⟩
  refine h.invariant
    (I := fun s => s.pool.maxMsgs = (Pool.init junk msgSize poolSize).maxMsgs) rfl ?_
  exact fun hs _ hnext => (Mq.next_maxMsgs hnext).trans hs

/-- However the threads interleave, what happened to the queue is what happens to a
double-ended queue: no message is lost, doubled, reordered or mixed up with
another, and the queue holds what that queue holds. -/
theorem history_of_deque
    (h : Reach Mq.next (fun _ _ => True) (Mq.init junk msgSize poolSize flag currentPriority) s) :
    ∃ d queue, Deque.replay s.log = some d ∧
      Linked s.pool.next s.pool.msgQueueHead queue ∧
      List.Forall₂ s.pool.Stores queue d.queue ∧ s.pool.entry.toNat = d.queue.length := by
  obtain ⟨queue, free, held, d, haccounts⟩ := accounted_of_reach h
  refine ⟨d, queue, haccounts.replay, haccounts.layout.fromHead, haccounts.stored, ?_⟩
  rw [haccounts.layout.entry]
  exact haccounts.stored.length_eq

end Runs

/-- A receiver waits, a message is sent while an urgent one overtakes it, and the
receiver gets the urgent one. -/
def overtake : List (Mq.Label Bool) :=
  [.recv true 4 (-1), .send false false [1, 2], .run false 0] ++
    List.replicate 3 (.run false 0) ++ [.send false true [3]] ++
    List.replicate 2 (.run false 0) ++ List.replicate 6 (.run true 0)

theorem slots_conserved_overtake :
    ∃ s : Mq Bool, Reach Mq.next (fun _ _ => True) (.init (fun _ _ => 0) 4 16 .fifo fun _ => 0) s ∧
      s.pool.entry = 1 ∧ ∃ queue free held, Lists (Task.hand ∘ s.task) held ∧
        s.pool.Layout queue free (held.map fun h => h.2.slot) := by
  have hrun : (Transition.exec Mq.next (fun _ _ => True)
      (Mq.init (fun _ _ => 0) 4 16 .fifo fun _ => 0) overtake).any
        (fun s => s.pool.entry = 1) = true := by
    decide
  obtain ⟨s, hreach, htest⟩ := Transition.exists_reach_of_exec hrun
  obtain ⟨queue, free, held, hlists, hlayout, -⟩ := slots_conserved hreach
  exact ⟨s, hreach, of_decide_eq_true htest, queue, free, held, hlists, hlayout⟩

theorem history_of_deque_overtake :
    ∃ s : Mq Bool, Reach Mq.next (fun _ _ => True) (.init (fun _ _ => 0) 4 16 .fifo fun _ => 0) s ∧
      s.log = [.sent false false [1, 2], .sent false true [3], .took true,
        .received true 4 [3, 0, 0, 0]] ∧
      ∃ d, Deque.replay s.log = some d ∧ d.queue.length = 1 := by
  have hrun : (Transition.exec Mq.next (fun _ _ => True)
      (Mq.init (fun _ _ => 0) 4 16 .fifo fun _ => 0) overtake).any
        (fun s => s.pool.entry = 1 ∧ s.log = [.sent false false [1, 2], .sent false true [3],
          .took true, .received true 4 [3, 0, 0, 0]]) = true := by
    decide
  obtain ⟨s, hreach, htest⟩ := Transition.exists_reach_of_exec hrun
  obtain ⟨hentry, hlog⟩ := of_decide_eq_true htest
  obtain ⟨d, -, hd, -, -, hlength⟩ := history_of_deque hreach
  refine ⟨s, hreach, hlog, d, hd, ?_⟩
  rw [← hlength, hentry]
  rfl

end Kernel
