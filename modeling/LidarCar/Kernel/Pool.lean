-- SUMMARY: The storage of a message queue: slots that are linked into the queue, free, or in a thread's hands.
import Mathlib.Data.List.Range
import LidarCar.Base.Chain
import LidarCar.Kernel.Ipc

/-!
# The message pool

`rt_mq_init` cuts the buffer of a message queue into slots, each a link followed
by the bytes of a message. A slot is in the queue, in the free list, or taken out
of both by a thread that copies a message in or out. Each function below is what
`rt_mq_send`, `rt_mq_urgent` and `rt_mq_recv` do between two places where an
interrupt can come in.
-/

namespace Kernel

open Chain (Linked)

/-- The part of `struct rt_messagequeue` that stores messages. A
`struct rt_mq_message` is known by the number of its slot in `msg_pool`. -/
structure Pool where
  /-- The link at the start of each slot. -/
  next : Nat → Option Nat
  /-- The bytes after it. -/
  data : Nat → Nat → UInt8
  msgSize : UInt16
  maxMsgs : UInt16
  entry : UInt16
  msgQueueHead : Option Nat
  msgQueueTail : Option Nat
  msgQueueFree : Option Nat

/-! ## The operations -/

/-- `msg->next = mq->msg_queue_free; mq->msg_queue_free = msg`. -/
def Pool.putBack (p : Pool) (msg : Nat) : Pool :=
  { p with next := Function.update p.next msg p.msgQueueFree, msgQueueFree := some msg }

/-- `rt_mq_init`, over memory that holds `junk`. -/
def Pool.init (junk : Nat → Nat → UInt8) (msgSize poolSize : Nat) : Pool :=
  let msgSize := UInt16.ofNat ((msgSize + 3) / 4 * 4)
  let maxMsgs := UInt16.ofNat (poolSize / (msgSize.toNat + 4))
  (List.range maxMsgs.toNat).foldl Pool.putBack
    { next := fun _ => none
      data := junk
      msgSize := msgSize
      maxMsgs := maxMsgs
      entry := 0
      msgQueueHead := none
      msgQueueTail := none
      msgQueueFree := none }

/-- A slot is taken out of the free list, if there is one. -/
def Pool.getFree (p : Pool) : Option (Nat × Pool) :=
  p.msgQueueFree.map fun msg => (msg, { p with msgQueueFree := p.next msg })

/-- `msg->next = RT_NULL`. -/
def Pool.clearNext (p : Pool) (msg : Nat) : Pool :=
  { p with next := Function.update p.next msg none }

/-- `rt_memcpy` writes byte `i` of the message. -/
def Pool.write (p : Pool) (msg i : Nat) (b : UInt8) : Pool :=
  { p with data := Function.update p.data msg (Function.update (p.data msg) i b) }

/-- `rt_mq_send` links the message to the tail. -/
def Pool.link (p : Pool) (msg : Nat) : Pool :=
  { p with
    next :=
      match p.msgQueueTail with
      | some tail => Function.update p.next tail (some msg)
      | none => p.next
    msgQueueTail := some msg
    msgQueueHead := if p.msgQueueHead = none then some msg else p.msgQueueHead
    entry := p.entry + 1 }

/-- `rt_mq_urgent` links the message to the beginning. -/
def Pool.linkUrgent (p : Pool) (msg : Nat) : Pool :=
  { p with
    next := Function.update p.next msg p.msgQueueHead
    msgQueueHead := some msg
    msgQueueTail := if p.msgQueueTail = none then some msg else p.msgQueueTail
    entry := p.entry + 1 }

/-- The head of the queue, `msg`, is moved on. -/
def Pool.moveHead (p : Pool) (msg : Nat) : Pool :=
  { p with
    msgQueueHead := p.next msg
    msgQueueTail := if p.msgQueueTail = some msg then none else p.msgQueueTail }

def Pool.setEntry (p : Pool) (entry : UInt16) : Pool :=
  { p with entry := entry }

/-- `rt_mq_recv` takes the first message out of the queue. -/
def Pool.unlink (p : Pool) : Option (Nat × Pool) :=
  p.msgQueueHead.map fun msg => (msg, (p.moveHead msg).setEntry (p.entry - 1))

/-- The loop of `rt_mq_control` that releases all messages. -/
def Pool.drain (p : Pool) : Nat → Pool
  | 0 => p
  | fuel + 1 =>
    match p.msgQueueHead with
    | none => p
    | some msg => ((p.moveHead msg).putBack msg).drain fuel

/-- `rt_mq_control(mq, RT_IPC_CMD_RESET, …)`. No queue has more messages than slots. -/
def Pool.reset (p : Pool) : Pool :=
  (p.drain p.maxMsgs.toNat).setEntry 0

/-- The first `n` bytes of a slot. -/
def Pool.bytes (p : Pool) (msg n : Nat) : List UInt8 :=
  (List.range n).map (p.data msg)

/-! ## The layout -/

/-- The slots of the queue, those of the free list and those in the hands of the
threads are all the slots, and no slot is in two places. -/
structure Pool.Layout (p : Pool) (queue free held : List Nat) : Prop where
  fromHead : Linked p.next p.msgQueueHead queue
  fromFree : Linked p.next p.msgQueueFree free
  tail : p.msgQueueTail = queue.getLast?
  entry : p.entry.toNat = queue.length
  slots : (queue ++ free ++ held).Perm (List.range p.maxMsgs.toNat)

section Layout

variable {p : Pool} {queue free held : List Nat} {msg : Nat}

theorem Pool.Layout.nodup (h : p.Layout queue free held) : (queue ++ free ++ held).Nodup :=
  h.slots.nodup_iff.mpr List.nodup_range

theorem Pool.Layout.length (h : p.Layout queue free held) :
    queue.length + free.length + held.length = p.maxMsgs.toNat := by
  have hlength := h.slots.length_eq
  simpa [Nat.add_assoc] using hlength

/-- The order in which the slots held are listed does not matter. -/
theorem Pool.Layout.perm {held' : List Nat} (h : p.Layout queue free held)
    (hperm : held.Perm held') : p.Layout queue free held' where
  fromHead := h.fromHead
  fromFree := h.fromFree
  tail := h.tail
  entry := h.entry
  slots := (hperm.symm.append_left (queue ++ free)).trans h.slots

/-- A slot in a thread's hands is in neither list. -/
theorem Pool.Layout.held_not_mem (h : p.Layout queue free (msg :: held)) :
    msg ∉ queue ∧ msg ∉ free ∧ msg ∉ held := by
  have hperm : (queue ++ free ++ msg :: held).Perm (msg :: (queue ++ free ++ held)) :=
    List.perm_middle
  have hnot := (List.nodup_cons.mp (hperm.nodup_iff.mp h.nodup)).1
  simpa [or_assoc] using hnot

/-- No message is on the queue exactly if `entry` is zero. -/
theorem Pool.Layout.entry_eq_zero_iff (h : p.Layout queue free held) :
    p.entry = 0 ↔ queue = [] := by
  rw [← UInt16.toNat_inj, h.entry]
  exact List.length_eq_zero_iff

theorem Pool.Layout.head_eq_none_iff (h : p.Layout queue free held) :
    p.msgQueueHead = none ↔ queue = [] := by
  rw [h.fromHead.head?, List.head?_eq_none_iff]

/-- The free list runs out exactly when all slots are queued or held. -/
theorem Pool.Layout.getFree_eq_none_iff (h : p.Layout queue free held) :
    p.getFree = none ↔ queue.length + held.length = p.maxMsgs.toNat := by
  have hlength := h.length
  rw [Pool.getFree, Option.map_eq_none_iff, h.fromFree.head?, List.head?_eq_none_iff,
    ← List.length_eq_zero_iff]
  omega

/-! ## What the operations do to it -/

theorem Pool.getFree_eq_some {p' : Pool} :
    p.getFree = some (msg, p') ↔
      p.msgQueueFree = some msg ∧ { p with msgQueueFree := p.next msg } = p' := by
  simp [Pool.getFree, Option.map_eq_some_iff]

theorem Pool.unlink_eq_some {p' : Pool} :
    p.unlink = some (msg, p') ↔
      p.msgQueueHead = some msg ∧ (p.moveHead msg).setEntry (p.entry - 1) = p' := by
  simp [Pool.unlink, Option.map_eq_some_iff]

theorem Pool.Layout.getFree {p' : Pool} (h : p.Layout queue free held)
    (htake : p.getFree = some (msg, p')) :
    ∃ free', free = msg :: free' ∧ p'.Layout queue free' (msg :: held) := by
  obtain ⟨hmsg, rfl⟩ := Pool.getFree_eq_some.mp htake
  obtain ⟨free', rfl, hfree'⟩ := (hmsg ▸ h.fromFree).of_some
  refine ⟨free', rfl, h.fromHead, hfree', h.tail, h.entry, ?_⟩
  have hperm : (queue ++ free' ++ msg :: held).Perm (queue ++ msg :: free' ++ held) := by
    simp only [List.append_assoc]
    exact List.Perm.append_left queue List.perm_middle
  exact hperm.trans h.slots

theorem Pool.Layout.clearNext (h : p.Layout queue free (msg :: held)) :
    (p.clearNext msg).Layout queue free (msg :: held) := by
  obtain ⟨hqueue, hfree, -⟩ := h.held_not_mem
  exact ⟨h.fromHead.update hqueue none, h.fromFree.update hfree none, h.tail, h.entry, h.slots⟩

theorem Pool.Layout.write (h : p.Layout queue free held) (i : Nat) (b : UInt8) :
    (p.write msg i b).Layout queue free held :=
  ⟨h.fromHead, h.fromFree, h.tail, h.entry, h.slots⟩

theorem Pool.Layout.putBack (h : p.Layout queue free (msg :: held)) :
    (p.putBack msg).Layout queue (msg :: free) held := by
  obtain ⟨hqueue, hfree, -⟩ := h.held_not_mem
  refine ⟨h.fromHead.update hqueue _, h.fromFree.push hfree, h.tail, h.entry, ?_⟩
  have hperm : (queue ++ msg :: free ++ held).Perm (queue ++ free ++ msg :: held) := by
    simp only [List.append_assoc]
    exact List.Perm.append_left queue List.perm_middle.symm
  exact hperm.trans h.slots

/-- `entry` cannot overflow: there is a slot that is not in the queue. -/
theorem Pool.Layout.entry_succ (h : p.Layout queue free (msg :: held)) :
    (p.entry + 1).toNat = queue.length + 1 := by
  have hlength := h.length
  have hmax := p.maxMsgs.toNat_lt
  rw [List.length_cons] at hlength
  rw [UInt16.toNat_add, h.entry, UInt16.toNat_one]
  omega

theorem Pool.Layout.slots_link {queue' : List Nat} (h : p.Layout queue free (msg :: held))
    (hperm : queue'.Perm (msg :: queue)) :
    (queue' ++ free ++ held).Perm (List.range p.maxMsgs.toNat) := by
  refine List.Perm.trans ?_ h.slots
  calc (queue' ++ free ++ held).Perm (msg :: queue ++ free ++ held) :=
        (hperm.append_right free).append_right held
    _ = msg :: (queue ++ free ++ held) := by simp
    List.Perm _ (queue ++ free ++ msg :: held) := List.perm_middle.symm

theorem Pool.Layout.link (h : p.Layout queue free (msg :: held)) (hnone : p.next msg = none) :
    (p.link msg).Layout (queue ++ [msg]) free held := by
  obtain ⟨hqueue, hfree, -⟩ := h.held_not_mem
  have hslots := h.slots_link (List.perm_append_singleton msg queue)
  have hentry : (p.link msg).entry.toNat = (queue ++ [msg]).length := by
    rw [List.length_append]
    exact h.entry_succ
  have htail : (p.link msg).msgQueueTail = (queue ++ [msg]).getLast? := by
    rw [List.getLast?_concat]
    rfl
  rcases List.eq_nil_or_concat' queue with rfl | ⟨init, tail, rfl⟩
  · have hnext : (p.link msg).next = p.next := by
      simp only [Pool.link, h.tail, List.getLast?_nil]
    refine ⟨?_, hnext ▸ h.fromFree, htail, hentry, hslots⟩
    rw [hnext]
    exact ⟨if_pos h.fromHead, hnone⟩
  · have hnext : (p.link msg).next = Function.update p.next tail (some msg) := by
      simp only [Pool.link, h.tail, List.getLast?_concat]
    have hhead : (p.link msg).msgQueueHead = p.msgQueueHead :=
      if_neg fun hnil => by simpa using h.head_eq_none_iff.mp hnil
    have htailFree : tail ∉ free := by
      have hdisjoint := (List.nodup_append.mp (List.nodup_append.mp h.nodup).1).2.2
      exact fun hmem => hdisjoint tail (by simp) tail hmem rfl
    refine ⟨?_, ?_, htail, hentry, hslots⟩
    · rw [hnext, hhead]
      exact h.fromHead.concat hqueue hnone
    · rw [hnext]
      exact h.fromFree.update htailFree _

theorem Pool.Layout.linkUrgent (h : p.Layout queue free (msg :: held)) :
    (p.linkUrgent msg).Layout (msg :: queue) free held := by
  obtain ⟨hqueue, hfree, -⟩ := h.held_not_mem
  refine ⟨h.fromHead.push hqueue, h.fromFree.update hfree _, ?_, ?_,
    h.slots_link (List.Perm.refl _)⟩
  · cases queue with
    | nil => exact if_pos h.tail
    | cons a queue =>
        have hsome : p.msgQueueTail ≠ none := by
          rw [h.tail]
          simp
        rw [List.getLast?_cons_cons, ← h.tail]
        exact if_neg hsome
  · rw [List.length_cons]
    exact h.entry_succ

/-- The message that leaves the queue is the first one. -/
theorem Pool.Layout.unlink {p' : Pool} (h : p.Layout queue free held)
    (hunlink : p.unlink = some (msg, p')) :
    ∃ queue', queue = msg :: queue' ∧ p'.Layout queue' free (msg :: held) := by
  obtain ⟨hmsg, rfl⟩ := Pool.unlink_eq_some.mp hunlink
  obtain ⟨queue', rfl, hqueue'⟩ := (hmsg ▸ h.fromHead).of_some
  have hnot : msg ∉ queue' := (List.nodup_cons.mp h.fromHead.nodup).1
  refine ⟨queue', rfl, hqueue', h.fromFree, ?_, ?_, ?_⟩
  · rw [Pool.setEntry, Pool.moveHead]
    dsimp only
    rw [h.tail]
    cases queue' with
    | nil => exact if_pos rfl
    | cons a queue' =>
        rw [List.getLast?_cons_cons]
        refine if_neg fun hlast => hnot ?_
        exact List.mem_of_getLast? hlast
  · have hentry := h.entry
    rw [List.length_cons] at hentry
    have hle : (1 : UInt16) ≤ p.entry := by
      rw [UInt16.le_iff_toNat_le, hentry, UInt16.toNat_one]
      omega
    rw [Pool.setEntry, UInt16.toNat_sub_of_le _ _ hle, hentry, UInt16.toNat_one, Nat.add_sub_cancel]
  · have hperm : (queue' ++ free ++ msg :: held).Perm (msg :: queue' ++ free ++ held) :=
      List.perm_middle
    exact hperm.trans h.slots

theorem Pool.drain_none {fuel : Nat} (h : p.msgQueueHead = none) : p.drain (fuel + 1) = p := by
  rw [Pool.drain, h]

theorem Pool.drain_some {fuel : Nat} (h : p.msgQueueHead = some msg) :
    p.drain (fuel + 1) = ((p.moveHead msg).putBack msg).drain fuel := by
  rw [Pool.drain, h]

theorem Pool.drain_setEntry (fuel : Nat) (p : Pool) (entry : UInt16) :
    (p.setEntry entry).drain fuel = (p.drain fuel).setEntry entry := by
  induction fuel generalizing p with
  | zero => rfl
  | succ fuel ih =>
      cases hhead : p.msgQueueHead with
      | none =>
          have hhead' : (p.setEntry entry).msgQueueHead = none := hhead
          rw [Pool.drain_none hhead, Pool.drain_none hhead']
      | some msg =>
          have hhead' : (p.setEntry entry).msgQueueHead = some msg := hhead
          rw [Pool.drain_some hhead, Pool.drain_some hhead', ← ih]
          rfl

/-- A round of the loop, with `entry` counted down. -/
theorem Pool.Layout.release (h : p.Layout queue free held) (hhead : p.msgQueueHead = some msg) :
    ∃ queue', queue = msg :: queue' ∧
      (((p.moveHead msg).putBack msg).setEntry (p.entry - 1)).Layout queue' (msg :: free) held := by
  obtain ⟨queue', rfl, hp'⟩ := h.unlink (Pool.unlink_eq_some.mpr ⟨hhead, rfl⟩)
  exact ⟨queue', rfl, hp'.putBack⟩

/-- Enough rounds of the loop release every message. -/
theorem Pool.Layout.drain (h : p.Layout queue free held) {fuel : Nat}
    (hfuel : queue.length ≤ fuel) :
    ∃ free', ((p.drain fuel).setEntry 0).Layout [] free' held := by
  induction fuel generalizing p queue free with
  | zero =>
      obtain rfl : queue = [] := List.length_eq_zero_iff.mp (Nat.le_zero.mp hfuel)
      exact ⟨free, h.fromHead, h.fromFree, h.tail, rfl, h.slots⟩
  | succ fuel ih =>
      cases hhead : p.msgQueueHead with
      | none =>
          obtain rfl := h.head_eq_none_iff.mp hhead
          rw [Pool.drain_none hhead]
          exact ⟨free, h.fromHead, h.fromFree, h.tail, rfl, h.slots⟩
      | some msg =>
          obtain ⟨queue', rfl, hrest⟩ := h.release hhead
          obtain ⟨free', hlayout⟩ := ih hrest (Nat.le_of_succ_le_succ hfuel)
          rw [Pool.drain_setEntry] at hlayout
          refine ⟨free', ?_⟩
          rw [Pool.drain_some hhead]
          exact hlayout

/-- The loop changes the links of the queue only. -/
theorem Pool.Layout.drain_next {slot : Nat} (h : p.Layout queue free held) (hslot : slot ∉ queue)
    (fuel : Nat) : (p.drain fuel).next slot = p.next slot := by
  induction fuel generalizing p queue free with
  | zero => rfl
  | succ fuel ih =>
      cases hhead : p.msgQueueHead with
      | none => rw [Pool.drain_none hhead]
      | some msg =>
          obtain ⟨queue', rfl, hrest⟩ := h.release hhead
          rw [List.mem_cons, not_or] at hslot
          obtain ⟨hne, hnot⟩ := hslot
          have hnext := ih hrest hnot
          rw [Pool.drain_setEntry] at hnext
          rw [Pool.drain_some hhead]
          exact hnext.trans (Function.update_of_ne hne ..)

theorem Pool.Layout.reset (h : p.Layout queue free held) :
    ∃ free', p.reset.Layout [] free' held := by
  apply h.drain
  have hlength := h.length
  omega

/-- Slots that are put back one after the other become the free list, last one first. -/
theorem Pool.Layout.foldl_putBack {msgs : List Nat} (h : p.Layout queue free (msgs ++ held)) :
    (msgs.foldl Pool.putBack p).Layout queue (msgs.reverse ++ free) held := by
  induction msgs generalizing p free with
  | nil => exact h
  | cons msg msgs ih =>
      rw [List.reverse_cons, List.append_assoc]
      exact ih h.putBack

/-- After `rt_mq_init` all slots are free. -/
theorem Pool.Layout.init (junk : Nat → Nat → UInt8) (msgSize poolSize : Nat) :
    ∃ free, (Pool.init junk msgSize poolSize).Layout [] free [] := by
  refine ⟨(List.range _).reverse ++ [], Pool.Layout.foldl_putBack ?_⟩
  exact ⟨rfl, rfl, rfl, rfl, by simp⟩

end Layout

/-! ## The bytes -/

section Bytes

variable {p : Pool} {msg : Nat}

/-- Releasing messages leaves their bytes and the sizes as they are. -/
theorem Pool.drain_fixed (fuel : Nat) (p : Pool) :
    (p.drain fuel).data = p.data ∧ (p.drain fuel).msgSize = p.msgSize ∧
      (p.drain fuel).maxMsgs = p.maxMsgs := by
  induction fuel generalizing p with
  | zero => exact ⟨rfl, rfl, rfl⟩
  | succ fuel ih =>
      cases hhead : p.msgQueueHead with
      | none =>
          rw [Pool.drain_none hhead]
          exact ⟨rfl, rfl, rfl⟩
      | some msg =>
          rw [Pool.drain_some hhead]
          exact ih _

theorem Pool.bytes_congr {p' : Pool} (h : p'.data msg = p.data msg) (n : Nat) :
    p'.bytes msg n = p.bytes msg n := by
  rw [Pool.bytes, Pool.bytes, h]

@[simp] theorem Pool.length_bytes (p : Pool) (msg n : Nat) : (p.bytes msg n).length = n := by
  rw [Pool.bytes, List.length_map, List.length_range]

theorem Pool.bytes_succ (p : Pool) (msg n : Nat) :
    p.bytes msg (n + 1) = p.bytes msg n ++ [p.data msg n] := by
  rw [Pool.bytes, List.range_succ, List.map_append]
  rfl

theorem Pool.take_bytes (p : Pool) (msg : Nat) {k n : Nat} (h : k ≤ n) :
    (p.bytes msg n).take k = p.bytes msg k := by
  rw [Pool.bytes, ← List.map_take, List.take_range, Nat.min_eq_left h]
  rfl

/-- `rt_memcpy` goes on by one byte. -/
theorem Pool.bytes_write (p : Pool) (msg i : Nat) (b : UInt8) :
    (p.write msg i b).bytes msg (i + 1) = p.bytes msg i ++ [b] := by
  rw [Pool.bytes_succ]
  congr 1
  · apply List.map_congr_left
    intro j hj
    have hne : j ≠ i := (List.mem_range.mp hj).ne
    simp only [Pool.write, Function.update_self, Function.update_of_ne hne]
  · simp only [Pool.write, Function.update_self]

theorem Pool.data_write_of_ne {other : Nat} (h : other ≠ msg) (i : Nat) (b : UInt8) :
    (p.write msg i b).data other = p.data other := by
  simp only [Pool.write, Function.update_of_ne h]

end Bytes

end Kernel
