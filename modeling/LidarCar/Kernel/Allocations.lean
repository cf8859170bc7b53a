-- SUMMARY: Runs of the allocator: blocks stay apart and keep their contents, and what is released can be had again.
import LidarCar.Base.Transition
import LidarCar.Kernel.Realloc

/-!
# Runs of the allocator

Any number of callers allocate, resize and release blocks, and write to the blocks
they hold, in any order. They hand in only blocks that they hold, and ask for sizes
that the alignment does not take over `2 ^ 32`. Where other threads come in while
`rt_realloc` moves a block, its steps are those of `rt_malloc`, writes and `rt_free`.
-/

namespace Kernel

open Segments
open Transition (Reach)

/-! ## The system -/

inductive Allocator.Label where
  | malloc (size : Nat)
  | calloc (count size : Nat)
  | realloc (rmem newsize : Nat)
  | free (rmem : Nat)
  /-- A caller writes to a block. -/
  | write (a : Nat) (b : UInt8)
  deriving DecidableEq, Repr

/-- The blocks that are held after a call has returned `p` for `size` bytes. -/
def granted (live : List (Nat × Nat)) (p size : Nat) : List (Nat × Nat) :=
  if p = rtNull then live else (p, size) :: live

def Allocator.next (s : Allocator) : Label → Option Allocator
  | .malloc size => (s.heap.rtMalloc size).map fun r => ⟨r.1, granted s.live r.2 size⟩
  | .calloc count size =>
      (s.heap.rtCalloc count size).map fun r => ⟨r.1, granted s.live r.2 (count * size)⟩
  | .realloc rmem newsize =>
      (s.heap.rtRealloc rmem newsize).map fun r => ⟨r.1, resized s.live rmem newsize r.2⟩
  | .free rmem => some ⟨s.heap.rtFree rmem, without s.live rmem⟩
  | .write a b =>
      some ⟨{ s.heap with bytes := Function.update s.heap.bytes (a - s.heap.heapPtr) b }, s.live⟩

/-- `RT_NULL`, or a block that is held. -/
def Allocator.Owned (s : Allocator) (rmem : Nat) : Prop :=
  rmem = rtNull ∨ ∃ e ∈ s.live, e.1 = rmem

instance Allocator.decidableOwned (s : Allocator) (rmem : Nat) : Decidable (s.Owned rmem) :=
  inferInstanceAs (Decidable (_ ∨ _))

/-- Callers keep to the blocks they hold. -/
def Allocator.Proper (s : Allocator) : Label → Prop
  | .malloc size => size ≤ 0xFFFFFFFC
  | .calloc count size => count * size ≤ 0xFFFFFFFC
  | .realloc rmem newsize => newsize ≤ 0xFFFFFFFC ∧ s.Owned rmem
  | .free rmem => s.Owned rmem
  | .write a _ => ∃ e ∈ s.live, e.1 ≤ a ∧ a < e.1 + e.2

instance Allocator.decidableProper :
    ∀ (s : Allocator) (a : Allocator.Label), Decidable (s.Proper a)
  | _, .malloc _ => inferInstanceAs (Decidable (_ ≤ _))
  | _, .calloc _ _ => inferInstanceAs (Decidable (_ ≤ _))
  | _, .realloc _ _ => inferInstanceAs (Decidable (_ ∧ _))
  | s, .free rmem => inferInstanceAs (Decidable (s.Owned rmem))
  | s, .write a _ => inferInstanceAs (Decidable (∃ e ∈ s.live, e.1 ≤ a ∧ a < e.1 + e.2))

/-- The label is a call of `rt_realloc`. -/
def Allocator.Label.resizes : Label → Bool
  | .realloc _ _ => true
  | _ => false

/-- The step is about byte `i` of the block at `rmem`. -/
def Allocator.Label.Touches (rmem i : Nat) : Label → Prop
  | .malloc _ | .calloc _ _ => False
  | .realloc rmem' _ | .free rmem' => rmem = rmem'
  | .write a _ => rmem + i = a

variable {i n k size count newsize rmem : Nat} {e f : Nat × Nat} {l l' : List Segment}
variable {h h' : Heap} {tight : Prop} {s t : Allocator} {a : Allocator.Label}

/-! ## The start -/

/-- After `rt_system_heap_init`, one free block takes up the heap. -/
theorem Heap.init_holds {junk : Nat → UInt8} {beginAddr endAddr : Nat}
    (hinit : Heap.init junk beginAddr endAddr = some h) (hend : endAddr < 0x100000000) :
    h.Holds True [free h.memSizeAligned] := by
  have hbegin : 4 ∣ rtAlign beginAddr := rtAlign_dvd beginAddr
  rw [Heap.init] at hinit
  dsimp only at hinit
  split at hinit
  · rename_i hroom
    generalize rtAlign beginAddr = base at hinit hbegin hroom
    simp only [rtAlignDown, sizeofHeapMem] at hinit hroom
    generalize hsize : endAddr / 4 * 4 - base - 2 * 12 = memSize at hinit
    obtain rfl := Option.some.inj hinit
    -- the writes to the two headers
    have hfirst {m : Nat → UInt8} : Kernel.header (setUsed (setPrev (setNext (setMagic m 0 heapMagic) 0
        (memSize + 12)) 0 0) 0 0) 0 = ⟨heapMagic, 0, memSize + 12, 0⟩ := by
      rw [header_setUsed, header_setPrev, header_setNext, header_setMagic,
        Nat.mod_eq_of_lt (by omega : memSize + 12 < 0x100000000)]
      rfl
    have hlast {m : Nat → UInt8} {p : Nat} : (Kernel.header
        (setPrev (setNext (setUsed m p 1) p p) p p) p).used = 1 := by
      rw [header_setPrev, header_setNext, header_setUsed]
    have hframe {m : Nat → UInt8} {p : Nat} :
        Frame m (setPrev (setNext (setUsed (setMagic m p heapMagic) p 1) p p) p p) p :=
      ((frame_setMagic.trans frame_setUsed).trans frame_setNext).trans frame_setPrev
    refine ⟨⟨⟨?_, ?_, hlast, ?_, ?_, hbegin⟩, ?_, rfl, Nat.le_refl 0⟩, List.isChain_singleton _⟩
    · refine ⟨?_, trivial⟩
      rw [hframe.header (by omega), hfirst, Nat.zero_add, Nat.add_comm]
      rfl
    · simp only [span_cons, span_nil, Heap.heapEnd, sizeofHeapMem]
      omega
    · intro s hs
      rw [List.mem_singleton.mp hs]
      change 4 ∣ memSize
      omega
    · simp only [Heap.heapEnd, sizeofHeapMem]
      omega
    · exact ⟨[], _, rfl, rfl, by simp, by simp, by simp⟩
  · cases hinit

theorem Heap.init_sound {junk : Nat → UInt8} {beginAddr endAddr : Nat}
    (hinit : Heap.init junk beginAddr endAddr = some h) (hend : endAddr < 0x100000000)
    (hroom : 12 ≤ h.memSizeAligned) :
    Allocator.Sound ⟨h, []⟩ True [free h.memSizeAligned] :=
  ⟨Heap.init_holds hinit hend, hroom, by simp, by simp, .nil⟩

/-! ## One step -/

theorem Allocator.Sound.not_null (hs : s.Sound tight l) (he : e ∈ s.live) : e.1 ≠ rtNull := by
  obtain ⟨_, _, _, _, _, _, _, hnull, _⟩ := hs.segment he
  exact hnull

theorem Allocator.Sound.without_null (hs : s.Sound tight l) : without s.live rtNull = s.live := by
  rw [without, List.filter_eq_self]
  intro e he
  simpa using hs.not_null he

/-- `rt_calloc` hands out a new area, filled with zeros. -/
theorem Allocator.Sound.calloc (hs : s.Sound tight l) (hsize : count * size ≤ 0xFFFFFFFC) :
    s.heap.rtCalloc count size = some (s.heap, rtNull) ∨
      ∃ h' p l', s.heap.rtCalloc count size = some (h', p) ∧ p ≠ rtNull ∧
        Allocator.Sound ⟨h', (p, count * size) :: s.live⟩ tight l' ∧ s.Leaves h' rtNull ∧
        ∀ i < count * size, h'.byte (p + i) = 0 := by
  generalize hn : count * size = n at hsize
  have hmod : count * size % 0x100000000 = n := by
    rw [hn]
    exact Nat.mod_eq_of_lt (by omega)
  rw [Heap.rtCalloc, hmod]
  dsimp only
  rcases hs.malloc hsize (Nat.le_refl n) Nat.pos_of_ne_zero with
    hnull | ⟨h₁, q, k, l₁, hmalloc, hp, hs₁, hspares, hk, hnew, hareas⟩
  · left
    rw [hnull]
    rfl
  · right
    have hq : (q, k) ∈ areas 12 0 l₁ := (hareas (q, k)).mpr (.inl rfl)
    have hto : s.heap.heapPtr + q - h₁.heapPtr = q := by
      rw [hspares.heapPtr]
      omega
    rw [hmalloc, Option.map_some, if_pos hp, hto]
    refine ⟨_, _, l₁, rfl, hp, ?_, ?_, ?_⟩
    · apply hs₁.write
      intro x hx
      apply Store.fill_of_not
      intro hin
      exact hx ⟨(q, k), hq, hin.1, by omega⟩
    · intro f hf _ i hi
      obtain ⟨y, hy, hfy, hle⟩ := hs.area hf
      have hy₁ : y ∈ areas 12 0 l₁ := (hareas y).mpr (.inr hy)
      have hapart := areas_disjoint hy₁ hq fun heq => hnew y hy (congrArg Prod.fst heq)
      have hpos : s.heap.heapPtr + y.1 + i - s.heap.heapPtr = y.1 + i := by omega
      rw [hfy, Heap.byte, Heap.byte]
      dsimp only
      rw [hspares.heapPtr, hpos, Store.fill_of_not (by omega)]
      exact hspares.bytes _ ⟨y, hy, by omega, by omega⟩
    · intro i hi
      have hpos : s.heap.heapPtr + q + i - s.heap.heapPtr = q + i := by omega
      rw [Heap.byte]
      dsimp only
      rw [hspares.heapPtr, hpos]
      exact Store.fill_add hi

/-- A step that keeps to the blocks: what is left alone stays as it is. -/
structure Allocator.Kept (s t : Allocator) (a : Label) : Prop where
  bytes : ∀ f ∈ s.live, ∀ i < f.2, ¬ a.Touches f.1 i →
    f ∈ t.live ∧ t.heap.byte (f.1 + i) = s.heap.byte (f.1 + i)

theorem Allocator.Kept.refl : s.Kept s a :=
  ⟨fun _ hf _ _ _ => ⟨hf, rfl⟩⟩

/-- A new block leaves the others as they are. -/
theorem Allocator.Sound.kept_of_granted (hs : s.Sound tight l) (hleaves : s.Leaves h' rtNull)
    (p : Nat) : s.Kept ⟨h', granted s.live p size⟩ a := by
  refine ⟨fun f hf i hi _ => ⟨?_, hleaves f hf (hs.not_null hf) i hi⟩⟩
  rw [granted]
  split
  · exact hf
  · exact List.mem_cons_of_mem _ hf

section Calls

variable (hs : s.Sound tight l)

include hs

theorem Allocator.Sound.step_malloc (hsize : size ≤ 0xFFFFFFFC) (hn : n ≤ size)
    (hpos : size ≠ 0 → 0 < n) :
    ∃ h' p l', s.heap.rtMalloc size = some (h', p) ∧
      Allocator.Sound ⟨h', granted s.live p n⟩ tight l' ∧ s.Kept ⟨h', granted s.live p n⟩ a := by
  rcases hs.malloc hsize hn hpos with hnull | ⟨h', q, k, l', hsome, hp, hs', hspares, _, _, hareas⟩
  · exact ⟨s.heap, rtNull, l, hnull, hs, .refl⟩
  · have hgranted : granted s.live (s.heap.heapPtr + q) n = (s.heap.heapPtr + q, n) :: s.live :=
      if_neg hp
    refine ⟨h', _, l', hsome, ?_, hs.kept_of_granted ?_ _⟩
    · rw [hgranted]
      exact hs'
    · intro f hf _ i hi
      obtain ⟨x, hx, heq, hle⟩ := hs.area hf
      rw [heq]
      exact hspares.byte hx (Nat.lt_of_lt_of_le hi hle)

theorem Allocator.Sound.step_calloc (hsize : count * size ≤ 0xFFFFFFFC) :
    ∃ t l', s.next (.calloc count size) = some t ∧ t.Sound tight l' ∧ s.Kept t a := by
  simp only [Allocator.next]
  rcases hs.calloc hsize with hnull | ⟨h', p, l', hsome, hp, hs', hleaves, _⟩
  · rw [hnull]
    exact ⟨_, l, rfl, hs, .refl⟩
  · have hgranted : granted s.live p (count * size) = (p, count * size) :: s.live := if_neg hp
    refine ⟨⟨h', granted s.live p (count * size)⟩, l', ?_, ?_, hs.kept_of_granted hleaves p⟩
    · rw [hsome]
      rfl
    · rw [hgranted]
      exact hs'

theorem Allocator.Sound.step_free (howned : s.Owned rmem) :
    ∃ t l', s.next (.free rmem) = some t ∧ t.Sound tight l' ∧ s.Kept t (.free rmem) := by
  cases howned with
  | inl hnull =>
      subst hnull
      have hfree : s.next (.free rtNull) = some s := by
        rw [Allocator.next, hs.without_null]
        rfl
      exact ⟨s, l, hfree, hs, .refl⟩
  | inr howned =>
      obtain ⟨e, he, rfl⟩ := howned
      obtain ⟨l', hs', hleaves⟩ := hs.released he
      refine ⟨_, l', rfl, hs', ⟨fun f hf i hi hne => ⟨mem_without.mpr ⟨hf, hne⟩, ?_⟩⟩⟩
      exact hleaves f hf hne i hi

theorem Allocator.Sound.step_realloc (hsize : newsize ≤ 0xFFFFFFFC) (howned : s.Owned rmem) :
    ∃ t l', s.next (.realloc rmem newsize) = some t ∧ t.Sound False l' ∧
      s.Kept t (.realloc rmem newsize) := by
  have halign := rtAlign_eq hsize
  cases howned with
  | inl hnull =>
      subst hnull
      simp only [Allocator.next]
      cases Nat.lt_or_ge s.heap.memSizeAligned (rtAlign newsize) with
      | inl hlarge =>
          have hresized : resized s.live rtNull newsize rtNull = s.live := by
            rw [resized, if_neg (by omega), if_pos rfl]
          rw [Heap.rtRealloc_large hlarge, Option.map_some, hresized]
          exact ⟨_, l, rfl, hs.loosen, .refl⟩
      | inr hle =>
          cases Decidable.em (rtAlign newsize = 0) with
          | inl hzero =>
              have hresized : resized s.live rtNull newsize rtNull = s.live := by
                rw [resized, if_pos hzero, hs.without_null]
              rw [Heap.rtRealloc_zero hzero, Option.map_some, hresized]
              exact ⟨_, l, rfl, hs.loosen, .refl⟩
          | inr hzero =>
              obtain ⟨h', p, l', hmalloc, hs', hkept⟩ :=
                hs.step_malloc (a := .realloc rtNull newsize) (by omega : rtAlign newsize ≤ 0xFFFFFFFC)
                  (by omega : newsize ≤ rtAlign newsize) (by omega)
              have hresized : resized s.live rtNull newsize p = granted s.live p newsize := by
                rw [resized, if_neg hzero, hs.without_null]
                rfl
              rw [Heap.rtRealloc_null hle hzero, hmalloc, Option.map_some, hresized]
              exact ⟨_, l', rfl, hs'.loosen, hkept⟩
  | inr howned =>
      obtain ⟨e, he, rfl⟩ := howned
      obtain ⟨h', p, l', hrealloc, hs', hpost⟩ := hs.realloc he hsize
      simp only [Allocator.next, hrealloc, Option.map_some]
      refine ⟨_, l', rfl, hs', ⟨fun f hf i hi hne => ⟨?_, hpost.leaves f hf hne i hi⟩⟩⟩
      have hwithout : f ∈ without s.live e.1 := mem_without.mpr ⟨hf, hne⟩
      simp only [resized]
      split
      · exact hwithout
      · split
        · exact hf
        · exact List.mem_cons_of_mem _ hwithout

theorem Allocator.Sound.step_write {x : Nat} {b : UInt8}
    (hx : ∃ e ∈ s.live, e.1 ≤ x ∧ x < e.1 + e.2) :
    ∃ t l', s.next (.write x b) = some t ∧ t.Sound tight l' ∧ s.Kept t (.write x b) := by
  obtain ⟨e, he, hle, hlt⟩ := hx
  obtain ⟨y, hy, hey, hsize⟩ := hs.area he
  refine ⟨_, l, rfl, hs.write ?_, ⟨fun f hf i hi hne => ⟨hf, ?_⟩⟩⟩
  · intro z hz
    apply Function.update_of_ne
    rintro rfl
    exact hz ⟨y, hy, by omega, by omega⟩
  · obtain ⟨z, _, hfz, _⟩ := hs.area hf
    apply Function.update_of_ne
    change ¬ f.1 + i = x at hne
    change f.1 + i - s.heap.heapPtr ≠ x - s.heap.heapPtr
    omega

end Calls

/-- Every call returns, and keeps the blocks apart and their contents. -/
theorem Allocator.Sound.step (hs : s.Sound tight l) (hp : s.Proper a) :
    ∃ t l', s.next a = some t ∧ t.Sound (tight ∧ a.resizes = false) l' ∧ s.Kept t a := by
  cases a with
  | malloc size =>
      obtain ⟨h', p, l', hmalloc, hs', hkept⟩ :=
        hs.step_malloc hp (Nat.le_refl size) Nat.pos_of_ne_zero
      refine ⟨⟨h', granted s.live p size⟩, l', ?_, hs'.weaken And.left, hkept⟩
      rw [Allocator.next, hmalloc]
      rfl
  | calloc count size =>
      obtain ⟨t, l', hnext, hs', hkept⟩ := hs.step_calloc hp
      exact ⟨t, l', hnext, hs'.weaken And.left, hkept⟩
  | realloc rmem newsize =>
      obtain ⟨t, l', hnext, hs', hkept⟩ := hs.step_realloc hp.1 hp.2
      exact ⟨t, l', hnext, hs'.weaken fun h => Bool.noConfusion h.2, hkept⟩
  | free rmem =>
      obtain ⟨t, l', hnext, hs', hkept⟩ := hs.step_free hp
      exact ⟨t, l', hnext, hs'.weaken And.left, hkept⟩
  | write x b =>
      obtain ⟨t, l', hnext, hs', hkept⟩ := hs.step_write hp
      exact ⟨t, l', hnext, hs'.weaken And.left, hkept⟩

/-! ## Runs -/

/-- The listed steps, from a heap that `rt_system_heap_init` has set up. -/
theorem Allocator.exists_run {C : Allocator → Label → Prop} [∀ s a, Decidable (C s a)]
    {junk : Nat → UInt8} {beginAddr endAddr : Nat} {as : List Label} {p : Allocator → Bool}
    (h : (Heap.init junk beginAddr endAddr).any (fun h => decide (12 ≤ h.memSizeAligned) &&
      (Transition.exec Allocator.next C ⟨h, []⟩ as).any p) = true) :
    ∃ h s, Heap.init junk beginAddr endAddr = some h ∧ 12 ≤ h.memSizeAligned ∧
      Reach Allocator.next C ⟨h, []⟩ s ∧ p s = true := by
  obtain ⟨h, hinit, hrun⟩ := (Option.any_eq_true _ _).mp h
  simp only [Bool.and_eq_true, decide_eq_true_eq] at hrun
  obtain ⟨s, hs, hp⟩ := Transition.exists_reach_of_exec hrun.2
  exact ⟨h, s, hinit, hrun.1, hs, hp⟩

section Runs

variable {junk : Nat → UInt8} {beginAddr endAddr : Nat}
variable (hinit : Heap.init junk beginAddr endAddr = some h) (hend : endAddr < 0x100000000)
variable (hroom : 12 ≤ h.memSizeAligned)

include hinit hend hroom

theorem Allocator.sound_of_reach (hs : Reach Allocator.next Allocator.Proper ⟨h, []⟩ s) :
    ∃ l, s.Sound False l := by
  apply hs.invariant ⟨_, (Heap.init_sound hinit hend hroom).loosen⟩
  intro s t a hsound hp hnext
  obtain ⟨l, hsound⟩ := hsound
  obtain ⟨t', l', hnext', hsound', _⟩ := hsound.step hp
  obtain rfl := Option.some.inj (hnext'.symm.trans hnext)
  exact ⟨l', hsound'.loosen⟩

/-- Without `rt_realloc`, `lfree` is the lowest free block. -/
theorem Allocator.tight_of_reach
    (hs : Reach Allocator.next (fun s a => s.Proper a ∧ a.resizes = false) ⟨h, []⟩ s) :
    ∃ l, s.Sound True l := by
  apply hs.invariant ⟨_, Heap.init_sound hinit hend hroom⟩
  intro s t a hsound hp hnext
  obtain ⟨l, hsound⟩ := hsound
  obtain ⟨t', l', hnext', hsound', _⟩ := hsound.step hp.1
  obtain rfl := Option.some.inj (hnext'.symm.trans hnext)
  exact ⟨l', hsound'.weaken fun _ => ⟨trivial, hp.2⟩⟩

/-- In every run, each call returns, and the blocks that are held lie apart from each
other inside the heap, at multiples of four. -/
theorem blocks_apart (hs : Reach Allocator.next Allocator.Proper ⟨h, []⟩ s) :
    (∀ a, s.Proper a → (s.next a).isSome = true) ∧
    (∀ e ∈ s.live, 4 ∣ e.1 ∧ s.heap.heapPtr + 12 ≤ e.1 ∧
      e.1 + e.2 ≤ s.heap.heapPtr + s.heap.heapEnd) ∧
    s.live.Pairwise fun e f => e.1 + e.2 + 12 ≤ f.1 ∨ f.1 + f.2 + 12 ≤ e.1 := by
  obtain ⟨l, hsound⟩ := Allocator.sound_of_reach hinit hend hroom hs
  refine ⟨?_, ?_, ?_⟩
  · intro a hp
    obtain ⟨t, _, hnext, _⟩ := hsound.step hp
    rw [hnext]
    rfl
  · intro e he
    obtain ⟨x, hx, heq, hle⟩ := hsound.area he
    have hbounds := areas_bounds hx
    have hwhole := hsound.holds.whole
    have haligned := hsound.holds.aligned
    have hstart : 4 ∣ x.1 := by
      obtain ⟨l₁, l₂, hl, hx₁⟩ := mem_areas.mp hx
      have hspan : 4 ∣ span 12 l₁ := by
        apply span_dvd (by decide)
        intro s hs
        apply hsound.holds.sizes
        rw [hl]
        exact List.mem_append_left _ hs
      omega
    omega
  · apply hsound.covers.once.imp_of_mem
    intro e f he hf hne
    obtain ⟨x, hx, hex, hle⟩ := hsound.area he
    obtain ⟨y, hy, hfy, hle'⟩ := hsound.area hf
    have hxy : x ≠ y := by
      rintro rfl
      exact hne (hex.trans hfy.symm)
    have hapart := areas_disjoint hx hy hxy
    omega

omit hinit hend hroom in
/-- Two blocks in a heap of 232 bytes. -/
theorem blocks_apart_two :
    ∃ h s, Heap.init (fun _ => 0) 0x1000 0x1100 = some h ∧
      Reach Allocator.next Allocator.Proper ⟨h, []⟩ s ∧ s.live = [(0x102C, 30), (0x100C, 20)] ∧
      s.live.Pairwise fun e f => e.1 + e.2 + 12 ≤ f.1 ∨ f.1 + f.2 + 12 ≤ e.1 := by
  have hrun : (Heap.init (fun _ => 0) 0x1000 0x1100).any (fun h =>
      decide (12 ≤ h.memSizeAligned) &&
        (Transition.exec Allocator.next Allocator.Proper ⟨h, []⟩ [.malloc 20, .malloc 30]).any
          fun s => decide (s.live = [(0x102C, 30), (0x100C, 20)])) = true := by
    decide +kernel
  obtain ⟨h, s, hinit, hroom, hs, hlive⟩ := Allocator.exists_run hrun
  exact ⟨h, s, hinit, hs, of_decide_eq_true hlive,
    (blocks_apart hinit (by decide) hroom hs).2.2⟩

/-- In every run, a call or a write leaves the contents of all blocks as they are but for
the block, or the byte, that it is about. -/
theorem contents_kept (hs : Reach Allocator.next Allocator.Proper ⟨h, []⟩ s) (hp : s.Proper a)
    (hnext : s.next a = some t) (hf : f ∈ s.live) (hi : i < f.2) (ha : ¬ a.Touches f.1 i) :
    f ∈ t.live ∧ t.heap.byte (f.1 + i) = s.heap.byte (f.1 + i) := by
  obtain ⟨l, hsound⟩ := Allocator.sound_of_reach hinit hend hroom hs
  obtain ⟨t', _, hnext', _, hkept⟩ := hsound.step hp
  obtain rfl := Option.some.inj (hnext'.symm.trans hnext)
  exact hkept.bytes f hf i hi ha

omit hinit hend hroom in
/-- The other block is released. -/
theorem contents_kept_two :
    ∃ h s t, Heap.init (fun _ => 0) 0x1000 0x1100 = some h ∧
      Reach Allocator.next Allocator.Proper ⟨h, []⟩ s ∧ s.next (.free 0x100C) = some t ∧
      (0x102C, 30) ∈ t.live ∧ t.heap.byte (0x102C + 3) = s.heap.byte (0x102C + 3) := by
  have hrun : (Heap.init (fun _ => 0) 0x1000 0x1100).any (fun h =>
      decide (12 ≤ h.memSizeAligned) &&
        (Transition.exec Allocator.next Allocator.Proper ⟨h, []⟩
          [.malloc 20, .malloc 30, .write 0x102F 7]).any
          fun s => decide (s.live = [(0x102C, 30), (0x100C, 20)])) = true := by
    decide +kernel
  obtain ⟨h, s, hinit, hroom, hs, hlive⟩ := Allocator.exists_run hrun
  have hlive : s.live = [(0x102C, 30), (0x100C, 20)] := of_decide_eq_true hlive
  have hp : s.Proper (.free 0x100C) := .inr ⟨(0x100C, 20), by simp [hlive], rfl⟩
  exact ⟨h, s, _, hinit, hs, rfl,
    contents_kept hinit (by decide) hroom hs hp rfl (by simp [hlive]) (by decide)
      (by simp [Allocator.Label.Touches])⟩

/-- In every run, `rt_realloc` returns a block that begins with what both sizes have room
for, or fails and leaves the heap as it was. -/
theorem realloc_contents (hs : Reach Allocator.next Allocator.Proper ⟨h, []⟩ s) (he : e ∈ s.live)
    (hsize : newsize ≤ 0xFFFFFFFC) (hpos : 0 < newsize) :
    ∃ h' p, s.heap.rtRealloc e.1 newsize = some (h', p) ∧
      (p ≠ rtNull → ∀ i < e.2, i < newsize → h'.byte (p + i) = s.heap.byte (e.1 + i)) ∧
      (p = rtNull → h' = s.heap) := by
  obtain ⟨l, hsound⟩ := Allocator.sound_of_reach hinit hend hroom hs
  obtain ⟨h', p, _, hrealloc, _, hpost⟩ := hsound.realloc he hsize
  have halign := rtAlign_eq hsize
  exact ⟨h', p, hrealloc, hpost.kept, fun hp => hpost.failed hp (by omega)⟩

omit hinit hend hroom in
/-- A block is moved to a larger one. -/
theorem realloc_contents_larger :
    ∃ h s h' p, Heap.init (fun _ => 0) 0x1000 0x1100 = some h ∧
      Reach Allocator.next Allocator.Proper ⟨h, []⟩ s ∧
      s.heap.rtRealloc 0x100C 40 = some (h', p) ∧
      (p ≠ rtNull → ∀ i < 20, i < 40 → h'.byte (p + i) = s.heap.byte (0x100C + i)) := by
  have hrun : (Heap.init (fun _ => 0) 0x1000 0x1100).any (fun h =>
      decide (12 ≤ h.memSizeAligned) &&
        (Transition.exec Allocator.next Allocator.Proper ⟨h, []⟩
          [.malloc 20, .malloc 30, .write 0x100D 7]).any
          fun s => decide (s.live = [(0x102C, 30), (0x100C, 20)])) = true := by
    decide +kernel
  obtain ⟨h, s, hinit, hroom, hs, hlive⟩ := Allocator.exists_run hrun
  have hlive : s.live = [(0x102C, 30), (0x100C, 20)] := of_decide_eq_true hlive
  have he : (0x100C, 20) ∈ s.live := by simp [hlive]
  obtain ⟨h', p, hrealloc, hkept, _⟩ :=
    realloc_contents hinit (by decide) hroom hs he (by decide : 40 ≤ 0xFFFFFFFC) (by decide)
  exact ⟨h, s, h', p, hinit, hs, hrealloc, hkept⟩

/-- In a run without `rt_realloc`, `rt_malloc` fails exactly if each free block is too
small, or is the last one and no larger than what is looked for. -/
theorem malloc_fails_iff
    (hs : Reach Allocator.next (fun s a => s.Proper a ∧ a.resizes = false) ⟨h, []⟩ s)
    (hpos : size ≠ 0) (hsize : rtAlign size ≤ s.heap.memSizeAligned) :
    ∃ l, s.heap.Holds True l ∧
      (s.heap.rtMalloc size = some (s.heap, rtNull) ↔
        ∀ l₁ n l₂, l = l₁ ++ free n :: l₂ → n < wanted size ∨ n = wanted size ∧ l₂ = []) := by
  obtain ⟨l, hsound⟩ := Allocator.tight_of_reach hinit hend hroom hs
  have hwhole := hsound.holds.whole
  rw [Heap.heapEnd, sizeofHeapMem] at hwhole
  refine ⟨l, hsound.holds, ?_⟩
  rcases hsound.holds.rtMalloc hsound.room size with
    ⟨h', l₁, n, l₂, hfits, _, _, hmalloc, _⟩ | ⟨hnull, hnone⟩
  · -- the block that is returned fits
    obtain ⟨hl, hn, hstart⟩ := hfits
    rw [hl] at hwhole
    simp only [span_append, span_cons] at hwhole
    constructor
    · intro hnull
      rw [hmalloc] at hnull
      have hp := congrArg Prod.snd (Option.some.inj hnull)
      simp only [rtNull] at hp
      omega
    · intro hall
      rcases hall l₁ n l₂ hl with hlt | ⟨heq, rfl⟩
      · omega
      · rw [span_nil] at hwhole
        omega
  · refine ⟨fun _ l₁ n l₂ hl => ?_, fun _ => hnull⟩
    have hlow := hsound.holds.lfree
    rw [hl] at hlow
    have hle := hlow.le_of_tight
    cases Nat.lt_or_ge n (wanted size) with
    | inl hlt => exact .inl hlt
    | inr hn =>
        right
        have hlate : ¬ span 12 l₁ + wanted size < s.heap.memSizeAligned := fun hstart =>
          Nat.not_lt_of_le hle (hnone hpos hsize l₁ n l₂ ⟨hl, hn, hstart⟩)
        rw [hl] at hwhole
        simp only [span_append, span_cons] at hwhole
        cases l₂ with
        | nil =>
            rw [span_nil] at hwhole
            exact ⟨by omega, rfl⟩
        | cons t l₂ =>
            rw [span_cons] at hwhole
            omega

omit hinit hend hroom in
/-- The second half of the heap is free. -/
theorem malloc_fails_iff_half :
    ∃ h s l, Heap.init (fun _ => 0) 0x1000 0x1100 = some h ∧
      Reach Allocator.next (fun s a => s.Proper a ∧ a.resizes = false) ⟨h, []⟩ s ∧
      s.heap.Holds True l ∧
      (s.heap.rtMalloc 120 = some (s.heap, rtNull) ↔
        ∀ l₁ n l₂, l = l₁ ++ free n :: l₂ → n < wanted 120 ∨ n = wanted 120 ∧ l₂ = []) := by
  have hrun : (Heap.init (fun _ => 0) 0x1000 0x1100).any (fun h =>
      decide (12 ≤ h.memSizeAligned) &&
        (Transition.exec Allocator.next (fun s a => s.Proper a ∧ a.resizes = false) ⟨h, []⟩
          [.malloc 100]).any fun s => decide (s.heap.memSizeAligned = 232)) = true := by
    decide +kernel
  obtain ⟨h, s, hinit, hroom, hs, hsize⟩ := Allocator.exists_run hrun
  have hsize : s.heap.memSizeAligned = 232 := of_decide_eq_true hsize
  have hle : rtAlign 120 ≤ s.heap.memSizeAligned := by
    rw [hsize]
    decide
  obtain ⟨l, hholds, hiff⟩ := malloc_fails_iff hinit (by decide) hroom hs (by decide) hle
  exact ⟨h, s, l, hinit, hs, hholds, hiff⟩

/-- In every run, once all blocks are released, the heap is the one free block it was at
the start, and all but its last bytes can be had. -/
theorem all_released (hs : Reach Allocator.next Allocator.Proper ⟨h, []⟩ s) (hlive : s.live = []) :
    s.heap.Holds False [free s.heap.memSizeAligned] ∧ s.heap.lfree = 0 ∧ s.heap.usedMem = 0 ∧
      ∀ size, size ≠ 0 → wanted size < s.heap.memSizeAligned →
        ∃ h', s.heap.rtMalloc size = some (h', s.heap.heapPtr + 12) := by
  obtain ⟨l, hsound⟩ := Allocator.sound_of_reach hinit hend hroom hs
  have hwhole := hsound.holds.whole
  rw [Heap.heapEnd, sizeofHeapMem] at hwhole
  have hareas : areas 12 0 l = [] := by
    rw [List.eq_nil_iff_forall_not_mem]
    intro x hx
    obtain ⟨e, he, _⟩ := hsound.covers.known x hx
    rw [hlive] at he
    cases he
  have hne : l ≠ [] := by
    rintro rfl
    rw [span_nil] at hwhole
    omega
  obtain ⟨n, rfl⟩ := hsound.holds.merged.eq_single hne hareas
  obtain rfl : n = s.heap.memSizeAligned := by
    simp only [span_cons, span_nil] at hwhole
    omega
  have hlfree : s.heap.lfree = 0 := by
    obtain ⟨u, r, hl, hq, _, _, hend⟩ := hsound.holds.lfree
    cases u with
    | nil => exact hq
    | cons t u =>
        -- at the end there would have to be a held segment
        obtain ⟨rfl, hnil⟩ := List.cons.inj hl
        obtain ⟨rfl, rfl⟩ := List.append_eq_nil_iff.mp hnil.symm
        obtain ⟨t, ht, hused⟩ := hend rfl
        rw [List.mem_singleton.mp ht] at hused
        cases hused
  refine ⟨hsound.holds, hlfree, hsound.holds.usedMem, ?_⟩
  intro size hpos hsize
  have hle : rtAlign size ≤ s.heap.memSizeAligned := by
    rw [wanted] at hsize
    split at hsize
    · omega
    · omega
  rcases hsound.holds.rtMalloc hsound.room size with
    ⟨h', l₁, n, l₂, ⟨hl, _⟩, _, _, hmalloc, _⟩ | ⟨_, hnone⟩
  · have hl₁ : l₁ = [] := by
      cases l₁ with
      | nil => rfl
      | cons t l₁ => simp at hl
    rw [hl₁, span_nil] at hmalloc
    exact ⟨h', hmalloc⟩
  · have hfits : Fits s.heap [free s.heap.memSizeAligned] size [] s.heap.memSizeAligned [] :=
      ⟨rfl, Nat.le_of_lt hsize, by simpa using hsize⟩
    have hlt := hnone hpos hle [] _ [] hfits
    rw [hlfree] at hlt
    exact absurd hlt (Nat.not_lt_zero _)

omit hinit hend hroom in
/-- Two blocks are released, the first one first. -/
theorem all_released_two :
    ∃ h s, Heap.init (fun _ => 0) 0x1000 0x1100 = some h ∧
      Reach Allocator.next Allocator.Proper ⟨h, []⟩ s ∧ s.heap.lfree = 0 ∧
      ∃ h', s.heap.rtMalloc 228 = some (h', s.heap.heapPtr + 12) := by
  have hrun : (Heap.init (fun _ => 0) 0x1000 0x1100).any (fun h =>
      decide (12 ≤ h.memSizeAligned) &&
        (Transition.exec Allocator.next Allocator.Proper ⟨h, []⟩
          [.malloc 20, .malloc 30, .free 0x100C, .free 0x102C]).any
          fun s => decide (s.live = [] ∧ s.heap.memSizeAligned = 232)) = true := by
    decide +kernel
  obtain ⟨h, s, hinit, hroom, hs, hend⟩ := Allocator.exists_run hrun
  have hend : s.live = [] ∧ s.heap.memSizeAligned = 232 := of_decide_eq_true hend
  obtain ⟨_, hlfree, _, hmalloc⟩ := all_released hinit (by decide) hroom hs hend.1
  refine ⟨h, s, hinit, hs, hlfree, hmalloc 228 (by decide) ?_⟩
  rw [hend.2]
  decide

end Runs

end Kernel
