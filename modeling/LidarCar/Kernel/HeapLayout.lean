-- SUMMARY: The bytes of the heap as a list of segments, and what joining, splitting and marking blocks does to it.
import LidarCar.Base.Segments
import LidarCar.Kernel.Heap

/-!
# The layout of the heap

The headers spell out a list of segments. The changes the functions of the heap
make to headers are changes of that list, and leave the bytes that somebody holds
as they are.
-/

namespace Kernel

open Segments

/-! ## Headers in a row -/

/-- The headers from `p` on are those of the segments, the first one with the link
`prev` back. -/
def Laid (m : Nat → UInt8) : Nat → Nat → List Segment → Prop
  | _, _, [] => True
  | prev, p, s :: l =>
      header m p = ⟨heapMagic, if s.used then 1 else 0, p + 12 + s.size, prev⟩ ∧
        Laid m p (p + 12 + s.size) l

/-- Where the last of the segments starts. -/
def lastStart (prev p : Nat) : List Segment → Nat
  | [] => prev
  | s :: l => lastStart p (p + 12 + s.size) l

/-- The flag in the header of the first segment; that of `heap_end` if there is none. -/
def headUsed : List Segment → Nat
  | [] => 1
  | s :: _ => if s.used then 1 else 0

variable {m m' : Nat → UInt8} {prev p q n k : Nat} {s t : Segment} {l l' l₁ l₂ : List Segment}

@[simp] theorem laid_nil : Laid m prev p [] := trivial

@[simp] theorem laid_cons :
    Laid m prev p (s :: l) ↔
      header m p = ⟨heapMagic, if s.used then 1 else 0, p + 12 + s.size, prev⟩ ∧
        Laid m p (p + 12 + s.size) l := Iff.rfl

@[simp] theorem lastStart_concat : lastStart prev p (l ++ [s]) = p + span 12 l := by
  induction l generalizing prev p with
  | nil => rfl
  | cons t l ih =>
      rw [List.cons_append, lastStart, ih, span_cons]
      omega

theorem laid_append :
    Laid m prev p (l₁ ++ l₂) ↔
      Laid m prev p l₁ ∧ Laid m (lastStart prev p l₁) (p + span 12 l₁) l₂ := by
  induction l₁ generalizing prev p with
  | nil => simp [lastStart]
  | cons s l ih =>
      have hpos : p + 12 + s.size + span 12 l = p + span 12 (s :: l) := by
        rw [span_cons]
        omega
      rw [List.cons_append, laid_cons, ih, laid_cons, lastStart, hpos, and_assoc]

/-- Writes to a header elsewhere leave the row as it is. -/
theorem Laid.frame (h : Laid m prev p l) (hframe : Frame m m' q)
    (hq : q + 12 ≤ p ∨ p + span 12 l ≤ q) : Laid m' prev p l := by
  induction l generalizing prev p with
  | nil => trivial
  | cons s l ih =>
      rw [span_cons] at hq
      refine ⟨?_, ih h.2 (by omega)⟩
      rw [hframe.header (by omega)]
      exact h.1

/-- The link back of the first header is set. -/
theorem Laid.relink (h : Laid m prev p l) (hq : q < 0x100000000) :
    Laid (setPrev m p q) q p l := by
  cases l with
  | nil => trivial
  | cons s l =>
      refine ⟨?_, h.2.frame frame_setPrev (by omega)⟩
      rw [header_setPrev, h.1, Nat.mod_eq_of_lt hq]

/-- One header of the row is changed. -/
theorem Laid.set (h : Laid m prev p (l₁ ++ s :: l₂)) (hsize : t.size = s.size)
    (hframe : Frame m m' (p + span 12 l₁))
    (ht : header m' (p + span 12 l₁) =
      ⟨heapMagic, if t.used then 1 else 0, p + span 12 l₁ + 12 + t.size, lastStart prev p l₁⟩) :
    Laid m' prev p (l₁ ++ t :: l₂) := by
  rw [laid_append, laid_cons] at h ⊢
  obtain ⟨hl₁, _, hl₂⟩ := h
  refine ⟨hl₁.frame hframe (by omega), ht, ?_⟩
  rw [hsize]
  exact hl₂.frame hframe (by omega)

/-- A link back is not a flag. -/
theorem used_setPrev (hq : q = p ∨ q + 12 ≤ p ∨ p + 12 ≤ q) :
    (header (setPrev m p k) q).used = (header m q).used := by
  cases hq with
  | inl hq => rw [hq, header_setPrev]
  | inr hq => rw [frame_setPrev.header hq]

/-! ## Layouts -/

/-- The headers cut all of the heap into the segments `l`. -/
structure Heap.Formed (h : Heap) (l : List Segment) : Prop where
  laid : Laid h.bytes 0 0 l
  whole : span 12 l = h.heapEnd
  endUsed : (h.header h.heapEnd).used = 1
  sizes : ∀ s ∈ l, 4 ∣ s.size
  /-- Addresses have 32 bits. -/
  bound : h.heapPtr + h.heapEnd + 12 ≤ 0x100000000
  aligned : 4 ∣ h.heapPtr

/-- `lfree` is a free block, the lowest one where `tight` holds, and `used_mem` adds
up. -/
structure Heap.Kept (h : Heap) (tight : Prop) (l : List Segment) : Prop extends h.Formed l where
  lfree : FreeAt 12 tight l h.lfree
  usedMem : h.usedMem = heldSpan 12 l
  maxMem : h.usedMem ≤ h.maxMem

/-- No two free blocks are neighbours. -/
structure Heap.Holds (h : Heap) (tight : Prop) (l : List Segment) : Prop
    extends h.Kept tight l where
  merged : Merged l

/-- The heap is where it was, and the bytes of the areas are those they were. -/
structure Heap.Spares (h h' : Heap) (l : List Segment) : Prop where
  heapPtr : h'.heapPtr = h.heapPtr
  memSizeAligned : h'.memSizeAligned = h.memSizeAligned
  bytes : ∀ x, InArea 12 0 l x → h'.bytes x = h.bytes x

variable {h h' h'' : Heap} {tight : Prop}

theorem Heap.Spares.refl : h.Spares h l :=
  ⟨rfl, rfl, fun _ _ => rfl⟩

theorem Heap.Spares.trans (hs : h.Spares h' l) (hs' : h'.Spares h'' l) : h.Spares h'' l where
  heapPtr := hs'.heapPtr.trans hs.heapPtr
  memSizeAligned := hs'.memSizeAligned.trans hs.memSizeAligned
  bytes x hx := (hs'.bytes x hx).trans (hs.bytes x hx)

/-- Fewer areas are spared as well. -/
theorem Heap.Spares.mono (hs : h.Spares h' l)
    (hsub : ∀ x, InArea 12 0 l' x → InArea 12 0 l x) : h.Spares h' l' where
  heapPtr := hs.heapPtr
  memSizeAligned := hs.memSizeAligned
  bytes x hx := hs.bytes x (hsub x hx)

theorem Heap.Formed.span_le (hf : h.Formed l) : span 12 l + 12 ≤ 0x100000000 := by
  have hbound := hf.bound
  rw [← hf.whole] at hbound
  omega

/-- The header of a block. -/
theorem Heap.Formed.header (hf : h.Formed (l₁ ++ s :: l₂)) :
    h.header (span 12 l₁) =
      ⟨heapMagic, if s.used then 1 else 0, span 12 l₁ + 12 + s.size, lastStart 0 0 l₁⟩ := by
  have hlaid := (laid_append.mp hf.laid).2.1
  rwa [Nat.zero_add] at hlaid

theorem Heap.Formed.next_eq {a : Nat} (hf : h.Formed (l₁ ++ s :: l₂)) (ha : a = span 12 l₁) :
    (h.header a).next = a + 12 + s.size := by
  rw [ha]
  exact congrArg HeapMem.next hf.header

/-- The header after a block is the end's or the next block's. -/
theorem Heap.Formed.next_used (hf : h.Formed (l₁ ++ s :: l₂)) :
    (h.header (span 12 l₁ + 12 + s.size)).used = headUsed l₂ := by
  have hpos : span 12 (l₁ ++ [s]) = span 12 l₁ + 12 + s.size := span_concat
  cases l₂ with
  | nil =>
      have hend := hf.endUsed
      rwa [← hf.whole, hpos] at hend
  | cons t l =>
      have hsplit : l₁ ++ s :: t :: l = (l₁ ++ [s]) ++ t :: l := by simp
      rw [hsplit] at hf
      rw [← hpos, hf.header, headUsed]

/-- The header of one block is changed, its size kept. -/
theorem Heap.Formed.set (hf : h.Formed (l₁ ++ s :: l₂)) (hsize : t.size = s.size)
    (hframe : Frame h.bytes m (span 12 l₁))
    (ht : Kernel.header m (span 12 l₁) =
      ⟨heapMagic, if t.used then 1 else 0, span 12 l₁ + 12 + t.size, lastStart 0 0 l₁⟩) :
    Heap.Formed { h with bytes := m } (l₁ ++ t :: l₂) where
  laid := by
    apply hf.laid.set hsize
    · rwa [Nat.zero_add]
    · rwa [Nat.zero_add]
  whole := by
    have hwhole := hf.whole
    simp only [span_append, span_cons] at hwhole ⊢
    rw [hsize]
    exact hwhole
  endUsed := by
    have hwhole := hf.whole
    simp only [span_append, span_cons] at hwhole
    have hkept := hframe.header (q := h.heapEnd) (by omega)
    exact (congrArg HeapMem.used hkept).trans hf.endUsed
  sizes := by
    have hsizes := hf.sizes
    simp only [List.forall_mem_append, List.forall_mem_cons] at hsizes ⊢
    rwa [hsize]
  bound := hf.bound
  aligned := hf.aligned

theorem Heap.Formed.of_bytes (hf : h.Formed l) (hptr : h'.heapPtr = h.heapPtr)
    (hsize : h'.memSizeAligned = h.memSizeAligned) (hbytes : h'.bytes = h.bytes) : h'.Formed l := by
  have hend : h'.heapEnd = h.heapEnd := by rw [Heap.heapEnd, Heap.heapEnd, hsize]
  exact
    { laid := hbytes ▸ hf.laid
      whole := hend ▸ hf.whole
      endUsed := by
        rw [Heap.header, hbytes, hend]
        exact hf.endUsed
      sizes := hf.sizes
      bound := by
        rw [hptr, hend]
        exact hf.bound
      aligned := hptr ▸ hf.aligned }

/-- `mem->used` is set. -/
theorem Heap.Formed.mark (hf : h.Formed (l₁ ++ s :: l₂)) (used : Bool) :
    Heap.Formed { h with bytes := setUsed h.bytes (span 12 l₁) (if used then 1 else 0) }
      (l₁ ++ ⟨s.size, used⟩ :: l₂) := by
  apply hf.set (t := ⟨s.size, used⟩) rfl frame_setUsed
  have hhead : Kernel.header h.bytes (span 12 l₁) = _ := hf.header
  rw [header_setUsed, hhead]
  cases used with
  | false => rfl
  | true => rfl

/-- `mem->magic` is set to what it is. -/
theorem Heap.Formed.stamp (hf : h.Formed (l₁ ++ s :: l₂)) :
    Heap.Formed { h with bytes := setMagic h.bytes (span 12 l₁) heapMagic } (l₁ ++ s :: l₂) := by
  apply hf.set rfl frame_setMagic
  have hhead : Kernel.header h.bytes (span 12 l₁) = _ := hf.header
  rw [header_setMagic, hhead]
  rfl

/-- No byte of an area is one of a header. -/
theorem not_header {x : Nat} (hx : InArea 12 0 l x) (hl : l = l₁ ++ l₂) (hq : q = span 12 l₁) :
    ¬ (q ≤ x ∧ x < q + 12) := by
  rw [hl] at hx
  cases inArea_append.mp hx with
  | inl hx =>
      have := hx.bounds
      omega
  | inr hx =>
      have := hx.bounds
      omega

/-! ## Joining blocks -/

section Join

variable {a b c : Nat}

theorem Heap.join_bytes (hnext : (h.header b).next = c) (hb : a + 12 ≤ b) :
    (h.join a b).bytes = setPrev (setNext h.bytes a c) c a := by
  have hkept : Kernel.header (setNext h.bytes a c) b = h.header b := frame_setNext.header (.inr hb)
  simp only [Heap.join, hnext, hkept]

theorem Laid.join (hlaid : Laid m 0 0 (l₁ ++ free n :: free k :: l₂)) (ha : a = span 12 l₁)
    (hc : c = a + 12 + n + 12 + k) (hlt : c < 0x100000000) :
    Laid (setPrev (setNext m a c) c a) 0 0 (l₁ ++ free (n + 12 + k) :: l₂) := by
  simp only [laid_append, laid_cons, Nat.zero_add, ← ha] at hlaid ⊢
  obtain ⟨hl₁, hhead, _, hl₂⟩ := hlaid
  rw [← hc] at hl₂
  have hpos : a + 12 + (n + 12 + k) = c := by omega
  rw [hpos]
  refine ⟨?_, ?_, ?_⟩
  · exact (hl₁.frame frame_setNext (by omega)).frame frame_setPrev (by omega)
  · have hkept : header (setPrev (setNext m a c) c a) a = header (setNext m a c) a :=
      frame_setPrev.header (by omega)
    rw [hkept, header_setNext, hhead, Nat.mod_eq_of_lt hlt]
  · exact (hl₂.frame frame_setNext (by omega)).relink (by omega)

/-- The link of the second of two blocks. -/
theorem Heap.Formed.next_next (hf : h.Formed (l₁ ++ s :: t :: l₂)) (ha : a = span 12 l₁)
    (hb : b = a + 12 + s.size) : (h.header b).next = b + 12 + t.size := by
  have hlaid := hf.laid
  simp only [laid_append, laid_cons, Nat.zero_add, ← ha, ← hb] at hlaid
  exact congrArg HeapMem.next hlaid.2.2.1

theorem Heap.Formed.join (hf : h.Formed (l₁ ++ free n :: free k :: l₂)) (ha : a = span 12 l₁)
    (hb : b = a + 12 + n) : (h.join a b).Formed (l₁ ++ free (n + 12 + k) :: l₂) := by
  have hle := hf.span_le
  have hwhole := hf.whole
  simp only [span_append, span_cons, ← ha] at hle hwhole
  have hnext : (h.header b).next = b + 12 + k := hf.next_next ha hb
  have hbytes := Heap.join_bytes hnext (by omega : a + 12 ≤ b)
  exact
    { laid := by
        rw [hbytes]
        exact hf.laid.join ha (by omega) (by omega)
      whole := by
        change _ = h.heapEnd
        simp only [span_append, span_cons, ← ha]
        omega
      endUsed := by
        have hend := hf.endUsed
        change (Kernel.header (h.join a b).bytes h.heapEnd).used = 1
        have hkept : Kernel.header (setNext h.bytes a (b + 12 + k)) h.heapEnd = h.header h.heapEnd :=
          frame_setNext.header (by omega)
        rw [hbytes, used_setPrev, hkept, hend]
        cases l₂ with
        | nil =>
            rw [span_nil] at hwhole
            omega
        | cons t l =>
            rw [span_cons] at hwhole
            omega
      sizes := by
        have hsizes := hf.sizes
        simp only [List.forall_mem_append, List.forall_mem_cons] at hsizes ⊢
        obtain ⟨hl₁, hn, hk, hl₂⟩ := hsizes
        exact ⟨hl₁, by omega, hl₂⟩
      bound := hf.bound
      aligned := hf.aligned }

/-- Blocks are joined as `plug_holes` does it. -/
theorem Heap.Kept.join (hk : h.Kept tight (l₁ ++ free n :: free k :: l₂)) (ha : a = span 12 l₁)
    (hb : b = a + 12 + n) : (h.join a b).Kept tight (l₁ ++ free (n + 12 + k) :: l₂) where
  toFormed := hk.toFormed.join ha hb
  lfree := by
    have hlow := hk.lfree.join (by decide)
    rwa [← ha, ← hb] at hlow
  usedMem := by
    have hused := hk.usedMem
    change h.usedMem = _
    simpa only [heldSpan_append, heldSpan_free] using hused
  maxMem := hk.maxMem

theorem Heap.Formed.join_spares (hf : h.Formed (l₁ ++ free n :: free k :: l₂))
    (ha : a = span 12 l₁) (hb : b = a + 12 + n) :
    h.Spares (h.join a b) (l₁ ++ free n :: free k :: l₂) := by
  refine ⟨rfl, rfl, fun x hx => ?_⟩
  have hnext : (h.header b).next = b + 12 + k := hf.next_next ha hb
  rw [Heap.join_bytes hnext (by omega : a + 12 ≤ b)]
  have ha' : ¬ (a ≤ x ∧ x < a + 12) := not_header hx rfl ha
  have hc' : ¬ (b + 12 + k ≤ x ∧ x < b + 12 + k + 12) := by
    have hl : l₁ ++ free n :: free k :: l₂ = (l₁ ++ [free n, free k]) ++ l₂ := by simp
    apply not_header hx hl
    simp only [span_append, span_cons, span_nil]
    omega
  exact (frame_setPrev.same x hc').trans (frame_setNext.same x ha')

end Join

end Kernel
