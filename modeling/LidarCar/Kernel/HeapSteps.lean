-- SUMMARY: `plug_holes` merges neighbours, and the functions of the heap change its layout as the lists of segments say.
import LidarCar.Kernel.HeapLayout

/-!
# The steps of the heap

Each function of the heap, started in a layout that is merged, ends in one, and the
new layout is told by the old one.
-/

namespace Kernel

open Segments

variable {m : Nat → UInt8} {a b n k size : Nat} {s t : Segment} {l l₁ l₂ : List Segment}
variable {h h' : Heap} {tight : Prop}

/-! ## `plug_holes` -/

/-- The forward half joins a free block after this one. -/
theorem Heap.Kept.plugForward (hk : h.Kept tight (l₁ ++ free n :: l₂)) (hm : Merged l₂)
    (ha : a = span 12 l₁) :
    ∃ n' l₃, (h.plugForward a).Kept tight (l₁ ++ free n' :: l₃) ∧ Merged (free n' :: l₃) ∧
      coalesce 12 (l₁ ++ free n' :: l₃) = coalesce 12 (l₁ ++ free n :: l₂) ∧
      h.Spares (h.plugForward a) (l₁ ++ free n :: l₂) := by
  have hnext : (h.header a).next = a + 12 + n := hk.next_eq ha
  have hused : (h.header (a + 12 + n)).used = headUsed l₂ := by
    rw [ha]
    exact hk.next_used
  have hnone (hne : (h.header (a + 12 + n)).used ≠ 0) (hm : Merged (free n :: l₂)) :
      ∃ n' l₃, (h.plugForward a).Kept tight (l₁ ++ free n' :: l₃) ∧ Merged (free n' :: l₃) ∧
        coalesce 12 (l₁ ++ free n' :: l₃) = coalesce 12 (l₁ ++ free n :: l₂) ∧
        h.Spares (h.plugForward a) (l₁ ++ free n :: l₂) := by
    have hsame : h.plugForward a = h := by
      simp only [Heap.plugForward, hnext]
      exact if_neg fun hc => hne hc.2.1
    rw [hsame]
    exact ⟨n, l₂, hk, hm, rfl, .refl⟩
  match l₂, hm with
  | [], _ =>
      apply hnone
      · simp [hused, headUsed]
      · exact List.isChain_singleton _
  | ⟨k, true⟩ :: l, hm =>
      apply hnone
      · simp [hused, headUsed]
      · exact hm.free_cons_held
  | ⟨k, false⟩ :: l, hm =>
      have hwhole := hk.whole
      simp only [span_append, span_cons, ← ha] at hwhole
      have hjoin : h.plugForward a = h.join a (a + 12 + n) := by
        simp only [Heap.plugForward, hnext]
        exact if_pos ⟨by omega, hused, by omega⟩
      rw [hjoin]
      exact ⟨n + 12 + k, l, hk.join ha rfl, hm.resize_free, coalesce_join.symm,
        hk.toFormed.join_spares ha rfl⟩

/-- The backward half joins this block to a free one before it. -/
theorem Heap.Kept.plugBackward (hk : h.Kept tight (l₁ ++ free n :: l₂)) (hm₁ : Merged l₁)
    (hm₂ : Merged (free n :: l₂)) (ha : a = span 12 l₁) :
    (h.plugBackward a).Holds tight (coalesce 12 (l₁ ++ free n :: l₂)) ∧
      h.Spares (h.plugBackward a) (l₁ ++ free n :: l₂) := by
  have hprev : (h.header a).prev = lastStart 0 0 l₁ := by
    have hhead := congrArg HeapMem.prev hk.header
    rwa [← ha] at hhead
  have hnone (hc : ¬ (lastStart 0 0 l₁ ≠ a ∧ (h.header (lastStart 0 0 l₁)).used = 0))
      (hm : Merged (l₁ ++ free n :: l₂)) :
      (h.plugBackward a).Holds tight (coalesce 12 (l₁ ++ free n :: l₂)) ∧
        h.Spares (h.plugBackward a) (l₁ ++ free n :: l₂) := by
    have hsame : h.plugBackward a = h := by
      simp only [Heap.plugBackward, hprev]
      exact if_neg hc
    rw [hsame, coalesce_of_merged hm]
    exact ⟨⟨hk, hm⟩, .refl⟩
  cases l₁ using List.reverseRecOn with
  | nil =>
      apply hnone
      · rw [ha]
        simp [lastStart]
      · exact hm₂
  | append_singleton l₁ s _ =>
      rw [lastStart_concat, Nat.zero_add] at hprev hnone
      have hlist : l₁ ++ [s] ++ free n :: l₂ = l₁ ++ s :: free n :: l₂ := by simp
      rw [hlist] at hk hnone ⊢
      have hhead := hk.header
      have hb : a = span 12 l₁ + 12 + s.size := ha.trans span_concat
      obtain ⟨j, used⟩ := s
      cases used with
      | true =>
          apply hnone
          · intro hc
            rw [hhead] at hc
            cases hc.2
          · rw [merged_append_cons]
            exact ⟨hm₁, hm₂.cons_held⟩
      | false =>
          have hjoin : h.plugBackward a = h.join (span 12 l₁) a := by
            simp only [Heap.plugBackward, hprev]
            refine if_pos ⟨by omega, ?_⟩
            rw [hhead]
            rfl
          have hmerged : Merged (l₁ ++ free (j + 12 + n) :: l₂) := by
            rw [merged_append_cons]
            exact ⟨hm₁.resize id, hm₂.resize_free⟩
          rw [hjoin, coalesce_join, coalesce_of_merged hmerged]
          exact ⟨⟨hk.join rfl hb, hmerged⟩, hk.toFormed.join_spares rfl hb⟩

/-- `plug_holes` merges a freed block with its neighbours. -/
theorem Heap.Kept.plugHoles (hk : h.Kept tight (l₁ ++ free n :: l₂)) (hm₁ : Merged l₁)
    (hm₂ : Merged l₂) (ha : a = span 12 l₁) :
    (h.plugHoles a).Holds tight (coalesce 12 (l₁ ++ free n :: l₂)) ∧
      h.Spares (h.plugHoles a) (l₁ ++ free n :: l₂) := by
  obtain ⟨n', l₃, hk', hm', hsame, hspares⟩ := hk.plugForward hm₂ ha
  obtain ⟨hholds, hspares'⟩ := hk'.plugBackward hm₁ hm' ha
  have hareas (x : Nat) (hx : InArea 12 0 (l₁ ++ free n :: l₂) x) :
      InArea 12 0 (l₁ ++ free n' :: l₃) x := by
    rw [InArea, ← areas_coalesce, ← hsame, areas_coalesce] at hx
    exact hx
  rw [hsame] at hholds
  exact ⟨hholds, hspares.trans (hspares'.mono hareas)⟩

/-! ## Splitting a block -/

section Split

variable {u : Bool}

@[simp] theorem Heap.split_heapPtr : (h.split a b).heapPtr = h.heapPtr := by
  simp only [Heap.split]

@[simp] theorem Heap.split_memSizeAligned :
    (h.split a b).memSizeAligned = h.memSizeAligned := by
  simp only [Heap.split]

@[simp] theorem Heap.split_heapEnd : (h.split a b).heapEnd = h.heapEnd := by
  rw [Heap.heapEnd, Heap.heapEnd, Heap.split_memSizeAligned]

@[simp] theorem Heap.split_lfree : (h.split a b).lfree = h.lfree := by
  simp only [Heap.split]

@[simp] theorem Heap.split_usedMem : (h.split a b).usedMem = h.usedMem := by
  simp only [Heap.split]

@[simp] theorem Heap.split_maxMem : (h.split a b).maxMem = h.maxMem := by
  simp only [Heap.split]

/-- The bytes after a split: the new header, and the links around it. -/
theorem Heap.split_bytes (hf : h.Formed (l₁ ++ ⟨n, u⟩ :: l₂)) (ha : a = span 12 l₁)
    (hb : b = a + 12 + k) (hk : k + 12 ≤ n) :
    let m := setNext (newBlock h.bytes b a) a b
    (h.split a b).bytes = (if l₂ = [] then m else setPrev m (a + 12 + n) b) ∧
      Kernel.header m b = ⟨heapMagic, 0, a + 12 + n, a⟩ := by
  intro m
  have hle := hf.span_le
  have hwhole := hf.whole
  simp only [span_append, span_cons, ← ha, Heap.heapEnd, sizeofHeapMem] at hle hwhole
  have hnext : (Kernel.header h.bytes a).next = a + 12 + n := hf.next_eq ha
  have hm : Kernel.header m b = ⟨heapMagic, 0, a + 12 + n, a⟩ := by
    have hkept : Kernel.header m b = Kernel.header (newBlock h.bytes b a) b :=
      frame_setNext.header (by omega)
    rw [hkept, header_newBlock (by omega) (by omega) (by omega), hnext]
  refine ⟨?_, hm⟩
  simp only [Heap.split]
  change (if (Kernel.header m b).next ≠ _ then setPrev m (Kernel.header m b).next b else m) = _
  simp only [hm]
  cases l₂ with
  | nil =>
      rw [span_nil] at hwhole
      rw [if_neg (by simp only [sizeofHeapMem]; omega), if_pos rfl]
  | cons t l =>
      rw [span_cons] at hwhole
      rw [if_pos (by simp only [sizeofHeapMem]; omega), if_neg (List.cons_ne_nil t l)]

theorem Heap.Formed.split (hf : h.Formed (l₁ ++ ⟨n, u⟩ :: l₂)) (ha : a = span 12 l₁)
    (hb : b = a + 12 + k) (hk : k + 12 ≤ n) (hdvd : 4 ∣ k) :
    (h.split a b).Formed (l₁ ++ ⟨k, u⟩ :: free (n - k - 12) :: l₂) := by
  have hle := hf.span_le
  have hwhole := hf.whole
  simp only [span_append, span_cons, ← ha] at hle hwhole
  obtain ⟨hbytes, hnew⟩ := Heap.split_bytes hf ha hb hk
  have hlaid := hf.laid
  simp only [laid_append, laid_cons, Nat.zero_add, ← ha] at hlaid
  obtain ⟨hl₁, hhead, hl₂⟩ := hlaid
  generalize hm : setNext (newBlock h.bytes b a) a b = m at hbytes hnew
  -- what lies away from the two headers is as before
  have hout {q : Nat} (hqa : q + 12 ≤ a ∨ a + 12 ≤ q) (hqb : q + 12 ≤ b ∨ b + 12 ≤ q) :
      Kernel.header m q = Kernel.header h.bytes q := by
    rw [← hm, frame_setNext.header hqa, frame_newBlock.header hqb]
  have hold : Kernel.header m a = ⟨heapMagic, if u then 1 else 0, b, lastStart 0 0 l₁⟩ := by
    have hkept : Kernel.header (newBlock h.bytes b a) a = Kernel.header h.bytes a :=
      frame_newBlock.header (by omega)
    rw [← hm, header_setNext, hkept, hhead, Nat.mod_eq_of_lt (by omega)]
  have hl₁' : Laid m 0 0 l₁ := by
    rw [← hm]
    exact (hl₁.frame frame_newBlock (by omega)).frame frame_setNext (by omega)
  have hl₂' : Laid m a (a + 12 + n) l₂ := by
    rw [← hm]
    exact (hl₂.frame frame_newBlock (by omega)).frame frame_setNext (by omega)
  have hpos : a + 12 + k + 12 + (n - k - 12) = a + 12 + n := by omega
  exact
    { laid := by
        rw [hbytes]
        cases l₂ with
        | nil =>
            rw [if_pos rfl]
            simp only [laid_append, laid_cons, Nat.zero_add, ← ha, ← hb]
            refine ⟨hl₁', hold, ?_, trivial⟩
            rw [hnew, hb, hpos]
            rfl
        | cons t l =>
            rw [if_neg (List.cons_ne_nil t l)]
            rw [laid_append, Nat.zero_add, ← ha, laid_cons, ← hb, laid_cons, hb, hpos, ← hb]
            refine ⟨hl₁'.frame frame_setPrev (by omega), ?_, ?_, hl₂'.relink (by omega)⟩
            · rw [frame_setPrev.header (by omega), hold]
            · rw [frame_setPrev.header (by omega), hnew]
              rfl
      whole := by
        rw [Heap.split_heapEnd]
        simp only [span_append, span_cons, ← ha]
        omega
      endUsed := by
        have hend := hf.endUsed
        rw [Heap.header, Heap.split_heapEnd, hbytes]
        cases l₂ with
        | nil =>
            rw [if_pos rfl, hout (by omega) (by omega)]
            exact hend
        | cons t l =>
            rw [span_cons] at hwhole
            rw [if_neg (List.cons_ne_nil t l), used_setPrev (by omega), hout (by omega) (by omega)]
            exact hend
      sizes := by
        have hsizes := hf.sizes
        simp only [List.forall_mem_append, List.forall_mem_cons] at hsizes ⊢
        obtain ⟨hl₁, hn, hl₂⟩ := hsizes
        exact ⟨hl₁, hdvd, by omega, hl₂⟩
      bound := by
        rw [Heap.split_heapPtr, Heap.split_heapEnd]
        exact hf.bound
      aligned := by
        rw [Heap.split_heapPtr]
        exact hf.aligned }

/-- The first part of a split block keeps its bytes. -/
theorem Heap.Formed.split_spares (hf : h.Formed (l₁ ++ ⟨n, u⟩ :: l₂)) (ha : a = span 12 l₁)
    (hb : b = a + 12 + k) (hk : k + 12 ≤ n) :
    h.Spares (h.split a b) (l₁ ++ ⟨k, u⟩ :: free (n - k - 12) :: l₂) := by
  refine ⟨Heap.split_heapPtr, Heap.split_memSizeAligned, fun x hx => ?_⟩
  obtain ⟨hbytes, _⟩ := Heap.split_bytes hf ha hb hk
  have ha' : ¬ (a ≤ x ∧ x < a + 12) := not_header hx rfl ha
  have hb' : ¬ (b ≤ x ∧ x < b + 12) := by
    have hl : l₁ ++ ⟨k, u⟩ :: free (n - k - 12) :: l₂ =
        (l₁ ++ [⟨k, u⟩]) ++ free (n - k - 12) :: l₂ := by simp
    apply not_header hx hl
    rw [span_concat, hb, ha]
  have hc' : ¬ (a + 12 + n ≤ x ∧ x < a + 12 + n + 12) := by
    have hl : l₁ ++ ⟨k, u⟩ :: free (n - k - 12) :: l₂ =
        (l₁ ++ [⟨k, u⟩, free (n - k - 12)]) ++ l₂ := by simp
    apply not_header hx hl
    simp only [span_append, span_cons, span_nil]
    omega
  have hm : setNext (newBlock h.bytes b a) a b x = h.bytes x := by
    rw [frame_setNext.same x ha', frame_newBlock.same x hb']
  rw [hbytes]
  split
  · exact hm
  · rw [frame_setPrev.same x hc', hm]

end Split

/-! ## Releasing and shrinking a block -/

theorem Heap.Kept.stats_lt (hk : h.Kept tight l) : heldSpan 12 l + 12 ≤ 0x100000000 := by
  have hspan := hk.span_le
  have hle : heldSpan 12 l ≤ span 12 l := heldSpan_le
  omega

/-- A released block is free, and merged with its neighbours. -/
theorem Heap.Holds.release (hh : h.Holds tight (l₁ ++ held n :: l₂)) (ha : a = span 12 l₁) :
    (h.release a).Holds tight (coalesce 12 (l₁ ++ free n :: l₂)) ∧
      h.Spares (h.release a) (l₁ ++ free n :: l₂) := by
  let m := setMagic (setUsed h.bytes a 0) a heapMagic
  let h₁ : Heap :=
    { h with
      bytes := m
      lfree := if a < h.lfree then a else h.lfree
      usedMem := sub32 h.usedMem (sub32 (Kernel.header m a).next a) }
  have hrelease : h.release a = h₁.plugHoles a := rfl
  have hf : h₁.Formed (l₁ ++ free n :: l₂) := by
    have hmark := (hh.toFormed.mark false).stamp
    rw [← ha] at hmark
    exact hmark.of_bytes rfl rfl rfl
  have hle := hf.span_le
  simp only [span_append, span_cons, ← ha] at hle
  have hnext : (Kernel.header m a).next = a + 12 + n := hf.next_eq ha
  have hroom : sub32 (Kernel.header m a).next a = 12 + n := by
    rw [hnext, sub32_eq (by omega) (by omega)]
    omega
  have hmax := hh.maxMem
  have hused : sub32 h.usedMem (12 + n) = heldSpan 12 (l₁ ++ free n :: l₂) := by
    have hold := hh.usedMem
    have hstats := hh.toKept.stats_lt
    simp only [heldSpan_append, heldSpan_held] at hold hstats
    rw [sub32_eq (by omega) (by omega), hold]
    simp only [heldSpan_append, heldSpan_free]
    omega
  have hkept : h₁.Kept tight (l₁ ++ free n :: l₂) :=
    { toFormed := hf
      lfree := by
        have hlow := hh.lfree.release
        rwa [← ha] at hlow
      usedMem := by
        change sub32 h.usedMem (sub32 (Kernel.header m a).next a) = _
        rw [hroom, hused]
      maxMem := by
        have hold := hh.usedMem
        simp only [heldSpan_append, heldSpan_held] at hold
        change sub32 h.usedMem (sub32 (Kernel.header m a).next a) ≤ h.maxMem
        rw [hroom, hused]
        simp only [heldSpan_append, heldSpan_free]
        omega }
  have hspares : h.Spares h₁ (l₁ ++ free n :: l₂) := by
    refine ⟨rfl, rfl, fun x hx => ?_⟩
    have hout := not_header hx rfl ha
    exact (frame_setUsed.trans frame_setMagic).same x hout
  have hm := merged_append_cons.mp hh.merged
  have hm₁ : Merged l₁ := (List.isChain_append.mp hm.1).1
  have hm₂ : Merged l₂ := (List.isChain_cons.mp hm.2).2
  obtain ⟨hholds, hrest⟩ := hkept.plugHoles hm₁ hm₂ ha
  rw [hrelease]
  exact ⟨hholds, hspares.trans hrest⟩

/-- A block that `rt_realloc` makes smaller keeps its first bytes. The rest is free,
and may lie below `lfree`. -/
theorem Heap.Holds.shrink (hh : h.Holds tight (l₁ ++ held n :: l₂)) (ha : a = span 12 l₁)
    (hb : b = a + 12 + k) (hk : k + 12 ≤ n) (hdvd : 4 ∣ k) :
    let h₁ := { h with usedMem := sub32 h.usedMem (sub32 n k) }
    ((h₁.split a b).plugHoles b).Holds False
        (coalesce 12 (l₁ ++ held k :: free (n - k - 12) :: l₂)) ∧
      h.Spares ((h₁.split a b).plugHoles b) (l₁ ++ held k :: free (n - k - 12) :: l₂) := by
  intro h₁
  have hf₁ : h₁.Formed (l₁ ++ held n :: l₂) := hh.toFormed.of_bytes rfl rfl rfl
  have hf : (h₁.split a b).Formed (l₁ ++ held k :: free (n - k - 12) :: l₂) :=
    hf₁.split ha hb hk hdvd
  have hspares : h.Spares (h₁.split a b) (l₁ ++ held k :: free (n - k - 12) :: l₂) := by
    have hsplit := hf₁.split_spares ha hb hk
    exact ⟨hsplit.heapPtr, hsplit.memSizeAligned, hsplit.bytes⟩
  have hstats := hh.toKept.stats_lt
  have hmax := hh.maxMem
  rw [hh.usedMem] at hmax
  have hused : sub32 h.usedMem (sub32 n k) =
      heldSpan 12 (l₁ ++ held k :: free (n - k - 12) :: l₂) := by
    simp only [heldSpan_append, heldSpan_held] at hstats
    have hold := hh.usedMem
    simp only [heldSpan_append, heldSpan_held] at hold
    rw [sub32_eq (by omega : k ≤ n) (by omega), sub32_eq (by omega) (by omega), hold]
    simp only [heldSpan_append, heldSpan_held, heldSpan_free]
    omega
  have hlist : l₁ ++ held k :: free (n - k - 12) :: l₂ =
      (l₁ ++ [held k]) ++ free (n - k - 12) :: l₂ := by simp
  have hkept : (h₁.split a b).Kept False ((l₁ ++ [held k]) ++ free (n - k - 12) :: l₂) :=
    { toFormed := hlist ▸ hf
      lfree := by
        have hlow : FreeAt 12 False _ h.lfree := hh.lfree.weaken False.elim
        have hne : h.lfree ≠ span 12 l₁ := by
          intro heq
          rw [heq] at hlow
          cases (hlow.free (by decide)).1
        have hspan : span 12 [held k, free (n - k - 12)] = 12 + (held n).size := by
          simp only [span_cons, span_nil]
          omega
        have hnew := hlow.replace hne hspan (by simp) False.elim
        rw [List.append_assoc] at hnew ⊢
        rw [Heap.split_lfree]
        exact hnew
      usedMem := by
        rw [← hlist, Heap.split_usedMem]
        exact hused
      maxMem := by
        rw [Heap.split_usedMem, Heap.split_maxMem]
        change sub32 h.usedMem (sub32 n k) ≤ h.maxMem
        rw [hused]
        simp only [heldSpan_append, heldSpan_held, heldSpan_free] at hmax ⊢
        omega }
  have hm := merged_append_cons.mp hh.merged
  have hm₁ : Merged (l₁ ++ [held k]) := hm.1.resize fun _ => rfl
  have hm₂ : Merged l₂ := (List.isChain_cons.mp hm.2).2
  have hb' : b = span 12 (l₁ ++ [held k]) := by
    rw [span_concat, hb, ha]
  obtain ⟨hholds, hrest⟩ := hkept.plugHoles hm₁ hm₂ hb'
  rw [hlist] at hspares ⊢
  exact ⟨hholds, hspares.trans hrest⟩

end Kernel
