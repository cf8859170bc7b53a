-- SUMMARY: `rt_malloc` takes the first block from `lfree` on that fits, and when it finds none.
import LidarCar.Kernel.HeapSteps

/-!
# Allocation

`rt_malloc` looks through the blocks from `lfree` on and takes the first free one
that is large enough, if it starts more than the size before the end of the heap.
-/

namespace Kernel

open Segments

variable {a b n k size rounds : Nat} {s t : Segment} {l l' l₁ l₂ : List Segment}
variable {h h' : Heap} {tight : Prop}

/-! ## The loops -/

/-- The loop behind `lfree` ends at the next free block, or the end. -/
theorem Heap.Formed.nextFree (hf : h.Formed (l₁ ++ l₂)) (hr : l₂.length < rounds) :
    ∃ w r, l₂ = w ++ r ∧ h.nextFree rounds (span 12 l₁) = some (span 12 (l₁ ++ w)) ∧
      (∀ s ∈ w, s.used = true) ∧ ∀ s ∈ r.head?, s.used = false := by
  induction l₂ generalizing l₁ rounds with
  | nil =>
      cases rounds with
      | zero => omega
      | succ rounds =>
          have hend : span 12 l₁ = h.heapEnd := by
            rw [← hf.whole, List.append_nil]
          refine ⟨[], [], rfl, ?_, by simp, by simp⟩
          rw [Heap.nextFree, if_neg (by simp [hend]), List.append_nil]
  | cons s l ih =>
      cases rounds with
      | zero => omega
      | succ rounds =>
          rw [List.length_cons] at hr
          have hne : span 12 l₁ ≠ h.heapEnd := by
            rw [← hf.whole, span_append, span_cons]
            omega
          obtain ⟨n, used⟩ := s
          cases used with
          | false =>
              refine ⟨[], free n :: l, rfl, ?_, by simp, by simp⟩
              rw [Heap.nextFree, hf.header, if_neg (by simp), List.append_nil]
          | true =>
              have hlist : l₁ ++ held n :: l = (l₁ ++ [held n]) ++ l := by simp
              have hpos : span 12 l₁ + 12 + n = span 12 (l₁ ++ [held n]) := by
                rw [span_concat]
              rw [Heap.nextFree, hf.header, if_pos ⟨by simp, hne⟩]
              rw [hlist] at hf
              obtain ⟨w, r, rfl, hnext, hused, hhead⟩ := ih hf (Nat.lt_of_succ_lt_succ hr)
              refine ⟨held n :: w, r, rfl, ?_, by simpa using hused, hhead⟩
              simp only [hpos]
              rw [hnext, List.append_assoc]
              rfl

/-- The rounds are enough for all blocks. -/
theorem Heap.Formed.length_lt (hf : h.Formed (l₁ ++ l₂)) : l₂.length < h.rounds := by
  have hlength : (l₁ ++ l₂).length * 12 ≤ span 12 (l₁ ++ l₂) := length_mul_le_span
  rw [hf.whole, List.length_append, Heap.heapEnd, sizeofHeapMem] at hlength
  rw [Heap.rounds]
  omega

/-- The user data of a block. -/
theorem Heap.Formed.room (hf : h.Formed (l₁ ++ s :: l₂)) (ha : a = span 12 l₁) :
    sub32 (h.header a).next (a + 12) = s.size := by
  have hle := hf.span_le
  simp only [span_append, span_cons] at hle
  rw [hf.next_eq ha, sub32_eq (by omega) (by omega)]
  omega

section Seek

variable (hsize : size ≤ h.memSizeAligned)

include hsize

theorem Heap.Formed.limit (hf : h.Formed l) :
    sub32 h.memSizeAligned size = h.memSizeAligned - size := by
  have hbound := hf.bound
  rw [Heap.heapEnd, sizeofHeapMem] at hbound
  exact sub32_eq hsize (by omega)

theorem Heap.Formed.seek_end (hf : h.Formed l) (ha : h.memSizeAligned ≤ a + size) :
    h.seek size (rounds + 1) a = some none := by
  rw [Heap.seek, hf.limit hsize, if_neg (by omega)]

theorem Heap.Formed.seek_take (hf : h.Formed (l₁ ++ free n :: l₂)) (ha : a = span 12 l₁)
    (hstart : a + size < h.memSizeAligned) (hn : size ≤ n) :
    h.seek size (rounds + 1) a = some (some a) := by
  have hfree : (h.header a).used = 0 := by
    rw [ha, hf.header]
    rfl
  have hroom : size ≤ sub32 (h.header a).next (a + sizeofHeapMem) :=
    hn.trans_eq (hf.room ha).symm
  rw [Heap.seek, hf.limit hsize, if_pos (by omega), if_pos ⟨hfree, hroom⟩]

theorem Heap.Formed.seek_skip (hf : h.Formed (l₁ ++ s :: l₂)) (ha : a = span 12 l₁)
    (hstart : a + size < h.memSizeAligned) (hs : s.used = false → s.size < size) :
    h.seek size (rounds + 1) a = h.seek size rounds (span 12 (l₁ ++ [s])) := by
  have hpos : (h.header a).next = span 12 (l₁ ++ [s]) := by
    rw [hf.next_eq ha, span_concat, ha]
  have hfit : ¬ ((h.header a).used = 0 ∧ size ≤ sub32 (h.header a).next (a + sizeofHeapMem)) := by
    rintro ⟨hused, hroom⟩
    have hroom : size ≤ s.size := hroom.trans_eq (hf.room ha)
    rw [ha, hf.header] at hused
    cases hcase : s.used with
    | false =>
        have := hs hcase
        omega
    | true => simp [hcase] at hused
  rw [Heap.seek, hf.limit hsize, if_pos (by omega), if_neg hfit, hpos]

/-- The loop of `rt_malloc` ends at the first free block that fits, if it starts early
enough. -/
theorem Heap.Formed.seek (hf : h.Formed (l₁ ++ l₂)) (hr : l₂.length < rounds) :
    (∃ u n v, l₂ = u ++ free n :: v ∧ size ≤ n ∧ span 12 (l₁ ++ u) + size < h.memSizeAligned ∧
      h.seek size rounds (span 12 l₁) = some (some (span 12 (l₁ ++ u)))) ∨
    (h.seek size rounds (span 12 l₁) = some none ∧
      ∀ u n v, l₂ = u ++ free n :: v → size ≤ n → h.memSizeAligned ≤ span 12 (l₁ ++ u) + size) := by
  induction l₂ generalizing l₁ rounds with
  | nil =>
      cases rounds with
      | zero => omega
      | succ rounds =>
          have hwhole := hf.whole
          rw [List.append_nil, Heap.heapEnd, sizeofHeapMem] at hwhole
          exact .inr ⟨hf.seek_end hsize (by omega), by simp⟩
  | cons s l ih =>
      cases rounds with
      | zero => omega
      | succ rounds =>
          cases Nat.lt_or_ge (span 12 l₁ + size) h.memSizeAligned with
          | inr hlate =>
              -- all later blocks start later still
              refine .inr ⟨hf.seek_end hsize hlate, ?_⟩
              intro u n v _ _
              rw [span_append]
              omega
          | inl hearly =>
              obtain ⟨k, used⟩ := s
              cases Decidable.em (used = false ∧ size ≤ k) with
              | inl hfit =>
                  obtain ⟨rfl, hk⟩ := hfit
                  have htake : h.seek size (rounds + 1) (span 12 l₁) = some (some (span 12 l₁)) :=
                    hf.seek_take hsize rfl hearly hk
                  refine .inl ⟨[], k, l, rfl, hk, ?_, ?_⟩
                  · rwa [List.append_nil]
                  · rwa [List.append_nil]
              | inr hfit =>
                  have hskip : h.seek size (rounds + 1) (span 12 l₁) =
                      h.seek size rounds (span 12 (l₁ ++ [⟨k, used⟩])) := by
                    apply hf.seek_skip hsize rfl hearly
                    intro hused
                    exact Nat.lt_of_not_le fun hk => hfit ⟨hused, hk⟩
                  have hlist : l₁ ++ ⟨k, used⟩ :: l = (l₁ ++ [⟨k, used⟩]) ++ l := by simp
                  rw [hlist] at hf
                  rw [hskip]
                  rcases ih hf (Nat.lt_of_succ_lt_succ hr) with
                    ⟨u, n, v, rfl, hn, hstart, hseek⟩ | ⟨hseek, hnone⟩
                  · refine .inl ⟨⟨k, used⟩ :: u, n, v, rfl, hn, ?_, ?_⟩
                    · rwa [List.append_assoc] at hstart
                    · rwa [List.append_assoc] at hseek
                  · refine .inr ⟨hseek, ?_⟩
                    intro u n v hl hn
                    cases u with
                    | nil =>
                        obtain ⟨hseg, _⟩ := List.cons.inj hl
                        cases hseg
                        exact absurd ⟨rfl, hn⟩ hfit
                    | cons t u =>
                        obtain ⟨rfl, rfl⟩ := List.cons.inj hl
                        have hlater := hnone u n v rfl hn
                        rwa [List.append_assoc] at hlater

end Seek

/-! ## Taking a block -/

/-- `used_mem` counts a block. -/
theorem Heap.Formed.count (hf : h.Formed l) (hused : heldSpan 12 l = h.usedMem + n) :
    (h.count n).Formed l ∧ (h.count n).usedMem = heldSpan 12 l ∧
      (h.count n).usedMem ≤ (h.count n).maxMem := by
  have hspan := hf.span_le
  have hle : heldSpan 12 l ≤ span 12 l := heldSpan_le
  refine ⟨hf.of_bytes rfl rfl rfl, ?_, ?_⟩
  · rw [Heap.count, hused]
    exact Nat.mod_eq_of_lt (by omega)
  · simp only [Heap.count]
    split
    · exact Nat.le_refl _
    · omega

/-- A marked block is counted and stamped. -/
theorem Heap.Formed.occupied {h₁ : Heap} (hf : h₁.Formed (l₁ ++ held k :: l₂))
    (ha : a = span 12 l₁) (hspares : h.Spares h₁ l) (hl : l = l₁ ++ s :: l')
    (hlfree : h₁.lfree = h.lfree) (hused : heldSpan 12 (l₁ ++ held k :: l₂) = h₁.usedMem + n)
    (hh' : h' = { h₁.count n with bytes := setMagic h₁.bytes a heapMagic }) :
    h'.Formed (l₁ ++ held k :: l₂) ∧ h.Spares h' l ∧ h'.lfree = h.lfree ∧
      h'.usedMem = heldSpan 12 (l₁ ++ held k :: l₂) ∧ h'.usedMem ≤ h'.maxMem := by
  obtain ⟨hcount, husedMem, hmaxMem⟩ := hf.count hused
  subst hh'
  refine ⟨?_, ?_, hlfree, husedMem, hmaxMem⟩
  · have hstamp := hcount.stamp
    rwa [← ha] at hstamp
  · refine ⟨hspares.heapPtr, hspares.memSizeAligned, fun x hx => ?_⟩
    exact (frame_setMagic.same x (not_header hx hl ha)).trans (hspares.bytes x hx)

/-- A free block becomes a held one, split if it is large. -/
theorem Heap.Holds.occupy (hh : h.Holds tight (l₁ ++ free n :: l₂)) (ha : a = span 12 l₁)
    (hdvd : 4 ∣ size) :
    (h.occupy a size).Formed (l₁ ++ carve 12 12 size n ++ l₂) ∧
      h.Spares (h.occupy a size) (l₁ ++ free n :: l₂) ∧ (h.occupy a size).lfree = h.lfree ∧
      (h.occupy a size).usedMem = heldSpan 12 (l₁ ++ carve 12 12 size n ++ l₂) ∧
      (h.occupy a size).usedMem ≤ (h.occupy a size).maxMem := by
  have hf := hh.toFormed
  have hused := hh.usedMem
  have hroom := hf.room ha
  simp only [heldSpan_append, heldSpan_free] at hused
  rw [List.append_assoc]
  cases Decidable.em (size + 12 + 12 ≤ n) with
  | inl hsplit =>
      have hf₀ := hf.split ha (rfl : a + 12 + size = _) (by omega) hdvd
      have hspares₀ := hf.split_spares ha (rfl : a + 12 + size = _) (by omega)
      have hlfree : (h.split a (a + 12 + size)).lfree = h.lfree := Heap.split_lfree
      have husedMem : (h.split a (a + 12 + size)).usedMem = h.usedMem := Heap.split_usedMem
      -- nothing else matters about the heap after the split
      generalize hh₀ : h.split a (a + 12 + size) = h₀ at hf₀ hspares₀ hlfree husedMem
      let h₁ : Heap := { h₀ with bytes := setUsed h₀.bytes a 1 }
      have hcarve : carve 12 12 size n ++ l₂ = held size :: free (n - size - 12) :: l₂ := by
        rw [carve, if_pos hsplit]
        rfl
      have hf₁ : h₁.Formed (l₁ ++ held size :: free (n - size - 12) :: l₂) := by
        have hmark := hf₀.mark true
        rwa [← ha] at hmark
      have hspares : h.Spares h₁ (l₁ ++ free n :: l₂) := by
        refine ⟨hspares₀.heapPtr, hspares₀.memSizeAligned, fun x hx => ?_⟩
        have hx' : InArea 12 0 (l₁ ++ free size :: free (n - size - 12) :: l₂) x := by
          have hpos : span 12 l₁ + 12 + size + 12 + (n - size - 12) = span 12 l₁ + 12 + n := by
            omega
          simpa only [inArea_append, inArea_free, Nat.zero_add, hpos] using hx
        exact (frame_setUsed.same x (not_header hx rfl ha)).trans (hspares₀.bytes x hx')
      rw [hcarve]
      apply hf₁.occupied (n := size + 12) ha hspares rfl hlfree
      · change _ = h₀.usedMem + (size + 12)
        simp only [heldSpan_append, heldSpan_held, heldSpan_free]
        omega
      · simp only [Heap.occupy, sizeofHeapMem, minSize, hroom, if_pos hsplit, hh₀]
        rfl
  | inr hsplit =>
      let h₁ : Heap := { h with bytes := setUsed h.bytes a 1 }
      have hcarve : carve 12 12 size n ++ l₂ = held n :: l₂ := by
        rw [carve, if_neg hsplit]
        rfl
      have hf₁ : h₁.Formed (l₁ ++ held n :: l₂) := by
        have hmark := hf.mark true
        rwa [← ha] at hmark
      have hspares : h.Spares h₁ (l₁ ++ free n :: l₂) :=
        ⟨rfl, rfl, fun x hx => frame_setUsed.same x (not_header hx rfl ha)⟩
      have hall : sub32 (h.header a).next a = 12 + n := by
        have hle := hf.span_le
        simp only [span_append, span_cons, ← ha] at hle
        have hnext : (h.header a).next = a + 12 + n := hf.next_eq ha
        rw [hnext, sub32_eq (by omega) (by omega)]
        omega
      rw [hcarve]
      apply hf₁.occupied (n := 12 + n) ha hspares rfl rfl
      · change _ = h.usedMem + (12 + n)
        simp only [heldSpan_append, heldSpan_held]
        omega
      · simp only [Heap.occupy, sizeofHeapMem, minSize, hroom, if_neg hsplit, hall]
        rfl

/-- `lfree` is set. -/
theorem Heap.Formed.setLfree {q : Nat} (hf : h'.Formed l) (hlow : FreeAt 12 tight l q)
    (hused : h'.usedMem = heldSpan 12 l) (hmax : h'.usedMem ≤ h'.maxMem) (hmerged : Merged l)
    (hspares : h.Spares h' l') :
    Heap.Holds { h' with lfree := q } tight l ∧ h.Spares { h' with lfree := q } l' :=
  ⟨⟨⟨hf.of_bytes rfl rfl rfl, hlow, hused, hmax⟩, hmerged⟩,
    ⟨hspares.heapPtr, hspares.memSizeAligned, hspares.bytes⟩⟩

/-- `rt_malloc` takes a block that fits: it is held, and `lfree` follows. -/
theorem Heap.Holds.claim (hh : h.Holds tight (l₁ ++ free n :: l₂)) (ha : a = span 12 l₁)
    (hdvd : 4 ∣ size) :
    ∃ h', h.claim a size = some h' ∧ h'.Holds tight (l₁ ++ carve 12 12 size n ++ l₂) ∧
      h.Spares h' (l₁ ++ free n :: l₂) := by
  obtain ⟨hf, hspares, hlfree, hused, hmax⟩ := hh.occupy ha hdvd
  subst ha
  have hmerged : Merged (l₁ ++ carve 12 12 size n ++ l₂) := hh.merged.carve
  have hlow := hh.lfree
  have hheld : ∃ j v, carve 12 12 size n = held j :: v := by
    rw [carve]
    split
    · exact ⟨_, _, rfl⟩
    · exact ⟨_, _, rfl⟩
  simp only [Heap.claim]
  rw [hlfree]
  split
  · rename_i heq
    have hf' := hf
    rw [List.append_assoc] at hf'
    obtain ⟨w, r, hwr, hnext, hw, hhead⟩ := hf'.nextFree hf'.length_lt
    rw [← heq] at hlow ⊢
    rw [hnext]
    have hnew : FreeAt 12 tight (l₁ ++ carve 12 12 size n ++ l₂) (span 12 (l₁ ++ w)) := by
      have hlist : l₁ ++ carve 12 12 size n ++ l₂ = l₁ ++ w ++ r := by
        rw [List.append_assoc, hwr, List.append_assoc]
      refine ⟨l₁ ++ w, r, hlist, rfl, hhead, ?_, ?_⟩
      · intro ht
        exact List.forall_mem_append.mpr ⟨(hlow.free (by decide)).2 ht, hw⟩
      · rintro rfl
        obtain ⟨j, v, hj⟩ := hheld
        rw [List.append_nil] at hwr
        refine ⟨held j, ?_, rfl⟩
        rw [← hwr, hj]
        simp
    obtain ⟨hholds, hspares'⟩ := hf.setLfree hnew hused hmax hmerged hspares
    exact ⟨_, rfl, hholds, hspares'⟩
  · rename_i hne
    refine ⟨_, rfl, ⟨⟨hf, ?_, hused, hmax⟩, hmerged⟩, hspares⟩
    rw [hlfree]
    apply hlow.replace
    · exact fun heq => hne heq.symm
    · exact span_carve
    · intro hfree
      cases hfree
    · intro _ hfree
      cases hfree

/-! ## `rt_malloc` -/

/-- The size `rt_malloc` looks for. -/
def wanted (size : Nat) : Nat :=
  if rtAlign size < minSize then minSize else rtAlign size

theorem wanted_dvd (size : Nat) : 4 ∣ wanted size := by
  have hdvd := rtAlign_dvd size
  rw [wanted, minSize]
  split
  · decide
  · exact hdvd

theorem le_wanted (h : size ≤ 0xFFFFFFFC) : size ≤ wanted size := by
  rw [wanted, rtAlign_eq h, minSize]
  split
  · omega
  · omega

/-- A free block that fits, among the blocks `l`, and starts early enough. -/
def Fits (h : Heap) (l : List Segment) (size : Nat) (l₁ : List Segment) (n : Nat)
    (l₂ : List Segment) : Prop :=
  l = l₁ ++ free n :: l₂ ∧ wanted size ≤ n ∧ span 12 l₁ + wanted size < h.memSizeAligned

theorem Heap.rtMalloc_null (hzero : size = 0 ∨ h.memSizeAligned < rtAlign size) :
    h.rtMalloc size = some (h, rtNull) := by
  rw [Heap.rtMalloc]
  split
  · rfl
  · rename_i hne
    exact if_pos (hzero.resolve_left hne)

section Unfold

variable (hne : size ≠ 0) (hle : rtAlign size ≤ h.memSizeAligned)

include hne hle

theorem Heap.rtMalloc_of_none (hseek : h.seek (wanted size) h.rounds h.lfree = some none) :
    h.rtMalloc size = some (h, rtNull) := by
  rw [wanted] at hseek
  rw [Heap.rtMalloc, if_neg hne]
  dsimp only
  rw [if_neg (Nat.not_lt_of_le hle), hseek]

theorem Heap.rtMalloc_of_some (hseek : h.seek (wanted size) h.rounds h.lfree = some (some a))
    (hclaim : h.claim a (wanted size) = some h') :
    h.rtMalloc size = some (h', h'.heapPtr + a + 12) := by
  rw [wanted] at hseek hclaim
  rw [Heap.rtMalloc, if_neg hne]
  dsimp only
  rw [if_neg (Nat.not_lt_of_le hle), hseek]
  dsimp only
  rw [hclaim]
  rfl

end Unfold

/-- `rt_malloc` returns a block of at least the size it looks for, or `RT_NULL` where the
blocks from `lfree` on have none that fits. -/
theorem Heap.Holds.rtMalloc (hh : h.Holds tight l) (hroom : 12 ≤ h.memSizeAligned) (size : Nat) :
    (∃ h' l₁ n l₂, Fits h l size l₁ n l₂ ∧ size ≠ 0 ∧ rtAlign size ≤ h.memSizeAligned ∧
      h.rtMalloc size = some (h', h.heapPtr + span 12 l₁ + 12) ∧
      h'.Holds tight (l₁ ++ carve 12 12 (wanted size) n ++ l₂) ∧ h.Spares h' l) ∨
    (h.rtMalloc size = some (h, rtNull) ∧
      (size ≠ 0 → rtAlign size ≤ h.memSizeAligned →
        ∀ l₁ n l₂, Fits h l size l₁ n l₂ → span 12 l₁ < h.lfree)) := by
  cases Decidable.em (size = 0 ∨ h.memSizeAligned < rtAlign size) with
  | inl hzero =>
      refine .inr ⟨Heap.rtMalloc_null hzero, fun hne hle => ?_⟩
      exact absurd hle (Nat.not_le_of_lt (hzero.resolve_left hne))
  | inr hzero =>
      obtain ⟨hne, hlt⟩ := not_or.mp hzero
      have hle : rtAlign size ≤ h.memSizeAligned := Nat.le_of_not_lt hlt
      have hsize : wanted size ≤ h.memSizeAligned := by
        rw [wanted, minSize]
        split
        · exact hroom
        · exact hle
      obtain ⟨u, r, hl, hlow, _⟩ := hh.lfree
      subst hl
      rcases hh.toFormed.seek hsize hh.length_lt with
        ⟨v, n, w, hr, hn, hstart, hseek⟩ | ⟨hseek, hnone⟩
      · rw [← hlow] at hseek
        subst hr
        have hlist : u ++ (v ++ free n :: w) = (u ++ v) ++ free n :: w := by simp
        rw [hlist] at hh ⊢
        obtain ⟨h', hclaim, hholds, hspares⟩ := hh.claim rfl (wanted_dvd size)
        have hmalloc := Heap.rtMalloc_of_some hne hle hseek hclaim
        rw [hspares.heapPtr] at hmalloc
        exact .inl ⟨h', u ++ v, n, w, ⟨rfl, hn, hstart⟩, hne, hle, hmalloc, hholds, hspares⟩
      · rw [← hlow] at hseek
        refine .inr ⟨Heap.rtMalloc_of_none hne hle hseek, fun _ _ l₁ n l₂ hfits => ?_⟩
        obtain ⟨hlist, hn, hstart⟩ := hfits
        rw [hlow]
        rcases List.append_eq_append_iff.mp hlist with ⟨w, rfl, hr⟩ | ⟨w, rfl, hr⟩
        · -- a block behind `lfree` that fits would have been found
          have hlate := hnone w n l₂ hr hn
          omega
        · cases w with
          | nil =>
              have hlate := hnone [] n l₂ (by simpa using hr.symm) hn
              simp only [List.append_nil] at hlate
              omega
          | cons t w =>
              simp only [span_append, span_cons]
              omega

end Kernel
