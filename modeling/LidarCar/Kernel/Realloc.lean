-- SUMMARY: `rt_realloc` keeps the contents of the block it resizes, and the other blocks.
import LidarCar.Kernel.Allocator

/-!
# Resizing blocks

`rt_realloc` leaves a block where it is, cuts its end off, or moves its contents to
another block. The other blocks are not touched.
-/

namespace Kernel

open Segments

variable {a i k n size rmem newsize : Nat} {e f : Nat × Nat} {l l' l₁ l₂ : List Segment}
variable {h h' h₁ : Heap} {tight : Prop} {s t : Allocator}

/-! ## The branches -/

theorem Heap.rtRealloc_large (hlarge : h.memSizeAligned < rtAlign newsize) :
    h.rtRealloc rmem newsize = some (h, rtNull) :=
  if_pos hlarge

theorem Heap.rtRealloc_zero (hzero : rtAlign newsize = 0) :
    h.rtRealloc rmem newsize = some (h.rtFree rmem, rtNull) := by
  rw [Heap.rtRealloc]
  dsimp only
  rw [if_neg (by omega), if_pos hzero]

section Branches

variable (hle : rtAlign newsize ≤ h.memSizeAligned) (hzero : rtAlign newsize ≠ 0)

include hle hzero

theorem Heap.rtRealloc_null :
    h.rtRealloc rtNull newsize = h.rtMalloc (rtAlign newsize) := by
  rw [Heap.rtRealloc]
  dsimp only
  rw [if_neg (Nat.not_lt_of_le hle), if_neg hzero, if_pos rfl]

variable (hnull : rmem ≠ rtNull) (hlegal : ¬ h.Illegal rmem)
variable (hptr : sub32 rmem (h.heapPtr + sizeofHeapMem) = a)
variable (hroom : sub32 (h.header a).next (a + sizeofHeapMem) = k)

include hnull hlegal hptr hroom

theorem Heap.rtRealloc_same (hk : k = rtAlign newsize) :
    h.rtRealloc rmem newsize = some (h, rmem) := by
  rw [Heap.rtRealloc]
  dsimp only
  rw [if_neg (Nat.not_lt_of_le hle), if_neg hzero, if_neg hnull, if_neg hlegal, hptr, hroom,
    if_pos hk]

theorem Heap.rtRealloc_shrink (hk : rtAlign newsize + sizeofHeapMem + minSize < k) :
    h.rtRealloc rmem newsize =
      some (((Heap.split { h with usedMem := sub32 h.usedMem (sub32 k (rtAlign newsize)) } a
        (a + sizeofHeapMem + rtAlign newsize)).plugHoles (a + sizeofHeapMem + rtAlign newsize)),
        rmem) := by
  rw [Heap.rtRealloc]
  dsimp only
  rw [if_neg (Nat.not_lt_of_le hle), if_neg hzero, if_neg hnull, if_neg hlegal, hptr, hroom,
    if_neg (by omega), if_pos hk]

/-- What `rt_realloc` does with the block that `rt_malloc` has returned. -/
theorem Heap.rtRealloc_move (hk : k ≠ rtAlign newsize)
    (hk' : ¬ rtAlign newsize + sizeofHeapMem + minSize < k) {p : Nat}
    (hmalloc : h.rtMalloc (rtAlign newsize) = some (h', p)) :
    h.rtRealloc rmem newsize =
      if p ≠ rtNull then
        some (Heap.rtFree { h' with
          bytes := Store.copy h'.bytes (p - h'.heapPtr) (rmem - h'.heapPtr)
            (if k < rtAlign newsize then k else rtAlign newsize) } rmem, p)
      else some (h', rtNull) := by
  rw [Heap.rtRealloc]
  dsimp only
  rw [if_neg (Nat.not_lt_of_le hle), if_neg hzero, if_neg hnull, if_neg hlegal, hptr, hroom,
    if_neg hk, if_neg hk', hmalloc, Option.map_some]
  dsimp only
  split
  · rfl
  · rename_i hp
    rw [not_not.mp hp]

end Branches

/-! ## The blocks -/

theorem Allocator.Sound.weaken {tight' : Prop} (hs : s.Sound tight l) (ht : tight' → tight) :
    s.Sound tight' l :=
  ⟨⟨⟨hs.holds.toFormed, hs.holds.lfree.weaken ht, hs.holds.usedMem, hs.holds.maxMem⟩,
    hs.holds.merged⟩, hs.room, hs.covers⟩

theorem Allocator.Sound.loosen (hs : s.Sound tight l) : s.Sound False l :=
  hs.weaken False.elim

/-- The contents of the blocks besides the one at `rmem` are those they were. -/
def Allocator.Leaves (s : Allocator) (h' : Heap) (rmem : Nat) : Prop :=
  ∀ f ∈ s.live, f.1 ≠ rmem → ∀ i < f.2, h'.byte (f.1 + i) = s.heap.byte (f.1 + i)

/-- The area of a block. -/
theorem Allocator.Sound.area (hs : s.Sound tight l) (hf : f ∈ s.live) :
    ∃ x ∈ areas 12 0 l, f.1 = s.heap.heapPtr + x.1 ∧ f.2 ≤ x.2 :=
  (hs.covers.held f hf).2

theorem Allocator.Sound.leaves (hs : s.Sound tight l) (hspares : s.heap.Spares h' l')
    (hareas : ∀ x ∈ areas 12 0 l, s.heap.heapPtr + x.1 ≠ rmem → x ∈ areas 12 0 l') :
    s.Leaves h' rmem := by
  intro f hf hne i hi
  obtain ⟨x, hx, heq, hle⟩ := hs.area hf
  rw [heq] at hne ⊢
  exact hspares.byte (hareas x hx hne) (Nat.lt_of_lt_of_le hi hle)

/-- A block given to `rt_free` is gone, and the others are as they were. -/
theorem Allocator.Sound.released (hs : s.Sound tight l) (he : e ∈ s.live) :
    ∃ l', Allocator.Sound ⟨s.heap.rtFree e.1, without s.live e.1⟩ tight l' ∧
      s.Leaves (s.heap.rtFree e.1) e.1 := by
  obtain ⟨x, l', hs', hspares, hex, hareas⟩ := hs.release he
  refine ⟨l', hs', hs.leaves hspares ?_⟩
  intro y hy hne
  apply ((hareas y).mp hy).resolve_left
  intro heq
  rw [heq, ← hex] at hne
  exact hne rfl

/-- What `rt_realloc` returns, and what becomes of the block it was given. -/
structure Allocator.Resized (s : Allocator) (e : Nat × Nat) (newsize : Nat) (h' : Heap) (p : Nat) :
    Prop where
  leaves : s.Leaves h' e.1
  kept : p ≠ rtNull → ∀ i < e.2, i < newsize → h'.byte (p + i) = s.heap.byte (e.1 + i)
  failed : p = rtNull → rtAlign newsize ≠ 0 → h' = s.heap

/-- The blocks that are held after `rt_realloc` has returned `p`. -/
def resized (live : List (Nat × Nat)) (rmem newsize p : Nat) : List (Nat × Nat) :=
  if rtAlign newsize = 0 then without live rmem
  else if p = rtNull then live
  else (p, newsize) :: without live rmem

theorem Allocator.Sound.moved (hs : s.Sound tight l) (he : e ∈ s.live) (hpos : 0 < newsize)
    {c p : Nat} (hsize : newsize ≤ rtAlign newsize) (hbound : rtAlign newsize ≤ 0xFFFFFFFC)
    (hc : c ≤ rtAlign newsize) (hce : ∀ i < e.2, i < newsize → i < c)
    (hmalloc : s.heap.rtMalloc (rtAlign newsize) = some (h₁, p)) (hp : p ≠ rtNull) :
    let h₂ := { h₁ with bytes := Store.copy h₁.bytes (p - h₁.heapPtr) (e.1 - h₁.heapPtr) c }
    ∃ l', Allocator.Sound ⟨h₂.rtFree e.1, (p, newsize) :: without s.live e.1⟩ tight l' ∧
      s.Resized e newsize (h₂.rtFree e.1) p := by
  intro h₂
  rcases hs.malloc hbound hsize (fun _ => hpos) with
    hnull | ⟨h₁', q, k, l₁, hsome, _, hs₁, hspares, hk, hnew, hareas⟩
  · rw [hmalloc] at hnull
    obtain ⟨_, rfl⟩ := Prod.mk.inj (Option.some.inj hnull)
    exact absurd rfl hp
  · rw [hmalloc] at hsome
    obtain ⟨rfl, rfl⟩ := Prod.mk.inj (Option.some.inj hsome)
    let base := s.heap.heapPtr
    have hbase : h₁.heapPtr = base := hspares.heapPtr
    have hq : (q, k) ∈ areas 12 0 l₁ := (hareas (q, k)).mpr (.inl rfl)
    obtain ⟨x, hx, hex, hxe⟩ := hs.area he
    have hxq : x.1 ≠ q := hnew x hx
    have hne : base + q ≠ e.1 := by omega
    have hto : base + q - h₁.heapPtr = q := by omega
    have hfrom : e.1 - h₁.heapPtr = x.1 := by omega
    have hbytes : h₂.bytes = Store.copy h₁.bytes q x.1 c := by
      change Store.copy _ _ _ _ = _
      rw [hto, hfrom]
    have hs₂ : Allocator.Sound ⟨h₂, (base + q, newsize) :: s.live⟩ tight l₁ := by
      apply hs₁.write
      intro y hy
      rw [hto, hfrom]
      apply Store.copy_of_not
      intro hin
      exact hy ⟨(q, k), hq, hin.1, by omega⟩
    obtain ⟨x', l₃, hs₃, hspares₃, hex', hareas₃⟩ := hs₂.release (List.mem_cons_of_mem _ he)
    have hwithout : without ((base + q, newsize) :: s.live) e.1 =
        (base + q, newsize) :: without s.live e.1 := by
      rw [without, List.filter_cons_of_pos (by simpa using hne)]
      rfl
    rw [hwithout] at hs₃
    have hbase₂ : h₂.heapPtr = base := hbase
    have hin₃ (y : Nat × Nat) (hy : y ∈ areas 12 0 l₁) (hne : base + y.1 ≠ e.1) :
        y ∈ areas 12 0 l₃ := by
      apply ((hareas₃ y).mp hy).resolve_left
      intro heq
      rw [hbase₂] at hex'
      rw [heq, ← hex'] at hne
      exact hne rfl
    -- a byte of an area that stays, in the heap after `rt_free`
    have hlast {y : Nat × Nat} (hy : y ∈ areas 12 0 l₁) (hne : base + y.1 ≠ e.1) {i : Nat}
        (hi : i < y.2) : (h₂.rtFree e.1).byte (base + y.1 + i) = h₂.bytes (y.1 + i) := by
      have hbyte := hspares₃.byte (hin₃ y hy hne) hi
      have hpos : base + y.1 + i - base = y.1 + i := by omega
      rw [hbase₂] at hbyte
      rw [hbyte, Heap.byte, hbase₂, hpos]
    refine ⟨l₃, hs₃, ?_, ?_, fun hzero => absurd hzero hp⟩
    · intro f hf hfe i hi
      obtain ⟨y, hy, hfy, hle⟩ := hs.area hf
      have hyq : y.1 ≠ q := hnew y hy
      have hy₁ : y ∈ areas 12 0 l₁ := (hareas y).mpr (.inr hy)
      have hapart := areas_disjoint hy₁ hq fun heq => hyq (congrArg Prod.fst heq)
      rw [hfy] at hfe ⊢
      rw [hlast hy₁ hfe (Nat.lt_of_lt_of_le hi hle), hbytes, Store.copy_of_not (by omega)]
      have hpos : base + y.1 + i - base = y.1 + i := by omega
      rw [Heap.byte, hpos]
      exact hspares.bytes _ ⟨y, hy, by omega, by omega⟩
    · intro _ i hi hin
      have hic := hce i hi hin
      have hpos : base + x.1 + i - base = x.1 + i := by omega
      have hmove := hlast hq hne (by omega : i < k)
      rw [hbytes, Store.copy_add hic] at hmove
      rw [hmove, hex, Heap.byte, hpos]
      exact hspares.bytes _ ⟨x, hx, by omega, by omega⟩

/-- A call that leaves the heap as it is. -/
theorem Allocator.Resized.unchanged : s.Resized e newsize s.heap rtNull :=
  ⟨fun _ _ _ _ _ => rfl, fun hp => absurd rfl hp, fun _ _ => rfl⟩

theorem Allocator.Sound.cut (hs : s.Sound tight (l₁ ++ held k :: l₂))
    (hrmem : e.1 = s.heap.heapPtr + (span 12 l₁ + 12)) (hnull : e.1 ≠ rtNull)
    (hn : rtAlign newsize + 24 < k) (hsize : newsize ≤ rtAlign newsize) (hpos : 0 < newsize) :
    let h₁ := { s.heap with usedMem := sub32 s.heap.usedMem (sub32 k (rtAlign newsize)) }
    let b := span 12 l₁ + 12 + rtAlign newsize
    let h₂ := (h₁.split (span 12 l₁) b).plugHoles b
    ∃ l', Allocator.Sound ⟨h₂, (e.1, newsize) :: without s.live e.1⟩ False l' ∧
      s.Resized e newsize h₂ e.1 := by
  intro h₁ b h₂
  obtain ⟨l', hs', hspares, hin, hothers⟩ :=
    hs.shrink hn (rtAlign_dvd newsize) hsize hpos hrmem
  refine ⟨l', hs', ?_, ?_, fun hzero => absurd hzero hnull⟩
  · apply hs.leaves hspares
    intro x hx hne
    apply hothers x hx
    intro heq
    rw [heq, ← hrmem] at hne
    exact hne rfl
  · intro _ i _ hi
    rw [hrmem]
    exact hspares.byte hin (Nat.lt_of_lt_of_le hi hsize)

/-- A block is held for another size, which its area has room for. -/
theorem Allocator.Sound.relabel (hs : s.Sound tight (l₁ ++ held k :: l₂))
    (hrmem : rmem = s.heap.heapPtr + (span 12 l₁ + 12)) (hsize : newsize ≤ k) (hpos : 0 < newsize) :
    Allocator.Sound ⟨s.heap, (rmem, newsize) :: without s.live rmem⟩ tight (l₁ ++ held k :: l₂) := by
  refine ⟨hs.holds, hs.room, ?_⟩
  rw [hrmem]
  have hstart : ∀ x ∈ areas 12 0 (l₁ ++ free k :: l₂), x.1 ≠ span 12 l₁ + 12 :=
    fun x hx => ne_start hx
  exact (hs.covers.drop (fun _ => mem_held) hstart).add (fun _ => mem_held) hstart hpos hsize

/-- `rt_realloc` of a block. -/
theorem Allocator.Sound.realloc (hs : s.Sound tight l) (he : e ∈ s.live)
    (hsize : newsize ≤ 0xFFFFFFFC) :
    ∃ h' p l', s.heap.rtRealloc e.1 newsize = some (h', p) ∧
      Allocator.Sound ⟨h', resized s.live e.1 newsize p⟩ False l' ∧ s.Resized e newsize h' p := by
  have halign := rtAlign_eq hsize
  cases Nat.lt_or_ge s.heap.memSizeAligned (rtAlign newsize) with
  | inl hlarge =>
      have hresized : resized s.live e.1 newsize rtNull = s.live := by
        rw [resized, if_neg (by omega), if_pos rfl]
      refine ⟨s.heap, rtNull, l, Heap.rtRealloc_large hlarge, ?_, .unchanged⟩
      rw [hresized]
      exact hs.loosen
  | inr hle =>
      cases Decidable.em (rtAlign newsize = 0) with
      | inl hzero =>
          obtain ⟨l', hs', hleaves⟩ := hs.released he
          have hresized : resized s.live e.1 newsize rtNull = without s.live e.1 := if_pos hzero
          refine ⟨_, rtNull, l', Heap.rtRealloc_zero hzero, ?_, hleaves, fun hp => absurd rfl hp,
            fun _ hne => absurd hzero hne⟩
          rw [hresized]
          exact hs'.loosen
      | inr hzero =>
          have hn : newsize ≤ rtAlign newsize := by omega
          have hpos : 0 < newsize := by omega
          obtain ⟨l₁, k, l₂, rfl, heq, hek, _, hnull, hlegal, hptr⟩ := hs.segment he
          have hroom : sub32 (s.heap.header (span 12 l₁)).next (span 12 l₁ + sizeofHeapMem) = k :=
            hs.holds.toFormed.room rfl
          have hresized {p : Nat} (hp : p ≠ rtNull) :
              resized s.live e.1 newsize p = (p, newsize) :: without s.live e.1 := by
            rw [resized, if_neg hzero, if_neg hp]
          cases Decidable.em (k = rtAlign newsize) with
          | inl hsame =>
              refine ⟨s.heap, e.1, l₁ ++ held k :: l₂, ?_, ?_, fun _ _ _ _ _ => rfl,
                fun _ _ _ _ => rfl, fun hp => absurd hp hnull⟩
              · exact Heap.rtRealloc_same hle hzero hnull hlegal hptr hroom hsame
              · rw [hresized hnull]
                exact (hs.relabel heq (hn.trans_eq hsame.symm) hpos).loosen
          | inr hsame =>
              cases Decidable.em (rtAlign newsize + sizeofHeapMem + minSize < k) with
              | inl hcut =>
                  have hcut' : rtAlign newsize + 24 < k := hcut
                  obtain ⟨l', hs', hpost⟩ := hs.cut heq hnull hcut' hn hpos
                  refine ⟨_, e.1, l', ?_, ?_, hpost⟩
                  · exact Heap.rtRealloc_shrink hle hzero hnull hlegal hptr hroom hcut
                  · rw [hresized hnull]
                    exact hs'
              | inr hcut =>
                  have hbound : rtAlign newsize ≤ 0xFFFFFFFC := by omega
                  have hmove {h₁ : Heap} {p : Nat}
                      (hm : s.heap.rtMalloc (rtAlign newsize) = some (h₁, p)) :=
                    Heap.rtRealloc_move hle hzero hnull hlegal hptr hroom hsame hcut hm
                  rcases hs.malloc hbound hn (fun _ => hpos) with
                    hfail | ⟨h₁, q, _, _, hmalloc, hp, _⟩
                  · refine ⟨s.heap, rtNull, l₁ ++ held k :: l₂, hmove hfail, ?_, .unchanged⟩
                    rw [resized, if_neg hzero, if_pos rfl]
                    exact hs.loosen
                  · obtain ⟨l', hs', hpost⟩ := hs.moved he hpos hn hbound
                      (by split <;> omega : (if k < rtAlign newsize then k else rtAlign newsize) ≤ _)
                      (by intro i _ _; split <;> omega) hmalloc hp
                    refine ⟨_, _, l', ?_, ?_, hpost⟩
                    · exact (hmove hmalloc).trans (if_pos hp)
                    · rw [hresized hp]
                      exact hs'.loosen

end Kernel
