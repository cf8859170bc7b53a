-- SUMMARY: The heap and the blocks its callers hold: what each call does to them.
import Mathlib.Logic.Function.Basic
import LidarCar.Kernel.Malloc

/-!
# The allocator

The callers of the heap hold blocks and write to them. Each block they hold is an
area of the heap of at least the size they asked for.
-/

namespace Kernel

open Segments

/-- The heap, and the address and the size asked for of each block that is held. -/
structure Allocator where
  heap : Heap
  live : List (Nat × Nat)

/-- The blocks besides the one at `rmem`. -/
def without (live : List (Nat × Nat)) (rmem : Nat) : List (Nat × Nat) :=
  live.filter fun e => e.1 ≠ rmem

/-- The byte at an address. -/
def Heap.byte (h : Heap) (a : Nat) : UInt8 := h.bytes (a - h.heapPtr)

/-- The blocks that are held are the areas, which are as large as asked. -/
structure Covers (base : Nat) (areas live : List (Nat × Nat)) : Prop where
  held : ∀ e ∈ live, 0 < e.2 ∧ ∃ x ∈ areas, e.1 = base + x.1 ∧ e.2 ≤ x.2
  known : ∀ x ∈ areas, ∃ e ∈ live, e.1 = base + x.1
  once : live.Pairwise fun e f => e.1 ≠ f.1

structure Allocator.Sound (s : Allocator) (tight : Prop) (l : List Segment) : Prop where
  holds : s.heap.Holds tight l
  room : 12 ≤ s.heap.memSizeAligned
  covers : Covers s.heap.heapPtr (areas 12 0 l) s.live

variable {base n q k size rmem newsize : Nat} {live A A' : List (Nat × Nat)} {a e : Nat × Nat}
variable {l l' l₁ l₂ : List Segment} {h h' : Heap} {tight : Prop} {s : Allocator}
variable {m m' : Nat → UInt8}

theorem mem_without : e ∈ without live rmem ↔ e ∈ live ∧ e.1 ≠ rmem := by
  simp [without]

/-! ## Blocks and areas -/

theorem mem_held {k : Nat} : a ∈ areas 12 0 (l₁ ++ held k :: l₂) ↔
    a = (span 12 l₁ + 12, k) ∨ a ∈ areas 12 0 (l₁ ++ free k :: l₂) := by
  have hmem : a ∈ areas 12 0 (l₁ ++ held k :: l₂) ↔
      a = (0 + span 12 l₁ + 12, k) ∨ a ∈ areas 12 0 (l₁ ++ free k :: l₂) := mem_areas_held
  rwa [Nat.zero_add] at hmem

theorem ne_start (h : a ∈ areas 12 0 (l₁ ++ free k :: l₂)) : a.1 ≠ span 12 l₁ + 12 := by
  have hne := ne_of_mem_areas (by decide) h
  rwa [Nat.zero_add] at hne

theorem Covers.add (hc : Covers base A live) (hA : ∀ x, x ∈ A' ↔ x = a ∨ x ∈ A)
    (hnew : ∀ x ∈ A, x.1 ≠ a.1) (hpos : 0 < n) (hn : n ≤ a.2) :
    Covers base A' ((base + a.1, n) :: live) where
  held e he := by
    cases List.mem_cons.mp he with
    | inl he =>
        subst he
        exact ⟨hpos, a, (hA a).mpr (.inl rfl), rfl, hn⟩
    | inr he =>
        obtain ⟨hpos, x, hx, heq, hle⟩ := hc.held e he
        exact ⟨hpos, x, (hA x).mpr (.inr hx), heq, hle⟩
  known x hx := by
    cases (hA x).mp hx with
    | inl hx =>
        subst hx
        exact ⟨_, List.mem_cons_self, rfl⟩
    | inr hx =>
        obtain ⟨e, he, heq⟩ := hc.known x hx
        exact ⟨e, List.mem_cons_of_mem _ he, heq⟩
  once := by
    apply List.Pairwise.cons _ hc.once
    intro e he heq
    obtain ⟨_, x, hx, hex, _⟩ := hc.held e he
    apply hnew x hx
    dsimp only at heq
    omega

theorem Covers.drop (hc : Covers base A live) (hA : ∀ x, x ∈ A ↔ x = a ∨ x ∈ A')
    (hnew : ∀ x ∈ A', x.1 ≠ a.1) : Covers base A' (without live (base + a.1)) where
  held e he := by
    rw [mem_without] at he
    obtain ⟨hpos, x, hx, heq, hle⟩ := hc.held e he.1
    cases (hA x).mp hx with
    | inl hxa =>
        rw [hxa] at heq
        exact absurd heq he.2
    | inr hx => exact ⟨hpos, x, hx, heq, hle⟩
  known x hx := by
    obtain ⟨e, he, heq⟩ := hc.known x ((hA x).mpr (.inr hx))
    refine ⟨e, mem_without.mpr ⟨he, ?_⟩, heq⟩
    have := hnew x hx
    omega
  once := hc.once.filter _

/-- Only writes to areas leave the layout as it is. -/
theorem Laid.write {prev : Nat} (h : Laid m prev (span 12 l₁) l₂)
    (hsame : ∀ x, ¬ InArea 12 0 (l₁ ++ l₂) x → m' x = m x) : Laid m' prev (span 12 l₁) l₂ := by
  induction l₂ generalizing l₁ prev with
  | nil => trivial
  | cons s l ih =>
      have hlist : l₁ ++ s :: l = (l₁ ++ [s]) ++ l := by simp
      have hpos : span 12 l₁ + 12 + s.size = span 12 (l₁ ++ [s]) := span_concat.symm
      have hhead : header m' (span 12 l₁) = header m (span 12 l₁) := by
        apply header_congr
        intro x hx hlt
        exact hsame x fun harea => not_header harea rfl rfl ⟨hx, hlt⟩
      obtain ⟨hs, hl⟩ := h
      refine ⟨hhead.trans hs, ?_⟩
      rw [hpos] at hl ⊢
      rw [hlist] at hsame
      exact ih hl hsame

theorem Heap.Holds.write (hh : h.Holds tight l)
    (hsame : ∀ x, ¬ InArea 12 0 l x → m x = h.bytes x) :
    Heap.Holds { h with bytes := m } tight l :=
  { laid := Laid.write (show Laid h.bytes 0 (span 12 []) l from hh.laid) hsame
    whole := hh.whole
    endUsed := by
      have hend := hh.endUsed
      have hkept : Kernel.header m h.heapEnd = Kernel.header h.bytes h.heapEnd := by
        apply header_congr
        intro x hx _
        apply hsame
        intro harea
        have hbounds := harea.bounds
        rw [hh.whole] at hbounds
        omega
      exact (congrArg HeapMem.used hkept).trans hend
    sizes := hh.sizes
    bound := hh.bound
    aligned := hh.aligned
    lfree := hh.lfree
    usedMem := hh.usedMem
    maxMem := hh.maxMem
    merged := hh.merged }

/-- A block that is held is a held segment. -/
theorem Allocator.Sound.segment (hs : s.Sound tight l) (he : e ∈ s.live) :
    ∃ l₁ m l₂, l = l₁ ++ held m :: l₂ ∧ e.1 = s.heap.heapPtr + (span 12 l₁ + 12) ∧ e.2 ≤ m ∧
      0 < e.2 ∧ e.1 ≠ rtNull ∧ ¬ s.heap.Illegal e.1 ∧
      sub32 e.1 (s.heap.heapPtr + sizeofHeapMem) = span 12 l₁ := by
  obtain ⟨hpos, x, hx, heq, hle⟩ := hs.covers.held e he
  obtain ⟨l₁, l₂, hl, hx₁⟩ := mem_areas.mp hx
  rw [Nat.zero_add] at hx₁
  have hwhole := hs.holds.whole
  have hbound := hs.holds.bound
  rw [hl] at hwhole
  simp only [span_append, span_cons] at hwhole
  rw [hx₁] at heq
  refine ⟨l₁, x.2, l₂, hl, heq, hle, hpos, ?_, ?_, ?_⟩
  · rw [rtNull]
    omega
  · rw [Heap.Illegal]
    omega
  · rw [sizeofHeapMem, sub32_eq (by omega) (by omega)]
    omega

/-- The bytes of a block in a heap that spares its area. -/
theorem Heap.Spares.byte (hspares : h.Spares h' l) {x : Nat × Nat} (hx : x ∈ areas 12 0 l)
    {i : Nat} (hi : i < x.2) :
    h'.byte (h.heapPtr + x.1 + i) = h.byte (h.heapPtr + x.1 + i) := by
  have hpos : h.heapPtr + x.1 + i - h.heapPtr = x.1 + i := by omega
  rw [Heap.byte, Heap.byte, hspares.heapPtr, hpos]
  exact hspares.bytes _ ⟨x, hx, by omega, by omega⟩

/-! ## The calls -/

/-- What `rt_malloc` hands out is a new area. -/
theorem Allocator.Sound.malloc (hs : s.Sound tight l) (hsize : size ≤ 0xFFFFFFFC) (hn : n ≤ size)
    (hpos : size ≠ 0 → 0 < n) :
    s.heap.rtMalloc size = some (s.heap, rtNull) ∨
      ∃ h' q k l', s.heap.rtMalloc size = some (h', s.heap.heapPtr + q) ∧
        s.heap.heapPtr + q ≠ rtNull ∧
        Allocator.Sound ⟨h', (s.heap.heapPtr + q, n) :: s.live⟩ tight l' ∧
        s.heap.Spares h' l ∧ size ≤ k ∧ (∀ x ∈ areas 12 0 l, x.1 ≠ q) ∧
        ∀ x, x ∈ areas 12 0 l' ↔ x = (q, k) ∨ x ∈ areas 12 0 l := by
  rcases hs.holds.rtMalloc hs.room size with
    ⟨h', l₁, j, l₂, ⟨hl, hj, _⟩, hne, _, hmalloc, hholds, hspares⟩ | ⟨hnull, _⟩
  · right
    subst hl
    have hwanted := le_wanted hsize
    let k := if wanted size + 12 + 12 ≤ j then wanted size else j
    have hk : size ≤ k := by
      change size ≤ if wanted size + 12 + 12 ≤ j then wanted size else j
      split
      · exact hwanted
      · exact hwanted.trans hj
    have hareas (x : Nat × Nat) : x ∈ areas 12 0 (l₁ ++ carve 12 12 (wanted size) j ++ l₂) ↔
        x = (span 12 l₁ + 12, k) ∨ x ∈ areas 12 0 (l₁ ++ free j :: l₂) := by
      have hmem : x ∈ areas 12 0 (l₁ ++ carve 12 12 (wanted size) j ++ l₂) ↔
          x = (0 + span 12 l₁ + 12, k) ∨ x ∈ areas 12 0 (l₁ ++ free j :: l₂) := mem_areas_carve
      rwa [Nat.zero_add] at hmem
    have hnew : ∀ x ∈ areas 12 0 (l₁ ++ free j :: l₂), x.1 ≠ span 12 l₁ + 12 :=
      fun x hx => ne_start hx
    refine ⟨h', span 12 l₁ + 12, k, _, hmalloc, ?_, ⟨hholds, ?_, ?_⟩, hspares, hk, hnew, hareas⟩
    · rw [rtNull]
      omega
    · exact hs.room.trans_eq hspares.memSizeAligned.symm
    · have hcovers := hs.covers.add hareas hnew (hpos hne) (hn.trans hk)
      rw [← hspares.heapPtr] at hcovers ⊢
      exact hcovers
  · exact .inl hnull

/-- `rt_free` gives an area back. -/
theorem Allocator.Sound.release (hs : s.Sound tight l) (he : e ∈ s.live) :
    ∃ x l', Allocator.Sound ⟨s.heap.rtFree e.1, without s.live e.1⟩ tight l' ∧
      s.heap.Spares (s.heap.rtFree e.1) l' ∧ e.1 = s.heap.heapPtr + x.1 ∧
      ∀ y, y ∈ areas 12 0 l ↔ y = x ∨ y ∈ areas 12 0 l' := by
  obtain ⟨l₁, m, l₂, rfl, heq, _, _, hnull, hlegal, hptr⟩ := hs.segment he
  have hfree : s.heap.rtFree e.1 = s.heap.release (span 12 l₁) := by
    rw [Heap.rtFree, if_neg hnull, if_neg hlegal, hptr]
  obtain ⟨hholds, hspares⟩ := hs.holds.release rfl
  have hsame (y : Nat × Nat) : y ∈ areas 12 0 (l₁ ++ held m :: l₂) ↔
      y = (span 12 l₁ + 12, m) ∨ y ∈ areas 12 0 (coalesce 12 (l₁ ++ free m :: l₂)) := by
    rw [areas_coalesce]
    exact mem_held
  have hnew : ∀ x ∈ areas 12 0 (coalesce 12 (l₁ ++ free m :: l₂)),
      x.1 ≠ span 12 l₁ + 12 := by
    intro x hx
    rw [areas_coalesce] at hx
    exact ne_start hx
  have hspares' : s.heap.Spares (s.heap.release (span 12 l₁))
      (coalesce 12 (l₁ ++ free m :: l₂)) := by
    apply hspares.mono
    intro x hx
    rwa [InArea, areas_coalesce] at hx
  rw [hfree]
  refine ⟨(span 12 l₁ + 12, m), _, ⟨hholds, ?_, ?_⟩, hspares', heq, hsame⟩
  · exact hs.room.trans_eq hspares.memSizeAligned.symm
  · have hcovers := hs.covers.drop hsame hnew
    rw [← heq, ← hspares.heapPtr] at hcovers
    exact hcovers

/-- Callers write to the areas. -/
theorem Allocator.Sound.write (hs : s.Sound tight l)
    (hsame : ∀ x, ¬ InArea 12 0 l x → m x = s.heap.bytes x) :
    Allocator.Sound ⟨{ s.heap with bytes := m }, s.live⟩ tight l :=
  ⟨hs.holds.write hsame, hs.room, hs.covers⟩

/-- A block that shrinks keeps its place. -/
theorem Allocator.Sound.shrink (hs : s.Sound tight (l₁ ++ held k :: l₂)) (hn : n + 24 < k)
    (hdvd : 4 ∣ n) (hsize : size ≤ n) (hpos : 0 < size)
    (hrmem : rmem = s.heap.heapPtr + (span 12 l₁ + 12)) :
    let h₁ := { s.heap with usedMem := sub32 s.heap.usedMem (sub32 k n) }
    let b := span 12 l₁ + 12 + n
    let h₂ := (h₁.split (span 12 l₁) b).plugHoles b
    ∃ l', Allocator.Sound ⟨h₂, (rmem, size) :: without s.live rmem⟩ False l' ∧
      s.heap.Spares h₂ l' ∧ (span 12 l₁ + 12, n) ∈ areas 12 0 l' ∧
      ∀ x ∈ areas 12 0 (l₁ ++ held k :: l₂), x.1 ≠ span 12 l₁ + 12 → x ∈ areas 12 0 l' := by
  intro h₁ b h₂
  obtain ⟨hholds, hspares⟩ := hs.holds.shrink rfl (rfl : b = span 12 l₁ + 12 + n) (by omega) hdvd
  have hbase : areas 12 0 (l₁ ++ free k :: l₂) =
      areas 12 0 (l₁ ++ free n :: free (k - n - 12) :: l₂) := by
    have hpos : span 12 l₁ + 12 + n + 12 + (k - n - 12) = span 12 l₁ + 12 + k := by omega
    simp only [areas_append, areas_free, Nat.zero_add, hpos]
  have hnew (y : Nat × Nat) :
      y ∈ areas 12 0 (coalesce 12 (l₁ ++ held n :: free (k - n - 12) :: l₂)) ↔
        y = (span 12 l₁ + 12, n) ∨ y ∈ areas 12 0 (l₁ ++ free k :: l₂) := by
    rw [areas_coalesce, hbase]
    exact mem_held
  have hstart : ∀ x ∈ areas 12 0 (l₁ ++ free k :: l₂), x.1 ≠ span 12 l₁ + 12 :=
    fun x hx => ne_start hx
  have hspares' : s.heap.Spares h₂ (coalesce 12 (l₁ ++ held n :: free (k - n - 12) :: l₂)) := by
    apply hspares.mono
    intro x hx
    rwa [InArea, areas_coalesce] at hx
  refine ⟨_, ⟨hholds, ?_, ?_⟩, hspares', (hnew _).mpr (.inl rfl), ?_⟩
  · exact hs.room.trans_eq hspares.memSizeAligned.symm
  · have hcovers := (hs.covers.drop (fun _ => mem_held) hstart).add hnew hstart hpos hsize
    rw [← hrmem, ← hspares.heapPtr] at hcovers
    exact hcovers
  · intro x hx hne
    cases mem_held.mp hx with
    | inl hx => exact absurd (congrArg Prod.fst hx) hne
    | inr hx => exact (hnew x).mpr (.inr hx)

end Kernel
