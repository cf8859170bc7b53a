-- SUMMARY: Memory cut into segments with headers: held and free ones, the areas they hold, and merging free neighbours.
import Mathlib.Data.List.Chain
import Mathlib.Data.List.Pairwise

/-!
# Segments

A region of memory is cut into segments, one after the other, each a header of
`H` bytes and the bytes it is for. A segment is held or free. The areas are the
bytes of the held ones. Where no two neighbours are free, the segments are
merged; `coalesce` merges them all.
-/

namespace Segments

structure Segment where
  size : Nat
  used : Bool
  deriving DecidableEq, Repr

/-- A segment nobody holds. -/
abbrev free (n : Nat) : Segment := ⟨n, false⟩

abbrev held (n : Nat) : Segment := ⟨n, true⟩

/-- The bytes the segments take up. -/
def span (H : Nat) : List Segment → Nat
  | [] => 0
  | s :: l => H + s.size + span H l

/-- The bytes the held segments take up. -/
def heldSpan (H : Nat) : List Segment → Nat
  | [] => 0
  | s :: l => (if s.used then H + s.size else 0) + heldSpan H l

/-- The start and size of what each held segment is for, from `p` on. -/
def areas (H : Nat) : Nat → List Segment → List (Nat × Nat)
  | _, [] => []
  | p, s :: l =>
      if s.used then (p + H, s.size) :: areas H (p + H + s.size) l
      else areas H (p + H + s.size) l

/-- No two neighbours are free. -/
def Merged : List Segment → Prop :=
  List.IsChain fun s t => s.used = true ∨ t.used = true

/-- Put a segment before others, merged with the first if both are free. -/
def absorb (H : Nat) (s : Segment) : List Segment → List Segment
  | [] => [s]
  | t :: l => if s.used || t.used then s :: t :: l else free (s.size + H + t.size) :: l

/-- `q` is where a free segment starts, or the end. Where `tight` holds, no segment
before it is free. -/
def FreeAt (H : Nat) (tight : Prop) (l : List Segment) (q : Nat) : Prop :=
  ∃ l₁ l₂, l = l₁ ++ l₂ ∧ q = span H l₁ ∧ (∀ s ∈ l₂.head?, s.used = false) ∧
    (tight → ∀ s ∈ l₁, s.used = true) ∧ (l₂ = [] → ∃ s ∈ l₁, s.used = true)

/-- A free segment of `n` bytes is taken for `size` of them; the rest is split off if it
has room for a header and `least` bytes. -/
def carve (H least size n : Nat) : List Segment :=
  if size + H + least ≤ n then [held size, free (n - size - H)] else [held n]

/-- Merge all free neighbours. -/
def coalesce (H : Nat) (l : List Segment) : List Segment :=
  l.foldr (absorb H) []

variable {H p n k : Nat} {s : Segment} {l l₁ l₂ : List Segment}

/-! ## Sizes and positions -/

@[simp] theorem span_nil : span H [] = 0 := rfl

@[simp] theorem span_cons : span H (s :: l) = H + s.size + span H l := rfl

@[simp] theorem span_append : span H (l₁ ++ l₂) = span H l₁ + span H l₂ := by
  induction l₁ with
  | nil => simp
  | cons s l ih => simp only [List.cons_append, span_cons, ih, Nat.add_assoc]

theorem span_concat : span H (l ++ [s]) = span H l + H + s.size := by
  rw [span_append, span_cons, span_nil, Nat.add_zero, Nat.add_assoc]

@[simp] theorem heldSpan_nil : heldSpan H [] = 0 := rfl

@[simp] theorem heldSpan_held : heldSpan H (held n :: l) = H + n + heldSpan H l := rfl

@[simp] theorem heldSpan_free : heldSpan H (free n :: l) = heldSpan H l := Nat.zero_add _

@[simp] theorem heldSpan_append : heldSpan H (l₁ ++ l₂) = heldSpan H l₁ + heldSpan H l₂ := by
  induction l₁ with
  | nil => simp
  | cons s l ih => simp only [List.cons_append, heldSpan, ih, Nat.add_assoc]

theorem heldSpan_le : heldSpan H l ≤ span H l := by
  induction l with
  | nil => exact Nat.le_refl 0
  | cons s l ih =>
      rw [heldSpan, span_cons]
      split
      · omega
      · omega

theorem length_mul_le_span : l.length * H ≤ span H l := by
  induction l with
  | nil => exact Nat.le_of_eq (Nat.zero_mul H)
  | cons s l ih =>
      rw [List.length_cons, Nat.succ_mul, span_cons]
      omega

theorem span_dvd {d : Nat} (hH : d ∣ H) (h : ∀ s ∈ l, d ∣ s.size) : d ∣ span H l := by
  induction l with
  | nil => exact Nat.dvd_zero d
  | cons s l ih =>
      have hs : d ∣ s.size := h s List.mem_cons_self
      have hl : d ∣ span H l := ih fun t ht => h t (List.mem_cons_of_mem s ht)
      exact Nat.dvd_add (Nat.dvd_add hH hs) hl

@[simp] theorem span_carve {least size : Nat} : span H (carve H least size n) = H + n := by
  rw [carve]
  split
  · simp only [span_cons, span_nil]
    omega
  · rfl

/-! ## Where the search for a free segment starts -/

section FreeAt

variable {tight : Prop} {q : Nat} {new : List Segment}

theorem FreeAt.weaken {tight' : Prop} (h : FreeAt H tight l q) (ht : tight' → tight) :
    FreeAt H tight' l q := by
  obtain ⟨u, r, hl, hq, hhead, hused, hend⟩ := h
  exact ⟨u, r, hl, hq, hhead, fun htight => hused (ht htight), hend⟩

/-- A segment is replaced, away from `q`. -/
theorem FreeAt.replace (h : FreeAt H tight (l₁ ++ s :: l₂) q) (hq : q ≠ span H l₁)
    (hspan : span H new = H + s.size) (hsome : s.used = true → ∃ t ∈ new, t.used = true)
    (htight : tight → s.used = true → ∀ t ∈ new, t.used = true) :
    FreeAt H tight (l₁ ++ new ++ l₂) q := by
  obtain ⟨u, r, hl, rfl, hhead, hused, hend⟩ := h
  rcases List.append_eq_append_iff.mp hl with ⟨w, rfl, hw⟩ | ⟨w, rfl, rfl⟩
  · cases w with
    | nil => simp at hq
    | cons t w =>
        obtain ⟨rfl, rfl⟩ := List.cons.inj hw
        refine ⟨l₁ ++ new ++ w, r, by simp, ?_, hhead, ?_, ?_⟩
        · simp only [span_append, span_cons, hspan]
          omega
        · intro ht
          have hall := hused ht
          simp only [List.forall_mem_append, List.forall_mem_cons] at hall ⊢
          exact ⟨⟨hall.1, htight ht hall.2.1⟩, hall.2.2⟩
        · intro hr
          obtain ⟨t, hin, ht⟩ := hend hr
          simp only [List.mem_append, List.mem_cons] at hin
          rcases hin with hin | rfl | hin
          · exact ⟨t, by simp [hin], ht⟩
          · obtain ⟨t', hin', ht'⟩ := hsome ht
            exact ⟨t', by simp [hin'], ht'⟩
          · exact ⟨t, by simp [hin], ht⟩
  · cases w with
    | nil => simp at hq
    | cons t w => exact ⟨u, t :: w ++ new ++ l₂, by simp, rfl, hhead, hused, by simp⟩

/-- A segment that starts at `q` is free. -/
theorem FreeAt.free (h : FreeAt H tight (l₁ ++ s :: l₂) (span H l₁)) (hpos : 0 < H) :
    s.used = false ∧ (tight → ∀ s ∈ l₁, s.used = true) := by
  obtain ⟨u, r, hl, hq, hhead, hused, _⟩ := h
  rcases List.append_eq_append_iff.mp hl with ⟨w, rfl, hw⟩ | ⟨w, rfl, hw⟩
  · cases w with
    | nil =>
        rw [List.nil_append] at hw
        rw [List.append_nil] at hused
        exact ⟨hhead s (by simp [← hw]), hused⟩
    | cons t w =>
        simp only [span_append, span_cons] at hq
        omega
  · cases w with
    | nil =>
        rw [List.nil_append] at hw
        rw [List.append_nil]
        exact ⟨hhead s (by simp [hw]), hused⟩
    | cons t w =>
        simp only [span_append, span_cons] at hq
        omega

theorem FreeAt.le_of_tight (h : FreeAt H True (l₁ ++ Segments.free n :: l₂) q) :
    q ≤ span H l₁ := by
  obtain ⟨u, r, hl, rfl, _, hused, _⟩ := h
  rcases List.append_eq_append_iff.mp hl with ⟨w, rfl, hw⟩ | ⟨w, rfl, _⟩
  · cases w with
    | nil => simp
    | cons t w =>
        obtain ⟨rfl, rfl⟩ := List.cons.inj hw
        have hn := hused trivial (Segments.free n) (by simp)
        cases hn
  · rw [span_append]
    exact Nat.le_add_right _ _

/-- A held segment becomes free, and may be the first one. -/
theorem FreeAt.release (h : FreeAt H tight (l₁ ++ held n :: l₂) q) :
    FreeAt H tight (l₁ ++ Segments.free n :: l₂) (if span H l₁ < q then span H l₁ else q) := by
  obtain ⟨u, r, hl, rfl, hhead, hused, _⟩ := h
  rcases List.append_eq_append_iff.mp hl with ⟨w, rfl, hw⟩ | ⟨w, rfl, rfl⟩
  · split
    · refine ⟨l₁, _, rfl, rfl, by simp, ?_, by simp⟩
      intro ht s hs
      exact hused ht s (List.mem_append_left _ hs)
    · rename_i hlt
      cases w with
      | nil =>
          rw [List.nil_append] at hw
          have hfree := hhead (held n) (by simp [← hw])
          cases hfree
      | cons t w =>
          obtain ⟨rfl, rfl⟩ := List.cons.inj hw
          simp only [span_append, span_cons] at hlt
          refine ⟨l₁, _, rfl, ?_, by simp, ?_, by simp⟩
          · simp only [span_append, span_cons]
            omega
          · intro ht s hs
            exact hused ht s (List.mem_append_left _ hs)
  · rw [if_neg (by simp only [span_append]; omega)]
    refine ⟨u, w ++ Segments.free n :: l₂, by simp, rfl, ?_, hused, by simp⟩
    cases w with
    | nil => simp
    | cons t w => exact hhead

/-- Two free neighbours become one, which starts where the first did. -/
theorem FreeAt.join (h : FreeAt H tight (l₁ ++ Segments.free n :: Segments.free k :: l₂) q)
    (hpos : 0 < H) :
    FreeAt H tight (l₁ ++ Segments.free (n + H + k) :: l₂)
      (if q = span H l₁ + H + n then span H l₁ else q) := by
  obtain ⟨u, r, hl, rfl, hhead, hused, hend⟩ := h
  rcases List.append_eq_append_iff.mp hl with ⟨w, rfl, hw⟩ | ⟨w, rfl, rfl⟩
  · match w, hw with
    | [], hw =>
        rw [List.append_nil] at hused ⊢
        rw [if_neg (by omega)]
        exact ⟨l₁, _, rfl, rfl, by simp, hused, by simp⟩
    | [s], hw =>
        obtain ⟨rfl, rfl⟩ := List.cons.inj hw
        rw [if_pos (by simp only [span_append, span_cons, span_nil]; omega)]
        refine ⟨l₁, _, rfl, rfl, by simp, ?_, by simp⟩
        intro ht s hs
        exact hused ht s (List.mem_append_left _ hs)
    | s :: t :: w, hw =>
        obtain ⟨rfl, htail⟩ := List.cons.inj hw
        obtain ⟨rfl, rfl⟩ := List.cons.inj htail
        rw [if_neg (by simp only [span_append, span_cons]; omega)]
        refine ⟨l₁ ++ Segments.free (n + H + k) :: w, r, by simp, ?_, hhead, ?_, ?_⟩
        · simp only [span_append, span_cons]
          omega
        · intro ht
          have hn := hused ht (Segments.free n) (by simp)
          cases hn
        · intro hr
          obtain ⟨s, hs, hs'⟩ := hend hr
          simp only [List.mem_append, List.mem_cons] at hs
          rcases hs with hs | rfl | rfl | hs
          · exact ⟨s, by simp [hs], hs'⟩
          · cases hs'
          · cases hs'
          · exact ⟨s, by simp [hs], hs'⟩
  · rw [if_neg (by simp only [span_append]; omega)]
    refine ⟨u, w ++ Segments.free (n + H + k) :: l₂, by simp, rfl, ?_, hused, by simp⟩
    cases w with
    | nil => simp
    | cons s w => exact hhead

end FreeAt

/-! ## Areas -/

@[simp] theorem areas_nil : areas H p [] = [] := rfl

@[simp] theorem areas_held :
    areas H p (held n :: l) = (p + H, n) :: areas H (p + H + n) l := rfl

@[simp] theorem areas_free : areas H p (free n :: l) = areas H (p + H + n) l := rfl

theorem areas_append : areas H p (l₁ ++ l₂) = areas H p l₁ ++ areas H (p + span H l₁) l₂ := by
  induction l₁ generalizing p with
  | nil => simp
  | cons s l ih =>
      have hpos : p + H + s.size + span H l = p + span H (s :: l) := by
        rw [span_cons]
        omega
      rw [List.cons_append, areas, areas, ih, hpos]
      split
      · rw [List.cons_append]
      · rfl

/-- An area belongs to a held segment, found where the area says. -/
theorem mem_areas {a : Nat × Nat} :
    a ∈ areas H p l ↔
      ∃ l₁ l₂, l = l₁ ++ held a.2 :: l₂ ∧ a.1 = p + span H l₁ + H := by
  constructor
  · intro h
    induction l generalizing p with
    | nil => cases h
    | cons s l ih =>
        have hrest (h : a ∈ areas H (p + H + s.size) l) :
            ∃ l₁ l₂, s :: l = l₁ ++ held a.2 :: l₂ ∧ a.1 = p + span H l₁ + H := by
          obtain ⟨l₁, l₂, rfl, ha⟩ := ih h
          refine ⟨s :: l₁, l₂, rfl, ?_⟩
          rw [ha, span_cons]
          omega
        rw [areas] at h
        split at h
        · cases List.mem_cons.mp h with
          | inl ha =>
              obtain ⟨n, used⟩ := s
              obtain rfl : used = true := ‹_›
              subst ha
              exact ⟨[], l, rfl, by simp⟩
          | inr h => exact hrest h
        · exact hrest h
  · rintro ⟨l₁, l₂, rfl, ha⟩
    rw [areas_append, areas_held]
    apply List.mem_append_right
    rw [← ha]
    exact List.mem_cons_self

theorem areas_bounds {a : Nat × Nat} (h : a ∈ areas H p l) :
    p + H ≤ a.1 ∧ a.1 + a.2 ≤ p + span H l := by
  obtain ⟨l₁, l₂, rfl, ha⟩ := mem_areas.mp h
  simp only [ha, span_append, span_cons]
  omega

/-- Areas lie one after the other, with a header between them. -/
theorem areas_pairwise :
    (areas H p l).Pairwise fun a b => a.1 + a.2 + H ≤ b.1 := by
  induction l generalizing p with
  | nil => exact .nil
  | cons s l ih =>
      rw [areas]
      split
      · apply List.Pairwise.cons _ ih
        intro b hb
        exact (areas_bounds hb).1
      · exact ih

theorem areas_disjoint {a b : Nat × Nat} (ha : a ∈ areas H p l) (hb : b ∈ areas H p l)
    (hne : a ≠ b) : a.1 + a.2 + H ≤ b.1 ∨ b.1 + b.2 + H ≤ a.1 := by
  have horder := areas_pairwise (H := H) (p := p) (l := l)
  rw [List.pairwise_iff_getElem] at horder
  obtain ⟨i, hi, rfl⟩ := List.mem_iff_getElem.mp ha
  obtain ⟨j, hj, rfl⟩ := List.mem_iff_getElem.mp hb
  rcases Nat.lt_trichotomy i j with h | rfl | h
  · exact .inl (horder i j hi hj h)
  · exact absurd rfl hne
  · exact .inr (horder j i hj hi h)

/-- A held segment, and the areas of the others. -/
theorem mem_areas_held {a : Nat × Nat} :
    a ∈ areas H p (l₁ ++ held n :: l₂) ↔
      a = (p + span H l₁ + H, n) ∨ a ∈ areas H p (l₁ ++ free n :: l₂) := by
  simp only [areas_append, areas_held, areas_free, List.mem_append, List.mem_cons]
  tauto

theorem mem_areas_carve {least size : Nat} {a : Nat × Nat} :
    a ∈ areas H p (l₁ ++ carve H least size n ++ l₂) ↔
      a = (p + span H l₁ + H, if size + H + least ≤ n then size else n) ∨
        a ∈ areas H p (l₁ ++ free n :: l₂) := by
  rw [carve, List.append_assoc]
  split
  · have hpos : p + span H l₁ + H + size + H + (n - size - H) = p + span H l₁ + H + n := by omega
    simp only [areas_append, List.cons_append, List.nil_append, areas_held, areas_free, hpos,
      List.mem_append, List.mem_cons]
    tauto
  · exact mem_areas_held

/-- No area starts in a free segment. -/
theorem ne_of_mem_areas (hpos : 0 < H) {a : Nat × Nat}
    (h : a ∈ areas H p (l₁ ++ free n :: l₂)) : a.1 ≠ p + span H l₁ + H := by
  rw [areas_append, areas_free, List.mem_append] at h
  cases h with
  | inl h =>
      have := areas_bounds h
      omega
  | inr h =>
      have := areas_bounds h
      omega

/-- `x` is a byte of an area. -/
def InArea (H p : Nat) (l : List Segment) (x : Nat) : Prop :=
  ∃ a ∈ areas H p l, a.1 ≤ x ∧ x < a.1 + a.2

theorem inArea_append {x : Nat} :
    InArea H p (l₁ ++ l₂) x ↔ InArea H p l₁ x ∨ InArea H (p + span H l₁) l₂ x := by
  simp only [InArea, areas_append, List.mem_append, or_and_right, exists_or]

@[simp] theorem inArea_held {x : Nat} :
    InArea H p (held n :: l) x ↔
      (p + H ≤ x ∧ x < p + H + n) ∨ InArea H (p + H + n) l x := by
  simp only [InArea, areas_held, List.mem_cons, exists_eq_or_imp]

@[simp] theorem inArea_free {x : Nat} :
    InArea H p (free n :: l) x ↔ InArea H (p + H + n) l x := Iff.rfl

theorem InArea.bounds {x : Nat} (h : InArea H p l x) : p + H ≤ x ∧ x < p + span H l := by
  obtain ⟨a, ha, hle, hlt⟩ := h
  have := areas_bounds ha
  omega

/-! ## Merging -/

theorem merged_append_cons :
    Merged (l₁ ++ s :: l₂) ↔ Merged (l₁ ++ [s]) ∧ Merged (s :: l₂) :=
  List.isChain_split

/-- Which neighbours are free does not depend on the sizes. -/
theorem Merged.resize {t : Segment} (h : Merged (l₁ ++ [s])) (ht : s.used = true → t.used = true) :
    Merged (l₁ ++ [t]) := by
  induction l₁ with
  | nil => exact List.isChain_singleton t
  | cons u l ih =>
      cases l with
      | nil =>
          rw [Merged, List.singleton_append, List.isChain_pair] at h ⊢
          exact h.imp_right ht
      | cons w l =>
          rw [Merged, List.cons_append, List.cons_append, List.isChain_cons_cons] at h ⊢
          exact ⟨h.1, ih h.2⟩

theorem Merged.resize_free (h : Merged (free n :: l)) : Merged (free k :: l) := by
  cases l with
  | nil => exact List.isChain_singleton _
  | cons t l =>
      rw [Merged, List.isChain_cons_cons] at h ⊢
      exact h

/-- Anything may stand next to a held segment. -/
theorem Merged.cons_held (h : Merged l) : Merged (held n :: l) := by
  cases l with
  | nil => exact List.isChain_singleton _
  | cons t l => exact List.isChain_cons_cons.mpr ⟨.inl rfl, h⟩

theorem Merged.free_cons_held (h : Merged (held k :: l)) : Merged (free n :: held k :: l) :=
  List.isChain_cons_cons.mpr ⟨.inr rfl, h⟩

theorem Merged.carve {least size : Nat} (h : Merged (l₁ ++ free n :: l₂)) :
    Merged (l₁ ++ Segments.carve H least size n ++ l₂) := by
  rw [merged_append_cons] at h
  have h₁ (k : Nat) : Merged (l₁ ++ [held k]) := h.1.resize fun _ => rfl
  have h₂ : Merged l₂ := (List.isChain_cons.mp h.2).2
  rw [Segments.carve, List.append_assoc]
  split
  · exact merged_append_cons.mpr ⟨h₁ size, h.2.resize_free.cons_held⟩
  · exact merged_append_cons.mpr ⟨h₁ n, h₂.cons_held⟩

@[simp] theorem coalesce_cons : coalesce H (s :: l) = absorb H s (coalesce H l) := rfl

/-- Merged segments stay as they are. -/
theorem coalesce_of_merged (h : Merged l) : coalesce H l = l := by
  induction l with
  | nil => rfl
  | cons s l ih =>
      cases l with
      | nil => rfl
      | cons t l =>
          rw [Merged, List.isChain_cons_cons] at h
          rw [coalesce_cons, ih h.2, absorb, if_pos (by simpa using h.1)]

/-- One merge of two free neighbours does not change the outcome. -/
theorem coalesce_join :
    coalesce H (l₁ ++ free n :: free k :: l₂) = coalesce H (l₁ ++ free (n + H + k) :: l₂) := by
  induction l₁ with
  | nil =>
      simp only [List.nil_append, coalesce_cons]
      cases coalesce H l₂ with
      | nil => rfl
      | cons t l =>
          cases ht : t.used with
          | true => simp [absorb, ht]
          | false => simp [absorb, ht, Nat.add_assoc]
  | cons s l ih => rw [List.cons_append, List.cons_append, coalesce_cons, coalesce_cons, ih]

/-- Merging free segments moves no area. -/
theorem areas_absorb : areas H p (absorb H s l) = areas H p (s :: l) := by
  cases l with
  | nil => rfl
  | cons t l =>
      rw [absorb]
      split
      · rfl
      · rename_i hused
        obtain ⟨n, used⟩ := s
        obtain ⟨k, used'⟩ := t
        simp only [Bool.or_eq_true, not_or, Bool.not_eq_true] at hused
        obtain ⟨rfl, rfl⟩ := hused
        simp only [areas_free]
        congr 1
        omega

@[simp] theorem areas_coalesce : areas H p (coalesce H l) = areas H p l := by
  induction l generalizing p with
  | nil => rfl
  | cons s l ih => rw [coalesce_cons, areas_absorb, areas, areas, ih]

/-- Merged segments that nobody holds are one. -/
theorem Merged.eq_single (h : Merged l) (hne : l ≠ []) (hfree : areas H p l = []) :
    ∃ n, l = [free n] := by
  have hnone : ∀ s ∈ l, s.used = false := by
    intro s hs
    obtain ⟨l₁, l₂, rfl⟩ := List.append_of_mem hs
    obtain ⟨n, used⟩ := s
    cases used with
    | false => rfl
    | true =>
        have hin : (p + span H l₁ + H, n) ∈ areas H p (l₁ ++ held n :: l₂) :=
          mem_areas.mpr ⟨l₁, l₂, rfl, rfl⟩
        rw [hfree] at hin
        cases hin
  match l, hne with
  | [s], _ =>
      obtain ⟨n, used⟩ := s
      obtain rfl : used = false := hnone _ List.mem_cons_self
      exact ⟨n, rfl⟩
  | s :: t :: l, _ =>
      have hs := hnone s List.mem_cons_self
      have ht := hnone t (List.mem_cons_of_mem s List.mem_cons_self)
      rw [Merged, List.isChain_cons_cons, hs, ht] at h
      simp at h

end Segments
