-- SUMMARY: The kernel's heap: blocks with headers in one memory, allocated, resized and released by `rt_malloc`, `rt_realloc`, `rt_calloc` and `rt_free`.
import LidarCar.Base.Store

/-!
# The heap

The heap is one memory, cut into blocks that start with a `struct heap_mem`. The
headers link each block to the one after it and the one before it, so what the
functions follow is read back from the bytes they have written. Each function
holds the heap's semaphore over what it does to the headers; it is one step here.

Blocks are known by their offsets from `heap_ptr`, the memory of callers by its
addresses. Differences are computed modulo `2 ^ 32`. The loops are bounded by a
number of rounds, and end in `none` if they have not ended before.
-/

namespace Kernel

open Store (load store copy fill)

/-- Subtraction of `rt_size_t`. -/
def sub32 (a b : Nat) : Nat :=
  (a + 0x100000000 - b) % 0x100000000

/-- `RT_ALIGN(size, RT_ALIGN_SIZE)` -/
def rtAlign (size : Nat) : Nat :=
  (size + 3) % 0x100000000 / 4 * 4

/-- `RT_ALIGN_DOWN(size, RT_ALIGN_SIZE)` -/
def rtAlignDown (size : Nat) : Nat :=
  size / 4 * 4

def rtNull : Nat := 0

/-- `HEAP_MAGIC` -/
def heapMagic : Nat := 0x1ea0

/-- `MIN_SIZE`, which is aligned. -/
def minSize : Nat := 12

/-- `SIZEOF_STRUCT_MEM` -/
def sizeofHeapMem : Nat := 12

/-! ## Headers -/

/-- `struct heap_mem` -/
structure HeapMem where
  magic : Nat
  used : Nat
  next : Nat
  prev : Nat
  deriving DecidableEq, Repr

/-- The header in the bytes from `mem` on. -/
def header (m : Nat → UInt8) (mem : Nat) : HeapMem where
  magic := load m mem 2
  used := load m (mem + 2) 2
  next := load m (mem + 4) 4
  prev := load m (mem + 8) 4

def setMagic (m : Nat → UInt8) (mem v : Nat) : Nat → UInt8 := store m mem 2 v

def setUsed (m : Nat → UInt8) (mem v : Nat) : Nat → UInt8 := store m (mem + 2) 2 v

def setNext (m : Nat → UInt8) (mem v : Nat) : Nat → UInt8 := store m (mem + 4) 4 v

def setPrev (m : Nat → UInt8) (mem v : Nat) : Nat → UInt8 := store m (mem + 8) 4 v

/-! ## The functions -/

structure Heap where
  heapPtr : Nat
  memSizeAligned : Nat
  /-- The bytes from `heap_ptr` on. -/
  bytes : Nat → UInt8
  lfree : Nat
  usedMem : Nat
  maxMem : Nat

/-- `heap_end` -/
def Heap.heapEnd (h : Heap) : Nat := h.memSizeAligned + sizeofHeapMem

def Heap.header (h : Heap) (mem : Nat) : HeapMem := Kernel.header h.bytes mem

/-- More rounds than the heap has room for blocks. -/
def Heap.rounds (h : Heap) : Nat := h.memSizeAligned + 2

/-- `rt_system_heap_init`, over memory that holds `junk`; nothing if the addresses
leave no room. -/
def Heap.init (junk : Nat → UInt8) (beginAddr endAddr : Nat) : Option Heap :=
  let beginAlign := rtAlign beginAddr
  let endAlign := rtAlignDown endAddr
  if 2 * sizeofHeapMem < endAlign ∧ beginAlign ≤ endAlign - 2 * sizeofHeapMem then
    let memSizeAligned := endAlign - beginAlign - 2 * sizeofHeapMem
    let heapEnd := memSizeAligned + sizeofHeapMem
    let m := setMagic junk 0 heapMagic
    let m := setNext m 0 heapEnd
    let m := setPrev m 0 0
    let m := setUsed m 0 0
    let m := setMagic m heapEnd heapMagic
    let m := setUsed m heapEnd 1
    let m := setNext m heapEnd heapEnd
    let m := setPrev m heapEnd heapEnd
    some
      { heapPtr := beginAlign
        memSizeAligned := memSizeAligned
        bytes := m
        lfree := 0
        usedMem := 0
        maxMem := 0 }
  else none

/-- One half of `plug_holes`: block `b` becomes part of block `a` before it. -/
def Heap.join (h : Heap) (a b : Nat) : Heap :=
  let m := setNext h.bytes a (h.header b).next
  { h with
    lfree := if h.lfree = b then a else h.lfree
    bytes := setPrev m (Kernel.header m b).next a }

/-- "plug hole forward" -/
def Heap.plugForward (h : Heap) (mem : Nat) : Heap :=
  let nmem := (h.header mem).next
  if mem ≠ nmem ∧ (h.header nmem).used = 0 ∧ nmem ≠ h.heapEnd then h.join mem nmem else h

/-- "plug hole backward" -/
def Heap.plugBackward (h : Heap) (mem : Nat) : Heap :=
  let pmem := (h.header mem).prev
  if pmem ≠ mem ∧ (h.header pmem).used = 0 then h.join pmem mem else h

/-- `plug_holes` -/
def Heap.plugHoles (h : Heap) (mem : Nat) : Heap :=
  (h.plugForward mem).plugBackward mem

/-- `mem2` is set up at `ptr2`, between the block at `ptr` and the one after it. -/
def newBlock (m : Nat → UInt8) (ptr2 ptr : Nat) : Nat → UInt8 :=
  let m := setMagic m ptr2 heapMagic
  let m := setUsed m ptr2 0
  let m := setNext m ptr2 (Kernel.header m ptr).next
  setPrev m ptr2 ptr

/-- The block at `ptr` ends at `ptr2` from now on. In `rt_malloc`, `mem->used = 1`
stands before the last of these writes. -/
def Heap.split (h : Heap) (ptr ptr2 : Nat) : Heap :=
  let m := setNext (newBlock h.bytes ptr2 ptr) ptr ptr2
  let next := (Kernel.header m ptr2).next
  { h with bytes := if next ≠ h.memSizeAligned + sizeofHeapMem then setPrev m next ptr2 else m }

/-- `used_mem += n`, and `max_mem` follows. -/
def Heap.count (h : Heap) (n : Nat) : Heap :=
  let usedMem := (h.usedMem + n) % 0x100000000
  { h with usedMem := usedMem, maxMem := if h.maxMem < usedMem then usedMem else h.maxMem }

/-- The loop `while (lfree->used && lfree != heap_end)`. -/
def Heap.nextFree (h : Heap) : Nat → Nat → Option Nat
  | 0, _ => none
  | rounds + 1, lfree =>
      if (h.header lfree).used ≠ 0 ∧ lfree ≠ h.heapEnd then
        h.nextFree rounds (h.header lfree).next
      else some lfree

/-- What `rt_malloc` does to the block at `ptr`, which fits. -/
def Heap.occupy (h : Heap) (ptr size : Nat) : Heap :=
  let h :=
    if size + sizeofHeapMem + minSize ≤ sub32 (h.header ptr).next (ptr + sizeofHeapMem) then
      let h := h.split ptr (ptr + sizeofHeapMem + size)
      { h with bytes := setUsed h.bytes ptr 1 }.count (size + sizeofHeapMem)
    else
      { h with bytes := setUsed h.bytes ptr 1 }.count (sub32 (h.header ptr).next ptr)
  { h with bytes := setMagic h.bytes ptr heapMagic }

/-- `rt_malloc` from a block that fits to the return. -/
def Heap.claim (h : Heap) (ptr size : Nat) : Option Heap :=
  let h := h.occupy ptr size
  if ptr = h.lfree then
    (h.nextFree h.rounds h.lfree).map fun lfree => { h with lfree := lfree }
  else some h

/-- The loop of `rt_malloc` over the blocks, up to one that fits. -/
def Heap.seek (h : Heap) (size : Nat) : Nat → Nat → Option (Option Nat)
  | 0, _ => none
  | rounds + 1, ptr =>
      if ptr < sub32 h.memSizeAligned size then
        if (h.header ptr).used = 0 ∧
            size ≤ sub32 (h.header ptr).next (ptr + sizeofHeapMem) then
          some (some ptr)
        else h.seek size rounds (h.header ptr).next
      else some none

def Heap.rtMalloc (h : Heap) (size : Nat) : Option (Heap × Nat) :=
  if size = 0 then some (h, rtNull)
  else
    let size := rtAlign size
    if h.memSizeAligned < size then some (h, rtNull)
    else
      let size := if size < minSize then minSize else size
      match h.seek size h.rounds h.lfree with
      | none => none
      | some none => some (h, rtNull)
      | some (some ptr) =>
          (h.claim ptr size).map fun h => (h, h.heapPtr + ptr + sizeofHeapMem)

/-- `rt_free` of a block. -/
def Heap.release (h : Heap) (mem : Nat) : Heap :=
  let m := setUsed h.bytes mem 0
  let m := setMagic m mem heapMagic
  let h :=
    { h with
      bytes := m
      lfree := if mem < h.lfree then mem else h.lfree
      usedMem := sub32 h.usedMem (sub32 (Kernel.header m mem).next mem) }
  h.plugHoles mem

/-- The address is not one of the heap. -/
def Heap.Illegal (h : Heap) (rmem : Nat) : Prop :=
  rmem < h.heapPtr ∨ h.heapPtr + h.heapEnd ≤ rmem

instance Heap.decidableIllegal (h : Heap) (rmem : Nat) : Decidable (h.Illegal rmem) :=
  inferInstanceAs (Decidable (_ ∨ _))

def Heap.rtFree (h : Heap) (rmem : Nat) : Heap :=
  if rmem = rtNull then h
  else if h.Illegal rmem then h
  else h.release (sub32 rmem (h.heapPtr + sizeofHeapMem))

def Heap.rtRealloc (h : Heap) (rmem newsize : Nat) : Option (Heap × Nat) :=
  let newsize := rtAlign newsize
  if h.memSizeAligned < newsize then some (h, rtNull)
  else if newsize = 0 then some (h.rtFree rmem, rtNull)
  else if rmem = rtNull then h.rtMalloc newsize
  else if h.Illegal rmem then some (h, rmem)
  else
    let ptr := sub32 rmem (h.heapPtr + sizeofHeapMem)
    let size := sub32 (h.header ptr).next (ptr + sizeofHeapMem)
    if size = newsize then some (h, rmem)
    else if newsize + sizeofHeapMem + minSize < size then
      let ptr2 := ptr + sizeofHeapMem + newsize
      let h := { h with usedMem := sub32 h.usedMem (sub32 size newsize) }
      some ((h.split ptr ptr2).plugHoles ptr2, rmem)
    else
      -- another thread may hold the heap between the three calls
      (h.rtMalloc newsize).map fun (h, nmem) =>
        if nmem ≠ rtNull then
          let n := if size < newsize then size else newsize
          let h := { h with bytes := copy h.bytes (nmem - h.heapPtr) (rmem - h.heapPtr) n }
          (h.rtFree rmem, nmem)
        else (h, nmem)

def Heap.rtCalloc (h : Heap) (count size : Nat) : Option (Heap × Nat) :=
  let n := count * size % 0x100000000
  (h.rtMalloc n).map fun (h, p) =>
    if p ≠ rtNull then ({ h with bytes := fill h.bytes (p - h.heapPtr) 0 n }, p) else (h, p)

/-! ## Lemmas about headers -/

variable {m m' : Nat → UInt8} {p q v : Nat}

theorem sub32_eq {a b : Nat} (h : b ≤ a) (ha : a < 0x100000000) : sub32 a b = a - b := by
  rw [sub32]
  omega

theorem rtAlign_eq {size : Nat} (h : size ≤ 0xFFFFFFFC) : rtAlign size = (size + 3) / 4 * 4 := by
  rw [rtAlign]
  omega

theorem rtAlign_dvd (size : Nat) : 4 ∣ rtAlign size :=
  Nat.dvd_mul_left 4 _

/-- Only its own twelve bytes matter to a header. -/
theorem header_congr (h : ∀ x, p ≤ x → x < p + 12 → m' x = m x) : header m' p = header m p := by
  simp only [header, HeapMem.mk.injEq]
  refine ⟨?_, ?_, ?_, ?_⟩
  all_goals
    apply Store.load_congr
    intro x hx hlt
    exact h x (by omega) (by omega)

theorem header_setMagic : header (setMagic m p v) p = { header m p with magic := v % 0x10000 } := by
  simp only [header, setMagic, HeapMem.mk.injEq]
  refine ⟨Store.load_store, ?_, ?_, ?_⟩
  all_goals
    apply Store.load_store_of_disjoint
    omega

theorem header_setUsed : header (setUsed m p v) p = { header m p with used := v % 0x10000 } := by
  simp only [header, setUsed, HeapMem.mk.injEq]
  refine ⟨?_, Store.load_store, ?_, ?_⟩
  all_goals
    apply Store.load_store_of_disjoint
    omega

theorem header_setNext :
    header (setNext m p v) p = { header m p with next := v % 0x100000000 } := by
  simp only [header, setNext, HeapMem.mk.injEq]
  refine ⟨?_, ?_, Store.load_store, ?_⟩
  all_goals
    apply Store.load_store_of_disjoint
    omega

theorem header_setPrev :
    header (setPrev m p v) p = { header m p with prev := v % 0x100000000 } := by
  simp only [header, setPrev, HeapMem.mk.injEq]
  refine ⟨?_, ?_, ?_, Store.load_store⟩
  all_goals
    apply Store.load_store_of_disjoint
    omega

/-- Writes to a header change its twelve bytes only. -/
structure Frame (m m' : Nat → UInt8) (p : Nat) : Prop where
  same : ∀ x, ¬ (p ≤ x ∧ x < p + 12) → m' x = m x

theorem frame_setMagic : Frame m (setMagic m p v) p :=
  ⟨fun _ _ => Store.store_of_not (by omega)⟩

theorem frame_setUsed : Frame m (setUsed m p v) p :=
  ⟨fun _ _ => Store.store_of_not (by omega)⟩

theorem frame_setNext : Frame m (setNext m p v) p :=
  ⟨fun _ _ => Store.store_of_not (by omega)⟩

theorem frame_setPrev : Frame m (setPrev m p v) p :=
  ⟨fun _ _ => Store.store_of_not (by omega)⟩

theorem Frame.trans {m'' : Nat → UInt8} (h : Frame m m' p) (h' : Frame m' m'' p) : Frame m m'' p :=
  ⟨fun x hx => (h'.same x hx).trans (h.same x hx)⟩

theorem Frame.header (h : Frame m m' p) (hq : q + 12 ≤ p ∨ p + 12 ≤ q) :
    Kernel.header m' q = Kernel.header m q := by
  apply header_congr
  intro x hx hlt
  apply h.same
  omega

theorem frame_newBlock : Frame m (newBlock m p q) p :=
  ((frame_setMagic.trans frame_setUsed).trans frame_setNext).trans frame_setPrev

theorem header_newBlock (hp : p < 0x100000000) (hq : q + 12 ≤ p)
    (hnext : (header m q).next < 0x100000000) :
    header (newBlock m p q) p = ⟨heapMagic, 0, (header m q).next, q⟩ := by
  have hkept : header (setUsed (setMagic m p heapMagic) p 0) q = header m q :=
    (frame_setMagic.trans frame_setUsed).header (.inl hq)
  rw [newBlock, header_setPrev, header_setNext, header_setUsed, header_setMagic, hkept,
    Nat.mod_eq_of_lt hnext, Nat.mod_eq_of_lt (by omega : q < 0x100000000)]
  rfl

end Kernel
