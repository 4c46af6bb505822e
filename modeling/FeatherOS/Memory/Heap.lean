import FeatherOS.Kmalloc
import FeatherOS.Library.ByteMemory
import FeatherOS.Library.Run

/-
  Blocks that the kernel heap has given.

  `kzalloc` and `krealloc` are calls of `kmalloc`. A size that
  is rounded to 0 modulo 2^64 is always granted, without any
  room; all other blocks lie apart in the heap.

  Key definitions include:
    * `kzalloc`
    * `krealloc`
    * `HeapGood`
    * `HeapCall.Ok`

  Key theorems include:
    * `heapStep_decided`
    * `heapRun_good_iff`
-/

namespace FeatherOS

--------------------
-- Calls
--------------------

def kzalloc
    (h : Heap)
    (mem : ByteMemory)
    (size : U64) :
    Option Addr × Heap × ByteMemory :=
  match kmalloc h size with
  | (none, h) => (none, h, mem)
  | (some p, h) =>
      (some p, h, mem.patch p size.toNat fun _ => 0#8)

/- The old block is neither looked at nor copied. -/
def krealloc
    (h : Heap)
    (_ptr : Option Addr)
    (newSize : U64) :
    Option Addr × Heap :=
  kmalloc h newSize

/- A result that was not NULL, with the size asked for -/
structure GrantedBlock where
  ptr : Addr
  size : U64

def GrantedBlock.extent (b : GrantedBlock) : Extent :=
  ⟨b.ptr.toNat, b.size.toNat⟩

structure HeapState where
  heap : Heap
  mem : ByteMemory
  blocks : List GrantedBlock

inductive HeapCall where
  | kmalloc (size : U64)
  | kzalloc (size : U64)
  | krealloc (ptr : Option Addr) (newSize : U64)

def HeapCall.size : HeapCall → U64
  | .kmalloc size => size
  | .kzalloc size => size
  | .krealloc _ newSize => newSize

/- The result, the heap and memory -/
def HeapCall.answer
    (s : HeapState) :
    HeapCall → Option Addr × Heap × ByteMemory
  | .kmalloc size =>
      let res := FeatherOS.kmalloc s.heap size
      (res.1, res.2, s.mem)
  | .kzalloc size => FeatherOS.kzalloc s.heap s.mem size
  | .krealloc ptr newSize =>
      let res := FeatherOS.krealloc s.heap ptr newSize
      (res.1, res.2, s.mem)

def heapStep
    (s : HeapState)
    (call : HeapCall)
    (t : HeapState) : Prop :=
  t =
    { heap := (call.answer s).2.1
      mem := (call.answer s).2.2
      blocks :=
        s.blocks ++
          ((call.answer s).1.map fun p =>
            ⟨p, call.size⟩).toList }

def heapBooted (mem : ByteMemory) : HeapState where
  heap := Heap.initial
  mem := mem
  blocks := []

/- Whole blocks inside the heap that do not overlap -/
structure HeapGood (s : HeapState) : Prop where
  aligned : ∀ b ∈ s.blocks, b.ptr.toNat % 8 = 0
  inside : ∀ b ∈ s.blocks,
    heapStart ≤ b.ptr.toNat ∧
      b.ptr.toNat + b.size.toNat ≤ heapStart + heapSize
  apart : ∀ (i j : Nat) (b c : GrantedBlock), i ≠ j →
    s.blocks[i]? = some b → s.blocks[j]? = some c →
    b.extent.Apart c.extent
  left : s.heap.heapLeft.toNat =
    heapStart + heapSize - s.heap.heapPtr.toNat

/- `size + 7` does not wrap. -/
def HeapCall.Ok (call : HeapCall) : Prop :=
  call.size.toNat + 7 < 2 ^ 64

--------------------
-- One Call
--------------------

/- All three calls ask `kmalloc` for the size. -/
theorem HeapCall.answer_eq
    (s : HeapState)
    (call : HeapCall) :
    (call.answer s).1 = (FeatherOS.kmalloc s.heap call.size).1 ∧
      (call.answer s).2.1 =
        (FeatherOS.kmalloc s.heap call.size).2 := by
  cases call with
  | kmalloc size => exact ⟨rfl, rfl⟩
  | kzalloc size =>
      simp only [HeapCall.answer, HeapCall.size, FeatherOS.kzalloc]
      generalize FeatherOS.kmalloc s.heap size = answer
      rcases answer with ⟨_ | p, h⟩
      · exact ⟨rfl, rfl⟩
      · exact ⟨rfl, rfl⟩
  | krealloc ptr newSize => exact ⟨rfl, rfl⟩

/- Blocks end before the next one begins. -/
structure HeapInvariant (s : HeapState) : Prop where
  start : heapStart ≤ s.heap.heapPtr.toNat
  next : s.heap.heapPtr.toNat % 8 = 0
  placed : Extents.Placed
    (fun i : Nat => s.blocks[i]?.map GrantedBlock.extent)
    s.heap.heapPtr.toNat
  good : HeapGood s

variable {size : U64}

/- A size that wraps is rounded to 0. -/
theorem toNat_alignUp8_of_wraps
    (hWraps : ¬ size.toNat + 7 < 2 ^ 64) :
    (alignUp8 size).toNat = 0 := by
  have hMax := size.isLt
  rw [toNat_alignUp8]
  omega

theorem kmalloc_of_wraps
    (h : Heap)
    (hWraps : ¬ size.toNat + 7 < 2 ^ 64) :
    (kmalloc h size).1 = some h.heapPtr := by
  have hRound := toNat_alignUp8_of_wraps hWraps
  have hNe : size ≠ 0#64 := by
    rintro rfl
    exact hWraps (by decide)
  have hFit : ¬ h.heapLeft < alignUp8 size := by
    rw [BitVec.lt_def]
    omega
  unfold kmalloc
  simp only [hNe, if_false, hFit, dite_false]

section Step

variable {s t : HeapState}
variable {call : HeapCall}

/- A refused call changes neither the heap nor the blocks. -/
theorem HeapInvariant.refused
    (hInv : HeapInvariant s)
    (hHeap : t.heap = s.heap)
    (hBlocks : t.blocks = s.blocks) :
    HeapInvariant t := by
  rcases s with ⟨heap, mem, blocks⟩
  rcases t with ⟨heap', mem', blocks'⟩
  cases hHeap
  cases hBlocks
  rcases hInv.good with ⟨hAligned, hInside, hApart, hLeft⟩
  exact ⟨hInv.start, hInv.next, hInv.placed,
    ⟨hAligned, hInside, hApart, hLeft⟩⟩

/- A block whose size does not wrap -/
theorem HeapInvariant.granted
    (hInv : HeapInvariant s)
    (hOk : size.toNat + 7 < 2 ^ 64)
    (hPtr : t.heap.heapPtr.toNat =
      s.heap.heapPtr.toNat + (alignUp8 size).toNat)
    (hBlocks : t.blocks =
      s.blocks ++ [⟨s.heap.heapPtr, size⟩]) :
    HeapInvariant t := by
  have hRound := toNat_alignUp8 size
  rw [Nat.mod_eq_of_lt hOk] at hRound
  have hStart := hInv.start
  have hNext := hInv.next
  have hSum := t.heap.adds_up
  have hEnd : s.heap.heapPtr.toNat + size.toNat ≤
      t.heap.heapPtr.toNat := by
    omega
  have hNew : t.blocks[s.blocks.length]?.map GrantedBlock.extent =
      some ⟨s.heap.heapPtr.toNat, size.toNat⟩ := by
    simp [hBlocks, GrantedBlock.extent]
  have hPlaced : Extents.Placed
      (fun i : Nat => t.blocks[i]?.map GrantedBlock.extent)
      t.heap.heapPtr.toNat := by
    refine hInv.placed.place (Nat.le_refl _) hEnd hNew ?_
    intro j p hNe hOld
    rw [hBlocks] at hOld
    rcases Nat.lt_or_gt_of_ne hNe with hLt | hGt
    · rw [List.getElem?_append_left hLt] at hOld
      exact hOld
    · rw [List.getElem?_eq_none (by simp; omega)] at hOld
      cases hOld
  refine ⟨by omega, by omega, hPlaced, ?_, ?_, ?_, by omega⟩
  · intro b hb
    rw [hBlocks, List.mem_append, List.mem_singleton] at hb
    rcases hb with hOld | rfl
    · exact hInv.good.aligned b hOld
    · exact hNext
  · intro b hb
    rw [hBlocks, List.mem_append, List.mem_singleton] at hb
    rcases hb with hOld | rfl
    · exact hInv.good.inside b hOld
    · simp only
      omega
  · intro i j b c hNe hb hc
    exact hPlaced.apart i j _ _ hNe (by simp [hb])
      (by simp [hc])

theorem heapStep_decided
    (hInv : HeapInvariant s)
    (hStep : heapStep s call t) :
    (HeapGood t ↔ call.Ok) ∧ (call.Ok → HeapInvariant t) := by
  rcases call.answer_eq s with ⟨hResult, hHeap⟩
  have hTHeap : t.heap = (kmalloc s.heap call.size).2 := by
    rw [hStep, ← hHeap]
  have hTBlocks : t.blocks = s.blocks ++
      ((kmalloc s.heap call.size).1.map fun p =>
        ⟨p, call.size⟩).toList := by
    rw [hStep, ← hResult]
  unfold HeapCall.Ok
  by_cases hOk : call.size.toNat + 7 < 2 ^ 64
  · have hAfter : HeapInvariant t := by
      cases hCall : kmalloc s.heap call.size with
      | mk p h =>
          rw [hCall] at hTHeap hTBlocks
          cases p with
          | none =>
              rw [kmalloc_none hCall] at hTHeap
              refine hInv.refused hTHeap ?_
              simpa using hTBlocks
          | some p =>
              rcases kmalloc_some hCall with ⟨rfl, _, _, hPtr⟩
              refine hInv.granted hOk ?_ hTBlocks
              rw [hTHeap]
              exact hPtr
    exact ⟨iff_of_true hAfter.good hOk, fun _ => hAfter⟩
  · refine ⟨iff_of_false (fun hGood => ?_) hOk,
      fun h => absurd h hOk⟩
    rw [kmalloc_of_wraps s.heap hOk] at hTBlocks
    have hMem : ⟨s.heap.heapPtr, call.size⟩ ∈ t.blocks := by
      simp [hTBlocks]
    have hInside := (hGood.inside _ hMem).2
    have hSmall : heapStart + heapSize + 7 < 2 ^ 64 := by decide
    simp only at hInside
    omega

end Step

theorem heapBooted_invariant
    (mem : ByteMemory) :
    HeapInvariant (heapBooted mem) := by
  have hPtr : (heapBooted mem).heap.heapPtr.toNat = heapStart :=
    rfl
  have hSum := (heapBooted mem).heap.adds_up
  have hRound : heapStart % 8 = 0 := by decide
  refine ⟨by omega, by omega, ⟨nofun, nofun⟩,
    ⟨nofun, nofun, nofun, by omega⟩⟩

/-
  Over every run from boot the blocks are good if and only if
  no size is asked for that wraps when it is rounded.
-/
theorem heapRun_good_iff
    {mem : ByteMemory}
    {calls : List HeapCall}
    {t : HeapState} :
    Run (fun s call t => heapStep s call t ∧ HeapGood t)
        (heapBooted mem) calls t ↔
      Run (Guarded (fun _ call => HeapCall.Ok call) heapStep)
        (heapBooted mem) calls t := by
  apply Run.guarded_iff HeapInvariant
  · intro s call t hInv hOk hStep
    exact (heapStep_decided hInv hStep).2 hOk
  · intro s call t hInv hStep
    exact (heapStep_decided hInv hStep).1
  · exact heapBooted_invariant mem

/- A block of 2^64 - 1 bytes is granted. -/
theorem kmalloc_grants_too_much :
    ¬ ∀ (mem : ByteMemory) (calls : List HeapCall)
      (t : HeapState),
      Run heapStep (heapBooted mem) calls t → HeapGood t := by
  intro hAll
  have hGood := hAll (fun _ => 0#8)
    [.kmalloc 0xFFFFFFFFFFFFFFFF#64] _ (.cons rfl (.nil _))
  have hDecided := @heapStep_decided _ _
    (.kmalloc 0xFFFFFFFFFFFFFFFF#64)
    (heapBooted_invariant fun _ => 0#8) rfl
  have hOk := hDecided.1.mp hGood
  unfold HeapCall.Ok at hOk
  exact absurd hOk (by decide)

end FeatherOS
