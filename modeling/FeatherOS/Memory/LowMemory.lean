import FeatherOS.Memory.Frames

/-
  Three users of low physical memory.

  `kmalloc` carves its blocks from 0x200000 on, and the page
  bitmap lies at 0x200000 too. The first block that `kmalloc`
  grants therefore lies on the bitmap. The two stay apart
  only while every request is refused.

  Key definitions include:
    * `LowCall`
    * `LowState`
    * `LowState.NoOverlap`

  Key theorems include:
    * `lowRun_blocks`
    * `lowMemory_run_noOverlap_iff`
-/

namespace FeatherOS

open MemoryManager

--------------------
-- Calls
--------------------

inductive LowCall where
  | phys (call : PhysCall)
  | kmalloc (size : U64)

/-
  The physical allocator with its ledger, the kernel heap,
  and the blocks `kmalloc` has returned with their sizes.
-/
structure LowState where
  phys : PhysState
  heap : Heap
  blocks : List (Addr × U64)

/- The state after `memory_manager_init`. -/
def LowState.boot (memory : Nat → U32) : LowState where
  phys := PhysState.boot memory
  heap := Heap.initial
  blocks := []

def lowExec
    (s : LowState) :
    LowCall → LowState
  | .phys call => { s with phys := physExec s.phys call }
  | .kmalloc size =>
      { s with
        heap := (kmalloc s.heap size).2
        blocks :=
          match (kmalloc s.heap size).1 with
          | none => s.blocks
          | some p => (p, size) :: s.blocks }

def lowStep
    (s : LowState)
    (call : LowCall)
    (s' : LowState) : Prop :=
  s' = lowExec s call

--------------------
-- Overlap
--------------------

/- Two byte ranges, each given by its first byte and size. -/
def Overlap (a n b m : Nat) : Prop :=
  ∃ x, (a ≤ x ∧ x < a + n) ∧ (b ≤ x ∧ x < b + m)

structure LowState.NoOverlap (s : LowState) : Prop where
  bitmap : ∀ mm, s.phys.memManager = some mm →
    ∀ block ∈ s.blocks,
      ¬ Overlap block.1.toNat block.2.toNat
        mm.bitmapPhysAddr.toNat mm.bitmapSize.toNat
  frames : ∀ q ∈ s.phys.handed, ∀ block ∈ s.blocks,
    ¬ Overlap (pageToAddr q).toNat pageSize.toNat
      block.1.toNat block.2.toNat

--------------------
-- The First Block
--------------------

/- A request that an untouched heap refuses. -/
def Refused (size : U64) : Prop :=
  size = 0#64 ∨ heapSize < (alignUp8 size).toNat

theorem kmalloc_initial_refused
    {size : U64}
    (hRefused : Refused size) :
    kmalloc Heap.initial size = (none, Heap.initial) := by
  unfold kmalloc
  rcases hRefused with hZero | hBig
  · rw [if_pos hZero]
  · have hFit : Heap.initial.heapLeft < alignUp8 size :=
      BitVec.lt_def.mpr hBig
    by_cases hZero : size = 0#64
    · rw [if_pos hZero]
    · simp only [hZero, if_false, hFit, dite_true]

theorem kmalloc_initial_granted
    {size : U64}
    (hGranted : ¬ Refused size) :
    size ≠ 0#64 ∧ ∃ heap,
      kmalloc Heap.initial size =
        (some Heap.initial.heapPtr, heap) := by
  unfold Refused at hGranted
  push Not at hGranted
  have hFit : ¬ Heap.initial.heapLeft < alignUp8 size := by
    intro hLt
    exact absurd (BitVec.lt_def.mp hLt)
      (Nat.not_lt.mpr hGranted.2)
  refine ⟨hGranted.1,
    Heap.initial.bump (alignUp8 size) hFit, ?_⟩
  unfold kmalloc
  simp only [hGranted.1, if_false, hFit, dite_false]

/- Some block starts where the bitmap starts. -/
def LowState.OnBitmap (s : LowState) : Prop :=
  ∃ size, size ≠ 0#64 ∧
    (Heap.initial.heapPtr, size) ∈ s.blocks

/- Blocks are never taken back. -/
theorem lowStep_blocks_subset
    {s s' : LowState}
    {call : LowCall}
    (hStep : lowStep s call s') :
    ∀ block ∈ s.blocks, block ∈ s'.blocks := by
  intro block hBlock
  unfold lowStep at hStep
  subst hStep
  cases call with
  | phys call => exact hBlock
  | kmalloc size =>
      simp only [lowExec]
      cases (kmalloc s.heap size).1 with
      | none => exact hBlock
      | some p => exact List.mem_cons_of_mem _ hBlock

/-
  From the untouched heap, a run either grants nothing or
  puts a block on the bitmap.
-/
theorem lowRun_blocks
    {s t : LowState}
    {calls : List LowCall}
    (hRun : Run lowStep s calls t)
    (hHeap : s.heap = Heap.initial)
    (hBlocks : s.blocks = []) :
    ((∀ size, .kmalloc size ∈ calls → Refused size) ∧
        t.blocks = []) ∨
      ((∃ size, .kmalloc size ∈ calls ∧ ¬ Refused size) ∧
        t.OnBitmap) := by
  induction hRun with
  | nil s => exact Or.inl ⟨by simp, hBlocks⟩
  | @cons s u t call calls hStep hRest ih =>
      have hEq := hStep
      unfold lowStep at hEq
      cases call with
      | phys call =>
          have hTail := ih (hEq ▸ hHeap) (hEq ▸ hBlocks)
          simpa using hTail
      | kmalloc size =>
          by_cases hRefused : Refused size
          · have hSame : u = s := by
              rw [hEq]
              simp only [lowExec, hHeap,
                kmalloc_initial_refused hRefused]
              rw [← hHeap]
            have hTail := ih (hSame ▸ hHeap) (hSame ▸ hBlocks)
            rcases hTail with ⟨hAll, hNil⟩ | ⟨hSome, hOn⟩
            · refine Or.inl ⟨?_, hNil⟩
              intro other hOther
              rcases List.mem_cons.mp hOther with hHead | hMem
              · cases hHead
                exact hRefused
              · exact hAll other hMem
            · rcases hSome with ⟨other, hMem, hGranted⟩
              exact Or.inr
                ⟨⟨other, List.mem_cons_of_mem _ hMem,
                  hGranted⟩, hOn⟩
          · rcases kmalloc_initial_granted hRefused with
              ⟨hNe, heap, hCall⟩
            have hOn : u.OnBitmap := by
              refine ⟨size, hNe, ?_⟩
              rw [hEq]
              simp [lowExec, hHeap, hCall]
            have hStays : t.OnBitmap := by
              refine hRest.invariant LowState.OnBitmap ?_ hOn
              intro a op b hOnA hStepA
              rcases hOnA with ⟨n, hn, hMem⟩
              exact ⟨n, hn,
                lowStep_blocks_subset hStepA _ hMem⟩
            exact Or.inr ⟨⟨size, by simp, hRefused⟩, hStays⟩

/- The manager keeps its place. -/
theorem lowRun_inv
    {memory : Nat → U32}
    {calls : List LowCall}
    {s : LowState}
    (hRun : Run lowStep (LowState.boot memory) calls s) :
    ∃ mm, s.phys.Inv mm := by
  refine hRun.invariant (fun s => ∃ mm, s.phys.Inv mm) ?_
    ⟨_, PhysState.boot_inv memory⟩
  intro s call s' hInv hStep
  unfold lowStep at hStep
  subst hStep
  cases call with
  | phys call => exact physStep_inv hInv rfl
  | kmalloc size => exact hInv

--------------------
-- Every Run
--------------------

/-
  The users of low memory stay apart exactly when `kmalloc`
  grants nothing at all.
-/
theorem lowMemory_run_noOverlap_iff
    {memory : Nat → U32}
    {calls : List LowCall}
    {s : LowState}
    (hRun : Run lowStep (LowState.boot memory) calls s) :
    s.NoOverlap ↔
      ∀ size, .kmalloc size ∈ calls → Refused size := by
  rcases lowRun_blocks hRun rfl rfl with
    ⟨hAll, hNil⟩ | ⟨⟨size, hMem, hGranted⟩, hOn⟩
  · constructor
    · intro _
      exact hAll
    · intro _
      exact ⟨by simp [hNil], by simp [hNil]⟩
  · constructor
    · intro hApart
      rcases lowRun_inv hRun with ⟨mm, hInv⟩
      rcases hOn with ⟨n, hn, hBlock⟩
      have hPos : 0 < n.toNat :=
        Nat.pos_of_ne_zero
          (fun h => hn (BitVec.eq_of_toNat_eq h))
      rcases hInv.ok.bitmap_at with ⟨hAddr, hSize⟩
      have hClash :
          Overlap Heap.initial.heapPtr.toNat n.toNat
            mm.bitmapPhysAddr.toNat mm.bitmapSize.toNat := by
        have hStart :
            Heap.initial.heapPtr.toNat = 0x200000 := by decide
        rw [hAddr, hSize, hStart]
        refine ⟨0x200000, by omega, by decide⟩
      exact absurd hClash
        (hApart.bitmap mm hInv.mem _ hBlock)
    · intro hAll
      exact absurd (hAll size hMem) hGranted

theorem lowMemory_run_noOverlap_iff_page :
    ∃ s, Run lowStep (LowState.boot fun _ => 0)
        [.phys .allocPage, .kmalloc 0#64] s ∧
      s.NoOverlap := by
  have hRun :
      Run lowStep (LowState.boot fun _ => 0)
        [.phys .allocPage, .kmalloc 0#64] _ :=
    .cons rfl (.cons rfl (.nil _))
  refine ⟨_, hRun, (lowMemory_run_noOverlap_iff hRun).mpr ?_⟩
  intro size hMem
  simp only [List.mem_cons, reduceCtorEq,
    LowCall.kmalloc.injEq, List.not_mem_nil, or_false,
    false_or] at hMem
  exact Or.inl hMem

/- One byte from `kmalloc`, right after initialisation. -/
theorem kmalloc_overlaps_bitmap :
    ¬ ∀ (memory : Nat → U32) calls s,
      Run lowStep (LowState.boot memory) calls s →
        s.NoOverlap := by
  intro hAll
  have hRun :
      Run lowStep (LowState.boot fun _ => 0)
        [.kmalloc 1#64] _ :=
    .cons rfl (.nil _)
  have hMem :
      (Heap.initial.heapPtr, 1#64) ∈
        (lowExec (LowState.boot fun _ => 0)
          (.kmalloc 1#64)).blocks := by
    decide
  have hApart := (hAll _ _ _ hRun).bitmap
    (bootManager fun _ => 0) rfl _ hMem
  have hAt := (bootManager_ok fun _ => 0).bitmap_at
  rw [hAt.1, hAt.2] at hApart
  exact hApart ⟨0x200000, by decide, by decide⟩

end FeatherOS
