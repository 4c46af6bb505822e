import FeatherOS.Library.Words
import Mathlib.Algebra.Group.Int.Defs

/-
  The kernel heap of `kernel/lib/datastructures.c`.

  `kmalloc` is a bump allocator over one megabyte that
  starts at `HEAP_START`; `kfree` gives nothing back. The
  two globals `heap_ptr` and `heap_left` always add up to
  the end of the heap, and the structure carries that fact.

  Key definitions include:
    * `Heap`
    * `Heap.initial`
    * `kmalloc`

  Key theorems include:
    * `kmalloc_some`
    * `kmalloc_none`
    * `kmalloc_record`
    * `kmalloc_array`
-/

namespace FeatherOS

/- The C types of the kernel on x86-64. -/
abbrev U8 := BitVec 8
abbrev U16 := BitVec 16
abbrev U32 := BitVec 32
abbrev U64 := BitVec 64

/- Addresses; a nullable C pointer is an `Option Addr`. -/
abbrev Addr := U64

--------------------
-- Heap State
--------------------

/- HEAP_START -/
def heapStart : Nat := 0x200000

/- HEAP_SIZE -/
def heapSize : Nat := 1024 * 1024

/- The globals `heap_ptr` and `heap_left`. -/
@[ext] structure Heap where
  heapPtr : Addr
  heapLeft : U64
  adds_up :
    heapPtr.toNat + heapLeft.toNat = heapStart + heapSize

namespace Heap

/- The values the globals are initialised with. -/
def initial : Heap where
  heapPtr := BitVec.ofNat 64 heapStart
  heapLeft := BitVec.ofNat 64 heapSize
  adds_up := by decide

theorem heapPtr_le
    (h : Heap) :
    h.heapPtr.toNat ≤ heapStart + heapSize := by
  have hSum := h.adds_up
  omega

end Heap

--------------------
-- Allocation
--------------------

/- `(size + 7) & ~7` -/
def alignUp8 (size : U64) : U64 :=
  (size + 7#64) &&& ~~~7#64

/- Bumping both globals by a size that still fits. -/
def Heap.bump
    (h : Heap)
    (size : U64)
    (hFit : ¬ h.heapLeft < size) :
    Heap where
  heapPtr := h.heapPtr + size
  heapLeft := h.heapLeft - size
  adds_up := by
    have hSum := h.adds_up
    have hBound : heapStart + heapSize < 2 ^ 64 := by decide
    rw [BitVec.lt_def] at hFit
    rw [BitVec.toNat_add, BitVec.toNat_sub]
    omega

def kmalloc
    (h : Heap)
    (size : U64) :
    Option Addr × Heap :=
  if size = 0#64 then
    (none, h)
  else
    let size := alignUp8 size
    if hFit : h.heapLeft < size then
      (none, h)
    else
      (some h.heapPtr, h.bump size hFit)

--------------------
-- What One Call Does
--------------------

/- The rounded size as a number; it wraps near `2 ^ 64`. -/
theorem toNat_alignUp8
    (size : U64) :
    (alignUp8 size).toNat =
      (size.toNat + 7) % 2 ^ 64 / 8 * 8 := by
  have hMask := Words.toNat_and_not_low (size + 7#64) 3
  simpa [alignUp8, BitVec.toNat_add] using hMask

variable {size : U64}

/- A refused call leaves the heap as it was. -/
theorem kmalloc_none
    {h h' : Heap}
    (hCall : kmalloc h size = (none, h')) :
    h' = h := by
  unfold kmalloc at hCall
  by_cases hZero : size = 0#64
  · simpa [hZero] using hCall.symm
  · by_cases hFit : h.heapLeft < alignUp8 size
    · simpa [hZero, hFit] using hCall.symm
    · simp [hZero, hFit] at hCall

/- A granted block starts at the old heap pointer. -/
theorem kmalloc_some
    {h h' : Heap}
    {p : Addr}
    (hCall : kmalloc h size = (some p, h')) :
    p = h.heapPtr ∧ size ≠ 0#64 ∧
      (alignUp8 size).toNat ≤ h.heapLeft.toNat ∧
      h'.heapPtr.toNat =
        h.heapPtr.toNat + (alignUp8 size).toNat := by
  unfold kmalloc at hCall
  by_cases hZero : size = 0#64
  · simp [hZero] at hCall
  · by_cases hFit : h.heapLeft < alignUp8 size
    · simp [hZero, hFit] at hCall
    · simp only [hZero, if_false, hFit, dite_false,
        Prod.mk.injEq, Option.some.injEq] at hCall
      rcases hCall with ⟨rfl, rfl⟩
      have hSum := h.adds_up
      have hBound : heapStart + heapSize < 2 ^ 64 := by decide
      rw [BitVec.lt_def] at hFit
      refine ⟨rfl, hZero, by omega, ?_⟩
      simp only [Heap.bump, BitVec.toNat_add]
      omega

/- The heap pointer never moves back. -/
theorem kmalloc_heapPtr_le
    (h : Heap)
    (size : U64) :
    h.heapPtr.toNat ≤ (kmalloc h size).2.heapPtr.toNat := by
  cases hCall : kmalloc h size with
  | mk p h' =>
      cases p with
      | none => rw [kmalloc_none hCall]
      | some p =>
          rcases kmalloc_some hCall with ⟨_, _, _, hPtr⟩
          simp only [hPtr]
          omega

/- The bytes left never grow. -/
theorem kmalloc_heapLeft_le
    (h : Heap)
    (size : U64) :
    (kmalloc h size).2.heapLeft.toNat ≤ h.heapLeft.toNat := by
  have hPtr := kmalloc_heapPtr_le h size
  have hSum := h.adds_up
  have hSum' := (kmalloc h size).2.adds_up
  omega

/- A record of `size` bytes, a multiple of eight. -/
theorem kmalloc_record
    {h : Heap}
    {size : U64}
    (hNe : size ≠ 0#64)
    (hAligned : alignUp8 size = size) :
    (h.heapLeft.toNat < size.toNat ∧
        kmalloc h size = (none, h)) ∨
      (size.toNat ≤ h.heapLeft.toNat ∧
        ∃ h', kmalloc h size = (some h.heapPtr, h') ∧
          h'.heapLeft.toNat =
            h.heapLeft.toNat - size.toNat ∧
          h'.heapPtr.toNat =
            h.heapPtr.toNat + size.toNat) := by
  by_cases hFit : h.heapLeft < size
  · refine Or.inl ⟨BitVec.lt_def.mp hFit, ?_⟩
    simp only [kmalloc, hNe, if_false, hAligned, hFit,
      dite_true]
  · have hLe : size.toNat ≤ h.heapLeft.toNat := by
      rw [BitVec.lt_def] at hFit
      omega
    have hCall :
        kmalloc h size =
          (some h.heapPtr, h.bump size hFit) := by
      simp only [kmalloc, hNe, if_false, hAligned, hFit,
        dite_false]
    refine Or.inr ⟨hLe, h.bump size hFit, hCall, ?_, ?_⟩
    · exact BitVec.toNat_sub_of_le (BitVec.le_def.mpr hLe)
    · rcases kmalloc_some hCall with ⟨_, _, _, hPtr⟩
      rw [hPtr, hAligned]

theorem toNat_alignUp8_of_eight
    {k : Nat}
    (hSize : size.toNat = k * 8) :
    (alignUp8 size).toNat = size.toNat := by
  have hMax := size.isLt
  have hSmall : size.toNat + 7 < 2 ^ 64 := by
    rw [hSize] at hMax ⊢
    omega
  rw [toNat_alignUp8, Nat.mod_eq_of_lt hSmall, hSize]
  omega

/-
  An array whose block holds all of its records lies in the
  heap.
-/
theorem kmalloc_array
    {h h' : Heap}
    {record count : U64}
    {p : Addr}
    {k : Nat}
    (hRecord : record.toNat = k * 8)
    (hWhole :
      record.toNat * count.toNat ≤ (record * count).toNat)
    (hCall : kmalloc h (record * count) = (some p, h')) :
    record.toNat * count.toNat ≤ heapStart + heapSize := by
  rcases kmalloc_some hCall with ⟨_, _, hFit, _⟩
  have hBytes :
      (record * count).toNat = record.toNat * count.toNat := by
    have hMod := BitVec.toNat_mul record count
    have hLe :=
      Nat.mod_le (record.toNat * count.toNat) (2 ^ 64)
    omega
  have hEight :
      (record * count).toNat = k * count.toNat * 8 := by
    rw [hBytes, hRecord, Nat.mul_right_comm]
  have hLeft := h.adds_up
  rw [toNat_alignUp8_of_eight hEight, hBytes] at hFit
  omega

end FeatherOS
