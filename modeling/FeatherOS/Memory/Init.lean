import FeatherOS.Memory.Model

/-
  The bitmap that `memory_manager_init` leaves.

  The loop over a free entry clears the bits of its pages as
  far as the last page, the pages of the bitmap excepted. For
  the built-in memory map this leaves three ranges of free
  pages, and every padding bit set.

  Key theorems include:
    * `MemoryManager.markFree_false_iff`
    * `bitmapTest_bootManager`
-/

namespace FeatherOS

--------------------
-- Marking One Entry
--------------------

/- `q` is one of the `n` pages from `first` on. -/
def InPages
    (first : U64)
    (n : Nat)
    (q : U64) : Prop :=
  first.toNat ≤ q.toNat ∧ q.toNat < first.toNat + n

theorem inPages_zero
    {first q : U64} :
    ¬ InPages first 0 q := by
  unfold InPages
  omega

theorem inPages_succ
    {first next q : U64}
    {n : Nat}
    (hNext : next.toNat = first.toNat + 1) :
    InPages first (n + 1) q ↔ q = first ∨ InPages next n q := by
  unfold InPages
  rw [← BitVec.toNat_inj]
  omega

/-
  The loop stops at the last page, so `start_page + p` never
  wraps while it runs.
-/
theorem MemoryManager.markFree_false_iff
    (mm : MemoryManager)
    (startPage : U64)
    (n : Nat)
    (p : U64)
    (bitmap : Nat → U32)
    (q : U64) :
    bitmapTest (mm.markFree startPage n p bitmap) q = false ↔
      bitmapTest bitmap q = false ∨
        (InPages (startPage + p) n q ∧
          q < mm.maxPages ∧ mm.isBitmapPage q = false) := by
  induction n generalizing p bitmap with
  | zero => simp [markFree, inPages_zero]
  | succ n ih =>
      unfold markFree
      by_cases hBelow : startPage + p < mm.maxPages
      · have hNat := BitVec.lt_def.mp hBelow
        have hNext :
            (startPage + (p + 1#64)).toNat =
              (startPage + p).toNat + 1 := by
          rw [← BitVec.add_assoc]
          exact Words.toNat_succ (by omega)
        rw [if_pos hBelow, inPages_succ hNext]
        by_cases hHole : mm.isBitmapPage (startPage + p) = true
        · rw [if_pos hHole, ih]
          by_cases hq : q = startPage + p
          · simp [hq, hHole]
          · simp [hq]
        · rw [if_neg hHole, ih, bitmapTest_bitmapClr]
          by_cases hq : q = startPage + p
          · simp [hq, hBelow, Bool.eq_false_iff.mpr hHole]
          · simp [hq]
      · have hOut :
            ¬ (InPages (startPage + p) (n + 1) q ∧
              q < mm.maxPages ∧
                mm.isBitmapPage q = false) := by
          intro h
          rcases h with ⟨⟨hLow, _⟩, hHigh, _⟩
          rw [BitVec.lt_def] at hBelow hHigh
          omega
        rw [if_neg hBelow]
        simp [hOut]

/- The pages that one entry of the map frees. -/
def MemoryManager.Frees
    (mm : MemoryManager)
    (e : E820Entry)
    (q : U64) : Prop :=
  e.type = e820TypeFree ∧
    InPages (bytesToPages e.base) (bytesToPages e.length).toNat
      q ∧
    q < mm.maxPages ∧ mm.isBitmapPage q = false

theorem MemoryManager.markEntry_false_iff
    (mm : MemoryManager)
    (bitmap : Nat → U32)
    (e : E820Entry)
    (q : U64) :
    bitmapTest (mm.markEntry bitmap e) q = false ↔
      bitmapTest bitmap q = false ∨ mm.Frees e q := by
  unfold markEntry Frees
  by_cases hType : e.type = e820TypeFree
  · rw [if_pos hType, markFree_false_iff, BitVec.add_zero]
    simp [hType]
  · simp [hType]

/- The loop over the whole map. -/
theorem MemoryManager.foldl_markEntry_false_iff
    (mm : MemoryManager)
    (entries : List E820Entry)
    (bitmap : Nat → U32)
    (q : U64) :
    bitmapTest (entries.foldl mm.markEntry bitmap) q = false ↔
      bitmapTest bitmap q = false ∨
        ∃ e ∈ entries, mm.Frees e q := by
  induction entries generalizing bitmap with
  | nil => simp
  | cons e entries ih =>
      rw [List.foldl_cons, ih, markEntry_false_iff]
      simp only [List.mem_cons, exists_eq_or_imp, or_assoc]

--------------------
-- The Built-in Memory Map
--------------------

/- The pages free after initialisation. -/
def isBootFree (q : U64) : Prop :=
  q.toNat < 0x9F ∨
    (0x100 ≤ q.toNat ∧ q.toNat < 0x200) ∨
    (0x204 ≤ q.toNat ∧ q.toNat < 0x10000)

/- The manager at boot. -/
def bootManager (memory : Nat → U32) : MemoryManager :=
  memoryManagerOf memoryDetectE820 memory

theorem bootManager_maxPages
    (memory : Nat → U32) :
    (bootManager memory).maxPages = 0x1FF9F#64 := by
  change bytesToPages (totalUsable memoryDetectE820) = _
  decide

theorem bootManager_bitmapPages
    (memory : Nat → U32) :
    (bootManager memory).bitmapPages = 4#64 := by
  change bytesToPages
    ((bytesToPages (totalUsable memoryDetectE820) + 7#64) /
      8#64) = _
  decide

theorem bootManager_bitmapSize
    (memory : Nat → U32) :
    (bootManager memory).bitmapSize = 16384#64 := by
  change (bootManager memory).bitmapPages * pageSize = _
  rw [bootManager_bitmapPages]
  decide

/- The bits that `memset` reaches. -/
theorem bitmapTest_memsetFF
    {memory : Nat → U32}
    {size q : U64}
    (hq : q.toNat < 8 * size.toNat)
    (hWhole : size.toNat % 4 = 0) :
    bitmapTest (memsetFF memory size) q = true := by
  have hWord : 4 * (q.toNat / 32) < size.toNat := by omega
  have hBit : q.toNat % 32 < 32 := Nat.mod_lt _ (by omega)
  rw [bitmapTest, Bitmap.test_eq_getLsbD]
  unfold memsetFF
  rw [if_pos hWord]
  exact BitVec.getLsbD_allOnes ▸ by simp [hBit]

/- Where the bitmap itself lies. -/
theorem managerAllTaken_isBitmapPage
    (memory : Nat → U32)
    (q : U64) :
    (managerAllTaken memoryDetectE820 memory).isBitmapPage q =
      decide (0x200 ≤ q.toNat ∧ q.toNat < 0x204) := by
  have hFirst : bytesToPages 0x200000#64 = 0x200#64 := by
    decide
  have hLast :
      0x200#64 +
          (managerAllTaken memoryDetectE820 memory).bitmapPages =
        0x204#64 := by
    change 0x200#64 + (bootManager memory).bitmapPages = _
    rw [bootManager_bitmapPages]
    decide
  unfold MemoryManager.isBitmapPage
  change decide (bytesToPages 0x200000#64 ≤ q ∧
    q < bytesToPages 0x200000#64 + _) = _
  rw [hFirst, hLast]
  apply decide_eq_decide.mpr
  rw [BitVec.le_def, BitVec.lt_def]
  exact Iff.rfl

/- The bits inside the bitmap, padding included. -/
theorem bitmapTest_bootManager
    {memory : Nat → U32}
    {q : U64}
    (hq : q.toNat < 131072) :
    bitmapTest (bootManager memory).bitmap q = false ↔
      isBootFree q := by
  have hAll :
      bitmapTest
        (managerAllTaken memoryDetectE820 memory).bitmap q =
          true := by
    have hSize := bootManager_bitmapSize memory
    change bitmapTest
      (memsetFF memory (bootManager memory).bitmapSize) q = true
    rw [hSize]
    exact bitmapTest_memsetFF (by simpa using hq) (by decide)
  have hMax :
      (managerAllTaken memoryDetectE820 memory).maxPages =
        0x1FF9F#64 :=
    bootManager_maxPages memory
  change bitmapTest
    (memoryDetectE820.foldl
      (managerAllTaken memoryDetectE820 memory).markEntry
      (managerAllTaken memoryDetectE820 memory).bitmap) q =
        false ↔ _
  rw [MemoryManager.foldl_markEntry_false_iff, hAll]
  unfold MemoryManager.Frees
  rw [hMax, managerAllTaken_isBitmapPage]
  have hBase₂ : bytesToPages 0x00100000#64 = 0x100#64 := by
    decide
  have hBase₃ : bytesToPages 0x100000000#64 = 0x100000#64 := by
    decide
  have hLen₀ : (bytesToPages 0x9F000#64).toNat = 0x9F := by
    decide
  have hLen₂ : (bytesToPages 0x0FF00000#64).toNat = 0xFF00 := by
    decide
  simp only [memoryDetectE820, List.mem_cons,
    List.not_mem_nil, or_false, exists_eq_or_imp,
    exists_eq_left, e820TypeFree, e820TypeReserved, InPages,
    isBootFree, BitVec.lt_def, decide_eq_false_iff_not,
    hBase₂, hBase₃, hLen₀, hLen₂]
  have hZero : (bytesToPages 0x0#64).toNat = 0 := by decide
  have hTypes : ¬ (2#32 = 1#32) := by decide
  simp only [hZero, hTypes, BitVec.toNat_ofNat,
    Bool.true_eq_false, false_or, true_and, false_and]
  omega

end FeatherOS
