import FeatherOS.Library.Extents
import FeatherOS.Memory.Init
import Mathlib.Algebra.Order.BigOperators.Group.List
import Mathlib.Algebra.Order.Group.Nat

/-
  The bitmap for an arbitrary memory map.

  A frame ought to be free if all of its bytes lie in free
  entries and the bitmap does not lie in it. The loop marks
  by entry: it rounds the base and, apart from it, the length
  of an entry up to pages, and stops at `max_pages`, which is
  the amount of free memory and not its highest address.

  So two things can go wrong. An entry that is not made of
  whole pages can spill over its end, and free memory above a
  hole can lie at or above `max_pages`. Nothing else can: a
  frame of free memory below `max_pages` is marked by the
  entry that its first byte lies in.

  Key definitions include:
    * `E820Map`
    * `FreeFrame`
    * `BitmapRight`
    * `MarkedWell`

  Key theorems include:
    * `freeBytes_le`
    * `freeInBitmap_iff`
    * `marked_of_freeFrame`
    * `bitmapRight_iff_markedWell`
-/

namespace FeatherOS

--------------------
-- Memory Maps
--------------------

/- The bytes of an entry. -/
def E820Entry.extent (e : E820Entry) : Extent where
  start := e.base.toNat
  size := e.length.toNat

/- The entries that count as usable memory. -/
def freeEntries (entries : List E820Entry) : List E820Entry :=
  entries.filter fun e => e.type = e820TypeFree

variable {entries : List E820Entry}

theorem mem_freeEntries
    {e : E820Entry} :
    e ∈ freeEntries entries ↔
      e ∈ entries ∧ e.type = e820TypeFree := by
  simp [freeEntries]

/- Ranges of the address space that do not overlap. -/
structure E820Map (entries : List E820Entry) : Prop where
  in_space : ∀ e ∈ entries,
    e.base.toNat + e.length.toNat ≤ 2 ^ 64
  apart : entries.Pairwise fun e f =>
    e.extent.Disjoint f.extent

/- All bytes of the frame lie in free entries. -/
def FreeFrame
    (entries : List E820Entry)
    (q : Nat) : Prop :=
  ∀ b, 4096 * q ≤ b → b < 4096 * (q + 1) →
    ∃ e ∈ freeEntries entries, e.extent.Has b

/- All bytes of the frame lie in the one entry. -/
def E820Entry.HoldsFrame
    (e : E820Entry)
    (q : Nat) : Prop :=
  e.base.toNat ≤ 4096 * q ∧
    4096 * (q + 1) ≤ e.base.toNat + e.length.toNat

instance
    (e : E820Entry)
    (q : Nat) :
    Decidable (e.HoldsFrame q) :=
  inferInstanceAs (Decidable (_ ∧ _))

variable {q : Nat}

theorem E820Entry.HoldsFrame.freeFrame
    {e : E820Entry}
    (hHolds : e.HoldsFrame q)
    (hFree : e ∈ freeEntries entries) :
    FreeFrame entries q := by
  intro b hLow hHigh
  refine ⟨e, hFree, ?_⟩
  unfold E820Entry.HoldsFrame at hHolds
  change e.base.toNat ≤ b ∧ b < e.base.toNat + e.length.toNat
  omega

/- A free frame lies in the address space. -/
theorem FreeFrame.lt
    (hMap : E820Map entries)
    (hFree : FreeFrame entries q) :
    q < 2 ^ 64 := by
  rcases hFree (4096 * q) (Nat.le_refl _) (by omega) with
    ⟨e, he, hHas⟩
  have hSpace := hMap.in_space e (mem_freeEntries.mp he).1
  change e.base.toNat ≤ 4096 * q ∧
    4096 * q < e.base.toNat + e.length.toNat at hHas
  omega

/- The amount of free memory -/
def freeBytes (entries : List E820Entry) : Nat :=
  ((freeEntries entries).map fun e => e.length.toNat).sum

/- Free memory that does not overlap fits into the space. -/
theorem freeBytes_le
    (hMap : E820Map entries) :
    freeBytes entries ≤ 2 ^ 64 := by
  have hSum := @Extents.sum_size_le
    ((freeEntries entries).map E820Entry.extent) (2 ^ 64)
    (List.pairwise_map.mpr
      (hMap.apart.sublist List.filter_sublist))
    (by
      intro p hp
      rcases List.mem_map.mp hp with ⟨e, he, rfl⟩
      exact hMap.in_space e (mem_freeEntries.mp he).1)
  rw [List.map_map] at hSum
  exact hSum

theorem length_le_freeBytes
    {e : E820Entry}
    (hFree : e ∈ freeEntries entries) :
    e.length.toNat ≤ freeBytes entries :=
  List.le_sum_of_mem (List.mem_map_of_mem hFree)

--------------------
-- Rounding
--------------------

/- `bytes_to_pages` on numbers; the sum wraps. -/
def roundUp (bytes : Nat) : Nat :=
  (bytes + 4095) % 2 ^ 64 / 4096

theorem toNat_bytesToPages
    (bytes : U64) :
    (bytesToPages bytes).toNat = roundUp bytes.toNat := by
  have hForm : bytes + pageSize - 1#64 = bytes + 4095#64 := by
    unfold pageSize
    rw [BitVec.sub_eq_add_neg, BitVec.add_assoc]
    rfl
  unfold bytesToPages pageShift roundUp
  rw [hForm, BitVec.toNat_ushiftRight, BitVec.toNat_add,
    Nat.shiftRight_eq_div_pow]
  rfl

/- The frames that the loop may reach -/
def frameLimit (entries : List E820Entry) : Nat :=
  roundUp (freeBytes entries)

/- The frames for a bitmap of that many bits -/
def bitmapFrames (entries : List E820Entry) : Nat :=
  roundUp ((frameLimit entries + 7) / 8)

/- The bitmap lies in the frames from 2 MiB on. -/
def BitmapFrame
    (entries : List E820Entry)
    (q : Nat) : Prop :=
  0x200 ≤ q ∧ q < 0x200 + bitmapFrames entries

instance
    (entries : List E820Entry)
    (q : Nat) :
    Decidable (BitmapFrame entries q) :=
  inferInstanceAs (Decidable (_ ∧ _))

theorem toNat_totalUsable
    (entries : List E820Entry) :
    (totalUsable entries).toNat = freeBytes entries % 2 ^ 64 := by
  have hFold : ∀ total : U64,
      (entries.foldl (fun total e =>
        if e.type = e820TypeFree then total + e.length
        else total) total).toNat =
        (total.toNat + freeBytes entries) % 2 ^ 64 := by
    induction entries with
    | nil =>
        intro total
        have hLt := total.isLt
        simp only [List.foldl_nil, freeBytes, freeEntries,
          List.filter_nil, List.map_nil, List.sum_nil,
          Nat.add_zero]
        omega
    | cons e entries ih =>
        intro total
        rw [List.foldl_cons, ih]
        by_cases hFree : e.type = e820TypeFree
        · simp only [hFree, if_true, BitVec.toNat_add, freeBytes,
            freeEntries, List.filter_cons, decide_true,
            List.map_cons, List.sum_cons]
          omega
        · simp only [hFree, if_false, freeBytes, freeEntries,
            List.filter_cons, decide_false, Bool.false_eq_true]
  have hStart := hFold 0#64
  rwa [BitVec.toNat_zero, Nat.zero_add] at hStart

/- The frames that the loop goes through for an entry -/
def E820Entry.Reaches
    (e : E820Entry)
    (q : Nat) : Prop :=
  roundUp e.base.toNat ≤ q ∧
    q < roundUp e.base.toNat + roundUp e.length.toNat

--------------------
-- The Bitmap That Is Right
--------------------

/- The bitmap has a bit for the frame, and it is clear. -/
def MemoryManager.FreeInBitmap
    (mm : MemoryManager)
    (q : U64) : Prop :=
  q.toNat < 8 * mm.bitmapSize.toNat ∧
    bitmapTest mm.bitmap q = false

/- Some byte of the bitmap lies in the frame. -/
def MemoryManager.HoldsBitmap
    (mm : MemoryManager)
    (q : U64) : Prop :=
  mm.bitmapPhysAddr.toNat < 4096 * (q.toNat + 1) ∧
    4096 * q.toNat <
      mm.bitmapPhysAddr.toNat + mm.bitmapSize.toNat

/-
  A frame is free in the bitmap exactly if it is free memory
  that does not hold the bitmap, and such a frame is below
  `max_pages`.
-/
structure BitmapRight
    (entries : List E820Entry)
    (mm : MemoryManager) : Prop where
  marks : ∀ q : U64, mm.FreeInBitmap q ↔
    FreeFrame entries q.toNat ∧ ¬ mm.HoldsBitmap q
  below : ∀ q : U64, FreeFrame entries q.toNat →
    ¬ mm.HoldsBitmap q → q < mm.maxPages

/-
  The memory maps that are marked well. What rounding adds to
  an entry, below the limit and outside the bitmap, is free
  memory all the same; and no free frame lies at or above the
  limit, the frames of the bitmap excepted.
-/
structure MarkedWell (entries : List E820Entry) : Prop where
  spill : ∀ e ∈ freeEntries entries, ∀ q, e.Reaches q →
    ¬ e.HoldsFrame q → q < frameLimit entries →
      ¬ BitmapFrame entries q → FreeFrame entries q
  below : ∀ q, FreeFrame entries q →
    ¬ BitmapFrame entries q → q < frameLimit entries

section Manager

variable (entries : List E820Entry)
variable (memory : Nat → U32)

theorem roundUp_lt (bytes : Nat) :
    roundUp bytes < 2 ^ 52 := by
  unfold roundUp
  omega

theorem toNat_maxPages :
    (managerAllTaken entries memory).maxPages.toNat =
      frameLimit entries := by
  change (bytesToPages (totalUsable entries)).toNat = _
  rw [toNat_bytesToPages, toNat_totalUsable]
  unfold frameLimit roundUp
  omega

theorem toNat_bitmapPages :
    (managerAllTaken entries memory).bitmapPages.toNat =
      bitmapFrames entries := by
  have hMax := toNat_maxPages entries memory
  have hLimit : frameLimit entries < 2 ^ 52 := roundUp_lt _
  change (bytesToPages
    (((managerAllTaken entries memory).maxPages + 7#64) /
      8#64)).toNat = _
  rw [toNat_bytesToPages, BitVec.toNat_udiv, BitVec.toNat_add,
    hMax]
  unfold bitmapFrames
  simp only [BitVec.toNat_ofNat]
  congr 2
  omega

/- The bitmap has a bit for every page below the limit. -/
theorem bitmapFrames_bounds :
    frameLimit entries ≤ 32768 * bitmapFrames entries ∧
      bitmapFrames entries < 2 ^ 38 := by
  have hLimit : frameLimit entries < 2 ^ 52 := roundUp_lt _
  unfold bitmapFrames
  generalize frameLimit entries = limit at hLimit
  unfold roundUp
  omega

theorem toNat_bitmapSize :
    (managerAllTaken entries memory).bitmapSize.toNat =
      4096 * bitmapFrames entries := by
  have hBounds := bitmapFrames_bounds entries
  change ((managerAllTaken entries memory).bitmapPages *
    pageSize).toNat = _
  rw [BitVec.toNat_mul, toNat_bitmapPages]
  change bitmapFrames entries * 4096 % 2 ^ 64 = _
  omega

theorem isBitmapPage_iff
    (q : U64) :
    (managerAllTaken entries memory).isBitmapPage q = true ↔
      BitmapFrame entries q.toNat := by
  have hBounds := bitmapFrames_bounds entries
  have hPages := toNat_bitmapPages entries memory
  have hFirst : (bytesToPages 0x200000#64).toNat = 0x200 := by
    decide
  unfold MemoryManager.isBitmapPage BitmapFrame
  change decide (bytesToPages 0x200000#64 ≤ q ∧
    q < bytesToPages 0x200000#64 + _) = true ↔ _
  rw [decide_eq_true_iff, BitVec.le_def, BitVec.lt_def,
    BitVec.toNat_add, hPages, hFirst,
    Nat.mod_eq_of_lt (by omega)]

/- The frames that the bitmap occupies -/
theorem holdsBitmap_iff
    (q : U64) :
    (memoryManagerOf entries memory).HoldsBitmap q ↔
      BitmapFrame entries q.toNat := by
  have hSize := toNat_bitmapSize entries memory
  have hAddr : (0x200000#64).toNat = 0x200000 := rfl
  unfold BitmapFrame MemoryManager.HoldsBitmap
  change (0x200000#64).toNat < _ ∧ _ < (0x200000#64).toNat +
    (managerAllTaken entries memory).bitmapSize.toNat ↔ _
  rw [hSize, hAddr]
  omega

/- What the whole loop leaves free -/
theorem freeInBitmap_iff
    (q : U64) :
    (memoryManagerOf entries memory).FreeInBitmap q ↔
      ∃ e ∈ freeEntries entries, e.Reaches q.toNat ∧
        q.toNat < frameLimit entries ∧
        ¬ BitmapFrame entries q.toNat := by
  have hSize := toNat_bitmapSize entries memory
  have hBounds := bitmapFrames_bounds entries
  unfold MemoryManager.FreeInBitmap
  change q.toNat <
      8 * (managerAllTaken entries memory).bitmapSize.toNat ∧
    bitmapTest (entries.foldl
      (managerAllTaken entries memory).markEntry
      (memsetFF memory
        (managerAllTaken entries memory).bitmapSize)) q =
      false ↔ _
  rw [MemoryManager.foldl_markEntry_false_iff]
  simp only [MemoryManager.Frees, InPages, toNat_bytesToPages,
    BitVec.lt_def, toNat_maxPages, mem_freeEntries,
    E820Entry.Reaches, and_assoc]
  constructor
  · rintro ⟨hIn, hClear |
      ⟨e, he, hType, hLow, hHigh, hBelow, hOut⟩⟩
    · rw [bitmapTest_memsetFF hIn (by rw [hSize]; omega)]
        at hClear
      cases hClear
    · refine ⟨e, he, hType, hLow, hHigh, hBelow, ?_⟩
      rw [← isBitmapPage_iff entries memory, hOut]
      exact Bool.false_ne_true
  · rintro ⟨e, he, hType, hLow, hHigh, hBelow, hOut⟩
    refine ⟨by omega, .inr
      ⟨e, he, hType, hLow, hHigh, hBelow, ?_⟩⟩
    rw [← isBitmapPage_iff entries memory] at hOut
    exact Bool.eq_false_iff.mpr hOut

end Manager

--------------------
-- When The Bitmap Is Right
--------------------

/-
  A frame of free memory below the limit is reached from the
  entry that its first byte lies in. Where there is a limit,
  nothing that is rounded up wraps.
-/
theorem marked_of_freeFrame
    (hMap : E820Map entries)
    (hFree : FreeFrame entries q)
    (hBelow : q < frameLimit entries) :
    ∃ e ∈ freeEntries entries, e.Reaches q := by
  rcases hFree (4096 * q) (Nat.le_refl _) (by omega) with
    ⟨e, he, hHas⟩
  have hTotal := freeBytes_le hMap
  have hLength := length_le_freeBytes he
  have hSpace := hMap.in_space e (mem_freeEntries.mp he).1
  change e.base.toNat ≤ 4096 * q ∧
    4096 * q < e.base.toNat + e.length.toNat at hHas
  refine ⟨e, he, ?_⟩
  unfold E820Entry.Reaches
  unfold frameLimit at hBelow
  generalize freeBytes entries = total at hTotal hLength hBelow
  unfold roundUp at hBelow ⊢
  omega

/-
  Entries of whole pages do not spill: what is left to ask is
  that no free frame lies above the limit.
-/
theorem markedWell_of_pages
    (hMap : E820Map entries)
    (hPages : ∀ e ∈ freeEntries entries,
      e.base.toNat % 4096 = 0 ∧ e.length.toNat % 4096 = 0)
    (hBelow : ∀ q, FreeFrame entries q →
      ¬ BitmapFrame entries q → q < frameLimit entries) :
    MarkedWell entries := by
  refine ⟨?_, hBelow⟩
  intro e he q hReach hNot _ _
  have hWhole := hPages e he
  have hSpace := hMap.in_space e (mem_freeEntries.mp he).1
  refine absurd ?_ hNot
  unfold E820Entry.Reaches roundUp at hReach
  unfold E820Entry.HoldsFrame
  omega

/-
  The bitmap is right if and only if the map is one of those
  that are marked well.
-/
theorem bitmapRight_iff_markedWell
    {entries : List E820Entry}
    (hMap : E820Map entries)
    (memory : Nat → U32) :
    BitmapRight entries (memoryManagerOf entries memory) ↔
      MarkedWell entries := by
  have hNat : ∀ q, q < 2 ^ 64 →
      (BitVec.ofNat 64 q).toNat = q := by
    intro q hq
    rw [BitVec.toNat_ofNat]
    omega
  have hMax : ∀ q : U64,
      q < (memoryManagerOf entries memory).maxPages ↔
        q.toNat < frameLimit entries := by
    intro q
    rw [BitVec.lt_def, ← toNat_maxPages entries memory]
    exact Iff.rfl
  constructor
  · intro hRight
    constructor
    · intro e he q hReach _ hBelow hOut
      have hLimit : frameLimit entries < 2 ^ 52 := roundUp_lt _
      have hAt := hNat q (by omega)
      have hClear :=
        (freeInBitmap_iff entries memory (BitVec.ofNat 64 q)).mpr
          ⟨e, he, by rwa [hAt], by rwa [hAt], by rwa [hAt]⟩
      have hFree := ((hRight.marks _).mp hClear).1
      rwa [hAt] at hFree
    · intro q hFree hOut
      have hAt := hNat q (hFree.lt hMap)
      have hBelow := hRight.below (BitVec.ofNat 64 q)
        (by rwa [hAt]) (by rwa [holdsBitmap_iff, hAt])
      rwa [hMax, hAt] at hBelow
  · intro hWell
    constructor
    · intro q
      rw [freeInBitmap_iff, holdsBitmap_iff]
      constructor
      · rintro ⟨e, he, hReach, hBelow, hOut⟩
        refine ⟨?_, hOut⟩
        by_cases hHolds : e.HoldsFrame q.toNat
        · exact hHolds.freeFrame he
        · exact hWell.spill e he _ hReach hHolds hBelow hOut
      · rintro ⟨hFree, hOut⟩
        have hBelow := hWell.below _ hFree hOut
        rcases marked_of_freeFrame hMap hFree hBelow with
          ⟨e, he, hReach⟩
        exact ⟨e, he, hReach, hBelow, hOut⟩
    · intro q hFree hOut
      rw [holdsBitmap_iff] at hOut
      exact (hMax q).mpr (hWell.below _ hFree hOut)

/- One free range from address 0 on -/
def singleRange : List E820Entry :=
  [ { base := 0#64
      length := 0x10000000#64
      type := e820TypeFree
      acpiExt := 0#32 } ]

theorem singleRange_map : E820Map singleRange where
  in_space := by decide
  apart := List.pairwise_singleton _ _

/- A single range of whole pages is marked well. -/
theorem bitmapRight_iff_markedWell_singleRange :
    BitmapRight singleRange
      (memoryManagerOf singleRange fun _ => 0#32) := by
  refine (bitmapRight_iff_markedWell singleRange_map _).mpr
    (markedWell_of_pages singleRange_map (by decide) ?_)
  intro q hFree _
  rcases hFree (4096 * q) (Nat.le_refl _) (by omega) with
    ⟨e, he, hHas⟩
  have hEnds : ∀ e ∈ freeEntries singleRange,
      e.extent.start + e.extent.size = 0x10000000 := by
    decide
  have hEnd := hEnds e he
  have hHigh := hHas.2
  have hLimit : frameLimit singleRange = 0x10000 := by decide
  omega

theorem memoryDetectE820_map : E820Map memoryDetectE820 where
  in_space := by decide
  apart :=
    (show memoryDetectE820.Pairwise fun e f =>
      e.extent.Apart f.extent by decide).imp Extent.Apart.disjoint

/-
  In the built-in map the memory from 4 GiB on is free, but
  its frames lie above `max_pages`.
-/
theorem memoryDetectE820_not_right :
    ¬ ∀ entries memory, entries.length ≤ 128 →
      E820Map entries →
        BitmapRight entries (memoryManagerOf entries memory) := by
  intro hAll
  have hRight := hAll memoryDetectE820 (fun _ => 0#32)
    (by decide) memoryDetectE820_map
  have hEntry : ∃ e ∈ freeEntries memoryDetectE820,
      e.HoldsFrame 0x100000 := by
    decide
  rcases hEntry with ⟨e, he, hHolds⟩
  have hBelow := hRight.below 0x100000#64
    (hHolds.freeFrame he)
    (by rw [holdsBitmap_iff]; decide)
  change 0x100000#64 < (bootManager fun _ => 0#32).maxPages
    at hBelow
  rw [bootManager_maxPages] at hBelow
  revert hBelow
  decide

end FeatherOS
