import FeatherOS.Kmalloc
import FeatherOS.Library.Bitmap

/-
  The physical memory manager of `kernel/mm/memory.c`.

  The bitmap is the memory at `bitmap_phys_addr`, read as an
  array of 32-bit words. Only its first `bitmap_size` bytes
  belong to the manager; the words behind them hold whatever
  was in memory before.

  Key definitions include:
    * `MemoryManager`
    * `findFirstFree`
    * `memoryDetectE820`
    * `memoryManagerInit`
    * `physicalAllocPage`
    * `physicalAllocPages`
    * `physicalFreePage`
    * `physicalFreePages`
    * `physicalReserve`
    * `physicalUnreserve`
-/

namespace FeatherOS

--------------------
-- Data
--------------------

/- MEMORY_BITMAP_MAGIC -/
def memoryBitmapMagic : U32 := 0xFEAD#32

/- memory_stats_t -/
structure MemoryStats where
  totalPages : U64
  freePages : U64
  reservedPages : U64
  kernelPages : U64
  largestFree : U64
  allocatedPages : U64
  freedPages : U64
deriving DecidableEq, Repr

/-
  memory_manager_t; `memory_start` and `memory_end` are read
  and written nowhere.
-/
structure MemoryManager where
  totalMemory : U64
  bitmapPhysAddr : U64
  bitmap : Nat → U32
  bitmapSize : U64
  bitmapPages : U64
  maxPages : U64
  stats : MemoryStats
  magic : U32

/- e820_entry_t -/
structure E820Entry where
  base : U64
  length : U64
  type : U32
  acpiExt : U32
deriving DecidableEq, Repr

/- E820_TYPE_FREE -/
def e820TypeFree : U32 := 1#32

/- E820_TYPE_RESERVED -/
def e820TypeReserved : U32 := 2#32

--------------------
-- Pages And Addresses
--------------------

/- PAGE_SHIFT -/
def pageShift : Nat := 12

/- PAGE_SIZE -/
def pageSize : U64 := 4096#64

def bytesToPages (bytes : U64) : U64 :=
  (bytes + pageSize - 1#64) >>> pageShift

def addrToPage (addr : U64) : U64 :=
  addr >>> pageShift

def pageToAddr (page : U64) : U64 :=
  page <<< pageShift

--------------------
-- The Bitmap
--------------------

/- BITMAP_SET -/
def bitmapSet
    (bitmap : Nat → U32)
    (bit : U64) :
    Nat → U32 :=
  Bitmap.set bitmap bit.toNat

/- BITMAP_CLR -/
def bitmapClr
    (bitmap : Nat → U32)
    (bit : U64) :
    Nat → U32 :=
  Bitmap.clr bitmap bit.toNat

/- BITMAP_TEST -/
def bitmapTest
    (bitmap : Nat → U32)
    (bit : U64) : Bool :=
  Bitmap.test bitmap bit.toNat

@[simp] theorem bitmapTest_bitmapSet
    (bitmap : Nat → U32)
    (p q : U64) :
    bitmapTest (bitmapSet bitmap p) q =
      (decide (q = p) || bitmapTest bitmap q) := by
  simp [bitmapTest, bitmapSet, BitVec.toNat_inj]

@[simp] theorem bitmapTest_bitmapClr
    (bitmap : Nat → U32)
    (p q : U64) :
    bitmapTest (bitmapClr bitmap p) q =
      (!decide (q = p) && bitmapTest bitmap q) := by
  simp [bitmapTest, bitmapClr, BitVec.toNat_inj]

/-
  The inner loop of `find_first_free`, at turn `j` with `n`
  turns to go.
-/
def runIsFree
    (bitmap : Nat → U32)
    (i : U64) :
    Nat → U64 → Bool
  | 0, _ => true
  | n + 1, j =>
      if bitmapTest bitmap (i + j) then
        false
      else
        runIsFree bitmap i n (j + 1#64)

/- The outer loop, at `i` with `n` turns to go. -/
def searchFree
    (bitmap : Nat → U32)
    (count : U64) :
    Nat → U64 → Option U64
  | 0, _ => none
  | n + 1, i =>
      if runIsFree bitmap i count.toNat 0#64 then
        some i
      else
        searchFree bitmap count n (i + 1#64)

/- The result is an `int`: the index is cut to 32 bits. -/
def findFirstFree
    (bitmap : Nat → U32)
    (maxBits count : U64) : BitVec 32 :=
  match searchFree bitmap count maxBits.toNat 0#64 with
  | some i => i.setWidth 32
  | none => -1#32

--------------------
-- Initialisation
--------------------

/- The entries that `memory_detect_e820` fills in. -/
def memoryDetectE820 : List E820Entry :=
  [ { base := 0x00000000#64
      length := 0x9F000#64
      type := e820TypeFree
      acpiExt := 0#32 },
    { base := 0x0009F000#64
      length := 0x61000#64
      type := e820TypeReserved
      acpiExt := 0#32 },
    { base := 0x00100000#64
      length := 0x0FF00000#64
      type := e820TypeFree
      acpiExt := 0#32 },
    { base := 0x100000000#64
      length := 0x10000000#64
      type := e820TypeFree
      acpiExt := 0#32 } ]

/- The sum of the free lengths. -/
def totalUsable (entries : List E820Entry) : U64 :=
  entries.foldl
    (fun total e =>
      if e.type = e820TypeFree then
        total + e.length
      else
        total)
    0#64

/- The pages that hold the bitmap. -/
def MemoryManager.isBitmapPage
    (mm : MemoryManager)
    (page : U64) : Bool :=
  let first := bytesToPages mm.bitmapPhysAddr
  decide (first ≤ page ∧ page < first + mm.bitmapPages)

/-
  Marking the pages of one entry, at page `start_page + p`
  with `n` of the entry's pages to go.
-/
def MemoryManager.markFree
    (mm : MemoryManager)
    (startPage : U64) :
    Nat → U64 → (Nat → U32) → (Nat → U32)
  | 0, _, bitmap => bitmap
  | n + 1, p, bitmap =>
      if startPage + p < mm.maxPages then
        if mm.isBitmapPage (startPage + p) then
          mm.markFree startPage n (p + 1#64) bitmap
        else
          mm.markFree startPage n (p + 1#64)
            (bitmapClr bitmap (startPage + p))
      else
        bitmap

/- One turn of the loop over the memory map. -/
def MemoryManager.markEntry
    (mm : MemoryManager)
    (bitmap : Nat → U32)
    (e : E820Entry) :
    Nat → U32 :=
  if e.type = e820TypeFree then
    mm.markFree (bytesToPages e.base)
      (bytesToPages e.length).toNat 0#64 bitmap
  else
    bitmap

/- `memset(bitmap, 0xFF, size)`; `size` is whole words. -/
def memsetFF
    (memory : Nat → U32)
    (size : U64) :
    Nat → U32 :=
  fun i =>
    if 4 * i < size.toNat then 0xFFFFFFFF#32 else memory i

/-
  The manager before the free pages are marked; `memory` is
  what the words at `bitmap_phys_addr` held before.
-/
def managerAllTaken
    (entries : List E820Entry)
    (memory : Nat → U32) :
    MemoryManager :=
  let total := totalUsable entries
  let maxPages := bytesToPages total
  let bitmapPages := bytesToPages ((maxPages + 7#64) / 8#64)
  let bitmapSize := bitmapPages * pageSize
  { totalMemory := total
    bitmapPhysAddr := 0x200000#64
    bitmap := memsetFF memory bitmapSize
    bitmapSize := bitmapSize
    bitmapPages := bitmapPages
    maxPages := maxPages
    stats :=
      { totalPages := maxPages
        freePages := maxPages
        reservedPages := bitmapPages
        kernelPages := 0#64
        largestFree := maxPages
        allocatedPages := 0#64
        freedPages := 0#64 }
    magic := memoryBitmapMagic }

/- The manager that a memory map leads to. -/
def memoryManagerOf
    (entries : List E820Entry)
    (memory : Nat → U32) :
    MemoryManager :=
  let mm := managerAllTaken entries memory
  { mm with bitmap := entries.foldl mm.markEntry mm.bitmap }

/- Returns 0 and sets the global `mem_manager`. -/
def memoryManagerInit
    (memory : Nat → U32) :
    Int × Option MemoryManager :=
  (0, some (memoryManagerOf memoryDetectE820 memory))

--------------------
-- Operations
--------------------

/-
  Every operation starts with `get_memory_manager()` and
  gives up when there is no manager or its magic is wrong.
-/
def withManager
    {α : Type}
    (memManager : Option MemoryManager)
    (giveUp : α)
    (body : MemoryManager → α × MemoryManager) :
    α × Option MemoryManager :=
  match memManager with
  | none => (giveUp, none)
  | some mm =>
      if mm.magic ≠ memoryBitmapMagic then
        (giveUp, some mm)
      else
        ((body mm).1, some (body mm).2)

/- The values of `page + i` for `n` turns; they may wrap. -/
def pagesFrom : Nat → U64 → List U64
  | 0, _ => []
  | n + 1, page => page :: pagesFrom n (page + 1#64)

/- A loop whose turns work on the pages from `page` on. -/
def forPages
    (turn : MemoryManager → U64 → MemoryManager)
    (n : Nat)
    (page : U64)
    (mm : MemoryManager) :
    MemoryManager :=
  (pagesFrom n page).foldl turn mm

namespace MemoryManager

/- BITMAP_SET and `free_pages--` -/
def takePage
    (mm : MemoryManager)
    (page : U64) :
    MemoryManager :=
  { mm with
    bitmap := bitmapSet mm.bitmap page
    stats :=
      { mm.stats with
        freePages := mm.stats.freePages - 1#64 } }

/- `allocated_pages += count` and the `largest_free` test. -/
def countAllocated
    (mm : MemoryManager)
    (count : U64) :
    MemoryManager :=
  { mm with
    stats :=
      { mm.stats with
        allocatedPages := mm.stats.allocatedPages + count
        largestFree :=
          if mm.stats.freePages < mm.stats.largestFree then
            mm.stats.freePages
          else
            mm.stats.largestFree } }

/- BITMAP_CLR, `free_pages++` and `freed_pages++` -/
def releasePage
    (mm : MemoryManager)
    (page : U64) :
    MemoryManager :=
  { mm with
    bitmap := bitmapClr mm.bitmap page
    stats :=
      { mm.stats with
        freePages := mm.stats.freePages + 1#64
        freedPages := mm.stats.freedPages + 1#64 } }

/- One turn of `physical_free_pages`. -/
def freeTurn
    (mm : MemoryManager)
    (page : U64) :
    MemoryManager :=
  if page < mm.maxPages ∧ bitmapTest mm.bitmap page then
    mm.releasePage page
  else
    mm

/-
  The turn that `physical_reserve` and `physical_unreserve`
  share: a clear page gets its bit set and `free_pages`
  moves by `bumpFree`; `reserved_pages` moves by
  `bumpReserved` whatever the bit was.
-/
def markTurn
    (bumpFree bumpReserved : U64 → U64)
    (mm : MemoryManager)
    (page : U64) :
    MemoryManager :=
  if page < mm.maxPages then
    let mm :=
      if bitmapTest mm.bitmap page then
        mm
      else
        { mm with
          bitmap := bitmapSet mm.bitmap page
          stats :=
            { mm.stats with
              freePages := bumpFree mm.stats.freePages } }
    { mm with
      stats :=
        { mm.stats with
          reservedPages :=
            bumpReserved mm.stats.reservedPages } }
  else
    mm

/- BITMAP_SET, `free_pages--` and `reserved_pages++` -/
def reserveTurn :
    MemoryManager → U64 → MemoryManager :=
  markTurn (fun free => free - 1#64)
    (fun reserved => reserved + 1#64)

/- BITMAP_SET, `free_pages++` and `reserved_pages--` -/
def unreserveTurn :
    MemoryManager → U64 → MemoryManager :=
  markTurn (fun free => free + 1#64)
    (fun reserved => reserved - 1#64)

/-
  The page an allocation of `count` pages starts at, where
  there is one.
-/
def pageFor
    (mm : MemoryManager)
    (count : U64) : Option U64 :=
  let page := findFirstFree mm.bitmap mm.maxPages count
  if page.slt 0#32 then
    none
  else
    some (page.signExtend 64)

end MemoryManager

def physicalAllocPage
    (memManager : Option MemoryManager) :
    U64 × Option MemoryManager :=
  withManager memManager 0#64 fun mm =>
    match mm.pageFor 1#64 with
    | none => (0#64, mm)
    | some page =>
        (pageToAddr page, (mm.takePage page).countAllocated 1#64)

def physicalFreePage
    (memManager : Option MemoryManager)
    (addr : U64) :
    Option MemoryManager :=
  (withManager memManager () fun mm =>
    let page := addrToPage addr
    if mm.maxPages ≤ page then
      ((), mm)
    else if bitmapTest mm.bitmap page then
      ((), mm.releasePage page)
    else
      ((), mm)).2

def physicalAllocPages
    (memManager : Option MemoryManager)
    (count : U64) :
    U64 × Option MemoryManager :=
  withManager memManager 0#64 fun mm =>
    match mm.pageFor count with
    | none => (0#64, mm)
    | some page =>
        (pageToAddr page,
          (forPages MemoryManager.takePage count.toNat page mm)
            |>.countAllocated count)

def physicalFreePages
    (memManager : Option MemoryManager)
    (addr count : U64) :
    Option MemoryManager :=
  (withManager memManager () fun mm =>
    ((), forPages MemoryManager.freeTurn count.toNat
      (addrToPage addr) mm)).2

def physicalReserve
    (memManager : Option MemoryManager)
    (addr count : U64) :
    Option MemoryManager :=
  (withManager memManager () fun mm =>
    ((), forPages MemoryManager.reserveTurn count.toNat
      (addrToPage addr) mm)).2

def physicalUnreserve
    (memManager : Option MemoryManager)
    (addr count : U64) :
    Option MemoryManager :=
  (withManager memManager () fun mm =>
    ((), forPages MemoryManager.unreserveTurn count.toNat
      (addrToPage addr) mm)).2

end FeatherOS
