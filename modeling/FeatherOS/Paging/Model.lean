import FeatherOS.Kmalloc
import FeatherOS.Library.RadixTable

/-
  The four-level page tables of `kernel/mm/paging_impl.c`.

  Memory is a map from frames, named by their physical
  address, to 512 entries. A pointer `KERNEL_VIRT_BASE + p`
  reaches frame `p`. The root table is the array `boot_pml4`,
  which lies in a frame of its own. The physical allocator is
  a parameter: a function from its state to the address it
  returns and its next state.

  Key definitions include:
    * `PageTables`
    * `makePte`
    * `virtToIndices`
    * `allocatePageTable`
    * `pagingMapPage`
    * `pagingUnmapPage`
    * `pagingIsMapped`
    * `pagingVirtToPhys`
-/

namespace FeatherOS

--------------------
-- Entries
--------------------

/- PTE_PRESENT -/
def ptePresent : U64 := 1#64

/- PTE_WRITABLE -/
def pteWritable : U64 := 2#64

/- PTE_USER -/
def pteUser : U64 := 4#64

/- PTE_NX -/
def pteNx : U64 := 1#64 <<< 63

/- `addr & ~0xFFF` -/
def frameMask (addr : U64) : U64 :=
  addr &&& ~~~0xFFF#64

def makePte
    (physAddr : U64)
    (present writable user nx : Bool) : U64 :=
  let pte := frameMask physAddr
  let pte := if present then pte ||| ptePresent else pte
  let pte := if writable then pte ||| pteWritable else pte
  let pte := if user then pte ||| pteUser else pte
  if nx then pte ||| pteNx else pte

/- `entry & PTE_PRESENT` as a condition. -/
def isPresent (entry : U64) : Bool :=
  entry &&& ptePresent != 0#64

--------------------
-- Addresses
--------------------

abbrev TableIndex := BitVec 9

/- The indices into PML4, PDP, PD and PT. -/
@[ext] structure Indices where
  pml4 : TableIndex
  pdp : TableIndex
  pd : TableIndex
  pt : TableIndex
deriving DecidableEq, Repr

/- `(virt >> shift) & 0x1FF` -/
def indexAt
    (virt : U64)
    (shift : Nat) : TableIndex :=
  ((virt >>> shift) &&& 0x1FF#64).setWidth 9

def virtToIndices (virt : U64) : Indices where
  pml4 := indexAt virt 39
  pdp := indexAt virt 30
  pd := indexAt virt 21
  pt := indexAt virt 12

/- KERNEL_VIRT_BASE -/
def kernelVirtBase : U64 := 0xFFFF800000000000#64

/- The frame that a pointer of the direct map reaches. -/
def frameAt (pointer : U64) : U64 :=
  pointer - kernelVirtBase

--------------------
-- Tables
--------------------

/- The frame of `vmm->pml4` and the contents of all frames. -/
structure PageTables where
  pml4 : U64
  memory : U64 → TableIndex → U64

namespace PageTables

/- The pointer in an entry, followed to its frame. -/
def nextTable
    (t : PageTables)
    (table : U64)
    (index : TableIndex) : U64 :=
  frameAt
    (frameMask (t.memory table index) + kernelVirtBase)

def getPml4Entry (t : PageTables) := t.nextTable

def getPdpEntry (t : PageTables) := t.nextTable

def getPdEntry (t : PageTables) := t.nextTable

/- `table[index] = entry` -/
def setEntry
    (t : PageTables)
    (table : U64)
    (index : TableIndex)
    (entry : U64) :
    PageTables :=
  { t with memory := RadixTable.write t.memory table index entry }

/- `memset(pointer, 0, PAGE_SIZE)` on a page-aligned pointer. -/
def zeroPage
    (t : PageTables)
    (pointer : U64) :
    PageTables :=
  { t with
    memory := RadixTable.fill t.memory (frameAt pointer) 0#64 }

end PageTables

section Allocator

variable {σ : Type}
variable (physicalAllocPage : σ → U64 × σ)

def allocatePageTable
    (a : σ)
    (t : PageTables) :
    U64 × PageTables × σ :=
  let phys := (physicalAllocPage a).1
  let a := (physicalAllocPage a).2
  if phys = 0#64 then
    (0#64, t, a)
  else
    (phys, t.zeroPage (phys + kernelVirtBase), a)

/-
  The step that `paging_map_page` makes at each of the upper
  three levels: an absent entry gets a new table. The flag
  says whether to go on.
-/
def ensureEntry
    (a : σ)
    (t : PageTables)
    (table : U64)
    (index : TableIndex) :
    Bool × PageTables × σ :=
  if isPresent (t.memory table index) then
    (true, t, a)
  else
    match allocatePageTable physicalAllocPage a t with
    | (phys, t, a) =>
        if phys = 0#64 then
          (false, t, a)
        else
          (true,
            t.setEntry table index
              (makePte phys true true false false), a)

def pagingMapPage
    (a : σ)
    (t : PageTables)
    (virt phys : U64)
    (writable user nx : Bool) :
    Int × PageTables × σ :=
  let idx := virtToIndices virt
  match ensureEntry physicalAllocPage a t t.pml4 idx.pml4 with
  | (false, t, a) => (-1, t, a)
  | (true, t, a) =>
      let pdp := t.getPml4Entry t.pml4 idx.pml4
      match ensureEntry physicalAllocPage a t pdp idx.pdp with
      | (false, t, a) => (-1, t, a)
      | (true, t, a) =>
          let pd := t.getPdpEntry pdp idx.pdp
          match ensureEntry physicalAllocPage a t pd idx.pd with
          | (false, t, a) => (-1, t, a)
          | (true, t, a) =>
              let pt := t.getPdEntry pd idx.pd
              (0,
                t.setEntry pt idx.pt
                  (makePte phys true writable user nx), a)

end Allocator

/-
  The three checks that `paging_unmap_page`,
  `paging_is_mapped` and `paging_virt_to_phys` make on the
  way to the last table.
-/
def PageTables.findTable
    (t : PageTables)
    (idx : Indices) : Option U64 :=
  if isPresent (t.memory t.pml4 idx.pml4) then
    let pdp := t.getPml4Entry t.pml4 idx.pml4
    if isPresent (t.memory pdp idx.pdp) then
      let pd := t.getPdpEntry pdp idx.pdp
      if isPresent (t.memory pd idx.pd) then
        some (t.getPdEntry pd idx.pd)
      else
        none
    else
      none
  else
    none

def pagingUnmapPage
    (t : PageTables)
    (virt : U64) :
    Int × PageTables :=
  let idx := virtToIndices virt
  match t.findTable idx with
  | none => (-1, t)
  | some pt =>
      if isPresent (t.memory pt idx.pt) then
        (0, t.setEntry pt idx.pt 0#64)
      else
        (-1, t)

def pagingIsMapped
    (t : PageTables)
    (virt : U64) : Bool :=
  let idx := virtToIndices virt
  match t.findTable idx with
  | none => false
  | some pt => isPresent (t.memory pt idx.pt)

def pagingVirtToPhys
    (t : PageTables)
    (virt : U64) : U64 :=
  let idx := virtToIndices virt
  match t.findTable idx with
  | none => 0#64
  | some pt =>
      if isPresent (t.memory pt idx.pt) then
        frameMask (t.memory pt idx.pt) + (virt &&& 0xFFF#64)
      else
        0#64

end FeatherOS
