import FeatherOS.Memory.Model
import FeatherOS.Paging.Model
import FeatherOS.Vma.Model

/-
  `vma_mmap` of `kernel/mm/vma.c`.

  The call picks a start address, creates an area, inserts it
  into the tree and backs its pages one by one. The loop that
  looks for a free region takes a bound on its turns, as the
  loops of the tree do.

  Key definitions include:
    * `MmapRequest`
    * `alignedLen`
    * `vmaFindGap`
    * `mapAreaPages`
    * `vmaMmap`
-/

namespace FeatherOS

--------------------
-- Requests
--------------------

/- VMA_READ -/
def vmaRead : U32 := 0x01#32

/- VMA_WRITE -/
def vmaWrite : U32 := 0x02#32

/- VMA_EXEC -/
def vmaExec : U32 := 0x04#32

/- VMA_PRIVATE -/
def vmaPrivate : U32 := 0x10#32

/- VMA_SHARED -/
def vmaShared : U32 := 0x20#32

/- VMA_ANONYMOUS -/
def vmaAnonymous : U32 := 0x40#32

/- VMA_FIXED -/
def vmaFixed : U32 := 0x80#32

/- USER_VIRT_START -/
def userVirtStart : U64 := 0#64

/- USER_VIRT_END -/
def userVirtEnd : U64 := 0x00007FFFFFFFFFFF#64

/- The arguments of `vma_mmap` but for the manager. -/
structure MmapRequest where
  addr : U64
  length : U64
  prot : U32
  flags : U32
  name : Option String

/- `word & flag` as a condition. -/
def hasFlag (word flag : U32) : Bool :=
  word &&& flag != 0#32

/- `if (word & flag) result |= flag;` -/
def copyFlag (word flag result : U32) : U32 :=
  if hasFlag word flag then result ||| flag else result

/- The flags of the new area. -/
def MmapRequest.vmaFlags (req : MmapRequest) : U32 :=
  let result := copyFlag req.prot vmaRead 0#32
  let result := copyFlag req.prot vmaWrite result
  let result := copyFlag req.prot vmaExec result
  let result := copyFlag req.flags vmaPrivate result
  let result := copyFlag req.flags vmaShared result
  copyFlag req.flags vmaAnonymous result

/- `(length + PAGE_SIZE - 1) & ~(PAGE_SIZE - 1)` -/
def alignedLen (length : U64) : U64 :=
  (length + pageSize - 1#64) &&& ~~~(pageSize - 1#64)

/- `addr == 0 || (flags & VMA_FIXED)` -/
def MmapRequest.searches (req : MmapRequest) : Bool :=
  req.addr == 0#64 || hasFlag req.flags vmaFixed

--------------------
-- The Search For A Free Region
--------------------

/- `while (node)`; unsigned subtraction wraps. -/
def vmaFindGap
    (m : VmaRbTree)
    (len : U64) :
    Nat → U64 → Option Addr → Option U64
  | 0, _, _ => none
  | _ + 1, start, none => some start
  | fuel + 1, start, some node =>
      if len ≤ (m.nodes node).vma.start - start then
        some start
      else
        let start := (m.nodes node).vma.endAddr
        if (m.nodes node).vma.start ≤ start then
          vmaFindGap m len fuel start (m.nodes node).right
        else
          vmaFindGap m len fuel start (m.nodes node).left

--------------------
-- The Call
--------------------

/- The areas, the page tables and the physical allocator. -/
structure MmapState where
  vma : VmaState
  tables : PageTables
  memManager : Option MemoryManager

/-
  The pointer returned, and the area that was inserted, if
  one was. An area at address 0 is returned as NULL.
-/
structure MmapResult where
  pointer : U64
  area : Option Vma

/- A call that inserts nothing returns NULL. -/
def MmapResult.null : MmapResult where
  pointer := 0#64
  area := none

/-
  The loop that backs the area, with `n` pages to go from
  `virt` on. A page without a frame is skipped, and what
  `paging_map_page` returns is not looked at.
-/
def mapAreaPages
    (flags : U32) :
    Nat → U64 → PageTables × Option MemoryManager →
      PageTables × Option MemoryManager
  | 0, _, (tables, mm) => (tables, mm)
  | n + 1, virt, (tables, mm) =>
      let pagePhys := (physicalAllocPage mm).1
      let mm := (physicalAllocPage mm).2
      let next :=
        if pagePhys = 0#64 then
          (tables, mm)
        else
          (pagingMapPage physicalAllocPage mm tables virt
            pagePhys (hasFlag flags vmaWrite) true
            (!hasFlag flags vmaExec)).2
      mapAreaPages flags n (virt + pageSize) next

/- The start address, before the end-of-space test. -/
def mmapStart
    (fuel : Nat)
    (m : VmaRbTree)
    (req : MmapRequest) : Option U64 :=
  if req.searches then
    vmaFindGap m (alignedLen req.length) fuel userVirtStart
      m.root
  else
    some req.addr

/- The rest of the call, once `start` is settled. -/
def vmaMmapAt
    (fuel : Nat)
    (s : MmapState)
    (manager : Option Addr)
    (req : MmapRequest)
    (len start : U64) :
    Option (MmapResult × MmapState) :=
  if userVirtEnd - len ≤ start then
    some (.null, s)
  else
    match vmaCreate s.vma start (start + len) req.vmaFlags
        req.name with
    | (none, v) => some (.null, { s with vma := v })
    | (some vma, v) => do
        let (r, v) ← vmaInsert fuel v manager (some vma)
        -- `vma_destroy` ends in `kfree`, which does nothing
        if r ≠ 0 then
          some (.null, { s with vma := v })
        else
          let backed :=
            mapAreaPages req.vmaFlags (len / pageSize).toNat
              start (s.tables, s.memManager)
          some
            ({ pointer := start, area := some vma },
              { vma := v
                tables := backed.1
                memManager := backed.2 })

def vmaMmap
    (fuel : Nat)
    (s : MmapState)
    (manager : Option Addr)
    (req : MmapRequest) :
    Option (MmapResult × MmapState) := do
  let start ← mmapStart fuel s.vma.tree req
  vmaMmapAt fuel s manager req (alignedLen req.length) start

end FeatherOS
