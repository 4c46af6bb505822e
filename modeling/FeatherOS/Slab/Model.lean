import FeatherOS.Kmalloc
import FeatherOS.Library.ByteMemory
import Mathlib.Logic.Function.Basic

/-
  The slab allocator of `kernel/mm/slab.c`.

  Records that `kmalloc` grants (`slab_t`, `slab_cache_t`) are
  kept in maps from their addresses; the objects and their
  free-list links live in the bytes of the slab pages. Every
  call gets the address that `physical_alloc_page` would
  answer with, and a list tells which pages the allocator
  holds. A recursive call and a `while` loop take a bound on
  their turns, and `none` means that the bound was reached or
  that a NULL pointer was followed. The name of a cache is
  only printed and is left out.

  Key definitions include:
    * `SlabState`
    * `calcNumObjs`
    * `slabCacheCreate`
    * `slabCreate`
    * `slabAlloc`
    * `slabFree`
    * `slabShrink`
    * `slabKmalloc`
    * `slabKfree`
-/

namespace FeatherOS

--------------------
-- Configuration
--------------------

/- SLAB_PAGE_SIZE -/
def slabPageSize : U32 := 4096#32

/- sizeof(slab_t) -/
def sizeofSlab : U64 := 48#64

/- sizeof(slab_cache_t) -/
def sizeofSlabCache : U64 := 112#64

/- sizeof(slab_obj_t *) -/
def sizeofObjPtr : U64 := 8#64

/- The sum and the quotient are taken in 64 bits. -/
def calcNumObjs
    (objSize pageSize _align : U32) : U32 :=
  let overhead := sizeofSlab.setWidth 32
  let usable := pageSize - overhead
  let num :=
    (usable.setWidth 64 /
      (objSize.setWidth 64 + sizeofObjPtr)).setWidth 32
  if 0#32 < num then num else 1#32

--------------------
-- Records
--------------------

/-
  A constructor or a destructor of objects: the bytes of the
  object after the call, from those before it.
-/
abbrev ObjHook := (Nat → U8) → Nat → U8

/- slab_t -/
structure Slab where
  page : Addr
  objSize : U32
  numObjs : U32
  numFree : U32
  freeList : Option Addr
  next : Option Addr
  cache : Option Addr

/- What `memset` with zero leaves. -/
def Slab.zero : Slab :=
  ⟨0#64, 0#32, 0#32, 0#32, none, none, none⟩

/- slab_cache_t -/
structure SlabCache where
  objSize : U32
  numObjs : U32
  pageSize : U32
  align : U32
  flags : U32
  slabsPartial : Option Addr
  slabsFull : Option Addr
  slabsEmpty : Option Addr
  numSlabs : U32
  numObjsTotal : U32
  numObjsFree : U32
  numObjsAlloc : U32
  numFrees : U32
  cacheHits : U32
  cacheMisses : U32
  ctor : Option ObjHook
  dtor : Option ObjHook
  initialized : Bool
  id : U32

def SlabCache.zero : SlabCache :=
  ⟨0#32, 0#32, 0#32, 0#32, 0#32, none, none, none,
    0#32, 0#32, 0#32, 0#32, 0#32, 0#32, 0#32,
    none, none, false, 0#32⟩

/- The three lists of a cache. -/
inductive SlabList where
  | slabsFull
  | slabsPartial
  | slabsEmpty
  deriving DecidableEq

namespace SlabCache

def head
    (c : SlabCache) :
    SlabList → Option Addr
  | .slabsFull => c.slabsFull
  | .slabsPartial => c.slabsPartial
  | .slabsEmpty => c.slabsEmpty

def setHead
    (c : SlabCache)
    (list : SlabList)
    (ptr : Option Addr) :
    SlabCache :=
  match list with
  | .slabsFull => { c with slabsFull := ptr }
  | .slabsPartial => { c with slabsPartial := ptr }
  | .slabsEmpty => { c with slabsEmpty := ptr }

end SlabCache

/- What `slab_ptr` points to: a head or a `next` field. -/
inductive SlabSlot where
  | head (list : SlabList)
  | next (slab : Addr)
  deriving DecidableEq

/- The counters of slab_stats_t that are written. -/
structure SlabStats where
  totalCaches : U32
  totalSlabs : U32
  totalObjs : U32
  totalFree : U32
  totalFrees : U32
  cacheHits : U64
  cacheMisses : U64

/- The globals, the kernel heap and the pages. -/
structure SlabState where
  heap : Heap
  caches : Addr → SlabCache
  slabs : Addr → Slab
  mem : ByteMemory
  sizeCaches : Fin 10 → Option Addr
  globalStats : SlabStats
  cacheIdCounter : U32
  slabInitialized : Bool
  pages : List Addr

--------------------
-- Objects
--------------------

/- `obj->next` -/
def loadPtr
    (mem : ByteMemory)
    (obj : Addr) :
    Option Addr :=
  if mem.load obj = 0#64 then none else some (mem.load obj)

/- `obj->next = ptr` -/
def storePtr
    (mem : ByteMemory)
    (obj : Addr)
    (ptr : Option Addr) :
    ByteMemory :=
  mem.store obj (ptr.getD 0#64)

/- `if (hook) hook(obj);` for an object of `size` bytes. -/
def runHook
    (mem : ByteMemory)
    (hook : Option ObjHook)
    (obj : Addr)
    (size : U32) :
    ByteMemory :=
  match hook with
  | none => mem
  | some f =>
      mem.patch obj size.toNat
        (f fun i => mem (obj + BitVec.ofNat 64 i))

/- What `free_ptr` points to while a free list is built. -/
inductive FreeSlot where
  | head
  | next (obj : Addr)

/- `*free_ptr = ptr` -/
def FreeSlot.write
    (slot : FreeSlot)
    (ptr : Option Addr)
    (list : Option Addr × ByteMemory) :
    Option Addr × ByteMemory :=
  match slot with
  | .head => (ptr, list.2)
  | .next obj => (list.1, storePtr list.2 obj ptr)

/- The loop of `slab_create`, and the NULL at the end. -/
def buildFreeList
    (objSize : U32) :
    Nat → FreeSlot → Addr → Option Addr × ByteMemory →
      Option Addr × ByteMemory
  | 0, slot, _, list => slot.write none list
  | n + 1, slot, objPtr, list =>
      buildFreeList objSize n (.next objPtr)
        (objPtr + objSize.setWidth 64)
        (slot.write (some objPtr) list)

--------------------
-- State Updates
--------------------

namespace SlabState

def modifySlab
    (s : SlabState)
    (slab : Addr)
    (f : Slab → Slab) :
    SlabState :=
  { s with
    slabs := Function.update s.slabs slab (f (s.slabs slab)) }

def modifyCache
    (s : SlabState)
    (cache : Addr)
    (f : SlabCache → SlabCache) :
    SlabState :=
  { s with
    caches :=
      Function.update s.caches cache (f (s.caches cache)) }

def modifyStats
    (s : SlabState)
    (f : SlabStats → SlabStats) :
    SlabState :=
  { s with globalStats := f s.globalStats }

/- `cache_hits++`, in the cache and in the globals -/
def countHit
    (s : SlabState)
    (cache : Addr) :
    SlabState :=
  (s.modifyCache cache fun c =>
      { c with cacheHits := c.cacheHits + 1#32 }).modifyStats
    fun st => { st with cacheHits := st.cacheHits + 1#64 }

/- `cache_misses++`, in the cache and in the globals -/
def countMiss
    (s : SlabState)
    (cache : Addr) :
    SlabState :=
  (s.modifyCache cache fun c =>
      { c with cacheMisses := c.cacheMisses + 1#32 }).modifyStats
    fun st => { st with cacheMisses := st.cacheMisses + 1#64 }

/- `*slab_ptr` -/
def readSlot
    (s : SlabState)
    (cache : Addr) :
    SlabSlot → Option Addr
  | .head list => (s.caches cache).head list
  | .next slab => (s.slabs slab).next

/- `*slab_ptr = ptr` -/
def writeSlot
    (s : SlabState)
    (cache : Addr)
    (slot : SlabSlot)
    (ptr : Option Addr) :
    SlabState :=
  match slot with
  | .head list =>
      s.modifyCache cache fun c => c.setHead list ptr
  | .next slab =>
      s.modifySlab slab fun r => { r with next := ptr }

/- `slab->next = cache->list; cache->list = slab` -/
def pushSlab
    (s : SlabState)
    (cache : Addr)
    (list : SlabList)
    (slab : Addr) :
    SlabState :=
  (s.modifySlab slab fun r =>
      { r with next := (s.caches cache).head list }).writeSlot
    cache (.head list) (some slab)

end SlabState

--------------------
-- Pages
--------------------

/- `page` is what `physical_alloc_page` answers. -/
def slabAllocPage
    (s : SlabState)
    (page : U64) :
    Option Addr × SlabState :=
  if page = 0#64 then
    (none, s)
  else
    (some page, { s with pages := page :: s.pages })

def slabFreePage
    (s : SlabState)
    (page : Addr) :
    SlabState :=
  { s with pages := s.pages.erase page }

--------------------
-- Caches And Slabs
--------------------

def slabCacheCreate
    (s : SlabState)
    (objSize align : U64)
    (flags : U32)
    (ctor dtor : Option ObjHook) :
    Option Addr × SlabState :=
  match kmalloc s.heap sizeofSlabCache with
  | (none, heap) => (none, { s with heap := heap })
  | (some cache, heap) =>
      let align := if 0#64 < align then align else 8#64
      let record : SlabCache :=
        { SlabCache.zero with
          objSize := objSize.setWidth 32
          align := align.setWidth 32
          flags := flags
          ctor := ctor
          dtor := dtor
          pageSize := slabPageSize
          numObjs :=
            calcNumObjs (objSize.setWidth 32) slabPageSize
              (align.setWidth 32)
          initialized := true
          id := s.cacheIdCounter }
      let s :=
        { s with
          heap := heap
          caches := Function.update s.caches cache record
          cacheIdCounter := s.cacheIdCounter + 1#32 }
      (some cache,
        s.modifyStats fun st =>
          { st with totalCaches := st.totalCaches + 1#32 })

/- The counters that a new slab adds to. -/
def SlabState.countSlab
    (s : SlabState)
    (cache slab : Addr) :
    SlabState :=
  let r := s.slabs slab
  (s.modifyCache cache fun c =>
      { c with
        numSlabs := c.numSlabs + 1#32
        numObjsTotal := c.numObjsTotal + r.numObjs
        numObjsFree := c.numObjsFree + r.numFree }).modifyStats
    fun st =>
      { st with
        totalSlabs := st.totalSlabs + 1#32
        totalObjs := st.totalObjs + r.numObjs
        totalFree := st.totalFree + r.numFree }

def slabCreate
    (s : SlabState)
    (cache : Addr)
    (page : U64) :
    Option Addr × SlabState :=
  match slabAllocPage s page with
  | (none, s) => (none, s)
  | (some page, s) =>
      match kmalloc s.heap sizeofSlab with
      | (none, heap) =>
          (none, slabFreePage { s with heap := heap } page)
      | (some slab, heap) =>
          let c := s.caches cache
          let list :=
            buildFreeList c.objSize c.numObjs.toNat .head
              (page + sizeofSlab) (none, s.mem)
          let record : Slab :=
            { Slab.zero with
              page := page
              objSize := c.objSize
              numObjs := c.numObjs
              numFree := c.numObjs
              cache := some cache
              freeList := list.1 }
          let s :=
            { s with
              heap := heap
              slabs := Function.update s.slabs slab record
              mem := list.2 }
          (some slab, s.countSlab cache slab)

--------------------
-- Object Allocation
--------------------

/- The first object of `slab` and the counters it changes. -/
def SlabState.popObject
    (s : SlabState)
    (cache slab obj : Addr) :
    SlabState :=
  let s := s.modifySlab slab fun r =>
    { r with
      freeList := loadPtr s.mem obj
      numFree := r.numFree - 1#32 }
  let s := s.modifyCache cache fun c =>
    { c with
      numObjsFree := c.numObjsFree - 1#32
      numObjsAlloc := c.numObjsAlloc + 1#32 }
  s.countHit cache

/- The branch of `slab_alloc` for the first partial slab. -/
def SlabState.allocPartial
    (s : SlabState)
    (cache slab : Addr) :
    Option (Option Addr × SlabState) :=
  match (s.slabs slab).freeList with
  | none => none
  | some obj =>
      let s := s.popObject cache slab obj
      let s :=
        if (s.slabs slab).numFree = 0#32 then
          (s.writeSlot cache (.head .slabsPartial)
              (s.slabs slab).next).pushSlab
            cache .slabsFull slab
        else
          s
      some (some obj,
        { s with
          mem :=
            runHook s.mem (s.caches cache).ctor obj
              (s.caches cache).objSize })

def slabAlloc
    (page : U64) :
    Nat → SlabState → Option Addr →
      Option (Option Addr × SlabState)
  | 0, _, _ => none
  | _ + 1, s, none => some (none, s)
  | fuel + 1, s, some cache =>
      if (s.caches cache).initialized then
        match (s.caches cache).slabsPartial with
        | some slab => s.allocPartial cache slab
        | none =>
            match (s.caches cache).slabsEmpty with
            | some slab =>
                let s := s.writeSlot cache (.head .slabsEmpty)
                  (s.slabs slab).next
                let s := s.pushSlab cache .slabsPartial slab
                slabAlloc page fuel (s.countHit cache)
                  (some cache)
            | none =>
                match slabCreate s cache page with
                | (none, s) => some (none, s.countMiss cache)
                | (some slab, s) =>
                    let s := s.pushSlab cache .slabsPartial slab
                    slabAlloc page fuel (s.countHit cache)
                      (some cache)
      else
        some (none, s)

--------------------
-- Object Freeing
--------------------

/- The loop that looks for the slab whose page holds `obj`. -/
def slabFind
    (s : SlabState)
    (cache obj : Addr) :
    Nat → SlabSlot → Option (Option (SlabSlot × Addr))
  | 0, _ => none
  | fuel + 1, slot =>
      match s.readSlot cache slot with
      | none => some none
      | some slab =>
          if obj - (s.slabs slab).page <
              (s.caches cache).pageSize.setWidth 64 then
            some (some (slot, slab))
          else
            slabFind s cache obj fuel (.next slab)

namespace SlabState

/- The object goes back to its slab. -/
def pushObject
    (s : SlabState)
    (cache slab obj : Addr) :
    SlabState :=
  let c := s.caches cache
  let mem := runHook s.mem c.dtor obj c.objSize
  let s :=
    { s with
      mem := storePtr mem obj (s.slabs slab).freeList }
  let s := s.modifySlab slab fun r =>
    { r with
      freeList := some obj
      numFree := r.numFree + 1#32 }
  let s := s.modifyCache cache fun c =>
    { c with
      numObjsFree := c.numObjsFree + 1#32
      numFrees := c.numFrees + 1#32 }
  s.modifyStats fun st =>
    { st with totalFrees := st.totalFrees + 1#32 }

/- The list a slab found on the full list is moved to. -/
def moveFromFull
    (s : SlabState)
    (cache : Addr)
    (slot : SlabSlot)
    (slab : Addr) :
    SlabState :=
  if (s.slabs slab).numFree = 1#32 then
    (s.writeSlot cache slot (s.slabs slab).next).pushSlab
      cache .slabsPartial slab
  else if (s.slabs slab).numFree = (s.slabs slab).numObjs then
    let s :=
      if slot = .head .slabsFull then
        s.writeSlot cache slot (s.slabs slab).next
      else if slot = .head .slabsPartial then
        s.writeSlot cache slot (s.slabs slab).next
      else
        s
    s.pushSlab cache .slabsEmpty slab
  else
    s

/- The list a slab found on the partial list is moved to. -/
def moveFromPartial
    (s : SlabState)
    (cache : Addr)
    (slot : SlabSlot)
    (slab : Addr) :
    SlabState :=
  if (s.slabs slab).numFree = (s.slabs slab).numObjs then
    (s.writeSlot cache slot (s.slabs slab).next).pushSlab
      cache .slabsEmpty slab
  else
    s

end SlabState

def slabFree
    (fuel : Nat)
    (s : SlabState)
    (cache obj : Option Addr) :
    Option SlabState :=
  match cache, obj with
  | some cache, some obj =>
      match slabFind s cache obj fuel (.head .slabsFull) with
      | none => none
      | some (some (slot, slab)) =>
          some ((s.pushObject cache slab obj).moveFromFull
            cache slot slab)
      | some none =>
          match slabFind s cache obj fuel (.head .slabsPartial) with
          | none => none
          | some (some (slot, slab)) =>
              some ((s.pushObject cache slab obj).moveFromPartial
                cache slot slab)
          | some none => some s
  | _, _ => some s

--------------------
-- Shrinking
--------------------

/- One turn of the loop of `slab_shrink`. -/
def SlabState.dropSlab
    (s : SlabState)
    (cache slab : Addr) :
    SlabState :=
  let r := s.slabs slab
  let s := s.writeSlot cache (.head .slabsEmpty) r.next
  let s := slabFreePage s r.page
  (s.modifyCache cache fun c =>
      { c with
        numSlabs := c.numSlabs - 1#32
        numObjsTotal := c.numObjsTotal - r.numObjs
        numObjsFree := c.numObjsFree - r.numFree }).modifyStats
    fun st =>
      { st with
        totalSlabs := st.totalSlabs - 1#32
        totalObjs := st.totalObjs - r.numObjs
        totalFree := st.totalFree - r.numFree }

/- `freed_slabs < 4` leaves at most four turns. -/
def shrinkLoop
    (cache : Addr) :
    Nat → U32 → SlabState → U32 × SlabState
  | 0, freedSlabs, s => (freedSlabs, s)
  | turns + 1, freedSlabs, s =>
      match (s.caches cache).slabsEmpty with
      | none => (freedSlabs, s)
      | some slab =>
          shrinkLoop cache turns (freedSlabs + 1#32)
            (s.dropSlab cache slab)

def slabShrink
    (s : SlabState) :
    Option Addr → U32 × SlabState
  | none => (0#32, s)
  | some cache => shrinkLoop cache 4 0#32 s

--------------------
-- Size-Based Allocation
--------------------

/- size_cache_sizes -/
def sizeCacheSizes (i : Fin 10) : U32 :=
  [8#32, 16#32, 32#32, 64#32, 128#32, 256#32, 512#32,
    1024#32, 2048#32, 4096#32].get i

/- The first of the sizes that `size` fits. -/
def sizeIndex (size : U64) : Option (Fin 10) :=
  (List.finRange 10).find? fun i =>
    decide (size ≤ (sizeCacheSizes i).setWidth 64)

/- `size_caches[i] = slab_cache_create(...)` -/
def createSizeCache
    (s : SlabState)
    (i : Fin 10) :
    SlabState :=
  match slabCacheCreate s
      ((sizeCacheSizes i).setWidth 64) 8#64 0#32 none none with
  | (cache, s) =>
      { s with
        sizeCaches := Function.update s.sizeCaches i cache }

def slabCacheLookup
    (s : SlabState)
    (size : U64) :
    Option Addr × SlabState :=
  if size = 0#64 then
    (none, s)
  else
    match sizeIndex size with
    | none => (none, s)
    | some i =>
        match s.sizeCaches i with
        | some cache => (some cache, s)
        | none =>
            let s := createSizeCache s i
            (s.sizeCaches i, s)

def slabAllocSize
    (fuel : Nat)
    (s : SlabState)
    (size page : U64) :
    Option (Option Addr × SlabState) :=
  match slabCacheLookup s size with
  | (none, s) => some (slabAllocPage s page)
  | (some cache, s) => slabAlloc page fuel s (some cache)

def slabFreeSize
    (fuel : Nat)
    (s : SlabState)
    (size : U64)
    (obj : Option Addr) :
    Option SlabState :=
  match obj with
  | none => some s
  | some obj =>
      match slabCacheLookup s size with
      | (some cache, s) => slabFree fuel s (some cache) (some obj)
      | (none, s) => some (slabFreePage s obj)

def slabKmalloc
    (fuel : Nat)
    (s : SlabState)
    (size page : U64) :
    Option (Option Addr × SlabState) :=
  if size = 0#64 then
    some (none, s)
  else
    slabAllocSize fuel s size page

def slabKfree
    (fuel : Nat)
    (s : SlabState)
    (ptr : Option Addr)
    (size : U64) :
    Option SlabState :=
  match ptr with
  | none => some s
  | some ptr => slabFreeSize fuel s size (some ptr)

--------------------
-- Initialization
--------------------

namespace SlabState

/- The zeroed globals beside a kernel heap. -/
def boot
    (heap : Heap)
    (mem : ByteMemory) :
    SlabState where
  heap := heap
  caches := fun _ => SlabCache.zero
  slabs := fun _ => Slab.zero
  mem := mem
  sizeCaches := fun _ => none
  globalStats := ⟨0#32, 0#32, 0#32, 0#32, 0#32, 0#64, 0#64⟩
  cacheIdCounter := 0#32
  slabInitialized := false
  pages := []

end SlabState

/- The per-CPU records it fills are never read. -/
def slabInit (s : SlabState) : SlabState :=
  if s.slabInitialized then
    s
  else
    { (List.finRange 10).foldl createSizeCache s with
      slabInitialized := true }

end FeatherOS
