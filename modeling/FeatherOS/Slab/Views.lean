import FeatherOS.Slab.Layout
import Mathlib.Data.List.Perm.Basic
import Mathlib.Data.List.Flatten
import Mathlib.Algebra.BigOperators.Group.List.Basic

/-
  What the records and the bytes of the slab layer represent.

  A view of a slab splits its objects into free and used
  ones; a view of a cache is one list of slab views for each
  of its three lists. `Core` relates the state to the views
  of all caches.

  Key definitions include:
    * `SlabView`
    * `CacheView`
    * `Linked`
    * `Stocked`
    * `Core`

  Key theorems include:
    * `Linked.unlink`
    * `Linked.push`
    * `Core.update`
-/

namespace FeatherOS

--------------------
-- Views
--------------------

/- A slab: its record, its page and its objects. -/
structure SlabView where
  ptr : Addr
  page : Addr
  free : List Addr
  used : List Addr

/- What the record and the links of a slab say. -/
structure SlabView.Ok
    (w : SlabView)
    (s : SlabState)
    (objSize numObjs : U32) : Prop where
  page_eq : (s.slabs w.ptr).page = w.page
  isPage : IsPage w.page
  numObjs_eq : (s.slabs w.ptr).numObjs = numObjs
  numFree_eq :
    (s.slabs w.ptr).numFree = BitVec.ofNat 32 w.free.length
  chain :
    Chain (loadPtr s.mem) (s.slabs w.ptr).freeList w.free
  objs :
    (w.free ++ w.used).Perm (slabObjs w.page objSize numObjs)

/- The slabs on each list, in order. -/
abbrev CacheView := SlabList → List SlabView

variable {w : SlabView}
variable {v : CacheView}

namespace CacheView

/- All slabs of a cache. -/
def all (v : CacheView) : List SlabView :=
  v .slabsFull ++ v .slabsPartial ++ v .slabsEmpty

/- The records on each list. -/
def ptrs
    (v : CacheView)
    (list : SlabList) :
    List Addr :=
  (v list).map SlabView.ptr

/- The objects in use. -/
def used (v : CacheView) : List Addr :=
  v.all.flatMap SlabView.used

theorem mem_all
    (list : SlabList)
    (hw : w ∈ v list) :
    w ∈ v.all := by
  unfold all
  cases list <;> simp [hw]

end CacheView

/- What never changes about a cache. -/
structure SlabCache.Ok (c : SlabCache) : Prop where
  size_ge : 8 ≤ c.objSize.toNat
  numObjs_eq :
    c.numObjs = calcNumObjs c.objSize slabPageSize c.align
  pageSize_eq : c.pageSize = slabPageSize
  initialized_eq : c.initialized = true
  hooks :
    c.objSize.toNat ≤ 4048 ∨ c.ctor = none ∧ c.dtor = none

--------------------
-- The Three Lists
--------------------

/- The pointers thread the three lists. -/
structure Linked
    (s : SlabState)
    (cache : Addr)
    (ptrs : SlabList → List Addr) : Prop where
  chain : ∀ list,
    Chain (fun p => (s.slabs p).next)
      ((s.caches cache).head list) (ptrs list)
  nodup : ∀ list, (ptrs list).Nodup
  apart : ∀ list list', list ≠ list' →
    (ptrs list).Disjoint (ptrs list')

/- The slot behind some slabs of a list. -/
def slotBehind
    (slot : SlabSlot)
    (before : List Addr) :
    SlabSlot :=
  before.foldl (fun _ p => .next p) slot

@[simp] theorem slotBehind_nil
    (slot : SlabSlot) :
    slotBehind slot [] = slot :=
  rfl

@[simp] theorem slotBehind_append
    (slot : SlabSlot)
    (before : List Addr)
    (p : Addr) :
    slotBehind slot (before ++ [p]) = .next p := by
  simp [slotBehind]

@[simp] theorem head_setHead
    (c : SlabCache)
    (list : SlabList)
    (ptr : Option Addr) :
    (c.setHead list ptr).head list = ptr := by
  cases list <;> rfl

variable {c c' : SlabCache}

theorem head_setHead_of_ne
    {list list' : SlabList}
    {ptr : Option Addr}
    (hNe : list' ≠ list) :
    (c.setHead list ptr).head list' = c.head list' := by
  cases list <;> cases list' <;> first | rfl | contradiction

namespace Linked

variable {s s' : SlabState}
variable {cache : Addr}
variable {ptrs : SlabList → List Addr}

/- Only the heads and the links of the slabs matter. -/
theorem congr
    (hHead : ∀ list,
      (s'.caches cache).head list = (s.caches cache).head list)
    (hNext : ∀ list, ∀ p ∈ ptrs list,
      (s'.slabs p).next = (s.slabs p).next)
    (hLinked : Linked s cache ptrs) :
    Linked s' cache ptrs where
  chain list := by
    rw [hHead]
    exact (hLinked.chain list).congr (hNext list)
  nodup := hLinked.nodup
  apart := hLinked.apart

/- A slab is taken out by one write to the slot before it. -/
theorem unlink
    {list : SlabList}
    {before after : List Addr}
    {p : Addr}
    (hEq : ptrs list = before ++ p :: after)
    (hLinked : Linked s cache ptrs) :
    Linked
      (s.writeSlot cache (slotBehind (.head list) before)
        (s.slabs p).next)
      cache
      (Function.update ptrs list (before ++ after)) := by
  have hChain := hLinked.chain list
  have hNodup := hLinked.nodup list
  rw [hEq] at hChain hNodup
  have hSub : ∀ a, a ∈ before ++ after → a ∈ ptrs list := by
    intro a ha
    rw [hEq]
    simp only [List.mem_append, List.mem_cons] at ha ⊢
    tauto
  refine ⟨?_, ?_, ?_⟩
  · intro list'
    by_cases hList : list' = list
    · subst hList
      rw [Function.update_self]
      rcases List.eq_nil_or_concat before with
        rfl | ⟨before, q, rfl⟩
      · simp only [slotBehind_nil, List.nil_append] at *
        simp only [SlabState.writeSlot, SlabState.modifyCache,
          Function.update_self, head_setHead]
        exact hChain.2
      · simp only [List.concat_eq_append, slotBehind_append,
          List.append_assoc, List.singleton_append] at *
        simp only [SlabState.writeSlot, SlabState.modifySlab]
        refine Chain.splice (by simp) ?_ hNodup hChain
        intro a ha
        simp [Function.update_of_ne ha]
    · rw [Function.update_of_ne hList]
      have hOther := hLinked.chain list'
      rcases List.eq_nil_or_concat before with
        rfl | ⟨before, q, rfl⟩
      · simp only [slotBehind_nil, SlabState.writeSlot,
          SlabState.modifyCache, Function.update_self,
          head_setHead_of_ne hList]
        exact hOther
      · simp only [List.concat_eq_append, slotBehind_append,
          SlabState.writeSlot, SlabState.modifySlab]
        refine hOther.congr fun a ha => ?_
        have hNe : a ≠ q := by
          rintro rfl
          refine hLinked.apart list' list hList ha ?_
          rw [hEq]
          simp
        simp [Function.update_of_ne hNe]
  · intro list'
    by_cases hList : list' = list
    · subst hList
      rw [Function.update_self]
      exact hNodup.sublist
        (List.Sublist.append_left (List.sublist_cons_self _ _) _)
    · rw [Function.update_of_ne hList]
      exact hLinked.nodup list'
  · intro list₁ list₂ hNe a ha₁ ha₂
    have hIn : ∀ list',
        a ∈ Function.update ptrs list (before ++ after) list' →
        a ∈ ptrs list' := by
      intro list' ha
      by_cases hList : list' = list
      · subst hList
        rw [Function.update_self] at ha
        exact hSub a ha
      · rwa [Function.update_of_ne hList] at ha
    exact hLinked.apart list₁ list₂ hNe (hIn list₁ ha₁)
      (hIn list₂ ha₂)

/- A slab from outside becomes the head of a list. -/
theorem push
    {p : Addr}
    (list : SlabList)
    (hOut : ∀ list', p ∉ ptrs list')
    (hLinked : Linked s cache ptrs) :
    Linked (s.pushSlab cache list p) cache
      (Function.update ptrs list (p :: ptrs list)) := by
  have hSame : ∀ list', ∀ a ∈ ptrs list',
      ((s.pushSlab cache list p).slabs a).next =
        (s.slabs a).next := by
    intro list' a ha
    have hNe : a ≠ p := by
      rintro rfl
      exact hOut list' ha
    simp [SlabState.pushSlab, SlabState.writeSlot,
      SlabState.modifySlab, SlabState.modifyCache,
      Function.update_of_ne hNe]
  refine ⟨?_, ?_, ?_⟩
  · intro list'
    by_cases hList : list' = list
    · subst hList
      rw [Function.update_self]
      have hHead :
          ((s.pushSlab cache list' p).caches cache).head
            list' = some p := by
        simp [SlabState.pushSlab, SlabState.writeSlot,
          SlabState.modifySlab, SlabState.modifyCache]
      rw [hHead]
      refine Chain.push ?_ (hSame list') (hLinked.chain list')
      simp [SlabState.pushSlab, SlabState.writeSlot,
        SlabState.modifySlab, SlabState.modifyCache]
    · rw [Function.update_of_ne hList]
      have hHead :
          ((s.pushSlab cache list p).caches cache).head list' =
            (s.caches cache).head list' := by
        simp [SlabState.pushSlab, SlabState.writeSlot,
          SlabState.modifySlab, SlabState.modifyCache,
          head_setHead_of_ne hList]
      rw [hHead]
      exact (hLinked.chain list').congr (hSame list')
  · intro list'
    by_cases hList : list' = list
    · subst hList
      rw [Function.update_self]
      exact List.nodup_cons.mpr
        ⟨hOut list', hLinked.nodup list'⟩
    · rw [Function.update_of_ne hList]
      exact hLinked.nodup list'
  · intro list₁ list₂ hNe a ha₁ ha₂
    by_cases h₁ : list₁ = list
    · have h₂ : list₂ ≠ list := fun h => hNe (h₁.trans h.symm)
      subst h₁
      rw [Function.update_self] at ha₁
      rw [Function.update_of_ne h₂] at ha₂
      rcases List.mem_cons.mp ha₁ with rfl | ha₁
      · exact hOut list₂ ha₂
      · exact hLinked.apart list₁ list₂ hNe ha₁ ha₂
    · rw [Function.update_of_ne h₁] at ha₁
      by_cases h₂ : list₂ = list
      · subst h₂
        rw [Function.update_self] at ha₂
        rcases List.mem_cons.mp ha₂ with rfl | ha₂
        · exact hOut list₁ ha₁
        · exact hLinked.apart list₁ list₂ hNe ha₁ ha₂
      · rw [Function.update_of_ne h₂] at ha₂
        exact hLinked.apart list₁ list₂ hNe ha₁ ha₂

end Linked

--------------------
-- Objects And Counters
--------------------

/- A slab record but for its link. -/
def Slab.stock (r : Slab) : Slab :=
  { r with next := none }

/- A cache record but for its heads and its statistics. -/
def SlabCache.core (c : SlabCache) : SlabCache :=
  { c with
    slabsFull := none
    slabsPartial := none
    slabsEmpty := none
    numObjsAlloc := 0#32
    numFrees := 0#32
    cacheHits := 0#32
    cacheMisses := 0#32 }

theorem Slab.stock_eq
    {r r' : Slab}
    (hStock : r'.stock = r.stock) :
    r'.page = r.page ∧ r'.numObjs = r.numObjs ∧
      r'.numFree = r.numFree ∧ r'.freeList = r.freeList := by
  simp only [stock, Slab.mk.injEq] at hStock
  tauto

theorem SlabCache.core_sizes
    (hCore : c'.core = c.core) :
    c'.objSize = c.objSize ∧ c'.numObjs = c.numObjs ∧
      c'.ctor = c.ctor ∧ c'.dtor = c.dtor := by
  simp only [core, SlabCache.mk.injEq] at hCore
  tauto

theorem SlabCache.core_counts
    (hCore : c'.core = c.core) :
    c'.numSlabs = c.numSlabs ∧
      c'.numObjsTotal = c.numObjsTotal ∧
      c'.numObjsFree = c.numObjsFree := by
  simp only [core, SlabCache.mk.injEq] at hCore
  tauto

/- The counters may change. -/
theorem SlabCache.Ok.of_core
    {numSlabs numObjsTotal numObjsFree : U32}
    (hCore :
      c'.core =
        { c.core with
          numSlabs := numSlabs
          numObjsTotal := numObjsTotal
          numObjsFree := numObjsFree })
    (hOk : c.Ok) :
    c'.Ok := by
  simp only [core, SlabCache.mk.injEq] at hCore
  refine ⟨?_, ?_, ?_, ?_, ?_⟩
  · simpa only [hCore] using hOk.size_ge
  · simpa only [hCore] using hOk.numObjs_eq
  · simpa only [hCore] using hOk.pageSize_eq
  · simpa only [hCore] using hOk.initialized_eq
  · simpa only [hCore] using hOk.hooks

theorem SlabCache.Ok.congr
    (hCore : c'.core = c.core)
    (hOk : c.Ok) :
    c'.Ok :=
  of_core hCore hOk

variable {s s' : SlabState}

/- A slab whose record and links are untouched. -/
theorem SlabView.Ok.congr
    {objSize numObjs : U32}
    (hStock :
      (s'.slabs w.ptr).stock = (s.slabs w.ptr).stock)
    (hLoad : ∀ o ∈ w.free,
      loadPtr s'.mem o = loadPtr s.mem o)
    (hOk : w.Ok s objSize numObjs) :
    w.Ok s' objSize numObjs := by
  rcases Slab.stock_eq hStock with
    ⟨hPage, hNum, hFree, hList⟩
  refine ⟨?_, hOk.isPage, ?_, ?_, ?_, hOk.objs⟩
  · rw [hPage]
    exact hOk.page_eq
  · rw [hNum]
    exact hOk.numObjs_eq
  · rw [hFree]
    exact hOk.numFree_eq
  · rw [hList]
    exact hOk.chain.congr hLoad

/- The slabs of a cache and the counters over them. -/
structure Stocked
    (s : SlabState)
    (cache : Addr)
    (ws : List SlabView) : Prop where
  ok : ∀ w ∈ ws,
    w.Ok s (s.caches cache).objSize (s.caches cache).numObjs
  numSlabs_eq :
    (s.caches cache).numSlabs = BitVec.ofNat 32 ws.length
  total_eq :
    (s.caches cache).numObjsTotal =
      BitVec.ofNat 32
        (ws.length * (s.caches cache).numObjs.toNat)
  free_eq :
    (s.caches cache).numObjsFree =
      BitVec.ofNat 32
        (ws.map fun w => w.free.length).sum

namespace Stocked

variable {s s' : SlabState}
variable {cache : Addr}
variable {ws ws' : List SlabView}

/- The order of the slabs does not matter. -/
theorem perm
    (hPerm : ws'.Perm ws)
    (hStocked : Stocked s cache ws) :
    Stocked s cache ws' where
  ok w hw := hStocked.ok w (hPerm.mem_iff.mp hw)
  numSlabs_eq := by
    rw [hPerm.length_eq]
    exact hStocked.numSlabs_eq
  total_eq := by
    rw [hPerm.length_eq]
    exact hStocked.total_eq
  free_eq := by
    rw [(hPerm.map _).sum_eq]
    exact hStocked.free_eq

theorem congr
    (hCore : (s'.caches cache).core = (s.caches cache).core)
    (hStock : ∀ w ∈ ws,
      (s'.slabs w.ptr).stock = (s.slabs w.ptr).stock)
    (hLoad : ∀ w ∈ ws, ∀ o ∈ w.free,
      loadPtr s'.mem o = loadPtr s.mem o)
    (hStocked : Stocked s cache ws) :
    Stocked s' cache ws := by
  rcases SlabCache.core_sizes hCore with ⟨hSize, hNum, _⟩
  rcases SlabCache.core_counts hCore with
    ⟨hSlabs, hTotal, hFree⟩
  refine ⟨?_, ?_, ?_, ?_⟩
  · intro w hw
    rw [hSize, hNum]
    exact (hStocked.ok w hw).congr (hStock w hw) (hLoad w hw)
  · rw [hSlabs]
    exact hStocked.numSlabs_eq
  · rw [hTotal, hNum]
    exact hStocked.total_eq
  · rw [hFree]
    exact hStocked.free_eq

end Stocked

--------------------
-- One Cache
--------------------

structure CacheCore
    (s : SlabState)
    (cache : Addr)
    (v : CacheView) : Prop where
  shape : (s.caches cache).Ok
  linked : Linked s cache v.ptrs
  stocked : Stocked s cache v.all

/- A cache that a call does not touch. -/
theorem CacheCore.congr
    {cache : Addr}
    (hCache : s'.caches cache = s.caches cache)
    (hSlab : ∀ w ∈ v.all, s'.slabs w.ptr = s.slabs w.ptr)
    (hLoad : ∀ w ∈ v.all, ∀ o ∈ w.free,
      loadPtr s'.mem o = loadPtr s.mem o)
    (hCore : CacheCore s cache v) :
    CacheCore s' cache v where
  shape := by
    rw [hCache]
    exact hCore.shape
  linked := by
    refine hCore.linked.congr (by simp [hCache]) ?_
    intro list p hp
    rcases List.mem_map.mp hp with ⟨w, hw, rfl⟩
    rw [hSlab w (CacheView.mem_all list hw)]
  stocked := by
    refine hCore.stocked.congr (by rw [hCache]) ?_ hLoad
    intro w hw
    rw [hSlab w hw]

--------------------
-- All Caches
--------------------

/- The slabs of all caches. -/
def allSlabs
    (created : List Addr)
    (V : Addr → CacheView) :
    List SlabView :=
  created.flatMap fun c => (V c).all

/- The slabs of the caches but one. -/
def otherSlabs
    (created : List Addr)
    (V : Addr → CacheView)
    (cache : Addr) :
    List SlabView :=
  (created.erase cache).flatMap fun c => (V c).all

theorem mem_allSlabs
    {created : List Addr}
    {V : Addr → CacheView}
    {cache : Addr}
    (hCache : cache ∈ created)
    (hw : w ∈ (V cache).all) :
    w ∈ allSlabs created V :=
  List.mem_flatMap.mpr ⟨cache, hCache, hw⟩

/- Splitting one cache off. -/
theorem allSlabs_update
    {created : List Addr}
    {V : Addr → CacheView}
    {cache : Addr}
    (hCache : cache ∈ created)
    (hNodup : created.Nodup)
    (v : CacheView) :
    (allSlabs created (Function.update V cache v)).Perm
      (v.all ++ otherSlabs created V cache) := by
  have hPerm :=
    (List.perm_cons_erase hCache).flatMap_right
      (fun c => (Function.update V cache v c).all)
  refine hPerm.trans ?_
  rw [List.flatMap_cons, Function.update_self]
  refine List.Perm.append_left _ (List.Perm.of_eq ?_)
  refine List.flatMap_congr fun c hc => ?_
  have hNe : c ≠ cache := by
    rintro rfl
    exact hNodup.not_mem_erase hc
  rw [Function.update_of_ne hNe]

theorem allSlabs_split
    {created : List Addr}
    {V : Addr → CacheView}
    {cache : Addr}
    (hCache : cache ∈ created)
    (hNodup : created.Nodup) :
    (allSlabs created V).Perm
      ((V cache).all ++ otherSlabs created V cache) := by
  have hPerm :=
    @allSlabs_update created V cache hCache hNodup (V cache)
  rwa [Function.update_eq_self] at hPerm

theorem mem_otherSlabs
    {created : List Addr}
    {V : Addr → CacheView}
    {cache d : Addr}
    (hd : d ∈ created)
    (hNe : d ≠ cache)
    (hw : w ∈ (V d).all) :
    w ∈ otherSlabs created V cache := by
  refine List.mem_flatMap.mpr ⟨d, ?_, hw⟩
  exact (List.mem_erase_of_ne hNe).mpr hd

/-
  The records lie below the heap pointer and have used up 48
  bytes each; the pages held are those of the slabs and the
  large ones.
-/
structure Placed
    (s : SlabState)
    (ws : List SlabView)
    (large : List Addr) : Prop where
  ptrs : (ws.map SlabView.ptr).Nodup
  ptr_lt : ∀ w ∈ ws, w.ptr.toNat < s.heap.heapPtr.toNat
  pages : s.pages.Perm (ws.map SlabView.page ++ large)
  pages_nodup : s.pages.Nodup
  large_page : ∀ page ∈ large, IsPage page
  room : heapStart + 48 * ws.length ≤ s.heap.heapPtr.toNat

/- The objects do not matter. -/
theorem Placed.congr
    {ws ws' : List SlabView}
    {large : List Addr}
    (hHeap : s'.heap = s.heap)
    (hPages : s'.pages = s.pages)
    (hPtr : (ws'.map SlabView.ptr).Perm (ws.map SlabView.ptr))
    (hPage :
      (ws'.map SlabView.page).Perm (ws.map SlabView.page))
    (hPlaced : Placed s ws large) :
    Placed s' ws' large where
  ptrs := hPtr.nodup_iff.mpr hPlaced.ptrs
  ptr_lt := by
    intro w' hw'
    have hMem := hPtr.mem_iff.mp (List.mem_map_of_mem hw')
    rcases List.mem_map.mp hMem with ⟨w, hw, hEq⟩
    rw [hHeap, ← hEq]
    exact hPlaced.ptr_lt w hw
  pages := by
    rw [hPages]
    exact hPlaced.pages.trans (hPage.symm.append_right large)
  pages_nodup := by
    rw [hPages]
    exact hPlaced.pages_nodup
  large_page := hPlaced.large_page
  room := by
    have hLen := hPtr.length_eq
    simp only [List.length_map] at hLen
    rw [hLen, hHeap]
    exact hPlaced.room

/-
  What the state represents: the caches created so far, their
  views, and the pages handed out as large blocks.
-/
structure Core
    (s : SlabState)
    (created : List Addr)
    (large : List Addr)
    (V : Addr → CacheView) : Prop where
  created_nodup : created.Nodup
  created_lt : ∀ c ∈ created,
    c.toNat < s.heap.heapPtr.toNat
  caches : ∀ c ∈ created, CacheCore s c (V c)
  placed : Placed s (allSlabs created V) large

namespace Core

variable {s s' : SlabState}
variable {created large : List Addr}
variable {V : Addr → CacheView}
variable {cache d : Addr}
variable {w x : SlabView}

/- Records of different caches are different. -/
theorem ptr_ne
    (hCore : Core s created large V)
    (hCache : cache ∈ created)
    (hd : d ∈ created)
    (hNe : d ≠ cache)
    (hw : w ∈ (V cache).all)
    (hx : x ∈ (V d).all) :
    w.ptr ≠ x.ptr := by
  have hSplit :=
    (@allSlabs_split created V cache hCache
      hCore.created_nodup).map SlabView.ptr
  have hNodup := hSplit.nodup_iff.mp hCore.placed.ptrs
  rw [List.map_append] at hNodup
  have hApart := (List.nodup_append.mp hNodup).2.2
  exact hApart _ (List.mem_map_of_mem hw) _
    (List.mem_map_of_mem (mem_otherSlabs hd hNe hx))

/- The pages of all slabs and the large ones are distinct. -/
theorem pages_nodup
    (hCore : Core s created large V) :
    ((allSlabs created V).map SlabView.page ++ large).Nodup :=
  hCore.placed.pages.nodup_iff.mp hCore.placed.pages_nodup

/- Two slabs on one page are one slab. -/
theorem page_inj
    (hCore : Core s created large V)
    (hw : w ∈ allSlabs created V)
    (hx : x ∈ allSlabs created V)
    (hEq : w.page = x.page) :
    w = x := by
  have hNodup := (List.nodup_append.mp hCore.pages_nodup).1
  exact List.inj_on_of_nodup_map hNodup hw hx hEq

theorem slab_ok
    (hCore : Core s created large V)
    (hCache : cache ∈ created)
    (hw : w ∈ (V cache).all) :
    w.Ok s (s.caches cache).objSize (s.caches cache).numObjs :=
  (hCore.caches cache hCache).stocked.ok w hw

/- Putting a changed cache back among the others. -/
theorem install
    (hCore : Core s created large V)
    (hHeap : s.heap.heapPtr.toNat ≤ s'.heap.heapPtr.toNat)
    (hCaches : ∀ d ∈ created, d ≠ cache →
      s'.caches d = s.caches d)
    (hSlabs : ∀ d ∈ created, d ≠ cache →
      ∀ x ∈ (V d).all, s'.slabs x.ptr = s.slabs x.ptr)
    (hLoads : ∀ d ∈ created, d ≠ cache →
      ∀ x ∈ (V d).all, ∀ o ∈ x.free,
        loadPtr s'.mem o = loadPtr s.mem o)
    (hCache : cache ∈ created)
    (hMine : CacheCore s' cache v)
    (hPlaced :
      Placed s' (v.all ++ otherSlabs created V cache) large) :
    Core s' created large (Function.update V cache v) where
  created_nodup := hCore.created_nodup
  created_lt c hc :=
    Nat.lt_of_lt_of_le (hCore.created_lt c hc) hHeap
  caches := by
    intro d hd
    by_cases hEq : d = cache
    · subst hEq
      rw [Function.update_self]
      exact hMine
    · rw [Function.update_of_ne hEq]
      exact (hCore.caches d hd).congr (hCaches d hd hEq)
        (hSlabs d hd hEq) (hLoads d hd hEq)
  placed := by
    have hPerm :=
      @allSlabs_update created V cache hCache
        hCore.created_nodup v
    exact hPlaced.congr rfl rfl (hPerm.map _) (hPerm.map _)

/- The records and the pages of all slabs, one cache first. -/
theorem placed_split
    (hCore : Core s created large V)
    (hCache : cache ∈ created) :
    Placed s
      ((V cache).all ++ otherSlabs created V cache) large := by
  have hPerm :=
    @allSlabs_split created V cache hCache hCore.created_nodup
  exact hCore.placed.congr rfl rfl (hPerm.map _).symm
    (hPerm.map _).symm

/- A change that keeps the records and the pages. -/
theorem update
    (hCore : Core s created large V)
    (hHeap : s'.heap = s.heap)
    (hPages : s'.pages = s.pages)
    (hCaches : ∀ d, d ≠ cache → s'.caches d = s.caches d)
    (hSlabs : ∀ p, (∀ w ∈ (V cache).all, p ≠ w.ptr) →
      s'.slabs p = s.slabs p)
    (hMem : s'.mem = s.mem)
    (hCache : cache ∈ created)
    (hMine : CacheCore s' cache v)
    (hPtr : (v.all.map SlabView.ptr).Perm
      ((V cache).all.map SlabView.ptr))
    (hPage : (v.all.map SlabView.page).Perm
      ((V cache).all.map SlabView.page)) :
    Core s' created large (Function.update V cache v) := by
  refine hCore.install (by rw [hHeap])
    (fun d _ hd => hCaches d hd) ?_ ?_ hCache hMine ?_
  · intro d hd hNe x hx
    exact hSlabs _ fun w hw =>
      (hCore.ptr_ne hCache hd hNe hw hx).symm
  · intro d _ _ x _ o _
    rw [hMem]
  · refine (hCore.placed_split hCache).congr hHeap hPages ?_ ?_
    · simp only [List.map_append]
      exact hPtr.append_right _
    · simp only [List.map_append]
      exact hPage.append_right _

end Core

end FeatherOS
