import FeatherOS.Slab.Views

/-
  The changes that the slab layer makes, one lemma for each:
  a slab moves between lists, an object moves between free
  and used, bytes outside the free objects change, a slab is
  added or dropped, a cache is added.

  Key definitions include:
    * `Relinks`
    * `Exchanges`

  Key theorems include:
    * `Core.relink`
    * `Core.move`
    * `Core.exchange`
    * `Core.addSlab`
    * `Core.dropSlab`
    * `Core.addCache`
-/

namespace FeatherOS

--------------------
-- Moving Slabs
--------------------

/-
  Links and statistics change in one cache; only the slabs in
  `mine` get another link.
-/
structure Relinks
    (s s' : SlabState)
    (cache : Addr)
    (mine : Addr → Prop) : Prop where
  heap : s'.heap = s.heap
  pages : s'.pages = s.pages
  mem : s'.mem = s.mem
  sizeCaches : s'.sizeCaches = s.sizeCaches
  caches : ∀ d, d ≠ cache → s'.caches d = s.caches d
  core : (s'.caches cache).core = (s.caches cache).core
  stock : ∀ p, (s'.slabs p).stock = (s.slabs p).stock
  slabs : ∀ p, ¬ mine p → s'.slabs p = s.slabs p

variable {list : SlabList}
variable {p cache : Addr}

namespace Relinks

variable {s s' s'' : SlabState}
variable {cache : Addr}
variable {mine : Addr → Prop}

theorem trans
    (hFirst : Relinks s s' cache mine)
    (hSecond : Relinks s' s'' cache mine) :
    Relinks s s'' cache mine where
  heap := hSecond.heap.trans hFirst.heap
  pages := hSecond.pages.trans hFirst.pages
  mem := hSecond.mem.trans hFirst.mem
  sizeCaches := hSecond.sizeCaches.trans hFirst.sizeCaches
  caches d hd :=
    (hSecond.caches d hd).trans (hFirst.caches d hd)
  core := hSecond.core.trans hFirst.core
  stock p := (hSecond.stock p).trans (hFirst.stock p)
  slabs p hp := (hSecond.slabs p hp).trans (hFirst.slabs p hp)

/- A change of the cache record alone. -/
theorem modifyCache
    {f : SlabCache → SlabCache}
    (hCore : ∀ c, (f c).core = c.core) :
    Relinks s (s.modifyCache cache f) cache mine where
  heap := rfl
  pages := rfl
  mem := rfl
  sizeCaches := rfl
  caches d hd := Function.update_of_ne hd _ _
  core := by
    simp only [SlabState.modifyCache, Function.update_self]
    exact hCore _
  stock _ := rfl
  slabs _ _ := rfl

/- A new link of a slab that is ours. -/
theorem modifyNext
    {next : Option Addr}
    (hMine : mine p) :
    Relinks s (s.modifySlab p fun r => { r with next := next })
      cache mine where
  heap := rfl
  pages := rfl
  mem := rfl
  sizeCaches := rfl
  caches _ _ := rfl
  core := rfl
  stock q := by
    by_cases hEq : q = p
    · subst hEq
      simp only [SlabState.modifySlab, Function.update_self]
      rfl
    · simp only [SlabState.modifySlab,
        Function.update_of_ne hEq]
  slabs q hq := by
    have hNe : q ≠ p := by
      rintro rfl
      exact hq hMine
    exact Function.update_of_ne hNe _ _

theorem writeSlot
    {slot : SlabSlot}
    {ptr : Option Addr}
    (hMine : ∀ p, slot = .next p → mine p) :
    Relinks s (s.writeSlot cache slot ptr) cache mine := by
  cases slot with
  | head list =>
      simp only [SlabState.writeSlot]
      refine modifyCache fun c => ?_
      cases list <;> rfl
  | next p => exact modifyNext (hMine p rfl)

theorem pushSlab
    (hMine : mine p) :
    Relinks s (s.pushSlab cache list p) cache mine :=
  (modifyNext hMine).trans (writeSlot (by simp))

theorem countHit :
    Relinks s (s.countHit cache) cache mine := by
  have hCache :
      Relinks s
        (s.modifyCache cache fun c =>
          { c with cacheHits := c.cacheHits + 1#32 })
        cache mine :=
    modifyCache fun _ => rfl
  exact { hCache with }

theorem countMiss :
    Relinks s (s.countMiss cache) cache mine := by
  have hCache :
      Relinks s
        (s.modifyCache cache fun c =>
          { c with cacheMisses := c.cacheMisses + 1#32 })
        cache mine :=
    modifyCache fun _ => rfl
  exact { hCache with }

end Relinks

/- The slot behind some slabs is the link of the last one. -/
theorem slotBehind_eq_next
    {before : List Addr}
    (hSlot : slotBehind (.head list) before = .next p) :
    p ∈ before := by
  rcases List.eq_nil_or_concat before with
    rfl | ⟨before, q, rfl⟩
  · simp at hSlot
  · simp only [List.concat_eq_append, slotBehind_append,
      SlabSlot.next.injEq] at hSlot
    simp [hSlot]

namespace CacheView

variable {v : CacheView}
variable {list list' : SlabList}
variable {after : List SlabView}
variable {w : SlabView}

/- A slab and the rest of its cache. -/
theorem all_split
    (list : SlabList)
    (v : CacheView)
    (before after : List SlabView) :
    ∃ rest, ∀ middle : List SlabView,
      (all (Function.update v list
        (before ++ middle ++ after))).Perm (middle ++ rest) := by
  cases list with
  | slabsFull =>
      refine ⟨before ++ after ++ v .slabsPartial ++
        v .slabsEmpty, fun middle => ?_⟩
      simp only [all, Function.update_self, ne_eq,
        reduceCtorEq, not_false_eq_true,
        Function.update_of_ne, List.append_assoc]
      exact List.perm_append_comm_assoc _ _ _
  | slabsPartial =>
      refine ⟨v .slabsFull ++ before ++ after ++
        v .slabsEmpty, fun middle => ?_⟩
      simp only [all, Function.update_self, ne_eq,
        reduceCtorEq, not_false_eq_true,
        Function.update_of_ne, List.append_assoc]
      refine (List.Perm.append_left _
        (List.perm_append_comm_assoc _ _ _)).trans ?_
      exact List.perm_append_comm_assoc _ _ _
  | slabsEmpty =>
      refine ⟨v .slabsFull ++ v .slabsPartial ++ before ++
        after, fun middle => ?_⟩
      simp only [all, Function.update_self, ne_eq,
        reduceCtorEq, not_false_eq_true,
        Function.update_of_ne, List.append_assoc]
      refine (List.Perm.append_left _ (List.Perm.append_left _
        (List.perm_append_comm_assoc _ _ _))).trans ?_
      refine (List.Perm.append_left _
        (List.perm_append_comm_assoc _ _ _)).trans ?_
      exact List.perm_append_comm_assoc _ _ _

/- A slab in front of a list. -/
theorem all_push :
    (all (Function.update v list (w :: v list))).Perm
      (w :: v.all) := by
  rcases all_split list v [] (v list) with ⟨rest, hRest⟩
  have hOld := hRest []
  simp only [List.nil_append, Function.update_eq_self] at hOld
  exact (hRest [w]).trans (hOld.symm.cons w)

/- The views after a slab has moved to another list. -/
def move
    (v : CacheView)
    (list list' : SlabList)
    (w : SlabView)
    (rest : List SlabView) :
    CacheView :=
  let v := Function.update v list rest
  Function.update v list' (w :: v list')

theorem all_move
    (before : List SlabView)
    (hList : v list = before ++ w :: after) :
    (v.move list list' w (before ++ after)).all.Perm v.all := by
  rcases all_split list v before after with ⟨rest, hRest⟩
  have hOld := hRest [w]
  have hOut := hRest []
  simp only [List.append_nil, List.nil_append,
    List.append_assoc, List.singleton_append] at hOld hOut
  rw [← hList, Function.update_eq_self] at hOld
  exact all_push.trans ((hOut.cons w).trans hOld.symm)

theorem ptrs_update
    {ws : List SlabView} :
    CacheView.ptrs (Function.update v list ws) =
      Function.update v.ptrs list (ws.map SlabView.ptr) := by
  funext list'
  unfold ptrs
  by_cases hEq : list' = list
  · subst hEq
    simp
  · simp [Function.update_of_ne hEq]

end CacheView

variable {w : SlabView}
variable {after rest : List SlabView}

section Moves

variable {s s' : SlabState}
variable {created large : List Addr}
variable {V : Addr → CacheView}
variable {cache : Addr}
variable {v : CacheView}

theorem Core.relink
    (hCore : Core s created large V)
    (hCache : cache ∈ created)
    (hRelinks : Relinks s s' cache
      fun p => ∃ w ∈ (V cache).all, p = w.ptr)
    (hLinked : Linked s' cache v.ptrs)
    (hPerm : v.all.Perm (V cache).all) :
    Core s' created large (Function.update V cache v) := by
  have hMine := hCore.caches cache hCache
  refine hCore.update hRelinks.heap hRelinks.pages
    hRelinks.caches ?_ hRelinks.mem hCache ?_
    (hPerm.map _) (hPerm.map _)
  · intro p hp
    refine hRelinks.slabs p ?_
    rintro ⟨w, hw, rfl⟩
    exact hp w hw rfl
  · refine ⟨hMine.shape.congr hRelinks.core, hLinked, ?_⟩
    refine (hMine.stocked.congr hRelinks.core
      (fun w _ => hRelinks.stock w.ptr) ?_).perm hPerm
    intro w _ o _
    rw [hRelinks.mem]

/- Only statistics change. -/
theorem Core.count
    (hCore : Core s created large V)
    (hCache : cache ∈ created)
    (hRelinks : Relinks s s' cache fun _ => False)
    (hHead : ∀ list,
      (s'.caches cache).head list =
        (s.caches cache).head list) :
    Core s' created large V := by
  have hLinked :
      Linked s' cache (V cache).ptrs := by
    refine (hCore.caches cache hCache).linked.congr hHead ?_
    intro list p _
    rw [hRelinks.slabs p (by simp)]
  have hMoved :=
    @Core.relink s s' created large V cache (V cache) hCore
      hCache { hRelinks with
        slabs := fun p _ => hRelinks.slabs p (by simp) }
      hLinked (List.Perm.refl _)
  rwa [Function.update_eq_self] at hMoved

/- A slab moves to the front of another list. -/
theorem Core.move
    (list' : SlabList)
    (before : List SlabView)
    (hCore : Core s created large V)
    (hCache : cache ∈ created)
    (hList : V cache list = before ++ w :: after) :
    Core
      ((s.writeSlot cache
          (slotBehind (.head list) (before.map SlabView.ptr))
          (s.slabs w.ptr).next).pushSlab cache list' w.ptr)
      created large
      (Function.update V cache
        ((V cache).move list list' w (before ++ after))) := by
  have hMine := hCore.caches cache hCache
  have hPtrs :
      (V cache).ptrs list =
        before.map SlabView.ptr ++
          w.ptr :: after.map SlabView.ptr := by
    simp [CacheView.ptrs, hList]
  have hIn : ∀ x ∈ before ++ [w], x ∈ (V cache).all := by
    intro x hx
    refine CacheView.mem_all list ?_
    rw [hList]
    simp only [List.mem_append, List.mem_cons,
      List.not_mem_nil, or_false] at hx ⊢
    tauto
  refine hCore.relink hCache ?_ ?_ (CacheView.all_move before hList)
  · refine .trans (.writeSlot fun p hp => ?_) (.pushSlab ?_)
    · rcases List.mem_map.mp (slotBehind_eq_next hp) with
        ⟨x, hx, rfl⟩
      exact ⟨x, hIn x (by simp [hx]), rfl⟩
    · exact ⟨w, hIn w (by simp), rfl⟩
  · have hUnlinked := hMine.linked.unlink hPtrs
    have hNodup := hMine.linked.nodup list
    have hOut : ∀ list₂,
        w.ptr ∉ Function.update (V cache).ptrs list
          (before.map SlabView.ptr ++
            after.map SlabView.ptr) list₂ := by
      intro list₂ hMem
      by_cases hEq : list₂ = list
      · subst hEq
        rw [Function.update_self] at hMem
        rw [hPtrs] at hNodup
        exact (List.nodup_middle.mp hNodup).notMem hMem
      · rw [Function.update_of_ne hEq] at hMem
        refine hMine.linked.apart list₂ list hEq hMem ?_
        rw [hPtrs]
        simp
    have hPushed := hUnlinked.push list' hOut
    unfold CacheView.move
    rw [CacheView.ptrs_update, CacheView.ptrs_update,
      List.map_append, List.map_cons]
    convert hPushed using 2
    by_cases hEq : list' = list
    · subst hEq
      simp
    · simp [Function.update_of_ne hEq, CacheView.ptrs]

end Moves

--------------------
-- Objects Between Free And Used
--------------------

/- One slab gets another free list. -/
structure Exchanges
    (s s' : SlabState)
    (cache slab : Addr)
    (freeList : Option Addr)
    (numFree numObjsFree : U32) : Prop where
  heap : s'.heap = s.heap
  pages : s'.pages = s.pages
  mem : s'.mem = s.mem
  sizeCaches : s'.sizeCaches = s.sizeCaches
  caches : ∀ d, d ≠ cache → s'.caches d = s.caches d
  core :
    (s'.caches cache).core =
      { (s.caches cache).core with numObjsFree := numObjsFree }
  head : ∀ list,
    (s'.caches cache).head list = (s.caches cache).head list
  record :
    s'.slabs slab =
      { s.slabs slab with
        freeList := freeList
        numFree := numFree }
  slabs : ∀ p, p ≠ slab → s'.slabs p = s.slabs p

theorem popObject_exchanges
    (s : SlabState)
    (cache slab obj : Addr) :
    Exchanges s (s.popObject cache slab obj) cache slab
      (loadPtr s.mem obj) ((s.slabs slab).numFree - 1#32)
      ((s.caches cache).numObjsFree - 1#32) where
  heap := rfl
  pages := rfl
  mem := rfl
  sizeCaches := rfl
  caches d hd := by
    simp [SlabState.popObject, SlabState.countHit,
      SlabState.modifyStats, SlabState.modifyCache,
      SlabState.modifySlab, Function.update_of_ne hd]
  core := by
    simp only [SlabState.popObject, SlabState.countHit,
      SlabState.modifyStats, SlabState.modifyCache,
      SlabState.modifySlab, Function.update_self]
    rfl
  head list := by
    simp only [SlabState.popObject, SlabState.countHit,
      SlabState.modifyStats, SlabState.modifyCache,
      SlabState.modifySlab, Function.update_self]
    cases list <;> rfl
  record := Function.update_self _ _ _
  slabs p hp := Function.update_of_ne hp _ _

/- The bytes that `slab_free` leaves. -/
def SlabState.freedMem
    (s : SlabState)
    (cache slab obj : Addr) :
    ByteMemory :=
  storePtr
    (runHook s.mem (s.caches cache).dtor obj
      (s.caches cache).objSize)
    obj (s.slabs slab).freeList

theorem pushObject_exchanges
    (s : SlabState)
    (cache slab obj : Addr) :
    Exchanges
      { s with mem := s.freedMem cache slab obj }
      (s.pushObject cache slab obj) cache slab
      (some obj) ((s.slabs slab).numFree + 1#32)
      ((s.caches cache).numObjsFree + 1#32) where
  heap := rfl
  pages := rfl
  mem := rfl
  sizeCaches := rfl
  caches d hd := by
    simp [SlabState.pushObject, SlabState.modifyStats,
      SlabState.modifyCache, SlabState.modifySlab,
      Function.update_of_ne hd]
  core := by
    simp only [SlabState.pushObject, SlabState.modifyStats,
      SlabState.modifyCache, SlabState.modifySlab,
      Function.update_self]
    rfl
  head list := by
    simp only [SlabState.pushObject, SlabState.modifyStats,
      SlabState.modifyCache, SlabState.modifySlab,
      Function.update_self]
    cases list <;> rfl
  record := Function.update_self _ _ _
  slabs p hp := Function.update_of_ne hp _ _

namespace CacheView

variable {v : CacheView}
variable {list : SlabList}
variable {after : List SlabView}
variable {w : SlabView}

/- The slabs of a cache beside one of them. -/
theorem all_replace
    (before : List SlabView)
    (hList : v list = before ++ w :: after) :
    ∃ rest, v.all.Perm (w :: rest) ∧
      ∀ w', (all (Function.update v list
        (before ++ w' :: after))).Perm (w' :: rest) := by
  rcases all_split list v before after with ⟨rest, hRest⟩
  have hOld := hRest [w]
  simp only [List.append_assoc, List.singleton_append] at hOld
  rw [← hList, Function.update_eq_self] at hOld
  refine ⟨rest, hOld, fun w' => ?_⟩
  have hNew := hRest [w']
  simp only [List.append_assoc, List.singleton_append] at hNew
  exact hNew

/- Replacing a slab by one with the same record. -/
theorem ptrs_replace
    {before : List SlabView}
    {w' : SlabView}
    (hList : v list = before ++ w :: after)
    (hPtr : w'.ptr = w.ptr) :
    CacheView.ptrs (Function.update v list
      (before ++ w' :: after)) = v.ptrs := by
  rw [ptrs_update, List.map_append, List.map_cons, hPtr]
  have hOld :
      v.ptrs list =
        before.map SlabView.ptr ++
          w.ptr :: after.map SlabView.ptr := by
    simp [ptrs, hList]
  rw [← hOld, Function.update_eq_self]

end CacheView

variable {s s' : SlabState}
variable {freeList : Option Addr}
variable {numFree numObjsFree : U32}

/- The slabs of a cache after one of them has changed. -/
theorem Stocked.exchange
    {w w' : SlabView}
    (hExchanges : Exchanges s s' cache w.ptr freeList numFree
      numObjsFree)
    (hStocked : Stocked s cache (w :: rest))
    (hNe : ∀ x ∈ rest, x.ptr ≠ w.ptr)
    (hPtr : w'.ptr = w.ptr)
    (hPage : w'.page = w.page)
    (hChain : Chain (loadPtr s.mem) freeList w'.free)
    (hNum : numFree = BitVec.ofNat 32 w'.free.length)
    (hObjs : (w'.free ++ w'.used).Perm (w.free ++ w.used))
    (hFree :
      numObjsFree + BitVec.ofNat 32 w.free.length =
        (s.caches cache).numObjsFree +
          BitVec.ofNat 32 w'.free.length) :
    Stocked s' cache (w' :: rest) := by
  have hCore := hExchanges.core
  simp only [SlabCache.core, SlabCache.mk.injEq] at hCore
  rcases hCore with
    ⟨hSize, hObjNum, _, _, _, _, _, _, hSlabs, hTotal, hNumFree,
      _⟩
  have hOk := hStocked.ok w (by simp)
  refine ⟨?_, ?_, ?_, ?_⟩
  · intro x hx
    rw [hSize, hObjNum]
    rcases List.mem_cons.mp hx with rfl | hx
    · refine ⟨?_, ?_, ?_, ?_, ?_, ?_⟩
      · rw [hPtr, hExchanges.record, hPage]
        exact hOk.page_eq
      · rw [hPage]
        exact hOk.isPage
      · rw [hPtr, hExchanges.record]
        exact hOk.numObjs_eq
      · rw [hPtr, hExchanges.record]
        exact hNum
      · rw [hPtr, hExchanges.record, hExchanges.mem]
        exact hChain
      · rw [hPage]
        exact hObjs.trans hOk.objs
    · refine (hStocked.ok x (by simp [hx])).congr ?_ ?_
      · rw [hExchanges.slabs x.ptr (hNe x hx)]
      · intro o _
        rw [hExchanges.mem]
  · rw [hSlabs]
    exact hStocked.numSlabs_eq
  · rw [hTotal, hObjNum]
    exact hStocked.total_eq
  · have hSum := hStocked.free_eq
    simp only [List.map_cons, List.sum_cons,
      BitVec.ofNat_add] at hSum ⊢
    rw [hNumFree]
    grind

variable {created large : List Addr}
variable {V : Addr → CacheView}

/- Objects of one slab change sides. -/
theorem Core.exchange
    (before : List SlabView)
    (w' : SlabView)
    (hCore : Core s created large V)
    (hCache : cache ∈ created)
    (hList : V cache list = before ++ w :: after)
    (hExchanges : Exchanges s s' cache w.ptr freeList numFree
      numObjsFree)
    (hPtr : w'.ptr = w.ptr)
    (hPage : w'.page = w.page)
    (hChain : Chain (loadPtr s.mem) freeList w'.free)
    (hNum : numFree = BitVec.ofNat 32 w'.free.length)
    (hObjs : (w'.free ++ w'.used).Perm (w.free ++ w.used))
    (hFree :
      numObjsFree + BitVec.ofNat 32 w.free.length =
        (s.caches cache).numObjsFree +
          BitVec.ofNat 32 w'.free.length) :
    Core s' created large
      (Function.update V cache
        (Function.update (V cache) list
          (before ++ w' :: after))) := by
  have hMine := hCore.caches cache hCache
  rcases CacheView.all_replace before hList with
    ⟨rest, hOld, hReplace⟩
  have hNew := hReplace w'
  have hw : w ∈ (V cache).all :=
    hOld.mem_iff.mpr (by simp)
  refine hCore.update hExchanges.heap hExchanges.pages
    hExchanges.caches ?_ hExchanges.mem hCache ?_ ?_ ?_
  · exact fun p hp => hExchanges.slabs p (hp w hw)
  · refine ⟨?_, ?_, ?_⟩
    · exact hMine.shape.of_core hExchanges.core
    · rw [CacheView.ptrs_replace hList hPtr]
      refine hMine.linked.congr hExchanges.head ?_
      intro list₂ p _
      by_cases hEq : p = w.ptr
      · rw [hEq, hExchanges.record]
      · rw [hExchanges.slabs p hEq]
    · refine Stocked.perm hNew (Stocked.exchange hExchanges
        (hMine.stocked.perm hOld.symm) ?_ hPtr hPage hChain hNum
        hObjs hFree)
      intro x hx hEq
      have hNodup :=
        ((@allSlabs_split created V cache hCache
          hCore.created_nodup).map
            SlabView.ptr).nodup_iff.mp hCore.placed.ptrs
      rw [List.map_append] at hNodup
      have hAll := (List.nodup_append.mp hNodup).1
      rw [(hOld.map SlabView.ptr).nodup_iff, List.map_cons,
        List.nodup_cons] at hAll
      exact hAll.1 (hEq ▸ List.mem_map_of_mem hx)
  · refine (hNew.map _).trans (.trans ?_ (hOld.map _).symm)
    simp [hPtr]
  · refine (hNew.map _).trans (.trans ?_ (hOld.map _).symm)
    simp [hPage]

--------------------
-- Bytes Outside The Free Objects
--------------------

section Bytes

variable {s : SlabState}
variable {created large : List Addr}
variable {V : Addr → CacheView}
variable {cache : Addr}
variable {w x : SlabView}
variable {o f a : Addr}

theorem objRoom_ge
    {objSize : U32}
    (hSize : 8 ≤ objSize.toNat) :
    8 ≤ objRoom objSize := by
  unfold objRoom
  omega

/- Objects lie in the page of their slab. -/
theorem Core.obj_inside
    (hCore : Core s created large V)
    (hCache : cache ∈ created)
    (hw : w ∈ (V cache).all)
    (ho : o ∈ w.free ++ w.used) :
    w.page.toNat + 48 ≤ o.toNat ∧
      o.toNat + objRoom (s.caches cache).objSize ≤
        w.page.toNat + 4096 := by
  have hOk := hCore.slab_ok hCache hw
  exact slabObjs_inside hOk.isPage
    (hCore.caches cache hCache).shape.numObjs_eq
    (hOk.objs.mem_iff.mp ho)

/- The word of a free object lies in the page of its slab. -/
theorem Core.free_inside
    (hCore : Core s created large V)
    (hx : x ∈ allSlabs created V)
    (hf : f ∈ x.free) :
    IsPage x.page ∧ x.page.toNat ≤ f.toNat ∧
      f.toNat + 8 ≤ x.page.toNat + 4096 := by
  rcases List.mem_flatMap.mp hx with ⟨d, hd, hx⟩
  have hInside :=
    hCore.obj_inside hd hx (List.mem_append_left _ hf)
  have hGe := objRoom_ge (hCore.caches d hd).shape.size_ge
  exact ⟨(hCore.slab_ok hd hx).isPage, by omega, by omega⟩

/- The large pages may be listed in any order. -/
theorem Core.large_perm
    {large' : List Addr}
    (hCore : Core s created large V)
    (hPerm : large.Perm large') :
    Core s created large' V where
  created_nodup := hCore.created_nodup
  created_lt := hCore.created_lt
  caches := hCore.caches
  placed :=
    { hCore.placed with
      pages :=
        hCore.placed.pages.trans (hPerm.append_left _)
      large_page := fun page hPage =>
        hCore.placed.large_page page
          (hPerm.mem_iff.mpr hPage) }

/- The rest of the kernel uses up some of the heap. -/
theorem Core.growHeap
    {heap : Heap}
    (hCore : Core s created large V)
    (hLe : s.heap.heapPtr.toNat ≤ heap.heapPtr.toNat) :
    Core { s with heap := heap } created large V where
  created_nodup := hCore.created_nodup
  created_lt c hc :=
    Nat.lt_of_lt_of_le (hCore.created_lt c hc) hLe
  caches d hd :=
    CacheCore.congr (s := s) rfl (fun _ _ => rfl)
      (fun _ _ _ _ => rfl) (hCore.caches d hd)
  placed :=
    { ptrs := hCore.placed.ptrs
      ptr_lt := fun w hw =>
        Nat.lt_of_lt_of_le (hCore.placed.ptr_lt w hw) hLe
      pages := hCore.placed.pages
      pages_nodup := hCore.placed.pages_nodup
      large_page := hCore.placed.large_page
      room := Nat.le_trans hCore.placed.room hLe }

variable {page : Addr}

/- A page handed out as a large block. -/
theorem Core.addPage
    (hCore : Core s created large V)
    (hPage : IsPage page)
    (hFresh : page ∉ s.pages) :
    Core { s with pages := page :: s.pages } created
      (page :: large) V where
  created_nodup := hCore.created_nodup
  created_lt := hCore.created_lt
  caches d hd :=
    CacheCore.congr (s := s) rfl (fun _ _ => rfl)
      (fun _ _ _ _ => rfl) (hCore.caches d hd)
  placed :=
    { ptrs := hCore.placed.ptrs
      ptr_lt := hCore.placed.ptr_lt
      pages :=
        (hCore.placed.pages.cons page).trans
          List.perm_middle.symm
      pages_nodup :=
        List.nodup_cons.mpr ⟨hFresh, hCore.placed.pages_nodup⟩
      large_page :=
        List.forall_mem_cons.mpr
          ⟨hPage, hCore.placed.large_page⟩
      room := hCore.placed.room }

/- A large block given back. -/
theorem Core.dropPage
    (hCore : Core s created (page :: large) V) :
    Core (slabFreePage s page) created large V where
  created_nodup := hCore.created_nodup
  created_lt := hCore.created_lt
  caches d hd :=
    CacheCore.congr (s := s) rfl (fun _ _ => rfl)
      (fun _ _ _ _ => rfl) (hCore.caches d hd)
  placed :=
    { ptrs := hCore.placed.ptrs
      ptr_lt := hCore.placed.ptr_lt
      pages := by
        have hPages :=
          hCore.placed.pages.trans List.perm_middle
        refine (hPages.erase page).trans ?_
        rw [List.erase_cons_head]
      pages_nodup := hCore.placed.pages_nodup.erase page
      large_page := fun p hp =>
        hCore.placed.large_page p (by simp [hp])
      room := hCore.placed.room }

variable {mem : ByteMemory}

/- A memory with the same links represents the same. -/
theorem Core.rewrite
    (hCore : Core s created large V)
    (hLoads : ∀ x ∈ allSlabs created V, ∀ o ∈ x.free,
      loadPtr mem o = loadPtr s.mem o) :
    Core { s with mem := mem } created large V where
  created_nodup := hCore.created_nodup
  created_lt := hCore.created_lt
  caches d hd :=
    CacheCore.congr (s := s) rfl (fun _ _ => rfl)
      (fun x hx => hLoads x (mem_allSlabs hd hx))
      (hCore.caches d hd)
  placed :=
    Placed.congr (s := s) rfl rfl (List.Perm.refl _)
      (List.Perm.refl _) hCore.placed

variable {n : Nat}
variable {bytes : Nat → U8}

theorem loadPtr_patch
    (hFit : a.toNat + n ≤ 2 ^ 64)
    (hFitWord : f.toNat + 8 ≤ 2 ^ 64)
    (hApart : f.toNat + 8 ≤ a.toNat ∨
      a.toNat + n ≤ f.toNat) :
    loadPtr (mem.patch a n bytes) f = loadPtr mem f := by
  unfold loadPtr
  rw [ByteMemory.load_patch hFit hFitWord hApart]

/- Bytes of a page that no slab owns. -/
theorem Core.patch_page
    (hCore : Core s created large V)
    (hPage : IsPage page)
    (hOther : ∀ x ∈ allSlabs created V, x.page ≠ page)
    (hFrom : page.toNat ≤ a.toNat)
    (hTo : a.toNat + n ≤ page.toNat + 4096) :
    Core { s with mem := s.mem.patch a n bytes }
      created large V := by
  refine hCore.rewrite fun x hx f hf => ?_
  rcases hCore.free_inside hx hf with ⟨hIs, hLow, hHigh⟩
  have hFits := hPage.fits
  have hFits' := hIs.fits
  have hPages := hIs.apart hPage (hOther x hx)
  exact loadPtr_patch (by omega) (by omega) (by omega)

/- Bytes of an object in use. -/
theorem Core.patch_used
    (hCore : Core s created large V)
    (hCache : cache ∈ created)
    (hw : w ∈ (V cache).all)
    (ho : o ∈ w.used)
    (hFrom : o.toNat ≤ a.toNat)
    (hTo : a.toNat + n ≤
      o.toNat + objRoom (s.caches cache).objSize) :
    Core { s with mem := s.mem.patch a n bytes }
      created large V := by
  refine hCore.rewrite fun x hx f hf => ?_
  rcases hCore.free_inside hx hf with ⟨hIs, hLow, hHigh⟩
  have hOk := hCore.slab_ok hCache hw
  have hShape := (hCore.caches cache hCache).shape
  have hInside :=
    hCore.obj_inside hCache hw (List.mem_append_right _ ho)
  have hFits := hOk.isPage.fits
  have hFits' := hIs.fits
  by_cases hPage : x.page = w.page
  · -- Objects of one slab are `obj_size` bytes apart.
    have hSame :=
      hCore.page_inj hx (mem_allSlabs hCache hw) hPage
    subst hSame
    have hNodup :=
      hOk.objs.nodup_iff.mpr
        (nodup_slabObjs hOk.isPage hShape.numObjs_eq
          (by have hGe := hShape.size_ge; omega))
    have hNe : f ≠ o :=
      (List.nodup_append.mp hNodup).2.2 f hf o ho
    have hApart :=
      slabObjs_apart hOk.isPage hShape.numObjs_eq
        (hOk.objs.mem_iff.mp (List.mem_append_left _ hf))
        (hOk.objs.mem_iff.mp (List.mem_append_right _ ho)) hNe
    have hGe := hShape.size_ge
    have hRoom :
        objRoom (s.caches cache).objSize ≤
          (s.caches cache).objSize.toNat :=
      Nat.min_le_left _ _
    exact loadPtr_patch (by omega) (by omega) (by omega)
  · have hPages := hIs.apart hOk.isPage hPage
    exact loadPtr_patch (by omega) (by omega) (by omega)

/- A constructor or a destructor runs on an object in use. -/
theorem Core.hook
    {hook : Option ObjHook}
    (hCore : Core s created large V)
    (hCache : cache ∈ created)
    (hw : w ∈ (V cache).all)
    (ho : o ∈ w.used)
    (hSmall :
      (s.caches cache).objSize.toNat ≤ 4048 ∨ hook = none) :
    Core
      { s with
        mem := runHook s.mem hook o (s.caches cache).objSize }
      created large V := by
  cases hook with
  | none => exact hCore
  | some effect =>
      have hRoom :
          objRoom (s.caches cache).objSize =
            (s.caches cache).objSize.toNat := by
        unfold objRoom
        simp only [reduceCtorEq, or_false] at hSmall
        omega
      exact hCore.patch_used hCache hw ho (Nat.le_refl _)
        (by omega)

end Bytes

--------------------
-- Adding A Slab
--------------------

/- A slab whose objects are all free. -/
def newSlab
    (ptr page : Addr)
    (c : SlabCache) :
    SlabView where
  ptr := ptr
  page := page
  free := slabObjs page c.objSize c.numObjs
  used := []

/- The effect of a `slab_create` that succeeds. -/
structure AddsSlab
    (s s' : SlabState)
    (cache page : Addr) : Prop where
  heapPtr :
    s'.heap.heapPtr.toNat = s.heap.heapPtr.toNat + 48
  pages : s'.pages = page :: s.pages
  list :
    ((s'.slabs s.heap.heapPtr).freeList, s'.mem) =
      buildFreeList (s.caches cache).objSize
        (s.caches cache).numObjs.toNat .head
        (page + sizeofSlab) (none, s.mem)
  page_eq : (s'.slabs s.heap.heapPtr).page = page
  numObjs_eq :
    (s'.slabs s.heap.heapPtr).numObjs =
      (s.caches cache).numObjs
  numFree_eq :
    (s'.slabs s.heap.heapPtr).numFree =
      (s.caches cache).numObjs
  slabs : ∀ p, p ≠ s.heap.heapPtr → s'.slabs p = s.slabs p
  sizeCaches : s'.sizeCaches = s.sizeCaches
  caches : ∀ d, d ≠ cache → s'.caches d = s.caches d
  core :
    (s'.caches cache).core =
      { (s.caches cache).core with
        numSlabs := (s.caches cache).numSlabs + 1#32
        numObjsTotal :=
          (s.caches cache).numObjsTotal +
            (s.caches cache).numObjs
        numObjsFree :=
          (s.caches cache).numObjsFree +
            (s.caches cache).numObjs }
  head : ∀ list,
    (s'.caches cache).head list = (s.caches cache).head list

/- `slab_create` fails and changes nothing, or adds a slab. -/
theorem slabCreate_cases
    (s : SlabState)
    (cache page : Addr) :
    (slabCreate s cache page = (none, s) ∧
        (page = 0#64 ∨ s.heap.heapLeft.toNat < 48)) ∨
      (page ≠ 0#64 ∧ 48 ≤ s.heap.heapLeft.toNat ∧ ∃ s',
        slabCreate s cache page =
            (some s.heap.heapPtr, s') ∧
          AddsSlab s s' cache page ∧
          s'.heap.heapLeft.toNat =
            s.heap.heapLeft.toNat - 48) := by
  by_cases hZero : page = 0#64
  · refine Or.inl ⟨?_, Or.inl hZero⟩
    simp [slabCreate, slabAllocPage, hZero]
  have hSize : sizeofSlab.toNat = 48 := rfl
  rcases @kmalloc_record s.heap sizeofSlab (by decide)
      (by decide) with
    ⟨hLeft, hNone⟩ | ⟨hLeft, heap, hSome, hLeft', hPtr⟩
  · refine Or.inl ⟨?_, Or.inr (by omega)⟩
    simp [slabCreate, slabAllocPage, hZero, hNone, slabFreePage]
  · refine Or.inr ⟨hZero, by omega, ?_⟩
    simp only [slabCreate, slabAllocPage, hZero, if_false,
      hSome]
    refine ⟨_, rfl, ?_, hLeft'⟩
    refine ⟨by rw [hSize] at hPtr; exact hPtr, rfl, ?_, ?_, ?_,
      ?_, ?_, rfl, ?_, ?_, ?_⟩
    · simp [SlabState.countSlab, SlabState.modifyStats,
        SlabState.modifyCache]
    · simp [SlabState.countSlab, SlabState.modifyStats,
        SlabState.modifyCache]
    · simp [SlabState.countSlab, SlabState.modifyStats,
        SlabState.modifyCache]
    · simp [SlabState.countSlab, SlabState.modifyStats,
        SlabState.modifyCache]
    · intro p hp
      exact Function.update_of_ne hp _ _
    · intro d hd
      exact Function.update_of_ne hd _ _
    · simp only [SlabState.countSlab, SlabState.modifyStats,
        SlabState.modifyCache, Function.update_self]
      rfl
    · intro list
      simp only [SlabState.countSlab, SlabState.modifyStats,
        SlabState.modifyCache, Function.update_self]
      cases list <;> rfl

section AddSlab

variable {s s' : SlabState}
variable {created large : List Addr}
variable {V : Addr → CacheView}
variable {cache page : Addr}

/- Only bytes of the new page are written. -/
theorem AddsSlab.mem_outside
    {b : Addr}
    (hAdds : AddsSlab s s' cache page)
    (hShape : (s.caches cache).Ok)
    (hPage : IsPage page)
    (hOut : b.toNat < page.toNat ∨
      page.toNat + 4096 ≤ b.toNat) :
    s'.mem b = s.mem b := by
  have hMem := congrArg Prod.snd hAdds.list
  simp only at hMem
  rw [hMem]
  refine @buildFreeList_outside _ _ page.toNat
    (page.toNat + 4096) _ _ _ _ ?_ (by simp) hPage.fits hOut
  intro o ho
  have hInside :=
    slabObjs_inside hPage hShape.numObjs_eq ho
  have hGe := objRoom_ge hShape.size_ge
  omega

/- The links of the other slabs are not written. -/
theorem AddsSlab.loadPtr_eq
    {x : SlabView}
    {f : Addr}
    (hAdds : AddsSlab s s' cache page)
    (hCore : Core s created large V)
    (hCache : cache ∈ created)
    (hPage : IsPage page)
    (hFresh : page ∉ s.pages)
    (hx : x ∈ allSlabs created V)
    (hf : f ∈ x.free) :
    loadPtr s'.mem f = loadPtr s.mem f := by
  have hShape := (hCore.caches cache hCache).shape
  rcases hCore.free_inside hx hf with ⟨hIs, hLow, hHigh⟩
  have hFits := hIs.fits
  have hNe : x.page ≠ page := by
    rintro rfl
    refine hFresh (hCore.placed.pages.mem_iff.mpr ?_)
    exact List.mem_append_left _ (List.mem_map_of_mem hx)
  have hPages := hIs.apart hPage hNe
  have hLoad : s'.mem.load f = s.mem.load f := by
    refine ByteMemory.load_congr fun i hi => ?_
    have hByte :
        (f + BitVec.ofNat 64 i).toNat = f.toNat + i := by
      rw [BitVec.toNat_add, BitVec.toNat_ofNat]
      omega
    exact hAdds.mem_outside hShape hPage (by omega)
  unfold loadPtr
  rw [hLoad]

/- The new slab, once it is on a list. -/
theorem AddsSlab.slab_ok
    (hAdds : AddsSlab s s' cache page)
    (hShape : (s.caches cache).Ok)
    (hPage : IsPage page) :
    (newSlab s.heap.heapPtr page (s.caches cache)).Ok s'
      (s.caches cache).objSize (s.caches cache).numObjs where
  page_eq := hAdds.page_eq
  isPage := hPage
  numObjs_eq := hAdds.numObjs_eq
  numFree_eq := by
    rw [newSlab, length_slabObjs, hAdds.numFree_eq]
    simp
  chain := by
    have hList := congrArg Prod.fst hAdds.list
    have hMem := congrArg Prod.snd hAdds.list
    simp only at hList hMem
    rw [newSlab, hList, hMem]
    refine buildFreeList_chain ?_ ?_
    · refine List.Pairwise.imp ?_
        (pairwise_slabObjs hPage hShape.numObjs_eq)
      intro a b hLe
      have hGe := hShape.size_ge
      omega
    · intro o ho
      have hInside :=
        slabObjs_inside hPage hShape.numObjs_eq ho
      have hGe := objRoom_ge hShape.size_ge
      have hFits := hPage.fits
      omega
  objs := by simp [newSlab]

theorem Core.addSlab
    (hCore : Core s created large V)
    (hCache : cache ∈ created)
    (hPage : IsPage page)
    (hFresh : page ∉ s.pages)
    (hAdds : AddsSlab s s' cache page) :
    Core (s'.pushSlab cache .slabsPartial s.heap.heapPtr)
      created large
      (Function.update V cache
        (Function.update (V cache) .slabsPartial
          (newSlab s.heap.heapPtr page (s.caches cache) ::
            V cache .slabsPartial))) := by
  have hMine := hCore.caches cache hCache
  have hBelow : ∀ x ∈ allSlabs created V,
      x.ptr ≠ s.heap.heapPtr := by
    intro x hx hEq
    have hLt := hCore.placed.ptr_lt x hx
    rw [hEq] at hLt
    omega
  have hRelinks :
      Relinks s' (s'.pushSlab cache .slabsPartial
        s.heap.heapPtr) cache
        fun p => p = s.heap.heapPtr :=
    .pushSlab rfl
  have hPerm :=
    @CacheView.all_push (V cache) .slabsPartial
      (newSlab s.heap.heapPtr page (s.caches cache))
  refine hCore.install ?_ ?_ ?_ ?_ hCache ?_ ?_
  · rw [hRelinks.heap, hAdds.heapPtr]
    omega
  · intro d _ hd
    rw [hRelinks.caches d hd, hAdds.caches d hd]
  · intro d hd _ x hx
    have hNe := hBelow x (mem_allSlabs hd hx)
    rw [hRelinks.slabs _ hNe, hAdds.slabs _ hNe]
  · intro d hd _ x hx o ho
    rw [hRelinks.mem]
    exact hAdds.loadPtr_eq hCore hCache hPage hFresh
      (mem_allSlabs hd hx) ho
  · refine ⟨?_, ?_, ?_⟩
    · exact (hMine.shape.of_core hAdds.core).congr hRelinks.core
    · have hOld : Linked s' cache (V cache).ptrs := by
        refine hMine.linked.congr hAdds.head ?_
        intro list p hp
        rcases List.mem_map.mp hp with ⟨x, hx, rfl⟩
        rw [hAdds.slabs _ (hBelow x (mem_allSlabs hCache
          (CacheView.mem_all list hx)))]
      rw [CacheView.ptrs_update]
      refine hOld.push .slabsPartial fun list hp => ?_
      rcases List.mem_map.mp hp with ⟨x, hx, hEq⟩
      exact hBelow x (mem_allSlabs hCache
        (CacheView.mem_all list hx)) hEq
    · refine Stocked.perm hPerm (Stocked.congr hRelinks.core
        (fun w _ => hRelinks.stock w.ptr)
        (fun w _ o _ => by rw [hRelinks.mem]) ?_)
      have hCounts := hAdds.core
      simp only [SlabCache.core, SlabCache.mk.injEq] at hCounts
      have hStocked := hMine.stocked
      refine ⟨?_, ?_, ?_, ?_⟩
      · intro w hw
        rw [hCounts.1, hCounts.2.1]
        rcases List.mem_cons.mp hw with rfl | hw
        · exact hAdds.slab_ok hMine.shape hPage
        · have hIn := mem_allSlabs hCache hw
          refine (hStocked.ok w hw).congr ?_ ?_
          · rw [hAdds.slabs _ (hBelow w hIn)]
          · intro o ho
            exact hAdds.loadPtr_eq hCore hCache hPage hFresh
              hIn ho
      · simp [hCounts, hStocked.numSlabs_eq, BitVec.ofNat_add]
      · simp [hCounts, hStocked.total_eq, BitVec.ofNat_add,
          Nat.succ_mul]
      · simp [hCounts, hStocked.free_eq, BitVec.ofNat_add,
          newSlab, BitVec.add_comm]
  · have hOld := hCore.placed_split hCache
    have hBase :
        Placed (s'.pushSlab cache .slabsPartial s.heap.heapPtr)
          (newSlab s.heap.heapPtr page (s.caches cache) ::
            ((V cache).all ++ otherSlabs created V cache))
          large := by
      refine ⟨?_, ?_, ?_, ?_, hOld.large_page, ?_⟩
      · rw [List.map_cons, List.nodup_cons]
        refine ⟨?_, hOld.ptrs⟩
        intro hMem
        rcases List.mem_map.mp hMem with ⟨x, hx, hEq⟩
        have hLt := hOld.ptr_lt x hx
        rw [hEq] at hLt
        simp [newSlab] at hLt
      · intro x hx
        rw [hRelinks.heap, hAdds.heapPtr]
        rcases List.mem_cons.mp hx with rfl | hx
        · simp [newSlab]
        · have hLt := hOld.ptr_lt x hx
          omega
      · rw [hRelinks.pages, hAdds.pages, List.map_cons,
          List.cons_append]
        exact hOld.pages.cons page
      · rw [hRelinks.pages, hAdds.pages]
        exact List.nodup_cons.mpr ⟨hFresh, hOld.pages_nodup⟩
      · rw [hRelinks.heap, hAdds.heapPtr, List.length_cons]
        have hRoom := hOld.room
        omega
    refine hBase.congr rfl rfl ?_ ?_
    · exact (hPerm.append_right _).map _
    · exact (hPerm.append_right _).map _

end AddSlab

--------------------
-- Dropping A Slab
--------------------

/- The cache record after its first empty slab is dropped. -/
theorem dropSlab_core
    (s : SlabState)
    (cache slab : Addr) :
    ((s.dropSlab cache slab).caches cache).core =
      { (s.caches cache).core with
        numSlabs := (s.caches cache).numSlabs - 1#32
        numObjsTotal :=
          (s.caches cache).numObjsTotal -
            (s.slabs slab).numObjs
        numObjsFree :=
          (s.caches cache).numObjsFree -
            (s.slabs slab).numFree } := by
  simp only [SlabState.dropSlab, SlabState.modifyStats,
    SlabState.modifyCache, SlabState.writeSlot, slabFreePage,
    Function.update_self]
  rfl

theorem dropSlab_caches
    {cache slab d : Addr}
    (hNe : d ≠ cache) :
    (s.dropSlab cache slab).caches d = s.caches d := by
  simp [SlabState.dropSlab, SlabState.modifyStats,
    SlabState.modifyCache, SlabState.writeSlot, slabFreePage,
    Function.update_of_ne hNe]

theorem dropSlab_head
    (s : SlabState)
    (cache slab : Addr)
    (list : SlabList) :
    ((s.dropSlab cache slab).caches cache).head list =
      ((s.writeSlot cache (.head .slabsEmpty)
        (s.slabs slab).next).caches cache).head list := by
  simp only [SlabState.dropSlab, SlabState.modifyStats,
    SlabState.modifyCache, SlabState.writeSlot, slabFreePage,
    Function.update_self]
  cases list <;> rfl

theorem Core.dropSlab
    (hCore : Core s created large V)
    (hCache : cache ∈ created)
    (hList : V cache .slabsEmpty = w :: rest) :
    Core (s.dropSlab cache w.ptr) created large
      (Function.update V cache
        (Function.update (V cache) .slabsEmpty rest)) := by
  have hMine := hCore.caches cache hCache
  rcases CacheView.all_split .slabsEmpty (V cache) [] rest with
    ⟨others, hSplit⟩
  have hOld := hSplit [w]
  have hNew := hSplit []
  simp only [List.nil_append, List.singleton_append] at hOld hNew
  rw [← hList, Function.update_eq_self] at hOld
  have hStocked := hMine.stocked.perm hOld.symm
  have hw := hStocked.ok w (by simp)
  refine hCore.install (Nat.le_refl _)
    (fun d _ hd => dropSlab_caches hd) (fun _ _ _ _ _ => rfl)
    (fun _ _ _ _ _ _ _ => rfl) hCache ?_ ?_
  · refine ⟨hMine.shape.of_core (dropSlab_core _ _ _), ?_, ?_⟩
    · have hPtrs :
          (V cache).ptrs .slabsEmpty =
            [] ++ w.ptr :: rest.map SlabView.ptr := by
        simp [CacheView.ptrs, hList]
      rw [CacheView.ptrs_update]
      refine (hMine.linked.unlink hPtrs).congr ?_ ?_
      · exact dropSlab_head s cache w.ptr
      · intro list p _
        rfl
    · refine Stocked.perm hNew ?_
      have hCounts := dropSlab_core s cache w.ptr
      simp only [SlabCache.core, SlabCache.mk.injEq] at hCounts
      refine ⟨?_, ?_, ?_, ?_⟩
      · intro x hx
        rw [hCounts.1, hCounts.2.1]
        exact SlabView.Ok.congr (s := s) rfl (fun _ _ => rfl)
          (hStocked.ok x (by simp [hx]))
      · have hEq := hStocked.numSlabs_eq
        rw [List.length_cons, BitVec.ofNat_add] at hEq
        simp only [hCounts]
        grind
      · have hEq := hStocked.total_eq
        rw [List.length_cons, Nat.succ_mul,
          BitVec.ofNat_add] at hEq
        simp only [hCounts, hw.numObjs_eq]
        simp only [BitVec.ofNat_toNat, BitVec.setWidth_eq] at hEq
        grind
      · have hEq := hStocked.free_eq
        rw [List.map_cons, List.sum_cons,
          BitVec.ofNat_add] at hEq
        simp only [hCounts, hw.numFree_eq]
        grind
  · have hPlaced := hCore.placed_split hCache
    have hFirst :
        Placed s (w :: (others ++
          otherSlabs created V cache)) large :=
      hPlaced.congr rfl rfl
        ((hOld.symm.append_right _).map _)
        ((hOld.symm.append_right _).map _)
    have hPages :
        (s.dropSlab cache w.ptr).pages =
          s.pages.erase w.page := by
      rw [← hw.page_eq]
      rfl
    have hRest :
        Placed (s.dropSlab cache w.ptr)
          (others ++ otherSlabs created V cache) large := by
      refine ⟨(List.nodup_cons.mp hFirst.ptrs).2, ?_, ?_, ?_,
        hFirst.large_page, ?_⟩
      · intro x hx
        exact hFirst.ptr_lt x (by simp [hx])
      · rw [hPages]
        refine (hFirst.pages.erase w.page).trans ?_
        simp
      · rw [hPages]
        exact hFirst.pages_nodup.erase _
      · have hRoom := hFirst.room
        rw [List.length_cons] at hRoom
        have hHeap :
            (s.dropSlab cache w.ptr).heap = s.heap := rfl
        rw [hHeap]
        omega
    exact hRest.congr rfl rfl
      ((hNew.append_right _).map _)
      ((hNew.append_right _).map _)

--------------------
-- Adding A Cache
--------------------

/- The record of a new cache. -/
def newCache
    (objSize align : U64)
    (flags : U32)
    (ctor dtor : Option ObjHook)
    (id : U32) :
    SlabCache :=
  let align := if 0#64 < align then align else 8#64
  { SlabCache.zero with
    objSize := objSize.setWidth 32
    align := align.setWidth 32
    flags := flags
    ctor := ctor
    dtor := dtor
    pageSize := slabPageSize
    numObjs :=
      calcNumObjs (objSize.setWidth 32) slabPageSize
        (align.setWidth 32)
    initialized := true
    id := id }

/- The effect of a `slab_cache_create` that succeeds. -/
structure AddsCache
    (s s' : SlabState)
    (record : SlabCache) : Prop where
  heapPtr :
    s'.heap.heapPtr.toNat = s.heap.heapPtr.toNat + 112
  heapLeft :
    s'.heap.heapLeft.toNat = s.heap.heapLeft.toNat - 112
  pages : s'.pages = s.pages
  mem : s'.mem = s.mem
  slabs : s'.slabs = s.slabs
  caches :
    s'.caches =
      Function.update s.caches s.heap.heapPtr record

/- `slab_cache_create` changes nothing or adds a cache. -/
theorem slabCacheCreate_cases
    (s : SlabState)
    (objSize align : U64)
    (flags : U32)
    (ctor dtor : Option ObjHook) :
    (s.heap.heapLeft.toNat < 112 ∧
        slabCacheCreate s objSize align flags ctor dtor =
          (none, s)) ∨
      (112 ≤ s.heap.heapLeft.toNat ∧ ∃ s',
        slabCacheCreate s objSize align flags ctor dtor =
            (some s.heap.heapPtr, s') ∧
          AddsCache s s'
            (newCache objSize align flags ctor dtor
              s.cacheIdCounter) ∧
          s'.sizeCaches = s.sizeCaches ∧
          s'.slabInitialized = s.slabInitialized) := by
  have hSize : sizeofSlabCache.toNat = 112 := rfl
  rcases @kmalloc_record s.heap sizeofSlabCache (by decide)
      (by decide) with
    ⟨hLeft, hNone⟩ | ⟨hLeft, heap, hSome, hLeft', hPtr⟩
  · refine Or.inl ⟨by omega, ?_⟩
    simp [slabCacheCreate, hNone]
  · refine Or.inr ⟨by omega, ?_⟩
    simp only [slabCacheCreate, hSome]
    rw [hSize] at hLeft' hPtr
    exact ⟨_, rfl, ⟨hPtr, hLeft', rfl, rfl, rfl, rfl⟩, rfl,
      rfl⟩

/- A cache without slabs. -/
def CacheView.nil : CacheView :=
  fun _ => []

theorem Core.addCache
    {objSize align : U64}
    {flags id : U32}
    {ctor dtor : Option ObjHook}
    (hCore : Core s created large V)
    (hAdds : AddsCache s s'
      (newCache objSize align flags ctor dtor id))
    (hSize : 8 ≤ (objSize.setWidth 32).toNat)
    (hHooks : (objSize.setWidth 32).toNat ≤ 4048 ∨
      ctor = none ∧ dtor = none) :
    Core s' (s.heap.heapPtr :: created) large
      (Function.update V s.heap.heapPtr CacheView.nil) := by
  have hNew : s.heap.heapPtr ∉ created := by
    intro hIn
    have hLt := hCore.created_lt _ hIn
    omega
  have hHeap := hAdds.heapPtr
  have hNe : ∀ d ∈ created, d ≠ s.heap.heapPtr := by
    rintro d hd rfl
    exact hNew hd
  refine ⟨List.nodup_cons.mpr ⟨hNew, hCore.created_nodup⟩,
    ?_, ?_, ?_⟩
  · intro c hc
    rcases List.mem_cons.mp hc with rfl | hc
    · omega
    · have hLt := hCore.created_lt c hc
      omega
  · intro c hc
    rcases List.mem_cons.mp hc with rfl | hc
    · have hRecord :
          s'.caches s.heap.heapPtr =
            newCache objSize align flags ctor dtor id := by
        rw [hAdds.caches, Function.update_self]
      rw [Function.update_self]
      refine ⟨?_, ⟨?_, ?_, ?_⟩, ⟨?_, ?_, ?_, ?_⟩⟩
      · rw [hRecord]
        exact ⟨hSize, rfl, rfl, rfl, hHooks⟩
      · intro list
        rw [hRecord]
        cases list <;> rfl
      · intro list
        exact List.nodup_nil
      · intro list list' _
        exact List.disjoint_nil_left _
      · intro w hw
        simp [CacheView.all, CacheView.nil] at hw
      · rw [hRecord]
        rfl
      · rw [hRecord]
        simp [CacheView.all, CacheView.nil, newCache,
          SlabCache.zero]
      · rw [hRecord]
        rfl
    · rw [Function.update_of_ne (hNe c hc)]
      refine (hCore.caches c hc).congr ?_ ?_ ?_
      · rw [hAdds.caches, Function.update_of_ne (hNe c hc)]
      · intro w _
        rw [hAdds.slabs]
      · intro w _ o _
        rw [hAdds.mem]
  · have hSlabs :
        allSlabs (s.heap.heapPtr :: created)
            (Function.update V s.heap.heapPtr CacheView.nil) =
          allSlabs created V := by
      unfold allSlabs
      rw [List.flatMap_cons, Function.update_self]
      refine (List.nil_append _).trans ?_
      refine List.flatMap_congr fun c hc => ?_
      rw [Function.update_of_ne (hNe c hc)]
    have hPlaced := hCore.placed
    rw [hSlabs]
    refine ⟨hPlaced.ptrs, ?_, ?_, ?_, hPlaced.large_page, ?_⟩
    · intro w hw
      have hLt := hPlaced.ptr_lt w hw
      omega
    · rw [hAdds.pages]
      exact hPlaced.pages
    · rw [hAdds.pages]
      exact hPlaced.pages_nodup
    · have hRoom := hPlaced.room
      omega

end FeatherOS
