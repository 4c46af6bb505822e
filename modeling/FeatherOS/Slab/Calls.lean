import FeatherOS.Slab.Changes

/-
  What `slab_alloc`, `slab_free` and `slab_shrink` do to the
  views of a cache.

  Each of them returns, keeps the views true to the state and
  keeps every slab on the list it belongs to.

  Key definitions include:
    * `Sorted`
    * `Busy`
    * `SlabState.Keeps`

  Key theorems include:
    * `slabAlloc_spec`
    * `slabFree_spec`
    * `shrinkLoop_spec`
-/

namespace FeatherOS

--------------------
-- Which Slab Is On Which List
--------------------

/- Full, partly used and unused slabs are told apart. -/
structure Sorted (v : CacheView) : Prop where
  full : ∀ w ∈ v .slabsFull, w.free = []
  partly : ∀ w ∈ v .slabsPartial, w.free ≠ []
  empty : ∀ w ∈ v .slabsEmpty, w.used = []

/- No slab on the partial list is unused. -/
def Busy (v : CacheView) : Prop :=
  ∀ w ∈ v .slabsPartial, w.used ≠ []

/- What a call on one cache leaves alone. -/
structure SlabState.Keeps (s s' : SlabState) : Prop where
  sizeCaches : s'.sizeCaches = s.sizeCaches
  objSize : ∀ d, (s'.caches d).objSize = (s.caches d).objSize
  heapLeft :
    s'.heap.heapLeft.toNat ≤ s.heap.heapLeft.toNat

namespace SlabState.Keeps

variable {s s' s'' : SlabState}
variable {cache : Addr}

theorem trans
    (hFirst : s.Keeps s')
    (hSecond : s'.Keeps s'') :
    s.Keeps s'' where
  sizeCaches := hSecond.sizeCaches.trans hFirst.sizeCaches
  objSize d := (hSecond.objSize d).trans (hFirst.objSize d)
  heapLeft := hSecond.heapLeft.trans hFirst.heapLeft

theorem of_caches
    (hHeap : s'.heap = s.heap)
    (hSizes : s'.sizeCaches = s.sizeCaches)
    (hCaches : ∀ d, d ≠ cache → s'.caches d = s.caches d)
    (hSize :
      (s'.caches cache).objSize = (s.caches cache).objSize) :
    s.Keeps s' where
  sizeCaches := hSizes
  objSize d := by
    by_cases hEq : d = cache
    · rw [hEq, hSize]
    · rw [hCaches d hEq]
  heapLeft := by rw [hHeap]

theorem of_relinks
    (hRelinks : Relinks s s' cache fun _ => True) :
    s.Keeps s' :=
  of_caches hRelinks.heap hRelinks.sizeCaches hRelinks.caches
    (SlabCache.core_sizes hRelinks.core).1

theorem of_exchanges
    {slab : Addr}
    {freeList : Option Addr}
    {numFree numObjsFree : U32}
    (hExchanges : Exchanges s s' cache slab freeList numFree
      numObjsFree) :
    s.Keeps s' := by
  refine of_caches hExchanges.heap hExchanges.sizeCaches
    hExchanges.caches ?_
  have hCore := hExchanges.core
  simp only [SlabCache.core, SlabCache.mk.injEq] at hCore
  exact hCore.1

theorem pushObject
    (s : SlabState)
    (cache slab o : Addr) :
    s.Keeps (s.pushObject cache slab o) := by
  have hRest :=
    of_exchanges (pushObject_exchanges s cache slab o)
  exact ⟨hRest.sizeCaches, hRest.objSize, hRest.heapLeft⟩

/- The same where the slab goes to another list. -/
theorem pushObject_moved
    (s : SlabState)
    (cache slab o : Addr)
    (slot : SlabSlot)
    (ptr : Option Addr)
    (list : SlabList) :
    s.Keeps
      (((s.pushObject cache slab o).writeSlot cache slot
          ptr).pushSlab cache list slab) := by
  refine (pushObject s cache slab o).trans ?_
  refine @of_relinks _ _ cache ?_
  exact (Relinks.writeSlot (by simp)).trans (.pushSlab trivial)

theorem dropSlab
    {slab : Addr} :
    s.Keeps (s.dropSlab cache slab) := by
  refine @of_caches s _ cache rfl rfl
    (fun d hd => dropSlab_caches hd) ?_
  have hCore := dropSlab_core s cache slab
  simp only [SlabCache.core, SlabCache.mk.injEq] at hCore
  exact hCore.1

end SlabState.Keeps

--------------------
-- Views And Heads
--------------------

variable {w : SlabView}
variable {v : CacheView}
variable {ws : List SlabView}

section Heads

variable {s : SlabState}
variable {cache : Addr}
variable {v : CacheView}

theorem Linked.head_eq
    (list : SlabList)
    (hLinked : Linked s cache v.ptrs) :
    (s.caches cache).head list =
      (v list).head?.map SlabView.ptr := by
  have hHead := (hLinked.chain list).head_eq
  simpa [CacheView.ptrs] using hHead

theorem CacheView.used_perm
    (hPerm : v.all.Perm ws) :
    v.used.Perm (ws.flatMap SlabView.used) :=
  hPerm.flatMap_right _

/- A slab that a cache holds is on one of its lists. -/
theorem CacheView.exists_list
    (hw : w ∈ v.all) :
    ∃ list, w ∈ v list := by
  unfold CacheView.all at hw
  rcases List.mem_append.mp hw with hw | hw
  · rcases List.mem_append.mp hw with hw | hw
    · exact ⟨_, hw⟩
    · exact ⟨_, hw⟩
  · exact ⟨_, hw⟩

end Heads

section Calls

variable {s : SlabState}
variable {created large : List Addr}
variable {V : Addr → CacheView}
variable {cache : Addr}

/- No slab has more objects than fit the counter. -/
theorem Core.length_lt
    (hCore : Core s created large V)
    (hCache : cache ∈ created)
    (hw : w ∈ (V cache).all) :
    w.free.length + w.used.length =
        (s.caches cache).numObjs.toNat ∧
      w.free.length + w.used.length < 2 ^ 32 := by
  have hLen := (hCore.slab_ok hCache hw).objs.length_eq
  rw [List.length_append, length_slabObjs] at hLen
  have hLt := (s.caches cache).numObjs.isLt
  omega

--------------------
-- slab_alloc
--------------------

variable {rest after : List SlabView}

/- A slab without free objects goes to the full list. -/
theorem moveIfFull_spec
    (hCore : Core s created large V)
    (hCache : cache ∈ created)
    (hList : V cache .slabsPartial = w :: rest)
    (hFull : ∀ x ∈ V cache .slabsFull, x.free = [])
    (hPartly : ∀ x ∈ rest, x.free ≠ [])
    (hEmpty : ∀ x ∈ V cache .slabsEmpty, x.used = []) :
    ∃ s' v,
      (if (s.slabs w.ptr).numFree = 0#32 then
        (s.writeSlot cache (.head .slabsPartial)
            (s.slabs w.ptr).next).pushSlab
          cache .slabsFull w.ptr
      else s) = s' ∧
        Core s' created large (Function.update V cache v) ∧
        Sorted v ∧ (∀ x ∈ v .slabsPartial, x ∈ w :: rest) ∧
        v.all.Perm (V cache).all ∧ s.Keeps s' := by
  have hw : w ∈ (V cache).all := by
    refine CacheView.mem_all .slabsPartial ?_
    rw [hList]
    simp
  have hNum := (hCore.slab_ok hCache hw).numFree_eq
  have hLen := (hCore.length_lt hCache hw).2
  by_cases hNil : w.free = []
  · have hZero : (s.slabs w.ptr).numFree = 0#32 := by
      rw [hNum, hNil]
      rfl
    rw [if_pos hZero]
    refine ⟨_, _, rfl,
      hCore.move .slabsFull [] hCache
        hList, ?_, ?_, CacheView.all_move [] hList,
      .of_relinks
        ((Relinks.writeSlot (by simp)).trans
          (.pushSlab trivial))⟩
    · refine ⟨?_, ?_, ?_⟩
      · intro x hx
        simp only [CacheView.move, Function.update_self, ne_eq,
          reduceCtorEq, not_false_eq_true,
          Function.update_of_ne, List.mem_cons] at hx
        rcases hx with rfl | hx
        · exact hNil
        · exact hFull x hx
      · intro x hx
        exact hPartly x (by simpa [CacheView.move] using hx)
      · intro x hx
        exact hEmpty x (by simpa [CacheView.move] using hx)
    · intro x hx
      refine List.mem_cons_of_mem _ ?_
      simpa [CacheView.move] using hx
  · have hZero : (s.slabs w.ptr).numFree ≠ 0#32 := by
      have hPos := List.length_pos_iff.mpr hNil
      rw [hNum]
      intro hEq
      have hNat := congrArg BitVec.toNat hEq
      simp only [BitVec.toNat_ofNat] at hNat
      omega
    rw [if_neg hZero]
    refine ⟨s, V cache, rfl, ?_, ⟨hFull, ?_, hEmpty⟩, ?_,
      List.Perm.refl _, ⟨rfl, fun _ => rfl, Nat.le_refl _⟩⟩
    · rwa [Function.update_eq_self]
    · rw [hList]
      exact List.forall_mem_cons.mpr ⟨hNil, hPartly⟩
    · rw [hList]
      exact fun x hx => hx

/- The first partial slab gives an object away. -/
theorem allocPartial_spec
    (hCore : Core s created large V)
    (hSorted : Sorted (V cache))
    (hCache : cache ∈ created)
    (hList : V cache .slabsPartial = w :: rest) :
    ∃ o s' v,
      s.allocPartial cache w.ptr = some (some o, s') ∧
        Core s' created large (Function.update V cache v) ∧
        Sorted v ∧ ((∀ x ∈ rest, x.used ≠ []) → Busy v) ∧
        v.used.Perm (o :: (V cache).used) ∧
        s.Keeps s' := by
  have hPartly := hSorted.partly
  rw [hList, List.forall_mem_cons] at hPartly
  rcases List.exists_cons_of_ne_nil hPartly.1 with
    ⟨o, fs, hFree⟩
  have hw : w ∈ (V cache).all := by
    refine CacheView.mem_all .slabsPartial ?_
    rw [hList]
    simp
  have hOk := hCore.slab_ok hCache hw
  have hChain := hOk.chain
  rw [hFree] at hChain
  have hPop := popObject_exchanges s cache w.ptr o
  let w' : SlabView :=
    { w with
      free := fs
      used := o :: w.used }
  have hPopped :=
    hCore.exchange [] w' hCache hList hPop
      rfl rfl hChain.2
      (by
        rw [hOk.numFree_eq, hFree, List.length_cons,
          BitVec.ofNat_add]
        grind)
      (by
        rw [hFree]
        exact List.perm_middle)
      (by
        rw [hFree, List.length_cons, BitVec.ofNat_add]
        grind)
  simp only [List.nil_append] at hPopped
  rcases CacheView.all_replace [] hList with
    ⟨others, hOld, hReplace⟩
  have hNew := hReplace w'
  simp only [List.nil_append] at hNew
  have hList' :
      Function.update V cache
          (Function.update (V cache) .slabsPartial
            (w' :: rest)) cache .slabsPartial =
        w' :: rest := by
    simp
  rcases moveIfFull_spec hPopped hCache hList'
      (by simpa using hSorted.full) hPartly.2
      (by simpa using hSorted.empty) with
    ⟨s', v, hMoved, hCore', hSorted', hSub, hPerm, hKeeps⟩
  rw [Function.update_self] at hPerm
  rw [Function.update_idem] at hCore'
  have hIn : w' ∈ (Function.update V cache v cache).all := by
    rw [Function.update_self]
    exact (hPerm.trans hNew).mem_iff.mpr (by simp)
  have hHooks := (hCore'.caches cache hCache).shape.hooks
  refine ⟨o,
    { s' with
      mem :=
        runHook s'.mem (s'.caches cache).ctor o
          (s'.caches cache).objSize },
    v, ?_, ?_, hSorted', ?_, ?_, ?_⟩
  · rw [← hMoved]
    simp only [SlabState.allocPartial, hChain.1]
    rfl
  · exact hCore'.hook hCache hIn (by simp [w'])
      (hHooks.imp_right And.left)
  · intro hRest x hx
    rcases List.mem_cons.mp (hSub x hx) with rfl | hx
    · simp [w']
    · exact hRest x hx
  · refine (CacheView.used_perm (hPerm.trans hNew)).trans ?_
    simp only [List.flatMap_cons, w', List.cons_append]
    refine List.Perm.cons o ?_
    exact (CacheView.used_perm hOld).symm
  · refine ((SlabState.Keeps.of_exchanges hPop).trans
      hKeeps).trans ?_
    exact ⟨rfl, fun _ => rfl, Nat.le_refl _⟩

/- What `physical_alloc_page` may answer with. -/
def PageAnswer
    (s : SlabState)
    (page : U64) : Prop :=
  page = 0#64 ∨ IsPage page ∧ page ∉ s.pages

/- A result of `slab_alloc` as the object it adds. -/
theorem slabAlloc_of_partly
    (page : U64)
    (fuel : Nat)
    (hCore : Core s created large V)
    (hSorted : Sorted (V cache))
    (hCache : cache ∈ created)
    (hList : V cache .slabsPartial = w :: rest) :
    ∃ o s' v,
      slabAlloc page (fuel + 1) s (some cache) =
          some (some o, s') ∧
        Core s' created large (Function.update V cache v) ∧
        Sorted v ∧ ((∀ x ∈ rest, x.used ≠ []) → Busy v) ∧
        v.used.Perm (o :: (V cache).used) ∧
        s.Keeps s' := by
  have hMine := hCore.caches cache hCache
  have hHead : (s.caches cache).slabsPartial = some w.ptr := by
    have hEq := hMine.linked.head_eq .slabsPartial
    rw [hList] at hEq
    exact hEq
  rcases allocPartial_spec hCore hSorted hCache hList with
    ⟨o, s', v, hAlloc, hRest⟩
  refine ⟨o, s', v, ?_, hRest⟩
  simp only [slabAlloc, hMine.shape.initialized_eq, if_true,
    hHead, hAlloc]

/- A cache has room for an object in every slab. -/
theorem Core.free_ne_nil
    (hCore : Core s created large V)
    (hCache : cache ∈ created)
    (hw : w ∈ (V cache).all)
    (hUsed : w.used = []) :
    w.free ≠ [] := by
  intro hFree
  have hLen := (hCore.length_lt hCache hw).1
  have hNum := (hCore.caches cache hCache).shape.numObjs_eq
  have hPos :=
    calcNumObjs_toNat (s.caches cache).objSize
      (s.caches cache).align
  rw [← hNum] at hPos
  rw [hFree, hUsed, List.length_nil] at hLen
  omega

theorem countHit_head
    (s : SlabState)
    (cache : Addr)
    (list : SlabList) :
    ((s.countHit cache).caches cache).head list =
      (s.caches cache).head list := by
  simp only [SlabState.countHit, SlabState.modifyStats,
    SlabState.modifyCache, Function.update_self]
  cases list <;> rfl

theorem countMiss_head
    (s : SlabState)
    (cache : Addr)
    (list : SlabList) :
    ((s.countMiss cache).caches cache).head list =
      (s.caches cache).head list := by
  simp only [SlabState.countMiss, SlabState.modifyStats,
    SlabState.modifyCache, Function.update_self]
  cases list <;> rfl

/- No partial slab: an empty one is taken. -/
theorem slabAlloc_of_empty
    (page : U64)
    (hCore : Core s created large V)
    (hSorted : Sorted (V cache))
    (hCache : cache ∈ created)
    (hPartly : V cache .slabsPartial = [])
    (hList : V cache .slabsEmpty = w :: rest) :
    ∃ o s' v,
      slabAlloc page 2 s (some cache) = some (some o, s') ∧
        Core s' created large (Function.update V cache v) ∧
        Sorted v ∧ Busy v ∧
        v.used.Perm (o :: (V cache).used) ∧
        s.Keeps s' := by
  have hMine := hCore.caches cache hCache
  have hNone : (s.caches cache).slabsPartial = none := by
    have hEq := hMine.linked.head_eq .slabsPartial
    rw [hPartly] at hEq
    exact hEq
  have hSome : (s.caches cache).slabsEmpty = some w.ptr := by
    have hEq := hMine.linked.head_eq .slabsEmpty
    rw [hList] at hEq
    exact hEq
  have hw : w ∈ (V cache).all := by
    refine CacheView.mem_all .slabsEmpty ?_
    rw [hList]
    simp
  have hMoved :=
    hCore.move .slabsPartial [] hCache hList
  have hCounted :=
    hMoved.count hCache (@Relinks.countHit _ cache _)
      (countHit_head _ cache)
  have hEmpty := hSorted.empty
  rw [hList, List.forall_mem_cons] at hEmpty
  have hSorted' :
      Sorted
        ((V cache).move .slabsEmpty .slabsPartial w rest) := by
    refine ⟨?_, ?_, ?_⟩
    · simpa [CacheView.move] using hSorted.full
    · simp only [CacheView.move, Function.update_self, ne_eq,
        reduceCtorEq, not_false_eq_true,
        Function.update_of_ne, hPartly, List.mem_singleton]
      rintro x rfl
      exact hCore.free_ne_nil hCache hw hEmpty.1
    · simpa [CacheView.move] using hEmpty.2
  have hList' :
      Function.update V cache
          ((V cache).move .slabsEmpty .slabsPartial w rest)
          cache .slabsPartial = [w] := by
    simp [CacheView.move, hPartly]
  rcases slabAlloc_of_partly page 0 hCounted
      (by simpa using hSorted') hCache hList' with
    ⟨o, s', v, hAlloc, hCore', hSorted'', hBusy, hUsed,
      hKeeps⟩
  rw [Function.update_idem] at hCore'
  rw [Function.update_self] at hUsed
  refine ⟨o, s', v, ?_, hCore', hSorted'', hBusy (by simp),
    ?_, ?_⟩
  · rw [← hAlloc]
    simp only [slabAlloc, hMine.shape.initialized_eq, if_true,
      hNone, hSome]
    rfl
  · refine hUsed.trans (List.Perm.cons o ?_)
    exact CacheView.used_perm
      (CacheView.all_move [] hList)
  · refine SlabState.Keeps.trans ?_ hKeeps
    refine @SlabState.Keeps.of_relinks s _ cache ?_
    exact ((Relinks.writeSlot (by simp)).trans
      (.pushSlab trivial)).trans .countHit

variable {page : U64}

/- No partial and no empty slab: a new one is made. -/
theorem slabAlloc_of_none
    (hCore : Core s created large V)
    (hSorted : Sorted (V cache))
    (hCache : cache ∈ created)
    (hPage : PageAnswer s page)
    (hPartly : V cache .slabsPartial = [])
    (hList : V cache .slabsEmpty = []) :
    ∃ obj s' v,
      slabAlloc page 2 s (some cache) = some (obj, s') ∧
        Core s' created large (Function.update V cache v) ∧
        Sorted v ∧ (Busy (V cache) → Busy v) ∧
        v.used.Perm (obj.toList ++ (V cache).used) ∧
        s.Keeps s' ∧
        (obj = none →
          page = 0#64 ∨ s.heap.heapLeft.toNat < 48) := by
  have hMine := hCore.caches cache hCache
  have hInit := hMine.shape.initialized_eq
  have hNone : (s.caches cache).slabsPartial = none := by
    have hEq := hMine.linked.head_eq .slabsPartial
    rw [hPartly] at hEq
    exact hEq
  have hNone' : (s.caches cache).slabsEmpty = none := by
    have hEq := hMine.linked.head_eq .slabsEmpty
    rw [hList] at hEq
    exact hEq
  rcases slabCreate_cases s cache page with
    ⟨hFail, hWhy⟩ | ⟨hZero, _, s₁, hMade, hAdds, hLeft⟩
  · refine ⟨none, s.countMiss cache, V cache, ?_, ?_, hSorted,
      id, List.Perm.refl _, .of_relinks .countMiss,
      fun _ => hWhy⟩
    · simp only [slabAlloc, hInit, if_true, hNone, hNone',
        hFail]
    · rw [Function.update_eq_self]
      exact hCore.count hCache .countMiss (countMiss_head s cache)
  · rcases hPage with hZero' | ⟨hIs, hFresh⟩
    · exact absurd hZero' hZero
    have hAdded := hCore.addSlab hCache hIs hFresh hAdds
    have hCounted :=
      hAdded.count hCache (@Relinks.countHit _ cache _)
        (countHit_head _ cache)
    have hNew :
        newSlab s.heap.heapPtr page (s.caches cache) ∈
          (Function.update V cache
            (Function.update (V cache) .slabsPartial
              (newSlab s.heap.heapPtr page (s.caches cache) ::
                V cache .slabsPartial)) cache).all := by
      rw [Function.update_self]
      exact CacheView.mem_all .slabsPartial (by simp)
    have hFree := hAdded.free_ne_nil hCache hNew rfl
    have hSorted' :
        Sorted (Function.update (V cache) .slabsPartial
          (newSlab s.heap.heapPtr page (s.caches cache) ::
            V cache .slabsPartial)) := by
      refine ⟨?_, ?_, ?_⟩
      · simpa using hSorted.full
      · simpa [hPartly] using hFree
      · simpa using hSorted.empty
    have hList' :
        Function.update V cache
            (Function.update (V cache) .slabsPartial
              (newSlab s.heap.heapPtr page (s.caches cache) ::
                V cache .slabsPartial)) cache .slabsPartial =
          [newSlab s.heap.heapPtr page (s.caches cache)] := by
      simp [hPartly]
    rcases slabAlloc_of_partly page 0 hCounted
        (by simpa using hSorted') hCache hList' with
      ⟨o, s', v, hAlloc, hCore', hSorted'', hBusy, hUsed,
        hKeeps⟩
    rw [Function.update_idem] at hCore'
    rw [Function.update_self] at hUsed
    refine ⟨some o, s', v, ?_, hCore', hSorted'',
      fun _ => hBusy (by simp), ?_, ?_, by simp⟩
    · rw [← hAlloc]
      simp only [slabAlloc, hInit, if_true, hNone, hNone',
        hMade]
    · refine hUsed.trans (List.Perm.cons o ?_)
      refine (CacheView.used_perm CacheView.all_push).trans ?_
      simp [newSlab, CacheView.used]
    · refine .trans ?_ (.trans
        (.of_relinks
          ((Relinks.pushSlab trivial).trans .countHit)) hKeeps)
      refine ⟨hAdds.sizeCaches, ?_, by omega⟩
      intro d
      by_cases hEq : d = cache
      · have hSizes := hAdds.core
        simp only [SlabCache.core, SlabCache.mk.injEq] at hSizes
        rw [hEq]
        exact hSizes.1
      · rw [hAdds.caches d hEq]

/-
  The call returns. It either fails and leaves the objects
  alone, or returns an object that was free.
-/
theorem slabAlloc_spec
    (hCore : Core s created large V)
    (hSorted : Sorted (V cache))
    (hCache : cache ∈ created)
    (hPage : PageAnswer s page) :
    ∃ obj s' v,
      slabAlloc page 2 s (some cache) = some (obj, s') ∧
        Core s' created large (Function.update V cache v) ∧
        Sorted v ∧ (Busy (V cache) → Busy v) ∧
        v.used.Perm (obj.toList ++ (V cache).used) ∧
        s.Keeps s' ∧
        (obj = none →
          page = 0#64 ∨ s.heap.heapLeft.toNat < 48) := by
  cases hPartly : V cache .slabsPartial with
  | cons w rest =>
      rcases slabAlloc_of_partly page 1 hCore hSorted hCache
          hPartly with
        ⟨o, s', v, hAlloc, hCore', hSorted', hBusy, hUsed,
          hKeeps⟩
      refine ⟨some o, s', v, hAlloc, hCore', hSorted', ?_,
        hUsed, hKeeps, by simp⟩
      intro hOld
      refine hBusy fun x hx => hOld x ?_
      rw [hPartly]
      exact List.mem_cons_of_mem _ hx
  | nil =>
      cases hUnused : V cache .slabsEmpty with
      | cons w rest =>
          rcases slabAlloc_of_empty page hCore hSorted hCache
              hPartly hUnused with
            ⟨o, s', v, hAlloc, hCore', hSorted', hBusy, hUsed,
              hKeeps⟩
          exact ⟨some o, s', v, hAlloc, hCore', hSorted',
            fun _ => hBusy, hUsed, hKeeps, by simp⟩
      | nil =>
          exact slabAlloc_of_none hCore hSorted hCache hPage
            hPartly hUnused

--------------------
-- slab_free
--------------------

/- The slab found on a list, and the slot it was found in. -/
def findSlab
    (obj : Addr) :
    SlabSlot → List SlabView → Option (SlabSlot × Addr)
  | _, [] => none
  | slot, w :: ws =>
      if (obj - w.page).toNat < 4096 then
        some (slot, w.ptr)
      else
        findSlab obj (.next w.ptr) ws

variable {fuel : Nat}
variable {obj : Addr}
variable {slot : SlabSlot}

/- The loop walks the list. -/
theorem slabFind_eq
    (hChain : Chain (fun p => (s.slabs p).next)
      (s.readSlot cache slot) (ws.map SlabView.ptr))
    (hPages : ∀ w ∈ ws, (s.slabs w.ptr).page = w.page)
    (hSize : (s.caches cache).pageSize = slabPageSize)
    (hFuel : ws.length < fuel) :
    slabFind s cache obj fuel slot =
      some (findSlab obj slot ws) := by
  induction ws generalizing fuel slot with
  | nil =>
      cases fuel with
      | zero => simp at hFuel
      | succ fuel =>
          rw [List.map_nil, Chain.nil_iff] at hChain
          simp only [slabFind, hChain, findSlab]
  | cons w ws ih =>
      cases fuel with
      | zero => simp at hFuel
      | succ fuel =>
          rw [List.map_cons, Chain.cons_iff] at hChain
          rw [List.forall_mem_cons] at hPages
          simp only [slabFind, hChain.1, findSlab, hPages.1,
            hSize, BitVec.lt_def]
          have hBytes :
              (slabPageSize.setWidth 64).toNat = 4096 := rfl
          rw [hBytes]
          by_cases hHit : (obj - w.page).toNat < 4096
          · rw [if_pos hHit, if_pos hHit]
          · rw [if_neg hHit, if_neg hHit]
            exact ih hChain.2 hPages.2 (by simpa using hFuel)

/- The first slab whose page holds the object. -/
theorem findSlab_append
    {before after : List SlabView}
    (hMiss : ∀ x ∈ before, ¬ (obj - x.page).toNat < 4096)
    (hHit : (obj - w.page).toNat < 4096) :
    findSlab obj slot (before ++ w :: after) =
      some (slotBehind slot (before.map SlabView.ptr),
        w.ptr) := by
  induction before generalizing slot with
  | nil =>
      simp only [List.nil_append, findSlab, hHit, if_true]
      rfl
  | cons x before ih =>
      rw [List.forall_mem_cons] at hMiss
      simp only [List.cons_append, findSlab, hMiss.1, if_false]
      exact ih hMiss.2

theorem findSlab_none
    (hMiss : ∀ x ∈ ws, ¬ (obj - x.page).toNat < 4096) :
    findSlab obj slot ws = none := by
  induction ws generalizing slot with
  | nil => rfl
  | cons x ws ih =>
      rw [List.forall_mem_cons] at hMiss
      simp only [findSlab, hMiss.1, if_false]
      exact ih hMiss.2

variable {o : Addr}

/- An object lies in the page of its own slab only. -/
theorem Core.hit_iff
    {w x : SlabView}
    (hCore : Core s created large V)
    (hCache : cache ∈ created)
    (hw : w ∈ (V cache).all)
    (ho : o ∈ w.used)
    (hx : x ∈ (V cache).all) :
    (o - x.page).toNat < 4096 ↔ x = w := by
  have hOk := hCore.slab_ok hCache hw
  have hInside :=
    hCore.obj_inside hCache hw (List.mem_append_right _ ho)
  have hGe :=
    objRoom_ge (hCore.caches cache hCache).shape.size_ge
  constructor
  · intro hHit
    refine hCore.page_inj (mem_allSlabs hCache hx)
      (mem_allSlabs hCache hw) ?_
    by_contra hNe
    have hIs := (hCore.slab_ok hCache hx).isPage
    have hApart := hIs.apart hOk.isPage hNe
    have hFits := hIs.fits
    have hFits' := hOk.isPage.fits
    rw [BitVec.toNat_sub] at hHit
    omega
  · rintro rfl
    rw [BitVec.toNat_sub]
    omega

variable {list : SlabList}

/- A slab of a list and the slabs before and behind it. -/
theorem Core.list_split
    (hCore : Core s created large V)
    (hCache : cache ∈ created)
    (hw : w ∈ V cache list) :
    ∃ before after, V cache list = before ++ w :: after ∧
      ∀ x ∈ before, x ≠ w := by
  rcases List.append_of_mem hw with ⟨before, after, hEq⟩
  refine ⟨before, after, hEq, ?_⟩
  rintro x hx rfl
  have hNodup :=
    (hCore.caches cache hCache).linked.nodup list
  rw [CacheView.ptrs, hEq, List.map_append, List.map_cons]
    at hNodup
  exact (List.nodup_append.mp hNodup).2.2 _
    (List.mem_map_of_mem hx) _ (by simp) rfl

/- The loop over a list of the cache. -/
theorem Core.slabFind_list
    (o : Addr)
    (hCore : Core s created large V)
    (hCache : cache ∈ created)
    (hFuel : (V cache).all.length < fuel) :
    slabFind s cache o fuel (.head list) =
      some (findSlab o (.head list) (V cache list)) := by
  have hMine := hCore.caches cache hCache
  have hLen : (V cache list).length ≤ (V cache).all.length := by
    unfold CacheView.all
    simp only [List.length_append]
    cases list <;> omega
  refine slabFind_eq (hMine.linked.chain list) ?_
    hMine.shape.pageSize_eq (by omega)
  intro w hw
  exact (hCore.slab_ok hCache
    (CacheView.mem_all list hw)).page_eq

/- A slab after an object has come back to it. -/
def SlabView.put
    (w : SlabView)
    (o : Addr) :
    SlabView :=
  { w with
    free := o :: w.free
    used := w.used.erase o }

/- The bytes written by a free lie in the freed object. -/
theorem Core.freedMem
    (hCore : Core s created large V)
    (hCache : cache ∈ created)
    (hw : w ∈ (V cache).all)
    (ho : o ∈ w.used) :
    Core { s with mem := s.freedMem cache w.ptr o }
      created large V := by
  have hShape := (hCore.caches cache hCache).shape
  have hHooked :=
    hCore.hook hCache hw ho (hShape.hooks.imp_right And.right)
  have hGe := objRoom_ge hShape.size_ge
  unfold SlabState.freedMem storePtr ByteMemory.store
  exact hHooked.patch_used hCache hw ho (Nat.le_refl _)
    (by simp only; omega)

theorem Core.pushObject
    (before : List SlabView)
    (hCore : Core s created large V)
    (hCache : cache ∈ created)
    (hList : V cache list = before ++ w :: after)
    (ho : o ∈ w.used) :
    Core (s.pushObject cache w.ptr o) created large
      (Function.update V cache
        (Function.update (V cache) list
          (before ++ w.put o :: after))) := by
  have hw : w ∈ (V cache).all := by
    refine CacheView.mem_all list ?_
    rw [hList]
    simp
  have hFreed := hCore.freedMem hCache hw ho
  have hOk := hFreed.slab_ok hCache hw
  have hHead := hOk.chain.head_eq
  refine hFreed.exchange before (w.put o) hCache hList
    (pushObject_exchanges s cache w.ptr o) rfl rfl ?_ ?_ ?_ ?_
  · refine ⟨rfl, ?_⟩
    have hLoad :
        loadPtr (s.freedMem cache w.ptr o) o =
          (s.slabs w.ptr).freeList := by
      refine loadPtr_storePtr ?_
      intro hNull
      simp only at hHead
      rw [hNull] at hHead
      -- No object lies at address 0.
      have hFree := List.mem_of_mem_head? hHead.symm
      have hInside :=
        hCore.obj_inside hCache hw
          (List.mem_append_left _ hFree)
      simp at hInside
    simp only [hLoad]
    exact hOk.chain
  · have hNum := (hCore.slab_ok hCache hw).numFree_eq
    simp only [hNum, SlabView.put, List.length_cons,
      BitVec.ofNat_add]
  · simp only [SlabView.put, List.cons_append]
    refine (List.perm_middle.symm).trans ?_
    exact List.Perm.append_left _ (List.perm_cons_erase ho).symm
  · simp only [SlabView.put, List.length_cons,
      BitVec.ofNat_add]
    grind

/- The counters that decide where the slab goes. -/
theorem Core.pushObject_record
    (before : List SlabView)
    (hCore : Core s created large V)
    (hCache : cache ∈ created)
    (hList : V cache list = before ++ w :: after)
    (ho : o ∈ w.used) :
    ((s.pushObject cache w.ptr o).slabs w.ptr).numFree =
        BitVec.ofNat 32 (w.free.length + 1) ∧
      (((s.pushObject cache w.ptr o).slabs w.ptr).numFree =
          ((s.pushObject cache w.ptr o).slabs w.ptr).numObjs ↔
        (w.put o).used = []) := by
  have hPushed := hCore.pushObject before hCache hList ho
  have hw :
      w.put o ∈
        (Function.update V cache
          (Function.update (V cache) list
            (before ++ w.put o :: after)) cache).all := by
    rw [Function.update_self]
    exact CacheView.mem_all list (by simp)
  have hOk := hPushed.slab_ok hCache hw
  have hLen := hPushed.length_lt hCache hw
  have hNum := hOk.numFree_eq
  have hObjs := hOk.numObjs_eq
  have hPtr : (w.put o).ptr = w.ptr := rfl
  rw [hPtr] at hNum hObjs
  refine ⟨hNum, ?_⟩
  rw [hNum, hObjs, ← List.length_eq_zero_iff]
  constructor
  · intro hEq
    have hNat := congrArg BitVec.toNat hEq
    rw [BitVec.toNat_ofNat] at hNat
    omega
  · intro hZero
    apply BitVec.eq_of_toNat_eq
    rw [BitVec.toNat_ofNat]
    omega

/- The objects in use after one of them has come back. -/
theorem CacheView.used_put
    (before : List SlabView)
    (hList : v list = before ++ w :: after)
    (ho : o ∈ w.used) :
    v.used.Perm
      (o :: CacheView.used (Function.update v list
        (before ++ w.put o :: after))) := by
  rcases all_replace before hList with
    ⟨rest, hOld, hReplace⟩
  have hNew := hReplace (w.put o)
  refine (used_perm hOld).trans (.trans ?_
    ((used_perm hNew).cons o).symm)
  simp only [List.flatMap_cons, SlabView.put]
  exact (List.perm_cons_erase ho).append_right _

/- Then the slab may go to another list. -/
theorem CacheView.used_put_moved
    {list list' : SlabList}
    (before : List SlabView)
    (hList : v list = before ++ w :: after)
    (ho : o ∈ w.used) :
    v.used.Perm
      (o :: CacheView.used
        (CacheView.move
          (Function.update v list (before ++ w.put o :: after))
          list list' (w.put o) (before ++ after))) :=
  (used_put before hList ho).trans
    (.cons o (used_perm (all_move before (by simp))).symm)

/- An object comes back to a full slab. -/
theorem slabFree_of_full
    (hCore : Core s created large V)
    (hSorted : Sorted (V cache))
    (hCache : cache ∈ created)
    (hw : w ∈ V cache .slabsFull)
    (ho : o ∈ w.used)
    (hFuel : (V cache).all.length < fuel) :
    ∃ s' v,
      slabFree fuel s (some cache) (some o) = some s' ∧
        Core s' created large (Function.update V cache v) ∧
        Sorted v ∧
        v .slabsPartial = w.put o :: V cache .slabsPartial ∧
        (V cache).used.Perm (o :: v.used) ∧
        s.Keeps s' := by
  have hAll := CacheView.mem_all .slabsFull hw
  rcases hCore.list_split hCache hw with
    ⟨before, after, hList, hBefore⟩
  have hFind :
      slabFind s cache o fuel (.head .slabsFull) =
        some (some (slotBehind (.head .slabsFull)
          (before.map SlabView.ptr), w.ptr)) := by
    rw [hCore.slabFind_list o hCache hFuel, hList,
      findSlab_append]
    · intro x hx
      have hIn : x ∈ (V cache).all := by
        refine CacheView.mem_all .slabsFull ?_
        rw [hList]
        exact List.mem_append_left _ hx
      rw [hCore.hit_iff hCache hAll ho hIn]
      exact hBefore x hx
    · exact (hCore.hit_iff hCache hAll ho hAll).mpr rfl
  have hFree := hSorted.full w hw
  have hOne :
      ((s.pushObject cache w.ptr o).slabs w.ptr).numFree =
        1#32 := by
    rw [(hCore.pushObject_record before hCache hList ho).1,
      hFree]
    rfl
  have hPushed := hCore.pushObject before hCache hList ho
  have hList' :
      Function.update V cache
          (Function.update (V cache) .slabsFull
            (before ++ w.put o :: after)) cache .slabsFull =
        before ++ w.put o :: after := by
    simp
  have hMoved :=
    hPushed.move .slabsPartial before hCache hList'
  rw [Function.update_self, Function.update_idem] at hMoved
  refine ⟨_, _, ?_, hMoved, ?_, ?_, ?_, ?_⟩
  · simp only [slabFree, hFind, SlabState.moveFromFull, hOne,
      if_true]
    rfl
  · have hFull := hSorted.full
    rw [hList] at hFull
    refine ⟨?_, ?_, ?_⟩
    · simp only [CacheView.move, Function.update_self, ne_eq,
        reduceCtorEq, not_false_eq_true,
        Function.update_of_ne]
      intro x hx
      refine hFull x ?_
      simp only [List.mem_append, List.mem_cons] at hx ⊢
      tauto
    · simp only [CacheView.move, Function.update_self, ne_eq,
        reduceCtorEq, not_false_eq_true,
        Function.update_of_ne]
      exact List.forall_mem_cons.mpr
        ⟨by simp [SlabView.put], hSorted.partly⟩
    · simpa [CacheView.move] using hSorted.empty
  · simp [CacheView.move]
  · exact CacheView.used_put_moved before hList ho
  · exact SlabState.Keeps.pushObject_moved s cache w.ptr o _ _ _

/- An object comes back to a partly used slab. -/
theorem slabFree_of_partly
    (hCore : Core s created large V)
    (hSorted : Sorted (V cache))
    (hCache : cache ∈ created)
    (hw : w ∈ V cache .slabsPartial)
    (ho : o ∈ w.used)
    (hFuel : (V cache).all.length < fuel) :
    ∃ s' v,
      slabFree fuel s (some cache) (some o) = some s' ∧
        Core s' created large (Function.update V cache v) ∧
        Sorted v ∧ (Busy (V cache) → Busy v) ∧
        (V cache).used.Perm (o :: v.used) ∧
        s.Keeps s' := by
  have hAll := CacheView.mem_all .slabsPartial hw
  rcases hCore.list_split hCache hw with
    ⟨before, after, hList, hBefore⟩
  have hMiss :
      slabFind s cache o fuel (.head .slabsFull) =
        some none := by
    rw [hCore.slabFind_list o hCache hFuel, findSlab_none]
    intro x hx
    rw [hCore.hit_iff hCache hAll ho
      (CacheView.mem_all .slabsFull hx)]
    rintro rfl
    exact (hCore.caches cache hCache).linked.apart .slabsFull
      .slabsPartial (by simp) (List.mem_map_of_mem hx)
      (List.mem_map_of_mem hw)
  have hFind :
      slabFind s cache o fuel (.head .slabsPartial) =
        some (some (slotBehind (.head .slabsPartial)
          (before.map SlabView.ptr), w.ptr)) := by
    rw [hCore.slabFind_list o hCache hFuel, hList,
      findSlab_append]
    · intro x hx
      have hIn : x ∈ (V cache).all := by
        refine CacheView.mem_all .slabsPartial ?_
        rw [hList]
        exact List.mem_append_left _ hx
      rw [hCore.hit_iff hCache hAll ho hIn]
      exact hBefore x hx
    · exact (hCore.hit_iff hCache hAll ho hAll).mpr rfl
  have hRecord :=
    (hCore.pushObject_record before hCache hList ho).2
  have hPushed := hCore.pushObject before hCache hList ho
  have hPartly := hSorted.partly
  rw [hList] at hPartly
  by_cases hUnused : (w.put o).used = []
  · -- The last object: the slab moves to the empty list.
    have hList' :
        Function.update V cache
            (Function.update (V cache) .slabsPartial
              (before ++ w.put o :: after)) cache
            .slabsPartial =
          before ++ w.put o :: after := by
      simp
    have hMoved :=
      hPushed.move .slabsEmpty before hCache hList'
    rw [Function.update_self, Function.update_idem] at hMoved
    refine ⟨_, _, ?_, hMoved, ⟨?_, ?_, ?_⟩, ?_, ?_, ?_⟩
    · simp only [slabFree, hMiss, hFind,
        SlabState.moveFromPartial, hRecord.mpr hUnused, if_true]
      rfl
    · simpa [CacheView.move] using hSorted.full
    · simp only [CacheView.move, Function.update_self, ne_eq,
        reduceCtorEq, not_false_eq_true,
        Function.update_of_ne]
      intro x hx
      refine hPartly x ?_
      simp only [List.mem_append, List.mem_cons] at hx ⊢
      tauto
    · simp only [CacheView.move, Function.update_self, ne_eq,
        reduceCtorEq, not_false_eq_true,
        Function.update_of_ne]
      exact List.forall_mem_cons.mpr ⟨hUnused, hSorted.empty⟩
    · intro hBusy x hx
      refine hBusy x ?_
      simp only [CacheView.move, Function.update_self, ne_eq,
        reduceCtorEq, not_false_eq_true,
        Function.update_of_ne] at hx
      rw [hList]
      simp only [List.mem_append, List.mem_cons] at hx ⊢
      tauto
    · exact CacheView.used_put_moved before hList ho
    · exact SlabState.Keeps.pushObject_moved s cache w.ptr o _ _ _
  · refine ⟨_, _, ?_, hPushed, ⟨?_, ?_, ?_⟩, ?_,
      CacheView.used_put before hList ho,
      SlabState.Keeps.pushObject s cache w.ptr o⟩
    · simp only [slabFree, hMiss, hFind,
        SlabState.moveFromPartial, mt hRecord.mp hUnused,
        if_false]
    · simpa using hSorted.full
    · simp only [Function.update_self]
      intro x hx
      rcases List.mem_append.mp hx with hx | hx
      · exact hPartly x (List.mem_append_left _ hx)
      · rcases List.mem_cons.mp hx with rfl | hx
        · simp [SlabView.put]
        · exact hPartly x (by simp [hx])
    · simpa using hSorted.empty
    · intro hBusy x hx
      rw [Function.update_self] at hx
      rcases List.mem_append.mp hx with hx | hx
      · exact hBusy x (by simp [hList, hx])
      · rcases List.mem_cons.mp hx with rfl | hx
        · exact hUnused
        · exact hBusy x (by simp [hList, hx])

/-
  The call returns, and exactly the given object is no longer
  in use.
-/
theorem slabFree_spec
    (hCore : Core s created large V)
    (hSorted : Sorted (V cache))
    (hCache : cache ∈ created)
    (ho : o ∈ (V cache).used)
    (hFuel : (V cache).all.length < fuel) :
    ∃ s' v,
      slabFree fuel s (some cache) (some o) = some s' ∧
        Core s' created large (Function.update V cache v) ∧
        Sorted v ∧
        (2 ≤ (s.caches cache).numObjs.toNat →
          Busy (V cache) → Busy v) ∧
        (V cache).used.Perm (o :: v.used) ∧
        s.Keeps s' := by
  rcases List.mem_flatMap.mp ho with ⟨w, hw, ho⟩
  rcases CacheView.exists_list hw with ⟨list, hw⟩
  cases list with
  | slabsFull =>
      have hAll := CacheView.mem_all .slabsFull hw
      rcases slabFree_of_full hCore hSorted hCache hw ho
          hFuel with
        ⟨s', v, hFree, hCore', hSorted', hList, hUsed, hKeeps⟩
      refine ⟨s', v, hFree, hCore', hSorted', ?_, hUsed, hKeeps⟩
      intro hTwo hBusy
      unfold Busy
      rw [hList]
      refine List.forall_mem_cons.mpr ⟨?_, hBusy⟩
      -- A full slab of two objects keeps one of them.
      have hLen := (hCore.length_lt hCache hAll).1
      rw [hSorted.full w hw, List.length_nil] at hLen
      have hRest := List.length_erase_of_mem ho
      refine List.ne_nil_of_length_pos ?_
      simp only [SlabView.put]
      omega
  | slabsPartial =>
      rcases slabFree_of_partly hCore hSorted hCache hw ho
          hFuel with
        ⟨s', v, hFree, hCore', hSorted', hBusy, hRest⟩
      exact ⟨s', v, hFree, hCore', hSorted', fun _ => hBusy,
        hRest⟩
  | slabsEmpty =>
      rw [hSorted.empty w hw] at ho
      simp at ho

--------------------
-- slab_shrink
--------------------

/- The loop drops empty slabs from the front of their list. -/
theorem shrinkLoop_spec
    (turns : Nat)
    (freed : U32)
    (hCore : Core s created large V)
    (hSorted : Sorted (V cache))
    (hCache : cache ∈ created) :
    ∃ s',
      shrinkLoop cache turns freed s =
          (freed + BitVec.ofNat 32
            (min turns (V cache .slabsEmpty).length), s') ∧
        Core s' created large
          (Function.update V cache
            (Function.update (V cache) .slabsEmpty
              ((V cache .slabsEmpty).drop turns))) ∧
        s.Keeps s' := by
  induction turns generalizing s V freed with
  | zero =>
      refine ⟨s, by simp [shrinkLoop], ?_,
        ⟨rfl, fun _ => rfl, Nat.le_refl _⟩⟩
      simpa using hCore
  | succ turns ih =>
      have hMine := hCore.caches cache hCache
      have hHead := hMine.linked.head_eq .slabsEmpty
      cases hList : V cache .slabsEmpty with
      | nil =>
          rw [hList] at hHead
          have hNone : (s.caches cache).slabsEmpty = none :=
            hHead
          refine ⟨s, by simp [shrinkLoop, hNone], ?_,
            ⟨rfl, fun _ => rfl, Nat.le_refl _⟩⟩
          rw [List.drop_nil, ← hList]
          simpa using hCore
      | cons w rest =>
          rw [hList] at hHead
          have hSome :
              (s.caches cache).slabsEmpty = some w.ptr :=
            hHead
          have hEmpty := hSorted.empty
          rw [hList, List.forall_mem_cons] at hEmpty
          have hDropped :=
            hCore.dropSlab hCache hList
          rcases ih (freed + 1#32) hDropped
              (by
                simp only [Function.update_self]
                refine ⟨?_, ?_, ?_⟩
                · simpa using hSorted.full
                · simpa using hSorted.partly
                · simpa using hEmpty.2) with
            ⟨s', hLoop, hCore', hKeeps⟩
          simp only [Function.update_self,
            Function.update_idem] at hLoop hCore'
          refine ⟨s', ?_, by simpa using hCore',
            SlabState.Keeps.dropSlab.trans hKeeps⟩
          have hMin :
              min (turns + 1) (w :: rest).length =
                1 + min turns rest.length := by
            rw [List.length_cons]
            omega
          rw [hMin, BitVec.ofNat_add, ← BitVec.add_assoc]
          simp only [shrinkLoop, hSome, hLoop]

end Calls

end FeatherOS
