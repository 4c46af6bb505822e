import FeatherOS.Slab.Consistency

/-
  Which caches give all their pages back.

  `slab_shrink` takes slabs from the empty list only. A slab
  gets there when its last object is freed while it is on the
  partial list. A slab of one object goes straight from the
  full list to the partial list, and stays there.

  Key definitions include:
    * `shrinkAll`
    * `Reclaimable`

  Key theorems include:
    * `shrinkAll_core`
    * `reclaimable_iff`
-/

namespace FeatherOS

--------------------
-- Shrinking To The End
--------------------

/- `slab_shrink` is called until it returns 0. -/
def shrinkAll :
    Nat → SlabState → Addr → Option SlabState
  | 0, _, _ => none
  | fuel + 1, s, cache =>
      match slabShrink s (some cache) with
      | (freed, s) =>
          if freed = 0#32 then some s
          else shrinkAll fuel s cache

variable {fuel : Nat}

section ShrinkAll

variable {s s' : SlabState}
variable {created large : List Addr}
variable {V : Addr → CacheView}
variable {cache : Addr}

/- The view of a cache after some slabs were dropped. -/
def CacheView.dropEmpty
    (v : CacheView)
    (turns : Nat) :
    CacheView :=
  Function.update v .slabsEmpty ((v .slabsEmpty).drop turns)

theorem Sorted.dropEmpty
    {v : CacheView}
    (hSorted : Sorted v)
    (turns : Nat) :
    Sorted (v.dropEmpty turns) := by
  unfold CacheView.dropEmpty
  refine ⟨?_, ?_, ?_⟩
  · simpa using hSorted.full
  · simpa using hSorted.partly
  · rw [Function.update_self]
    exact fun w hw => hSorted.empty w (List.mem_of_mem_drop hw)

/- One call drops up to four slabs and says how many. -/
theorem slabShrink_spec
    (hCore : Core s created large V)
    (hSorted : Sorted (V cache))
    (hCache : cache ∈ created) :
    ∃ freed s',
      slabShrink s (some cache) = (freed, s') ∧
        (freed = 0#32 ↔ V cache .slabsEmpty = []) ∧
        Core s' created large
          (Function.update V cache
            ((V cache).dropEmpty 4)) := by
  rcases shrinkLoop_spec 4 0#32 hCore hSorted hCache with
    ⟨s', hLoop, hCore', _⟩
  refine ⟨_, s', hLoop, ?_, hCore'⟩
  rw [← BitVec.toNat_inj, ← List.length_eq_zero_iff]
  simp only [BitVec.toNat_add, BitVec.toNat_ofNat]
  omega

/- At the end the empty list is used up. -/
theorem shrinkAll_core
    (hCore : Core s created large V)
    (hSorted : Sorted (V cache))
    (hCache : cache ∈ created)
    (hCall : shrinkAll fuel s cache = some s') :
    Core s' created large
      (Function.update V cache
        (Function.update (V cache) .slabsEmpty [])) := by
  induction fuel generalizing s V with
  | zero => simp [shrinkAll] at hCall
  | succ fuel ih =>
      rcases slabShrink_spec hCore hSorted hCache with
        ⟨freed, s₁, hShrink, hFreed, hCore₁⟩
      simp only [shrinkAll, hShrink] at hCall
      by_cases hZero : freed = 0#32
      · rw [if_pos hZero] at hCall
        cases hCall
        have hList := hFreed.mp hZero
        rw [CacheView.dropEmpty, hList, List.drop_nil]
          at hCore₁
        exact hCore₁
      · rw [if_neg hZero] at hCall
        have hEnd :=
          ih hCore₁
            (by
              rw [Function.update_self]
              exact hSorted.dropEmpty 4)
            hCall
        simpa [CacheView.dropEmpty] using hEnd

/- Every call but the last one shortens the list. -/
theorem shrinkAll_returns
    (hCore : Core s created large V)
    (hSorted : Sorted (V cache))
    (hCache : cache ∈ created)
    (hFuel : (V cache .slabsEmpty).length < fuel) :
    ∃ s', shrinkAll fuel s cache = some s' := by
  induction fuel generalizing s V with
  | zero => omega
  | succ fuel ih =>
      rcases slabShrink_spec hCore hSorted hCache with
        ⟨freed, s₁, hShrink, hFreed, hCore₁⟩
      simp only [shrinkAll, hShrink]
      by_cases hZero : freed = 0#32
      · exact ⟨s₁, if_pos hZero⟩
      · rw [if_neg hZero]
        have hPos :=
          List.length_pos_iff.mpr (mt hFreed.mpr hZero)
        refine ih hCore₁ ?_ ?_
        · rw [Function.update_self]
          exact hSorted.dropEmpty 4
        · rw [Function.update_self, CacheView.dropEmpty,
            Function.update_self, List.length_drop]
          omega

end ShrinkAll

--------------------
-- Reclaimable Sizes
--------------------

/-
  Allocations and frees, on the given cache and on others
  whose objects fit, with writes into blocks in use.
-/
def AllocFree
    (cache : Addr)
    (sys : SlabSys) :
    SlabCall → Prop
  | .alloc c _ =>
      c = cache ∨ (sys.state.caches c).objSize.toNat ≤ 4048
  | .free _ _ => True
  | .write _ _ => True
  | .kernelAlloc _ => True
  | _ => False

/-
  However a cache of this size is created and used, once none
  of its objects is in use, shrinking it to the end leaves it
  without slabs, and the layer holds all its pages but those
  that the slabs of the cache lay in.
-/
def Reclaimable (objSize : U64) : Prop :=
  ∀ (mem : ByteMemory) (before : List SlabCall)
    (start : SlabSys) (align : U64) (flags : U32)
    (ctor dtor : Option ObjHook) (cache : Addr)
    (s : SlabState) (calls : List SlabCall) (sys : SlabSys),
    Run (Guarded Fits SlabStep) (SlabSys.boot mem) before
      start →
    slabCacheCreate start.state objSize align flags ctor dtor =
      (some cache, s) →
    Run (Guarded (AllocFree cache) SlabStep)
      ⟨s, addCreated start.created (some cache), start.live⟩
      calls sys →
    (∀ b ∈ sys.live, b.owner ≠ some cache) →
    ∃ fuel s' full part empty,
      shrinkAll fuel sys.state cache = some s' ∧
        (s'.caches cache).numSlabs = 0#32 ∧
        CacheLists sys.state cache full part empty ∧
        sys.state.pages.Perm
          ((full ++ part ++ empty).map
              (fun p => (sys.state.slabs p).page) ++
            s'.pages)

--------------------
-- Two Objects Or More
--------------------

theorem mem_addCreated
    (created : List Addr)
    (cache : Addr) :
    cache ∈ addCreated created (some cache) := by
  by_cases hIn : cache ∈ created
  · simp [addCreated, hIn]
  · simp [addCreated, hIn]

/- The invariant of a cache whose slabs hold two objects. -/
structure SlabSys.Returning
    (sys : SlabSys)
    (cache : Addr)
    (V : Addr → CacheView) : Prop where
  inv : sys.Inv V
  created : cache ∈ sys.created
  small : (sys.state.caches cache).objSize.toNat ≤ 2016
  busy : Busy (V cache)

namespace SlabSys.Returning

variable {sys sys' : SlabSys}
variable {cache : Addr}
variable {V : Addr → CacheView}

theorem two_le
    (hRet : sys.Returning cache V) :
    2 ≤ (sys.state.caches cache).numObjs.toNat := by
  have hShape :=
    (hRet.inv.core.caches cache hRet.created).shape
  have hSmall := hRet.small
  rw [hShape.numObjs_eq, calcNumObjs_toNat]
  have hTwo :
      2 ≤ 4048 /
        ((sys.state.caches cache).objSize.toNat + 8) := by
    rw [Nat.le_div_iff_mul_le (by omega)]
    omega
  omega

/- Another cache stays as it is. -/
theorem busy_update
    {c : Addr}
    {v : CacheView}
    (hRet : sys.Returning cache V)
    (hSame : cache = c → Busy v) :
    Busy (Function.update V c v cache) := by
  by_cases hEq : cache = c
  · subst hEq
    rw [Function.update_self]
    exact hSame rfl
  · rw [Function.update_of_ne hEq]
    exact hRet.busy

/- One call on this cache or another one. -/
theorem step
    {call : SlabCall}
    (hRet : ∃ V, sys.Returning cache V)
    (hStep : Guarded (AllocFree cache) SlabStep sys call
      sys') :
    ∃ V, sys'.Returning cache V := by
  rcases hRet with ⟨V, hRet⟩
  rcases hStep with ⟨hKind, hStep⟩
  have hInv := hRet.inv
  cases hStep with
  | @alloc c _ _ _ _ hCache hPage hCall =>
      have hSmall :
          (sys.state.caches c).objSize.toNat ≤ 4048 := by
        rcases hKind with rfl | hSmall
        · exact Nat.le_trans hRet.small (by omega)
        · exact hSmall
      rcases hInv.allocBlock hCache hSmall hPage hCall with
        ⟨v, hInv', hBusy, hKeeps⟩
      refine ⟨_, hInv', hRet.created, ?_, ?_⟩
      · rw [hKeeps.objSize]
        exact hRet.small
      · apply hRet.busy_update
        rintro rfl
        exact hBusy hRet.busy
  | @free c b _ _ hLive hOwner hCall =>
      rcases hInv.freeBlock hLive hOwner hCall with
        ⟨v, hInv', hBusy, hKeeps⟩
      refine ⟨_, hInv', hRet.created, ?_, ?_⟩
      · rw [hKeeps.objSize]
        exact hRet.small
      · apply hRet.busy_update
        rintro rfl
        exact hBusy hRet.two_le hRet.busy
  | write hLive hFrom hTo =>
      exact ⟨V, hInv.write hLive hFrom hTo, hRet.created,
        hRet.small, hRet.busy⟩
  | kernelAlloc size =>
      exact ⟨V, hInv.kernelAlloc size, hRet.created,
        hRet.small, hRet.busy⟩
  | init => exact hKind.elim
  | create _ => exact hKind.elim
  | shrink _ => exact hKind.elim
  | kmalloc _ _ => exact hKind.elim
  | kfree _ _ _ => exact hKind.elim

/- Without objects in use only unused slabs are left. -/
theorem lists_eq_nil
    (hRet : sys.Returning cache V)
    (hNone : ∀ b ∈ sys.live, b.owner ≠ some cache) :
    V cache .slabsFull = [] ∧ V cache .slabsPartial = [] := by
  have hInv := hRet.inv
  have hOwned : ownedBy sys.live (some cache) = [] := by
    unfold ownedBy
    rw [List.map_eq_nil_iff, List.filter_eq_nil_iff]
    intro b hb
    simpa using hNone b hb
  have hPerm := hInv.ledger.used cache hRet.created
  rw [hOwned] at hPerm
  have hUsed : ∀ w ∈ (V cache).all, w.used = [] :=
    List.flatMap_eq_nil_iff.mp hPerm.eq_nil
  have hSorted := hInv.sorted cache hRet.created
  refine ⟨?_, ?_⟩
  · refine List.eq_nil_iff_forall_not_mem.mpr fun w hw => ?_
    have hIn := CacheView.mem_all .slabsFull hw
    exact hInv.core.free_ne_nil hRet.created hIn
      (hUsed w hIn) (hSorted.full w hw)
  · refine List.eq_nil_iff_forall_not_mem.mpr fun w hw => ?_
    exact hRet.busy w hw
      (hUsed w (CacheView.mem_all .slabsPartial hw))

/- The pages of the slabs, as their records tell them. -/
theorem map_page
    (hRet : sys.Returning cache V) :
    ((V cache).ptrs .slabsFull ++ (V cache).ptrs .slabsPartial ++
        (V cache).ptrs .slabsEmpty).map
          (fun p => (sys.state.slabs p).page) =
      (V cache).all.map SlabView.page := by
  simp only [CacheView.ptrs, ← List.map_append]
  rw [List.map_map]
  refine List.map_congr_left fun w hw => ?_
  exact (hRet.inv.core.slab_ok hRet.created hw).page_eq

/- Shrinking to the end gives all pages back. -/
theorem shrinkAll
    (hRet : sys.Returning cache V)
    (hNone : ∀ b ∈ sys.live, b.owner ≠ some cache) :
    ∃ fuel s' full part empty,
      FeatherOS.shrinkAll fuel sys.state cache = some s' ∧
        (s'.caches cache).numSlabs = 0#32 ∧
        CacheLists sys.state cache full part empty ∧
        sys.state.pages.Perm
          ((full ++ part ++ empty).map
              (fun p => (sys.state.slabs p).page) ++
            s'.pages) := by
  have hCore := hRet.inv.core
  have hCache := hRet.created
  have hSorted := hRet.inv.sorted cache hCache
  rcases shrinkAll_returns hCore hSorted hCache
      (Nat.lt_succ_self _) with
    ⟨s', hCall⟩
  have hCore' := shrinkAll_core hCore hSorted hCache hCall
  have hAll :
      CacheView.all
        (Function.update (V cache) .slabsEmpty []) = [] := by
    rcases hRet.lists_eq_nil hNone with ⟨hFull, hPartly⟩
    simp [CacheView.all, hFull, hPartly]
  refine ⟨_, s', _, _, _, hCall, ?_,
    hRet.inv.cacheLists hCache, ?_⟩
  · have hNum :=
      (hCore'.caches cache hCache).stocked.numSlabs_eq
    rw [Function.update_self, hAll] at hNum
    exact hNum
  · have hPerm :=
      @allSlabs_update sys.created V cache hCache
        hCore.created_nodup
        (Function.update (V cache) .slabsEmpty [])
    have hRest :=
      hCore'.placed.pages.trans
        ((hPerm.map SlabView.page).append_right _)
    rw [hAll, List.nil_append] at hRest
    have hOld := (hCore.placed_split hCache).pages
    rw [List.map_append, List.append_assoc] at hOld
    rw [hRet.map_page]
    exact hOld.trans (hRest.symm.append_left _)

end SlabSys.Returning

theorem reclaimable_of_le
    {objSize : U64}
    (hFrom : 8 ≤ objSize.toNat)
    (hTo : objSize.toNat ≤ 2016) :
    Reclaimable objSize := by
  intro mem before start align flags ctor dtor cache s calls
    sys hBefore hCreate hRun hNone
  rcases slab_run_inv hBefore with ⟨V, hInv⟩
  have hBytes :
      (objSize.setWidth 32).toNat = objSize.toNat := by
    rw [BitVec.toNat_setWidth]
    omega
  rcases slabCacheCreate_cases start.state objSize align flags
      ctor dtor with
    ⟨_, hFail⟩ | ⟨hLeft, s', hMade, hAdds, hSizes, _⟩
  · rw [hFail] at hCreate
    simp at hCreate
  rw [hMade] at hCreate
  cases hCreate
  have hStart :
      ∃ V, SlabSys.Returning
        ⟨s, addCreated start.created
          (some start.state.heap.heapPtr), start.live⟩
        start.state.heap.heapPtr V := by
    refine ⟨_, hInv.addCache hAdds hLeft ?_ ?_ (by omega)
      (Or.inl (by omega)), ?_, ?_, ?_⟩
    · intro i c hOld
      rwa [hSizes]
    · intro i c hNew
      rw [hSizes] at hNew
      exact Or.inl hNew
    · exact mem_addCreated _ _
    · simp only [hAdds.caches, Function.update_self, newCache]
      omega
    · rw [Function.update_self]
      simp [Busy, CacheView.nil]
  rcases hRun.invariant
      (fun sys => ∃ V,
        sys.Returning start.state.heap.heapPtr V)
      (fun _ _ _ hRet hStep => SlabSys.Returning.step hRet hStep)
      hStart with
    ⟨V', hRet⟩
  exact hRet.shrinkAll hNone

--------------------
-- One Object
--------------------

section OneObject

theorem CacheView.nil_sorted :
    Sorted CacheView.nil := by
  constructor <;> simp [CacheView.nil]

variable {s s' : SlabState}
variable {created large : List Addr}
variable {V : Addr → CacheView}
variable {cache : Addr}

theorem SlabCache.Ok.numObjs_eq_one
    {r : SlabCache}
    (hOk : r.Ok)
    (hLarge : 2016 < r.objSize.toNat) :
    r.numObjs.toNat = 1 := by
  have hQuot : 4048 / (r.objSize.toNat + 8) < 2 := by
    rw [Nat.div_lt_iff_lt_mul (by omega)]
    omega
  rw [hOk.numObjs_eq, calcNumObjs_toNat]
  omega

/- Its only object makes a slab full. -/
theorem Core.mem_full_of_one
    {w : SlabView}
    {o : Addr}
    (hCore : Core s created large V)
    (hSorted : Sorted (V cache))
    (hCache : cache ∈ created)
    (hOne : (s.caches cache).numObjs.toNat = 1)
    (hw : w ∈ (V cache).all)
    (ho : o ∈ w.used) :
    w ∈ V cache .slabsFull := by
  have hLen := (hCore.length_lt hCache hw).1
  have hPos := List.length_pos_of_mem ho
  rcases CacheView.exists_list hw with ⟨list, hList⟩
  cases list with
  | slabsFull => exact hList
  | slabsPartial =>
      have hFree :=
        List.length_pos_iff.mpr (hSorted.partly w hList)
      omega
  | slabsEmpty =>
      rw [hSorted.empty w hList] at ho
      simp at ho

/- Freeing its only object leaves a slab on the partial list. -/
theorem slabFree_of_one
    {o : Addr}
    (hCore : Core s created large V)
    (hSorted : Sorted (V cache))
    (hCache : cache ∈ created)
    (hOne : (s.caches cache).numObjs.toNat = 1)
    (ho : o ∈ (V cache).used)
    (hFuel : (V cache).all.length < fuel) :
    ∃ s' v,
      slabFree fuel s (some cache) (some o) = some s' ∧
        Core s' created large (Function.update V cache v) ∧
        Sorted v ∧ v .slabsPartial ≠ [] := by
  rcases List.mem_flatMap.mp ho with ⟨w, hw, ho⟩
  have hFull :=
    hCore.mem_full_of_one hSorted hCache hOne hw ho
  rcases slabFree_of_full hCore hSorted hCache hFull ho
      hFuel with
    ⟨s', v, hFree, hCore', hSorted', hList, _⟩
  exact ⟨s', v, hFree, hCore', hSorted', by simp [hList]⟩

/- An object that comes and goes leaves its slab there. -/
theorem slabAlloc_slabFree_of_one
    {page : U64}
    (hCore : Core s created large V)
    (hSorted : Sorted (V cache))
    (hCache : cache ∈ created)
    (hLarge : 2016 < (s.caches cache).objSize.toNat)
    (hPage : PageAnswer s page)
    (hSome : page ≠ 0#64)
    (hLeft : 48 ≤ s.heap.heapLeft.toNat) :
    ∃ fuel o s₁ s₂ v,
      slabAlloc page 2 s (some cache) = some (some o, s₁) ∧
        slabFree fuel s₁ (some cache) (some o) = some s₂ ∧
        Core s₂ created large (Function.update V cache v) ∧
        Sorted v ∧ v .slabsPartial ≠ [] := by
  rcases slabAlloc_spec hCore hSorted hCache hPage with
    ⟨obj, s₁, v₁, hAlloc, hCore₁, hSorted₁, _, hUsed, hKeeps,
      hNone⟩
  cases obj with
  | none =>
      have hFail := (hNone rfl).resolve_left hSome
      omega
  | some o =>
      have hOne :=
        ((hCore₁.caches cache hCache).shape).numObjs_eq_one
          (by rw [hKeeps.objSize]; exact hLarge)
      have ho : o ∈ v₁.used := hUsed.mem_iff.mpr (by simp)
      rcases slabFree_of_one hCore₁
          (by rwa [Function.update_self]) hCache hOne
          (by rwa [Function.update_self])
          (Nat.lt_succ_self _) with
        ⟨s₂, v₂, hFree, hCore₂, hSorted₂, hPartly⟩
      rw [Function.update_idem] at hCore₂
      exact ⟨_, o, s₁, s₂, v₂, hAlloc, hFree, hCore₂,
        hSorted₂, hPartly⟩

/- A slab on the partial list is never shrunk away. -/
theorem shrinkAll_numSlabs_ne
    (hCore : Core s created large V)
    (hSorted : Sorted (V cache))
    (hCache : cache ∈ created)
    (hPartly : V cache .slabsPartial ≠ [])
    (hCall : shrinkAll fuel s cache = some s') :
    (s'.caches cache).numSlabs ≠ 0#32 := by
  have hCore' := shrinkAll_core hCore hSorted hCache hCall
  have hLe := hCore'.length_all_le hCache
  have hPos := List.length_pos_iff.mpr hPartly
  rw [Function.update_self] at hLe
  have hAll :
      (V cache .slabsPartial).length ≤
        (CacheView.all (Function.update (V cache) .slabsEmpty
          [])).length := by
    simp [CacheView.all]
  intro hZero
  have hNum :=
    (hCore'.caches cache hCache).stocked.numSlabs_eq
  rw [hZero, Function.update_self, ← BitVec.toNat_inj,
    BitVec.toNat_ofNat, BitVec.toNat_ofNat] at hNum
  omega

end OneObject

/- The first cache that is created. -/
theorem slabCacheCreate_boot
    {objSize : U64}
    (hFrom : 8 ≤ objSize.toNat)
    (hTo : objSize.toNat ≤ 4096) :
    ∃ s,
      slabCacheCreate (SlabSys.boot fun _ => 0#8).state objSize
          8#64 0#32 none none =
          (some 0x200000#64, s) ∧
        (∃ V, Core s [0x200000#64] [] V ∧
          Sorted (V 0x200000#64)) ∧
        (s.caches 0x200000#64).objSize.toNat = objSize.toNat ∧
        s.pages = [] ∧ 48 ≤ s.heap.heapLeft.toNat := by
  have hBytes :
      (objSize.setWidth 32).toNat = objSize.toNat := by
    rw [BitVec.toNat_setWidth]
    omega
  have hBoot := SlabSys.boot_inv fun _ => 0#8
  rcases slabCacheCreate_cases
      (SlabSys.boot fun _ => 0#8).state objSize 8#64 0#32 none
      none with
    ⟨hLow, _⟩ | ⟨_, s, hMade, hAdds, _⟩
  · simp [SlabSys.boot, SlabState.boot, Heap.initial,
      heapSize] at hLow
  · refine ⟨s, hMade, ⟨_, hBoot.core.addCache hAdds (by omega)
      (Or.inr ⟨rfl, rfl⟩), ?_⟩, ?_, hAdds.pages, ?_⟩
    · exact CacheView.nil_sorted
    · rw [hAdds.caches]
      exact hBytes
    · rw [hAdds.heapLeft]
      decide

/- One object, allocated and freed, keeps its page. -/
theorem not_reclaimable
    {objSize : U64}
    (hFrom : 2016 < objSize.toNat)
    (hTo : objSize.toNat ≤ 4096) :
    ¬ Reclaimable objSize := by
  intro hReclaim
  rcases slabCacheCreate_boot (by omega) hTo with
    ⟨s, hMade, ⟨V, hCore, hSorted⟩, hSize, hPages, hLeft⟩
  have hPage : PageAnswer s 0x400000#64 := by
    refine Or.inr ⟨by unfold IsPage; decide, ?_⟩
    simp [hPages]
  rcases slabAlloc_slabFree_of_one hCore hSorted
      (List.mem_singleton_self _) (by omega) hPage (by decide)
      hLeft with
    ⟨fuel, o, s₁, s₂, v, hAlloc, hFree, hCore', hSorted',
      hPartly⟩
  have hAllocated :=
    @SlabStep.alloc
      ⟨s, addCreated [] (some 0x200000#64), []⟩ _ _ _ _ _
      (mem_addCreated [] 0x200000#64) hPage hAlloc
  have hFreed :=
    @SlabStep.free
      ⟨s₁, [0x200000#64], [⟨some 0x200000#64, o,
        (s.caches 0x200000#64).objSize.setWidth 64, false⟩]⟩
      _ _ _ _ (List.mem_singleton_self _) rfl hFree
  have hRun :
      Run (Guarded (AllocFree 0x200000#64) SlabStep)
        ⟨s, addCreated [] (some 0x200000#64), []⟩
        [.alloc 0x200000#64 0x400000#64,
          .free 0x200000#64 o] _ :=
    .cons ⟨Or.inl rfl, hAllocated⟩
      (.cons ⟨trivial, hFreed⟩ (.nil _))
  rcases hReclaim _ [] _ _ _ _ _ _ _ _ _ (.nil _) hMade hRun
      (by simp) with
    ⟨_, s', _, _, _, hShrink, hNum, _⟩
  exact shrinkAll_numSlabs_ne hCore'
    (by rwa [Function.update_self])
    (List.mem_singleton_self _)
    (by rwa [Function.update_self]) hShrink hNum

--------------------
-- Which Sizes
--------------------

/-
  A cache of objects of 8 to 4096 bytes is reclaimable if its
  slabs hold two objects or more.
-/
theorem reclaimable_iff
    {objSize : U64}
    (hFrom : 8 ≤ objSize.toNat)
    (hTo : objSize.toNat ≤ 4096) :
    Reclaimable objSize ↔ objSize.toNat ≤ 2016 := by
  refine ⟨?_, reclaimable_of_le hFrom⟩
  intro hReclaim
  by_contra hLarge
  exact not_reclaimable (by omega) hTo hReclaim

theorem reclaimable_iff_cacheLine :
    Reclaimable 64#64 ↔ (64#64).toNat ≤ 2016 :=
  reclaimable_iff (by decide) (by decide)

/- A slab holds a single object of 2048 bytes. -/
theorem slab_not_all_reclaimable :
    ¬ ∀ objSize : U64, 8 ≤ objSize.toNat →
      objSize.toNat ≤ 4096 → Reclaimable objSize :=
  fun hAll =>
    @not_reclaimable 2048#64 (by decide) (by decide)
      (hAll 2048#64 (by decide) (by decide))

end FeatherOS
