import FeatherOS.Slab.Reclaim

/-
  Blocks and objects that lie inside their pages.

  As long as every call fits, each block in use lies inside a
  page held for it and shares no byte with another one. A new
  slab lays its objects out inside its page exactly when they
  hold a link and at most 4048 bytes.

  Key definitions include:
    * `SlabSys.Contained`
    * `LaysOut`
    * `FitsPage`

  Key theorems include:
    * `laysOut_iff`
    * `slab_contained`
-/

namespace FeatherOS

--------------------
-- Blocks In Use
--------------------

/-
  Every block lies inside a page held for it, and no two
  blocks overlap.
-/
structure SlabSys.Contained (sys : SlabSys) : Prop where
  inside : ∀ b ∈ sys.live, ∃ page ∈ sys.state.pages,
    IsPage page ∧ sys.Home b page ∧
      page.toNat ≤ b.addr.toNat ∧
      b.addr.toNat + b.size.toNat ≤ page.toNat + 4096
  apart : sys.live.Pairwise fun a b =>
    a.addr.toNat + a.size.toNat ≤ b.addr.toNat ∨
      b.addr.toNat + b.size.toNat ≤ a.addr.toNat

variable {V : Addr → CacheView}
variable {sys : SlabSys}

theorem SlabSys.Inv.contained
    (hInv : sys.Inv V) :
    sys.Contained where
  inside _ hb := hInv.home hb
  apart := hInv.blocks_apart.imp And.right

/-
  The calls of `Fits`, and requests of up to a page for which
  the heap has no room for a cache.
-/
def FitsPage
    (sys : SlabSys) :
    SlabCall → Prop
  | .kmalloc size _ =>
      size.toNat ≤ 4048 ∨
        size.toNat ≤ 4096 ∧
          (slabCacheLookup sys.state size).1 = none
  | call => Fits sys call

variable {s : SlabState}

/- A request without a cache gets a page of its own. -/
theorem SlabSys.Inv.kmalloc_page
    {size page : U64}
    {fuel : Nat}
    {ptr : Option Addr}
    (hInv : sys.Inv V)
    (hSize : size.toNat ≤ 4096)
    (hNone : (slabCacheLookup sys.state size).1 = none)
    (hPage : PageAnswer sys.state page)
    (hCall :
      slabKmalloc fuel sys.state size page = some (ptr, s)) :
    SlabSys.Inv
      { sys with
        state := s
        created :=
          addCreated sys.created
            (slabCacheLookup sys.state size).1
        live :=
          grant (slabCacheLookup sys.state size).1 size true
            sys.live ptr } V := by
  have hLookup :
      slabCacheLookup sys.state size = (none, sys.state) := by
    rcases slabCacheLookup_cases sys.state size with
      ⟨hFail, _⟩ | ⟨_, _, _, _, _, hFound⟩ |
        ⟨_, _, _, _, _, hMade⟩
    · exact hFail
    · rw [hFound] at hNone
      simp at hNone
    · rw [hMade] at hNone
      simp at hNone
  unfold slabKmalloc at hCall
  rw [hNone]
  by_cases hZero : size = 0#64
  · rw [if_pos hZero] at hCall
    cases hCall
    exact hInv
  rw [if_neg hZero] at hCall
  simp only [slabAllocSize, hLookup, slabAllocPage,
    Option.some.injEq] at hCall
  by_cases hNull : page = 0#64
  · rw [if_pos hNull] at hCall
    cases hCall
    exact hInv
  · rw [if_neg hNull] at hCall
    cases hCall
    have hIs := hPage.resolve_left hNull
    exact hInv.addPage hIs.1 hIs.2 hSize hLookup

theorem fitsPage_step_inv
    {sys sys' : SlabSys}
    {call : SlabCall}
    (hInv : ∃ V, sys.Inv V)
    (hStep : Guarded FitsPage SlabStep sys call sys') :
    ∃ V, sys'.Inv V := by
  rcases hStep with ⟨hFits, hStep⟩
  by_cases hSmall : Fits sys call
  · exact slabStep_inv hInv ⟨hSmall, hStep⟩
  rcases hInv with ⟨V, hInv⟩
  cases hStep with
  | kmalloc hPage hCall =>
      rcases hFits.resolve_left hSmall with ⟨hSize, hNone⟩
      exact ⟨V, hInv.kmalloc_page hSize hNone hPage hCall⟩
  | init => exact absurd hFits hSmall
  | create _ => exact absurd hFits hSmall
  | alloc _ _ _ => exact absurd hFits hSmall
  | free _ _ _ => exact absurd hFits hSmall
  | shrink _ => exact absurd hFits hSmall
  | kfree _ _ _ => exact absurd hFits hSmall
  | write _ _ _ => exact absurd hFits hSmall
  | kernelAlloc _ => exact absurd hFits hSmall

theorem fitsPage_run_inv
    {mem : ByteMemory}
    {calls : List SlabCall}
    (hRun : Run (Guarded FitsPage SlabStep)
      (SlabSys.boot mem) calls sys) :
    ∃ V, sys.Inv V :=
  hRun.invariant (fun sys => ∃ V, sys.Inv V)
    (fun _ _ _ hInv hStep => fitsPage_step_inv hInv hStep)
    ⟨_, SlabSys.boot_inv mem⟩

--------------------
-- Requests That Do Not Fit
--------------------

/- The only object of its slab lies 48 bytes into the page. -/
theorem Core.large_addr
    {created large : List Addr}
    {cache o : Addr}
    (hCore : Core s created large V)
    (hCache : cache ∈ created)
    (hLarge : 2016 < (s.caches cache).objSize.toNat)
    (ho : o ∈ (V cache).used) :
    ∃ page, IsPage page ∧ o.toNat = page.toNat + 48 := by
  rcases List.mem_flatMap.mp ho with ⟨w, hw, ho⟩
  have hOk := hCore.slab_ok hCache hw
  have hShape := (hCore.caches cache hCache).shape
  have hOne := hShape.numObjs_eq_one hLarge
  have hMem := hOk.objs.mem_iff.mp (List.mem_append_right _ ho)
  rcases mem_slabObjs hOk.isPage hShape.numObjs_eq hMem with
    ⟨i, hi, hEq⟩
  have hZero : i = 0 := by omega
  rw [hZero] at hEq
  exact ⟨w.page, hOk.isPage, by omega⟩

/- A block that does not fit is not inside its page. -/
theorem SlabSys.Inv.kmalloc_large
    {size page : U64}
    {fuel : Nat}
    {ptr : Addr}
    {created : List Addr}
    (hInv : sys.Inv V)
    (hLarge : ¬ FitsPage sys (.kmalloc size page))
    (hPage : PageAnswer sys.state page)
    (hCall :
      slabKmalloc fuel sys.state size page =
        some (some ptr, s)) :
    ¬ SlabSys.Contained
      ⟨s, created,
        grant (slabCacheLookup sys.state size).1 size true
          sys.live (some ptr)⟩ := by
  intro hContained
  rcases hContained.inside _ (List.mem_cons_self ..) with
    ⟨page', _, hIs', hHome, hFrom, hTo⟩
  simp only [FitsPage, not_or] at hLarge
  rcases hLarge with ⟨hLarge, hCached⟩
  unfold slabKmalloc at hCall
  rw [if_neg (by rintro rfl; simp at hLarge)] at hCall
  simp only at hFrom hTo
  rcases hLookup : slabCacheLookup sys.state size with
    ⟨owner, s₁⟩
  rw [hLookup] at hHome hCached
  simp only [slabAllocSize, hLookup] at hCall
  cases owner with
  | none =>
      have hEq : page' = ptr := hHome
      rw [hEq] at hTo
      refine hCached ⟨by omega, rfl⟩
  | some c =>
      rcases hInv.lookup hLookup with
        ⟨V₁, hInv₁, hPages, _, hOwner⟩
      rcases hOwner c rfl with ⟨hc, hSize⟩
      have hPage₁ : PageAnswer s₁ page := by
        unfold PageAnswer at hPage ⊢
        rwa [hPages]
      rcases slabAlloc_spec hInv₁.core (hInv₁.sorted c hc) hc
          hPage₁ with
        ⟨obj, s', v, hAlloc, hCore, _, _, hUsed, hKeeps, _⟩
      cases slabAlloc_unique hCall hAlloc
      have ho : ptr ∈ (Function.update V₁ c v c).used := by
        rw [Function.update_self]
        exact hUsed.mem_iff.mpr (by simp)
      have hObj : 2016 < (s.caches c).objSize.toNat := by
        rw [hKeeps.objSize]
        exact Nat.lt_of_lt_of_le (by omega) hSize
      rcases hCore.large_addr hc hObj ho with
        ⟨home, hIs, hAddr⟩
      have hMod := hIs.2
      have hMod' := hIs'.2
      omega

--------------------
-- The Objects Of A New Slab
--------------------

/-
  Whenever a cache of this size is created and a slab is made
  for it later, the free list of the slab holds `num_objs`
  objects of this size, apart from each other, between the
  reserved part and the end of the page, each with room for
  a link.
-/
def LaysOut (objSize : U64) : Prop :=
  ∀ (s : SlabState) (align : U64) (flags : U32)
    (ctor dtor : Option ObjHook) (cache : Addr)
    (s₁ t : SlabState) (page slab : Addr) (t₁ : SlabState),
    slabCacheCreate s objSize align flags ctor dtor =
      (some cache, s₁) →
    (t.caches cache).objSize = (s₁.caches cache).objSize →
    (t.caches cache).numObjs = (s₁.caches cache).numObjs →
    IsPage page →
    slabCreate t cache page = (some slab, t₁) →
    sizeofObjPtr.toNat ≤ objSize.toNat ∧
      ∃ objs,
        Chain (loadPtr t₁.mem) (t₁.slabs slab).freeList objs ∧
          objs.length = (t₁.slabs slab).numObjs.toNat ∧
          (∀ o ∈ objs,
            page.toNat + sizeofSlab.toNat ≤ o.toNat ∧
              o.toNat + objSize.toNat ≤
                page.toNat + slabPageSize.toNat) ∧
          objs.Pairwise fun a b =>
            a.toNat + objSize.toNat ≤ b.toNat ∨
              b.toNat + objSize.toNat ≤ a.toNat

/- The record that a new cache starts with. -/
theorem slabCacheCreate_record
    {s s₁ : SlabState}
    {objSize align : U64}
    {flags : U32}
    {ctor dtor : Option ObjHook}
    {cache : Addr}
    (hCreate :
      slabCacheCreate s objSize align flags ctor dtor =
        (some cache, s₁)) :
    s₁.caches cache =
      newCache objSize align flags ctor dtor
        s.cacheIdCounter := by
  rcases slabCacheCreate_cases s objSize align flags ctor
      dtor with
    ⟨_, hFail⟩ | ⟨_, s', hMade, hAdds, _⟩
  · rw [hFail] at hCreate
    simp at hCreate
  · rw [hMade] at hCreate
    cases hCreate
    rw [hAdds.caches, Function.update_self]

/- The head stays what the first turn made it. -/
theorem buildFreeList_head
    {objSize : U32}
    {n : Nat}
    {obj objPtr : Addr}
    {list : Option Addr × ByteMemory} :
    (buildFreeList objSize n (.next obj) objPtr list).1 =
      list.1 := by
  induction n generalizing obj objPtr list with
  | zero => rfl
  | succ n ih =>
      simp only [buildFreeList]
      rw [ih]
      rfl

theorem laysOut_of_le
    {objSize : U64}
    (hFrom : 8 ≤ objSize.toNat)
    (hTo : objSize.toNat ≤ 4048) :
    LaysOut objSize := by
  intro s align flags ctor dtor cache s₁ t page slab t₁
    hCreate hSize hNum hPage hSlab
  have hRecord := slabCacheCreate_record hCreate
  rw [hRecord] at hSize hNum
  simp only [newCache] at hSize hNum
  have hBytes :
      (t.caches cache).objSize.toNat = objSize.toNat := by
    rw [hSize, BitVec.toNat_setWidth]
    omega
  rw [← hSize] at hNum
  rcases slabCreate_cases t cache page with
    ⟨hFail, _⟩ | ⟨_, _, t', hMade, hAdds, _⟩
  · rw [hFail] at hSlab
    simp at hSlab
  rw [hMade] at hSlab
  cases hSlab
  have hRoom : objRoom (t.caches cache).objSize =
      objSize.toNat := by
    unfold objRoom
    omega
  have hInside : ∀ o ∈ slabObjs page (t.caches cache).objSize
      (t.caches cache).numObjs,
      page.toNat + 48 ≤ o.toNat ∧
        o.toNat + objSize.toNat ≤ page.toNat + 4096 := by
    intro o ho
    have hIn := slabObjs_inside hPage hNum ho
    rwa [hRoom] at hIn
  have hOrder :
      (slabObjs page (t.caches cache).objSize
        (t.caches cache).numObjs).Pairwise
          fun a b => a.toNat + objSize.toNat ≤ b.toNat := by
    have hPairs := pairwise_slabObjs hPage hNum
    rwa [hBytes] at hPairs
  have hFits := hPage.fits
  have hChain :=
    @buildFreeList_chain (t.caches cache).objSize
      (t.caches cache).numObjs.toNat (page + sizeofSlab)
      (none, t.mem)
      (hOrder.imp fun hLe => by omega)
      (fun o ho => by
        have hIn := hInside o ho
        omega)
  rw [← hAdds.list] at hChain
  refine ⟨hFrom, _, hChain, ?_, hInside,
    hOrder.imp Or.inl⟩
  rw [length_objAddrs, hAdds.numObjs_eq]

/- The first cache, with a slab for it. -/
theorem slabCreate_boot
    (objSize : U64) :
    ∃ cache s slab t,
      slabCacheCreate (SlabSys.boot fun _ => 0#8).state objSize
          8#64 0#32 none none =
          (some cache, s) ∧
        slabCreate s cache 0x400000#64 = (some slab, t) ∧
        (0 < (s.caches cache).numObjs.toNat →
          (t.slabs slab).freeList = some 0x400030#64) := by
  rcases slabCacheCreate_cases
      (SlabSys.boot fun _ => 0#8).state objSize 8#64 0#32 none
      none with
    ⟨hLow, _⟩ | ⟨_, s, hMade, hAdds, _⟩
  · simp [SlabSys.boot, SlabState.boot, Heap.initial,
      heapSize] at hLow
  rcases slabCreate_cases s
      (SlabSys.boot fun _ => 0#8).state.heap.heapPtr
      0x400000#64 with
    ⟨_, hFail⟩ | ⟨_, _, t, hSlab, hNew, _⟩
  · have hLeft := hAdds.heapLeft
    have hBoot :
        (SlabSys.boot fun _ => 0#8).state.heap.heapLeft.toNat =
          0x100000 := by
      decide
    rcases hFail with hZero | hLow
    · simp at hZero
    · omega
  · refine ⟨_, s, _, t, hMade, hSlab, ?_⟩
    intro hPos
    have hHead := congrArg Prod.fst hNew.list
    rcases Nat.exists_eq_succ_of_ne_zero
        (Nat.pos_iff_ne_zero.mp hPos) with
      ⟨n, hn⟩
    rw [hn] at hHead
    simp only [buildFreeList, buildFreeList_head] at hHead
    exact hHead

theorem le_of_laysOut
    {objSize : U64}
    (hLays : LaysOut objSize) :
    8 ≤ objSize.toNat ∧ objSize.toNat ≤ 4048 := by
  rcases slabCreate_boot objSize with
    ⟨cache, s, slab, t, hCreate, hSlab, hHead⟩
  rcases hLays _ _ _ _ _ _ _ _ _ _ _ hCreate rfl rfl
      ⟨by decide, by decide⟩ hSlab with
    ⟨hFrom, objs, hChain, _, hInside, _⟩
  refine ⟨hFrom, ?_⟩
  have hPos : 0 < (s.caches cache).numObjs.toNat := by
    rw [slabCacheCreate_record hCreate]
    simp only [newCache]
    rw [calcNumObjs_toNat]
    omega
  have hFirst := hChain.head_eq
  rw [hHead hPos] at hFirst
  have hIn := hInside _ (List.mem_of_head? hFirst.symm)
  have hAddr : (0x400030#64 : Addr).toNat = 0x400030 := rfl
  have hPageAddr : (0x400000#64 : Addr).toNat = 0x400000 := rfl
  have hSize : slabPageSize.toNat = 4096 := rfl
  omega

/- The objects have to hold a link and to fit the page. -/
theorem laysOut_iff
    (objSize : U64) :
    LaysOut objSize ↔
      8 ≤ objSize.toNat ∧ objSize.toNat ≤ 4048 :=
  ⟨le_of_laysOut, fun hLe => laysOut_of_le hLe.1 hLe.2⟩

--------------------
-- Every Run
--------------------

/-
  In a run of calls that fit, all blocks in use are inside
  their pages and apart; a request that does not fit and is
  granted puts an end to that; and the sizes whose objects
  are laid out well are those from 8 to 4048.
-/
theorem slab_contained
    (mem : ByteMemory)
    (objSize : U64) :
    (∀ calls sys,
      Run (Guarded FitsPage SlabStep) (SlabSys.boot mem) calls
          sys →
        sys.Contained ∧
          ∀ size page fuel ptr s created,
            PageAnswer sys.state page →
            slabKmalloc fuel sys.state size page =
              some (some ptr, s) →
            ¬ FitsPage sys (.kmalloc size page) →
            ¬ SlabSys.Contained
              ⟨s, created,
                grant (slabCacheLookup sys.state size).1 size
                  true sys.live (some ptr)⟩) ∧
      (LaysOut objSize ↔
        8 ≤ objSize.toNat ∧ objSize.toNat ≤ 4048) := by
  refine ⟨?_, laysOut_iff objSize⟩
  intro calls sys hRun
  rcases fitsPage_run_inv hRun with ⟨V, hInv⟩
  refine ⟨hInv.contained, ?_⟩
  intro size page fuel ptr s created hPage hCall hLarge
  exact hInv.kmalloc_large hLarge hPage hCall

theorem slab_contained_one_block :
    ∃ sys,
      Run (Guarded FitsPage SlabStep) (SlabSys.boot fun _ => 0#8)
          [.kmalloc 64#64 0x400000#64] sys ∧
        sys.Contained := by
  have hRun :
      Run (Guarded FitsPage SlabStep) (SlabSys.boot fun _ => 0#8)
        [.kmalloc 64#64 0x400000#64] _ :=
    .cons ⟨by unfold FitsPage; decide,
      @SlabStep.kmalloc _ _ _ 2 _ _
        (Or.inr ⟨⟨by decide, by decide⟩, by decide⟩) rfl⟩
      (.nil _)
  exact ⟨_, hRun, ((slab_contained _ 8#64).1 _ _ hRun).1⟩

/- A request of a whole page overruns the page. -/
theorem slab_kmalloc_not_contained :
    ¬ ∀ mem calls sys,
      Run SlabStep (SlabSys.boot mem) calls sys →
        sys.Contained := by
  intro hAll
  have hPage :
      PageAnswer (SlabSys.boot fun _ => 0#8).state
        0x400000#64 :=
    Or.inr ⟨⟨by decide, by decide⟩, by decide⟩
  have hCall : ∃ s,
      slabKmalloc 2 (SlabSys.boot fun _ => 0#8).state 4096#64
        0x400000#64 = some (some 0x400030#64, s) :=
    ⟨_, rfl⟩
  rcases hCall with ⟨s, hCall⟩
  exact (SlabSys.boot_inv fun _ => 0#8).kmalloc_large
    (by unfold FitsPage; decide) hPage hCall
    (hAll _ [.kmalloc 4096#64 0x400000#64] _
      (.cons (.kmalloc hPage hCall) (.nil _)))

end FeatherOS
