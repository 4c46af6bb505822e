import FeatherOS.Slab.System

/-
  The ledger agrees with the slab layer after every call.

  Each cache has in use exactly the blocks that the ledger
  lists for it, every block fits its object, and a lookup by
  the size of a block finds the cache it was taken from.

  Key definitions include:
    * `ownedBy`
    * `Ledger`
    * `SlabSys.Inv`

  Key theorems include:
    * `slabStep_inv`
    * `slab_run_inv`
-/

namespace FeatherOS

--------------------
-- Blocks By Owner
--------------------

/- The blocks taken from one cache, or the large ones. -/
def ownedBy
    (live : List Block)
    (owner : Option Addr) :
    List Addr :=
  (live.filter fun b => b.owner = owner).map Block.addr

theorem ownedBy_perm
    {live live' : List Block}
    {owner : Option Addr}
    (hPerm : live.Perm live') :
    (ownedBy live owner).Perm (ownedBy live' owner) :=
  (hPerm.filter _).map _

theorem ownedBy_cons
    (b : Block)
    (live : List Block)
    (owner : Option Addr) :
    ownedBy (b :: live) owner =
      if b.owner = owner then b.addr :: ownedBy live owner
      else ownedBy live owner := by
  unfold ownedBy
  by_cases hEq : b.owner = owner
  · simp [hEq]
  · simp [hEq]

theorem ownedBy_grant
    (owner : Option Addr)
    (size : U64)
    (sized : Bool)
    (live : List Block)
    (obj : Option Addr) :
    ownedBy (grant owner size sized live obj) owner =
      obj.toList ++ ownedBy live owner := by
  cases obj with
  | none => rfl
  | some o => simp [grant, ownedBy_cons]

variable {size : U64}
variable {live : List Block}
variable {obj owner : Option Addr}
variable {sized : Bool}

theorem ownedBy_grant_of_ne
    {owner owner' : Option Addr}
    (hNe : owner ≠ owner') :
    ownedBy (grant owner size sized live obj) owner' =
      ownedBy live owner' := by
  cases obj with
  | none => rfl
  | some o => simp [grant, ownedBy_cons, hNe]

variable {b : Block}

/- A block and the others of its owner. -/
theorem ownedBy_erase
    (hb : b ∈ live) :
    (ownedBy live b.owner).Perm
      (b.addr :: ownedBy (live.erase b) b.owner) := by
  have hPerm :=
    @ownedBy_perm _ _ b.owner (List.perm_cons_erase hb)
  simpa [ownedBy_cons] using hPerm

theorem ownedBy_erase_of_ne
    (hb : b ∈ live)
    (hNe : b.owner ≠ owner) :
    (ownedBy (live.erase b) owner).Perm
      (ownedBy live owner) := by
  have hPerm :=
    @ownedBy_perm _ _ owner (List.perm_cons_erase hb)
  rw [ownedBy_cons, if_neg hNe] at hPerm
  exact hPerm.symm

theorem mem_ownedBy
    (hb : b ∈ live) :
    b.addr ∈ ownedBy live b.owner := by
  refine List.mem_map_of_mem (List.mem_filter.mpr ⟨hb, ?_⟩)
  simp

theorem mem_grant
    (hb : b ∈ grant owner size sized live obj) :
    b ∈ live ∨
      b.owner = owner ∧ b.size = size ∧ b.sized = sized := by
  cases obj with
  | none => exact Or.inl hb
  | some o =>
      rcases List.mem_cons.mp hb with rfl | hb
      · exact Or.inr ⟨rfl, rfl, rfl⟩
      · exact Or.inl hb

--------------------
-- Lookups
--------------------

variable {i : Fin 10}

/- The first size that fits is large enough. -/
theorem sizeIndex_le
    (hIndex : sizeIndex size = some i) :
    size.toNat ≤ (sizeCacheSizes i).toNat := by
  have hLe := List.find?_some hIndex
  simp only [decide_eq_true_eq, BitVec.le_def,
    BitVec.toNat_setWidth] at hLe
  have hLt := (sizeCacheSizes i).isLt
  omega

theorem sizeCacheSizes_ge
    (i : Fin 10) :
    8 ≤ (sizeCacheSizes i).toNat := by
  revert i
  decide

variable {s : SlabState}

/- `size_caches[i]` is filled unless the heap is used up. -/
theorem createSizeCache_cases
    (hNone : s.sizeCaches i = none) :
    (s.heap.heapLeft.toNat < 112 ∧
        createSizeCache s i = s) ∨
      (112 ≤ s.heap.heapLeft.toNat ∧
        AddsCache s (createSizeCache s i)
          (newCache ((sizeCacheSizes i).setWidth 64) 8#64 0#32
            none none s.cacheIdCounter) ∧
        (createSizeCache s i).sizeCaches =
          Function.update s.sizeCaches i
            (some s.heap.heapPtr) ∧
        (createSizeCache s i).slabInitialized =
          s.slabInitialized) := by
  rcases slabCacheCreate_cases s
      ((sizeCacheSizes i).setWidth 64) 8#64 0#32 none none with
    ⟨hLeft, hFail⟩ | ⟨hLeft, s', hMade, hAdds, hSizes, hInit⟩
  · refine Or.inl ⟨hLeft, ?_⟩
    unfold createSizeCache
    rw [hFail]
    simp only
    rw [← hNone, Function.update_eq_self]
  · refine Or.inr ⟨hLeft, ?_⟩
    unfold createSizeCache
    rw [hMade]
    simp only [hSizes]
    exact ⟨⟨hAdds.heapPtr, hAdds.heapLeft, hAdds.pages,
      hAdds.mem, hAdds.slabs, hAdds.caches⟩, trivial, hInit⟩

/- A lookup finds nothing, finds a cache, or creates one. -/
theorem slabCacheLookup_cases
    (s : SlabState)
    (size : U64) :
    (slabCacheLookup s size = (none, s) ∧
        ∀ i, size ≠ 0#64 → sizeIndex size = some i →
          s.sizeCaches i = none ∧
            s.heap.heapLeft.toNat < 112) ∨
      (∃ i c, size ≠ 0#64 ∧ sizeIndex size = some i ∧
        s.sizeCaches i = some c ∧
        slabCacheLookup s size = (some c, s)) ∨
      (∃ i, size ≠ 0#64 ∧ sizeIndex size = some i ∧
        s.sizeCaches i = none ∧
        112 ≤ s.heap.heapLeft.toNat ∧
        slabCacheLookup s size =
          (some s.heap.heapPtr, createSizeCache s i)) := by
  by_cases hZero : size = 0#64
  · refine Or.inl ⟨by simp [slabCacheLookup, hZero], ?_⟩
    intro i hNe
    exact absurd hZero hNe
  cases hIndex : sizeIndex size with
  | none =>
      refine Or.inl ⟨?_, by simp⟩
      simp only [slabCacheLookup, hZero, if_false, hIndex]
  | some i =>
      cases hCache : s.sizeCaches i with
      | some c =>
          refine Or.inr (Or.inl ⟨i, c, hZero, rfl, hCache, ?_⟩)
          simp only [slabCacheLookup, hZero, if_false, hIndex,
            hCache]
      | none =>
          have hLookup :
              slabCacheLookup s size =
                ((createSizeCache s i).sizeCaches i,
                  createSizeCache s i) := by
            simp only [slabCacheLookup, hZero, if_false,
              hIndex, hCache]
          rcases createSizeCache_cases hCache with
            ⟨hLeft, hSame⟩ | ⟨hLeft, _, hSizes, _⟩
          · refine Or.inl ⟨?_, ?_⟩
            · rw [hLookup, hSame, hCache]
            · intro j _ hj
              cases hj
              exact ⟨hCache, hLeft⟩
          · refine Or.inr (Or.inr
              ⟨i, hZero, rfl, hCache, hLeft, ?_⟩)
            rw [hLookup, hSizes, Function.update_self]

/- What a lookup found, it still finds. -/
theorem slabCacheLookup_stable
    {s s' : SlabState}
    (hOld : ∀ i c, s.sizeCaches i = some c →
      s'.sizeCaches i = some c)
    (hFull : s.heap.heapLeft.toNat < 112 →
      s'.sizeCaches = s.sizeCaches ∧
        s'.heap.heapLeft.toNat < 112)
    (hFound : slabCacheLookup s size = (owner, s)) :
    slabCacheLookup s' size = (owner, s') := by
  rcases slabCacheLookup_cases s size with
    ⟨hLookup, hNone⟩ | ⟨i, c, hZero, hIndex, hCache, hLookup⟩ |
      ⟨i, _, _, hNone, hLeft, hLookup⟩
  · rw [hFound] at hLookup
    have hOwner : owner = none := congrArg Prod.fst hLookup
    subst hOwner
    rcases slabCacheLookup_cases s' size with
      ⟨hLookup', _⟩ | ⟨i, c, hZero, hIndex, hCache, _⟩ |
        ⟨i, hZero, hIndex, _, hLeft', _⟩
    · exact hLookup'
    · rcases hNone i hZero hIndex with ⟨hEmpty, hLeft⟩
      rw [(hFull hLeft).1, hEmpty] at hCache
      simp at hCache
    · rcases hNone i hZero hIndex with ⟨_, hLeft⟩
      have hLow := (hFull hLeft).2
      omega
  · rw [hFound] at hLookup
    have hOwner : owner = some c := congrArg Prod.fst hLookup
    subst hOwner
    have hCache' := hOld i c hCache
    simp only [slabCacheLookup, hZero, if_false, hIndex, hCache']
  · -- A lookup that creates a cache uses the heap.
    rw [hFound] at hLookup
    have hState : s = createSizeCache s i :=
      congrArg Prod.snd hLookup
    rcases createSizeCache_cases hNone with
      ⟨hLow, _⟩ | ⟨_, hAdds, _, _⟩
    · omega
    · have hPtr := hAdds.heapPtr
      rw [← hState] at hPtr
      omega

--------------------
-- The Invariant
--------------------

structure Ledger
    (s : SlabState)
    (created : List Addr)
    (live : List Block)
    (V : Addr → CacheView) : Prop where
  used : ∀ c ∈ created,
    (V c).used.Perm (ownedBy live (some c))
  owned : ∀ b ∈ live, ∀ c, b.owner = some c →
    c ∈ created ∧
      b.size.toNat ≤ objRoom (s.caches c).objSize
  paged : ∀ b ∈ live, b.owner = none → b.size.toNat ≤ 4096
  lookup : ∀ b ∈ live, b.sized = true →
    slabCacheLookup s b.size = (b.owner, s)
  sizes : ∀ i c, s.sizeCaches i = some c →
    c ∈ created ∧ (s.caches c).objSize = sizeCacheSizes i

structure SlabSys.Inv
    (sys : SlabSys)
    (V : Addr → CacheView) : Prop where
  core :
    Core sys.state sys.created (ownedBy sys.live none) V
  ledger : Ledger sys.state sys.created sys.live V
  sorted : ∀ c ∈ sys.created, Sorted (V c)

/- The call keeps what a lookup depends on. -/
theorem SlabState.Keeps.lookup
    {s s' : SlabState}
    {size : U64}
    {owner : Option Addr}
    (hKeeps : s.Keeps s')
    (hFound : slabCacheLookup s size = (owner, s)) :
    slabCacheLookup s' size = (owner, s') := by
  refine slabCacheLookup_stable ?_ ?_ hFound
  · intro i c hCache
    rwa [hKeeps.sizeCaches]
  · intro hLow
    have hLe := hKeeps.heapLeft
    exact ⟨hKeeps.sizeCaches, by omega⟩

namespace SlabSys.Inv

variable {s s' : SlabState}
variable {created : List Addr}
variable {live live' : List Block}
variable {V : Addr → CacheView}
variable {v : CacheView}
variable {cache : Addr}

/- A call on one cache, and the blocks it leaves. -/
theorem onCache
    (hInv : SlabSys.Inv ⟨s, created, live⟩ V)
    (hCore : Core s' created (ownedBy live none)
      (Function.update V cache v))
    (hSorted : Sorted v)
    (hKeeps : s.Keeps s')
    (hUsed : v.used.Perm (ownedBy live' (some cache)))
    (hOther : ∀ owner, owner ≠ some cache →
      (ownedBy live' owner).Perm (ownedBy live owner))
    (hLive : ∀ b ∈ live', b ∈ live ∨
      b.owner = some cache ∧ cache ∈ created ∧
        b.size.toNat ≤ objRoom (s.caches cache).objSize ∧
        (b.sized = true →
          slabCacheLookup s b.size = (b.owner, s))) :
    SlabSys.Inv ⟨s', created, live'⟩
      (Function.update V cache v) where
  core := hCore.large_perm (hOther none (by simp)).symm
  ledger := by
    have hLedger := hInv.ledger
    refine ⟨?_, ?_, ?_, ?_, ?_⟩
    · intro c hc
      by_cases hEq : c = cache
      · subst hEq
        rw [Function.update_self]
        exact hUsed
      · rw [Function.update_of_ne hEq]
        exact (hLedger.used c hc).trans
          (hOther (some c) (by simpa using hEq)).symm
    · intro b hb c hOwner
      rw [hKeeps.objSize]
      rcases hLive b hb with hOld | ⟨hNew, hIn, hSize, _⟩
      · exact hLedger.owned b hOld c hOwner
      · rw [hOwner] at hNew
        cases hNew
        exact ⟨hIn, hSize⟩
    · intro b hb hOwner
      rcases hLive b hb with hOld | ⟨hNew, _⟩
      · exact hLedger.paged b hOld hOwner
      · rw [hOwner] at hNew
        simp at hNew
    · intro b hb hSized
      refine hKeeps.lookup ?_
      rcases hLive b hb with hOld | ⟨_, _, _, hFound⟩
      · exact hLedger.lookup b hOld hSized
      · exact hFound hSized
    · intro i c hCache
      rw [hKeeps.sizeCaches] at hCache
      rw [hKeeps.objSize]
      exact hLedger.sizes i c hCache
  sorted := by
    intro c hc
    by_cases hEq : c = cache
    · subst hEq
      rw [Function.update_self]
      exact hSorted
    · rw [Function.update_of_ne hEq]
      exact hInv.sorted c hc

/- An allocation from a cache. -/
theorem alloc
    {obj : Option Addr}
    {size : U64}
    {sized : Bool}
    (hInv : SlabSys.Inv ⟨s, created, live⟩ V)
    (hCache : cache ∈ created)
    (hSize : size.toNat ≤ objRoom (s.caches cache).objSize)
    (hFound : sized = true →
      slabCacheLookup s size = (some cache, s))
    (hCore : Core s' created (ownedBy live none)
      (Function.update V cache v))
    (hSorted : Sorted v)
    (hUsed : v.used.Perm (obj.toList ++ (V cache).used))
    (hKeeps : s.Keeps s') :
    SlabSys.Inv
      ⟨s', created, grant (some cache) size sized live obj⟩
      (Function.update V cache v) := by
  refine hInv.onCache hCore hSorted hKeeps ?_ ?_ ?_
  · rw [ownedBy_grant]
    exact hUsed.trans
      ((hInv.ledger.used cache hCache).append_left _)
  · intro owner hNe
    rw [ownedBy_grant_of_ne hNe.symm]
  · intro b hb
    rcases mem_grant hb with hOld | ⟨hOwner, hBytes, hFlag⟩
    · exact Or.inl hOld
    · refine Or.inr ⟨hOwner, hCache, by rwa [hBytes], ?_⟩
      rw [hFlag, hBytes, hOwner]
      exact hFound

/- A free to a cache. -/
theorem free
    {b : Block}
    (hInv : SlabSys.Inv ⟨s, created, live⟩ V)
    (hb : b ∈ live)
    (hOwner : b.owner = some cache)
    (hCore : Core s' created (ownedBy live none)
      (Function.update V cache v))
    (hSorted : Sorted v)
    (hUsed : (V cache).used.Perm (b.addr :: v.used))
    (hKeeps : s.Keeps s') :
    SlabSys.Inv ⟨s', created, live.erase b⟩
      (Function.update V cache v) := by
  have hCache := (hInv.ledger.owned b hb cache hOwner).1
  refine hInv.onCache hCore hSorted hKeeps ?_ ?_ ?_
  · have hOld := hInv.ledger.used cache hCache
    have hErase := ownedBy_erase hb
    rw [hOwner] at hErase
    exact ((hUsed.symm.trans hOld).trans hErase).cons_inv
  · intro owner hNe
    exact ownedBy_erase_of_ne hb (by rw [hOwner]; exact hNe.symm)
  · intro d hd
    exact Or.inl (List.mem_of_mem_erase hd)

/- Dropping empty slabs. -/
theorem shrink
    (turns : Nat)
    (hInv : SlabSys.Inv ⟨s, created, live⟩ V)
    (hCache : cache ∈ created)
    (hCore : Core s' created (ownedBy live none)
      (Function.update V cache
        (Function.update (V cache) .slabsEmpty
          ((V cache .slabsEmpty).drop turns))))
    (hKeeps : s.Keeps s') :
    SlabSys.Inv ⟨s', created, live⟩
      (Function.update V cache
        (Function.update (V cache) .slabsEmpty
          ((V cache .slabsEmpty).drop turns))) := by
  have hSorted := hInv.sorted cache hCache
  have hNone : ∀ ws : List SlabView,
      (∀ w ∈ ws, w.used = []) →
        ws.flatMap SlabView.used = [] :=
    fun ws h => List.flatMap_eq_nil_iff.mpr h
  have hDrop : ∀ w ∈ (V cache .slabsEmpty).drop turns,
      w.used = [] :=
    fun w hw => hSorted.empty w (List.mem_of_mem_drop hw)
  refine hInv.onCache hCore ?_ hKeeps ?_
    (fun _ _ => List.Perm.refl _) (fun b hb => Or.inl hb)
  · exact ⟨by simpa using hSorted.full,
      by simpa using hSorted.partly, by simpa using hDrop⟩
  · refine List.Perm.trans ?_ (hInv.ledger.used cache hCache)
    simp only [CacheView.used, CacheView.all,
      List.flatMap_append, Function.update_self, ne_eq,
      reduceCtorEq, not_false_eq_true, Function.update_of_ne,
      hNone _ hDrop, hNone _ hSorted.empty]
    exact List.Perm.refl _

/- A page of its own for a block. -/
theorem addPage
    {page : Addr}
    (hInv : SlabSys.Inv ⟨s, created, live⟩ V)
    (hPage : IsPage page)
    (hFresh : page ∉ s.pages)
    (hSize : size.toNat ≤ 4096)
    (hFound : slabCacheLookup s size = (none, s)) :
    SlabSys.Inv
      ⟨{ s with pages := page :: s.pages }, created,
        ⟨none, page, size, true⟩ :: live⟩ V where
  core := by
    simp only [ownedBy_cons, if_true]
    exact hInv.core.addPage hPage hFresh
  ledger := by
    have hLedger := hInv.ledger
    have hKeeps :
        s.Keeps { s with pages := page :: s.pages } :=
      ⟨rfl, fun _ => rfl, Nat.le_refl _⟩
    refine ⟨?_, ?_, ?_, ?_, hLedger.sizes⟩
    · intro c hc
      simpa [ownedBy_cons] using hLedger.used c hc
    · intro b hb c hOwner
      rcases List.mem_cons.mp hb with rfl | hb
      · simp at hOwner
      · exact hLedger.owned b hb c hOwner
    · exact List.forall_mem_cons.mpr
        ⟨fun _ => hSize, hLedger.paged⟩
    · intro b hb hSized
      rcases List.mem_cons.mp hb with rfl | hb
      · exact hKeeps.lookup hFound
      · exact hKeeps.lookup (hLedger.lookup b hb hSized)
  sorted := hInv.sorted

theorem dropPage
    (hInv : SlabSys.Inv ⟨s, created, live⟩ V)
    (hb : b ∈ live)
    (hOwner : b.owner = none) :
    SlabSys.Inv
      ⟨slabFreePage s b.addr, created, live.erase b⟩ V where
  core := by
    have hErase := ownedBy_erase hb
    rw [hOwner] at hErase
    exact (hInv.core.large_perm hErase).dropPage
  ledger := by
    have hLedger := hInv.ledger
    have hKeeps : s.Keeps (slabFreePage s b.addr) :=
      ⟨rfl, fun _ => rfl, Nat.le_refl _⟩
    refine ⟨?_, ?_, ?_, ?_, hLedger.sizes⟩
    · intro c hc
      refine (hLedger.used c hc).trans
        (ownedBy_erase_of_ne hb ?_).symm
      rw [hOwner]
      simp
    · exact fun d hd =>
        hLedger.owned d (List.mem_of_mem_erase hd)
    · exact fun d hd =>
        hLedger.paged d (List.mem_of_mem_erase hd)
    · intro d hd hSized
      exact hKeeps.lookup
        (hLedger.lookup d (List.mem_of_mem_erase hd) hSized)
  sorted := hInv.sorted

/- A client writes a byte of a block it holds. -/
theorem write
    {addr : Addr}
    {byte : U8}
    (hInv : SlabSys.Inv ⟨s, created, live⟩ V)
    (hb : b ∈ live)
    (hFrom : b.addr.toNat ≤ addr.toNat)
    (hTo : addr.toNat < b.addr.toNat + b.size.toNat) :
    SlabSys.Inv
      ⟨{ s with mem := s.mem.patch addr 1 fun _ => byte },
        created, live⟩ V where
  core := by
    have hLedger := hInv.ledger
    have hMem := mem_ownedBy hb
    cases hOwner : b.owner with
    | none =>
        have hSize := hLedger.paged b hb hOwner
        rw [hOwner] at hMem
        refine hInv.core.patch_page
          (hInv.core.placed.large_page _ hMem) ?_ hFrom
          (by omega)
        intro x hx hEq
        have hApart :=
          (List.nodup_append.mp hInv.core.pages_nodup).2.2
        exact hApart _ (List.mem_map_of_mem hx) _ hMem hEq
    | some c =>
        rcases hLedger.owned b hb c hOwner with ⟨hc, hSize⟩
        rw [hOwner] at hMem
        have hUsed := (hLedger.used c hc).mem_iff.mpr hMem
        rcases List.mem_flatMap.mp hUsed with ⟨w, hw, ho⟩
        exact hInv.core.patch_used hc hw ho hFrom
          (by simp only at hSize ⊢; omega)
  ledger := by
    have hLedger := hInv.ledger
    have hKeeps :
        s.Keeps
          { s with
            mem := s.mem.patch addr 1 fun _ => byte } :=
      ⟨rfl, fun _ => rfl, Nat.le_refl _⟩
    exact ⟨hLedger.used, hLedger.owned, hLedger.paged,
      fun d hd hSized =>
        hKeeps.lookup (hLedger.lookup d hd hSized),
      hLedger.sizes⟩
  sorted := hInv.sorted

/- Another part of the kernel calls `kmalloc`. -/
theorem kernelAlloc
    (size : U64)
    (hInv : SlabSys.Inv ⟨s, created, live⟩ V) :
    SlabSys.Inv
      ⟨{ s with heap := (FeatherOS.kmalloc s.heap size).2 },
        created, live⟩ V where
  core := hInv.core.growHeap (kmalloc_heapPtr_le s.heap size)
  ledger := by
    have hLedger := hInv.ledger
    have hKeeps :
        s.Keeps
          { s with heap := (FeatherOS.kmalloc s.heap size).2 } :=
      ⟨rfl, fun _ => rfl, kmalloc_heapLeft_le s.heap size⟩
    exact ⟨hLedger.used, hLedger.owned, hLedger.paged,
      fun d hd hSized =>
        hKeeps.lookup (hLedger.lookup d hd hSized),
      hLedger.sizes⟩
  sorted := hInv.sorted

/- A cache without blocks joins. -/
theorem addCache
    {objSize align : U64}
    {flags id : U32}
    {ctor dtor : Option ObjHook}
    (hInv : SlabSys.Inv ⟨s, created, live⟩ V)
    (hAdds : AddsCache s s'
      (newCache objSize align flags ctor dtor id))
    (hLeft : 112 ≤ s.heap.heapLeft.toNat)
    (hOld : ∀ i c, s.sizeCaches i = some c →
      s'.sizeCaches i = some c)
    (hNew : ∀ i c, s'.sizeCaches i = some c →
      s.sizeCaches i = some c ∨
        c = s.heap.heapPtr ∧
          objSize.setWidth 32 = sizeCacheSizes i)
    (hSize : 8 ≤ (objSize.setWidth 32).toNat)
    (hHooks : (objSize.setWidth 32).toNat ≤ 4048 ∨
      ctor = none ∧ dtor = none) :
    SlabSys.Inv
      ⟨s', addCreated created (some s.heap.heapPtr), live⟩
      (Function.update V s.heap.heapPtr CacheView.nil) := by
  have hFresh : s.heap.heapPtr ∉ created := by
    intro hIn
    have hLt := hInv.core.created_lt _ hIn
    simp at hLt
  have hNe : ∀ c ∈ created, c ≠ s.heap.heapPtr := by
    rintro c hc rfl
    exact hFresh hc
  have hLedger := hInv.ledger
  have hSame : ∀ c ∈ created,
      s'.caches c = s.caches c := by
    intro c hc
    rw [hAdds.caches, Function.update_of_ne (hNe c hc)]
  have hRecord :
      s'.caches s.heap.heapPtr =
        newCache objSize align flags ctor dtor id := by
    rw [hAdds.caches, Function.update_self]
  simp only [addCreated, hFresh, if_false]
  refine ⟨hInv.core.addCache hAdds hSize hHooks,
    ⟨?_, ?_, ?_, ?_, ?_⟩, ?_⟩
  · intro c hc
    rcases List.mem_cons.mp hc with rfl | hc
    · rw [Function.update_self]
      have hNone : ownedBy live (some s.heap.heapPtr) = [] := by
        unfold ownedBy
        rw [List.map_eq_nil_iff, List.filter_eq_nil_iff]
        intro b hb hOwner
        exact hFresh (hLedger.owned b hb _
          (of_decide_eq_true hOwner)).1
      simp only [hNone]
      exact List.Perm.refl _
    · rw [Function.update_of_ne (hNe c hc)]
      exact hLedger.used c hc
  · intro b hb c hOwner
    rcases hLedger.owned b hb c hOwner with ⟨hc, hBytes⟩
    refine ⟨List.mem_cons_of_mem _ hc, ?_⟩
    simp only [hSame c hc]
    exact hBytes
  · exact hLedger.paged
  · intro b hb hSized
    refine slabCacheLookup_stable hOld ?_
      (hLedger.lookup b hb hSized)
    intro hLow
    omega
  · intro i c hCache
    rcases hNew i c hCache with hCache | ⟨rfl, hEq⟩
    · rcases hLedger.sizes i c hCache with ⟨hc, hEq⟩
      refine ⟨List.mem_cons_of_mem _ hc, ?_⟩
      simp only [hSame c hc]
      exact hEq
    · refine ⟨List.mem_cons_self, ?_⟩
      simp only [hRecord]
      exact hEq
  · intro c hc
    rcases List.mem_cons.mp hc with rfl | hc
    · rw [Function.update_self]
      exact ⟨by simp [CacheView.nil], by simp [CacheView.nil],
        by simp [CacheView.nil]⟩
    · rw [Function.update_of_ne (hNe c hc)]
      exact hInv.sorted c hc

/- Filling an entry of `size_caches`. -/
theorem addSizeCache
    (hInv : SlabSys.Inv ⟨s, created, live⟩ V)
    (hNone : s.sizeCaches i = none) :
    ∃ V', SlabSys.Inv
      ⟨createSizeCache s i,
        addCreated created ((createSizeCache s i).sizeCaches i),
        live⟩ V' := by
  rcases createSizeCache_cases hNone with
    ⟨_, hSame⟩ | ⟨hLeft, hAdds, hSizes, _⟩
  · rw [hSame, hNone]
    exact ⟨V, hInv⟩
  · have hBytes :
        ((sizeCacheSizes i).setWidth 64).setWidth 32 =
          sizeCacheSizes i := by
      simp
    have hEntry :
        (createSizeCache s i).sizeCaches i =
          some s.heap.heapPtr := by
      rw [hSizes, Function.update_self]
    rw [hEntry]
    refine ⟨_, hInv.addCache hAdds hLeft ?_ ?_ ?_
      (Or.inr ⟨rfl, rfl⟩)⟩
    · intro j c hCache
      have hNe : j ≠ i := by
        rintro rfl
        rw [hNone] at hCache
        simp at hCache
      rwa [hSizes, Function.update_of_ne hNe]
    · intro j c hCache
      rw [hSizes] at hCache
      by_cases hEq : j = i
      · subst hEq
        rw [Function.update_self] at hCache
        exact Or.inr ⟨(Option.some.inj hCache).symm, hBytes⟩
      · rw [Function.update_of_ne hEq] at hCache
        exact Or.inl hCache
    · rw [hBytes]
      exact sizeCacheSizes_ge i

end SlabSys.Inv

--------------------
-- slab_init
--------------------

/- Creating one size cache leaves the other entries alone. -/
theorem createSizeCache_of_ne
    {i j : Fin 10}
    (hNe : i ≠ j) :
    (createSizeCache s j).sizeCaches i = s.sizeCaches i := by
  unfold createSizeCache
  rcases slabCacheCreate_cases s
      ((sizeCacheSizes j).setWidth 64) 8#64 0#32 none none with
    ⟨_, hFail⟩ | ⟨_, s', hMade, _, hSizes, _⟩
  · rw [hFail]
    simp [Function.update_of_ne hNe]
  · rw [hMade]
    simp [Function.update_of_ne hNe, hSizes]

variable {l : List (Fin 10)}

theorem foldl_createSizeCache_of_notMem
    (hOut : i ∉ l) :
    (l.foldl createSizeCache s).sizeCaches i =
      s.sizeCaches i := by
  induction l generalizing s with
  | nil => rfl
  | cons j l ih =>
      simp only [List.mem_cons, not_or] at hOut
      rw [List.foldl_cons, ih hOut.2,
        createSizeCache_of_ne hOut.1]

variable {V : Addr → CacheView}
variable {created : List Addr}

/- Creating several size caches. -/
theorem SlabSys.Inv.addSizeCaches
    (hInv : SlabSys.Inv ⟨s, created, live⟩ V)
    (hNodup : l.Nodup)
    (hNone : ∀ i ∈ l, s.sizeCaches i = none) :
    ∃ V', SlabSys.Inv
      ⟨l.foldl createSizeCache s,
        l.foldl
          (fun created i =>
            addCreated created
              ((l.foldl createSizeCache s).sizeCaches
                i))
          created,
        live⟩ V' := by
  induction l generalizing s created V with
  | nil => exact ⟨V, hInv⟩
  | cons i l ih =>
      rcases List.nodup_cons.mp hNodup with ⟨hOut, hRest⟩
      rcases hInv.addSizeCache (hNone i (by simp)) with
        ⟨V₁, hInv₁⟩
      have hNone₁ : ∀ j ∈ l,
          (createSizeCache s i).sizeCaches j =
            none := by
        intro j hj
        have hNe : j ≠ i := by
          rintro rfl
          exact hOut hj
        rw [createSizeCache_of_ne hNe]
        exact hNone j (by simp [hj])
      rcases ih hInv₁ hRest hNone₁ with ⟨V', hInv'⟩
      refine ⟨V', ?_⟩
      simp only [List.foldl_cons]
      rwa [foldl_createSizeCache_of_notMem hOut]

/- The flag is not part of what the state represents. -/
theorem SlabSys.Inv.setInitialized
    (hInv : SlabSys.Inv ⟨s, created, live⟩ V) :
    SlabSys.Inv
      ⟨{ s with slabInitialized := true }, created, live⟩
      V where
  core :=
    { created_nodup := hInv.core.created_nodup
      created_lt := hInv.core.created_lt
      caches := fun d hd =>
        CacheCore.congr (s := s) rfl (fun _ _ => rfl)
          (fun _ _ _ _ => rfl) (hInv.core.caches d hd)
      placed :=
        Placed.congr (s := s) rfl rfl (List.Perm.refl _)
          (List.Perm.refl _) hInv.core.placed }
  ledger := by
    have hLedger := hInv.ledger
    have hKeeps : s.Keeps { s with slabInitialized := true } :=
      ⟨rfl, fun _ => rfl, Nat.le_refl _⟩
    exact ⟨hLedger.used, hLedger.owned, hLedger.paged,
      fun d hd hSized =>
        hKeeps.lookup (hLedger.lookup d hd hSized),
      hLedger.sizes⟩
  sorted := hInv.sorted

/- Caches that are known already. -/
theorem foldl_addCreated_of_mem
    {caches : Fin 10 → Option Addr}
    (hIn : ∀ i c, caches i = some c → c ∈ created) :
    l.foldl
        (fun created i => addCreated created (caches i))
        created = created := by
  induction l with
  | nil => rfl
  | cons i l ih =>
      rw [List.foldl_cons]
      have hSame : addCreated created (caches i) = created := by
        cases hCache : caches i with
        | none => rfl
        | some c => simp [addCreated, hIn i c hCache]
      rw [hSame]
      exact ih

variable {sys : SlabSys}

theorem SlabSys.Inv.init
    (hInv : sys.Inv V)
    (hFits : Fits sys .init) :
    ∃ V', SlabSys.Inv
      { sys with
        state := slabInit sys.state
        created :=
          (List.finRange 10).foldl
            (fun created i =>
              addCreated created
                ((slabInit sys.state).sizeCaches i))
            sys.created } V' := by
  by_cases hDone : sys.state.slabInitialized = true
  · have hSame : slabInit sys.state = sys.state := by
      simp [slabInit, hDone]
    rw [hSame, foldl_addCreated_of_mem]
    · exact ⟨V, hInv⟩
    · exact fun i c hCache =>
        (hInv.ledger.sizes i c hCache).1
  · have hNone := hFits.resolve_left hDone
    rcases hInv.addSizeCaches (List.nodup_finRange 10)
        (fun i _ => hNone i) with ⟨V', hInv'⟩
    have hEq :
        slabInit sys.state =
          { (List.finRange 10).foldl createSizeCache
              sys.state with
            slabInitialized := true } := by
      unfold slabInit
      rw [if_neg hDone]
    rw [hEq]
    generalize (List.finRange 10).foldl createSizeCache
      sys.state = s at hInv' ⊢
    exact ⟨V', hInv'.setInitialized⟩

--------------------
-- One Call
--------------------

/- The cache that a lookup leads to joins the ledger. -/
theorem SlabSys.Inv.lookup
    {s s' : SlabState}
    {created : List Addr}
    {live : List Block}
    {V : Addr → CacheView}
    {size : U64}
    {owner : Option Addr}
    (hInv : SlabSys.Inv ⟨s, created, live⟩ V)
    (hLookup : slabCacheLookup s size = (owner, s')) :
    ∃ V',
      SlabSys.Inv ⟨s', addCreated created owner, live⟩ V' ∧
        s'.pages = s.pages ∧
        slabCacheLookup s' size = (owner, s') ∧
        ∀ c, owner = some c →
          c ∈ addCreated created owner ∧
            size.toNat ≤ (s'.caches c).objSize.toNat := by
  rcases slabCacheLookup_cases s size with
    ⟨hNone, _⟩ | ⟨i, c, _, hIndex, hCache, hSome⟩ |
      ⟨i, hZero, hIndex, hEmpty, hLeft, hMade⟩
  · rw [hNone] at hLookup
    cases hLookup
    exact ⟨V, hInv, rfl, hNone, by simp⟩
  · rw [hSome] at hLookup
    cases hLookup
    rcases hInv.ledger.sizes i c hCache with ⟨hc, hSize⟩
    have hSame : addCreated created (some c) = created := by
      simp only [addCreated]
      exact if_pos hc
    rw [hSame]
    refine ⟨V, hInv, rfl, hSome, ?_⟩
    intro d hd
    cases hd
    refine ⟨hc, ?_⟩
    simp only at hSize
    rw [hSize]
    exact sizeIndex_le hIndex
  · rw [hMade] at hLookup
    cases hLookup
    rcases hInv.addSizeCache hEmpty with ⟨V', hInv'⟩
    rcases createSizeCache_cases hEmpty with
      ⟨hLow, _⟩ | ⟨_, hAdds, hSizes, _⟩
    · omega
    · have hEntry :
          (createSizeCache s i).sizeCaches i =
            some s.heap.heapPtr := by
        rw [hSizes, Function.update_self]
      rw [hEntry] at hInv'
      rcases hInv'.ledger.sizes i _ hEntry with ⟨hc, hSize⟩
      refine ⟨V', hInv', hAdds.pages, ?_, ?_⟩
      · simp only [slabCacheLookup, hZero, if_false, hIndex,
          hEntry]
      · intro d hd
        cases hd
        refine ⟨hc, ?_⟩
        simp only at hSize
        rw [hSize]
        exact sizeIndex_le hIndex

theorem SlabSys.Inv.kmalloc
    {sys : SlabSys}
    {V : Addr → CacheView}
    {size page : U64}
    {fuel : Nat}
    {ptr : Option Addr}
    {s : SlabState}
    (hInv : sys.Inv V)
    (hFits : size.toNat ≤ 4048)
    (hPage : PageAnswer sys.state page)
    (hCall :
      slabKmalloc fuel sys.state size page = some (ptr, s)) :
    ∃ V', SlabSys.Inv
      { sys with
        state := s
        created :=
          addCreated sys.created
            (slabCacheLookup sys.state size).1
        live :=
          grant (slabCacheLookup sys.state size).1 size true
            sys.live ptr } V' := by
  rcases hLookup : slabCacheLookup sys.state size with
    ⟨owner, s₁⟩
  rcases hInv.lookup hLookup with
    ⟨V₁, hInv₁, hPages, hFound, hOwner⟩
  unfold slabKmalloc at hCall
  by_cases hZero : size = 0#64
  · rw [if_pos hZero] at hCall
    cases hCall
    simp only [slabCacheLookup, hZero, if_true] at hLookup
    cases hLookup
    exact ⟨V, hInv⟩
  rw [if_neg hZero] at hCall
  simp only [slabAllocSize, hLookup] at hCall
  cases owner with
  | none =>
      simp only [slabAllocPage, Option.some.injEq] at hCall
      by_cases hNull : page = 0#64
      · rw [if_pos hNull] at hCall
        cases hCall
        exact ⟨V₁, hInv₁⟩
      · rw [if_neg hNull] at hCall
        cases hCall
        have hIs := hPage.resolve_left hNull
        rw [← hPages] at hIs
        exact ⟨V₁, hInv₁.addPage hIs.1 hIs.2 (by omega)
          hFound⟩
  | some c =>
      rcases hOwner c rfl with ⟨hc, hSize⟩
      have hPage₁ : PageAnswer s₁ page := by
        unfold PageAnswer at hPage ⊢
        rwa [hPages]
      rcases slabAlloc_spec hInv₁.core (hInv₁.sorted c hc) hc
          hPage₁ with
        ⟨obj, s', v, hAlloc, hCore, hSorted, _, hUsed,
          hKeeps, _⟩
      have hSame := slabAlloc_unique hCall hAlloc
      cases hSame
      refine ⟨_, hInv₁.alloc hc ?_ (fun _ => hFound) hCore
        hSorted hUsed hKeeps⟩
      unfold objRoom
      omega

variable {fuel : Nat}
variable {cache : Addr}

/- A `slab_alloc`, with the views it leads to. -/
theorem SlabSys.Inv.allocBlock
    {page : U64}
    (hInv : sys.Inv V)
    (hCache : cache ∈ sys.created)
    (hSmall : (sys.state.caches cache).objSize.toNat ≤ 4048)
    (hPage : PageAnswer sys.state page)
    (hCall :
      slabAlloc page fuel sys.state (some cache) =
        some (obj, s)) :
    ∃ v,
      SlabSys.Inv
          { sys with
            state := s
            live :=
              grant (some cache)
                ((sys.state.caches cache).objSize.setWidth 64)
                false sys.live obj }
          (Function.update V cache v) ∧
        (Busy (V cache) → Busy v) ∧ sys.state.Keeps s := by
  rcases slabAlloc_spec hInv.core (hInv.sorted cache hCache)
      hCache hPage with
    ⟨obj', s', v, hAlloc, hCore, hSorted, hBusy, hUsed,
      hKeeps, _⟩
  have hSame := slabAlloc_unique hCall hAlloc
  cases hSame
  refine ⟨v, hInv.alloc hCache ?_ (by simp) hCore hSorted
    hUsed hKeeps, hBusy, hKeeps⟩
  have hLt := (sys.state.caches cache).objSize.isLt
  unfold objRoom
  rw [BitVec.toNat_setWidth]
  omega

/- A `slab_free`, with the views it leads to. -/
theorem SlabSys.Inv.freeBlock
    (hInv : sys.Inv V)
    (hLive : b ∈ sys.live)
    (hOwner : b.owner = some cache)
    (hCall :
      slabFree fuel sys.state (some cache) (some b.addr) =
        some s) :
    ∃ v,
      SlabSys.Inv
          { sys with
            state := s
            live := sys.live.erase b }
          (Function.update V cache v) ∧
        (2 ≤ (sys.state.caches cache).numObjs.toNat →
          Busy (V cache) → Busy v) ∧
        sys.state.Keeps s := by
  have hCache := (hInv.ledger.owned b hLive cache hOwner).1
  have hMem := mem_ownedBy hLive
  rw [hOwner] at hMem
  have hUsed :=
    (hInv.ledger.used cache hCache).mem_iff.mpr hMem
  rcases slabFree_spec hInv.core (hInv.sorted cache hCache)
      hCache hUsed (Nat.lt_succ_self _) with
    ⟨s', v, hFree, hCore, hSorted, hBusy, hPerm, hKeeps⟩
  have hSame := slabFree_unique hCall hFree
  subst hSame
  exact ⟨v, hInv.free hLive hOwner hCore hSorted hPerm hKeeps,
    hBusy, hKeeps⟩

/- One call keeps the invariant. -/
theorem slabStep_inv
    {sys sys' : SlabSys}
    {call : SlabCall}
    (hInv : ∃ V, sys.Inv V)
    (hStep : Guarded Fits SlabStep sys call sys') :
    ∃ V, sys'.Inv V := by
  rcases hInv with ⟨V, hInv⟩
  rcases hStep with ⟨hFits, hStep⟩
  cases hStep with
  | init => exact hInv.init hFits
  | @create objSize align flags ctor dtor cache s hCall =>
      have hBytes :
          (objSize.setWidth 32).toNat = objSize.toNat := by
        have hLe := hFits.2
        rw [BitVec.toNat_setWidth]
        omega
      rcases slabCacheCreate_cases sys.state objSize align flags
          ctor dtor with
        ⟨_, hFail⟩ | ⟨hLeft, s', hMade, hAdds, hSizes, _⟩
      · rw [hFail] at hCall
        cases hCall
        exact ⟨V, hInv⟩
      · rw [hMade] at hCall
        cases hCall
        refine ⟨_, hInv.addCache hAdds hLeft ?_ ?_ ?_ ?_⟩
        · intro i c hCache
          rwa [hSizes]
        · intro i c hCache
          rw [hSizes] at hCache
          exact Or.inl hCache
        · rw [hBytes]
          exact hFits.1
        · rw [hBytes]
          exact Or.inl hFits.2
  | alloc hCache hPage hCall =>
      rcases hInv.allocBlock hCache hFits hPage hCall with
        ⟨v, hInv', _⟩
      exact ⟨_, hInv'⟩
  | free hLive hOwner hCall =>
      rcases hInv.freeBlock hLive hOwner hCall with
        ⟨v, hInv', _⟩
      exact ⟨_, hInv'⟩
  | @shrink cache hCache =>
      rcases shrinkLoop_spec 4 0#32 hInv.core
          (hInv.sorted cache hCache) hCache with
        ⟨s', hLoop, hCore, hKeeps⟩
      simp only [slabShrink, hLoop]
      exact ⟨_, hInv.shrink 4 hCache hCore hKeeps⟩
  | @kmalloc size page fuel ptr s hPage hCall =>
      exact hInv.kmalloc hFits hPage hCall
  | @kfree b fuel s hLive hSized hCall =>
      have hFound := hInv.ledger.lookup b hLive hSized
      simp only [slabKfree, slabFreeSize, hFound] at hCall
      cases hOwner : b.owner with
      | none =>
          rw [hOwner] at hCall
          cases hCall
          exact ⟨V, hInv.dropPage hLive hOwner⟩
      | some cache =>
          rw [hOwner] at hCall
          rcases hInv.freeBlock hLive hOwner hCall with
            ⟨v, hInv', _⟩
          exact ⟨_, hInv'⟩
  | write hLive hFrom hTo =>
      exact ⟨V, hInv.write hLive hFrom hTo⟩
  | kernelAlloc size => exact ⟨V, hInv.kernelAlloc size⟩

--------------------
-- Every Run
--------------------

theorem SlabSys.boot_inv
    (mem : ByteMemory) :
    (SlabSys.boot mem).Inv fun _ => CacheView.nil where
  core :=
    { created_nodup := List.nodup_nil
      created_lt := by simp [SlabSys.boot]
      caches := by simp [SlabSys.boot]
      placed :=
        { ptrs := List.nodup_nil
          ptr_lt := by simp [SlabSys.boot, allSlabs]
          pages := List.Perm.refl _
          pages_nodup := List.nodup_nil
          large_page := by simp [SlabSys.boot, ownedBy]
          room := by
            simp [SlabSys.boot, SlabState.boot, allSlabs,
              Heap.initial, heapStart] } }
  ledger :=
    { used := by simp [SlabSys.boot]
      owned := by simp [SlabSys.boot]
      paged := by simp [SlabSys.boot]
      lookup := by simp [SlabSys.boot]
      sizes := by simp [SlabSys.boot, SlabState.boot] }
  sorted := by simp [SlabSys.boot]

theorem slab_run_inv
    {mem : ByteMemory}
    {calls : List SlabCall}
    (hRun : Run (Guarded Fits SlabStep) (SlabSys.boot mem)
      calls sys) :
    ∃ V, sys.Inv V :=
  hRun.invariant (fun sys => ∃ V, sys.Inv V)
    (fun _ _ _ hInv hStep => slabStep_inv hInv hStep)
    ⟨_, SlabSys.boot_inv mem⟩

end FeatherOS
