import FeatherOS.Slab.Blocks

/-
  The lists, the free lists and the counters of every cache
  agree after any sequence of calls, and no allocation hands
  out an object that is in use.

  Key definitions include:
    * `CacheLists`

  Key theorems include:
    * `SlabSys.Inv.cacheLists`
    * `SlabSys.Inv.alloc_fresh`
    * `slab_run_consistent`
-/

namespace FeatherOS

--------------------
-- What The Records Say
--------------------

/-
  The three lists of a cache, read off its pointers, and what
  the records of the slabs on them say.
-/
structure CacheLists
    (s : SlabState)
    (cache : Addr)
    (full part empty : List Addr) : Prop where
  full_chain :
    Chain (fun p => (s.slabs p).next)
      (s.caches cache).slabsFull full
  partial_chain :
    Chain (fun p => (s.slabs p).next)
      (s.caches cache).slabsPartial part
  empty_chain :
    Chain (fun p => (s.slabs p).next)
      (s.caches cache).slabsEmpty empty
  once : (full ++ part ++ empty).Nodup
  full_free : ∀ p ∈ full, (s.slabs p).numFree = 0#32
  partial_free : ∀ p ∈ part, 1#32 ≤ (s.slabs p).numFree
  empty_free : ∀ p ∈ empty,
    (s.slabs p).numFree = (s.slabs p).numObjs
  free_list : ∀ p ∈ full ++ part ++ empty, ∃ objs,
    Chain (loadPtr s.mem) (s.slabs p).freeList objs ∧
      objs.Nodup ∧ objs.length = (s.slabs p).numFree.toNat
  num_slabs :
    (s.caches cache).numSlabs.toNat =
      (full ++ part ++ empty).length
  num_objs_total :
    (s.caches cache).numObjsTotal.toNat =
      ((full ++ part ++ empty).map fun p =>
        (s.slabs p).numObjs.toNat).sum
  num_objs_free :
    (s.caches cache).numObjsFree.toNat =
      ((full ++ part ++ empty).map fun p =>
        (s.slabs p).numFree.toNat).sum

--------------------
-- The Counters Do Not Wrap
--------------------

section Counters

variable {s : SlabState}
variable {created large : List Addr}
variable {V : Addr → CacheView}
variable {c : Addr}

/- Every slab has used up 48 bytes of the kernel heap. -/
theorem Core.length_all_le
    (hCore : Core s created large V)
    (hc : c ∈ created) :
    (V c).all.length ≤ 21845 := by
  have hRoom := (hCore.placed_split hc).room
  have hEnd := s.heap.heapPtr_le
  rw [List.length_append] at hRoom
  simp only [heapSize] at hEnd
  omega

/- The smallest objects are the most. -/
theorem SlabCache.Ok.numObjs_le
    {r : SlabCache}
    (hOk : r.Ok) :
    r.numObjs.toNat ≤ 253 := by
  have hSize := hOk.size_ge
  rw [hOk.numObjs_eq, calcNumObjs_toNat]
  have hQuot : 4048 / (r.objSize.toNat + 8) ≤ 4048 / 16 :=
    Nat.div_le_div_left (by omega) (by omega)
  omega

theorem Core.toNat_numFree
    {w : SlabView}
    (hCore : Core s created large V)
    (hc : c ∈ created)
    (hw : w ∈ (V c).all) :
    (s.slabs w.ptr).numFree.toNat = w.free.length := by
  have hLen := (hCore.length_lt hc hw).2
  rw [(hCore.slab_ok hc hw).numFree_eq, BitVec.toNat_ofNat]
  omega

/- The free objects of all slabs are at most all objects. -/
theorem Core.sum_free_le
    {ws : List SlabView}
    (hCore : Core s created large V)
    (hc : c ∈ created)
    (hIn : ∀ w ∈ ws, w ∈ (V c).all) :
    (ws.map fun w => w.free.length).sum ≤
      ws.length * (s.caches c).numObjs.toNat := by
  induction ws with
  | nil => simp
  | cons w ws ih =>
      rw [List.forall_mem_cons] at hIn
      have hRest := ih hIn.2
      have hLen := (hCore.length_lt hc hIn.1).1
      rw [List.map_cons, List.sum_cons, List.length_cons,
        Nat.succ_mul]
      omega

end Counters

--------------------
-- The Lists Of A Cache
--------------------

namespace SlabSys.Inv

variable {sys : SlabSys}
variable {V : Addr → CacheView}
variable {c : Addr}

theorem cacheLists
    (hInv : sys.Inv V)
    (hc : c ∈ sys.created) :
    CacheLists sys.state c ((V c).ptrs .slabsFull)
      ((V c).ptrs .slabsPartial)
      ((V c).ptrs .slabsEmpty) := by
  have hCore := hInv.core
  have hMine := hCore.caches c hc
  have hSorted := hInv.sorted c hc
  have hAll :
      (V c).ptrs .slabsFull ++ (V c).ptrs .slabsPartial ++
          (V c).ptrs .slabsEmpty =
        (V c).all.map SlabView.ptr := by
    simp [CacheView.ptrs, CacheView.all]
  have hLen := hCore.length_all_le hc
  have hMax := hMine.shape.numObjs_le
  have hTotal := Nat.mul_le_mul hLen hMax
  refine
    { full_chain := hMine.linked.chain .slabsFull
      partial_chain := hMine.linked.chain .slabsPartial
      empty_chain := hMine.linked.chain .slabsEmpty
      once := ?_
      full_free := ?_
      partial_free := ?_
      empty_free := ?_
      free_list := ?_
      num_slabs := ?_
      num_objs_total := ?_
      num_objs_free := ?_ }
  · rw [hAll]
    exact hCore.all_nodup hc
  · intro p hp
    rcases List.mem_map.mp hp with ⟨w, hw, rfl⟩
    have hIn := CacheView.mem_all .slabsFull hw
    rw [(hCore.slab_ok hc hIn).numFree_eq, hSorted.full w hw]
    rfl
  · intro p hp
    rcases List.mem_map.mp hp with ⟨w, hw, rfl⟩
    have hIn := CacheView.mem_all .slabsPartial hw
    have hPos :=
      List.length_pos_iff.mpr (hSorted.partly w hw)
    rw [BitVec.le_def, hCore.toNat_numFree hc hIn]
    exact hPos
  · intro p hp
    rcases List.mem_map.mp hp with ⟨w, hw, rfl⟩
    have hIn := CacheView.mem_all .slabsEmpty hw
    have hObjs := (hCore.length_lt hc hIn).1
    rw [hSorted.empty w hw, List.length_nil] at hObjs
    rw [(hCore.slab_ok hc hIn).numObjs_eq]
    apply BitVec.eq_of_toNat_eq
    rw [hCore.toNat_numFree hc hIn]
    exact hObjs
  · intro p hp
    rw [hAll] at hp
    rcases List.mem_map.mp hp with ⟨w, hw, rfl⟩
    refine ⟨w.free, (hCore.slab_ok hc hw).chain, ?_,
      (hCore.toNat_numFree hc hw).symm⟩
    exact (List.nodup_append.mp (hCore.objs_nodup hc hw)).1
  · rw [hAll, List.length_map, hMine.stocked.numSlabs_eq,
      BitVec.toNat_ofNat]
    omega
  · rw [hAll, List.map_map, hMine.stocked.total_eq,
      BitVec.toNat_ofNat]
    have hEach :
        (V c).all.map ((fun p =>
            (sys.state.slabs p).numObjs.toNat) ∘
              SlabView.ptr) =
          (V c).all.map fun _ =>
            (sys.state.caches c).numObjs.toNat := by
      refine List.map_congr_left fun w hw => ?_
      simp only [Function.comp_apply,
        (hCore.slab_ok hc hw).numObjs_eq]
    rw [hEach, List.map_const', List.sum_replicate_nat]
    omega
  · rw [hAll, List.map_map, hMine.stocked.free_eq,
      BitVec.toNat_ofNat]
    have hEach :
        (V c).all.map ((fun p =>
            (sys.state.slabs p).numFree.toNat) ∘
              SlabView.ptr) =
          (V c).all.map fun w => w.free.length := by
      refine List.map_congr_left fun w hw => ?_
      simp only [Function.comp_apply,
        hCore.toNat_numFree hc hw]
    have hLe := hCore.sum_free_le hc fun w hw => hw
    rw [hEach]
    omega

--------------------
-- Fresh Objects
--------------------

/- An allocation returns, and what it returns is not in use. -/
theorem alloc_fresh
    {page : U64}
    (hInv : sys.Inv V)
    (hc : c ∈ sys.created)
    (hPage : PageAnswer sys.state page) :
    ∃ obj s, slabAlloc page 2 sys.state (some c) =
        some (obj, s) ∧
      ∀ o, obj = some o → ∀ b ∈ sys.live, b.addr ≠ o := by
  rcases slabAlloc_spec hInv.core (hInv.sorted c hc) hc
      hPage with
    ⟨obj, s, v, hAlloc, hCore, _, _, hUsed, _⟩
  refine ⟨obj, s, hAlloc, ?_⟩
  rintro o rfl b hb rfl
  have hNew : b.addr ∈ v.used :=
    hUsed.mem_iff.mpr (by simp)
  rcases List.mem_flatMap.mp hNew with ⟨w, hw, ho⟩
  have hw' : w ∈ (Function.update V c v c).all := by
    rwa [Function.update_self]
  have hMem := mem_ownedBy hb
  cases hOwner : b.owner with
  | none =>
      -- A page of its own is no object of a slab.
      rw [hOwner] at hMem
      have hInside :=
        hCore.obj_inside hc hw' (List.mem_append_right _ ho)
      have hGe := objRoom_ge (hCore.caches c hc).shape.size_ge
      have hApart :=
        (hCore.slab_ok hc hw').isPage.apart
          (hCore.placed.large_page _ hMem)
          (hCore.used_ne_large hc hw' hMem)
      omega
  | some d =>
      have hd := (hInv.ledger.owned b hb d hOwner).1
      rw [hOwner] at hMem
      have hOld := (hInv.ledger.used d hd).mem_iff.mpr hMem
      by_cases hEq : d = c
      · subst hEq
        have hNodup := hCore.used_nodup hc
        rw [Function.update_self] at hNodup
        have hOnce := hUsed.nodup_iff.mp hNodup
        exact (List.nodup_cons.mp hOnce).1 hOld
      · rcases List.mem_flatMap.mp hOld with ⟨x, hx, ho'⟩
        have hx' : x ∈ (Function.update V c v d).all := by
          rwa [Function.update_of_ne hEq]
        exact hEq (hCore.same_slab_of_mem hd hc hx' hw' ho'
          ho).1

/- A free of an object in use returns. -/
theorem free_returns
    {b : Block}
    (hInv : sys.Inv V)
    (hb : b ∈ sys.live)
    (hOwner : b.owner = some c) :
    ∃ fuel s, slabFree fuel sys.state (some c) (some b.addr) =
      some s := by
  have hc := (hInv.ledger.owned b hb c hOwner).1
  have hMem := mem_ownedBy hb
  rw [hOwner] at hMem
  have hUsed := (hInv.ledger.used c hc).mem_iff.mpr hMem
  rcases slabFree_spec hInv.core (hInv.sorted c hc) hc hUsed
      (Nat.lt_succ_self _) with
    ⟨s, _, hFree, _⟩
  exact ⟨_, s, hFree⟩

end SlabSys.Inv

--------------------
-- Every Run
--------------------

/-
  Whatever the calls, the lists, the free lists and the
  counters of every cache agree, and a call of `slab_alloc`
  returns NULL or an object that no block in use starts at.
-/
theorem slab_run_consistent
    {mem : ByteMemory}
    {calls : List SlabCall}
    {sys : SlabSys}
    {c : Addr}
    (hRun : Run (Guarded Fits SlabStep) (SlabSys.boot mem)
      calls sys)
    (hc : c ∈ sys.created) :
    (∃ full part empty,
        CacheLists sys.state c full part empty) ∧
      (∀ page, PageAnswer sys.state page →
        ∃ fuel r, slabAlloc page fuel sys.state (some c) =
          some r) ∧
      (∀ page fuel o s, PageAnswer sys.state page →
        slabAlloc page fuel sys.state (some c) =
          some (some o, s) →
        ∀ b ∈ sys.live, b.addr ≠ o) ∧
      ∀ b ∈ sys.live, b.owner = some c →
        ∃ fuel s,
          slabFree fuel sys.state (some c) (some b.addr) =
            some s := by
  rcases slab_run_inv hRun with ⟨V, hInv⟩
  refine ⟨⟨_, _, _, hInv.cacheLists hc⟩, ?_, ?_, ?_⟩
  · intro page hPage
    rcases hInv.alloc_fresh hc hPage with ⟨obj, s, hAlloc, _⟩
    exact ⟨2, (obj, s), hAlloc⟩
  · intro page fuel o s hPage hCall
    rcases hInv.alloc_fresh hc hPage with
      ⟨obj, s', hAlloc, hFresh⟩
    have hSame := slabAlloc_unique hCall hAlloc
    exact hFresh o (congrArg Prod.fst hSame).symm
  · exact fun b hb hOwner => hInv.free_returns hb hOwner

theorem slab_run_consistent_one_object :
    ∃ sys,
      Run (Guarded Fits SlabStep) (SlabSys.boot fun _ => 0#8)
          [.create 1024#64 8#64 0#32 none none,
            .alloc 0x200000#64 0x400000#64] sys ∧
        ∃ full part empty,
          CacheLists sys.state 0x200000#64 full part empty := by
  have hRun :
      Run (Guarded Fits SlabStep) (SlabSys.boot fun _ => 0#8)
        [.create 1024#64 8#64 0#32 none none,
          .alloc 0x200000#64 0x400000#64] _ :=
    .cons ⟨by unfold Fits; decide, .create rfl⟩
      (.cons ⟨by unfold Fits; decide,
        @SlabStep.alloc _ _ _ 2 _ _ (by decide)
          (Or.inr ⟨by unfold IsPage; decide, by decide⟩) rfl⟩
        (.nil _))
  exact ⟨_, hRun,
    (slab_run_consistent hRun (by decide)).1⟩

end FeatherOS
