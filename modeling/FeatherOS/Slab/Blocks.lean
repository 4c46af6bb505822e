import FeatherOS.Slab.Ledger

/-
  Where the blocks in use lie.

  Every block lies inside a page that the layer holds for it:
  the page of a slab of the cache it was taken from, or a
  page of its own. Two blocks never share a byte.

  Key definitions include:
    * `SlabSys.Home`

  Key theorems include:
    * `SlabSys.Inv.home`
    * `SlabSys.Inv.blocks_apart`
-/

namespace FeatherOS

--------------------
-- Objects In Use
--------------------

section Objects

variable {s : SlabState}
variable {created large : List Addr}
variable {V : Addr → CacheView}
variable {c d : Addr}
variable {w x : SlabView}
variable {o : Addr}

/- A page belongs to one slab of one cache. -/
theorem Core.same_slab
    (hCore : Core s created large V)
    (hc : c ∈ created)
    (hd : d ∈ created)
    (hw : w ∈ (V c).all)
    (hx : x ∈ (V d).all)
    (hPage : w.page = x.page) :
    c = d ∧ w = x := by
  have hSame :=
    hCore.page_inj (mem_allSlabs hc hw) (mem_allSlabs hd hx)
      hPage
  subst hSame
  refine ⟨?_, rfl⟩
  by_contra hNe
  exact hCore.ptr_ne hc hd (Ne.symm hNe) hw hx rfl

/- An object belongs to one slab of one cache. -/
theorem Core.same_slab_of_mem
    (hCore : Core s created large V)
    (hc : c ∈ created)
    (hd : d ∈ created)
    (hw : w ∈ (V c).all)
    (hx : x ∈ (V d).all)
    (ho : o ∈ w.used)
    (ho' : o ∈ x.used) :
    c = d ∧ w = x := by
  refine hCore.same_slab hc hd hw hx ?_
  by_contra hNe
  have hIn :=
    hCore.obj_inside hc hw (List.mem_append_right _ ho)
  have hIn' :=
    hCore.obj_inside hd hx (List.mem_append_right _ ho')
  have hGe := objRoom_ge (hCore.caches c hc).shape.size_ge
  have hGe' := objRoom_ge (hCore.caches d hd).shape.size_ge
  have hApart :=
    (hCore.slab_ok hc hw).isPage.apart
      (hCore.slab_ok hd hx).isPage hNe
  omega

/- The objects of a slab are distinct. -/
theorem Core.objs_nodup
    (hCore : Core s created large V)
    (hc : c ∈ created)
    (hw : w ∈ (V c).all) :
    (w.free ++ w.used).Nodup := by
  have hOk := hCore.slab_ok hc hw
  have hShape := (hCore.caches c hc).shape
  have hGe := hShape.size_ge
  exact hOk.objs.nodup_iff.mpr
    (nodup_slabObjs hOk.isPage hShape.numObjs_eq (by omega))

/- The slabs of a cache are distinct. -/
theorem Core.all_nodup
    (hCore : Core s created large V)
    (hc : c ∈ created) :
    ((V c).all.map SlabView.ptr).Nodup := by
  have hNodup := (hCore.placed_split hc).ptrs
  rw [List.map_append] at hNodup
  exact (List.nodup_append.mp hNodup).1

/- No object is in use twice. -/
theorem Core.used_nodup
    (hCore : Core s created large V)
    (hc : c ∈ created) :
    (V c).used.Nodup := by
  refine List.nodup_flatMap.mpr ⟨?_, ?_⟩
  · intro w hw
    exact (List.nodup_append.mp (hCore.objs_nodup hc hw)).2.1
  · refine List.Nodup.pairwise_of_forall_ne
      (hCore.all_nodup hc).of_map ?_
    intro w hw x hx hNe o ho ho'
    exact hNe (hCore.same_slab_of_mem hc hc hw hx ho ho').2

/- A large block is no object. -/
theorem Core.used_ne_large
    {page : Addr}
    (hCore : Core s created large V)
    (hc : c ∈ created)
    (hw : w ∈ (V c).all)
    (hPage : page ∈ large) :
    w.page ≠ page := by
  have hApart := (List.nodup_append.mp hCore.pages_nodup).2.2
  exact hApart _ (List.mem_map_of_mem (mem_allSlabs hc hw))
    _ hPage

end Objects

--------------------
-- Blocks And Their Pages
--------------------

namespace SlabSys

/-
  The page held for a block: that of a slab on a list of its
  cache, or the block's own.
-/
def Home
    (sys : SlabSys)
    (b : Block)
    (page : Addr) : Prop :=
  match b.owner with
  | none => page = b.addr
  | some cache =>
      ∃ list ptrs p,
        Chain (fun q => (sys.state.slabs q).next)
            ((sys.state.caches cache).head list) ptrs ∧
          p ∈ ptrs ∧ (sys.state.slabs p).page = page

namespace Inv

variable {sys : SlabSys}
variable {V : Addr → CacheView}
variable {a b : Block}

/- The page a block lies in, and whose page that is. -/
theorem page_of
    (hInv : sys.Inv V)
    (hb : b ∈ sys.live) :
    ∃ page, IsPage page ∧ page.toNat ≤ b.addr.toNat ∧
      b.addr.toNat < page.toNat + 4096 ∧
      b.addr.toNat + b.size.toNat ≤ page.toNat + 4096 ∧
      (b.owner = none ∧ page = b.addr ∧
          b.addr ∈ ownedBy sys.live none ∨
        ∃ cache, b.owner = some cache ∧
          cache ∈ sys.created ∧
          b.size.toNat ≤
            objRoom (sys.state.caches cache).objSize ∧
          ∃ w ∈ (V cache).all,
            b.addr ∈ w.used ∧ page = w.page) := by
  have hMem := mem_ownedBy hb
  cases hOwner : b.owner with
  | none =>
      have hSize := hInv.ledger.paged b hb hOwner
      rw [hOwner] at hMem
      exact ⟨b.addr, hInv.core.placed.large_page _ hMem,
        Nat.le_refl _, by omega, by omega,
        Or.inl ⟨rfl, rfl, hMem⟩⟩
  | some cache =>
      rcases hInv.ledger.owned b hb cache hOwner with
        ⟨hCache, hSize⟩
      rw [hOwner] at hMem
      have hUsed :=
        (hInv.ledger.used cache hCache).mem_iff.mpr hMem
      rcases List.mem_flatMap.mp hUsed with ⟨w, hw, ho⟩
      have hInside :=
        hInv.core.obj_inside hCache hw
          (List.mem_append_right _ ho)
      have hGe :=
        objRoom_ge
          (hInv.core.caches cache hCache).shape.size_ge
      exact ⟨w.page, (hInv.core.slab_ok hCache hw).isPage,
        by omega, by omega, by omega,
        Or.inr ⟨cache, rfl, hCache, hSize, w, hw, ho, rfl⟩⟩

/- A block lies inside the page held for it. -/
theorem home
    (hInv : sys.Inv V)
    (hb : b ∈ sys.live) :
    ∃ page ∈ sys.state.pages, IsPage page ∧ sys.Home b page ∧
      page.toNat ≤ b.addr.toNat ∧
      b.addr.toNat + b.size.toNat ≤ page.toNat + 4096 := by
  have hPages := hInv.core.placed.pages
  rcases hInv.page_of hb with
    ⟨page, hIs, hFrom, _, hTo,
      ⟨hOwner, hPage, hMem⟩ |
        ⟨cache, hOwner, hCache, _, w, hw, _, hPage⟩⟩
  · refine ⟨page, ?_, hIs, ?_, hFrom, hTo⟩
    · rw [hPage]
      exact hPages.mem_iff.mpr (List.mem_append_right _ hMem)
    · unfold Home
      rw [hOwner]
      exact hPage
  · refine ⟨page, ?_, hIs, ?_, hFrom, hTo⟩
    · rw [hPage]
      refine hPages.mem_iff.mpr (List.mem_append_left _ ?_)
      exact List.mem_map_of_mem (mem_allSlabs hCache hw)
    · rcases CacheView.exists_list hw with ⟨list, hList⟩
      unfold Home
      rw [hOwner, hPage]
      exact ⟨list, _, w.ptr,
        (hInv.core.caches cache hCache).linked.chain list,
        List.mem_map_of_mem hList,
        (hInv.core.slab_ok hCache hw).page_eq⟩

/- Blocks of different owners, or at different addresses. -/
theorem apart
    (hInv : sys.Inv V)
    (ha : a ∈ sys.live)
    (hb : b ∈ sys.live)
    (hNe : a.owner ≠ b.owner ∨ a.addr ≠ b.addr) :
    a.addr ≠ b.addr ∧
      (a.addr.toNat + a.size.toNat ≤ b.addr.toNat ∨
        b.addr.toNat + b.size.toNat ≤ a.addr.toNat) := by
  rcases hInv.page_of ha with
    ⟨page, hIs, hFrom, hIn, hTo, hKind⟩
  rcases hInv.page_of hb with
    ⟨page', hIs', hFrom', hIn', hTo', hKind'⟩
  by_cases hPage : page = page'
  · subst hPage
    rcases hKind with ⟨hOwner, rfl, hMem⟩ |
      ⟨c, hOwner, hc, hSize, w, hw, ho, rfl⟩
    · rcases hKind' with ⟨hOwner', hEq, _⟩ |
        ⟨d, _, hd, _, x, hx, _, hEq⟩
      · rw [hOwner, hOwner', hEq] at hNe
        simp at hNe
      · exact absurd hEq.symm
          (hInv.core.used_ne_large hd hx hMem)
    · rcases hKind' with ⟨_, hEq, hMem⟩ |
        ⟨d, hOwner', hd, hSize', x, hx, ho', hEq⟩
      · rw [← hEq] at hMem
        exact absurd rfl (hInv.core.used_ne_large hc hw hMem)
      · -- Two objects of one slab.
        rcases hInv.core.same_slab hc hd hw hx hEq with
          ⟨rfl, rfl⟩
        have hAddr : a.addr ≠ b.addr :=
          hNe.resolve_left (by rw [hOwner, hOwner']; simp)
        have hOk := hInv.core.slab_ok hc hw
        have hApart :=
          slabObjs_apart hOk.isPage
            (hInv.core.caches c hc).shape.numObjs_eq
            (hOk.objs.mem_iff.mp (List.mem_append_right _ ho))
            (hOk.objs.mem_iff.mp (List.mem_append_right _ ho'))
            hAddr
        have hRoom :
            objRoom (sys.state.caches c).objSize ≤
              (sys.state.caches c).objSize.toNat :=
          Nat.min_le_left _ _
        exact ⟨hAddr, by omega⟩
  · have hPages := hIs.apart hIs' hPage
    refine ⟨?_, by omega⟩
    intro hEq
    rw [hEq] at hFrom hIn
    omega

/- The ledger lists no address twice for one owner. -/
theorem ownedBy_nodup
    (hInv : sys.Inv V)
    (b : Block)
    (hb : b ∈ sys.live) :
    (ownedBy sys.live b.owner).Nodup := by
  cases hOwner : b.owner with
  | none =>
      exact (List.nodup_append.mp
        hInv.core.pages_nodup).2.1
  | some cache =>
      have hCache :=
        (hInv.ledger.owned b hb cache hOwner).1
      exact (hInv.ledger.used cache hCache).nodup_iff.mp
        (hInv.core.used_nodup hCache)

/- Any two blocks in use are apart. -/
theorem blocks_apart
    (hInv : sys.Inv V) :
    sys.live.Pairwise fun a b =>
      a.addr ≠ b.addr ∧
        (a.addr.toNat + a.size.toNat ≤ b.addr.toNat ∨
          b.addr.toNat + b.size.toNat ≤ a.addr.toNat) := by
  have hAll : ∀ live : List Block,
      (∀ b ∈ live, b ∈ sys.live) →
      (∀ b ∈ live, (ownedBy live b.owner).Nodup) →
      live.Pairwise fun a b =>
        a.addr ≠ b.addr ∧
          (a.addr.toNat + a.size.toNat ≤ b.addr.toNat ∨
            b.addr.toNat + b.size.toNat ≤ a.addr.toNat) := by
    intro live hIn hNodup
    induction live with
    | nil => exact List.Pairwise.nil
    | cons a live ih =>
        refine List.pairwise_cons.mpr ⟨?_, ih ?_ ?_⟩
        · intro b hb
          refine hInv.apart (hIn a (by simp))
            (hIn b (by simp [hb])) ?_
          by_cases hOwner : a.owner = b.owner
          · right
            intro hEq
            have hOnce := hNodup a (by simp)
            rw [ownedBy_cons, if_pos rfl,
              List.nodup_cons] at hOnce
            refine hOnce.1 ?_
            rw [hEq, hOwner]
            exact mem_ownedBy hb
          · exact Or.inl hOwner
        · exact fun b hb => hIn b (by simp [hb])
        · intro b hb
          have hOnce := hNodup b (by simp [hb])
          rw [ownedBy_cons] at hOnce
          split at hOnce
          · exact (List.nodup_cons.mp hOnce).2
          · exact hOnce
  exact hAll sys.live (fun _ hb => hb)
    (fun b hb => hInv.ownedBy_nodup b hb)

end Inv

end SlabSys

end FeatherOS
