import FeatherOS.Paging.DirectTables

/-
  What `vmalloc_map` delivers.

  The call takes one frame more than it maps, and it is this
  frame that it reports. When it gives up later on, it keeps
  what it has taken so far.

  Key definitions include:
    * `Delivered`
    * `MapsMemory`

  Key theorems include:
    * `mapFreshPages_run`
    * `vmallocMap_decided`
    * `vmallocMap_maps_iff`
-/

namespace FeatherOS

--------------------
-- The Property
--------------------

/- The page of one of the bytes from `v` on -/
def CoversPage
    (v size : U64)
    (page : PageNumber) : Prop :=
  ∃ i < size.toNat, pageOf (v + BitVec.ofNat 64 i) = page

/- Fresh memory at `v`, and `p` in the cell for the frame -/
structure Delivered
    (s : VmmState)
    (size v : U64)
    (p : Option U64)
    (s' : VmmState) : Prop where
  mapped : ∀ page, CoversPage v size page →
    ∃ a ∈ s.freeFrames, a ∉ s'.freeFrames ∧
      s'.tables.frameOf page = some a
  own : ∀ page page', CoversPage v size page →
    CoversPage v size page' →
    s'.tables.frameOf page = s'.tables.frameOf page' →
    page = page'
  others : ∀ page, ¬ CoversPage v size page →
    s'.tables.entries page = s.tables.entries page
  reported : p = s'.tables.translate v
  taken : ∀ a ∈ s.freeFrames, a ∉ s'.freeFrames →
    (∃ page, CoversPage v size page ∧
      s'.tables.frameOf page = some a) ∨ s'.tables.Uses a

/- Memory that is delivered, or nothing that has changed -/
structure MapsMemory
    (s : VmmState)
    (size : U64)
    (res : U64 × Option U64 × VmmState) : Prop where
  delivered : res.1 ≠ 0#64 →
    Delivered s size res.1 res.2.1 res.2.2
  refused : res.1 = 0#64 →
    (∀ a, a ∈ res.2.2.freeFrames ↔ a ∈ s.freeFrames) ∧
      res.2.2.tables.entries = s.tables.entries

--------------------
-- The Loop
--------------------

theorem mapFreshPages_succ
    (n : Nat)
    (virt : U64)
    (s : VmmState) :
    mapFreshPages (n + 1) virt s =
      if (mapFreshPage virt s).1 = true then
        mapFreshPages n (virt + pageSize)
          (mapFreshPage virt s).2
      else
        (false, (mapFreshPage virt s).2) :=
  rfl

section Loop

variable {s : VmmState}

/-
  Every entry is an old one or leads to a frame that was free,
  and the frames that are left were free before.
-/
theorem mapFreshPages_run
    (hSup : s.Supplied)
    (n : Nat)
    (virt : U64) :
    ∃ ok t₁ mm₁,
      mapFreshPages n virt s = (ok, s.withMemory t₁ mm₁) ∧
        Supplied t₁ mm₁ ∧
        (freeFrames mm₁).Sublist s.freeFrames ∧
        ∀ page,
          t₁.entries page = s.tables.entries page ∨
            ∃ a ∈ s.freeFrames,
              t₁.entries page = some (vmallocPte a) := by
  induction n generalizing virt s with
  | zero =>
      exact ⟨true, s.tables, s.memManager, rfl, hSup,
        List.Sublist.refl _, fun _ => .inl rfl⟩
  | succ n ih =>
      rcases mapFreshPage_turn hSup virt with
        ⟨ok, t₁, mm₁, hTurn, hSup₁, hWhat⟩
      rw [mapFreshPages_succ, hTurn]
      have hStep :
          (freeFrames mm₁).Sublist s.freeFrames ∧
            ∀ page,
              t₁.entries page = s.tables.entries page ∨
                ∃ a ∈ s.freeFrames,
                  t₁.entries page = some (vmallocPte a) := by
        cases hWhat with
        | none _ hLeft =>
            rw [hLeft]
            exact ⟨List.nil_sublist _, fun _ => .inl rfl⟩
        | zero hList =>
            rw [hList]
            exact ⟨List.sublist_cons_self _ _,
              fun _ => .inl rfl⟩
        | wasted _ _ _ hLeft hEntries _ =>
            rw [hLeft, hEntries]
            exact ⟨List.nil_sublist _, fun _ => .inl rfl⟩
        | @mapped a rest _ _ hList _ _ hLeft hEntries _ _ =>
            rw [hList, hLeft, hEntries]
            refine ⟨(List.drop_sublist _ _).trans
              (List.sublist_cons_self _ _), fun page => ?_⟩
            by_cases hPage : page = pageOf virt
            · rw [hPage, Function.update_self]
              exact .inr ⟨a, List.mem_cons_self, rfl⟩
            · rw [Function.update_of_ne hPage]
              exact .inl rfl
      cases ok with
      | false =>
          exact ⟨false, t₁, mm₁, rfl, hSup₁, hStep⟩
      | true =>
          rcases ih (s := s.withMemory t₁ mm₁) hSup₁
              (virt + pageSize) with
            ⟨ok₂, t₂, mm₂, hRest, hSup₂, hSub, hEntries⟩
          refine ⟨ok₂, t₂, mm₂, hRest, hSup₂,
            hSub.trans hStep.1, fun page => ?_⟩
          rcases hEntries page with hSame | ⟨a, ha, hNew⟩
          · rw [hSame]
            exact hStep.2 page
          · exact .inr ⟨a, hStep.1.subset ha, hNew⟩

/-
  A loop that ends has mapped the first page, unless that was
  the only one and the frames ran out over its tables.
-/
theorem mapFreshPages_first
    (hSup : s.Supplied)
    {n : Nat}
    {virt : U64}
    {s₁ : VmmState}
    (hLoop : mapFreshPages (n + 1) virt s = (true, s₁)) :
    (∃ a ∈ s.freeFrames, s₁.tables.entries (pageOf virt) =
        some (vmallocPte a)) ∨
      n = 0 ∧ ∃ a rest, s.freeFrames = a :: rest ∧
        s₁.freeFrames = [] ∧
        s₁.tables.entries = s.tables.entries ∧
        TablesFrom s.tables s₁.tables rest := by
  rcases mapFreshPage_turn hSup virt with
    ⟨ok, t₁, mm₁, hTurn, hSup₁, hWhat⟩
  rw [mapFreshPages_succ, hTurn] at hLoop
  cases hWhat with
  | none => cases hLoop
  | zero => cases hLoop
  | @wasted a rest _ _ hList _ _ hLeft hEntries hFrom =>
      cases n with
      | zero =>
          cases hLoop
          exact .inr ⟨rfl, a, rest, hList, hLeft, hEntries,
            hFrom⟩
      | succ n =>
          -- the next turn finds no frame
          rcases mapFreshPage_turn
              (s := s.withMemory t₁ mm₁) hSup₁
              (virt + pageSize) with
            ⟨ok₂, t₂, mm₂, hTurn₂, _, hWhat₂⟩
          rw [if_pos rfl, mapFreshPages_succ, hTurn₂] at hLoop
          have hNil : (s.withMemory t₁ mm₁).freeFrames = [] :=
            hLeft
          cases hWhat₂ with
          | none => cases hLoop
          | zero => cases hLoop
          | wasted hList₂ => simp [hNil] at hList₂
          | mapped hList₂ => simp [hNil] at hList₂
  | @mapped a rest _ _ hList _ _ hLeft hEntries _ _ =>
      left
      rw [if_pos rfl] at hLoop
      rcases mapFreshPages_run (s := s.withMemory t₁ mm₁)
          hSup₁ n (virt + pageSize) with
        ⟨ok₂, t₂, mm₂, hRest, _, _, hAll⟩
      rw [hRest] at hLoop
      cases hLoop
      rcases hAll (pageOf virt) with hSame | ⟨b, hb, hNew⟩
      · refine ⟨a, by rw [hList]; exact List.mem_cons_self, ?_⟩
        refine hSame.trans ?_
        change t₁.entries _ = _
        rw [hEntries, Function.update_self]
      · refine ⟨b, ?_, hNew⟩
        change b ∈ freeFrames mm₁ at hb
        rw [hLeft] at hb
        rw [hList]
        exact List.mem_cons_of_mem _ (List.mem_of_mem_drop hb)

end Loop

--------------------
-- The Call
--------------------

/- The address that the call gets from `vmalloc` -/
def reserved
    (s : VmmState)
    (size : U64) : U64 :=
  (vmalloc s.vmallocNext (vmallocSize size)).1

/- The turns of the loop -/
def numPages (size : U64) : Nat :=
  (vmallocSize size / pageSize).toNat

/- The state in which the loop starts -/
def VmmState.reserve
    (s : VmmState)
    (size : U64) : VmmState :=
  { s with
    vmallocNext := (vmalloc s.vmallocNext (vmallocSize size)).2
    memManager := (physicalAllocPage s.memManager).2 }

theorem vmallocMap_eq
    (s : VmmState)
    (size : U64)
    (physOut : Option U64) :
    vmallocMap s size physOut =
      if reserved s size = 0#64 then
        (0#64, physOut,
          { s.reserve size with memManager := s.memManager })
      else if (physicalAllocPage s.memManager).1 = 0#64 then
        (0#64, physOut, s.reserve size)
      else if (mapFreshPages (numPages size) (reserved s size)
          (s.reserve size)).1 = true then
        (reserved s size,
          physOut.map fun _ => (physicalAllocPage s.memManager).1,
          (mapFreshPages (numPages size) (reserved s size)
            (s.reserve size)).2)
      else
        (0#64, physOut,
          (mapFreshPages (numPages size) (reserved s size)
            (s.reserve size)).2) :=
  rfl

section Call

variable {s : VmmState}
variable {size old : U64}

/- Without an address or a frame, nothing has changed. -/
theorem vmallocMap_refused
    (hSup : s.Supplied)
    (hNone : reserved s size = 0#64 ∨ s.freeFrames = []) :
    MapsMemory s size (vmallocMap s size (some old)) := by
  rw [vmallocMap_eq]
  by_cases hVirt : reserved s size = 0#64
  · rw [if_pos hVirt]
    exact ⟨fun hNe => absurd rfl hNe,
      fun _ => ⟨fun _ => Iff.rfl, rfl⟩⟩
  · have hNil := hNone.resolve_left hVirt
    rcases physicalAllocPage_nextAnswer hSup.good with
      ⟨hAnswer, hRest, _⟩
    change freeFrames s.memManager = [] at hNil
    rw [hNil] at hAnswer hRest
    simp only [nextAnswer] at hAnswer hRest
    rw [if_neg hVirt, if_pos hAnswer]
    refine ⟨fun hNe => absurd rfl hNe, fun _ => ⟨?_, rfl⟩⟩
    intro a
    change a ∈ freeFrames (physicalAllocPage s.memManager).2 ↔
      a ∈ freeFrames s.memManager
    rw [hRest, hNil]

/- The frame that is reported is a page, so `v` starts one. -/
theorem Delivered.start
    {a v : U64}
    {s' : VmmState}
    (hSup : s.Supplied)
    (hSome : 1 ≤ size.toNat)
    (haMem : a ∈ s.freeFrames)
    (hAll : Delivered s size v (some a) s') :
    s'.tables.frameOf (pageOf v) = some a ∧
      v.toNat % 4096 = 0 := by
  have hPages := hSup.good.frameList.page
  have hFirst : CoversPage v size (pageOf v) :=
    ⟨0, hSome, by simp⟩
  rcases hAll.mapped _ hFirst with ⟨b, hb, _, hFrame⟩
  have hPhys := hAll.reported
  unfold PageTables.translate at hPhys
  rw [hFrame, Option.map_some, Option.some.injEq] at hPhys
  have hMask : 0xFFF#64 = BitVec.ofNat 64 (2 ^ 12 - 1) := rfl
  have hLow : (v &&& 0xFFF#64).toNat = v.toNat % 4096 := by
    rw [hMask]
    exact Words.toNat_and_low v 12 (by omega)
  have haPage := hPages a haMem
  have hbPage := hPages b hb
  have hNat := congrArg BitVec.toNat hPhys
  rw [BitVec.toNat_add, hLow] at hNat
  have hSame : a = b :=
    BitVec.eq_of_toNat_eq (by omega)
  exact ⟨hSame ▸ hFrame, by omega⟩

/- One page at the start of a page -/
theorem CoversPage.eq_of_one
    {v : U64}
    {page : PageNumber}
    (hStart : v.toNat % 4096 = 0)
    (hOne : size.toNat ≤ 4096)
    (hCovers : CoversPage v size page) :
    page = pageOf v := by
  rcases hCovers with ⟨i, hi, hPage⟩
  rw [← hPage]
  unfold pageOf
  apply BitVec.eq_of_toNat_eq
  have hv := v.isLt
  rw [BitVec.extractLsb'_toNat, BitVec.extractLsb'_toNat,
    Nat.shiftRight_eq_div_pow, Nat.shiftRight_eq_div_pow,
    BitVec.toNat_add, BitVec.toNat_ofNat]
  omega

/- The frame that is reported is mapped nowhere at `v`. -/
theorem not_delivered
    (hSup : s.Supplied)
    {a : U64}
    {rest : List U64}
    {v : U64}
    {s₁ s' : VmmState}
    (hList : s.freeFrames = a :: rest)
    (hSup₁ : s₁.Supplied)
    (hTables : s₁.tables = s.tables)
    (hRest : s₁.freeFrames = rest)
    (hSome : 1 ≤ size.toNat)
    (hLoop : mapFreshPages ((size.toNat + 4095) / 4096) v s₁ =
      (true, s')) :
    ¬ Delivered s size v (some a) s' := by
  intro hAll
  have haNot := (hSup.frameList hList).head_not_mem
  have haMem : a ∈ s.freeFrames := by
    rw [hList]
    exact List.mem_cons_self
  rcases hAll.start hSup hSome haMem with ⟨hHere, hStart⟩
  have hTurns : (size.toNat + 4095) / 4096 =
      (size.toNat + 4095) / 4096 - 1 + 1 := by
    omega
  rw [hTurns] at hLoop
  rcases mapFreshPages_first hSup₁ hLoop with
    ⟨b, hb, hEntry⟩ |
    ⟨hOne, b, left, hListB, hLeft, hEntries, hFrom⟩
  · -- `v` leads to a frame that comes after `a`
    unfold PageTables.frameOf at hHere
    rw [hEntry, Option.map_some,
      hSup₁.entryFrame_vmallocPte hb] at hHere
    rw [hRest] at hb
    cases hHere
    exact haNot hb
  · -- the frame for `v` is neither mapped nor a table
    have hbNot := (hSup₁.frameList hListB).head_not_mem
    have hbRest : b ∈ rest := by
      rw [← hRest, hListB]
      exact List.mem_cons_self
    have hbMem : b ∈ s.freeFrames := by
      rw [hList]
      exact List.mem_cons_of_mem _ hbRest
    have hbNe : b ≠ a := by
      rintro rfl
      exact haNot hbRest
    rcases hAll.taken b hbMem (by simp [hLeft]) with
      ⟨page, hCovers, hFrame⟩ | hUsed
    · rw [hCovers.eq_of_one hStart (by omega), hHere]
        at hFrame
      cases hFrame
      exact hbNe rfl
    · rcases hFrom.added b hUsed with hOld | hLate
      · rw [hTables] at hOld
        rcases hSup.fresh.fresh b hbMem with hZero | ⟨_, hFree⟩
        · have hTail := (hSup.frameList hList).zero_first
          rw [List.tail_cons, ← hZero] at hTail
          exact hTail hbRest
        · exact hFree hOld
      · exact hbNot hLate

theorem vmallocMap_decided
    (hSup : s.Supplied)
    (hSome : 1 ≤ size.toNat)
    (hFits : size.toNat + 4095 < 2 ^ 64) :
    MapsMemory s size (vmallocMap s size (some old)) ↔
      reserved s size = 0#64 ∨ s.freeFrames = [] := by
  refine ⟨fun hMaps => ?_, vmallocMap_refused hSup⟩
  by_contra hNot
  rw [not_or] at hNot
  rcases hNot with ⟨hVirt, hNil⟩
  rcases List.exists_cons_of_ne_nil hNil with ⟨a, rest, hList⟩
  rcases physicalAllocPage_nextAnswer hSup.good with
    ⟨hAnswer, hRest, hGood⟩
  have hFresh := hSup.fresh
  have hListM : freeFrames s.memManager = a :: rest := hList
  rw [hListM] at hAnswer hRest hFresh
  simp only [nextAnswer] at hAnswer hRest
  have hSup₁ : (s.reserve size).Supplied := by
    refine ⟨hGood, hSup.separate, ?_⟩
    change FreshAnswers s.tables
      (freeFrames (physicalAllocPage s.memManager).2)
    rw [hRest]
    exact hFresh.of_sublist (List.sublist_cons_self _ _)
  have haNot : ∀ s' : VmmState,
      s'.freeFrames.Sublist rest → a ∉ s'.freeFrames :=
    fun s' hSub hMem =>
      (hSup.frameList hList).head_not_mem (hSub.subset hMem)
  have haMem : a ∈ s.freeFrames := by
    rw [hList]
    exact List.mem_cons_self
  rcases mapFreshPages_run hSup₁ (numPages size)
      (reserved s size) with
    ⟨ok, t₁, mm₁, hLoop, _, hSub, _⟩
  change (freeFrames mm₁).Sublist
    (freeFrames (physicalAllocPage s.memManager).2) at hSub
  rw [hRest] at hSub
  rw [vmallocMap_eq, if_neg hVirt, hAnswer, hLoop] at hMaps
  split at hMaps
  next =>
    -- frame 0 has been taken
    refine haNot (s.reserve size) ?_
      (((hMaps.refused rfl).1 a).mpr haMem)
    exact hRest ▸ List.Sublist.refl _
  next =>
    cases ok with
    | false =>
        exact haNot ((s.reserve size).withMemory t₁ mm₁) hSub
          (((hMaps.refused rfl).1 a).mpr haMem)
    | true =>
        have hTurns : numPages size =
            (size.toNat + 4095) / 4096 := by
          have hPage : pageSize.toNat = 4096 := rfl
          unfold numPages
          rw [BitVec.toNat_udiv, toNat_vmallocSize, hPage,
            pagesSize]
          omega
        rw [hTurns] at hLoop
        exact not_delivered hSup hList hSup₁ rfl hRest hSome
          hLoop (hMaps.delivered hVirt)

/-
  When no address is left: the next one is NULL, or the end of
  the region is passed.
-/
theorem reserved_eq_zero_iff
    (hFits : size.toNat + 4095 < 2 ^ 64) :
    reserved s size = 0#64 ↔
      s.vmallocNext = 0#64 ∨
        vmallocEnd.toNat <
          (s.vmallocNext.toNat + pagesSize size) % 2 ^ 64 := by
  have hTwice : pagesSize (vmallocSize size) =
      pagesSize size := by
    have hOnce := toNat_vmallocSize size
    unfold pagesSize at hOnce ⊢
    rw [hOnce]
    omega
  have hPtr :=
    (vmalloc_cases s.vmallocNext (vmallocSize size)).2
  unfold reserved
  rw [hPtr, hTwice]
  split
  next hBeyond => exact iff_of_true rfl (.inr hBeyond)
  next hWithin =>
    constructor
    · exact .inl
    · rintro (hZero | hBeyond)
      · exact hZero
      · exact absurd hBeyond hWithin

end Call

/-
  The call keeps its promise if and only if it gives up before
  it takes a frame: there is no address for the size, or there
  is no frame.
-/
theorem vmallocMap_maps_iff
    {s : VmmState}
    {size old : U64}
    (hSup : s.Supplied)
    (hSome : 1 ≤ size.toNat)
    (hFits : size.toNat + 4095 < 2 ^ 64) :
    MapsMemory s size (vmallocMap s size (some old)) ↔
      s.vmallocNext = 0#64 ∨
        vmallocEnd.toNat <
          (s.vmallocNext.toNat + pagesSize size) % 2 ^ 64 ∨
        s.freeFrames = [] := by
  rw [vmallocMap_decided hSup hSome hFits,
    reserved_eq_zero_iff hFits, or_assoc]

/- A page is promised and not delivered, too many are refused. -/
theorem vmallocMap_maps_iff_mapped :
    ¬ MapsMemory VmmState.mapped 4096#64
        (vmallocMap VmmState.mapped 4096#64 (some 0#64)) ∧
      MapsMemory VmmState.mapped 0x2000001000#64
        (vmallocMap VmmState.mapped 0x2000001000#64
          (some 0#64)) := by
  have hSup := VmmState.mapped_supplied
  have hLen := VmmState.mapped_freeFrames.2
  constructor
  · rw [vmallocMap_maps_iff hSup (by decide) (by decide)]
    rintro (hZero | hBeyond | hNil)
    · exact absurd hZero (by decide)
    · exact absurd hBeyond (by decide)
    · rw [hNil] at hLen
      cases hLen
  · exact (vmallocMap_maps_iff hSup (by decide)
      (by decide)).mpr (.inr (.inl (by decide)))

/- The first page after boot comes with the wrong frame. -/
theorem vmallocMap_reports_another_frame :
    ¬ ∀ (s : VmmState) (size old : U64),
      s.Supplied → 1 ≤ size.toNat →
        size.toNat + 4095 < 2 ^ 64 →
        MapsMemory s size (vmallocMap s size (some old)) := by
  intro hAll
  have hSup := VmmState.mapped_supplied
  have hMaps := hAll VmmState.mapped 4096#64 0#64 hSup
    (by decide) (by decide)
  rw [vmallocMap_decided hSup (by decide) (by decide)] at hMaps
  rcases hMaps with hZero | hNil
  · exact absurd hZero (by decide)
  · have hLen := VmmState.mapped_freeFrames.2
    rw [hNil] at hLen
    cases hLen

end FeatherOS
