import FeatherOS.Paging.DirectTables
import FeatherOS.Paging.Translation

/-
  Ranges of pages.

  `paging_map_range` maps the pages from an address on to the
  frames from another on, until one fails; what it has mapped
  by then stays. `paging_identity_map` is the range from a
  rounded start to a rounded end, each page to itself.

  Key definitions include:
    * `pagingMapRange`
    * `pagingUnmapRange`
    * `pagingIdentityMap`
    * `rangePte`

  Key theorems include:
    * `pagingMapRange_exact`
    * `pagingUnmapRange_clears`
    * `pagingIdentityMap_identity`
-/

namespace FeatherOS

open Words

--------------------
-- The Loops
--------------------

section Loops

variable {σ : Type}
variable (physicalAllocPage : σ → U64 × σ)

/- The loop of `paging_map_range` with `n` turns to go. -/
def mapRangeFrom
    (virtStart physStart : U64)
    (writable user nx : Bool) :
    Nat → U64 → σ → PageTables → Int × PageTables × σ
  | 0, _, a, t => (0, t, a)
  | n + 1, i, a, t =>
      match pagingMapPage physicalAllocPage a t
          (virtStart + i * pageSize)
          (physStart + i * pageSize) writable user nx with
      | (r, t, a) =>
          if r ≠ 0 then
            (-1, t, a)
          else
            mapRangeFrom virtStart physStart writable user nx n
              (i + 1#64) a t

def pagingMapRange
    (a : σ)
    (t : PageTables)
    (virtStart physStart numPages : U64)
    (writable user nx : Bool) :
    Int × PageTables × σ :=
  mapRangeFrom physicalAllocPage virtStart physStart writable
    user nx numPages.toNat 0#64 a t

/-
  The loop of `paging_identity_map`. It ends by its condition:
  the fuel is the number of pages below the end.
-/
def identityMapFrom
    (alignedEnd : U64)
    (writable : Bool) :
    Nat → U64 → σ → PageTables → Int × PageTables × σ
  | 0, _, a, t => (0, t, a)
  | fuel + 1, addr, a, t =>
      if addr < alignedEnd then
        match pagingMapPage physicalAllocPage a t addr addr
            writable false false with
        | (r, t, a) =>
            if r ≠ 0 then
              (-1, t, a)
            else
              identityMapFrom alignedEnd writable fuel
                (addr + pageSize) a t
      else
        (0, t, a)

def pagingIdentityMap
    (a : σ)
    (t : PageTables)
    (start fin : U64)
    (writable : Bool) :
    Int × PageTables × σ :=
  let alignedStart := frameMask start
  let alignedEnd := frameMask (fin + 0xFFF#64)
  identityMapFrom physicalAllocPage alignedEnd writable
    (alignedEnd.toNat / 4096) alignedStart a t

end Loops

def unmapRangeFrom
    (virtStart : U64) :
    Nat → U64 → PageTables → PageTables
  | 0, _, t => t
  | n + 1, i, t =>
      unmapRangeFrom virtStart n (i + 1#64)
        (pagingUnmapPage t (virtStart + i * pageSize)).2

def pagingUnmapRange
    (t : PageTables)
    (virtStart numPages : U64) :
    Int × PageTables :=
  (0, unmapRangeFrom virtStart numPages.toNat 0#64 t)

--------------------
-- The Pages Of A Range
--------------------

theorem pageOf_range
    (virt i : U64) :
    pageOf (virt + i * pageSize) =
      pageOf virt + BitVec.ofNat 36 i.toNat := by
  have hSize : pageSize.toNat = 4096 := rfl
  apply BitVec.eq_of_toNat_eq
  unfold pageOf
  simp only [BitVec.extractLsb'_toNat, BitVec.toNat_add,
    BitVec.toNat_mul, BitVec.toNat_ofNat, hSize,
    Nat.shiftRight_eq_div_pow]
  omega

theorem range_succ
    (addr i : U64) :
    addr + (i + 1#64) * pageSize =
      addr + i * pageSize + pageSize := by
  rw [BitVec.add_mul, BitVec.one_mul, BitVec.add_assoc]

/- The entry for the page `d` pages after the first. -/
def rangePte
    (physStart : U64)
    (writable user nx : Bool)
    (d : Nat) : U64 :=
  makePte (physStart + BitVec.ofNat 64 d * pageSize) true
    writable user nx

variable {n : Nat}

section Mapping

variable {t t₀ : PageTables}
variable {memManager : Option MemoryManager}
variable {virtStart physStart : U64}
variable {writable user nx : Bool}

/- The map after the first `k` pages of the range. -/
def PageTables.ranged
    (t : PageTables)
    (virtStart physStart : U64)
    (writable user nx : Bool)
    (k : Nat) :
    PageNumber → Option U64 :=
  overlay t.entries (pageOf virtStart)
    (fun d => some (rangePte physStart writable user nx d)) k

theorem PageTables.ranged_succ
    {i : U64}
    (hSmall : i.toNat < 2 ^ 36) :
    t₀.ranged virtStart physStart writable user nx
        (i.toNat + 1) =
      Function.update
        (t₀.ranged virtStart physStart writable user nx i.toNat)
        (pageOf (virtStart + i * pageSize))
        (some (makePte (physStart + i * pageSize) true writable
          user nx)) := by
  have hWord : BitVec.ofNat 64 i.toNat = i := by
    rw [BitVec.ofNat_toNat, BitVec.setWidth_eq]
  unfold PageTables.ranged
  rw [overlay_succ, pageOf_range, Nat.mod_eq_of_lt hSmall]
  unfold rangePte
  rw [hWord]

/- The first page needs no more tables than the whole range. -/
theorem card_missingTables_head
    (t : PageTables)
    (page : PageNumber)
    (pages : List PageNumber) :
    (missingTables t [page]).card ≤
      (missingTables t (page :: pages)).card := by
  refine Finset.card_le_card fun q hq => ?_
  rw [mem_missingTables] at hq ⊢
  rcases hq with ⟨⟨p, hp, hIn⟩, hMissing⟩
  rw [List.mem_singleton.mp hp] at hIn
  exact ⟨⟨page, List.mem_cons_self, hIn⟩, hMissing⟩

/- What a mapping loop has done to the state `t` it met. -/
structure MappedRange
    (t : PageTables)
    (memManager : Option MemoryManager)
    (pages : List PageNumber)
    (ranged : Nat → PageNumber → Option U64)
    (lo hi : Nat)
    (result : Int × PageTables × Option MemoryManager) :
    Prop where
  supplied : Supplied result.2.1 result.2.2
  cases :
    (missingTables t pages).card ≤
          (freeFrames memManager).length ∧
        result.1 = 0 ∧ result.2.1.entries = ranged hi ∧
        freeFrames result.2.2 = (freeFrames memManager).drop
          (missingTables t pages).card ∨
      (freeFrames memManager).length <
          (missingTables t pages).card ∧
        result.1 = -1 ∧ freeFrames result.2.2 = [] ∧
        ∃ k, lo ≤ k ∧ k < hi ∧ result.2.1.entries = ranged k

/-
  The loop, by induction on the turns to go. What it has
  mapped before is the range up to `i`.
-/
theorem mapRangeFrom_spec
    {i : U64}
    (hSup : Supplied t memManager)
    (hZero : 0#64 ∉ freeFrames memManager)
    (hSmall : i.toNat + n ≤ 2 ^ 36)
    (hDone : t.entries = t₀.ranged virtStart physStart writable
      user nx i.toNat) :
    MappedRange t memManager
      (areaPages n (virtStart + i * pageSize))
      (t₀.ranged virtStart physStart writable user nx)
      i.toNat (i.toNat + n)
      (mapRangeFrom physicalAllocPage virtStart physStart
        writable user nx n i memManager t) := by
  induction n generalizing i t memManager with
  | zero =>
      have hNone : missingTables t
          (areaPages 0 (virtStart + i * pageSize)) = ∅ :=
        missingTables_nil
      refine ⟨hSup, Or.inl ?_⟩
      rw [hNone]
      exact ⟨Nat.zero_le _, rfl, hDone, rfl⟩
  | succ n ih =>
      have hNext : (i + 1#64).toNat = i.toNat + 1 :=
        toNat_succ (by omega)
      rw [mapRangeFrom, areaPages, ← range_succ]
      rcases pagingMapPage_fresh hSup.good rfl hSup.separate
          hSup.fresh hZero (virtStart + i * pageSize)
          (physStart + i * pageSize) writable user nx with
        ⟨r, t₁, mm₁, hMap, hSup₁,
          ⟨hFew, rfl, hNone, hEntries, _⟩ |
          ⟨hEnough, rfl, hRest, hEntries, hAfter, _⟩⟩
      · rw [hMap]
        have hHead := card_missingTables_head t
          (pageOf (virtStart + i * pageSize))
          (areaPages n (virtStart + (i + 1#64) * pageSize))
        exact ⟨hSup₁, Or.inr ⟨by omega, rfl, hNone, i.toNat,
          Nat.le_refl _, by omega, hEntries.trans hDone⟩⟩
      · rw [hMap]
        rw [hDone, ← PageTables.ranged_succ (by omega), ← hNext]
          at hEntries
        have hLeft : 0#64 ∉ freeFrames mm₁ := by
          rw [hRest]
          exact fun hMem => hZero (List.mem_of_mem_drop hMem)
        rcases ih hSup₁ hLeft (by omega) hEntries with
          ⟨hSup', hCases⟩
        rw [hNext] at hCases
        rw [hRest, List.length_drop, List.drop_drop] at hCases
        refine ⟨hSup', ?_⟩
        rw [card_missingTables_cons hAfter]
        rcases hCases with
          ⟨hFits, hRet, hAll, hFree⟩ |
          ⟨hFew, hRet, hFree, k, hLo, hHi, hPart⟩
        · refine Or.inl ⟨by omega, hRet, ?_, hFree⟩
          rw [show i.toNat + (n + 1) = i.toNat + 1 + n by omega]
          exact hAll
        · exact Or.inr ⟨by omega, hRet, hFree, k, by omega,
            by omega, hPart⟩

/- The loop from its first turn on -/
theorem mapRangeFrom_first
    (hSup : Supplied t memManager)
    (hZero : 0#64 ∉ freeFrames memManager)
    (hSmall : n ≤ 2 ^ 36) :
    MappedRange t memManager (areaPages n virtStart)
      (t.ranged virtStart physStart writable user nx) 0 n
      (mapRangeFrom physicalAllocPage virtStart physStart
        writable user nx n 0#64 memManager t) := by
  have hStart : virtStart + 0#64 * pageSize = virtStart := by
    rw [BitVec.zero_mul, BitVec.add_zero]
  have hDone : t.entries = t.ranged virtStart physStart writable
      user nx (0#64 : U64).toNat :=
    (overlay_zero _ _ _).symm
  have hLoop := mapRangeFrom_spec hSup hZero
    (by rw [BitVec.toNat_zero]; omega : _ + n ≤ _) hDone
  rw [hStart, BitVec.toNat_zero, Nat.zero_add] at hLoop
  exact hLoop

/-
  `paging_map_range` succeeds if and only if the free frames
  suffice for the tables of the whole range. If they do not,
  it takes them all and leaves the first pages mapped.
-/
theorem pagingMapRange_exact
    {numPages : U64}
    (hSup : Supplied t memManager)
    (hZero : 0#64 ∉ freeFrames memManager)
    (hSmall : numPages.toNat ≤ 2 ^ 36) :
    MappedRange t memManager
      (areaPages numPages.toNat virtStart)
      (t.ranged virtStart physStart writable user nx)
      0 numPages.toNat
      (pagingMapRange physicalAllocPage memManager t virtStart
        physStart numPages writable user nx) :=
  mapRangeFrom_first hSup hZero hSmall

theorem pagingMapRange_exact_mapped :
    MappedRange VmmState.mapped.tables
      VmmState.mapped.memManager
      (areaPages (2#64 : U64).toNat 0x400000#64)
      (VmmState.mapped.tables.ranged 0x400000#64 0x9000#64 true
        false false)
      0 (2#64 : U64).toNat
      (pagingMapRange physicalAllocPage
        VmmState.mapped.memManager VmmState.mapped.tables
        0x400000#64 0x9000#64 2#64 true false false) :=
  pagingMapRange_exact VmmState.mapped_supplied
    VmmState.mapped_freeFrames.1 (by decide)

end Mapping

--------------------
-- Unmapping
--------------------

theorem unmapRangeFrom_spec
    {t t₀ : PageTables}
    {virtStart i : U64}
    (hSep : t.Separate)
    (hFits : i.toNat + n < 2 ^ 64)
    (hDone : t.entries = overlay t₀.entries (pageOf virtStart)
      (fun _ => none) i.toNat) :
    (unmapRangeFrom virtStart n i t).Separate ∧
      (unmapRangeFrom virtStart n i t).entries =
        overlay t₀.entries (pageOf virtStart) (fun _ => none)
          (i.toNat + n) := by
  induction n generalizing i t with
  | zero => exact ⟨hSep, hDone⟩
  | succ n ih =>
      have hNext : (i + 1#64).toNat = i.toNat + 1 :=
        toNat_succ (by omega)
      have hTurn :
          (pagingUnmapPage t
              (virtStart + i * pageSize)).2.Separate ∧
            (pagingUnmapPage t
                (virtStart + i * pageSize)).2.entries =
              Function.update t.entries
                (pageOf (virtStart + i * pageSize)) none := by
        cases hEntry :
            t.entries (pageOf (virtStart + i * pageSize)) with
        | none =>
            rw [pagingUnmapPage_unmapped hEntry, ← hEntry,
              Function.update_eq_self]
            exact ⟨hSep, rfl⟩
        | some entry =>
            rcases pagingUnmapPage_mapped hSep
                (Option.isSome_of_eq_some hEntry) with
              ⟨t₁, hCall, hSep₁, _, hEntries⟩
            rw [hCall]
            exact ⟨hSep₁, hEntries⟩
      have hAfter := hTurn.2
      rw [hDone, pageOf_range, ← overlay_succ _ _
        (fun _ => none), ← hNext] at hAfter
      have hRest := ih hTurn.1 (by omega) hAfter
      rw [hNext] at hRest
      rw [show i.toNat + (n + 1) = i.toNat + 1 + n by omega]
      exact hRest

/-
  `paging_unmap_range` removes the pages of the range, mapped
  or not, and no other; a range of 2^36 pages is all of them.
-/
theorem pagingUnmapRange_clears
    {t : PageTables}
    (hSep : t.Separate)
    (virtStart numPages : U64) :
    (pagingUnmapRange t virtStart numPages).2.Separate ∧
      ∀ page,
        (pagingUnmapRange t virtStart numPages).2.entries page =
          if (page - pageOf virtStart).toNat < numPages.toNat
          then none
          else t.entries page := by
  have hMax := numPages.isLt
  have hDone : t.entries = overlay t.entries
      (pageOf virtStart) (fun _ => none) (0#64 : U64).toNat :=
    (overlay_zero _ _ _).symm
  rcases unmapRangeFrom_spec hSep
      (by rw [BitVec.toNat_zero]; omega : _ + numPages.toNat < _)
      hDone with
    ⟨hSep', hEntries⟩
  rw [BitVec.toNat_zero, Nat.zero_add] at hEntries
  exact ⟨hSep', congrFun hEntries⟩

/- Two pages of the direct map go, the next one stays. -/
theorem pagingUnmapRange_clears_window :
    directTables.entries (windowPage 0x5000#64) =
        some (tablePte 0x5000#64) ∧
      (pagingUnmapRange directTables
          (0x5000#64 + kernelVirtBase) 2#64).2.entries
          (windowPage 0x5000#64) = none ∧
      (pagingUnmapRange directTables
          (0x5000#64 + kernelVirtBase) 2#64).2.entries
          (windowPage 0x7000#64) = some (tablePte 0x7000#64) := by
  have hClears := (pagingUnmapRange_clears directTables_separate
    (0x5000#64 + kernelVirtBase) 2#64).2
  refine ⟨entries_directTables ⟨rfl, by decide⟩, ?_, ?_⟩
  · rw [hClears, if_pos (by decide)]
  · rw [hClears, if_neg (by decide)]
    exact entries_directTables ⟨rfl, by decide⟩

--------------------
-- The Identity
--------------------

/- The turns of the loop. -/
def identityPages (start fin : U64) : Nat :=
  ((frameMask (fin + 0xFFF#64)).toNat -
    (frameMask start).toNat) / 4096

theorem toNat_frameMask
    (a : U64) :
    (frameMask a).toNat = a.toNat / 4096 * 4096 :=
  toNat_and_not_low a 12

/- The loop goes over the range from where it is to the end. -/
theorem identityMapFrom_eq
    {σ : Type}
    {alloc : σ → U64 × σ}
    {start alignedEnd i : U64}
    {fuel : Nat}
    (writable : Bool)
    (a : σ)
    (t : PageTables)
    (hStart : start.toNat % 4096 = 0)
    (hEnd : alignedEnd.toNat % 4096 = 0)
    (hHere : start.toNat + 4096 * i.toNat < 2 ^ 64)
    (hFuel : alignedEnd.toNat ≤
      start.toNat + 4096 * (i.toNat + fuel)) :
    identityMapFrom alloc alignedEnd writable fuel
        (start + i * pageSize) a t =
      mapRangeFrom alloc start start writable false false
        ((alignedEnd.toNat - (start.toNat + 4096 * i.toNat)) /
          4096)
        i a t := by
  have hSize : pageSize.toNat = 4096 := rfl
  have hAddr : (start + i * pageSize).toNat =
      start.toNat + 4096 * i.toNat := by
    rw [BitVec.toNat_add, BitVec.toNat_mul, hSize]
    omega
  induction fuel generalizing i a t with
  | zero =>
      rw [show (alignedEnd.toNat -
        (start.toNat + 4096 * i.toNat)) / 4096 = 0 by omega]
      rfl
  | succ fuel ih =>
      have hMax := alignedEnd.isLt
      rw [identityMapFrom]
      by_cases hLt : start + i * pageSize < alignedEnd
      · have hNat := BitVec.lt_def.mp hLt
        have hNext : (i + 1#64).toNat = i.toNat + 1 :=
          toNat_succ (by omega)
        rw [if_pos hLt,
          show (alignedEnd.toNat -
              (start.toNat + 4096 * i.toNat)) / 4096 =
            (alignedEnd.toNat -
              (start.toNat + 4096 * (i + 1#64).toNat)) / 4096 +
              1 by omega,
          mapRangeFrom, ← range_succ]
        rcases pagingMapPage alloc a t (start + i * pageSize)
            (start + i * pageSize) writable false false with
          ⟨r, t₁, a₁⟩
        by_cases hRet : r ≠ 0
        · simp only [if_pos hRet]
        · simp only [if_neg hRet]
          refine ih a₁ t₁ (by omega) (by omega) ?_
          rw [BitVec.toNat_add, BitVec.toNat_mul, hSize]
          omega
      · have hNat := BitVec.lt_def.not.mp hLt
        rw [if_neg hLt, show (alignedEnd.toNat -
          (start.toNat + 4096 * i.toNat)) / 4096 = 0 by omega]
        rfl

theorem pagingIdentityMap_eq
    {σ : Type}
    {alloc : σ → U64 × σ}
    (a : σ)
    (t : PageTables)
    (start fin : U64)
    (writable : Bool) :
    pagingIdentityMap alloc a t start fin writable =
      mapRangeFrom alloc (frameMask start) (frameMask start)
        writable false false (identityPages start fin) 0#64 a
        t := by
  have hStart := toNat_frameMask start
  have hEnd := toNat_frameMask (fin + 0xFFF#64)
  have hMax := (frameMask start).isLt
  have hLoop : identityMapFrom alloc
      (frameMask (fin + 0xFFF#64)) writable
      ((frameMask (fin + 0xFFF#64)).toNat / 4096)
      (frameMask start + 0#64 * pageSize) a t = _ :=
    identityMapFrom_eq writable a t (by omega) (by omega)
      (by rw [BitVec.toNat_zero]; omega)
      (by rw [BitVec.toNat_zero]; omega)
  rw [BitVec.zero_mul, BitVec.add_zero] at hLoop
  exact hLoop

/- A page of the range, mapped to itself, and its addresses -/
theorem virtToPhys_ranged
    {t t' : PageTables}
    {start v : U64}
    {writable : Bool}
    (hStart : start.toNat % 4096 = 0)
    (hEntries : t'.entries =
      t.ranged start start writable false false n)
    (hSmall : n ≤ 2 ^ 36)
    (hFrom : start.toNat ≤ v.toNat)
    (hTo : v.toNat < start.toNat + 4096 * n) :
    pagingVirtToPhys t' v = v := by
  have hOff : (pageOf v - pageOf start).toNat =
      (v.toNat - start.toNat) / 4096 := by
    unfold pageOf
    simp only [BitVec.toNat_sub, BitVec.extractLsb'_toNat,
      Nat.shiftRight_eq_div_pow]
    omega
  have hLow : (v &&& 0xFFF#64).toNat = v.toNat % 4096 :=
    toNat_and_low v 12 (by omega)
  have hSize : pageSize.toNat = 4096 := rfl
  rw [pagingVirtToPhys_eq, hEntries]
  unfold PageTables.ranged overlay
  rw [hOff, if_pos (by omega)]
  simp only [rangePte, frameMask_makePte, Bool.false_eq_true,
    if_false]
  apply BitVec.eq_of_toNat_eq
  rw [BitVec.toNat_add, hLow, toNat_frameMask, BitVec.toNat_add,
    BitVec.toNat_mul, BitVec.toNat_ofNat, hSize]
  omega

/-
  `paging_identity_map` maps the pages from the rounded start
  to the rounded end, and when it returns 0 every address in
  them translates to itself. An end in the last page of the
  address space is rounded to 0, and then it maps nothing.
-/
theorem pagingIdentityMap_identity
    {t : PageTables}
    {memManager : Option MemoryManager}
    {start fin : U64}
    {writable : Bool}
    (hSup : Supplied t memManager)
    (hZero : 0#64 ∉ freeFrames memManager)
    (hSmall : identityPages start fin ≤ 2 ^ 36) :
    MappedRange t memManager
        (areaPages (identityPages start fin) (frameMask start))
        (t.ranged (frameMask start) (frameMask start) writable
          false false)
        0 (identityPages start fin)
        (pagingIdentityMap physicalAllocPage memManager t start
          fin writable) ∧
      ((pagingIdentityMap physicalAllocPage memManager t start
          fin writable).1 = 0 →
        ∀ v, frameMask start ≤ v →
          v < frameMask (fin + 0xFFF#64) →
          pagingVirtToPhys
              (pagingIdentityMap physicalAllocPage memManager t
                start fin writable).2.1 v = v) := by
  have hStart := toNat_frameMask start
  have hEnd := toNat_frameMask (fin + 0xFFF#64)
  have hMapped : MappedRange t memManager
      (areaPages (identityPages start fin) (frameMask start))
      (t.ranged (frameMask start) (frameMask start) writable
        false false)
      0 (identityPages start fin) _ :=
    mapRangeFrom_first hSup hZero hSmall
  rw [← pagingIdentityMap_eq] at hMapped
  refine ⟨hMapped, fun hRet v hFrom hTo => ?_⟩
  rcases hMapped.cases with
    ⟨_, _, hEntries, _⟩ | ⟨_, hFail, _⟩
  · have hLo := BitVec.le_def.mp hFrom
    have hHi := BitVec.lt_def.mp hTo
    refine virtToPhys_ranged (by omega) hEntries hSmall hLo ?_
    unfold identityPages
    omega
  · rw [hRet] at hFail
    exact absurd hFail (by decide)

/- After boot the frames suffice for one page. -/
theorem pagingIdentityMap_identity_mapped :
    pagingVirtToPhys
        (pagingIdentityMap physicalAllocPage
          VmmState.mapped.memManager VmmState.mapped.tables
          0x400123#64 0x401000#64 true).2.1 0x400456#64 =
      0x400456#64 := by
  rcases @pagingIdentityMap_identity _ _ 0x400123#64
      0x401000#64 true VmmState.mapped_supplied
      VmmState.mapped_freeFrames.1 (by decide) with
    ⟨hRange, hSelf⟩
  rcases hRange.cases with ⟨_, hRet, _⟩ | ⟨hFew, _⟩
  · exact hSelf hRet _ (by decide) (by decide)
  · have hCost := card_missingTables_one_le
      VmmState.mapped.tables (pageOf 0x400000#64)
    have hFree := length_freeFrames_booted
    change (freeFrames (some bootedManager)).length <
      (missingTables VmmState.mapped.tables
        [pageOf 0x400000#64]).card at hFew
    omega

end FeatherOS
