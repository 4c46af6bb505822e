import FeatherOS.Memory.Search
import FeatherOS.Paging.Refinement

/-
  The physical allocator behind the page tables.

  `physical_alloc_page` hands out the free frames in
  ascending order and then 0, so to `paging_map_page` it is
  the list of its free frames. Mapping a page takes one of
  them for every table that is missing on the way.

  Key definitions include:
    * `freeFrames`
    * `areaPages`
    * `missingTables`
    * `TablesFrom`
    * `Supplied`
    * `entryFrame`

  Key theorems include:
    * `physicalAllocPage_nextAnswer`
    * `pagingMapPage_simulate`
    * `pagingMapPage_exact`
    * `pagingMapPage_fresh`
-/

namespace FeatherOS

open RadixTable

--------------------
-- Free Frames
--------------------

/- The pages whose bit is clear, in ascending order. -/
def MemoryManager.freePages (mm : MemoryManager) : List U64 :=
  (pagesFrom mm.maxPages.toNat 0#64).filter fun q =>
    !bitmapTest mm.bitmap q

/- The addresses of the free frames. -/
def freeFrames : Option MemoryManager → List U64
  | none => []
  | some mm => mm.freePages.map pageToAddr

/- A manager that is there is a good one. -/
def GoodManager (memManager : Option MemoryManager) : Prop :=
  ∀ mm, memManager = some mm → mm.Ok

/- Looking for one page is looking for a clear bit. -/
theorem searchFree_one
    (bitmap : Nat → U32)
    (n : Nat)
    (i : U64) :
    searchFree bitmap 1#64 n i =
      (pagesFrom n i).find? fun q => !bitmapTest bitmap q := by
  induction n generalizing i with
  | zero => rfl
  | succ n ih =>
      have hRun : runIsFree bitmap i (1#64 : U64).toNat 0#64 =
          !bitmapTest bitmap i := by
        change runIsFree bitmap i 1 0#64 = _
        simp only [runIsFree, BitVec.add_zero]
        cases bitmapTest bitmap i <;> rfl
      simp only [searchFree, hRun, pagesFrom, List.find?_cons]
      cases bitmapTest bitmap i with
      | true => simpa using ih (i + 1#64)
      | false => simp

variable {rest : List U64}

namespace MemoryManager

variable {mm : MemoryManager}

theorem mem_freePages_iff
    (hOk : mm.Ok)
    (q : U64) :
    q ∈ mm.freePages ↔
      q < mm.maxPages ∧ bitmapTest mm.bitmap q = false := by
  have hMax := hOk.toNat_maxPages
  have hZero : (0#64 : U64).toNat = 0 := rfl
  unfold freePages
  rw [List.mem_filter, mem_pagesFrom_iff (by omega), hZero,
    BitVec.lt_def]
  simp

theorem nodup_freePages
    (hOk : mm.Ok) :
    mm.freePages.Nodup := by
  have hMax := hOk.toNat_maxPages
  have hZero : (0#64 : U64).toNat = 0 := rfl
  exact (nodup_pagesFrom (by omega)).filter _

/- The page for an allocation is the first free one. -/
theorem pageFor_one
    (hOk : mm.Ok) :
    mm.pageFor 1#64 = mm.freePages.head? := by
  rw [pageFor_eq_search hOk, searchFree_one]
  unfold freePages
  rw [List.head?_filter]

/- Taking the first free page leaves the others free. -/
theorem freePages_takePage
    {page : U64}
    (hOk : mm.Ok)
    (hFree : mm.freePages = page :: rest)
    (count : U64) :
    ((mm.takePage page).countAllocated count).freePages =
      rest := by
  have hNodup := nodup_freePages hOk
  have hFilter :
      ((mm.takePage page).countAllocated count).freePages =
        mm.freePages.filter fun q => !decide (q = page) := by
    unfold freePages
    rw [List.filter_filter]
    congr 1
    funext q
    simp [takePage, countAllocated]
  rw [hFree, List.nodup_cons] at hNodup
  rw [hFilter, hFree, List.filter_cons]
  simp only [decide_true, Bool.not_true, Bool.false_eq_true,
    if_false]
  rw [List.filter_eq_self]
  intro q hq
  have hNe : q ≠ page := by
    rintro rfl
    exact hNodup.1 hq
  simp [hNe]

end MemoryManager

open MemoryManager

variable {memManager : Option MemoryManager}

/-
  One call of the allocator takes the first free frame off
  the list, or gives 0 when there is none.
-/
theorem physicalAllocPage_nextAnswer
    (hGood : GoodManager memManager) :
    (physicalAllocPage memManager).1 =
        (nextAnswer (freeFrames memManager)).1 ∧
      freeFrames (physicalAllocPage memManager).2 =
        (nextAnswer (freeFrames memManager)).2 ∧
      GoodManager (physicalAllocPage memManager).2 := by
  cases memManager with
  | none => exact ⟨rfl, rfl, hGood⟩
  | some mm =>
      have hOk := hGood mm rfl
      have hList : freeFrames (some mm) =
          mm.freePages.map pageToAddr := rfl
      unfold physicalAllocPage
      rw [withManager_ok hOk, pageFor_one hOk, hList]
      cases hFree : mm.freePages with
      | nil =>
          refine ⟨rfl, ?_, hGood⟩
          change freeFrames (some mm) = _
          rw [hList, hFree]
          rfl
      | cons page rest =>
          have hMem : page ∈ mm.freePages := by simp [hFree]
          have hLt := ((mem_freePages_iff hOk page).mp hMem).1
          refine ⟨rfl, ?_, ?_⟩
          · simp [freeFrames, freePages_takePage hOk hFree,
              nextAnswer]
          · have hTaken : (mm.takePage page).Ok :=
              (takePage_keeps mm page).ok
                (fun q hq => hq.1 ▸ hLt) hOk
            rintro mm' ⟨⟩
            exact ⟨hTaken.layout_eq, hTaken.padding⟩

/- Page addresses are distinct. -/
theorem pageToAddr_inj
    {p q : U64}
    (hp : p.toNat < 2 ^ 52)
    (hq : q.toNat < 2 ^ 52)
    (hEq : pageToAddr p = pageToAddr q) :
    p = q := by
  have hNat := congrArg BitVec.toNat hEq
  rw [toNat_pageToAddr hp, toNat_pageToAddr hq] at hNat
  exact BitVec.eq_of_toNat_eq (by omega)

/- The free frames of a good manager are distinct pages. -/
structure FrameList (frames : List U64) : Prop where
  nodup : frames.Nodup
  page : ∀ a ∈ frames, a.toNat % 4096 = 0 ∧ a.toNat < 2 ^ 30
  zero_first : 0#64 ∉ frames.tail

variable {a : U64}

/- The first frame is not free a second time. -/
theorem FrameList.head_not_mem
    (hList : FrameList (a :: rest)) :
    a ∉ rest :=
  (List.nodup_cons.mp hList.nodup).1

/- Frame 0 can only come first. -/
theorem FrameList.zero_not_mem
    (hList : FrameList (a :: rest))
    (hNe : a ≠ 0#64) :
    0#64 ∉ a :: rest := by
  rw [List.mem_cons, not_or]
  exact ⟨Ne.symm hNe, hList.zero_first⟩

theorem GoodManager.frameList
    (hGood : GoodManager memManager) :
    FrameList (freeFrames memManager) := by
  cases memManager with
  | none =>
      exact ⟨by simp [freeFrames], by simp [freeFrames],
        by simp [freeFrames]⟩
  | some mm =>
      have hOk := hGood mm rfl
      have hMax := hOk.toNat_maxPages
      have hList : freeFrames (some mm) =
          mm.freePages.map pageToAddr := rfl
      have hSmall : ∀ q ∈ mm.freePages, q.toNat < 130975 := by
        intro q hq
        have hLt := ((mem_freePages_iff hOk q).mp hq).1
        rw [BitVec.lt_def] at hLt
        omega
      have hNodup := nodup_freePages hOk
      rw [hList]
      refine ⟨?_, ?_, ?_⟩
      · refine hNodup.map_on ?_
        intro p hp q hq hEq
        have hpLt := hSmall p hp
        have hqLt := hSmall q hq
        exact pageToAddr_inj (by omega) (by omega) hEq
      · intro a ha
        rcases List.mem_map.mp ha with ⟨q, hq, rfl⟩
        have hqLt := hSmall q hq
        rw [toNat_pageToAddr (by omega)]
        omega
      · intro hZero
        rw [← List.map_tail] at hZero
        rcases List.mem_map.mp hZero with ⟨q, hq, hEq⟩
        have hqLt := hSmall q (List.mem_of_mem_tail hq)
        have hq0 : q = 0#64 := by
          have hNat := congrArg BitVec.toNat hEq
          rw [toNat_pageToAddr (by omega)] at hNat
          simp only [BitVec.toNat_ofNat] at hNat
          exact BitVec.eq_of_toNat_eq (by simp; omega)
        subst hq0
        have hFirst : mm.freePages =
            0#64 :: mm.freePages.tail := by
          have hMem := (mem_freePages_iff hOk 0#64).mp
            (List.mem_of_mem_tail hq)
          have hPos : ∃ n, mm.maxPages.toNat = n + 1 :=
            ⟨130974, by omega⟩
          rcases hPos with ⟨n, hn⟩
          unfold freePages
          rw [hn]
          simp only [pagesFrom, List.filter_cons, hMem.2,
            Bool.not_false, if_true, List.tail_cons]
        rw [hFirst, List.nodup_cons] at hNodup
        exact hNodup.1 hq

--------------------
-- Allocators With The Same Answers
--------------------

section Simulation

variable {σ τ : Type}
variable {alloc : σ → U64 × σ}
variable {alloc' : τ → U64 × τ}
variable {R : σ → τ → Prop}
variable {a : σ}
variable {b : τ}

/- Related states answer the same and stay related. -/
def SameAnswers
    (alloc : σ → U64 × σ)
    (alloc' : τ → U64 × τ)
    (R : σ → τ → Prop) : Prop :=
  ∀ a b, R a b → (alloc a).1 = (alloc' b).1 ∧
    R (alloc a).2 (alloc' b).2

theorem ensureEntry_simulate
    (hSame : SameAnswers alloc alloc' R)
    (hR : R a b)
    (t : PageTables)
    (table : U64)
    (index : TableIndex) :
    ∃ go t' a' b',
      ensureEntry alloc a t table index = (go, t', a') ∧
        ensureEntry alloc' b t table index = (go, t', b') ∧
        R a' b' := by
  rcases hSame a b hR with ⟨hAnswer, hNext⟩
  unfold ensureEntry allocatePageTable
  rw [← hAnswer]
  by_cases hPresent : isPresent (t.memory table index) = true
  · simp only [if_pos hPresent]
    exact ⟨_, _, _, _, rfl, rfl, hR⟩
  · simp only [if_neg hPresent]
    by_cases hZero : (alloc a).1 = 0#64
    · simp only [if_pos hZero, if_true]
      exact ⟨_, _, _, _, rfl, rfl, hNext⟩
    · simp only [if_neg hZero]
      exact ⟨_, _, _, _, rfl, rfl, hNext⟩

theorem pagingMapPage_simulate
    (hSame : SameAnswers alloc alloc' R)
    (hR : R a b)
    (t : PageTables)
    (virt phys : U64)
    (writable user nx : Bool) :
    ∃ r t' a' b',
      pagingMapPage alloc a t virt phys writable user nx =
          (r, t', a') ∧
        pagingMapPage alloc' b t virt phys writable user nx =
          (r, t', b') ∧
        R a' b' := by
  unfold pagingMapPage
  rcases ensureEntry_simulate hSame hR t t.pml4
      (virtToIndices virt).pml4 with
    ⟨go₁, t₁, a₁, b₁, hA₁, hB₁, hR₁⟩
  simp only [hA₁, hB₁]
  cases go₁ with
  | false => exact ⟨_, _, _, _, rfl, rfl, hR₁⟩
  | true =>
      rcases ensureEntry_simulate hSame hR₁ t₁
          (t₁.getPml4Entry t₁.pml4 (virtToIndices virt).pml4)
          (virtToIndices virt).pdp with
        ⟨go₂, t₂, a₂, b₂, hA₂, hB₂, hR₂⟩
      simp only [hA₂, hB₂]
      cases go₂ with
      | false => exact ⟨_, _, _, _, rfl, rfl, hR₂⟩
      | true =>
          rcases ensureEntry_simulate hSame hR₂ t₂
              (t₂.getPdpEntry
                (t₁.getPml4Entry t₁.pml4
                  (virtToIndices virt).pml4)
                (virtToIndices virt).pdp)
              (virtToIndices virt).pd with
            ⟨go₃, t₃, a₃, b₃, hA₃, hB₃, hR₃⟩
          simp only [hA₃, hB₃]
          cases go₃ with
          | false => exact ⟨_, _, _, _, rfl, rfl, hR₃⟩
          | true => exact ⟨_, _, _, _, rfl, rfl, hR₃⟩

end Simulation

--------------------
-- What Mapping Takes
--------------------

/- No table is linked at the end of the path. -/
def PageTables.Missing
    (t : PageTables)
    (path : List TableIndex) : Prop :=
  walk nextFrame t.memory t.pml4 path = none

instance
    (t : PageTables)
    (path : List TableIndex) :
    Decidable (t.Missing path) :=
  inferInstanceAs (Decidable (_ = none))

/- One table for a path that is missing. -/
def PageTables.linkCost
    (t : PageTables)
    (path : List TableIndex) : Nat :=
  if t.Missing path then 1 else 0

/- After `t`, the paths in `made` lead to tables too. -/
def LinkedAfter
    (t t' : PageTables)
    (made : List (List TableIndex)) : Prop :=
  ∀ q : List TableIndex, q.length ≤ 3 →
    (t'.Missing q ↔ t.Missing q ∧ q ∉ made)

variable {t₁ t₂ t₃ : PageTables}

theorem LinkedAfter.trans
    {made made' : List (List TableIndex)}
    (h₁₂ : LinkedAfter t₁ t₂ made)
    (h₂₃ : LinkedAfter t₂ t₃ made') :
    LinkedAfter t₁ t₃ (made ++ made') := by
  intro q hq
  rw [h₂₃ q hq, h₁₂ q hq, List.mem_append, not_or, and_assoc]

/-
  The tables of `t` are tables of `t'`, and the others of `t'`
  lie in frames of `taken`.
-/
structure TablesFrom
    (t t' : PageTables)
    (taken : List U64) : Prop where
  kept : ∀ frame, t.Uses frame → t'.Uses frame
  added : ∀ frame, t'.Uses frame →
    t.Uses frame ∨ frame ∈ taken

theorem TablesFrom.refl
    (t : PageTables)
    (taken : List U64) :
    TablesFrom t t taken where
  kept := fun _ hUsed => hUsed
  added := fun _ => Or.inl

variable {taken taken' : List U64}

theorem TablesFrom.trans
    (h₁₂ : TablesFrom t₁ t₂ taken)
    (h₂₃ : TablesFrom t₂ t₃ taken') :
    TablesFrom t₁ t₃ (taken ++ taken') := by
  refine ⟨fun frame hUsed =>
    h₂₃.kept frame (h₁₂.kept frame hUsed), ?_⟩
  intro frame hUsed
  rw [List.mem_append]
  rcases h₂₃.added frame hUsed with hMiddle | hLate
  · rcases h₁₂.added frame hMiddle with hOld | hEarly
    · exact Or.inl hOld
    · exact Or.inr (Or.inl hEarly)
  · exact Or.inr (Or.inr hLate)

variable {t t' : PageTables}

theorem TablesFrom.mono
    (hFrom : TablesFrom t t' taken)
    (hSub : taken ⊆ taken') :
    TablesFrom t t' taken' where
  kept := hFrom.kept
  added := fun frame hUsed =>
    (hFrom.added frame hUsed).imp_right (@hSub frame)

variable {answers : List U64}

/- Answers that are still to come are fresh while none is taken. -/
theorem FreshAnswers.of_tablesFrom
    (hFresh : FreshAnswers t answers)
    (hFrom : TablesFrom t t' []) :
    FreshAnswers t' answers := by
  refine ⟨?_, hFresh.distinct⟩
  intro answer hAnswer
  rcases hFresh.fresh answer hAnswer with
    hZero | ⟨hAligned, hFree⟩
  · exact Or.inl hZero
  · refine Or.inr ⟨hAligned, fun hUsed => hFree ?_⟩
    exact (hFrom.added answer hUsed).resolve_right
      List.not_mem_nil

variable {path q : List TableIndex}
variable {index : TableIndex}
variable {answer table : U64}

/- The paths that a new table leaves missing -/
theorem LinksTable.linkedAfter
    (hLinks : LinksTable t t' path table index answer) :
    LinkedAfter t t' [path ++ [index]] := by
  intro q hq
  unfold PageTables.Missing
  simp only [List.mem_singleton]
  by_cases hNew : q = path ++ [index]
  · rw [hNew, hLinks.here]
    simp
  · rw [hLinks.off q hq hNew]
    simp [hNew]

/- The tables there were, where there was none at the path -/
theorem LinksTable.tablesFrom
    (hLinks : LinksTable t t' path table index answer)
    (hMissing : t.Missing (path ++ [index])) :
    TablesFrom t t' [answer] := by
  constructor
  · rintro frame ⟨q, hq, hThere⟩
    refine ⟨q, hq, ?_⟩
    rw [hLinks.off q hq ?_]
    · exact hThere
    · rintro rfl
      rw [hMissing] at hThere
      cases hThere
  · intro frame hUsed
    rw [List.mem_singleton]
    exact hLinks.uses frame hUsed

/-
  The step at one level takes one answer if its table is
  missing and none otherwise; it fails when there is none.
-/
theorem ensureEntry_exact
    (index : TableIndex)
    (hSep : t.Separate)
    (hFresh : FreshAnswers t answers)
    (hNonzero : 0#64 ∉ answers)
    (hAt : walk nextFrame t.memory t.pml4 path = some table)
    (hLen : path.length < 3) :
    (answers.length < t.linkCost (path ++ [index]) ∧
        ensureEntry nextAnswer answers t table index =
          (false, t, [])) ∨
      t.linkCost (path ++ [index]) ≤ answers.length ∧
        ∃ t',
          ensureEntry nextAnswer answers t table index =
            (true, t',
              answers.drop (t.linkCost (path ++ [index]))) ∧
          Descends t t' ∧
          FreshAnswers t'
            (answers.drop (t.linkCost (path ++ [index]))) ∧
          walk nextFrame t'.memory t'.pml4 (path ++ [index]) =
            some (t'.nextTable table index) ∧
          LinkedAfter t t' [path ++ [index]] ∧
          TablesFrom t t'
            (answers.take (t.linkCost (path ++ [index]))) := by
  have hWalk := walk_snoc nextFrame hAt index
  by_cases hPresent : isPresent (t.memory table index) = true
  · have hFrame : nextFrame (t.memory table index) =
        some (frameMask (t.memory table index)) := by
      rw [nextFrame, if_pos hPresent]
    have hThere : ¬ t.Missing (path ++ [index]) := by
      unfold PageTables.Missing
      rw [hWalk, hFrame]
      simp
    have hCost : t.linkCost (path ++ [index]) = 0 :=
      if_neg hThere
    simp only [hCost, List.drop_zero]
    refine Or.inr ⟨Nat.zero_le _, t, if_pos hPresent,
      ⟨rfl, hSep, rfl⟩, hFresh, ?_, ?_, .refl t _⟩
    · rw [hWalk, hFrame, nextTable_eq]
    · intro q _
      simp only [List.mem_singleton]
      constructor
      · intro hMissing
        refine ⟨hMissing, ?_⟩
        rintro rfl
        exact hThere hMissing
      · exact fun hBoth => hBoth.1
  · have hMissing : t.Missing (path ++ [index]) := by
      unfold PageTables.Missing
      rw [hWalk, nextFrame, if_neg hPresent]
    have hCost : t.linkCost (path ++ [index]) = 1 :=
      if_pos hMissing
    simp only [hCost]
    cases answers with
    | nil => exact Or.inl ⟨by simp, if_neg hPresent⟩
    | cons answer answers =>
        have hZero : answer ≠ 0#64 := by
          rintro rfl
          exact hNonzero (by simp)
        rcases (hFresh.fresh answer (by simp)).resolve_left
            hZero with
          ⟨hAligned, hFree⟩
        have hLinks := linksTable_of_fresh hSep hAt hLen
          hPresent hAligned hFree
        simp only [List.length_cons, List.drop_succ_cons,
          List.drop_zero, List.take_succ_cons, List.take_zero]
        exact Or.inr ⟨by omega, _,
          ensureEntry_absent answers hPresent hZero,
          hLinks.descends, hFresh.of_uses hZero hLinks.uses,
          hLinks.here, hLinks.linkedAfter,
          hLinks.tablesFrom hMissing⟩

/- The paths of the tables that a page needs. -/
def Indices.prefixes (idx : Indices) : List (List TableIndex) :=
  [[idx.pml4], [idx.pml4, idx.pdp], idx.path]

/- The pages of the loop with `n` turns from `virt` on. -/
def areaPages : Nat → U64 → List PageNumber
  | 0, _ => []
  | n + 1, virt => pageOf virt :: areaPages n (virt + pageSize)

/- The tables that a list of pages needs and that are missing. -/
def missingTables
    (t : PageTables)
    (pages : List PageNumber) : Finset (List TableIndex) :=
  (pages.flatMap fun page =>
    (pageIndices page).prefixes).toFinset.filter t.Missing

theorem mem_missingTables
    {pages : List PageNumber}
    {q : List TableIndex} :
    q ∈ missingTables t pages ↔
      (∃ page ∈ pages, q ∈ (pageIndices page).prefixes) ∧
        t.Missing q := by
  simp [missingTables]

@[simp] theorem missingTables_nil : missingTables t [] = ∅ := by
  simp [missingTables]

theorem length_prefixes
    {idx : Indices}
    (hq : q ∈ idx.prefixes) :
    q.length ≤ 3 := by
  simp only [Indices.prefixes, Indices.path, List.mem_cons,
    List.not_mem_nil, or_false] at hq
  rcases hq with rfl | rfl | rfl
  · simp
  · simp
  · simp

/- One page misses at most one table at each level. -/
theorem card_missingTables_one
    (t : PageTables)
    (page : PageNumber) :
    (missingTables t [page]).card =
      t.linkCost [(pageIndices page).pml4] +
        t.linkCost
          [(pageIndices page).pml4, (pageIndices page).pdp] +
        t.linkCost (pageIndices page).path := by
  have hSet : ([page].flatMap fun page =>
      (pageIndices page).prefixes).toFinset =
        {[(pageIndices page).pml4],
          [(pageIndices page).pml4, (pageIndices page).pdp],
          (pageIndices page).path} := by
    ext q
    simp [Indices.prefixes]
  unfold missingTables PageTables.linkCost
  rw [hSet, Finset.filter_insert, Finset.filter_insert,
    Finset.filter_singleton]
  have hNe₁ : (pageIndices page).path ≠
      [(pageIndices page).pml4, (pageIndices page).pdp] := by
    simp [Indices.path]
  have hNe₂ : (pageIndices page).path ≠
      [(pageIndices page).pml4] := by
    simp [Indices.path]
  split_ifs <;> simp [Ne.symm hNe₁, Ne.symm hNe₂]

theorem card_missingTables_one_le
    (t : PageTables)
    (page : PageNumber) :
    (missingTables t [page]).card ≤ 3 := by
  have hCost : ∀ q, t.linkCost q ≤ 1 := by
    intro q
    unfold PageTables.linkCost
    split
    next => exact Nat.le_refl _
    next => exact Nat.zero_le _
  have h₁ := hCost [(pageIndices page).pml4]
  have h₂ := hCost
    [(pageIndices page).pml4, (pageIndices page).pdp]
  have h₃ := hCost (pageIndices page).path
  rw [card_missingTables_one]
  omega

/- Tables made for one page are not missing for the others. -/
theorem card_missingTables_cons
    {page : PageNumber}
    (hAfter : LinkedAfter t t' (pageIndices page).prefixes)
    (pages : List PageNumber) :
    (missingTables t (page :: pages)).card =
      (missingTables t [page]).card +
        (missingTables t' pages).card := by
  have hRest : missingTables t' pages =
      missingTables t pages \ missingTables t [page] := by
    ext q
    simp only [Finset.mem_sdiff, mem_missingTables,
      List.mem_singleton, exists_eq_left]
    constructor
    · rintro ⟨⟨p, hp, hq⟩, hMissing⟩
      have hBoth := (hAfter q (length_prefixes hq)).mp hMissing
      exact ⟨⟨⟨p, hp, hq⟩, hBoth.1⟩, fun h => hBoth.2 h.1⟩
    · rintro ⟨⟨⟨p, hp, hq⟩, hMissing⟩, hNot⟩
      refine ⟨⟨p, hp, hq⟩,
        (hAfter q (length_prefixes hq)).mpr ⟨hMissing, ?_⟩⟩
      exact fun h => hNot ⟨h, hMissing⟩
  have hAll : missingTables t (page :: pages) =
      missingTables t [page] ∪ missingTables t pages := by
    ext q
    simp only [Finset.mem_union, mem_missingTables,
      List.mem_cons, List.not_mem_nil, or_false]
    grind
  rw [hAll, hRest, ← Finset.union_sdiff_self_eq_union,
    Finset.card_union_of_disjoint Finset.disjoint_sdiff]

/- A level leaves the costs of the other levels alone. -/
theorem LinkedAfter.linkCost_eq
    {made : List (List TableIndex)}
    (hAfter : LinkedAfter t t' made)
    (hq : q.length ≤ 3)
    (hNot : q ∉ made) :
    t'.linkCost q = t.linkCost q := by
  unfold PageTables.linkCost
  simp only [hAfter q hq, hNot, not_false_eq_true, and_true]

section Leaf

variable {t : PageTables}
variable {page : PageNumber}
variable {table : U64}

/- A write to a leaf leaves every table where it is. -/
theorem walk_setEntry_leaf
    (entry : U64)
    (hSep : t.Separate)
    (hAt :
      walk nextFrame t.memory t.pml4 (pageIndices page).path =
        some table)
    (hq : q.length ≤ 3) :
    walk nextFrame
        (t.setEntry table (pageIndices page).pt entry).memory
        t.pml4 q =
      walk nextFrame t.memory t.pml4 q :=
  Separated.walk_write_leaf hSep hAt rfl hq

theorem tablesFrom_leaf
    (entry : U64)
    (hSep : t.Separate)
    (hAt :
      walk nextFrame t.memory t.pml4 (pageIndices page).path =
        some table) :
    TablesFrom t
      (t.setEntry table (pageIndices page).pt entry) [] := by
  constructor
  · rintro frame ⟨q, hq, hWalk⟩
    exact ⟨q, hq,
      (walk_setEntry_leaf entry hSep hAt hq).trans hWalk⟩
  · rintro frame ⟨q, hq, hWalk⟩
    exact .inl ⟨q, hq,
      (walk_setEntry_leaf entry hSep hAt hq).symm.trans hWalk⟩

theorem linkedAfter_leaf
    (entry : U64)
    (hSep : t.Separate)
    (hAt :
      walk nextFrame t.memory t.pml4 (pageIndices page).path =
        some table) :
    LinkedAfter t
      (t.setEntry table (pageIndices page).pt entry) [] := by
  intro q hq
  have hKept := walk_setEntry_leaf entry hSep hAt hq
  rw [and_iff_left List.not_mem_nil]
  exact Eq.congr_left hKept

end Leaf

/-
  Mapping a page takes as many answers as it misses tables.
  With too few it uses them up, fails and changes no entry.
-/
theorem pagingMapPage_exact
    (hSep : t.Separate)
    (hFresh : FreshAnswers t answers)
    (hNonzero : 0#64 ∉ answers)
    (virt phys : U64)
    (writable user nx : Bool) :
    (answers.length < (missingTables t [pageOf virt]).card ∧
        ∃ t', pagingMapPage nextAnswer answers t virt phys
            writable user nx = (-1, t', []) ∧
          t'.Separate ∧ t'.entries = t.entries ∧
          TablesFrom t t' answers) ∨
      (missingTables t [pageOf virt]).card ≤ answers.length ∧
        ∃ t', pagingMapPage nextAnswer answers t virt phys
            writable user nx =
              (0, t', answers.drop
                (missingTables t [pageOf virt]).card) ∧
          t'.Separate ∧
          t'.entries =
            Function.update t.entries (pageOf virt)
              (some (makePte phys true writable user nx)) ∧
          FreshAnswers t' (answers.drop
            (missingTables t [pageOf virt]).card) ∧
          LinkedAfter t t'
            (pageIndices (pageOf virt)).prefixes ∧
          TablesFrom t t' (answers.take
            (missingTables t [pageOf virt]).card) := by
  unfold pagingMapPage
  rw [virtToIndices_eq, card_missingTables_one]
  generalize hIdx : pageIndices (pageOf virt) = idx
  have hRoot :
      walk nextFrame t.memory t.pml4 [] = some t.pml4 := rfl
  have hDrop : ∀ n, 0#64 ∉ answers.drop n :=
    fun n hMem => hNonzero (List.mem_of_mem_drop hMem)
  rcases ensureEntry_exact idx.pml4 hSep hFresh hNonzero hRoot
      (by simp) with
    ⟨hFew, hStop⟩ |
    ⟨hLe₁, t₁, hGo₁, hDown₁, hFresh₁, hAt₁, hAfter₁, hFrom₁⟩
  · simp only [hStop]
    rw [List.nil_append] at hFew
    exact Or.inl ⟨by omega, t, rfl, hSep, rfl, .refl t _⟩
  rw [List.nil_append, ← hDown₁.root] at hAt₁
  rw [List.nil_append] at hLe₁ hFresh₁ hAfter₁ hFrom₁
  simp only [hGo₁, List.nil_append, PageTables.getPml4Entry]
  rcases ensureEntry_exact idx.pdp hDown₁.separate hFresh₁
      (hDrop _) hAt₁ (by simp) with
    ⟨hFew, hStop⟩ |
    ⟨hLe₂, t₂, hGo₂, hDown₂, hFresh₂, hAt₂, hAfter₂, hFrom₂⟩
  · simp only [hStop]
    have hCost := hAfter₁.linkCost_eq
      (q := [idx.pml4, idx.pdp]) (by simp) (by simp)
    simp only [List.cons_append, List.nil_append, hCost,
      List.length_drop] at hFew
    exact Or.inl ⟨by omega, t₁, rfl, hDown₁.separate,
      hDown₁.entries, hFrom₁.mono (List.take_subset _ _)⟩
  have hCost₂ := hAfter₁.linkCost_eq
    (q := [idx.pml4, idx.pdp]) (by simp) (by simp)
  simp only [List.cons_append, List.nil_append, hCost₂,
    List.drop_drop, List.length_drop]
    at hLe₂ hGo₂ hFresh₂ hAt₂ hAfter₂ hFrom₂
  simp only [hGo₂, PageTables.getPdpEntry]
  have hDown₁₂ := hDown₁.trans hDown₂
  have hAfter₁₂ := hAfter₁.trans hAfter₂
  have hFrom₁₂ := hFrom₁.trans hFrom₂
  rw [← List.take_add] at hFrom₁₂
  have hCost₃ := hAfter₁₂.linkCost_eq
    (q := idx.path) (by simp [Indices.path])
    (by simp [Indices.path])
  rcases ensureEntry_exact idx.pd hDown₂.separate hFresh₂
      (hDrop _) hAt₂ (by simp) with
    ⟨hFew, hStop⟩ |
    ⟨hLe₃, t₃, hGo₃, hDown₃, hFresh₃, hAt₃, hAfter₃, hFrom₃⟩
  · simp only [hStop]
    simp only [List.cons_append, List.nil_append,
      List.length_drop] at hFew
    change _ < t₂.linkCost idx.path at hFew
    exact Or.inl ⟨by omega, t₂, rfl, hDown₁₂.separate,
      hDown₁₂.entries, hFrom₁₂.mono (List.take_subset _ _)⟩
  simp only [List.cons_append, List.nil_append, List.drop_drop,
    List.length_drop] at hLe₃ hGo₃ hFresh₃ hAt₃ hAfter₃ hFrom₃
  change t₂.linkCost idx.path ≤ _ at hLe₃
  simp only [hGo₃, PageTables.getPdEntry]
  have hDown := hDown₁₂.trans hDown₃
  have hAfter := hAfter₁₂.trans hAfter₃
  have hFrom := hFrom₁₂.trans hFrom₃
  have hCost : t₂.linkCost [idx.pml4, idx.pdp, idx.pd] =
      t.linkCost idx.path := hCost₃
  rw [← List.take_add, hCost] at hFrom
  rw [hCost] at hFresh₃ ⊢
  generalize t₃.nextTable _ idx.pd = pt at hAt₃ ⊢
  generalize hPte : makePte phys true writable user nx = pte
  have hPresent : isPresent pte = true := by
    rw [← hPte]
    exact isPresent_makePte phys writable user nx
  subst hIdx
  rcases setEntry_leaf pte hDown₃.separate hAt₃ with
    ⟨hSep', hEntries⟩
  rw [hPresent, if_pos rfl, hDown.entries] at hEntries
  have hLeaf := tablesFrom_leaf pte hDown₃.separate hAt₃
  refine Or.inr ⟨by omega, _, rfl, hSep', hEntries, ?_, ?_,
    (hFrom.trans hLeaf).mono (by simp)⟩
  · exact hFresh₃.of_tablesFrom hLeaf
  · have hLast := hAfter.trans
      (linkedAfter_leaf pte hDown₃.separate hAt₃)
    rw [List.append_nil] at hLast
    exact hLast

--------------------
-- A Fresh Frame For A Page
--------------------

/- No table lies in a frame that counts as free. -/
structure Supplied
    (t : PageTables)
    (memManager : Option MemoryManager) : Prop where
  good : GoodManager memManager
  separate : t.Separate
  fresh : FreshAnswers t (freeFrames memManager)

theorem FreshAnswers.of_sublist
    {answers answers' : List U64}
    (hFresh : FreshAnswers t answers)
    (hSub : answers'.Sublist answers) :
    FreshAnswers t answers' :=
  ⟨fun answer hAnswer => hFresh.fresh answer
    (hSub.subset hAnswer), hFresh.distinct.sublist hSub⟩

/- Bits 12 to 51 of an entry. -/
def entryFrame (entry : U64) : U64 :=
  entry &&& 0x000FFFFFFFFFF000#64

theorem frameMask_of_page
    (hPage : a.toNat % 4096 = 0) :
    frameMask a = a := by
  have hDown := Words.toNat_and_not_low a 12
  have hForm : frameMask a =
      a &&& ~~~(BitVec.ofNat 64 (2 ^ 12 - 1)) := rfl
  apply BitVec.eq_of_toNat_eq
  rw [hForm, hDown]
  omega

theorem entryFrame_makePte
    (writable user nx : Bool)
    (hPage : a.toNat % 4096 = 0)
    (hSmall : a.toNat < 2 ^ 52) :
    entryFrame (makePte a true writable user nx) = a := by
  have hMask : 0x000FFFFFFFFFF000#64 =
      ~~~(BitVec.ofNat 64 (2 ^ 12 - 1)) &&&
        BitVec.ofNat 64 (2 ^ 52 - 1) := by
    decide
  have hSelf : entryFrame (frameMask a) = a := by
    rw [frameMask_of_page hPage]
    apply BitVec.eq_of_toNat_eq
    unfold entryFrame
    rw [hMask, ← BitVec.and_assoc,
      Words.toNat_and_low _ 52 (by omega),
      Words.toNat_and_not_low]
    omega
  have hOr : ∀ x flag : U64, flag &&& 0x000FFFFFFFFFF000#64 =
      0#64 → entryFrame (x ||| flag) = entryFrame x := by
    intro x flag hFlag
    unfold entryFrame
    rw [BitVec.and_or_distrib_right, hFlag, BitVec.or_zero]
  have hPresent := fun x => hOr x ptePresent (by decide)
  have hWritable := fun x => hOr x pteWritable (by decide)
  have hUser := fun x => hOr x pteUser (by decide)
  have hNx := fun x => hOr x pteNx (by decide)
  unfold makePte
  cases writable <;> cases user <;> cases nx <;>
    simp [hPresent, hWritable, hUser, hNx, hSelf]

/- The allocator and the list of its free frames agree. -/
theorem physicalAllocPage_sameAnswers :
    SameAnswers physicalAllocPage nextAnswer
      (fun memManager answers =>
        GoodManager memManager ∧
          freeFrames memManager = answers) := by
  rintro memManager answers ⟨hGood, rfl⟩
  rcases physicalAllocPage_nextAnswer hGood with
    ⟨hAnswer, hRest, hGood'⟩
  exact ⟨hAnswer, hGood', hRest⟩

/-
  Mapping a page into a frame that was free a moment ago: the
  tables come from the frames left, and if those do not
  suffice none is left and no entry has changed.
-/
theorem pagingMapPage_fresh
    (hGood : GoodManager memManager)
    (hRest : freeFrames memManager = rest)
    (hSep : t.Separate)
    (hFresh : FreshAnswers t rest)
    (hNonzero : 0#64 ∉ rest)
    (virt phys : U64)
    (writable user nx : Bool) :
    ∃ r t₁ mm₁,
      pagingMapPage physicalAllocPage memManager t virt phys
          writable user nx = (r, t₁, mm₁) ∧
        Supplied t₁ mm₁ ∧
        ((rest.length < (missingTables t [pageOf virt]).card ∧
            r = -1 ∧ freeFrames mm₁ = [] ∧
            t₁.entries = t.entries ∧ TablesFrom t t₁ rest) ∨
          (missingTables t [pageOf virt]).card ≤ rest.length ∧
            r = 0 ∧
            freeFrames mm₁ = rest.drop
              (missingTables t [pageOf virt]).card ∧
            t₁.entries = Function.update t.entries
              (pageOf virt)
              (some (makePte phys true writable user nx)) ∧
            LinkedAfter t t₁
              (pageIndices (pageOf virt)).prefixes ∧
            TablesFrom t t₁ (rest.take
              (missingTables t [pageOf virt]).card)) := by
  rcases pagingMapPage_simulate physicalAllocPage_sameAnswers
      ⟨hGood, hRest⟩ t virt phys writable user nx with
    ⟨r, t₁, mm₁, rest₁, hMap, hMap', hGood₁, hRest₁⟩
  refine ⟨r, t₁, mm₁, hMap, ?_⟩
  rcases pagingMapPage_exact hSep hFresh hNonzero virt phys
      writable user nx with
    ⟨hFew, t₂, hExact, hSep₂, hEntries, hFrom⟩ |
    ⟨hEnough, t₂, hExact, hSep₂, hEntries, hFresh₂, hAfter,
      hFrom⟩
  · rw [hMap'] at hExact
    cases hExact
    refine ⟨⟨hGood₁, hSep₂, ?_⟩,
      Or.inl ⟨hFew, rfl, hRest₁, hEntries, hFrom⟩⟩
    rw [hRest₁]
    exact ⟨by simp, by simp⟩
  · rw [hMap'] at hExact
    cases hExact
    refine ⟨⟨hGood₁, hSep₂, ?_⟩,
      Or.inr ⟨hEnough, rfl, hRest₁, hEntries, hAfter, hFrom⟩⟩
    rw [hRest₁]
    exact hFresh₂

--------------------
-- After Boot
--------------------

/- The manager after boot, when frame 0 has been given away. -/
def bootedManager : MemoryManager :=
  (bootManager fun _ => 0#32).takePage 0#64

theorem bootedManager_good :
    GoodManager (some bootedManager) := by
  rintro mm ⟨⟩
  refine (MemoryManager.takePage_keeps _ 0#64).ok ?_
    (bootManager_ok _)
  intro q hq
  rw [hq.1, bootManager_maxPages]
  decide

theorem mem_freePages_booted
    (q : U64) :
    q ∈ bootedManager.freePages ↔
      q ≠ 0#64 ∧ q.toNat < 131072 ∧ isBootFree q := by
  have hMax : (bootManager fun _ => 0#32).maxPages =
      0x1FF9F#64 :=
    bootManager_maxPages _
  have hOk : bootedManager.Ok := bootedManager_good _ rfl
  have hBelow : q < 0x1FF9F#64 ↔ q.toNat < 130975 :=
    BitVec.lt_def
  rw [MemoryManager.mem_freePages_iff hOk]
  change q < (bootManager fun _ => 0#32).maxPages ∧
    bitmapTest (bitmapSet _ 0#64) q = false ↔ _
  rw [hMax, hBelow, bitmapTest_bitmapSet]
  constructor
  · rintro ⟨hLt, hClear⟩
    rw [Bool.or_eq_false_iff, decide_eq_false_iff_not] at hClear
    exact ⟨hClear.1, by omega,
      (bitmapTest_bootManager (by omega)).mp hClear.2⟩
  · rintro ⟨hNe, hLt, hFree⟩
    refine ⟨?_, ?_⟩
    · unfold isBootFree at hFree
      omega
    · rw [(bitmapTest_bootManager hLt).mpr hFree]
      simp [hNe]

theorem zero_not_mem_booted :
    0#64 ∉ freeFrames (some bootedManager) := by
  intro hMem
  rcases List.mem_map.mp hMem with ⟨q, hq, hEq⟩
  rcases (mem_freePages_booted q).mp hq with ⟨hNe, hLt, _⟩
  refine hNe (pageToAddr_inj (by omega) (by decide) ?_)
  rw [hEq]
  rfl

/- The first frames that are free -/
theorem freeFrames_booted :
    ∃ rest, freeFrames (some bootedManager) =
      [0x1000#64, 0x2000#64, 0x3000#64, 0x4000#64, 0x5000#64] ++
        rest := by
  have hTest : ∀ q : U64, q.toNat < 6 →
      (!bitmapTest bootedManager.bitmap q) =
        decide (q ≠ 0#64) := by
    intro q hq
    change (!bitmapTest (bitmapSet _ 0#64) q) = _
    rw [bitmapTest_bitmapSet, (bitmapTest_bootManager
      (by omega)).mpr (Or.inl (by omega))]
    simp
  have hMax : (bootManager fun _ => 0#32).maxPages =
      0x1FF9F#64 :=
    bootManager_maxPages _
  obtain ⟨n, hn⟩ : ∃ n,
      bootedManager.maxPages.toNat = n + 6 := by
    refine ⟨130969, ?_⟩
    change (bootManager fun _ => 0#32).maxPages.toNat = _
    rw [hMax]
    decide
  refine ⟨((pagesFrom n 6#64).filter fun q =>
    !bitmapTest bootedManager.bitmap q).map pageToAddr, ?_⟩
  unfold freeFrames MemoryManager.freePages
  simp only [hn, pagesFrom, List.filter_cons]
  simp (disch := decide) only [hTest]
  rfl

theorem length_freeFrames_booted :
    5 ≤ (freeFrames (some bootedManager)).length := by
  rcases freeFrames_booted with ⟨rest, hList⟩
  rw [hList, List.length_append]
  exact Nat.le_add_right _ _

end FeatherOS
