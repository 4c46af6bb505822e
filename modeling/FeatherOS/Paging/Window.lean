import FeatherOS.Paging.Vmm

/-
  `paging_map_page` through the direct map.

  The function reaches every table but the root through the
  pointer `KERNEL_VIRT_BASE + p`, so each access goes through
  the tables themselves and may end in another frame or in a
  fault. The large pages of the processor are left out.

  Key definitions include:
    * `PageTables.reach`
    * `windowMapPage`
    * `PageTables.TablesReadable`

  Key theorems include:
    * `windowEnsureEntry_eq`
    * `windowMapPage_eq`
-/

namespace FeatherOS

open RadixTable

--------------------
-- Accesses Through The Direct Map
--------------------

/- The frame that an access through a page's pointer ends in -/
def PageTables.reach
    (t : PageTables)
    (pointer : U64) : Option U64 :=
  t.frameOf (pageOf pointer)

section Window

variable {σ : Type}
variable (physicalAllocPage : σ → U64 × σ)

def windowAllocatePageTable
    (a : σ)
    (t : PageTables) :
    Option (U64 × PageTables × σ) :=
  let phys := (physicalAllocPage a).1
  let a := (physicalAllocPage a).2
  if phys = 0#64 then
    some (0#64, t, a)
  else do
    let frame ← t.reach (phys + kernelVirtBase)
    some (phys, { t with memory := fill t.memory frame 0#64 }, a)

/-
  `ensureEntry` with `table` for the frame that the accesses
  to the table end in, each at its own time.
-/
def windowEnsureEntry
    (table : PageTables → Option U64)
    (a : σ)
    (t : PageTables)
    (index : TableIndex) :
    Option (Bool × PageTables × σ) := do
  let frame ← table t
  if isPresent (t.memory frame index) then
    some (true, t, a)
  else do
    let made ← windowAllocatePageTable physicalAllocPage a t
    if made.1 = 0#64 then
      some (false, made.2)
    else do
      let frame ← table made.2.1
      some (true,
        made.2.1.setEntry frame index
          (makePte made.1 true true false false), made.2.2)

/- The array `boot_pml4` is not reached through the map. -/
def rootTable (t : PageTables) : Option U64 :=
  some t.pml4

/- get_pml4_entry, get_pdp_entry and get_pd_entry -/
def windowNextTable
    (t : PageTables)
    (table : PageTables → Option U64)
    (index : TableIndex) : Option U64 := do
  let frame ← table t
  some (frameMask (t.memory frame index) + kernelVirtBase)

def windowMapPage
    (a : σ)
    (t : PageTables)
    (virt phys : U64)
    (writable user nx : Bool) :
    Option (Int × PageTables × σ) := do
  let idx := virtToIndices virt
  let res ← windowEnsureEntry physicalAllocPage rootTable a t
    idx.pml4
  match res with
  | (false, t, a) => some (-1, t, a)
  | (true, t, a) => do
      let pdp ← windowNextTable t rootTable idx.pml4
      let res ← windowEnsureEntry physicalAllocPage
        (fun t => t.reach pdp) a t idx.pdp
      match res with
      | (false, t, a) => some (-1, t, a)
      | (true, t, a) => do
          let pd ← windowNextTable t (fun t => t.reach pdp)
            idx.pdp
          let res ← windowEnsureEntry physicalAllocPage
            (fun t => t.reach pd) a t idx.pd
          match res with
          | (false, t, a) => some (-1, t, a)
          | (true, t, a) => do
              let pt ← windowNextTable t (fun t => t.reach pd)
                idx.pd
              let frame ← t.reach pt
              some (0,
                t.setEntry frame idx.pt
                  (makePte phys true writable user nx), a)

end Window

--------------------
-- Readable Frames
--------------------

/- KERNEL_VIRT_BASE + frame -/
def windowPage (frame : U64) : PageNumber :=
  pageOf (frame + kernelVirtBase)

/- The pointer to the frame leads to the frame. -/
def PageTables.Readable
    (t : PageTables)
    (frame : U64) : Prop :=
  t.reach (frame + kernelVirtBase) = some frame

/- Every frame that serves as a page table -/
def PageTables.TablesReadable (t : PageTables) : Prop :=
  ∀ frame, t.Uses frame → t.Readable frame

variable {table : U64}

theorem PageTables.entries_of_walk
    {t : PageTables}
    {page : PageNumber}
    (hWalk : walk nextFrame t.memory t.pml4
      (pageIndices page).path = some table)
    (hPresent :
      isPresent (t.memory table (pageIndices page).pt) = true) :
    t.entries page =
      some (t.memory table (pageIndices page).pt) := by
  unfold PageTables.entries lookup
  rw [hWalk]
  exact if_pos hPresent

/- A page that is mapped misses no table. -/
theorem card_missingTables_of_entry
    {t : PageTables}
    {page : PageNumber}
    (hEntry : t.entries page ≠ none) :
    (missingTables t [page]).card = 0 := by
  rw [Finset.card_eq_zero, Finset.eq_empty_iff_forall_notMem]
  intro q hq
  rcases mem_missingTables.mp hq with ⟨⟨other, hPage, hIn⟩, hNone⟩
  rw [List.mem_singleton.mp hPage] at hIn
  -- the path to the entry goes on after `q`
  have hPath : ∃ rest,
      (pageIndices page).path = q ++ rest := by
    unfold Indices.prefixes at hIn
    simp only [List.mem_cons, List.not_mem_nil, or_false] at hIn
    rcases hIn with rfl | rfl | rfl
    · exact ⟨_, rfl⟩
    · exact ⟨_, rfl⟩
    · exact ⟨[], (List.append_nil _).symm⟩
  rcases hPath with ⟨rest, hPath⟩
  refine hEntry ?_
  unfold PageTables.Missing at hNone
  unfold PageTables.entries lookup
  rw [hPath, walk_append, hNone]
  rfl

theorem PageTables.readable_iff
    (t : PageTables)
    (frame : U64) :
    t.Readable frame ↔
      (t.entries (windowPage frame)).map entryFrame =
        some frame :=
  Iff.rfl

theorem PageTables.Readable.of_entries
    {t t' : PageTables}
    {frame : U64}
    (hReadable : t.Readable frame)
    (hSame : t'.entries (windowPage frame) =
      t.entries (windowPage frame)) :
    t'.Readable frame := by
  rw [PageTables.readable_iff] at hReadable ⊢
  rw [hSame]
  exact hReadable

--------------------
-- The Same Walk As Without The Map
--------------------

section Levels

variable {σ : Type}
variable {alloc : σ → U64 × σ}
variable {R : σ → List U64 → Prop}
variable {a : σ}
variable {t : PageTables}
variable {answers : List U64}

/-
  While the table is reached and the frame for a new one is
  readable, a level is the level without the map.
-/
theorem windowEnsureEntry_eq
    {reach : PageTables → Option U64}
    (index : TableIndex)
    (hSame : SameAnswers alloc nextAnswer R)
    (hR : R a answers)
    (hFresh : FreshAnswers t answers)
    (hReach : ∀ t' : PageTables, t'.pml4 = t.pml4 →
      t'.entries = t.entries → reach t' = some table)
    (hReadable : isPresent (t.memory table index) = false →
      ∀ frame rest, answers = frame :: rest →
        t.Readable frame) :
    windowEnsureEntry alloc reach a t index =
      some (ensureEntry alloc a t table index) := by
  have hAnswer := (hSame a answers hR).1
  unfold windowEnsureEntry ensureEntry
  rw [hReach t rfl rfl]
  cases hPresent : isPresent (t.memory table index) with
  | true => simp [hPresent]
  | false =>
      unfold windowAllocatePageTable allocatePageTable
      rw [hAnswer]
      cases answers with
      | nil => simp [hPresent, nextAnswer]
      | cons frame rest =>
          by_cases hZero : frame = 0#64
          · simp [hPresent, nextAnswer, hZero]
          · rcases (hFresh.fresh frame (by simp)).resolve_left
                hZero with
              ⟨_, hFree⟩
            have hFrame := hReadable hPresent frame rest rfl
            have hAt : frameAt (frame + kernelVirtBase) = frame :=
              BitVec.add_sub_cancel _ _
            have hKept : ({ t with
                memory := fill t.memory frame 0#64 } :
                  PageTables).entries = t.entries := by
              funext page
              exact lookup_fill hFree (by simp [Indices.path]) _
            have hTable := hReach
              { t with memory := fill t.memory frame 0#64 }
              rfl hKept
            unfold PageTables.Readable at hFrame
            simp [hPresent, nextAnswer, hZero, hFrame, hTable,
              PageTables.zeroPage, hAt]

/- New tables in readable frames -/
theorem PageTables.TablesReadable.grow
    {t' : PageTables}
    {taken : List U64}
    (hTables : t.TablesReadable)
    (hFrom : TablesFrom t t' taken)
    (hTaken : ∀ frame ∈ taken, t.Readable frame)
    (hSame : t'.entries = t.entries) :
    t'.TablesReadable := by
  intro frame hUsed
  have hBefore : t.Readable frame :=
    (hFrom.added frame hUsed).elim (hTables frame)
      (hTaken frame)
  exact hBefore.of_entries (by rw [hSame])

/- One level, with what it leaves to the next -/
theorem windowEnsureEntry_exact
    {reach : PageTables → Option U64}
    {path : List TableIndex}
    (index : TableIndex)
    (hSame : SameAnswers alloc nextAnswer R)
    (hR : R a answers)
    (hSep : t.Separate)
    (hFresh : FreshAnswers t answers)
    (hNonzero : 0#64 ∉ answers)
    (hAt : walk nextFrame t.memory t.pml4 path = some table)
    (hLen : path.length < 3)
    (hReach : ∀ t' : PageTables, t'.pml4 = t.pml4 →
      t'.entries = t.entries → reach t' = some table)
    (hTables : t.TablesReadable)
    (hTaken : ∀ frame ∈ answers.take
      (t.linkCost (path ++ [index])), t.Readable frame) :
    (∃ t' a',
        windowEnsureEntry alloc reach a t index =
          some (false, t', a') ∧
        ensureEntry alloc a t table index = (false, t', a')) ∨
      ∃ t' a',
        windowEnsureEntry alloc reach a t index =
          some (true, t', a') ∧
        ensureEntry alloc a t table index = (true, t', a') ∧
        R a' (answers.drop (t.linkCost (path ++ [index]))) ∧
        Descends t t' ∧
        FreshAnswers t'
          (answers.drop (t.linkCost (path ++ [index]))) ∧
        walk nextFrame t'.memory t'.pml4 (path ++ [index]) =
          some (t'.nextTable table index) ∧
        LinkedAfter t t' [path ++ [index]] ∧
        t'.TablesReadable := by
  have hWindow : windowEnsureEntry alloc reach a t index =
      some (ensureEntry alloc a t table index) := by
    refine windowEnsureEntry_eq index hSame hR hFresh hReach ?_
    rintro hAbsent frame rest rfl
    have hMissing : t.Missing (path ++ [index]) := by
      unfold PageTables.Missing
      rw [walk_snoc _ hAt]
      simp [nextFrame, hAbsent]
    have hCost : t.linkCost (path ++ [index]) = 1 :=
      if_pos hMissing
    rw [hCost] at hTaken
    exact hTaken frame (by simp)
  rcases ensureEntry_simulate hSame hR t table index with
    ⟨go, t', a', rest, hAlloc, hAnswers, hR'⟩
  rw [hWindow, hAlloc]
  rcases ensureEntry_exact index hSep hFresh hNonzero hAt
      hLen with
    ⟨_, hStop⟩ |
    ⟨_, t₁, hGo, hDown, hFresh', hNext, hAfter, hFrom⟩
  · rw [hAnswers] at hStop
    cases hStop
    exact .inl ⟨_, _, rfl, rfl⟩
  · rw [hAnswers] at hGo
    cases hGo
    exact .inr ⟨_, _, rfl, rfl, hR', hDown, hFresh', hNext,
      hAfter, hTables.grow hFrom hTaken hDown.entries⟩

/- A table that can be read while the entries stay -/
theorem PageTables.TablesReadable.reach
    (hTables : t.TablesReadable)
    (hUsed : t.Uses table)
    (t' : PageTables)
    (hSame : t'.entries = t.entries) :
    t'.reach (table + kernelVirtBase) = some table :=
  (hTables table hUsed).of_entries (by rw [hSame])

theorem windowNextTable_eq
    {table : PageTables → Option U64}
    {frame : U64}
    (index : TableIndex)
    (hReach : table t = some frame) :
    windowNextTable t table index =
      some (t.nextTable frame index + kernelVirtBase) := by
  unfold windowNextTable
  rw [hReach, nextTable_eq]
  rfl

/-
  While the tables can be read, and the frames that become
  tables too, mapping a page is what it is without the map.
-/
theorem windowMapPage_eq
    (hSame : SameAnswers alloc nextAnswer R)
    (hR : R a answers)
    (hSep : t.Separate)
    (hFresh : FreshAnswers t answers)
    (hNonzero : 0#64 ∉ answers)
    (hTables : t.TablesReadable)
    (virt phys : U64)
    (writable user nx : Bool)
    (hTaken : ∀ frame ∈ answers.take
      (missingTables t [pageOf virt]).card,
      t.Readable frame) :
    windowMapPage alloc a t virt phys writable user nx =
      some (pagingMapPage alloc a t virt phys writable user
        nx) := by
  unfold windowMapPage pagingMapPage
  rw [virtToIndices_eq]
  rw [card_missingTables_one] at hTaken
  generalize hIdx : pageIndices (pageOf virt) = idx at hTaken ⊢
  have hRoot :
      walk nextFrame t.memory t.pml4 [] = some t.pml4 := rfl
  have hDrop : ∀ n, 0#64 ∉ answers.drop n :=
    fun n hMem => hNonzero (List.mem_of_mem_drop hMem)
  have hTake : ∀ (t' : PageTables) (m n : Nat),
      t'.entries = t.entries →
      m + n ≤ t.linkCost [idx.pml4] +
        t.linkCost [idx.pml4, idx.pdp] + t.linkCost idx.path →
      ∀ frame ∈ (answers.drop m).take n, t'.Readable frame := by
    intro t' m n hEntries hLe frame hMem
    rw [List.take_drop] at hMem
    have hIn := List.take_subset_take_left answers hLe
      (List.mem_of_mem_drop hMem)
    exact (hTaken frame hIn).of_entries (by rw [hEntries])
  have hReach₁ : ∀ t' : PageTables, t'.pml4 = t.pml4 →
      t'.entries = t.entries →
      rootTable t' = some t.pml4 :=
    fun t' hEq _ => congrArg some hEq
  rcases windowEnsureEntry_exact idx.pml4 hSame hR hSep hFresh
      hNonzero hRoot (by simp) hReach₁ hTables
      (hTake t 0 _ rfl (by simp only [List.nil_append]; omega))
    with
    ⟨t₁, a₁, hWin, hDirect⟩ |
    ⟨t₁, a₁, hWin, hDirect, hR₁, hDown₁, hFresh₁, hAt₁, hAfter₁,
      hTables₁⟩
  · simp only [hWin, hDirect, Option.bind_eq_bind,
      Option.bind_some]
  rw [List.nil_append] at hR₁ hFresh₁ hAfter₁
  rw [List.nil_append, ← hDown₁.root] at hAt₁
  have hPdp : windowNextTable t₁ rootTable idx.pml4 = _ :=
    windowNextTable_eq idx.pml4 rfl
  simp only [hWin, hDirect, Option.bind_eq_bind,
    Option.bind_some, hPdp, PageTables.getPml4Entry]
  generalize t₁.nextTable t₁.pml4 idx.pml4 = pdp at hAt₁ ⊢
  have hReach₂ := hTables₁.reach ⟨_, by simp, hAt₁⟩
  have hCost₂ := hAfter₁.linkCost_eq
    (q := [idx.pml4, idx.pdp]) (by simp) (by simp)
  rcases windowEnsureEntry_exact idx.pdp hSame hR₁
      hDown₁.separate hFresh₁ (hDrop _) hAt₁ (by simp)
      (fun t' _ hEq => hReach₂ t' hEq) hTables₁
      (hTake t₁ _ _ hDown₁.entries (by
        simp only [List.cons_append, List.nil_append, hCost₂]
        omega)) with
    ⟨t₂, a₂, hWin, hDirect⟩ |
    ⟨t₂, a₂, hWin, hDirect, hR₂, hDown₂, hFresh₂, hAt₂, hAfter₂,
      hTables₂⟩
  · simp only [hWin, hDirect, Option.bind_some]
  simp only [List.cons_append, List.nil_append, hCost₂,
    List.drop_drop] at hR₂ hFresh₂ hAt₂ hAfter₂
  have hDown₁₂ := hDown₁.trans hDown₂
  have hCost₃ := (hAfter₁.trans hAfter₂).linkCost_eq
    (q := idx.path) (by simp [Indices.path])
    (by simp [Indices.path])
  have hPd : windowNextTable t₂
      (fun t => t.reach (pdp + kernelVirtBase)) idx.pdp = _ :=
    windowNextTable_eq idx.pdp (hReach₂ t₂ hDown₂.entries)
  simp only [hWin, hDirect, Option.bind_some, hPd,
    PageTables.getPdpEntry]
  generalize t₂.nextTable pdp idx.pdp = pd at hAt₂ ⊢
  have hReach₃ := hTables₂.reach ⟨_, by simp, hAt₂⟩
  rcases windowEnsureEntry_exact idx.pd hSame hR₂
      hDown₂.separate hFresh₂ (hDrop _) hAt₂ (by simp)
      (fun t' _ hEq => hReach₃ t' hEq) hTables₂
      (hTake t₂ _ _ hDown₁₂.entries (by
        change _ + t₂.linkCost idx.path ≤ _
        rw [hCost₃])) with
    ⟨t₃, a₃, hWin, hDirect⟩ |
    ⟨t₃, a₃, hWin, hDirect, _, hDown₃, _, hAt₃, _, hTables₃⟩
  · simp only [hWin, hDirect, Option.bind_some]
  have hPt : windowNextTable t₃
      (fun t => t.reach (pd + kernelVirtBase)) idx.pd = _ :=
    windowNextTable_eq idx.pd (hReach₃ t₃ hDown₃.entries)
  have hReach₄ := hTables₃.reach ⟨_, by simp, hAt₃⟩ t₃ rfl
  simp only [hWin, hDirect, Option.bind_some, hPt, hReach₄,
    PageTables.getPdEntry]

end Levels

end FeatherOS
