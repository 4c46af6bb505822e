import FeatherOS.Paging.Faults
import FeatherOS.Paging.VmallocMap

/-
  Whether the page tables stay where they can be read.

  The pages that `vmalloc` gives out start at the address of
  the direct map. A page that is mapped over the window of a
  table cuts the table off; as long as none is, the calls do
  what they do when every table can be reached.

  Key definitions include:
    * `SparesTables`
    * `VmmCall.Ok`
    * `DirectMapped`

  Key theorems include:
    * `windowMapFreshPages_eq`
    * `windowCall_eq`
    * `pageFault_cuts_off`
    * `tables_stay_readable`
-/

namespace FeatherOS

open RadixTable

--------------------
-- What A Call Touches
--------------------

/- The tables that the first `n` of the pages miss -/
def tablesFor
    (t : PageTables)
    (pages : List PageNumber)
    (n : Nat) : Nat :=
  (missingTables t (pages.take n)).card

/-
  A page is mapped if the frames suffice for it, for the pages
  before it and for the tables of all of them.
-/
def Maps
    (t : PageTables)
    (pages : List PageNumber)
    (frames : List U64)
    (page : PageNumber) : Prop :=
  ∃ i, pages[i]? = some page ∧
    i + 1 + tablesFor t pages (i + 1) ≤ frames.length

/-
  For page `i` one frame is taken for the page, and those
  after it for the tables that the pages before have left
  missing.
-/
def MakesTable
    (t : PageTables)
    (pages : List PageNumber)
    (frames : List U64)
    (frame : U64) : Prop :=
  ∃ i < pages.length,
    frame ∈ (frames.drop (i + 1 + tablesFor t pages i)).take
      (tablesFor t pages (i + 1) - tablesFor t pages i)

/-
  Every frame that is a table or is made one can be read, and
  its window is none of the pages that are mapped.
-/
def SparesTables
    (t : PageTables)
    (pages : List PageNumber)
    (frames : List U64) : Prop :=
  ∀ frame,
    t.Uses frame ∨ MakesTable t pages frames frame →
    t.Readable frame ∧ ¬ Maps t pages frames (windowPage frame)

theorem tablesFor_zero
    (t : PageTables)
    (pages : List PageNumber) :
    tablesFor t pages 0 = 0 := by
  unfold tablesFor
  rw [Finset.card_eq_zero]
  ext q
  simp

theorem tablesFor_succ
    {t t' : PageTables}
    {page : PageNumber}
    (hAfter : LinkedAfter t t' (pageIndices page).prefixes)
    (pages : List PageNumber)
    (n : Nat) :
    tablesFor t (page :: pages) (n + 1) =
      (missingTables t [page]).card + tablesFor t' pages n :=
  card_missingTables_cons hAfter _

theorem tablesFor_one
    (t : PageTables)
    (page : PageNumber)
    (pages : List PageNumber) :
    tablesFor t (page :: pages) 1 =
      (missingTables t [page]).card :=
  rfl

section Spares

variable {t t₁ : PageTables}
variable {page : PageNumber}
variable {pages : List PageNumber}
variable {a : U64}
variable {rest : List U64}

/- The tables of the first page can be made. -/
theorem SparesTables.readable
    (hSpares : SparesTables t (page :: pages) (a :: rest)) :
    ∀ frame ∈ rest.take (missingTables t [page]).card,
      t.Readable frame := by
  intro frame hFrame
  refine (hSpares frame (.inr ⟨0, by simp, ?_⟩)).1
  rw [tablesFor_zero, tablesFor_one]
  exact hFrame

theorem SparesTables.tables
    {frames : List U64}
    (hSpares : SparesTables t pages frames) :
    t.TablesReadable :=
  fun frame hUsed => (hSpares frame (.inl hUsed)).1

/- When there are no frames left, only the tables matter. -/
theorem SparesTables.of_nil
    (hTables : t.TablesReadable)
    (pages : List PageNumber) :
    SparesTables t pages [] := by
  rintro frame (hUsed | ⟨i, _, hFrame⟩)
  · refine ⟨hTables frame hUsed, ?_⟩
    rintro ⟨i, _, hEnough⟩
    rw [List.length_nil] at hEnough
    omega
  · simp at hFrame

/- After a page is mapped, the rest of the pages is spared. -/
theorem SparesTables.next
    (hSpares : SparesTables t (page :: pages) (a :: rest))
    (hEnough : (missingTables t [page]).card ≤ rest.length)
    {entry : Option U64}
    (hEntries :
      t₁.entries = Function.update t.entries page entry)
    (hAfter : LinkedAfter t t₁ (pageIndices page).prefixes)
    (hFrom : TablesFrom t t₁
      (rest.take (missingTables t [page]).card)) :
    SparesTables t₁ pages
      (rest.drop (missingTables t [page]).card) := by
  have hMapped : Maps t (page :: pages) (a :: rest) page := by
    refine ⟨0, rfl, ?_⟩
    rw [tablesFor_one, List.length_cons]
    omega
  intro frame hServes
  have hBefore : t.Uses frame ∨
      MakesTable t (page :: pages) (a :: rest) frame := by
    rcases hServes with hUsed | ⟨i, hi, hFrame⟩
    · refine (hFrom.added frame hUsed).imp_right fun hNew => ?_
      refine ⟨0, by simp, ?_⟩
      rw [tablesFor_zero, tablesFor_one]
      exact hNew
    · refine .inr ⟨i + 1, by simpa using hi, ?_⟩
      rw [List.drop_drop] at hFrame
      rw [tablesFor_succ hAfter, tablesFor_succ hAfter,
        Nat.add_sub_add_left]
      have hFrom : i + 1 + 1 +
          ((missingTables t [page]).card + tablesFor t₁ pages i) =
          (missingTables t [page]).card +
            (i + 1 + tablesFor t₁ pages i) + 1 := by
        omega
      rw [hFrom, List.drop_succ_cons]
      exact hFrame
  rcases hSpares frame hBefore with ⟨hReadable, hNot⟩
  refine ⟨hReadable.of_entries ?_, ?_⟩
  · rw [hEntries, Function.update_of_ne]
    intro hSame
    exact hNot (hSame ▸ hMapped)
  · rintro ⟨i, hi, hFits⟩
    refine hNot ⟨i + 1, by simpa using hi, ?_⟩
    rw [tablesFor_succ hAfter, List.length_cons]
    rw [List.length_drop] at hFits
    omega

end Spares

--------------------
-- The Loop
--------------------

/- `paging_map_page` through the map, with the allocator -/
def tableMapPage : MapPage Option :=
  windowMapPage physicalAllocPage

section Loop

variable {s : VmmState}
variable {pages : List PageNumber}

/- One turn is the turn without the map. -/
theorem windowMapFreshPage_eq
    (hSup : s.Supplied)
    {virt : U64}
    (hTables : s.tables.TablesReadable)
    (hTaken : ∀ a rest, s.freeFrames = a :: rest →
      a ≠ 0#64 →
      ∀ frame ∈ rest.take
        (missingTables s.tables [pageOf virt]).card,
        s.tables.Readable frame) :
    mapFreshPageWith tableMapPage virt s =
      some (mapFreshPage virt s) := by
  rcases physicalAllocPage_nextAnswer hSup.good with
    ⟨hAnswer, hRest, hGood⟩
  have hTail := hSup.good.frameList.zero_first
  have hFresh := hSup.fresh
  unfold mapFreshPage mapFreshPageWith
  by_cases hZero : (physicalAllocPage s.memManager).1 = 0#64
  · simp only [hZero, if_true]
    rfl
  · cases hList : freeFrames s.memManager with
    | nil =>
        rw [hList] at hAnswer
        exact absurd hAnswer hZero
    | cons a rest =>
        rw [hList] at hAnswer hRest hFresh hTail
        simp only [nextAnswer] at hAnswer hRest
        rw [hAnswer] at hZero
        have hMap := windowMapPage_eq
          physicalAllocPage_sameAnswers ⟨hGood, hRest⟩
          hSup.separate
          (hFresh.of_sublist (List.sublist_cons_self _ _))
          hTail hTables virt a true false true
          (hTaken a rest hList hZero)
        simp only [hAnswer, if_neg hZero]
        unfold tableMapPage
        rw [hMap]
        rfl

/- The loop is the loop without the map, and spares them. -/
theorem windowMapFreshPages_eq
    (hSup : s.Supplied)
    (hZero : 0#64 ∉ s.freeFrames)
    (n : Nat)
    (virt : U64)
    (hSpares : SparesTables s.tables (areaPages n virt)
      s.freeFrames) :
    mapFreshPagesWith tableMapPage n virt s =
        some (mapFreshPages n virt s) ∧
      (mapFreshPages n virt s).2.Supplied ∧
      (mapFreshPages n virt s).2.tables.TablesReadable := by
  induction n generalizing virt s with
  | zero => exact ⟨rfl, hSup, hSpares.tables⟩
  | succ n ih =>
      have hTurnWith :
          mapFreshPageWith tableMapPage virt s =
            some (mapFreshPage virt s) := by
        refine windowMapFreshPage_eq hSup hSpares.tables ?_
        intro a rest hList _
        rw [hList] at hSpares
        exact hSpares.readable
      have hLoop : mapFreshPagesWith tableMapPage (n + 1) virt s =
          if (mapFreshPage virt s).1 = true then
            mapFreshPagesWith tableMapPage n (virt + pageSize)
              (mapFreshPage virt s).2
          else
            some (false, (mapFreshPage virt s).2) := by
        rw [mapFreshPagesWith, hTurnWith]
        rfl
      rcases mapFreshPage_turn hSup virt with
        ⟨ok, t₁, mm₁, hTurn, hSup₁, hWhat⟩
      rw [hLoop, mapFreshPages_succ, hTurn]
      cases hWhat with
      | none => exact ⟨rfl, hSup₁, hSpares.tables⟩
      | zero hList => simp [hList] at hZero
      | @wasted a rest _ _ hList _ hFew hLeft hEntries hFrom =>
          rw [hList] at hSpares
          have hReadable := hSpares.readable
          have hAll : rest.length ≤
              (missingTables s.tables [pageOf virt]).card := by
            omega
          rw [List.take_of_length_le hAll] at hReadable
          have hTables : t₁.TablesReadable :=
            hSpares.tables.grow hFrom hReadable hEntries
          have hNil : (s.withMemory t₁ mm₁).freeFrames = [] :=
            hLeft
          refine ih (s := s.withMemory t₁ mm₁) hSup₁
            (by simp [hNil]) (virt + pageSize) ?_
          rw [hNil]
          exact .of_nil hTables _
      | @mapped a rest _ _ hList _ hEnough hLeft hEntries hAfter
          hFrom =>
          rw [hList] at hSpares hZero
          have hSome : (s.withMemory t₁ mm₁).freeFrames =
              rest.drop
                (missingTables s.tables [pageOf virt]).card :=
            hLeft
          refine ih (s := s.withMemory t₁ mm₁) hSup₁ ?_
            (virt + pageSize) ?_
          · rw [hSome]
            intro hMem
            exact hZero (List.mem_cons_of_mem _
              (List.mem_of_mem_drop hMem))
          · rw [hSome]
            exact hSpares.next hEnough hEntries hAfter hFrom

end Loop

--------------------
-- Calls
--------------------

inductive VmmCall where
  | vmallocMap (size : U64) (physOut : Option U64)
  | pageFault (faultAddr : U64) (errorCode : U32)

/- The state after a call, unless an access faults -/
def windowCall
    (s : VmmState) :
    VmmCall → Option VmmState
  | .vmallocMap size physOut =>
      (vmallocMapWith tableMapPage s size physOut).map
        fun res => res.2.2
  | .pageFault faultAddr errorCode =>
      (pageFaultHandlerWith tableMapPage s faultAddr
        errorCode).map fun res => res.2

/- The state after a call if the tables could not be missed -/
def directCall
    (s : VmmState) :
    VmmCall → VmmState
  | .vmallocMap size physOut =>
      (vmallocMap s size physOut).2.2
  | .pageFault faultAddr errorCode =>
      (pageFaultHandler s faultAddr errorCode).2

/- The pages that a call tries to map -/
def VmmCall.pages
    (s : VmmState) :
    VmmCall → List PageNumber
  | .vmallocMap size _ =>
      areaPages (numPages size) (reserved s size)
  | .pageFault faultAddr _ => [pageOf faultAddr]

/- The frames that it may use for pages and tables -/
def VmmCall.frames
    (s : VmmState) :
    VmmCall → List U64
  | .vmallocMap size _ =>
      if reserved s size = 0#64 ∨ 0#64 ∈ s.freeFrames then []
      else s.freeFrames.tail
  | .pageFault faultAddr _ =>
      if Demanded s faultAddr ∧ 0#64 ∉ s.freeFrames then
        s.freeFrames
      else []

/- The call maps no page over the window of a table. -/
def VmmCall.Ok
    (s : VmmState)
    (call : VmmCall) : Prop :=
  SparesTables s.tables (call.pages s) (call.frames s)

/- Tables that can be read where they are expected -/
structure VmmInvariant (s : VmmState) : Prop where
  supplied : s.Supplied
  readable : s.tables.TablesReadable

variable {frame : U64}

section Calls

variable {s : VmmState}

theorem vmallocMap_call_eq
    (hInv : VmmInvariant s)
    (size : U64)
    (physOut : Option U64)
    (hOk : (VmmCall.vmallocMap size physOut).Ok s) :
    windowCall s (.vmallocMap size physOut) =
        some (directCall s (.vmallocMap size physOut)) ∧
      VmmInvariant
        (directCall s (.vmallocMap size physOut)) := by
  have hSup := hInv.supplied
  rcases physicalAllocPage_nextAnswer hSup.good with
    ⟨hAnswer, hRest, hGood⟩
  have hWith : vmallocMapWith tableMapPage s size physOut =
      if reserved s size = 0#64 then
        some (0#64, physOut,
          { s.reserve size with memManager := s.memManager })
      else if (physicalAllocPage s.memManager).1 = 0#64 then
        some (0#64, physOut, s.reserve size)
      else
        (mapFreshPagesWith tableMapPage (numPages size)
            (reserved s size) (s.reserve size)).bind fun loop =>
          if loop.1 = true then
            some (reserved s size,
              physOut.map fun _ =>
                (physicalAllocPage s.memManager).1, loop.2)
          else
            some (0#64, physOut, loop.2) :=
    rfl
  have hFresh : FreshAnswers s.tables
      (freeFrames (physicalAllocPage s.memManager).2) := by
    rw [hRest]
    refine hSup.fresh.of_sublist ?_
    cases freeFrames s.memManager with
    | nil => exact List.Sublist.refl _
    | cons => exact List.sublist_cons_self _ _
  have hSup₁ : (s.reserve size).Supplied :=
    ⟨hGood, hSup.separate, hFresh⟩
  unfold windowCall directCall
  simp only
  rw [hWith, vmallocMap_eq]
  by_cases hVirt : reserved s size = 0#64
  · simp only [if_pos hVirt]
    exact ⟨rfl, hSup, hInv.readable⟩
  simp only [if_neg hVirt]
  by_cases hPhys : (physicalAllocPage s.memManager).1 = 0#64
  · simp only [if_pos hPhys]
    exact ⟨rfl, hSup₁, hInv.readable⟩
  simp only [if_neg hPhys]
  cases hList : freeFrames s.memManager with
  | nil =>
      rw [hList] at hAnswer
      exact absurd hAnswer hPhys
  | cons a rest =>
      rw [hList] at hAnswer hRest
      simp only [nextAnswer] at hAnswer hRest
      rw [hAnswer] at hPhys
      have hZero : 0#64 ∉ s.freeFrames := by
        change 0#64 ∉ freeFrames s.memManager
        rw [hList]
        exact (hSup.frameList hList).zero_not_mem hPhys
      have hFrames : (s.reserve size).freeFrames =
          s.freeFrames.tail := by
        change freeFrames (physicalAllocPage s.memManager).2 =
          (freeFrames s.memManager).tail
        rw [hRest, hList]
        rfl
      unfold VmmCall.Ok VmmCall.pages VmmCall.frames at hOk
      simp only [hVirt, hZero, or_self, if_false] at hOk
      rw [← hFrames] at hOk
      have hFresh : 0#64 ∉ (s.reserve size).freeFrames := by
        rw [hFrames]
        exact fun hMem => hZero (List.mem_of_mem_tail hMem)
      rcases windowMapFreshPages_eq hSup₁ hFresh _ _ hOk with
        ⟨hLoop, hSup₂, hTables₂⟩
      rw [hLoop, Option.bind_some]
      split
      next => exact ⟨rfl, hSup₂, hTables₂⟩
      next => exact ⟨rfl, hSup₂, hTables₂⟩

/- A turn for one page keeps the tables readable. -/
theorem windowMapFreshPage_keeps
    (hInv : VmmInvariant s)
    (virt : U64)
    (hSpares : 0#64 ∉ s.freeFrames →
      SparesTables s.tables [pageOf virt] s.freeFrames) :
    mapFreshPageWith tableMapPage virt s =
        some (mapFreshPage virt s) ∧
      VmmInvariant (mapFreshPage virt s).2 := by
  have hSup := hInv.supplied
  have hTurnWith : mapFreshPageWith tableMapPage virt s =
      some (mapFreshPage virt s) := by
    refine windowMapFreshPage_eq hSup hInv.readable ?_
    intro a rest hList hNe
    have hOk := hSpares (by
      rw [hList]
      exact (hSup.frameList hList).zero_not_mem hNe)
    rw [hList] at hOk
    exact hOk.readable
  refine ⟨hTurnWith, ?_⟩
  by_cases hZero : 0#64 ∈ s.freeFrames
  · -- the first frame is frame 0
    rcases mapFreshPage_turn hSup virt with
      ⟨ok, t₁, mm₁, hTurn, hSup₁, hWhat⟩
    rw [hTurn]
    cases hWhat with
    | none => exact ⟨hSup₁, hInv.readable⟩
    | zero => exact ⟨hSup₁, hInv.readable⟩
    | wasted hList hNe =>
        rw [hList] at hZero
        exact absurd hZero
          ((hSup.frameList hList).zero_not_mem hNe)
    | mapped hList hNe =>
        rw [hList] at hZero
        exact absurd hZero
          ((hSup.frameList hList).zero_not_mem hNe)
  · rcases windowMapFreshPages_eq hSup hZero 1 virt
        (hSpares hZero) with
      ⟨_, hSup₁, hTables₁⟩
    have hOne : (mapFreshPages 1 virt s).2 =
        (mapFreshPage virt s).2 := by
      rw [mapFreshPages_succ]
      split
      next => rfl
      next => rfl
    rw [hOne] at hSup₁ hTables₁
    exact ⟨hSup₁, hTables₁⟩

/- A fault is its turn, and the counters. -/
theorem pageFault_of_turn
    {faultAddr : U64}
    {errorCode : U32}
    (hDemanded : Demanded s faultAddr)
    (hTurn :
      mapFreshPageWith tableMapPage (frameMask faultAddr)
          (s.faulted errorCode) =
        some (mapFreshPage (frameMask faultAddr)
          (s.faulted errorCode))) :
    windowCall s (.pageFault faultAddr errorCode) =
        some (directCall s (.pageFault faultAddr errorCode)) ∧
      (directCall s
          (.pageFault faultAddr errorCode)).tables =
        (mapFreshPage (frameMask faultAddr)
          (s.faulted errorCode)).2.tables ∧
      (directCall s
          (.pageFault faultAddr errorCode)).memManager =
        (mapFreshPage (frameMask faultAddr)
          (s.faulted errorCode)).2.memManager := by
  unfold windowCall directCall
  simp only
  rw [pageFaultHandlerWith_eq, pageFaultHandler_eq,
    if_pos hDemanded, if_pos hDemanded, hTurn,
    Option.bind_eq_bind, Option.bind_some]
  split
  next => exact ⟨rfl, rfl, rfl⟩
  next => exact ⟨rfl, rfl, rfl⟩

theorem VmmInvariant.of_memory
    {s' : VmmState}
    (hInv : VmmInvariant s)
    (hTables : s'.tables = s.tables)
    (hManager : s'.memManager = s.memManager) :
    VmmInvariant s' := by
  refine ⟨?_, ?_⟩
  · unfold VmmState.Supplied
    rw [hTables, hManager]
    exact hInv.supplied
  · rw [hTables]
    exact hInv.readable

theorem pageFault_call_eq
    (hInv : VmmInvariant s)
    (faultAddr : U64)
    (errorCode : U32)
    (hOk : (VmmCall.pageFault faultAddr errorCode).Ok s) :
    windowCall s (.pageFault faultAddr errorCode) =
        some (directCall s (.pageFault faultAddr errorCode)) ∧
      VmmInvariant
        (directCall s (.pageFault faultAddr errorCode)) := by
  by_cases hDemanded : Demanded s faultAddr
  · have hInv₀ : VmmInvariant (s.faulted errorCode) :=
      hInv.of_memory rfl rfl
    rcases windowMapFreshPage_keeps hInv₀ (frameMask faultAddr)
        (by
          intro hZero
          unfold VmmCall.Ok VmmCall.pages VmmCall.frames at hOk
          simp only at hOk
          rw [if_pos ⟨hDemanded, hZero⟩] at hOk
          rw [pageOf_frameMask]
          exact hOk) with
      ⟨hTurn, hInv₁⟩
    rcases pageFault_of_turn hDemanded hTurn with
      ⟨hCall, hTables, hManager⟩
    exact ⟨hCall, hInv₁.of_memory hTables hManager⟩
  · rcases s.untried_keeps errorCode with ⟨hTables, hManager⟩
    unfold windowCall directCall
    simp only
    rw [pageFaultHandlerWith_eq, pageFaultHandler_eq,
      if_neg hDemanded, if_neg hDemanded]
    exact ⟨rfl, hInv.of_memory hTables hManager⟩

/- A fault at the window of a table that works cuts it off. -/
theorem pageFault_cuts_off
    (hInv : VmmInvariant s)
    (errorCode : U32)
    (hUsed : s.tables.Uses frame)
    (hDemanded : Demanded s (frame + kernelVirtBase))
    (hZero : 0#64 ∉ s.freeFrames)
    (hSome : s.freeFrames ≠ []) :
    ∃ t, windowCall s
        (.pageFault (frame + kernelVirtBase) errorCode) =
          some t ∧
      ¬ t.tables.TablesReadable := by
  have hSup : (s.faulted errorCode).Supplied := hInv.supplied
  have hEntry : s.tables.entries (windowPage frame) ≠ none := by
    intro hNone
    have hReadable := hInv.readable frame hUsed
    rw [PageTables.readable_iff, hNone] at hReadable
    cases hReadable
  have hNone := card_missingTables_of_entry hEntry
  have hPage : pageOf (frameMask (frame + kernelVirtBase)) =
      windowPage frame :=
    pageOf_frameMask _
  have hTurnWith : mapFreshPageWith tableMapPage
      (frameMask (frame + kernelVirtBase))
      (s.faulted errorCode) =
        some (mapFreshPage (frameMask (frame + kernelVirtBase))
          (s.faulted errorCode)) := by
    refine windowMapFreshPage_eq hSup hInv.readable ?_
    intro a rest _ _ other hTaken
    rw [hPage] at hTaken
    change other ∈ rest.take
      (missingTables s.tables [windowPage frame]).card at hTaken
    rw [hNone] at hTaken
    simp at hTaken
  rcases pageFault_of_turn hDemanded hTurnWith with
    ⟨hCall, hTables, _⟩
  refine ⟨_, hCall, fun hReadable => ?_⟩
  rw [hTables] at hReadable
  rcases mapFreshPage_turn hSup
      (frameMask (frame + kernelVirtBase)) with
    ⟨ok, t₁, mm₁, hTurn, _, hWhat⟩
  rw [hTurn] at hReadable
  rw [hPage] at hWhat
  cases hWhat with
  | none hNil => exact hSome hNil
  | zero hList =>
      change s.freeFrames = _ at hList
      simp [hList] at hZero
  | wasted _ _ hFew =>
      change _ < (missingTables s.tables
        [windowPage frame]).card at hFew
      omega
  | @mapped a rest _ _ hList hNe _ _ hEntries _ hFrom =>
      -- the table is still in use, and its page leads to `a`
      have haMem : a ∈ s.freeFrames := by
        change s.freeFrames = _ at hList
        rw [hList]
        exact List.mem_cons_self
      have hGone := hReadable frame (hFrom.kept frame hUsed)
      rw [PageTables.readable_iff] at hGone
      change (t₁.entries (windowPage frame)).map _ = _ at hGone
      rw [hEntries, Function.update_self, Option.map_some,
        hInv.supplied.entryFrame_vmallocPte haMem,
        Option.some.injEq] at hGone
      have hFree := (hInv.supplied.fresh.fresh a
        haMem).resolve_left hNe
      exact hFree.2 (hGone ▸ hUsed)

/- A call that spares the windows reads what it has written. -/
theorem windowCall_eq
    (hInv : VmmInvariant s)
    {call : VmmCall}
    (hOk : call.Ok s) :
    windowCall s call = some (directCall s call) ∧
      VmmInvariant (directCall s call) := by
  cases call with
  | vmallocMap size physOut =>
      exact vmallocMap_call_eq hInv size physOut hOk
  | pageFault faultAddr errorCode =>
      exact pageFault_call_eq hInv faultAddr errorCode hOk

end Calls

--------------------
-- Runs
--------------------

/- All frames can be read, and the tables lie in frames. -/
structure DirectMapped (s : VmmState) : Prop where
  readable : ∀ frame, IsFrame frame → s.tables.Readable frame
  tables : ∀ frame, s.tables.Uses frame → IsFrame frame

/- Calls that do not fault -/
def windowStep
    (s : VmmState)
    (call : VmmCall)
    (t : VmmState) : Prop :=
  windowCall s call = some t

/-
  In a run whose calls map no page over the window of a table
  or of a frame that becomes one, every table stays readable,
  and the next such call reads the tables as they are.
-/
theorem tables_stay_readable
    {s t : VmmState}
    {calls : List VmmCall}
    (hSup : s.Supplied)
    (hMap : DirectMapped s)
    (hRun : Run (Guarded (fun s call => call.Ok s) windowStep) s
      calls t) :
    t.tables.TablesReadable ∧
      ∀ call : VmmCall, call.Ok t →
        windowCall t call = some (directCall t call) := by
  have hInv : VmmInvariant t := by
    refine hRun.invariant VmmInvariant ?_ ⟨hSup, ?_⟩
    · rintro s call t hInv ⟨hOk, hStep⟩
      rcases windowCall_eq hInv hOk with ⟨hCall, hNext⟩
      rw [windowStep, hCall] at hStep
      cases hStep
      exact hNext
    · exact fun frame hUsed =>
        hMap.readable frame (hMap.tables frame hUsed)
  exact ⟨hInv.readable,
    fun call hOk => (windowCall_eq hInv hOk).1⟩

--------------------
-- Boot With A Direct Map
--------------------

theorem directTables_readable
    (hFrame : IsFrame frame) :
    directTables.Readable frame := by
  have hSmall := hFrame.2
  have hSelf : entryFrame (tablePte frame) = frame :=
    entryFrame_makePte _ _ _ hFrame.1 (by omega)
  rw [PageTables.readable_iff, entries_directTables hFrame,
    Option.map_some, hSelf]

theorem VmmState.mapped_directMapped :
    DirectMapped VmmState.mapped where
  readable := fun _ hFrame => directTables_readable hFrame
  tables := by
    intro frame hUsed
    rcases uses_directTables hUsed with ⟨hPage, _, hHigh⟩
    exact ⟨hPage, by omega⟩

theorem VmmState.mapped_invariant :
    VmmInvariant VmmState.mapped where
  supplied := VmmState.mapped_supplied
  readable := fun frame hUsed => directTables_readable
    (VmmState.mapped_directMapped.tables frame hUsed)

/- A page over no table's window may be mapped. -/
theorem VmmState.mapped_spares
    (hFrame : IsFrame frame)
    (hBelow : frame.toNat < 0x10000000) :
    SparesTables VmmState.mapped.tables [windowPage frame]
      VmmState.mapped.freeFrames := by
  rintro other (hUsed | ⟨i, hi, hTaken⟩)
  · have hTable := VmmState.mapped_directMapped.tables other hUsed
    refine ⟨directTables_readable hTable, ?_⟩
    rintro ⟨i, hPage, _⟩
    have hIn := List.mem_singleton.mp
      (List.mem_of_getElem? hPage)
    have hNat := congrArg BitVec.toNat hIn
    rw [toNat_windowPage hTable, toNat_windowPage hFrame] at hNat
    have hHigh := (uses_directTables hUsed).2.1
    omega
  · have hOnly : i = 0 := by simpa using hi
    subst hOnly
    rw [tablesFor_zero, tablesFor_one] at hTaken
    have hEntry : VmmState.mapped.tables.entries
        (windowPage frame) ≠ none := by
      change directTables.entries (windowPage frame) ≠ none
      rw [entries_directTables hFrame]
      exact Option.some_ne_none _
    rw [card_missingTables_of_entry hEntry] at hTaken
    simp at hTaken

theorem tables_stay_readable_first_page :
    ∃ t, Run
        (Guarded (fun s call => VmmCall.Ok s call) windowStep)
        VmmState.mapped [.pageFault vmallocStart 0#32] t ∧
      t.tables.TablesReadable := by
  have hOk : (VmmCall.pageFault vmallocStart 0#32).Ok
      VmmState.mapped := by
    have hSpares : SparesTables VmmState.mapped.tables
        [windowPage 0#64] VmmState.mapped.freeFrames :=
      VmmState.mapped_spares ⟨rfl, by decide⟩ (by decide)
    have hZero : 0#64 ∉ VmmState.mapped.freeFrames :=
      zero_not_mem_booted
    have hTried : Demanded VmmState.mapped vmallocStart :=
      ⟨rfl, Nat.le_refl _, by decide⟩
    unfold VmmCall.Ok VmmCall.pages VmmCall.frames
    simp only
    rw [if_pos ⟨hTried, hZero⟩]
    exact hSpares
  have hRun : Run
      (Guarded (fun s call => VmmCall.Ok s call) windowStep)
      VmmState.mapped [.pageFault vmallocStart 0#32] _ :=
    .cons ⟨hOk,
      (windowCall_eq VmmState.mapped_invariant hOk).1⟩ (.nil _)
  exact ⟨_, hRun, (tables_stay_readable VmmState.mapped_supplied
    VmmState.mapped_directMapped hRun).1⟩

/- A fault at the window of the pointer table cuts it off. -/
theorem fault_unmaps_table :
    ¬ ∀ (s t : VmmState) (calls : List VmmCall),
      s.Supplied → DirectMapped s →
        Run windowStep s calls t → t.tables.TablesReadable := by
  intro hAll
  have hUsed : VmmState.mapped.tables.Uses 0x10001000#64 := by
    refine ⟨[256#9], by simp, ?_⟩
    change walk nextFrame directTables.memory directTables.pml4
      [256#9] = _
    simp [walk, next_directRoot]
  have hDemanded : Demanded VmmState.mapped
      (0x10001000#64 + kernelVirtBase) :=
    ⟨rfl, by decide, by decide⟩
  have hSome : VmmState.mapped.freeFrames ≠ [] := by
    have hLen := length_freeFrames_booted
    change 5 ≤ VmmState.mapped.freeFrames.length at hLen
    intro hNil
    rw [hNil] at hLen
    cases hLen
  rcases pageFault_cuts_off VmmState.mapped_invariant 0#32
      hUsed hDemanded zero_not_mem_booted hSome with
    ⟨t, hCall, hNot⟩
  exact hNot (hAll _ _ _ VmmState.mapped_supplied
    VmmState.mapped_directMapped (.cons hCall (.nil _)))

end FeatherOS
