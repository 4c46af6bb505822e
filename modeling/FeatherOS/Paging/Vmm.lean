import FeatherOS.Paging.Supply
import FeatherOS.Paging.Vmalloc

/-
  `vmalloc_map` and `page_fault_handler` of
  `kernel/mm/paging_impl.c`.

  Both take a frame, pass it to `paging_map_page` and do not
  look at the result. They are written over a monad and the
  `paging_map_page` in it, so that an access to a table may
  also be one that faults. Here every access succeeds.

  Key definitions include:
    * `vmallocMap`
    * `pageFaultHandler`
    * `PageTables.translate`
    * `FreshTurn`

  Key theorems include:
    * `mapFreshPage_turn`
-/

namespace FeatherOS

--------------------
-- The State
--------------------

/- page_fault_info_t, as far as it is filled in -/
structure PageFaultInfo where
  present : Bool
  write : Bool
  user : Bool
  reserved : Bool
  instrFetch : Bool

/- `(error_code & flag) != 0` for PF_PRESENT .. PF_INSTR -/
def parseErrorCode (errorCode : U32) : PageFaultInfo where
  present := errorCode &&& 1#32 != 0#32
  write := errorCode &&& 2#32 != 0#32
  user := errorCode &&& 4#32 != 0#32
  reserved := errorCode &&& 8#32 != 0#32
  instrFetch := errorCode &&& 16#32 != 0#32

/- page_fault_stats_t -/
structure PageFaultStats where
  totalFaults : U64
  presentFaults : U64
  writeFaults : U64
  userFaults : U64
  reservedFaults : U64
  instructionFaults : U64
  handledFaults : U64
  unhandledFaults : U64

/- `if (flag) counter++` -/
def countIf
    (flag : Bool)
    (counter : U64) : U64 :=
  if flag then counter + 1#64 else counter

def PageFaultStats.count
    (stats : PageFaultStats)
    (info : PageFaultInfo) :
    PageFaultStats :=
  { stats with
    totalFaults := stats.totalFaults + 1#64
    presentFaults := countIf info.present stats.presentFaults
    writeFaults := countIf info.write stats.writeFaults
    userFaults := countIf info.user stats.userFaults
    reservedFaults :=
      countIf info.reserved stats.reservedFaults
    instructionFaults :=
      countIf info.instrFetch stats.instructionFaults }

/-
  vmalloc_next, the tables under `vmm->pml4`, the physical
  memory manager, `vmm && vmm->initialized`, `vmm->stats` and
  page_faults_handled.
-/
structure VmmState where
  vmallocNext : U64
  tables : PageTables
  memManager : Option MemoryManager
  initialized : Bool
  stats : PageFaultStats
  pageFaultsHandled : U64

namespace VmmState

/- Where the mapping of a page can change the state. -/
def withMemory
    (s : VmmState)
    (tables : PageTables)
    (memManager : Option MemoryManager) :
    VmmState :=
  { s with tables := tables, memManager := memManager }

def handled (s : VmmState) : VmmState :=
  { s with
    stats :=
      { s.stats with
        handledFaults := s.stats.handledFaults + 1#64 } }

def unhandled (s : VmmState) : VmmState :=
  { s with
    stats :=
      { s.stats with
        unhandledFaults := s.stats.unhandledFaults + 1#64 } }

/- No table lies in a frame that counts as free. -/
def Supplied (s : VmmState) : Prop :=
  FeatherOS.Supplied s.tables s.memManager

def freeFrames (s : VmmState) : List U64 :=
  FeatherOS.freeFrames s.memManager

end VmmState

--------------------
-- The Calls
--------------------

/- is_kernel_address -/
def isKernelAddress (addr : U64) : Bool :=
  addr.toInt < 0

/- `paging_map_page` on the tables and the memory manager. -/
abbrev MapPage (m : Type → Type) : Type :=
  Option MemoryManager → PageTables → U64 → U64 →
    Bool → Bool → Bool →
    m (Int × PageTables × Option MemoryManager)

section Calls

variable {m : Type → Type}
variable [Monad m]
variable (mapPage : MapPage m)

/-
  A frame for the page at `virt`, which is writable and not
  for execution. The flag says whether there was a frame, not
  whether it has been mapped.
-/
def mapFreshPageWith
    (virt : U64)
    (s : VmmState) : m (Bool × VmmState) :=
  let phys := (physicalAllocPage s.memManager).1
  let memManager := (physicalAllocPage s.memManager).2
  if phys = 0#64 then
    pure (false, s.withMemory s.tables memManager)
  else do
    let res ←
      mapPage memManager s.tables virt phys true false true
    pure (true, s.withMemory res.2.1 res.2.2)

/- The loop of `vmalloc_map` with `n` turns from `virt` on. -/
def mapFreshPagesWith :
    Nat → U64 → VmmState → m (Bool × VmmState)
  | 0, _, s => pure (true, s)
  | n + 1, virt, s => do
      let turn ← mapFreshPageWith mapPage virt s
      if turn.1 then
        mapFreshPagesWith n (virt + pageSize) turn.2
      else
        pure (false, turn.2)

/-
  The cell that `phys_out` points to comes back with the
  pointer; it is `none` for a NULL `phys_out`.
-/
def vmallocMapWith
    (s : VmmState)
    (size : U64)
    (physOut : Option U64) :
    m (U64 × Option U64 × VmmState) :=
  let size := vmallocSize size
  let numPages := size / pageSize
  let virt := (vmalloc s.vmallocNext size).1
  let s :=
    { s with vmallocNext := (vmalloc s.vmallocNext size).2 }
  if virt = 0#64 then
    pure (0#64, physOut, s)
  else
    let phys := (physicalAllocPage s.memManager).1
    let s :=
      s.withMemory s.tables (physicalAllocPage s.memManager).2
    if phys = 0#64 then
      pure (0#64, physOut, s)
    else do
      let loop ← mapFreshPagesWith mapPage numPages.toNat virt s
      if loop.1 then
        pure (virt, physOut.map fun _ => phys, loop.2)
      else
        pure (0#64, physOut, loop.2)

def pageFaultHandlerWith
    (s : VmmState)
    (faultAddr : U64)
    (errorCode : U32) : m (Int × VmmState) :=
  let s :=
    { s with pageFaultsHandled := s.pageFaultsHandled + 1#64 }
  if !s.initialized then
    pure (-1, s)
  else
    let info := parseErrorCode errorCode
    let s := { s with stats := s.stats.count info }
    if faultAddr ≥ 0xFFFFFFFFFFFFF000#64 then
      pure (-1, s.unhandled)
    else if isKernelAddress faultAddr &&
        (faultAddr ≥ vmallocStart && faultAddr < vmallocEnd) then do
      let res ← mapFreshPageWith mapPage (frameMask faultAddr) s
      if res.1 then
        pure (0, res.2.handled)
      else
        pure (-1, res.2.unhandled)
    else
      pure (-1, s.unhandled)

end Calls

/- `paging_map_page` when every table can be reached. -/
def directMapPage : MapPage Id :=
  pagingMapPage physicalAllocPage

def mapFreshPage
    (virt : U64)
    (s : VmmState) : Bool × VmmState :=
  Id.run (mapFreshPageWith directMapPage virt s)

def mapFreshPages
    (n : Nat)
    (virt : U64)
    (s : VmmState) : Bool × VmmState :=
  Id.run (mapFreshPagesWith directMapPage n virt s)

def vmallocMap
    (s : VmmState)
    (size : U64)
    (physOut : Option U64) :
    U64 × Option U64 × VmmState :=
  Id.run (vmallocMapWith directMapPage s size physOut)

def pageFaultHandler
    (s : VmmState)
    (faultAddr : U64)
    (errorCode : U32) : Int × VmmState :=
  Id.run (pageFaultHandlerWith directMapPage s faultAddr errorCode)

--------------------
-- Translation
--------------------

/- The frame that a page is mapped to. -/
def PageTables.frameOf
    (t : PageTables)
    (page : PageNumber) : Option U64 :=
  (t.entries page).map entryFrame

/- The physical address behind a virtual one. -/
def PageTables.translate
    (t : PageTables)
    (virt : U64) : Option U64 :=
  (t.frameOf (pageOf virt)).map fun frame =>
    frame + (virt &&& 0xFFF#64)

--------------------
-- One Page
--------------------

/- The entry of a page that was mapped into frame `phys`. -/
def vmallocPte (phys : U64) : U64 :=
  makePte phys true true false true

variable {s : VmmState}

theorem VmmState.Supplied.frameList
    (hSup : s.Supplied)
    {frames : List U64}
    (hFrames : s.freeFrames = frames) :
    FrameList frames :=
  hFrames ▸ hSup.good.frameList

theorem VmmState.Supplied.entryFrame_vmallocPte
    (hSup : s.Supplied)
    {a : U64}
    (ha : a ∈ s.freeFrames) :
    entryFrame (vmallocPte a) = a := by
  have hPage := hSup.good.frameList.page a ha
  exact entryFrame_makePte _ _ _ hPage.1 (by omega)

/-
  What a turn for `page` can do, by the flag, the tables and
  the manager afterwards: there is no frame, or the first one
  is frame 0; or one is taken, and the page is mapped if the
  frames after it suffice for the tables.
-/
inductive FreshTurn
    (s : VmmState)
    (page : PageNumber) :
    Bool → PageTables → Option MemoryManager → Prop
| none
    {mm₁ : Option MemoryManager}
    (hNone : s.freeFrames = [])
    (hLeft : freeFrames mm₁ = []) :
    FreshTurn s page false s.tables mm₁
| zero
    {mm₁ : Option MemoryManager}
    (hList : s.freeFrames = 0#64 :: freeFrames mm₁) :
    FreshTurn s page false s.tables mm₁
| wasted
    {a : U64}
    {rest : List U64}
    {t₁ : PageTables}
    {mm₁ : Option MemoryManager}
    (hList : s.freeFrames = a :: rest)
    (hNe : a ≠ 0#64)
    (hFew :
      rest.length < (missingTables s.tables [page]).card)
    (hLeft : freeFrames mm₁ = [])
    (hEntries : t₁.entries = s.tables.entries)
    (hFrom : TablesFrom s.tables t₁ rest) :
    FreshTurn s page true t₁ mm₁
| mapped
    {a : U64}
    {rest : List U64}
    {t₁ : PageTables}
    {mm₁ : Option MemoryManager}
    (hList : s.freeFrames = a :: rest)
    (hNe : a ≠ 0#64)
    (hEnough :
      (missingTables s.tables [page]).card ≤ rest.length)
    (hLeft : freeFrames mm₁ =
      rest.drop (missingTables s.tables [page]).card)
    (hEntries : t₁.entries =
      Function.update s.tables.entries page
        (some (vmallocPte a)))
    (hAfter :
      LinkedAfter s.tables t₁ (pageIndices page).prefixes)
    (hFrom : TablesFrom s.tables t₁
      (rest.take (missingTables s.tables [page]).card)) :
    FreshTurn s page true t₁ mm₁

theorem mapFreshPage_turn
    (hSup : s.Supplied)
    (virt : U64) :
    ∃ ok t₁ mm₁,
      mapFreshPage virt s = (ok, s.withMemory t₁ mm₁) ∧
        FeatherOS.Supplied t₁ mm₁ ∧
        FreshTurn s (pageOf virt) ok t₁ mm₁ := by
  rcases physicalAllocPage_nextAnswer hSup.good with
    ⟨hAnswer, hRest, hGood⟩
  have hTail := hSup.good.frameList.zero_first
  have hFresh := hSup.fresh
  have hTurn : mapFreshPage virt s =
      if (physicalAllocPage s.memManager).1 = 0#64 then
        (false, s.withMemory s.tables
          (physicalAllocPage s.memManager).2)
      else
        (true, s.withMemory
          (pagingMapPage physicalAllocPage
            (physicalAllocPage s.memManager).2 s.tables virt
            (physicalAllocPage s.memManager).1
            true false true).2.1
          (pagingMapPage physicalAllocPage
            (physicalAllocPage s.memManager).2 s.tables virt
            (physicalAllocPage s.memManager).1
            true false true).2.2) :=
    rfl
  rw [hTurn]
  cases hList : FeatherOS.freeFrames s.memManager with
  | nil =>
      rw [hList] at hAnswer hRest
      refine ⟨false, s.tables,
        (physicalAllocPage s.memManager).2, if_pos hAnswer,
        ⟨hGood, hSup.separate, ?_⟩, .none hList hRest⟩
      rw [hRest]
      exact ⟨by simp [nextAnswer], by simp [nextAnswer]⟩
  | cons a rest =>
      rw [hList] at hAnswer hRest hFresh hTail
      simp only [nextAnswer] at hAnswer hRest
      have hFreshRest : FreshAnswers s.tables rest :=
        hFresh.of_sublist (List.sublist_cons_self _ _)
      by_cases hZero : a = 0#64
      · refine ⟨false, s.tables,
          (physicalAllocPage s.memManager).2,
          if_pos (hAnswer.trans hZero),
          ⟨hGood, hSup.separate, ?_⟩, .zero ?_⟩
        · rw [hRest]
          exact hFreshRest
        · rw [hRest, ← hZero]
          exact hList
      · rw [hAnswer, if_neg hZero]
        rcases pagingMapPage_fresh hGood hRest hSup.separate
            hFreshRest hTail virt a true false true with
          ⟨r, t₁, mm₁, hMap, hSup₁,
            ⟨hFew, _, hNone, hEntries, hFrom⟩ |
            ⟨hEnough, _, hRest₁, hEntries, hAfter, hFrom⟩⟩
        · rw [hMap]
          exact ⟨true, t₁, mm₁, rfl, hSup₁,
            .wasted hList hZero hFew hNone hEntries hFrom⟩
        · rw [hMap]
          exact ⟨true, t₁, mm₁, rfl, hSup₁,
            .mapped hList hZero hEnough hRest₁ hEntries hAfter
              hFrom⟩

--------------------
-- After Boot
--------------------

/- The state after boot, when frame 0 has been given away -/
def VmmState.booted : VmmState where
  vmallocNext := vmallocStart
  tables :=
    { pml4 := 0x40000000#64
      memory := fun _ _ => 0#64 }
  memManager := some bootedManager
  initialized := true
  stats := ⟨0, 0, 0, 0, 0, 0, 0, 0⟩
  pageFaultsHandled := 0#64

end FeatherOS
