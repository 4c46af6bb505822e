import FeatherOS.Paging.DirectTables

/-
  What `page_fault_handler` does about a fault.

  A fault in the vmalloc region gets a frame whether or not
  the page is mapped already, and 0 is returned whether or
  not the page is mapped then.

  Key definitions include:
    * `FaultSound`
    * `FaultOk`

  Key theorems include:
    * `pageFaultHandlerWith_eq`
    * `pageFaultHandler_tried`
    * `pageFaultHandler_sound_iff`
-/

namespace FeatherOS

--------------------
-- The Property
--------------------

/- The faulting page is mapped now and was not before. -/
structure Resolved
    (s : VmmState)
    (page : PageNumber)
    (s' : VmmState) : Prop where
  unmapped : s.tables.entries page = none
  mapped : ∃ a ∈ s.freeFrames, a ∉ s'.freeFrames ∧
    s'.tables.frameOf page = some a
  others : ∀ other, other ≠ page →
    s'.tables.entries other = s.tables.entries other

structure FaultSound
    (s : VmmState)
    (faultAddr : U64)
    (errorCode : U32)
    (res : Int × VmmState) : Prop where
  resolved : res.1 = 0 → Resolved s (pageOf faultAddr) res.2
  refused : res.1 = -1 →
    (∀ a, a ∈ res.2.freeFrames ↔ a ∈ s.freeFrames) ∧
      res.2.tables.entries = s.tables.entries
  protection : (parseErrorCode errorCode).present = true →
    ∀ entry,
      s.tables.entries (pageOf faultAddr) = some entry →
      res.2.tables.entries (pageOf faultAddr) = some entry

/- The handler tries to map the page. -/
def Demanded
    (s : VmmState)
    (faultAddr : U64) : Prop :=
  s.initialized = true ∧
    vmallocStart.toNat ≤ faultAddr.toNat ∧
    faultAddr.toNat < vmallocEnd.toNat

instance
    (s : VmmState)
    (faultAddr : U64) :
    Decidable (Demanded s faultAddr) :=
  inferInstanceAs (Decidable (_ ∧ _))

/-
  Nothing is tried; or there is no frame; or the page is not
  mapped, frame 0 is not free, and there are enough frames for
  the page and its tables.
-/
def FaultOk
    (s : VmmState)
    (faultAddr : U64) : Prop :=
  ¬ Demanded s faultAddr ∨ s.freeFrames = [] ∨
    (s.tables.entries (pageOf faultAddr) = none ∧
      0#64 ∉ s.freeFrames ∧
      1 + (missingTables s.tables [pageOf faultAddr]).card ≤
        s.freeFrames.length)

--------------------
-- The Handler
--------------------

section Handler

variable {s : VmmState}
variable {faultAddr : U64}

/- The state in which a fault is looked at -/
def VmmState.faulted
    (s : VmmState)
    (errorCode : U32) : VmmState :=
  { s with
    pageFaultsHandled := s.pageFaultsHandled + 1#64
    stats := s.stats.count (parseErrorCode errorCode) }

/- The state after a fault that is not looked at -/
def VmmState.untried
    (s : VmmState)
    (errorCode : U32) : VmmState :=
  if s.initialized then
    (s.faulted errorCode).unhandled
  else
    { s with pageFaultsHandled := s.pageFaultsHandled + 1#64 }

/- The three checks of the address are those of the range. -/
theorem region_checks_iff
    (faultAddr : U64) :
    (¬ faultAddr ≥ 0xFFFFFFFFFFFFF000#64 ∧
        (isKernelAddress faultAddr &&
          (faultAddr ≥ vmallocStart &&
            faultAddr < vmallocEnd)) = true) ↔
      vmallocStart.toNat ≤ faultAddr.toNat ∧
        faultAddr.toNat < vmallocEnd.toNat := by
  have hStart : vmallocStart.toNat = 0xFFFF800000000000 := rfl
  have hEnd : vmallocEnd.toNat = 0xFFFF802000000000 := rfl
  have hTop : (0xFFFFFFFFFFFFF000#64 : U64).toNat =
      0xFFFFFFFFFFFFF000 := rfl
  have hKernel : isKernelAddress faultAddr = true ↔
      2 ^ 63 ≤ faultAddr.toNat := by
    unfold isKernelAddress
    rw [decide_eq_true_iff, BitVec.toInt_eq_toNat_cond]
    have hLt := faultAddr.isLt
    split <;> omega
  simp only [Bool.and_eq_true, decide_eq_true_eq, hKernel,
    ge_iff_le, BitVec.le_def, BitVec.lt_def, hStart, hEnd, hTop]
  omega

/- What comes back, by whether the page is tried -/
theorem pageFaultHandlerWith_eq
    {m : Type → Type}
    [Monad m]
    (mapPage : MapPage m)
    (s : VmmState)
    (faultAddr : U64)
    (errorCode : U32) :
    pageFaultHandlerWith mapPage s faultAddr errorCode =
      if Demanded s faultAddr then do
        let res ← mapFreshPageWith mapPage (frameMask faultAddr)
          (s.faulted errorCode)
        if res.1 then
          pure (0, res.2.handled)
        else
          pure (-1, res.2.unhandled)
      else
        pure (-1, s.untried errorCode) := by
  have hChecks := region_checks_iff faultAddr
  have hForm : pageFaultHandlerWith mapPage s faultAddr
      errorCode =
      if (!s.initialized) = true then
        pure (-1,
          { s with
            pageFaultsHandled := s.pageFaultsHandled + 1#64 })
      else if faultAddr ≥ 0xFFFFFFFFFFFFF000#64 then
        pure (-1, (s.faulted errorCode).unhandled)
      else if (isKernelAddress faultAddr &&
          (faultAddr ≥ vmallocStart &&
            faultAddr < vmallocEnd)) = true then
        mapFreshPageWith mapPage (frameMask faultAddr)
            (s.faulted errorCode) >>= fun res =>
          if res.1 = true then
            pure (0, res.2.handled)
          else
            pure (-1, res.2.unhandled)
      else
        pure (-1, (s.faulted errorCode).unhandled) :=
    rfl
  rw [hForm]
  unfold VmmState.untried
  by_cases hInit : s.initialized = true
  · rw [if_neg (by simp [hInit]), if_pos hInit]
    by_cases hRange : vmallocStart.toNat ≤ faultAddr.toNat ∧
        faultAddr.toNat < vmallocEnd.toNat
    · have hBoth := hChecks.mpr hRange
      have hTried : Demanded s faultAddr := ⟨hInit, hRange⟩
      rw [if_neg hBoth.1, if_pos hBoth.2, if_pos hTried]
    · have hNot : ¬ Demanded s faultAddr :=
        fun hTried => hRange hTried.2
      rw [if_neg hNot]
      split
      next => rfl
      next hLow =>
        split
        next hIn => exact absurd (hChecks.mp ⟨hLow, hIn⟩) hRange
        next => rfl
  · have hNot : ¬ Demanded s faultAddr :=
      fun hTried => hInit hTried.1
    rw [if_pos (by simp [hInit]), if_neg hNot, if_neg hInit]

theorem pageFaultHandler_eq
    (s : VmmState)
    (faultAddr : U64)
    (errorCode : U32) :
    pageFaultHandler s faultAddr errorCode =
      if Demanded s faultAddr then
        if (mapFreshPage (frameMask faultAddr)
            (s.faulted errorCode)).1 = true then
          (0, (mapFreshPage (frameMask faultAddr)
            (s.faulted errorCode)).2.handled)
        else
          (-1, (mapFreshPage (frameMask faultAddr)
            (s.faulted errorCode)).2.unhandled)
      else
        (-1, s.untried errorCode) := by
  unfold pageFaultHandler
  rw [pageFaultHandlerWith_eq]
  rfl

theorem VmmState.untried_keeps
    (s : VmmState)
    (errorCode : U32) :
    (s.untried errorCode).tables = s.tables ∧
      (s.untried errorCode).memManager = s.memManager := by
  unfold VmmState.untried
  split
  next => exact ⟨rfl, rfl⟩
  next => exact ⟨rfl, rfl⟩

theorem pageOf_frameMask
    (virt : U64) :
    pageOf (frameMask virt) = pageOf virt := by
  apply BitVec.eq_of_getLsbD_eq
  intro i hi
  have hBit := getLsbD_frameMask virt (12 + i) (by omega)
  unfold pageOf
  rw [BitVec.getLsbD_extractLsb', BitVec.getLsbD_extractLsb',
    hBit]
  have hHigh : ¬ 12 + i < 12 := by omega
  simp [hHigh]

end Handler

/- A fault that is looked at, by the frames that there are -/
theorem pageFaultHandler_tried
    {s : VmmState}
    {faultAddr : U64}
    (hSup : s.Supplied)
    (hDemanded : Demanded s faultAddr)
    (errorCode : U32) :
    FaultSound s faultAddr errorCode
        (pageFaultHandler s faultAddr errorCode) ↔
      s.freeFrames = [] ∨
        (s.tables.entries (pageOf faultAddr) = none ∧
          0#64 ∉ s.freeFrames ∧
          1 + (missingTables s.tables
            [pageOf faultAddr]).card ≤ s.freeFrames.length) := by
  rw [pageFaultHandler_eq, if_pos hDemanded]
  have hSup₀ : (s.faulted errorCode).Supplied := hSup
  rcases mapFreshPage_turn hSup₀ (frameMask faultAddr) with
    ⟨ok, t₁, mm₁, hTurn, _, hWhat⟩
  rw [hTurn]
  rw [pageOf_frameMask] at hWhat
  cases hWhat with
  | none hNone hLeft₁ =>
      change s.freeFrames = [] at hNone
      rw [if_neg (by simp)]
      refine iff_of_true ⟨by simp, fun _ => ⟨fun a => ?_, rfl⟩,
        fun _ _ he => he⟩ (.inl hNone)
      change a ∈ freeFrames mm₁ ↔ a ∈ s.freeFrames
      rw [hLeft₁, hNone]
  | zero hList =>
      -- frame 0 is taken and not used
      change s.freeFrames = 0#64 :: freeFrames mm₁ at hList
      rw [if_neg (by simp)]
      have hMem : 0#64 ∈ s.freeFrames := by simp [hList]
      refine iff_of_false (fun hSound => ?_) ?_
      · have hKept := (hSound.refused rfl).1 0#64
        have hGone := hKept.mpr hMem
        exact (hSup.frameList hList).head_not_mem hGone
      · rintro (hNil | ⟨_, hZero, _⟩)
        · simp [hNil] at hMem
        · exact hZero hMem
  | @wasted a rest _ _ hList _ hFew _ hEntries _ =>
      -- the page is reported as mapped and is not
      change s.freeFrames = a :: rest at hList
      change rest.length <
        (missingTables s.tables [pageOf faultAddr]).card
        at hFew
      change t₁.entries = s.tables.entries at hEntries
      rw [if_pos rfl]
      refine iff_of_false (fun hSound => ?_) ?_
      · rcases hSound.resolved rfl with ⟨hNone, hMapped, _⟩
        rcases hMapped with ⟨b, _, _, hFrame⟩
        change (t₁.entries (pageOf faultAddr)).map entryFrame =
          some b at hFrame
        rw [hEntries, hNone] at hFrame
        cases hFrame
      · rintro (hNil | ⟨_, _, hEnough⟩)
        · simp [hNil] at hList
        · rw [hList, List.length_cons] at hEnough
          omega
  | @mapped a rest _ _ hList hNe hEnough hLeft₁ hEntries =>
      change s.freeFrames = a :: rest at hList
      change (missingTables s.tables
        [pageOf faultAddr]).card ≤ rest.length at hEnough
      change freeFrames mm₁ = rest.drop
        (missingTables s.tables [pageOf faultAddr]).card
        at hLeft₁
      change t₁.entries = Function.update s.tables.entries
        (pageOf faultAddr) (some (vmallocPte a)) at hEntries
      have hMem : a ∈ s.freeFrames := by simp [hList]
      rw [if_pos rfl]
      constructor
      · intro hSound
        refine .inr
          ⟨(hSound.resolved rfl).unmapped, ?_, ?_⟩
        · rw [hList]
          exact (hSup.frameList hList).zero_not_mem hNe
        · rw [hList, List.length_cons]
          omega
      · rintro (hNil | ⟨hNone, _, _⟩)
        · simp [hNil] at hList
        · refine ⟨fun _ => ⟨hNone, ⟨a, hMem, ?_, ?_⟩, ?_⟩,
            by simp, ?_⟩
          · change a ∉ freeFrames mm₁
            rw [hLeft₁]
            exact fun hIn =>
              (hSup.frameList hList).head_not_mem
                (List.mem_of_mem_drop hIn)
          · change (t₁.entries (pageOf faultAddr)).map
              entryFrame = some a
            rw [hEntries, Function.update_self,
              Option.map_some,
              hSup.entryFrame_vmallocPte hMem]
          · intro other hOther
            change t₁.entries other = _
            rw [hEntries, Function.update_of_ne hOther]
          · intro _ entry hEntry
            rw [hNone] at hEntry
            cases hEntry

/-
  The handler is sound if and only if it does not try to map
  the page, has no frame for it, or maps a page that was not
  mapped with all the tables that it needs.
-/
theorem pageFaultHandler_sound_iff
    {s : VmmState}
    (hSup : s.Supplied)
    (faultAddr : U64)
    (errorCode : U32) :
    FaultSound s faultAddr errorCode
        (pageFaultHandler s faultAddr errorCode) ↔
      FaultOk s faultAddr := by
  by_cases hDemanded : Demanded s faultAddr
  · rw [pageFaultHandler_tried hSup hDemanded]
    unfold FaultOk
    rw [or_iff_right (not_not_intro hDemanded)]
  · rcases s.untried_keeps errorCode with ⟨hTables, hManager⟩
    rw [pageFaultHandler_eq, if_neg hDemanded]
    refine iff_of_true ⟨by simp, ?_, ?_⟩ (.inl hDemanded)
    · intro _
      unfold VmmState.freeFrames
      rw [hTables, hManager]
      exact ⟨fun _ => Iff.rfl, rfl⟩
    · intro _ entry hEntry
      rw [hTables]
      exact hEntry

/- A page behind the direct map gets its frame. -/
theorem pageFaultHandler_sound_iff_mapped :
    FaultSound VmmState.mapped 0xFFFF800040000000#64 2#32
      (pageFaultHandler VmmState.mapped 0xFFFF800040000000#64
        2#32) := by
  refine (pageFaultHandler_sound_iff VmmState.mapped_supplied
    _ _).mpr (.inr (.inr ⟨by decide, ?_, ?_⟩))
  · exact VmmState.mapped_freeFrames.1
  · have hLen := VmmState.mapped_freeFrames.2
    have hCost := card_missingTables_one_le
      VmmState.mapped.tables (pageOf 0xFFFF800040000000#64)
    omega

/- A protection violation replaces the page by a fresh one. -/
theorem protection_fault_remaps :
    ¬ ∀ (s : VmmState) (faultAddr : U64) (errorCode : U32),
      s.Supplied →
        FaultSound s faultAddr errorCode
          (pageFaultHandler s faultAddr errorCode) := by
  intro hAll
  have hSup := VmmState.mapped_supplied
  have hSound := hAll VmmState.mapped vmallocStart 1#32 hSup
  have hDemanded : Demanded VmmState.mapped vmallocStart :=
    ⟨rfl, Nat.le_refl _, by decide⟩
  have hMapped : VmmState.mapped.tables.entries
      (pageOf vmallocStart) = some (tablePte 0#64) :=
    @entries_directTables 0#64 ⟨rfl, by decide⟩
  rw [pageFaultHandler_tried hSup hDemanded] at hSound
  rcases hSound with hNil | ⟨hNone, _⟩
  · have hLen := VmmState.mapped_freeFrames.2
    rw [hNil] at hLen
    cases hLen
  · rw [hMapped] at hNone
    cases hNone

end FeatherOS
