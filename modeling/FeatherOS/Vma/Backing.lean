import FeatherOS.Paging.Supply
import FeatherOS.Vma.Mmap

/-
  How `vma_mmap` backs an area with frames.

  Every page of the area takes the first free frame and, for
  each table that is missing on its way, one more. A page
  that gets no frame or no table keeps the entry it had, and
  the loop goes on.

  Key definitions include:
    * `areaPte`

  Key theorems include:
    * `mapAreaPages_turn`
    * `mapAreaPages_backs`
    * `mapAreaPages_needs`
-/

namespace FeatherOS

--------------------
-- One Page
--------------------

/- The entry the loop makes for a page in frame `phys`. -/
def areaPte
    (flags : U32)
    (phys : U64) : U64 :=
  makePte phys true (hasFlag flags vmaWrite) true
    (!hasFlag flags vmaExec)

section Turn

variable {t : PageTables}
variable {memManager : Option MemoryManager}

theorem mapAreaPages_succ
    (flags : U32)
    (n : Nat)
    (virt : U64) :
    mapAreaPages flags (n + 1) virt (t, memManager) =
      mapAreaPages flags n (virt + pageSize)
        (if (physicalAllocPage memManager).1 = 0#64 then
          (t, (physicalAllocPage memManager).2)
        else
          (pagingMapPage physicalAllocPage
            (physicalAllocPage memManager).2 t virt
            (physicalAllocPage memManager).1
            (hasFlag flags vmaWrite) true
            (!hasFlag flags vmaExec)).2) :=
  rfl

/-
  One turn either maps its page to the first free frame or
  changes no entry; then that frame was 0 or there were not
  enough.
-/
theorem mapAreaPages_turn
    (hSup : Supplied t memManager)
    (flags : U32)
    (n : Nat)
    (virt : U64) :
    ∃ t₁ mm₁,
      mapAreaPages flags (n + 1) virt (t, memManager) =
          mapAreaPages flags n (virt + pageSize) (t₁, mm₁) ∧
        Supplied t₁ mm₁ ∧
        ((∃ a rest, freeFrames memManager = a :: rest ∧
            a ≠ 0#64 ∧
            (missingTables t [pageOf virt]).card ≤
              rest.length ∧
            freeFrames mm₁ = rest.drop
              (missingTables t [pageOf virt]).card ∧
            t₁.entries = Function.update t.entries
              (pageOf virt) (some (areaPte flags a)) ∧
            LinkedAfter t t₁
              (pageIndices (pageOf virt)).prefixes) ∨
          t₁.entries = t.entries ∧
            (freeFrames mm₁).Sublist (freeFrames memManager).tail ∧
            (0#64 ∈ freeFrames memManager ∨
              (freeFrames memManager).length <
                1 + (missingTables t [pageOf virt]).card)) := by
  rcases physicalAllocPage_nextAnswer hSup.good with
    ⟨hAnswer, hRest, hGood⟩
  have hTail := hSup.good.frameList.zero_first
  rw [mapAreaPages_succ]
  cases hList : freeFrames memManager with
  | nil =>
      rw [hList] at hAnswer hRest
      refine ⟨t, (physicalAllocPage memManager).2, ?_,
        ⟨hGood, hSup.separate, ?_⟩, Or.inr ⟨rfl, ?_, ?_⟩⟩
      · simp [hAnswer, nextAnswer]
      · rw [hRest]
        exact ⟨by simp [nextAnswer], by simp [nextAnswer]⟩
      · rw [hRest]
        exact List.Sublist.refl _
      · refine Or.inr ?_
        rw [List.length_nil]
        omega
  | cons a rest =>
      have hFresh := hSup.fresh
      rw [hList] at hAnswer hRest hFresh hTail
      simp only [nextAnswer] at hAnswer hRest
      have hFreshRest : FreshAnswers t rest :=
        hFresh.of_sublist (List.sublist_cons_self _ _)
      by_cases hZero : a = 0#64
      · refine ⟨t, (physicalAllocPage memManager).2, ?_,
          ⟨hGood, hSup.separate, ?_⟩, Or.inr ⟨rfl, ?_, ?_⟩⟩
        · simp [hAnswer, hZero]
        · rw [hRest]
          exact hFreshRest
        · rw [hRest]
          exact List.Sublist.refl _
        · exact Or.inl (by simp [hZero])
      · rcases pagingMapPage_fresh hGood hRest hSup.separate
            hFreshRest hTail virt a (hasFlag flags vmaWrite)
            true (!hasFlag flags vmaExec) with
          ⟨r, t₁, mm₁, hMap, hSup₁,
            ⟨hFew, _, hNone, hEntries, _⟩ |
            ⟨hEnough, _, hRest₁, hEntries, hAfter, _⟩⟩
        · refine ⟨t₁, mm₁,
            by simp only [hAnswer, if_neg hZero, hMap],
            hSup₁, Or.inr ⟨hEntries, ?_, Or.inr ?_⟩⟩
          · rw [hNone]
            exact List.nil_sublist _
          · rw [List.length_cons]
            omega
        · exact ⟨t₁, mm₁,
            by simp only [hAnswer, if_neg hZero, hMap],
            hSup₁, Or.inl ⟨a, rest, rfl, hZero, hEnough,
              hRest₁, hEntries, hAfter⟩⟩

--------------------
-- The Loop
--------------------

/- What the loop leaves alone. -/
theorem mapAreaPages_run
    (hSup : Supplied t memManager)
    (flags : U32)
    (n : Nat)
    (virt : U64) :
    Supplied
        (mapAreaPages flags n virt (t, memManager)).1
        (mapAreaPages flags n virt (t, memManager)).2 ∧
      (freeFrames
        (mapAreaPages flags n virt (t, memManager)).2).Sublist
          (freeFrames memManager) ∧
      ∀ page, page ∉ areaPages n virt →
        (mapAreaPages flags n virt (t, memManager)).1.entries
            page =
          t.entries page := by
  induction n generalizing virt t memManager with
  | zero => exact ⟨hSup, List.Sublist.refl _, fun _ _ => rfl⟩
  | succ n ih =>
      rcases mapAreaPages_turn hSup flags n virt with
        ⟨t₁, mm₁, hTurn, hSup₁, hWhat⟩
      rw [hTurn]
      rcases ih hSup₁ (virt + pageSize) with
        ⟨hSup', hSub, hKept⟩
      have hStep :
          (freeFrames mm₁).Sublist (freeFrames memManager) ∧
            ∀ page, page ≠ pageOf virt →
              t₁.entries page = t.entries page := by
        rcases hWhat with
          ⟨a, rest, hList, _, _, hRest, hEntries, _⟩ |
          ⟨hEntries, hLess, _⟩
        · rw [hList, hRest, hEntries]
          refine ⟨(List.drop_sublist _ _).trans
            (List.sublist_cons_self _ _), ?_⟩
          exact fun page hNe => Function.update_of_ne hNe _ _
        · rw [hEntries]
          exact ⟨hLess.trans (List.tail_sublist _),
            fun _ _ => rfl⟩
      refine ⟨hSup', hSub.trans hStep.1, ?_⟩
      intro page hPage
      simp only [areaPages, List.mem_cons, not_or] at hPage
      rw [hKept page hPage.2, hStep.2 page hPage.1]

/- Below 2^48 the pages of the loop are consecutive. -/
theorem areaPages_eq
    (n : Nat)
    (virt : U64)
    (hTop : virt.toNat + 4096 * n ≤ 2 ^ 48) :
    areaPages n virt =
      (List.range n).map fun i =>
        BitVec.ofNat 36 (virt.toNat / 4096 + i) := by
  induction n generalizing virt with
  | zero => rfl
  | succ n ih =>
      have hNext : (virt + pageSize).toNat =
          virt.toNat + 4096 := by
        have hSize : pageSize.toNat = 4096 := rfl
        rw [BitVec.toNat_add, hSize]
        omega
      have hHead : pageOf virt =
          BitVec.ofNat 36 (virt.toNat / 4096 + 0) := by
        apply BitVec.eq_of_toNat_eq
        unfold pageOf
        rw [BitVec.extractLsb'_toNat, BitVec.toNat_ofNat,
          Nat.shiftRight_eq_div_pow]
        omega
      rw [areaPages, ih _ (by omega), List.range_succ_eq_map,
        List.map_cons, ← hHead, List.map_map, hNext]
      refine congrArg _ (List.map_congr_left fun i _ => ?_)
      have hSum : (virt.toNat + 4096) / 4096 + i =
          virt.toNat / 4096 + (i + 1) := by
        omega
      rw [Function.comp_apply, hSum]

theorem nodup_areaPages
    {n : Nat}
    {virt : U64}
    (hTop : virt.toNat + 4096 * n ≤ 2 ^ 48) :
    (areaPages n virt).Nodup := by
  rw [areaPages_eq n virt hTop]
  refine List.nodup_range.map_on ?_
  intro i hi j hj hEq
  rw [List.mem_range] at hi hj
  have hNat := congrArg BitVec.toNat hEq
  rw [BitVec.toNat_ofNat, BitVec.toNat_ofNat] at hNat
  omega

/- The page of an address below 2^48. -/
theorem pageOf_mem_areaPages
    {n : Nat}
    {virt addr : U64}
    (hTop : virt.toNat + 4096 * n ≤ 2 ^ 48)
    (hAddr : addr.toNat < 2 ^ 48) :
    pageOf addr ∈ areaPages n virt ↔
      virt.toNat / 4096 ≤ addr.toNat / 4096 ∧
        addr.toNat / 4096 < virt.toNat / 4096 + n := by
  have hPage : (pageOf addr).toNat = addr.toNat / 4096 := by
    unfold pageOf
    rw [BitVec.extractLsb'_toNat, Nat.shiftRight_eq_div_pow]
    omega
  rw [areaPages_eq n virt hTop, List.mem_map]
  constructor
  · rintro ⟨i, hi, hEq⟩
    rw [List.mem_range] at hi
    have hNat := congrArg BitVec.toNat hEq
    rw [BitVec.toNat_ofNat, hPage] at hNat
    omega
  · rintro ⟨hFrom, hTo⟩
    refine ⟨addr.toNat / 4096 - virt.toNat / 4096,
      List.mem_range.mpr (by omega), ?_⟩
    apply BitVec.eq_of_toNat_eq
    rw [BitVec.toNat_ofNat, hPage]
    omega

theorem pageOf_inj
    {addr addr' : U64}
    (hAddr : addr.toNat < 2 ^ 48)
    (hAddr' : addr'.toNat < 2 ^ 48)
    (hEq : pageOf addr = pageOf addr') :
    addrToPage addr = addrToPage addr' := by
  have hNat := congrArg BitVec.toNat hEq
  unfold pageOf at hNat
  rw [BitVec.extractLsb'_toNat, BitVec.extractLsb'_toNat,
    Nat.shiftRight_eq_div_pow, Nat.shiftRight_eq_div_pow]
    at hNat
  apply BitVec.eq_of_toNat_eq
  unfold addrToPage pageShift
  rw [BitVec.toNat_ushiftRight, BitVec.toNat_ushiftRight,
    Nat.shiftRight_eq_div_pow, Nat.shiftRight_eq_div_pow]
  omega

/-
  With enough free frames, and none of them at 0, the loop
  takes just those, and every page gets one of its own.
-/
theorem mapAreaPages_backs
    (hSup : Supplied t memManager)
    (flags : U32)
    (n : Nat)
    (virt : U64)
    (hNodup : (areaPages n virt).Nodup)
    (hZero : 0#64 ∉ freeFrames memManager)
    (hEnough : n + (missingTables t (areaPages n virt)).card ≤
      (freeFrames memManager).length) :
    freeFrames (mapAreaPages flags n virt (t, memManager)).2 =
        (freeFrames memManager).drop
          (n + (missingTables t (areaPages n virt)).card) ∧
      ∃ frameOf : PageNumber → U64,
        (∀ page ∈ areaPages n virt,
          (mapAreaPages flags n virt
                (t, memManager)).1.entries page =
              some (areaPte flags (frameOf page)) ∧
            frameOf page ∈ freeFrames memManager ∧
            frameOf page ∉ freeFrames
              (mapAreaPages flags n virt (t, memManager)).2) ∧
          ∀ page ∈ areaPages n virt, ∀ page' ∈ areaPages n virt,
            frameOf page = frameOf page' → page = page' := by
  induction n generalizing virt t memManager with
  | zero =>
      rw [show missingTables t (areaPages 0 virt) = ∅ from
        missingTables_nil]
      exact ⟨rfl, fun _ => 0#64, by simp [areaPages]⟩
  | succ n ih =>
      rcases mapAreaPages_turn hSup flags n virt with
        ⟨t₁, mm₁, hTurn, hSup₁, hWhat⟩
      rw [hTurn]
      simp only [areaPages, List.nodup_cons] at hNodup hEnough ⊢
      rcases hWhat with
        ⟨a, rest, hList, hNe, hFits, hRest, hEntries, hAfter⟩ |
        ⟨_, _, hZero' | hFew⟩
      · rw [card_missingTables_cons hAfter, hList,
          List.length_cons] at hEnough
        have hLeft : 0#64 ∉ freeFrames mm₁ := by
          rw [hRest]
          rw [hList] at hZero
          intro hMem
          exact hZero (List.mem_cons_of_mem _
            (List.mem_of_mem_drop hMem))
        rcases ih hSup₁ (virt + pageSize) hNodup.2 hLeft
            (by rw [hRest, List.length_drop]; omega) with
          ⟨hTakes, frameOf, hAll, hOwn⟩
        rcases mapAreaPages_run hSup₁ flags n
            (virt + pageSize) with
          ⟨_, hSub, hKept⟩
        have hFrames := hSup.good.frameList
        rw [hList] at hFrames
        have hOff : ∀ x ∈ freeFrames mm₁, x ∈ rest ∧ x ≠ a := by
          intro x hx
          rw [hRest] at hx
          have hIn := List.mem_of_mem_drop hx
          refine ⟨hIn, ?_⟩
          rintro rfl
          exact hFrames.head_not_mem hIn
        have hOther : ∀ page ∈ areaPages n (virt + pageSize),
            page ≠ pageOf virt := by
          rintro page hPage rfl
          exact hNodup.1 hPage
        refine ⟨?_, Function.update frameOf (pageOf virt) a,
          ?_, ?_⟩
        · rw [card_missingTables_cons hAfter (areaPages n _),
            hTakes, hRest, List.drop_drop, hList, Nat.add_right_comm,
            List.drop_succ_cons, Nat.add_left_comm]
        · intro page hPage
          rw [hList]
          rcases List.mem_cons.mp hPage with rfl | hPage
          · rw [hKept _ hNodup.1, hEntries,
              Function.update_self, Function.update_self]
            refine ⟨rfl, by simp, fun hMem => ?_⟩
            exact (hOff a (hSub.subset hMem)).2 rfl
          · rw [Function.update_of_ne (hOther page hPage)]
            rcases hAll page hPage with ⟨hEntry, hIn, hOut⟩
            exact ⟨hEntry,
              List.mem_cons_of_mem _ (hOff _ hIn).1, hOut⟩
        · intro page hPage page' hPage' hEq
          rcases List.mem_cons.mp hPage with rfl | hPage
          · rcases List.mem_cons.mp hPage' with rfl | hPage'
            · rfl
            · rw [Function.update_self,
                Function.update_of_ne (hOther _ hPage')] at hEq
              have hNot := (hOff _ (hAll _ hPage').2.1).2
              exact absurd hEq.symm hNot
          · rw [Function.update_of_ne (hOther _ hPage)] at hEq
            rcases List.mem_cons.mp hPage' with rfl | hPage'
            · rw [Function.update_self] at hEq
              exact absurd hEq (hOff _ (hAll _ hPage).2.1).2
            · rw [Function.update_of_ne (hOther _ hPage')]
                at hEq
              exact hOwn page hPage page' hPage' hEq
      · exact absurd hZero' hZero
      · have hSome : (missingTables t [pageOf virt]).card ≤
            (missingTables t
              (pageOf virt ::
                areaPages n (virt + pageSize))).card := by
          refine Finset.card_le_card fun q hq => ?_
          rw [mem_missingTables] at hq ⊢
          rcases hq with ⟨⟨page, hPage, hIn⟩, hMissing⟩
          rw [List.mem_singleton.mp hPage] at hIn
          exact ⟨⟨_, List.mem_cons_self, hIn⟩, hMissing⟩
        omega

--------------------
-- What The Loop Needs
--------------------

/-
  If every page has got one of the frames in `frames`, and
  none had one before, the loop had enough of them.
-/
theorem mapAreaPages_needs
    {frames : List U64}
    (hSup : Supplied t memManager)
    (flags : U32)
    (n : Nat)
    (virt : U64)
    (hNodup : (areaPages n virt).Nodup)
    (hOld : ∀ page ∈ areaPages n virt, ∀ e,
      t.entries page = some e → entryFrame e ∉ frames)
    (hNew : ∀ page ∈ areaPages n virt, ∃ e,
      (mapAreaPages flags n virt (t, memManager)).1.entries
          page = some e ∧
        entryFrame e ∈ frames) :
    n + (missingTables t (areaPages n virt)).card ≤
        (freeFrames memManager).length ∧
      (0 < n → 0#64 ∉ freeFrames memManager) := by
  induction n generalizing virt t memManager with
  | zero =>
      rw [show missingTables t (areaPages 0 virt) = ∅ from
        missingTables_nil]
      simp
  | succ n ih =>
      rcases mapAreaPages_turn hSup flags n virt with
        ⟨t₁, mm₁, hTurn, hSup₁, hWhat⟩
      rw [hTurn] at hNew
      simp only [areaPages, List.nodup_cons, List.mem_cons,
        forall_eq_or_imp] at hNodup hOld hNew ⊢
      rcases mapAreaPages_run hSup₁ flags n
          (virt + pageSize) with
        ⟨_, _, hKept⟩
      rcases hWhat with
        ⟨a, rest, hList, hNe, hFits, hRest, hEntries, hAfter⟩ |
        ⟨hEntries, _⟩
      · have hOld₁ : ∀ page ∈ areaPages n (virt + pageSize),
            ∀ e, t₁.entries page = some e →
              entryFrame e ∉ frames := by
          intro page hPage e he
          have hOther : page ≠ pageOf virt := by
            rintro rfl
            exact hNodup.1 hPage
          rw [hEntries, Function.update_of_ne hOther] at he
          exact hOld.2 page hPage e he
        rcases ih hSup₁ (virt + pageSize) hNodup.2 hOld₁
            hNew.2 with
          ⟨hEnough, _⟩
        rw [hRest, List.length_drop] at hEnough
        rw [card_missingTables_cons hAfter, hList,
          List.length_cons]
        have hFrames := hSup.good.frameList
        rw [hList] at hFrames
        exact ⟨by omega, fun _ => hFrames.zero_not_mem hNe⟩
      · rcases hNew.1 with ⟨e, he, hFrame⟩
        rw [hKept _ hNodup.1, hEntries] at he
        exact absurd hFrame (hOld.1 e he)

end Turn

/- The frame of the entry that the loop makes. -/
theorem entryFrame_areaPte
    (flags : U32)
    {a : U64}
    (hPage : a.toNat % 4096 = 0)
    (hSmall : a.toNat < 2 ^ 52) :
    entryFrame (areaPte flags a) = a :=
  entryFrame_makePte _ _ _ hPage hSmall

end FeatherOS
