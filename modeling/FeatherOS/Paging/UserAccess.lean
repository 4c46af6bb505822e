import FeatherOS.Paging.Supply
import Mathlib.Logic.Relation

/-
  Who may use a mapping.

  The processor lets user mode use a page only if PTE_USER is
  set in all four entries on its walk. `paging_map_page` sets
  the flag in the last one as it is told, but the entries for
  the tables it makes on the way are made without it. From
  the empty tables on, every table is made that way, so no
  page mapped for the user can be used by the user.

  Key definitions include:
    * `TableStep`
    * `PageTables.walkEntries`
    * `MapCall`
    * `UserState`
    * `UserState.FlagsRight`

  Key theorems include:
    * `pagingMapPage_links`
    * `PlainAbove.link`
    * `userStep_holds`
    * `user_flags_right_iff`
-/

namespace FeatherOS

open RadixTable

--------------------
-- What Mapping Does To The Memory
--------------------

/- A new table is linked where none is. -/
inductive TableStep (t : PageTables) : PageTables → Prop
| link
    {path : List TableIndex}
    {table answer : U64}
    {index : TableIndex}
    (hAt : walk nextFrame t.memory t.pml4 path = some table)
    (hLen : path.length < 3)
    (hAbsent : ¬ isPresent (t.memory table index) = true)
    (hAligned : frameMask answer = answer)
    (hFree : ¬ t.Uses answer) :
    TableStep t (t.link table index answer)

/- New tables, one after the other. -/
def TableSteps : PageTables → PageTables → Prop :=
  Relation.ReflTransGen TableStep

variable {t t' : PageTables}

/- The step at one level links one table or none. -/
theorem ensureEntry_links
    {answers answers' : List U64}
    {path : List TableIndex}
    {table : U64}
    {index : TableIndex}
    {go : Bool}
    (hFresh : FreshAnswers t answers)
    (hAt : walk nextFrame t.memory t.pml4 path = some table)
    (hLen : path.length < 3)
    (hEnsure : ensureEntry nextAnswer answers t table index =
      (go, t', answers')) :
    TableSteps t t' := by
  by_cases hPresent : isPresent (t.memory table index) = true
  · unfold ensureEntry at hEnsure
    rw [if_pos hPresent] at hEnsure
    cases hEnsure
    exact .refl
  · cases answers with
    | nil =>
        have hStop : ensureEntry nextAnswer [] t table index =
            (false, t, []) := if_neg hPresent
        rw [hStop] at hEnsure
        cases hEnsure
        exact .refl
    | cons answer rest =>
        by_cases hZero : answer = 0#64
        · subst hZero
          have hStop : ensureEntry nextAnswer (0#64 :: rest) t
              table index = (false, t, rest) := if_neg hPresent
          rw [hStop] at hEnsure
          cases hEnsure
          exact .refl
        · rw [ensureEntry_absent rest hPresent hZero] at hEnsure
          cases hEnsure
          rcases (hFresh.fresh answer (by simp)).resolve_left
              hZero with
            ⟨hAligned, hFree⟩
          exact .single
            (.link hAt hLen hPresent hAligned hFree)

/-
  `paging_map_page` links the tables that are missing, and if
  it succeeds writes one entry of the last table.
-/
theorem pagingMapPage_links
    {answers rest : List U64}
    {virt phys : U64}
    {writable user nx : Bool}
    {r : Int}
    (hSep : t.Separate)
    (hFresh : FreshAnswers t answers)
    (hMap : pagingMapPage nextAnswer answers t virt phys
      writable user nx = (r, t', rest)) :
    ∃ t₁, TableSteps t t₁ ∧ t₁.Separate ∧
      (r = -1 ∧ t' = t₁ ∨
        r = 0 ∧ ∃ pt,
          walk nextFrame t₁.memory t₁.pml4
              (pageIndices (pageOf virt)).path = some pt ∧
            t' = t₁.setEntry pt (pageIndices (pageOf virt)).pt
              (makePte phys true writable user nx)) := by
  unfold pagingMapPage at hMap
  rw [virtToIndices_eq] at hMap
  generalize hIdx : pageIndices (pageOf virt) = idx at hMap ⊢
  have hRoot :
      walk nextFrame t.memory t.pml4 [] = some t.pml4 := rfl
  rcases ensureEntry_spec idx.pml4 hSep hFresh hRoot
      (by simp) with
    ⟨_, hStop⟩ | ⟨t₁, _, hGo, hDown₁, hFresh₁, hAt₁⟩
  · simp only [hStop] at hMap
    cases hMap
    exact ⟨t, .refl, hSep, .inl ⟨rfl, rfl⟩⟩
  have hLinks₁ := ensureEntry_links hFresh hRoot (by simp) hGo
  rw [List.nil_append, ← hDown₁.root] at hAt₁
  simp only [hGo, PageTables.getPml4Entry] at hMap
  rcases ensureEntry_spec idx.pdp hDown₁.separate hFresh₁ hAt₁
      (by simp) with
    ⟨_, hStop⟩ | ⟨t₂, _, hGo₂, hDown₂, hFresh₂, hAt₂⟩
  · simp only [hStop] at hMap
    cases hMap
    exact ⟨_, hLinks₁, hDown₁.separate, .inl ⟨rfl, rfl⟩⟩
  have hLinks₂ :=
    ensureEntry_links hFresh₁ hAt₁ (by simp) hGo₂
  simp only [hGo₂, PageTables.getPdpEntry] at hMap
  rcases ensureEntry_spec idx.pd hDown₂.separate hFresh₂ hAt₂
      (by simp) with
    ⟨_, hStop⟩ | ⟨t₃, _, hGo₃, hDown₃, _, hAt₃⟩
  · simp only [hStop] at hMap
    cases hMap
    exact ⟨_, hLinks₁.trans hLinks₂, hDown₂.separate,
      .inl ⟨rfl, rfl⟩⟩
  have hLinks₃ :=
    ensureEntry_links hFresh₂ hAt₂ (by simp) hGo₃
  simp only [hGo₃, PageTables.getPdEntry] at hMap
  cases hMap
  exact ⟨_, (hLinks₁.trans hLinks₂).trans hLinks₃,
    hDown₃.separate, .inr ⟨rfl, _, hAt₃, rfl⟩⟩

--------------------
-- Entries Above The Last Level
--------------------

/- `entry & PTE_USER` as a condition. -/
def isUser (entry : U64) : Bool :=
  entry &&& pteUser != 0#64

theorem isUser_eq_getLsbD
    (entry : U64) :
    isUser entry = entry.getLsbD 2 := by
  have hForm : pteUser = BitVec.twoPow 64 2 := by decide
  have hNe : BitVec.twoPow 64 2 ≠ 0#64 := by decide
  unfold isUser
  rw [hForm, BitVec.and_twoPow]
  cases entry.getLsbD 2 with
  | true => simp [hNe]
  | false => simp

theorem isUser_makePte
    (phys : U64)
    (writable user nx : Bool) :
    isUser (makePte phys true writable user nx) = user := by
  have hMask : (frameMask phys).getLsbD 2 = false := by
    rw [getLsbD_frameMask _ _ (by decide)]
    simp
  have hPresent : ptePresent.getLsbD 2 = false := by decide
  have hWritable : pteWritable.getLsbD 2 = false := by decide
  have hUser : pteUser.getLsbD 2 = true := by decide
  have hNx : pteNx.getLsbD 2 = false := by decide
  rw [isUser_eq_getLsbD]
  unfold makePte
  cases writable <;> cases user <;> cases nx <;>
    simp only [if_true, if_false, Bool.false_eq_true,
      BitVec.getLsbD_or, hMask, hPresent, hWritable, hUser, hNx,
      Bool.or_true, Bool.or_false]

/- Tables other than the last are entered without PTE_USER. -/
def PlainAbove (t : PageTables) : Prop :=
  ∀ (path : List TableIndex) (table : U64) (index : TableIndex),
    path.length < 3 →
    walk nextFrame t.memory t.pml4 path = some table →
    isPresent (t.memory table index) = true →
    isUser (t.memory table index) = false

variable {t : PageTables}

theorem PageTables.Boot.plainAbove
    (hBoot : t.Boot) :
    PlainAbove t := by
  intro path table index _ hAt hPresent
  have hNil := hBoot.path_nil hAt
  subst hNil
  cases hAt
  rw [hBoot index] at hPresent
  cases hPresent

/- A new table is blank, and its entry is plain. -/
theorem PlainAbove.link
    {t t' : PageTables}
    (hSep : t.Separate)
    (hLink : TableStep t t')
    (hPlain : PlainAbove t) :
    PlainAbove t' := by
  cases hLink with
  | @link path table answer index hAt hLen hAbsent hAligned
      hFree =>
      have hLinks := linksTable_of_fresh hSep hAt hLen hAbsent
        hAligned hFree
      have hMemory : (t.link table index answer).memory =
          write (fill t.memory answer 0#64) table index
            (makePte answer true true false false) := by
        have hFrame : frameAt (answer + kernelVirtBase) =
            answer :=
          BitVec.add_sub_cancel _ _
        unfold PageTables.link PageTables.zeroPage
          PageTables.setEntry
        rw [hFrame]
      intro q f i hq hAt' hPresent
      by_cases hHere : f = table ∧ i = index
      · rcases hHere with ⟨rfl, rfl⟩
        rw [hMemory, write_here]
        exact isUser_makePte answer true false false
      rw [hMemory, write_other hHere] at hPresent ⊢
      by_cases hNew : f = answer
      · subst hNew
        rw [fill_here] at hPresent
        cases hPresent
      rw [fill_other hNew] at hPresent ⊢
      refine hPlain q f i hq ?_ hPresent
      rw [← hLinks.off q (by omega) ?_]
      · exact hAt'
      · rintro rfl
        have hNext := nextFrame_makePte hAligned
        rw [nextFrame, isPresent_makePte, if_pos rfl] at hNext
        rw [hLinks.here, nextTable_eq, hMemory, write_here]
          at hAt'
        exact hNew ((Option.some.inj hAt').symm.trans
          (Option.some.inj hNext))

/- Linking tables keeps them apart and plain. -/
theorem PlainAbove.links
    (hSep : t.Separate)
    (hSteps : TableSteps t t')
    (hPlain : PlainAbove t) :
    t'.Separate ∧ PlainAbove t' := by
  induction hSteps with
  | refl => exact ⟨hSep, hPlain⟩
  | tail _ hLast ih =>
      refine ⟨?_, ih.2.link ih.1 hLast⟩
      cases hLast with
      | link hAt hLen hAbsent hAligned hFree =>
          exact (linksTable_of_fresh ih.1 hAt hLen hAbsent
            hAligned hFree).descends.separate

/- A write to a last table does not reach the others. -/
theorem PlainAbove.leaf
    {page : PageNumber}
    {table : U64}
    (entry : U64)
    (hSep : t.Separate)
    (hAt :
      walk nextFrame t.memory t.pml4 (pageIndices page).path =
        some table)
    (hPlain : PlainAbove t) :
    PlainAbove
      (t.setEntry table (pageIndices page).pt entry) := by
  intro q f i hq hAt' hPresent
  have hKept : walk nextFrame t.memory t.pml4 q = some f := by
    rw [← Separated.walk_write_leaf hSep hAt rfl
      (show q.length ≤ 3 by omega)]
    exact hAt'
  have hOther : ¬ (f = table ∧ i = (pageIndices page).pt) := by
    rintro ⟨rfl, _⟩
    have hSame := hSep q (pageIndices page).path f (by omega)
      (by simp [Indices.path]) hKept hAt
    have hLen : (pageIndices page).path.length = 3 := rfl
    rw [← hSame] at hLen
    omega
  have hEntry : (t.setEntry table (pageIndices page).pt
      entry).memory f i = t.memory f i :=
    write_other hOther
  rw [hEntry] at hPresent ⊢
  exact hPlain q f i hq hKept hPresent

--------------------
-- Walks Of The Processor
--------------------

/- The entries that the walk of an address reads -/
structure WalkEntries where
  pml4e : U64
  pdpe : U64
  pde : U64
  pte : U64
deriving DecidableEq, Repr

def PageTables.walkEntries
    (t : PageTables)
    (idx : Indices) : WalkEntries :=
  let pdp := t.getPml4Entry t.pml4 idx.pml4
  let pd := t.getPdpEntry pdp idx.pdp
  let pt := t.getPdEntry pd idx.pd
  { pml4e := t.memory t.pml4 idx.pml4
    pdpe := t.memory pdp idx.pdp
    pde := t.memory pd idx.pd
    pte := t.memory pt idx.pt }

/- User mode may use the page: all four levels allow it. -/
def WalkEntries.AllUser (w : WalkEntries) : Prop :=
  isUser w.pml4e ∧ isUser w.pdpe ∧ isUser w.pde ∧ isUser w.pte

/- The walk of a mapped page ends in its entry. -/
theorem walkEntries_of_entries
    {page : PageNumber}
    {entry : U64}
    (hEntry : t.entries page = some entry) :
    isPresent (t.walkEntries (pageIndices page)).pml4e = true ∧
      (t.walkEntries (pageIndices page)).pte = entry := by
  unfold PageTables.entries lookup at hEntry
  rw [← findTable_eq_walk] at hEntry
  unfold PageTables.findTable at hEntry
  unfold PageTables.walkEntries
  generalize pageIndices page = idx at hEntry ⊢
  by_cases h₄ : isPresent (t.memory t.pml4 idx.pml4) = true
  · simp only [if_pos h₄] at hEntry
    refine ⟨h₄, ?_⟩
    by_cases h₃ : isPresent (t.memory
        (t.getPml4Entry t.pml4 idx.pml4) idx.pdp) = true
    · simp only [if_pos h₃] at hEntry
      by_cases h₂ : isPresent (t.memory
          (t.getPdpEntry (t.getPml4Entry t.pml4 idx.pml4)
            idx.pdp) idx.pd) = true
      · simp only [if_pos h₂] at hEntry
        by_cases h₁ : isPresent (t.memory
            (t.getPdEntry
              (t.getPdpEntry (t.getPml4Entry t.pml4 idx.pml4)
                idx.pdp) idx.pd) idx.pt) = true
        · rw [if_pos h₁] at hEntry
          exact Option.some.inj hEntry
        · rw [if_neg h₁] at hEntry
          cases hEntry
      · simp [if_neg h₂] at hEntry
    · simp [if_neg h₃] at hEntry
  · simp [if_neg h₄] at hEntry

--------------------
-- Runs Of Mappings
--------------------

/- A call of `paging_map_page`, with the frames it can get. -/
structure MapCall where
  virt : U64
  phys : U64
  writable : Bool
  user : Bool
  nx : Bool
  answers : List U64

/-
  The tables, and for every page the `user` of the call that
  mapped it last.
-/
structure UserState where
  tables : PageTables
  last : PageNumber → Option Bool

def userExec
    (s : UserState)
    (call : MapCall) :
    UserState :=
  match pagingMapPage nextAnswer call.answers s.tables call.virt
      call.phys call.writable call.user call.nx with
  | (r, t, _) =>
      { tables := t
        last :=
          if r = 0 then
            Function.update s.last (pageOf call.virt)
              (some call.user)
          else
            s.last }

/- The allocator gives frames that no table uses. -/
structure MapCall.Fresh
    (s : UserState)
    (call : MapCall) : Prop where
  fresh : FreshAnswers s.tables call.answers
  frames : 0#64 ∉ call.answers

def userStep : UserState → MapCall → UserState → Prop :=
  Guarded MapCall.Fresh fun s call s' => s' = userExec s call

/- No page is mapped at first. -/
def UserState.start (t : PageTables) : UserState where
  tables := t
  last := fun _ => none

/-
  Every page mapped for the user has PTE_USER in all four
  entries, and every other mapped page has it clear in the
  last one.
-/
def UserState.FlagsRight (s : UserState) : Prop :=
  ∀ page,
    (s.last page = some true →
      (s.tables.walkEntries (pageIndices page)).AllUser) ∧
    (s.last page = some false →
      isUser (s.tables.walkEntries (pageIndices page)).pte =
        false)

/-
  The call maps no page for the user: it is not asked to, or
  more tables are missing than there are frames.
-/
def MapCall.MapsNoUserPage
    (s : UserState)
    (call : MapCall) : Prop :=
  call.user = false ∨
    call.answers.length <
      (missingTables s.tables [pageOf call.virt]).card

/- What every call keeps. -/
structure UserState.Holds (s : UserState) : Prop where
  separate : s.tables.Separate
  plain : PlainAbove s.tables
  mapped : ∀ page user, s.last page = some user →
    ∃ entry, s.tables.entries page = some entry ∧
      isUser entry = user

/- No page was mapped for the user last. -/
def UserState.NoUserPage (s : UserState) : Prop :=
  ∀ page, s.last page ≠ some true

theorem UserState.Holds.start
    (hBoot : t.Boot) :
    (UserState.start t).Holds where
  separate := hBoot.separate
  plain := hBoot.plainAbove
  mapped := by
    intro page user hLast
    cases hLast

/-
  One call keeps the tables plain, and adds a user page
  unless it is one that maps none.
-/
theorem userStep_holds
    {s s' : UserState}
    {call : MapCall}
    (hHolds : s.Holds)
    (hStep : userStep s call s') :
    s'.Holds ∧
      (s.NoUserPage →
        (s'.NoUserPage ↔ call.MapsNoUserPage s)) := by
  rcases hStep with ⟨hFresh, rfl⟩
  rcases hCall : pagingMapPage nextAnswer call.answers s.tables
      call.virt call.phys call.writable call.user call.nx with
    ⟨r, t', rest⟩
  have hTables : t'.Separate ∧ PlainAbove t' := by
    rcases pagingMapPage_links hHolds.separate hFresh.fresh
        hCall with
      ⟨t₁, hLinks, _, hEnd⟩
    rcases hHolds.plain.links hHolds.separate hLinks with
      ⟨hSep₁, hPlain₁⟩
    rcases hEnd with ⟨_, rfl⟩ | ⟨_, pt, hAt, rfl⟩
    · exact ⟨hSep₁, hPlain₁⟩
    · exact ⟨(setEntry_leaf _ hSep₁ hAt).1,
        hPlain₁.leaf _ hSep₁ hAt⟩
  unfold userExec
  simp only [hCall]
  rcases pagingMapPage_exact hHolds.separate hFresh.fresh
      hFresh.frames call.virt call.phys call.writable call.user
      call.nx with
    ⟨hFew, t₁, hExact, _, hEntries, _⟩ |
    ⟨hEnough, t₁, hExact, _, hEntries, _⟩
  · rw [hCall] at hExact
    cases hExact
    refine ⟨⟨hTables.1, hTables.2, ?_⟩, ?_⟩
    · intro page user hLast
      rw [hEntries]
      exact hHolds.mapped page user hLast
    · exact fun hNone => ⟨fun _ => .inr hFew, fun _ => hNone⟩
  · rw [hCall] at hExact
    cases hExact
    refine ⟨⟨hTables.1, hTables.2, ?_⟩, ?_⟩
    · intro page user hLast
      simp only [if_true] at hLast
      rw [hEntries]
      by_cases hPage : page = pageOf call.virt
      · subst hPage
        rw [Function.update_self] at hLast ⊢
        cases hLast
        exact ⟨_, rfl, isUser_makePte _ _ _ _⟩
      · rw [Function.update_of_ne hPage] at hLast ⊢
        exact hHolds.mapped page user hLast
    · intro hNone
      constructor
      · intro hNone'
        have hHere := hNone' (pageOf call.virt)
        simp only [if_true, Function.update_self] at hHere
        exact .inl (Bool.eq_false_iff.mpr
          fun h => hHere (congrArg some h))
      · rintro (hKernel | hFew) page hLast
        · simp only [if_true] at hLast
          by_cases hPage : page = pageOf call.virt
          · subst hPage
            rw [Function.update_self, hKernel] at hLast
            cases hLast
          · rw [Function.update_of_ne hPage] at hLast
            exact hNone page hLast
        · omega

/- With plain tables, a page for the user is not usable. -/
theorem UserState.Holds.flagsRight_iff
    {s : UserState}
    (hHolds : s.Holds) :
    s.FlagsRight ↔ s.NoUserPage := by
  constructor
  · intro hRight page hLast
    rcases hHolds.mapped page true hLast with
      ⟨entry, hEntry, _⟩
    have hPresent := (walkEntries_of_entries hEntry).1
    have hUser := ((hRight page).1 hLast).1
    have hPlain : isUser (s.tables.walkEntries
        (pageIndices page)).pml4e = false :=
      hHolds.plain [] s.tables.pml4 (pageIndices page).pml4
        (by simp) rfl hPresent
    rw [hPlain] at hUser
    cases hUser
  · intro hNone page
    refine ⟨fun hLast => absurd hLast (hNone page), ?_⟩
    intro hLast
    rcases hHolds.mapped page false hLast with
      ⟨entry, hEntry, hUser⟩
    rwa [(walkEntries_of_entries hEntry).2]

/-
  From the empty tables on, the flags are right after every
  call if and only if no call maps a page for the user.
-/
theorem user_flags_right_iff
    {t₀ : PageTables}
    {calls : List MapCall}
    {s : UserState}
    (hBoot : t₀.Boot) :
    Run (fun s call s' => userStep s call s' ∧ s'.FlagsRight)
        (UserState.start t₀) calls s ↔
      Run (Guarded (fun s call => call.MapsNoUserPage s)
        userStep) (UserState.start t₀) calls s := by
  refine @Run.guarded_iff _ _ userStep _ s calls
    (fun s call => call.MapsNoUserPage s)
    (fun _ _ s' => s'.FlagsRight)
    (fun s => s.Holds ∧ s.NoUserPage) ?_ ?_ ?_
  · intro s call s' hInv hOk hStep
    rcases userStep_holds hInv.1 hStep with ⟨hHolds', hIff⟩
    exact ⟨hHolds', (hIff hInv.2).mpr hOk⟩
  · intro s call s' hInv hStep
    rcases userStep_holds hInv.1 hStep with ⟨hHolds', hIff⟩
    rw [hHolds'.flagsRight_iff]
    exact hIff hInv.2
  · refine ⟨.start hBoot, ?_⟩
    intro page hLast
    cases hLast

/- The first page mapped after boot, for whom it may be -/
def firstMapping (user : Bool) : MapCall where
  virt := 0x400000
  phys := 0x9000
  writable := true
  user := user
  nx := false
  answers := [0x5000, 0x6000, 0x7000]

theorem firstMapping_step
    (user : Bool) :
    userStep (.start bootTables) (firstMapping user)
      (userExec (.start bootTables) (firstMapping user)) :=
  ⟨⟨bootTables_fresh,
    show 0#64 ∉ ([0x5000, 0x6000, 0x7000] : List U64) by decide⟩,
    rfl⟩

theorem user_flags_right_iff_kernel_page :
    Run (fun s call s' => userStep s call s' ∧ s'.FlagsRight)
      (.start bootTables) [firstMapping false]
      (userExec (.start bootTables) (firstMapping false)) :=
  (user_flags_right_iff bootTables_boot).mpr
    (.cons ⟨.inl rfl, firstMapping_step false⟩ (.nil _))

/- The page table made for a user page is closed to the user. -/
theorem user_page_not_usable :
    ¬ ∀ (t₀ : PageTables) (calls : List MapCall)
        (s : UserState),
      t₀.Boot → Run userStep (.start t₀) calls s →
        s.FlagsRight := by
  intro hAll
  have hRight := hAll bootTables [firstMapping true] _
    bootTables_boot (.cons (firstMapping_step true) (.nil _))
  have hUser := ((hRight (pageOf 0x400000)).1 (by rfl)).1
  revert hUser
  decide

end FeatherOS
