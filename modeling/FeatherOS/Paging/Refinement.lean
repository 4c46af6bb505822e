import FeatherOS.Library.Run
import FeatherOS.Library.Words
import FeatherOS.Paging.Model

/-
  The page tables as a partial map.

  A page number selects a path of three table indices and an
  index into the last table. The tables are separated: no
  frame serves as a table in two places. While that holds, a
  new table may be linked without changing any page's entry,
  and a write to a last-level table changes one page's entry.

  Key definitions include:
    * `pageOf`
    * `PageTables.entries`
    * `FreshAnswers`
    * `PageTables.MapContract`

  Key theorems include:
    * `linksTable_of_fresh`
    * `ensureEntry_spec`
    * `pagingMapPage_spec`
    * `pagingUnmapPage_mapped`
    * `paging_run_refines_map`
-/

namespace FeatherOS

open RadixTable

--------------------
-- Page Numbers
--------------------

abbrev PageNumber := BitVec 36

/- Bits 12 to 47 of an address. -/
def pageOf (virt : U64) : PageNumber :=
  virt.extractLsb' 12 36

/- The indices that a page number consists of. -/
def pageIndices (page : PageNumber) : Indices where
  pml4 := page.extractLsb' 27 9
  pdp := page.extractLsb' 18 9
  pd := page.extractLsb' 9 9
  pt := page.extractLsb' 0 9

variable {virt : U64}

theorem indexAt_eq
    {k : Nat}
    (hk : k + 9 ≤ 36) :
    indexAt virt (12 + k) = (pageOf virt).extractLsb' k 9 := by
  apply BitVec.eq_of_getLsbD_eq
  intro i hi
  have hMask : (0x1FF#64).getLsbD i = true := by
    have hForm : (0x1FF#64) = BitVec.ofNat 64 (2 ^ 9 - 1) := rfl
    rw [hForm, BitVec.getLsbD_ofNat,
      Nat.testBit_two_pow_sub_one]
    simp [hi]
    omega
  have hIn : k + i < 36 := by omega
  have hSum : 12 + k + i = 12 + (k + i) := by omega
  unfold indexAt pageOf
  rw [BitVec.getLsbD_setWidth, BitVec.getLsbD_and, hMask,
    BitVec.getLsbD_ushiftRight, BitVec.getLsbD_extractLsb',
    BitVec.getLsbD_extractLsb', hSum]
  simp [hi, hIn]

theorem virtToIndices_eq
    (virt : U64) :
    virtToIndices virt = pageIndices (pageOf virt) := by
  unfold virtToIndices pageIndices
  rw [← indexAt_eq (by omega), ← indexAt_eq (by omega),
    ← indexAt_eq (by omega), ← indexAt_eq (by omega)]

/- Four indices determine the page. -/
theorem pageIndices_injective
    {p q : PageNumber}
    (hEq : pageIndices p = pageIndices q) :
    p = q := by
  unfold pageIndices at hEq
  simp only [Indices.mk.injEq] at hEq
  rcases hEq with ⟨h₃, h₂, h₁, h₀⟩
  apply BitVec.eq_of_toNat_eq
  have hp := p.isLt
  have hq := q.isLt
  rw [← BitVec.toNat_inj] at h₀ h₁ h₂ h₃
  simp only [BitVec.extractLsb'_toNat,
    Nat.shiftRight_eq_div_pow] at h₀ h₁ h₂ h₃
  omega

--------------------
-- Entries
--------------------

/- Where an entry of an upper level leads. -/
def nextFrame (entry : U64) : Option U64 :=
  if isPresent entry then some (frameMask entry) else none

theorem nextTable_eq
    (t : PageTables)
    (table : U64)
    (index : TableIndex) :
    t.nextTable table index =
      frameMask (t.memory table index) := by
  unfold PageTables.nextTable frameAt
  exact BitVec.add_sub_cancel _ _

theorem getLsbD_frameMask
    (addr : U64)
    (i : Nat)
    (hi : i < 64) :
    (frameMask addr).getLsbD i =
      (addr.getLsbD i && !decide (i < 12)) := by
  have hForm : (0xFFF#64) = BitVec.ofNat 64 (2 ^ 12 - 1) := rfl
  unfold frameMask
  rw [BitVec.getLsbD_and, BitVec.getLsbD_not, hForm,
    BitVec.getLsbD_ofNat, Nat.testBit_two_pow_sub_one]
  simp [hi]

theorem isPresent_eq_getLsbD
    (entry : U64) :
    isPresent entry = entry.getLsbD 0 := by
  have hForm : ptePresent = BitVec.ofNat 64 (2 ^ 1 - 1) := rfl
  have hLow := Words.toNat_and_low entry 1 (by omega)
  have hBit : entry.getLsbD 0 = decide (entry.toNat % 2 = 1) := by
    rw [← BitVec.testBit_toNat, Nat.testBit_zero]
  have hZero :
      entry &&& ptePresent = 0#64 ↔ entry.toNat % 2 = 0 := by
    rw [← BitVec.toNat_inj, hForm, hLow]
    simp
  unfold isPresent
  rw [hBit, Bool.eq_iff_iff, bne_iff_ne, decide_eq_true_iff,
    ne_eq, hZero]
  omega

/- An entry made present is present. -/
theorem isPresent_makePte
    (phys : U64)
    (writable user nx : Bool) :
    isPresent (makePte phys true writable user nx) = true := by
  rw [isPresent_eq_getLsbD]
  have hOne : ptePresent.getLsbD 0 = true := by decide
  unfold makePte
  cases writable <;> cases user <;> cases nx <;>
    simp [hOne]

/- A new table's entry leads to the frame it was made for. -/
theorem nextFrame_makePte
    {phys : U64}
    (hAligned : frameMask phys = phys) :
    nextFrame (makePte phys true true false false) =
      some phys := by
  have hFrame :
      frameMask (makePte phys true true false false) = phys := by
    rw [← hAligned]
    apply BitVec.eq_of_getLsbD_eq
    intro i hi
    have hFlags :
        (ptePresent ||| pteWritable).getLsbD i =
          decide (i < 2) := by
      have hForm :
          ptePresent ||| pteWritable =
            BitVec.ofNat 64 (2 ^ 2 - 1) := by
        decide
      rw [hForm, BitVec.getLsbD_ofNat,
        Nat.testBit_two_pow_sub_one]
      simp [hi]
    have hPte :
        makePte (frameMask phys) true true false false =
          frameMask phys ||| (ptePresent ||| pteWritable) := by
      simp [makePte, BitVec.or_assoc, hAligned]
    rw [hPte, getLsbD_frameMask _ _ hi, BitVec.getLsbD_or,
      hFlags, getLsbD_frameMask _ _ hi]
    by_cases hLow : i < 12
    · simp [hLow]
    · have hFlag : ¬ i < 2 := by omega
      simp [hLow, hFlag]
  unfold nextFrame
  rw [isPresent_makePte, hFrame, if_pos rfl]

--------------------
-- The Map
--------------------

/- The levels above the last table. -/
def Indices.path (idx : Indices) : List TableIndex :=
  [idx.pml4, idx.pdp, idx.pd]

/- What the tables hold for every page. -/
def PageTables.entries
    (t : PageTables)
    (page : PageNumber) : Option U64 :=
  lookup nextFrame isPresent t.memory t.pml4
    (pageIndices page).path (pageIndices page).pt

/- The frames in use as tables, the root among them. -/
def PageTables.Uses
    (t : PageTables)
    (frame : U64) : Prop :=
  IsTable nextFrame t.memory t.pml4 3 frame

def PageTables.Separate (t : PageTables) : Prop :=
  Separated nextFrame t.memory t.pml4 3

theorem findTable_eq_walk
    (t : PageTables)
    (idx : Indices) :
    t.findTable idx =
      walk nextFrame t.memory t.pml4 idx.path := by
  unfold PageTables.findTable PageTables.getPml4Entry
    PageTables.getPdpEntry PageTables.getPdEntry Indices.path
  simp only [nextTable_eq, walk, nextFrame]
  by_cases h₄ : isPresent (t.memory t.pml4 idx.pml4) = true
  · simp only [h₄, if_true]
    generalize frameMask (t.memory t.pml4 idx.pml4) = pdp
    by_cases h₃ : isPresent (t.memory pdp idx.pdp) = true
    · simp only [h₃, if_true]
      generalize frameMask (t.memory pdp idx.pdp) = pd
      by_cases h₂ : isPresent (t.memory pd idx.pd) = true
      · simp [h₂]
      · simp [h₂]
    · simp [h₃]
  · simp [h₄]

--------------------
-- Answers Of The Physical Allocator
--------------------

/- The allocator that gives a list of answers, and then 0. -/
def nextAnswer : List U64 → U64 × List U64
  | [] => (0#64, [])
  | answer :: answers => (answer, answers)

/-
  Every answer is 0 or a frame that no table uses at the
  time: neither a table of before the call nor a frame that
  an earlier answer of the same call has turned into one.
-/
structure FreshAnswers
    (t : PageTables)
    (answers : List U64) : Prop where
  fresh : ∀ answer ∈ answers, answer = 0#64 ∨
    (frameMask answer = answer ∧ ¬ t.Uses answer)
  distinct : answers.Pairwise
    (fun a b => a = 0#64 ∨ a ≠ b)

variable {answer table : U64}
variable {answers : List U64}
variable {t t' : PageTables}

theorem FreshAnswers.of_uses
    (hFresh : FreshAnswers t (answer :: answers))
    (hNe : answer ≠ 0#64)
    (hUses : ∀ frame, t'.Uses frame →
      t.Uses frame ∨ frame = answer) :
    FreshAnswers t' answers := by
  rcases List.pairwise_cons.mp hFresh.distinct with
    ⟨hHead, hTail⟩
  refine ⟨?_, hTail⟩
  intro other hOther
  rcases hFresh.fresh other (by simp [hOther]) with
    hZero | ⟨hAligned, hFree⟩
  · exact Or.inl hZero
  · refine Or.inr ⟨hAligned, ?_⟩
    intro hUsed
    rcases hUses other hUsed with hOld | hSame
    · exact hFree hOld
    · rcases hHead other hOther with hZero | hDiff
      · exact hNe hZero
      · exact hDiff hSame.symm

--------------------
-- One Level
--------------------

/- What a step on the way down keeps. -/
structure Descends
    (t t' : PageTables) : Prop where
  root : t'.pml4 = t.pml4
  separate : t'.Separate
  entries : t'.entries = t.entries

theorem Descends.trans
    {t₁ t₂ t₃ : PageTables}
    (h₁₂ : Descends t₁ t₂)
    (h₂₃ : Descends t₂ t₃) :
    Descends t₁ t₃ where
  root := h₂₃.root.trans h₁₂.root
  separate := h₂₃.separate
  entries := h₂₃.entries.trans h₁₂.entries

variable {t : PageTables}
variable {path : List TableIndex}
variable {index : TableIndex}

/- A zeroed frame that no table uses, about to be linked. -/
theorem links_of_fresh
    (hSep : t.Separate)
    (hAt : walk nextFrame t.memory t.pml4 path = some table)
    (hLen : path.length < 3)
    (hAbsent : ¬ isPresent (t.memory table index) = true)
    (hAligned : frameMask answer = answer)
    (hFree : ¬ t.Uses answer) :
    Links nextFrame (fill t.memory answer 0#64) t.pml4 3 path
      table index (makePte answer true true false false) answer
      0#64 where
  separated := Separated.fill hSep hFree
  at_path := (walk_fill hFree (Nat.le_of_lt hLen)).trans hAt
  length_lt := hLen
  empty := by
    have hNe : table ≠ answer := by
      intro hEq
      exact hFree ⟨path, Nat.le_of_lt hLen, hEq ▸ hAt⟩
    rw [fill_other hNe, nextFrame, if_neg hAbsent]
  fresh := by
    rw [isTable_fill_iff hFree]
    exact hFree
  blank := fill_here t.memory answer 0#64
  next_z := by decide
  next_e := nextFrame_makePte hAligned

/- A new table in the frame `answer`, with an entry for it -/
def PageTables.link
    (t : PageTables)
    (table : U64)
    (index : TableIndex)
    (answer : U64) :
    PageTables :=
  (t.zeroPage (answer + kernelVirtBase)).setEntry table index
    (makePte answer true true false false)

/- What a new table changes -/
structure LinksTable
    (t t' : PageTables)
    (path : List TableIndex)
    (table : U64)
    (index : TableIndex)
    (answer : U64) : Prop where
  descends : Descends t t'
  uses : ∀ frame, t'.Uses frame → t.Uses frame ∨ frame = answer
  here : walk nextFrame t'.memory t'.pml4 (path ++ [index]) =
    some (t'.nextTable table index)
  off : ∀ q, q.length ≤ 3 → q ≠ path ++ [index] →
    walk nextFrame t'.memory t'.pml4 q =
      walk nextFrame t.memory t.pml4 q

theorem linksTable_of_fresh
    (hSep : t.Separate)
    (hAt : walk nextFrame t.memory t.pml4 path = some table)
    (hLen : path.length < 3)
    (hAbsent : ¬ isPresent (t.memory table index) = true)
    (hAligned : frameMask answer = answer)
    (hFree : ¬ t.Uses answer) :
    LinksTable t (t.link table index answer) path table index
      answer := by
  have hFrame : frameAt (answer + kernelVirtBase) = answer :=
    BitVec.add_sub_cancel _ _
  have hLinks :=
    links_of_fresh hSep hAt hLen hAbsent hAligned hFree
  unfold PageTables.link PageTables.zeroPage
    PageTables.setEntry
  rw [hFrame]
  refine ⟨⟨rfl, hLinks.separated_after, ?_⟩, ?_, ?_, ?_⟩
  · funext page
    exact (hLinks.lookup_after (by decide) rfl _).trans
      (lookup_fill hFree (by simp [Indices.path]) _)
  · intro frame hUsed
    rcases hLinks.isTable_after hUsed with hOld | hNew
    · exact Or.inl ((isTable_fill_iff hFree _).mp hOld)
    · exact Or.inr hNew
  · have hNext := nextFrame_makePte hAligned
    rw [nextFrame, isPresent_makePte, if_pos rfl] at hNext
    simp only [nextTable_eq, hLinks.walk_new, write_here, hNext]
  · intro q hq hNew
    exact (hLinks.walk_off hq hNew).trans (walk_fill hFree hq)

theorem ensureEntry_absent
    (answers : List U64)
    (hAbsent : ¬ isPresent (t.memory table index) = true)
    (hNe : answer ≠ 0#64) :
    ensureEntry nextAnswer (answer :: answers) t table index =
      (true, t.link table index answer, answers) := by
  unfold ensureEntry allocatePageTable
  simp only [if_neg hAbsent, nextAnswer, hNe, if_false]
  rfl

/-
  A table that is missing is made and linked; nothing else
  can be seen to change.
-/
theorem ensureEntry_spec
    (index : TableIndex)
    (hSep : t.Separate)
    (hFresh : FreshAnswers t answers)
    (hAt : walk nextFrame t.memory t.pml4 path = some table)
    (hLen : path.length < 3) :
    (∃ answers',
        ensureEntry nextAnswer answers t table index =
          (false, t, answers')) ∨
      ∃ t' answers',
        ensureEntry nextAnswer answers t table index =
          (true, t', answers') ∧
        Descends t t' ∧
        FreshAnswers t' answers' ∧
        walk nextFrame t'.memory t'.pml4 (path ++ [index]) =
          some (t'.nextTable table index) := by
  by_cases hPresent : isPresent (t.memory table index) = true
  · refine Or.inr ⟨t, answers, if_pos hPresent,
      ⟨rfl, hSep, rfl⟩, hFresh, ?_⟩
    rw [walk_snoc _ hAt, nextTable_eq, nextFrame, if_pos hPresent]
  · cases answers with
    | nil =>
        exact Or.inl ⟨[], if_neg hPresent⟩
    | cons answer answers =>
        by_cases hZero : answer = 0#64
        · subst hZero
          exact Or.inl ⟨answers, if_neg hPresent⟩
        · rcases (hFresh.fresh answer (by simp)).resolve_left
              hZero with
            ⟨hAligned, hFree⟩
          have hLinks := linksTable_of_fresh hSep hAt hLen
            hPresent hAligned hFree
          exact Or.inr ⟨_, answers,
            ensureEntry_absent answers hPresent hZero,
            hLinks.descends, hFresh.of_uses hZero hLinks.uses,
            hLinks.here⟩

--------------------
-- Mapping
--------------------

/-
  A write to the last table of a page changes the entry of
  that page and of no other.
-/
theorem setEntry_leaf
    {page : PageNumber}
    (entry : U64)
    (hSep : t.Separate)
    (hAt :
      walk nextFrame t.memory t.pml4 (pageIndices page).path =
        some table) :
    (t.setEntry table (pageIndices page).pt entry).Separate ∧
      (t.setEntry table (pageIndices page).pt entry).entries =
        Function.update t.entries page
          (if isPresent entry then some entry else none) := by
  refine ⟨Separated.write_leaf hSep hAt rfl, ?_⟩
  funext other
  unfold PageTables.entries PageTables.setEntry
  simp only
  rw [Separated.lookup_write_leaf hSep hAt rfl
    (by simp [Indices.path])]
  by_cases hSame : other = page
  · subst hSame
    simp
  · have hDiff :
        ¬ ((pageIndices other).path =
            (pageIndices page).path ∧
          (pageIndices other).pt = (pageIndices page).pt) := by
      intro hEq
      apply hSame
      apply pageIndices_injective
      simp only [Indices.path, List.cons.injEq] at hEq
      rcases hEq with ⟨⟨h₄, h₃, h₂, _⟩, h₁⟩
      exact Indices.ext h₄ h₃ h₂ h₁
    rw [if_neg hDiff, Function.update_of_ne hSame]

/-
  `paging_map_page` either sets the entry of its page or
  fails and changes no entry, whatever tables it has made.
-/
theorem pagingMapPage_spec
    (hSep : t.Separate)
    (hFresh : FreshAnswers t answers)
    (virt phys : U64)
    (writable user nx : Bool) :
    ∃ r t' answers',
      pagingMapPage nextAnswer answers t virt phys writable
          user nx =
        (r, t', answers') ∧
      t'.Separate ∧ t'.pml4 = t.pml4 ∧
      (r = 0 ∧
          t'.entries =
            Function.update t.entries (pageOf virt)
              (some (makePte phys true writable user nx)) ∨
        r = -1 ∧ t'.entries = t.entries) := by
  unfold pagingMapPage
  rw [virtToIndices_eq]
  have hRoot :
      walk nextFrame t.memory t.pml4 [] = some t.pml4 := rfl
  rcases ensureEntry_spec (pageIndices (pageOf virt)).pml4
      hSep hFresh hRoot (by simp) with
    ⟨answers₁, hStop⟩ | ⟨t₁, answers₁, hGo, hDown₁, hFresh₁, hAt₁⟩
  · simp only [hStop]
    exact ⟨_, _, _, rfl, hSep, rfl, Or.inr ⟨rfl, rfl⟩⟩
  rw [List.nil_append, ← hDown₁.root] at hAt₁
  simp only [hGo]
  rcases ensureEntry_spec (pageIndices (pageOf virt)).pdp
      hDown₁.separate hFresh₁ hAt₁ (by simp) with
    ⟨answers₂, hStop⟩ | ⟨t₂, answers₂, hGo₂, hDown₂, hFresh₂, hAt₂⟩
  · simp only [PageTables.getPml4Entry, hStop]
    exact ⟨_, _, _, rfl, hDown₁.separate, hDown₁.root,
      Or.inr ⟨rfl, hDown₁.entries⟩⟩
  simp only [PageTables.getPml4Entry, hGo₂]
  rcases ensureEntry_spec (pageIndices (pageOf virt)).pd
      hDown₂.separate hFresh₂ hAt₂ (by simp) with
    ⟨answers₃, hStop⟩ | ⟨t₃, answers₃, hGo₃, hDown₃, hFresh₃, hAt₃⟩
  · simp only [PageTables.getPdpEntry, hStop]
    exact ⟨_, _, _, rfl, hDown₂.separate,
      (hDown₁.trans hDown₂).root,
      Or.inr ⟨rfl, (hDown₁.trans hDown₂).entries⟩⟩
  simp only [PageTables.getPdpEntry, hGo₃,
    PageTables.getPdEntry]
  have hDown := (hDown₁.trans hDown₂).trans hDown₃
  rcases setEntry_leaf
      (makePte phys true writable user nx)
      hDown₃.separate hAt₃ with
    ⟨hSep', hEntries⟩
  refine ⟨_, _, _, rfl, hSep', hDown.root,
    Or.inl ⟨rfl, ?_⟩⟩
  rw [hEntries, hDown.entries, isPresent_makePte, if_pos rfl]

--------------------
-- Unmapping And Queries
--------------------

/- The entry of an address is what `find_table` leads to. -/
theorem entries_eq_findTable
    (t : PageTables)
    (virt : U64) :
    t.entries (pageOf virt) =
      match t.findTable (virtToIndices virt) with
      | none => none
      | some pt =>
          if isPresent (t.memory pt (virtToIndices virt).pt) then
            some (t.memory pt (virtToIndices virt).pt)
          else
            none := by
  rw [findTable_eq_walk, virtToIndices_eq]
  unfold PageTables.entries lookup
  cases walk nextFrame t.memory t.pml4
      (pageIndices (pageOf virt)).path with
  | none => rfl
  | some pt => rfl

theorem pagingIsMapped_eq
    (t : PageTables)
    (virt : U64) :
    pagingIsMapped t virt =
      (t.entries (pageOf virt)).isSome := by
  rw [entries_eq_findTable]
  simp only [pagingIsMapped]
  cases t.findTable (virtToIndices virt) with
  | none => rfl
  | some pt =>
      cases hPresent :
          isPresent (t.memory pt (virtToIndices virt).pt) with
      | true => simp [hPresent]
      | false => simp [hPresent]

theorem pagingUnmapPage_mapped
    (hSep : t.Separate)
    (hMapped : (t.entries (pageOf virt)).isSome = true) :
    ∃ t', pagingUnmapPage t virt = (0, t') ∧
      t'.Separate ∧ t'.pml4 = t.pml4 ∧
      t'.entries =
        Function.update t.entries (pageOf virt) none := by
  unfold pagingUnmapPage
  simp only [findTable_eq_walk, virtToIndices_eq]
  unfold PageTables.entries lookup at hMapped
  cases hWalk :
      walk nextFrame t.memory t.pml4
        (pageIndices (pageOf virt)).path with
  | none => simp [hWalk] at hMapped
  | some pt =>
      by_cases hPresent :
          isPresent
            (t.memory pt (pageIndices (pageOf virt)).pt) = true
      · simp only [hPresent, if_true]
        rcases setEntry_leaf 0#64 hSep hWalk with
          ⟨hSep', hEntries⟩
        refine ⟨_, rfl, hSep', rfl, ?_⟩
        have hZero : isPresent 0#64 = false := by decide
        rw [hEntries, hZero]
        rfl
      · simp [hWalk, hPresent] at hMapped

theorem pagingUnmapPage_unmapped
    (hUnmapped : t.entries (pageOf virt) = none) :
    pagingUnmapPage t virt = (-1, t) := by
  unfold pagingUnmapPage
  simp only [findTable_eq_walk, virtToIndices_eq]
  unfold PageTables.entries lookup at hUnmapped
  cases hWalk :
      walk nextFrame t.memory t.pml4
        (pageIndices (pageOf virt)).path with
  | none => rfl
  | some pt =>
      by_cases hPresent :
          isPresent
            (t.memory pt (pageIndices (pageOf virt)).pt) = true
      · simp [hWalk, hPresent] at hUnmapped
      · simp [hPresent]

--------------------
-- Runs
--------------------

/- A call, with what the physical allocator answers to it. -/
inductive PagingCall where
  | map
      (virt phys : U64)
      (writable user nx : Bool)
      (answers : List U64)
  | unmap (virt : U64)

def pagingStep
    (t : PageTables) :
    PagingCall → PageTables → Prop
  | .map virt phys writable user nx answers, t' =>
      t' = (pagingMapPage nextAnswer answers t virt phys
        writable user nx).2.1
  | .unmap virt, t' => t' = (pagingUnmapPage t virt).2

/- The promise of the physical allocator. -/
def PagingCall.Fresh
    (t : PageTables) :
    PagingCall → Prop
  | .map _ _ _ _ _ answers => FreshAnswers t answers
  | .unmap _ => True

/- After `paging_init`: the root array is all zero. -/
def PageTables.Boot (t : PageTables) : Prop :=
  ∀ index, t.memory t.pml4 index = 0#64

theorem PageTables.Boot.path_nil
    (hBoot : t.Boot)
    {frame : U64}
    (hWalk :
      walk nextFrame t.memory t.pml4 path = some frame) :
    path = [] := by
  cases path with
  | nil => rfl
  | cons index path =>
      have hNone : nextFrame 0#64 = none := by decide
      simp [walk, hBoot index, hNone] at hWalk

theorem PageTables.Boot.separate
    (hBoot : t.Boot) :
    t.Separate := by
  intro p q frame _ _ hWalkP hWalkQ
  rw [hBoot.path_nil hWalkP, hBoot.path_nil hWalkQ]

theorem PageTables.Boot.entries
    (hBoot : t.Boot) :
    t.entries = fun _ => none := by
  funext page
  unfold PageTables.entries lookup
  cases hWalk :
      walk nextFrame t.memory t.pml4
        (pageIndices page).path with
  | none => rfl
  | some frame =>
      have hNil := hBoot.path_nil hWalk
      simp [Indices.path] at hNil

theorem pagingStep_separate
    {call : PagingCall}
    (hSep : t.Separate)
    (hStep : Guarded PagingCall.Fresh pagingStep t call t') :
    t'.Separate := by
  rcases hStep with ⟨hFresh, hStep⟩
  cases call with
  | map virt phys writable user nx answers =>
      rcases pagingMapPage_spec hSep hFresh virt phys writable
          user nx with
        ⟨r, t₁, rest, hCall, hSep₁, _⟩
      simp only [pagingStep, hCall] at hStep
      exact hStep ▸ hSep₁
  | unmap virt =>
      simp only [pagingStep] at hStep
      cases hEntry : t.entries (pageOf virt) with
      | none =>
          rw [pagingUnmapPage_unmapped hEntry] at hStep
          exact hStep ▸ hSep
      | some entry =>
          rcases pagingUnmapPage_mapped hSep
              (show (t.entries (pageOf virt)).isSome = true by
                rw [hEntry]; rfl) with
            ⟨t₁, hCall, hSep₁, _⟩
          rw [hCall] at hStep
          exact hStep ▸ hSep₁

/-
  What the calls do to the map from page numbers to entries,
  in one state.
-/
structure PageTables.MapContract (t : PageTables) : Prop where
  map :
    ∀ answers virt phys writable user nx,
      FreshAnswers t answers →
      ∃ r t' rest,
        pagingMapPage nextAnswer answers t virt phys writable
            user nx =
          (r, t', rest) ∧
        (r = 0 ∧
            t'.entries =
              Function.update t.entries (pageOf virt)
                (some (makePte phys true writable user nx)) ∨
          r = -1 ∧ t'.entries = t.entries)
  unmap_mapped :
    ∀ virt, (t.entries (pageOf virt)).isSome = true →
      ∃ t', pagingUnmapPage t virt = (0, t') ∧
        t'.entries =
          Function.update t.entries (pageOf virt) none
  unmap_unmapped :
    ∀ virt, t.entries (pageOf virt) = none →
      pagingUnmapPage t virt = (-1, t)
  isMapped :
    ∀ virt,
      pagingIsMapped t virt =
        (t.entries (pageOf virt)).isSome

theorem PageTables.Separate.mapContract
    (hSep : t.Separate) :
    t.MapContract where
  map := by
    intro answers virt phys writable user nx hFresh
    rcases pagingMapPage_spec hSep hFresh virt phys writable
        user nx with
      ⟨r, t', rest, hCall, _, _, hEffect⟩
    exact ⟨r, t', rest, hCall, hEffect⟩
  unmap_mapped := by
    intro virt hMapped
    rcases pagingUnmapPage_mapped hSep hMapped with
      ⟨t', hCall, _, _, hEntries⟩
    exact ⟨t', hCall, hEntries⟩
  unmap_unmapped := fun _ hNone => pagingUnmapPage_unmapped hNone
  isMapped := pagingIsMapped_eq t

/-
  From the empty tables on, whatever is mapped and unmapped
  in whatever order, every call acts on the map as described.
-/
theorem paging_run_refines_map
    {t₀ t : PageTables}
    {calls : List PagingCall}
    (hBoot : t₀.Boot)
    (hRun :
      Run (Guarded PagingCall.Fresh pagingStep) t₀ calls t) :
    t₀.entries = (fun _ => none) ∧ t.MapContract := by
  have hSep :=
    hRun.invariant PageTables.Separate
      (fun _ _ _ hSep hStep => pagingStep_separate hSep hStep)
      hBoot.separate
  exact ⟨hBoot.entries, hSep.mapContract⟩

/- Zeroed memory with the root table in frame 0x1000. -/
def bootTables : PageTables where
  pml4 := 0x1000#64
  memory := fun _ _ => 0#64

theorem bootTables_boot : bootTables.Boot :=
  fun _ => rfl

/- Three frames that are free after boot -/
theorem bootTables_fresh :
    FreshAnswers bootTables [0x5000, 0x6000, 0x7000] := by
  have hUses :
      ∀ frame, bootTables.Uses frame → frame = 0x1000#64 := by
    intro frame hUsed
    rcases hUsed with ⟨path, _, hWalk⟩
    rw [bootTables_boot.path_nil hWalk] at hWalk
    exact (Option.some.inj hWalk).symm
  constructor
  · intro answer hAnswer
    simp only [List.mem_cons, List.not_mem_nil, or_false]
      at hAnswer
    right
    rcases hAnswer with rfl | rfl | rfl
    · exact ⟨by decide, fun h => absurd (hUses _ h) (by decide)⟩
    · exact ⟨by decide, fun h => absurd (hUses _ h) (by decide)⟩
    · exact ⟨by decide, fun h => absurd (hUses _ h) (by decide)⟩
  · decide

theorem paging_run_refines_map_three_tables :
    ∃ t, Run (Guarded PagingCall.Fresh pagingStep) bootTables
        [.map 0x400000 0x9000 true true false
          [0x5000, 0x6000, 0x7000], .unmap 0x400000] t ∧
      t.MapContract := by
  have hRun :
      Run (Guarded PagingCall.Fresh pagingStep) bootTables
        [.map 0x400000 0x9000 true true false
          [0x5000, 0x6000, 0x7000], .unmap 0x400000] _ :=
    .cons ⟨bootTables_fresh, rfl⟩ (.cons ⟨trivial, rfl⟩ (.nil _))
  exact ⟨_, hRun,
    (paging_run_refines_map bootTables_boot hRun).2⟩

end FeatherOS
