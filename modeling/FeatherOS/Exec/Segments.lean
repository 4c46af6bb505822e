import FeatherOS.Exec.Elf

/-
  What the loader does with the tables of an image.

  The numbers in an image are read at offsets from its start.
  Every loop of the loader has a result exactly if the fields
  it looks at are in the image.

  Key definitions include:
    * `elfPhdrAt`
    * `elfLoads`
    * `ElfValid`
    * `elfPiece`

  Key theorems include:
    * `elfRunTests_some`
    * `elfSizes_some`
    * `loadSegment_some`
    * `elfSegments_some`
-/

namespace FeatherOS

variable (im : ElfImage)

--------------------
-- Numbers in the Image
--------------------

def ElfHasHeader (f : ElfField) : Prop :=
  im.Holds f.offset f.bytes

def elfHeaderAt (f : ElfField) : Nat :=
  im.numberAt f.offset f.bytes

/- The offset of `phdr[i].f` in the image -/
def elfPhdrOffset
    (i : Nat)
    (f : ElfField) : Nat :=
  elfHeaderAt im ePhoff + elfPhdrSize * i + f.offset

def ElfHasPhdr
    (i : Nat)
    (f : ElfField) : Prop :=
  im.Holds (elfPhdrOffset im i f) f.bytes

def elfPhdrAt
    (i : Nat)
    (f : ElfField) : Nat :=
  im.numberAt (elfPhdrOffset im i f) f.bytes

instance
    (f : ElfField) :
    Decidable (ElfHasHeader im f) :=
  inferInstanceAs (Decidable (im.Holds _ _))

instance
    (i : Nat)
    (f : ElfField) :
    Decidable (ElfHasPhdr im i f) :=
  inferInstanceAs (Decidable (im.Holds _ _))

def ElfLoadable (i : Nat) : Prop :=
  elfPhdrAt im i pType = ptLoad

instance
    (i : Nat) :
    Decidable (ElfLoadable im i) :=
  inferInstanceAs (Decidable (_ = _))

def elfEntries : List Nat :=
  List.range (elfHeaderAt im ePhnum)

/- The entries of the table with the type PT_LOAD -/
def elfLoads : List Nat :=
  (elfEntries im).filter fun i => ElfLoadable im i

/- `phdr` -/
def elfTable : Addr :=
  im.data + BitVec.ofNat 64 (elfHeaderAt im ePhoff)

variable {im : ElfImage}
variable {i : Nat}
variable {is : List Nat}
variable {s t : TracedMemory}

theorem mem_elfLoads :
    i ∈ elfLoads im ↔
      i < elfHeaderAt im ePhnum ∧ ElfLoadable im i := by
  rw [elfLoads, List.mem_filter, elfEntries, List.mem_range,
    decide_eq_true_iff]

theorem elfHeader_at
    (im : ElfImage)
    (f : ElfField) :
    elfHeader im f =
      if ElfHasHeader im f then
        some (elfHeaderAt im f)
      else
        none :=
  ByteImage.number_at im f.offset f.bytes

theorem elfPhdr_at
    (im : ElfImage)
    (i : Nat)
    (f : ElfField) :
    elfPhdr im (elfTable im) i f =
      if ElfHasPhdr im i f then
        some (elfPhdrAt im i f)
      else
        none := by
  have hAddr :
      elfTable im + BitVec.ofNat 64 (elfPhdrSize * i) +
          BitVec.ofNat 64 f.offset =
        im.data + BitVec.ofNat 64 (elfPhdrOffset im i f) := by
    rw [elfTable, elfPhdrOffset, BitVec.ofNat_add,
      BitVec.ofNat_add, BitVec.add_assoc, BitVec.add_assoc,
      BitVec.add_assoc]
  rw [elfPhdr, hAddr]
  exact ByteImage.number_at im _ _

variable {f : ElfField}

/- Reads of fields that are in the image, and of others -/
theorem elfHeader_read
    (hHas : ElfHasHeader im f) :
    elfHeader im f = some (elfHeaderAt im f) := by
  rw [elfHeader_at, if_pos hHas]

theorem elfPhdr_read
    (hHas : ElfHasPhdr im i f) :
    elfPhdr im (elfTable im) i f = some (elfPhdrAt im i f) := by
  rw [elfPhdr_at, if_pos hHas]

theorem elfHeader_fault
    (hNot : ¬ ElfHasHeader im f) :
    elfHeader im f = none := by
  rw [elfHeader_at, if_neg hNot]

theorem elfPhdr_fault
    (hNot : ¬ ElfHasPhdr im i f) :
    elfPhdr im (elfTable im) i f = none := by
  rw [elfPhdr_at, if_neg hNot]

theorem elfHeader_some
    {v : Nat}
    (hRead : elfHeader im f = some v) :
    ElfHasHeader im f ∧ elfHeaderAt im f = v := by
  by_cases hHas : ElfHasHeader im f
  · rw [elfHeader_read hHas] at hRead
    exact ⟨hHas, Option.some.inj hRead⟩
  · rw [elfHeader_fault hHas] at hRead
    exact nomatch hRead

theorem elfPhdr_some
    {v : Nat}
    (hRead : elfPhdr im (elfTable im) i f = some v) :
    ElfHasPhdr im i f ∧ elfPhdrAt im i f = v := by
  by_cases hHas : ElfHasPhdr im i f
  · rw [elfPhdr_read hHas] at hRead
    exact ⟨hHas, Option.some.inj hRead⟩
  · rw [elfPhdr_fault hHas] at hRead
    exact nomatch hRead

--------------------
-- Validation
--------------------

/- The image has the fields of the tests until one fails. -/
def ElfTestsRead (im : ElfImage) : List ElfTest → Prop
  | [] => True
  | t :: ts =>
      ElfHasHeader im t.field ∧
        (elfHeaderAt im t.field = t.value → ElfTestsRead im ts)

def ElfTestsPass
    (im : ElfImage)
    (ts : List ElfTest) : Prop :=
  ∀ t ∈ ts, elfHeaderAt im t.field = t.value

/- What `elf_validate_header` is to check -/
def ElfValid (im : ElfImage) : Prop :=
  ElfTestsPass im elfTests

instance (im : ElfImage) :
    Decidable (ElfValid im) :=
  inferInstanceAs (Decidable (∀ t ∈ elfTests, _ = _))

theorem elfRunTests_some
    {ts : List ElfTest}
    (hCodes : ∀ t ∈ ts, t.code ≠ 0)
    (hRead : ElfTestsRead im ts) :
    ∃ v, elfRunTests im ts = some v ∧
      (v = 0 ↔ ElfTestsPass im ts) := by
  induction ts with
  | nil =>
      refine ⟨0, rfl, iff_of_true rfl ?_⟩
      intro t hMem
      exact absurd hMem List.not_mem_nil
  | cons t ts ih =>
      rcases List.forall_mem_cons.mp hCodes with ⟨hCode, hRest⟩
      rcases hRead with ⟨hHas, hNext⟩
      unfold ElfTestsPass at ih ⊢
      rw [List.forall_mem_cons]
      simp only [elfRunTests, elfHeader_read hHas,
        Option.bind_eq_bind, Option.bind_some]
      by_cases hSame : elfHeaderAt im t.field = t.value
      · rcases ih hRest (hNext hSame) with ⟨v, hRun, hPass⟩
        rw [if_neg (not_not.mpr hSame)]
        exact ⟨v, hRun, hPass.trans (and_iff_right hSame).symm⟩
      · rw [if_pos hSame]
        refine ⟨t.code, rfl, iff_of_false hCode ?_⟩
        exact fun hAll => hSame hAll.1

theorem elfRunTests_read
    {ts : List ElfTest}
    {v : Int}
    (hRun : elfRunTests im ts = some v) :
    ElfTestsRead im ts := by
  induction ts with
  | nil => trivial
  | cons t ts ih =>
      rcases Option.bind_eq_some_iff.mp hRun with
        ⟨v', hRead, hRest⟩
      rcases elfHeader_some hRead with ⟨hHas, rfl⟩
      refine ⟨hHas, fun hSame => ih ?_⟩
      rw [if_neg (not_not.mpr hSame)] at hRest
      exact hRest

--------------------
-- Sizes
--------------------

/- What the first loop looks at in an entry -/
def ElfSizesRead
    (im : ElfImage)
    (i : Nat) : Prop :=
  ElfHasPhdr im i pType ∧
    (ElfLoadable im i →
      ElfHasPhdr im i pVaddr ∧ ElfHasPhdr im i pMemsz)

/- The segment ends above user space, as far as 64 bits tell. -/
def ElfTooHigh
    (im : ElfImage)
    (i : Nat) : Prop :=
  userLimit <
    elfTop (elfPhdrAt im i pVaddr) (elfPhdrAt im i pMemsz)

variable {z : ElfSizes}

theorem ElfSizes.add_highest
    {vaddr memsz limit : Nat} :
    limit < (z.add vaddr memsz).highest ↔
      limit < z.highest ∨ limit < elfTop vaddr memsz := by
  have hHighest :
      (z.add vaddr memsz).highest =
        if z.highest < elfTop vaddr memsz then
          elfTop vaddr memsz
        else
          z.highest := rfl
  rw [hHighest]
  split
  next hMore => omega
  next hLess => omega

/- An entry that is not loaded, and one that is -/
theorem elfSizes_skip
    (hType : ElfHasPhdr im i pType)
    (hOther : ¬ ElfLoadable im i) :
    elfSizes im (elfTable im) (i :: is) z =
      elfSizes im (elfTable im) is z := by
  simp only [elfSizes, elfPhdr_read hType,
    Option.bind_eq_bind, Option.bind_some]
  exact if_neg hOther

theorem elfSizes_load
    (hType : ElfHasPhdr im i pType)
    (hLoad : ElfLoadable im i) :
    elfSizes im (elfTable im) (i :: is) z =
      (elfPhdr im (elfTable im) i pVaddr).bind fun vaddr =>
        (elfPhdr im (elfTable im) i pMemsz).bind fun memsz =>
          elfSizes im (elfTable im) is (z.add vaddr memsz) := by
  simp only [elfSizes, elfPhdr_read hType,
    Option.bind_eq_bind, Option.bind_some]
  exact if_pos hLoad

theorem elfSizes_some
    {z : ElfSizes}
    (hRead : ∀ i ∈ is, ElfSizesRead im i) :
    ∃ z', elfSizes im (elfTable im) is z = some z' ∧
      (userLimit < z'.highest ↔
        userLimit < z.highest ∨
          ∃ i ∈ is, ElfLoadable im i ∧ ElfTooHigh im i) := by
  induction is generalizing z with
  | nil => exact ⟨z, rfl, by simp⟩
  | cons i is ih =>
      rcases List.forall_mem_cons.mp hRead with
        ⟨⟨hType, hSizes⟩, hRest⟩
      by_cases hLoad : ElfLoadable im i
      · rcases hSizes hLoad with ⟨hVaddr, hMemsz⟩
        rcases ih hRest with ⟨z', hRun, hHigh⟩
        rw [elfSizes_load hType hLoad, elfPhdr_read hVaddr,
          elfPhdr_read hMemsz, Option.bind_some,
          Option.bind_some]
        refine ⟨z', hRun, ?_⟩
        rw [hHigh, ElfSizes.add_highest, or_assoc,
          List.exists_mem_cons_iff, and_iff_right hLoad]
        rfl
      · rcases ih hRest with ⟨z', hRun, hHigh⟩
        rw [elfSizes_skip hType hLoad]
        refine ⟨z', hRun, ?_⟩
        rw [hHigh, List.exists_mem_cons_iff]
        simp only [hLoad, false_and, false_or]

theorem elfSizes_read
    {z z' : ElfSizes}
    (hRun : elfSizes im (elfTable im) is z = some z') :
    ∀ i ∈ is, ElfSizesRead im i := by
  induction is generalizing z with
  | nil =>
      intro i hMem
      exact absurd hMem List.not_mem_nil
  | cons i is ih =>
      rw [List.forall_mem_cons]
      have hType : ElfHasPhdr im i pType := by
        rcases Option.bind_eq_some_iff.mp hRun with ⟨v, hRead, -⟩
        exact (elfPhdr_some hRead).1
      by_cases hLoad : ElfLoadable im i
      · rw [elfSizes_load hType hLoad] at hRun
        rcases Option.bind_eq_some_iff.mp hRun with
          ⟨vaddr, hVaddr, hRun⟩
        rcases Option.bind_eq_some_iff.mp hRun with
          ⟨memsz, hMemsz, hRun⟩
        have hBoth :=
          And.intro (elfPhdr_some hVaddr).1
            (elfPhdr_some hMemsz).1
        exact ⟨⟨hType, fun _ => hBoth⟩, ih hRun⟩
      · rw [elfSizes_skip hType hLoad] at hRun
        exact ⟨⟨hType, fun h => absurd h hLoad⟩, ih hRun⟩

--------------------
-- One Segment
--------------------

/- The check in front of the copy finds the segment too long. -/
def ElfOverruns
    (im : ElfImage)
    (i : Nat) : Prop :=
  im.data.toNat + im.size <
    (im.data.toNat + elfPhdrAt im i pOffset +
      elfPhdrAt im i pFilesz) % 2 ^ 64

instance
    (i : Nat) :
    Decidable (ElfOverruns im i) :=
  inferInstanceAs (Decidable (_ < _))

/- What the second loop looks at before the copy -/
structure ElfSegmentRead
    (im : ElfImage)
    (i : Nat) : Prop where
  offset : ElfHasPhdr im i pOffset
  vaddr : ElfHasPhdr im i pVaddr
  filesz : ElfHasPhdr im i pFilesz

/- A segment that both loops get through -/
structure ElfCopied
    (im : ElfImage)
    (i : Nat) : Prop extends ElfSegmentRead im i where
  passes : ¬ ElfOverruns im i
  holds : im.Holds (elfPhdrAt im i pOffset)
    (elfPhdrAt im i pFilesz)
  memsz : ElfHasPhdr im i pMemsz

/- What is written for a segment, and where -/
def elfPiece
    (im : ElfImage)
    (i : Nat) : TracedMemory.Piece where
  start :=
    BitVec.ofNat 64 userCodeVaddr +
      BitVec.ofNat 64 (elfPhdrAt im i pVaddr)
  bytes :=
    im.slice (elfPhdrAt im i pOffset) (elfPhdrAt im i pFilesz) ++
      List.replicate
        (elfPhdrAt im i pMemsz - elfPhdrAt im i pFilesz) 0#8

theorem elfPiece_length
    (hHolds : im.Holds (elfPhdrAt im i pOffset)
      (elfPhdrAt im i pFilesz)) :
    (elfPiece im i).bytes.length =
      max (elfPhdrAt im i pFilesz) (elfPhdrAt im i pMemsz) := by
  rw [elfPiece, List.length_append, List.length_replicate,
    ByteImage.slice_length hHolds]
  omega

theorem copyLoop_fill
    (dst src : Addr)
    (n j : Nat) :
    copyLoop im dst src n j s =
      (im.span (src + BitVec.ofNat 64 j) n).map
        (s.fill (dst + BitVec.ofNat 64 j)) := by
  induction n generalizing j s with
  | zero => rfl
  | succ n ih =>
      have hNext :
          ∀ a : Addr,
            a + BitVec.ofNat 64 (j + 1) =
              a + BitVec.ofNat 64 j + 1#64 := by
        intro a
        rw [BitVec.ofNat_add, BitVec.add_assoc]
      simp only [copyLoop, ByteImage.span, ih, hNext]
      cases im.byte (src + BitVec.ofNat 64 j) with
      | none => rfl
      | some b =>
          simp only [Option.bind_eq_bind, Option.bind_some]
          cases im.span (src + BitVec.ofNat 64 j + 1#64) n with
          | none => rfl
          | some bs => rfl

theorem zeroLoop_fill
    (dst : Addr)
    (n j : Nat) :
    zeroLoop dst n j s =
      s.fill (dst + BitVec.ofNat 64 j)
        (List.replicate n 0#8) := by
  induction n generalizing j s with
  | zero => rfl
  | succ n ih =>
      rw [zeroLoop, ih, List.replicate_succ, TracedMemory.fill,
        BitVec.ofNat_add, BitVec.add_assoc]

theorem copySegment_eq
    (dst : Addr) :
    copySegment im (elfTable im) i dst
        (im.data + BitVec.ofNat 64 (elfPhdrAt im i pOffset))
        (elfPhdrAt im i pFilesz) s =
      if im.Holds (elfPhdrAt im i pOffset)
            (elfPhdrAt im i pFilesz) ∧
          ElfHasPhdr im i pMemsz then
        some (0, s.fill dst (elfPiece im i).bytes)
      else
        none := by
  rw [copySegment, copyLoop_fill, BitVec.add_zero,
    BitVec.add_zero, ByteImage.span_at, elfPhdr_at]
  by_cases hHolds :
      im.Holds (elfPhdrAt im i pOffset) (elfPhdrAt im i pFilesz)
  · rw [if_pos hHolds]
    by_cases hMemsz : ElfHasPhdr im i pMemsz
    · rw [if_pos hMemsz, if_pos ⟨hHolds, hMemsz⟩, elfPiece,
        TracedMemory.fill_append, ByteImage.slice_length hHolds,
        ← zeroLoop_fill]
      rfl
    · rw [if_neg hMemsz, if_neg (not_and_of_not_right _ hMemsz)]
      rfl
  · rw [if_neg hHolds, if_neg (not_and_of_not_left _ hHolds)]
    rfl

theorem elfOverruns_iff :
    im.data + BitVec.ofNat 64 im.size <
        im.data + BitVec.ofNat 64 (elfPhdrAt im i pOffset) +
          BitVec.ofNat 64 (elfPhdrAt im i pFilesz) ↔
      ElfOverruns im i := by
  have hSize := @ByteImage.size_lt im
  rw [ElfOverruns, BitVec.lt_def]
  simp only [BitVec.toNat_add, BitVec.toNat_ofNat]
  omega

theorem loadSegment_read
    (hRead : ElfSegmentRead im i) :
    loadSegment im (elfTable im) i s =
      if ElfOverruns im i then
        some (-11, s)
      else
        copySegment im (elfTable im) i (elfPiece im i).start
          (im.data + BitVec.ofNat 64 (elfPhdrAt im i pOffset))
          (elfPhdrAt im i pFilesz) s := by
  simp only [loadSegment, elfPhdr_read hRead.offset,
    elfPhdr_read hRead.vaddr, elfPhdr_read hRead.filesz,
    Option.bind_eq_bind, Option.bind_some, elfOverruns_iff]
  rfl

theorem loadSegment_refused
    (hRead : ElfSegmentRead im i)
    (hOver : ElfOverruns im i) :
    loadSegment im (elfTable im) i s = some (-11, s) := by
  rw [loadSegment_read hRead, if_pos hOver]

theorem loadSegment_copied
    (hCopied : ElfCopied im i) :
    loadSegment im (elfTable im) i s =
      some (0, s.fill (elfPiece im i).start
        (elfPiece im i).bytes) := by
  rw [loadSegment_read hCopied.toElfSegmentRead,
    if_neg hCopied.passes, copySegment_eq,
    if_pos ⟨hCopied.holds, hCopied.memsz⟩]

/- There is no third way for the body to have a result. -/
theorem loadSegment_some
    {r : Int × TracedMemory}
    (hLoad : loadSegment im (elfTable im) i s = some r) :
    ElfSegmentRead im i ∧ ElfOverruns im i ∨
      ElfCopied im i := by
  rcases Option.bind_eq_some_iff.mp hLoad with
    ⟨offset, hOffset, hLoad'⟩
  rcases Option.bind_eq_some_iff.mp hLoad' with
    ⟨vaddr, hVaddr, hLoad''⟩
  rcases Option.bind_eq_some_iff.mp hLoad'' with
    ⟨filesz, hFilesz, -⟩
  have hRead : ElfSegmentRead im i :=
    ⟨(elfPhdr_some hOffset).1, (elfPhdr_some hVaddr).1,
      (elfPhdr_some hFilesz).1⟩
  by_cases hOver : ElfOverruns im i
  · exact Or.inl ⟨hRead, hOver⟩
  · rw [loadSegment_read hRead, if_neg hOver,
      copySegment_eq] at hLoad
    by_cases hRest :
        im.Holds (elfPhdrAt im i pOffset)
            (elfPhdrAt im i pFilesz) ∧
          ElfHasPhdr im i pMemsz
    · exact Or.inr ⟨hRead, hOver, hRest.1, hRest.2⟩
    · rw [if_neg hRest] at hLoad
      exact nomatch hLoad

--------------------
-- All Segments
--------------------

/- The entry is copied, or passed over. -/
def ElfPassed
    (im : ElfImage)
    (i : Nat) : Prop :=
  ElfHasPhdr im i pType ∧
    (ElfLoadable im i → ElfCopied im i)

/- The entry ends the loop with an error. -/
structure ElfRefused
    (im : ElfImage)
    (i : Nat) : Prop extends ElfSegmentRead im i where
  type : ElfHasPhdr im i pType
  loadable : ElfLoadable im i
  overruns : ElfOverruns im i

/- The pieces of those entries that are loaded -/
def elfPieces
    (im : ElfImage)
    (is : List Nat) : List TracedMemory.Piece :=
  (is.filter fun i => ElfLoadable im i).map (elfPiece im)

theorem elfSegments_skip
    (hType : ElfHasPhdr im i pType)
    (hOther : ¬ ElfLoadable im i) :
    elfSegments im (elfTable im) (i :: is) s =
      elfSegments im (elfTable im) is s := by
  simp only [elfSegments, elfPhdr_read hType,
    Option.bind_eq_bind, Option.bind_some]
  exact if_neg hOther

theorem elfSegments_load
    (hType : ElfHasPhdr im i pType)
    (hLoad : ElfLoadable im i) :
    elfSegments im (elfTable im) (i :: is) s =
      (loadSegment im (elfTable im) i s).bind fun r =>
        if r.1 ≠ 0 then
          some r
        else
          elfSegments im (elfTable im) is r.2 := by
  simp only [elfSegments, elfPhdr_read hType,
    Option.bind_eq_bind, Option.bind_some]
  exact if_pos hLoad

theorem elfSegments_cons_passed
    (hPassed : ElfPassed im i) :
    elfSegments im (elfTable im) (i :: is) s =
      elfSegments im (elfTable im) is
        (s.fillAll (elfPieces im [i])) := by
  rcases hPassed with ⟨hType, hCopied⟩
  by_cases hLoad : ElfLoadable im i
  · have hOne : elfPieces im [i] = [elfPiece im i] := by
      rw [elfPieces, List.filter_cons_of_pos (by simpa using hLoad)]
      rfl
    have hRet : ¬ (0 : Int) ≠ 0 := not_not.mpr rfl
    rw [elfSegments_load hType hLoad,
      loadSegment_copied (hCopied hLoad), Option.bind_some,
      if_neg hRet, hOne, TracedMemory.fillAll_cons,
      TracedMemory.fillAll_nil]
  · have hNone : elfPieces im [i] = [] := by
      rw [elfPieces, List.filter_cons_of_neg (by simpa using hLoad)]
      rfl
    rw [elfSegments_skip hType hLoad, hNone,
      TracedMemory.fillAll_nil]

theorem elfSegments_cons_refused
    (hRefused : ElfRefused im i) :
    elfSegments im (elfTable im) (i :: is) s =
      some (-11, s) := by
  have hRet : (-11 : Int) ≠ 0 := by decide
  rw [elfSegments_load hRefused.type hRefused.loadable,
    loadSegment_refused hRefused.toElfSegmentRead
      hRefused.overruns,
    Option.bind_some, if_pos hRet]

theorem elfSegments_passed
    (hPassed : ∀ i ∈ is, ElfPassed im i)
    (rest : List Nat) :
    elfSegments im (elfTable im) (is ++ rest) s =
      elfSegments im (elfTable im) rest
        (s.fillAll (elfPieces im is)) := by
  induction is generalizing s with
  | nil => rfl
  | cons i is ih =>
      rcases List.forall_mem_cons.mp hPassed with ⟨hHere, hRest⟩
      have hBoth :
          (s.fillAll (elfPieces im [i])).fillAll
              (elfPieces im is) =
            s.fillAll (elfPieces im (i :: is)) := by
        rw [TracedMemory.fillAll, TracedMemory.fillAll,
          ← List.foldl_append, elfPieces, elfPieces,
          ← List.map_append, ← List.filter_append]
        rfl
      rw [List.cons_append, elfSegments_cons_passed hHere,
        ih hRest, hBoth]

/- How the loop can end -/
theorem elfSegments_some
    {r : Int × TracedMemory}
    (hRun : elfSegments im (elfTable im) is s = some r) :
    (∀ i ∈ is, ElfPassed im i) ∨
      ∃ front i rest, is = front ++ i :: rest ∧
        (∀ j ∈ front, ElfPassed im j) ∧ ElfRefused im i := by
  induction is generalizing s with
  | nil =>
      refine Or.inl fun i hMem => ?_
      exact absurd hMem List.not_mem_nil
  | cons i is ih =>
      have hType : ElfHasPhdr im i pType := by
        rcases Option.bind_eq_some_iff.mp hRun with ⟨v, hRead, -⟩
        exact (elfPhdr_some hRead).1
      have hEither : ElfPassed im i ∨ ElfRefused im i := by
        by_cases hLoad : ElfLoadable im i
        · rw [elfSegments_load hType hLoad] at hRun
          rcases Option.bind_eq_some_iff.mp hRun with
            ⟨r', hSegment, -⟩
          rcases loadSegment_some hSegment with
            ⟨hRead, hOver⟩ | hCopied
          · exact Or.inr ⟨hRead, hType, hLoad, hOver⟩
          · exact Or.inl ⟨hType, fun _ => hCopied⟩
        · exact Or.inl ⟨hType, fun h => absurd h hLoad⟩
      rcases hEither with hPassed | hRefused
      · rw [elfSegments_cons_passed hPassed] at hRun
        rcases ih hRun with hAll | ⟨front, k, rest, hSplit⟩
        · exact Or.inl (List.forall_mem_cons.mpr ⟨hPassed, hAll⟩)
        · refine Or.inr ⟨i :: front, k, rest, ?_, ?_, hSplit.2.2⟩
          · rw [hSplit.1, List.cons_append]
          · exact List.forall_mem_cons.mpr ⟨hPassed, hSplit.2.1⟩
      · refine Or.inr ⟨[], i, is, rfl, ?_, hRefused⟩
        intro j hMem
        exact absurd hMem List.not_mem_nil

end FeatherOS
