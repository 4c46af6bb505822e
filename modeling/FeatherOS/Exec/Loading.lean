import FeatherOS.Exec.Segments

/-
  Whole runs of the loader.

  An image that fits is loaded as one piece of memory for each
  entry with the type PT_LOAD, unless a segment is rejected
  for where it ends.

  Key definitions include:
    * `ElfTableRead`
    * `ElfFits`

  Key theorems include:
    * `ElfFits.loaded`
    * `ElfFits.rejected`
    * `ElfFits.mem_writes`
-/

namespace FeatherOS

variable {im : ElfImage}
variable {i : Nat}
variable {is : List Nat}
variable {s : TracedMemory}

--------------------
-- The Whole Function
--------------------

/- What the first loop and its header need of the image -/
structure ElfTableRead (im : ElfImage) : Prop where
  phoff : ElfHasHeader im ePhoff
  phnum : ElfHasHeader im ePhnum
  entries : ∀ i ∈ elfEntries im, ElfSizesRead im i

/- `highest_vaddr` is above user space. -/
def ElfAllTooHigh (im : ElfImage) : Prop :=
  ∃ i ∈ elfLoads im, ElfTooHigh im i

variable {wantsEntry wantsStack : Bool}
variable {m : ByteMemory}

theorem elfSizes_entries
    (hRead : ElfTableRead im) :
    ∃ z, elfSizes im (elfTable im) (elfEntries im) .start =
        some z ∧
      (userLimit < z.highest ↔ ElfAllTooHigh im) := by
  rcases @elfSizes_some im _ .start hRead.entries with
    ⟨z, hRun, hHigh⟩
  refine ⟨z, hRun, ?_⟩
  have hStart : ¬ userLimit < ElfSizes.start.highest := by decide
  rw [hHigh, or_iff_right hStart, ElfAllTooHigh]
  simp only [elfLoads, List.mem_filter, decide_eq_true_iff,
    and_assoc]

theorem elfLoadTable_eq
    (hRead : ElfTableRead im) :
    elfLoadTable im wantsEntry wantsStack s =
      (elfSizes im (elfTable im) (elfEntries im) .start).bind
        fun z =>
          if userLimit < z.highest then
            some (.failed (-10) s)
          else
            elfCopyAll im wantsEntry wantsStack (elfTable im)
              (elfEntries im) s := by
  simp only [elfLoadTable, elfHeader_read hRead.phoff,
    elfHeader_read hRead.phnum, Option.bind_eq_bind,
    Option.bind_some]
  rfl

theorem elfLoadTable_high
    (hRead : ElfTableRead im)
    (hHigh : ElfAllTooHigh im) :
    elfLoadTable im wantsEntry wantsStack s =
      some (.failed (-10) s) := by
  rcases elfSizes_entries hRead with ⟨z, hRun, hTop⟩
  rw [elfLoadTable_eq hRead, hRun, Option.bind_some,
    if_pos (hTop.mpr hHigh)]

theorem elfLoadTable_low
    (hRead : ElfTableRead im)
    (hLow : ¬ ElfAllTooHigh im) :
    elfLoadTable im wantsEntry wantsStack s =
      elfCopyAll im wantsEntry wantsStack (elfTable im)
        (elfEntries im) s := by
  rcases elfSizes_entries hRead with ⟨z, hRun, hTop⟩
  rw [elfLoadTable_eq hRead, hRun, Option.bind_some,
    if_neg fun hHigh => hLow (hTop.mp hHigh)]

theorem elfLoadTable_read
    {r : ElfLoaded}
    (hLoad : elfLoadTable im wantsEntry wantsStack s = some r) :
    ElfTableRead im := by
  rcases Option.bind_eq_some_iff.mp hLoad with
    ⟨phoff, hPhoff, hLoad⟩
  rcases Option.bind_eq_some_iff.mp hLoad with
    ⟨phnum, hPhnum, hLoad⟩
  rcases Option.bind_eq_some_iff.mp hLoad with ⟨z, hSizes, -⟩
  rcases elfHeader_some hPhoff with ⟨hHasPhoff, rfl⟩
  rcases elfHeader_some hPhnum with ⟨hHasPhnum, rfl⟩
  exact ⟨hHasPhoff, hHasPhnum, elfSizes_read hSizes⟩

theorem elfTests_codes :
    ∀ t ∈ elfTests, t.code ≠ 0 := by
  decide

theorem elfLoad_invalid
    (hRead : ElfTestsRead im elfTests)
    (hNot : ¬ ElfValid im) :
    elfLoad im wantsEntry wantsStack m =
      some (.failed (-1) ⟨m, []⟩) := by
  rcases elfRunTests_some elfTests_codes hRead with
    ⟨v, hRun, hPass⟩
  have hCode : v ≠ 0 := fun hZero => hNot (hPass.mp hZero)
  simp only [elfLoad, elfValidateHeader, hRun,
    Option.bind_eq_bind, Option.bind_some, if_pos hCode]
  rfl

theorem elfLoad_valid
    (hRead : ElfTestsRead im elfTests)
    (hValid : ElfValid im) :
    elfLoad im wantsEntry wantsStack m =
      elfLoadTable im wantsEntry wantsStack ⟨m, []⟩ := by
  rcases elfRunTests_some elfTests_codes hRead with
    ⟨v, hRun, hPass⟩
  have hCode : ¬ v ≠ 0 := not_not.mpr (hPass.mpr hValid)
  simp only [elfLoad, elfValidateHeader, hRun,
    Option.bind_eq_bind, Option.bind_some, if_neg hCode]

theorem elfLoad_read
    {r : ElfLoaded}
    (hLoad : elfLoad im wantsEntry wantsStack m = some r) :
    ElfTestsRead im elfTests := by
  rcases Option.bind_eq_some_iff.mp hLoad with ⟨v, hRun, -⟩
  exact elfRunTests_read hRun

theorem elfCopyAll_passed
    (hPassed : ∀ i ∈ is, ElfPassed im i) :
    elfCopyAll im wantsEntry wantsStack (elfTable im) is s =
      elfOutputs im wantsEntry wantsStack
        (s.fillAll (elfPieces im is)) := by
  have hRun := @elfSegments_passed im is s hPassed []
  rw [List.append_nil] at hRun
  rw [elfCopyAll, hRun]
  rfl

theorem elfCopyAll_refused
    {front rest : List Nat}
    (hPassed : ∀ j ∈ front, ElfPassed im j)
    (hRefused : ElfRefused im i) :
    elfCopyAll im wantsEntry wantsStack (elfTable im)
        (front ++ i :: rest) s =
      some (.failed (-11) (s.fillAll (elfPieces im front))) := by
  rw [elfCopyAll, elfSegments_passed hPassed,
    elfSegments_cons_refused hRefused]
  rfl

theorem elfOutputs_some
    (hEntry : ElfHasHeader im eEntry) :
    elfOutputs im wantsEntry wantsStack s =
      some ⟨0,
        if wantsEntry then some (elfHeaderAt im eEntry) else none,
        if wantsStack then some userStackTop else none, s⟩ := by
  unfold elfOutputs
  rw [elfHeader_read hEntry]
  cases wantsEntry with
  | true => rfl
  | false => rfl

--------------------
-- Images That Fit
--------------------

/- The headers and the segments are in the image, and the
  segments in user space. -/
structure ElfFits (im : ElfImage) : Prop where
  header : elfHeaderSize ≤ im.size
  table : ∀ i ∈ elfEntries im,
    elfHeaderAt im ePhoff + elfPhdrSize * (i + 1) ≤ im.size
  file : ∀ i ∈ elfLoads im,
    elfPhdrAt im i pOffset + elfPhdrAt im i pFilesz ≤ im.size
  user : ∀ i ∈ elfLoads im,
    elfPhdrAt im i pVaddr + elfPhdrAt im i pMemsz ≤
      userLimit + 1

instance (im : ElfImage) :
    Decidable (ElfFits im) :=
  decidable_of_iff
    (elfHeaderSize ≤ im.size ∧
      (∀ i ∈ elfEntries im,
        elfHeaderAt im ePhoff + elfPhdrSize * (i + 1) ≤
          im.size) ∧
      ∀ i ∈ elfLoads im,
        elfPhdrAt im i pOffset + elfPhdrAt im i pFilesz ≤
            im.size ∧
          elfPhdrAt im i pVaddr + elfPhdrAt im i pMemsz ≤
            userLimit + 1)
    ⟨fun ⟨hHeader, hTable, hLoads⟩ =>
        ⟨hHeader, hTable, fun i hLoad => (hLoads i hLoad).1,
          fun i hLoad => (hLoads i hLoad).2⟩,
      fun hFits =>
        ⟨hFits.header, hFits.table, fun i hLoad =>
          ⟨hFits.file i hLoad, hFits.user i hLoad⟩⟩⟩

theorem elfHolds_of_le
    {x n : Nat}
    (hIn : x + n ≤ im.size) :
    im.Holds x n := by
  have hSize := @ByteImage.size_lt im
  rcases Nat.eq_zero_or_pos n with hNone | hSome
  · exact Or.inl hNone
  · right
    rw [Nat.mod_eq_of_lt (by omega)]
    exact hIn

theorem elfTestsRead_of_has
    {ts : List ElfTest}
    (hHas : ∀ t ∈ ts, ElfHasHeader im t.field) :
    ElfTestsRead im ts := by
  induction ts with
  | nil => trivial
  | cons t ts ih =>
      rcases List.forall_mem_cons.mp hHas with ⟨hHere, hRest⟩
      exact ⟨hHere, fun _ => ih hRest⟩

namespace ElfFits

variable (hFits : ElfFits im)
include hFits

theorem hasHeader
    {f : ElfField}
    (hIn : f.offset + f.bytes ≤ elfHeaderSize) :
    ElfHasHeader im f :=
  elfHolds_of_le (Nat.le_trans hIn hFits.header)

theorem hasPhdr
    {f : ElfField}
    (hEntry : i ∈ elfEntries im)
    (hIn : f.offset + f.bytes ≤ elfPhdrSize) :
    ElfHasPhdr im i f := by
  have hTable := hFits.table i hEntry
  unfold elfPhdrSize at hTable hIn
  apply elfHolds_of_le
  unfold elfPhdrOffset elfPhdrSize
  omega

theorem testsRead :
    ElfTestsRead im elfTests := by
  apply elfTestsRead_of_has
  intro t hMem
  apply hFits.hasHeader
  revert t
  decide

theorem tableRead :
    ElfTableRead im where
  phoff := hFits.hasHeader (by decide)
  phnum := hFits.hasHeader (by decide)
  entries := by
    intro i hEntry
    refine ⟨hFits.hasPhdr hEntry (by decide), fun _ => ?_⟩
    exact ⟨hFits.hasPhdr hEntry (by decide),
      hFits.hasPhdr hEntry (by decide)⟩

theorem passed :
    ∀ i ∈ elfEntries im, ElfPassed im i := by
  intro i hEntry
  refine ⟨hFits.hasPhdr hEntry (by decide), fun hLoad => ?_⟩
  have hMem : i ∈ elfLoads im :=
    mem_elfLoads.mpr ⟨List.mem_range.mp hEntry, hLoad⟩
  have hFile := hFits.file i hMem
  have hSize := @ByteImage.size_lt im
  exact {
    offset := hFits.hasPhdr hEntry (by decide)
    vaddr := hFits.hasPhdr hEntry (by decide)
    filesz := hFits.hasPhdr hEntry (by decide)
    passes := by
      unfold ElfOverruns
      omega
    holds := elfHolds_of_le hFile
    memsz := hFits.hasPhdr hEntry (by decide) }

/- The image is loaded, and all pieces are written. -/
theorem loaded
    (hValid : ElfValid im)
    (hLow : ¬ ElfAllTooHigh im)
    (wantsEntry wantsStack : Bool)
    (m : ByteMemory) :
    elfLoad im wantsEntry wantsStack m =
      some ⟨0,
        if wantsEntry then some (elfHeaderAt im eEntry) else none,
        if wantsStack then some userStackTop else none,
        TracedMemory.fillAll ⟨m, []⟩
          ((elfLoads im).map (elfPiece im))⟩ := by
  rw [elfLoad_valid hFits.testsRead hValid,
    elfLoadTable_low hFits.tableRead hLow,
    elfCopyAll_passed hFits.passed,
    elfOutputs_some (hFits.hasHeader (by decide))]
  rfl

theorem rejected
    (hValid : ElfValid im)
    (hHigh : ElfAllTooHigh im)
    (wantsEntry wantsStack : Bool)
    (m : ByteMemory) :
    elfLoad im wantsEntry wantsStack m =
      some (.failed (-10) ⟨m, []⟩) := by
  rw [elfLoad_valid hFits.testsRead hValid,
    elfLoadTable_high hFits.tableRead hHigh]

theorem start_toNat
    (hLoad : i ∈ elfLoads im) :
    (elfPiece im i).start.toNat =
      userCodeVaddr + elfPhdrAt im i pVaddr := by
  have hUser := hFits.user i hLoad
  unfold userLimit at hUser
  rw [elfPiece, BitVec.toNat_add, BitVec.toNat_ofNat,
    BitVec.toNat_ofNat, userCodeVaddr]
  omega

/- Every address that is written is one of a segment's. -/
theorem mem_writes
    {a : Addr} :
    a ∈ (TracedMemory.fillAll ⟨m, []⟩
        ((elfLoads im).map (elfPiece im))).writes ↔
      ∃ i ∈ elfLoads im,
        ∃ k < max (elfPhdrAt im i pFilesz)
            (elfPhdrAt im i pMemsz),
          (elfPiece im i).start + BitVec.ofNat 64 k = a := by
  rw [TracedMemory.mem_fillAll_writes,
    or_iff_right (show a ∉ [] from List.not_mem_nil)]
  constructor
  · rintro ⟨piece, hMem, k, hIn, hAt⟩
    rcases List.mem_map.mp hMem with ⟨i, hLoad, rfl⟩
    rw [elfPiece_length (elfHolds_of_le (hFits.file i hLoad))]
      at hIn
    exact ⟨i, hLoad, k, hIn, hAt⟩
  · rintro ⟨i, hLoad, k, hIn, hAt⟩
    refine ⟨elfPiece im i, List.mem_map_of_mem hLoad, k, ?_, hAt⟩
    rw [elfPiece_length (elfHolds_of_le (hFits.file i hLoad))]
    exact hIn

end ElfFits

--------------------
-- Small Images
--------------------

/- A number as it stands in an image -/
def elfBytes (n v : Nat) : List U8 :=
  (List.range n).map fun k => BitVec.ofNat 8 (v / 256 ^ k)

/- A valid header, with the table behind it -/
def elfSmallHeader (entry phnum : Nat) : List U8 :=
  elfBytes 16 0x010102464C457F ++ elfBytes 2 2 ++
    elfBytes 2 62 ++ elfBytes 4 1 ++ elfBytes 8 entry ++
    elfBytes 8 elfHeaderSize ++ elfBytes 12 0 ++
    elfBytes 2 elfHeaderSize ++ elfBytes 2 elfPhdrSize ++
    elfBytes 2 phnum ++ elfBytes 6 0

/- An entry with the type PT_LOAD -/
def elfSmallPhdr
    (offset vaddr filesz memsz : Nat) : List U8 :=
  elfBytes 8 ptLoad ++ elfBytes 8 offset ++ elfBytes 8 vaddr ++
    elfBytes 8 0 ++ elfBytes 8 filesz ++ elfBytes 8 memsz ++
    elfBytes 8 0

end FeatherOS
