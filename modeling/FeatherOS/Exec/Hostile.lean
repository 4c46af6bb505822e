import FeatherOS.Exec.Loading

/-
  Images that are not what they should be.

  The loader validates a header without looking at the size of
  the image, reads a table wherever the image says it is, and
  checks a segment only once its turn has come. Where a segment
  goes is checked without the base that is added to it.

  Key definitions include:
    * `ElfSafe`
    * `ElfGuarded`

  Key theorems include:
    * `elfCopyAll_refused_iff`
    * `elfLoad_safe_iff`
-/

namespace FeatherOS

variable {im : ElfImage}
variable {i : Nat}
variable {wantsEntry wantsStack : Bool}
variable {m : ByteMemory}

/-
  Every read is in the image, every write in user space, and
  nothing is written for an image that does not fit.
-/
def ElfSafe
    (im : ElfImage)
    (wantsEntry wantsStack : Bool)
    (m : ByteMemory) : Prop :=
  ∃ r, elfLoad im wantsEntry wantsStack m = some r ∧
    (∀ a ∈ r.user.writes, a.toNat ≤ userLimit) ∧
    (¬ ElfFits im → r.ret < 0 ∧ r.user.writes = [])

def ElfEmpty
    (im : ElfImage)
    (i : Nat) : Prop :=
  elfPhdrAt im i pFilesz = 0 ∧ elfPhdrAt im i pMemsz = 0

/- The check fails at an entry, with nothing copied so far. -/
def ElfRefusedFirst (im : ElfImage) : Prop :=
  ∃ k ∈ elfEntries im, ElfRefused im k ∧
    ∀ i < k, ElfPassed im i ∧ (ElfLoadable im i → ElfEmpty im i)

/- The segments end in user space where they are copied to. -/
def ElfBelow (im : ElfImage) : Prop :=
  ∀ i ∈ elfLoads im,
    0 < max (elfPhdrAt im i pFilesz) (elfPhdrAt im i pMemsz) →
      userCodeVaddr + elfPhdrAt im i pVaddr +
          max (elfPhdrAt im i pFilesz) (elfPhdrAt im i pMemsz) ≤
        userLimit + 1

/- The images that the loader is safe for -/
def ElfGuarded (im : ElfImage) : Prop :=
  ElfTestsRead im elfTests ∧
    (ElfValid im →
      ElfTableRead im ∧
        (ElfAllTooHigh im ∨ ElfRefusedFirst im ∨
          ElfFits im ∧ ElfBelow im))

--------------------
-- Addresses of a Piece
--------------------

/- Addresses one after another are all below a limit. -/
theorem forall_offset_le_iff
    {a : Addr}
    {n limit : Nat}
    (hSome : 0 < n)
    (hLimit : limit + 1 < 2 ^ 64) :
    (∀ k < n, (a + BitVec.ofNat 64 k).toNat ≤ limit) ↔
      a.toNat + n ≤ limit + 1 := by
  have hAt :
      ∀ k, (a + BitVec.ofNat 64 k).toNat =
        (a.toNat + k) % 2 ^ 64 := by
    intro k
    rw [BitVec.toNat_add, BitVec.toNat_ofNat]
    omega
  have hLt := a.isLt
  constructor
  · intro hAll
    by_contra hNot
    have hFirst := hAll 0 hSome
    rw [hAt] at hFirst
    -- the first address above the limit
    have hAbove := hAll (limit + 1 - a.toNat) (by omega)
    rw [hAt] at hAbove
    omega
  · intro hEnd k hk
    rw [hAt]
    omega

theorem ElfFits.writes_le_iff
    (hFits : ElfFits im) :
    (∀ a ∈ (TracedMemory.fillAll ⟨m, []⟩
        ((elfLoads im).map (elfPiece im))).writes,
      a.toNat ≤ userLimit) ↔
      ElfBelow im := by
  have hLimit : userLimit + 1 < 2 ^ 64 := by decide
  constructor
  · intro hWrites i hLoad hSome
    rw [← hFits.start_toNat hLoad]
    refine (forall_offset_le_iff hSome hLimit).mp ?_
    intro k hk
    exact hWrites _ (hFits.mem_writes.mpr ⟨i, hLoad, k, hk, rfl⟩)
  · intro hBelow a hMem
    rcases hFits.mem_writes.mp hMem with ⟨i, hLoad, k, hk, rfl⟩
    have hSome := Nat.lt_of_le_of_lt (Nat.zero_le k) hk
    have hEnd := hBelow i hLoad hSome
    rw [← hFits.start_toNat hLoad] at hEnd
    exact (forall_offset_le_iff hSome hLimit).mpr hEnd k hk

--------------------
-- Refusals
--------------------

theorem range_eq_append
    {n k : Nat}
    (hLt : k < n) :
    ∃ rest, List.range n = List.range k ++ k :: rest := by
  refine ⟨(List.range (n - k - 1)).map fun x => k + (x + 1), ?_⟩
  have hSplit : n = k + (n - k - 1 + 1) := by omega
  conv => lhs; rw [hSplit, List.range_add]
  rw [List.range_succ_eq_map, List.map_cons, List.map_map]
  rfl

theorem range_front
    {n k : Nat}
    {front rest : List Nat}
    (hSplit : List.range n = front ++ k :: rest) :
    k < n ∧ front = List.range k := by
  have hAt : (List.range n)[front.length]? = some k := by
    rw [hSplit, List.getElem?_append_right (Nat.le_refl _),
      Nat.sub_self]
    rfl
  rcases List.getElem?_eq_some_iff.mp hAt with ⟨hLt, hEq⟩
  rw [List.length_range] at hLt
  rw [List.getElem_range] at hEq
  subst hEq
  refine ⟨hLt, ?_⟩
  have hTake := congrArg (List.take front.length) hSplit
  rw [List.take_left, List.take_range,
    Nat.min_eq_left (Nat.le_of_lt hLt)] at hTake
  exact hTake.symm

/- A piece is empty just if the sizes are 0. -/
theorem elfPieces_writes_nil
    {is : List Nat}
    (hPassed : ∀ i ∈ is, ElfPassed im i) :
    (TracedMemory.fillAll ⟨m, []⟩ (elfPieces im is)).writes =
        [] ↔
      ∀ i ∈ is, ElfLoadable im i → ElfEmpty im i := by
  have hLength :
      ∀ i ∈ is, ElfLoadable im i →
        (elfPiece im i).bytes.length =
          max (elfPhdrAt im i pFilesz)
            (elfPhdrAt im i pMemsz) :=
    fun i hMem hLoad =>
      elfPiece_length ((hPassed i hMem).2 hLoad).holds
  rw [List.eq_nil_iff_forall_not_mem]
  constructor
  · intro hNone i hMem hLoad
    have hPiece : elfPiece im i ∈ elfPieces im is :=
      List.mem_map_of_mem
        (List.mem_filter.mpr ⟨hMem, by simpa using hLoad⟩)
    have hZero : ¬ 0 < (elfPiece im i).bytes.length := by
      intro hSome
      exact hNone _ (TracedMemory.mem_fillAll_writes.mpr
        (Or.inr ⟨_, hPiece, 0, hSome, rfl⟩))
    rw [hLength i hMem hLoad] at hZero
    unfold ElfEmpty
    omega
  · intro hEmpty a hWrite
    rcases TracedMemory.mem_fillAll_writes.mp hWrite with
      hStart | ⟨piece, hPiece, k, hk, -⟩
    · exact absurd hStart List.not_mem_nil
    · rcases List.mem_map.mp hPiece with ⟨i, hFilter, rfl⟩
      rcases List.mem_filter.mp hFilter with ⟨hMem, hType⟩
      have hLoad : ElfLoadable im i := by simpa using hType
      have hSizes := hEmpty i hMem hLoad
      rw [hLength i hMem hLoad, hSizes.1, hSizes.2] at hk
      exact absurd hk (Nat.not_lt_zero k)

theorem elfOutputs_ret
    {s : TracedMemory}
    {r : ElfLoaded}
    (hRun : elfOutputs im wantsEntry wantsStack s = some r) :
    r.ret = 0 := by
  unfold elfOutputs at hRun
  cases wantsEntry with
  | false =>
      cases hRun
      rfl
  | true =>
      cases hRead : elfHeader im eEntry with
      | none =>
          rw [hRead] at hRun
          exact nomatch hRun
      | some v =>
          rw [hRead] at hRun
          cases hRun
          rfl

/-
  The copies end with an error and without a write just if
  an entry is refused first.
-/
theorem elfCopyAll_refused_iff :
    (∃ r, elfCopyAll im wantsEntry wantsStack (elfTable im)
          (elfEntries im) ⟨m, []⟩ = some r ∧
        r.ret < 0 ∧ r.user.writes = []) ↔
      ElfRefusedFirst im := by
  constructor
  · rintro ⟨r, hRun, hRet, hWrites⟩
    rcases Option.bind_eq_some_iff.mp hRun with
      ⟨end', hLoop, -⟩
    rcases elfSegments_some hLoop with
      hAll | ⟨front, k, rest, hSplit, hFront, hRefused⟩
    · rw [elfCopyAll_passed hAll] at hRun
      have hZero := elfOutputs_ret hRun
      omega
    · rw [hSplit, elfCopyAll_refused hFront hRefused] at hRun
      cases hRun
      have hEmpty := (elfPieces_writes_nil hFront).mp hWrites
      rcases range_front hSplit with ⟨hLt, rfl⟩
      refine ⟨k, List.mem_range.mpr hLt, hRefused, ?_⟩
      intro i hi
      have hMem := List.mem_range.mpr hi
      exact ⟨hFront i hMem, hEmpty i hMem⟩
  · rintro ⟨k, hMem, hRefused, hBefore⟩
    rcases range_eq_append (List.mem_range.mp hMem) with
      ⟨rest, hSplit⟩
    have hFront : ∀ i ∈ List.range k, ElfPassed im i :=
      fun i hi => (hBefore i (List.mem_range.mp hi)).1
    have hEmpty :=
      (@elfPieces_writes_nil im m _ hFront).mpr fun i hi =>
        (hBefore i (List.mem_range.mp hi)).2
    have hRet : (-11 : Int) < 0 := by decide
    refine ⟨.failed (-11) _, ?_, hRet, hEmpty⟩
    rw [elfEntries, hSplit]
    exact elfCopyAll_refused hFront hRefused

--------------------
-- Safety
--------------------

theorem elfSafe_guarded
    (hSafe : ElfSafe im wantsEntry wantsStack m) :
    ElfGuarded im := by
  rcases hSafe with ⟨r, hRun, hWrites, hRefuses⟩
  have hTests := elfLoad_read hRun
  refine ⟨hTests, fun hValid => ?_⟩
  rw [elfLoad_valid hTests hValid] at hRun
  have hTable := elfLoadTable_read hRun
  refine ⟨hTable, ?_⟩
  by_cases hHigh : ElfAllTooHigh im
  · exact Or.inl hHigh
  · right
    rw [elfLoadTable_low hTable hHigh] at hRun
    by_cases hFits : ElfFits im
    · right
      have hLoaded :=
        hFits.loaded hValid hHigh wantsEntry wantsStack m
      rw [elfLoad_valid hTests hValid,
        elfLoadTable_low hTable hHigh, hRun] at hLoaded
      cases hLoaded
      exact ⟨hFits, hFits.writes_le_iff.mp hWrites⟩
    · left
      apply elfCopyAll_refused_iff.mp
      exact ⟨r, hRun, hRefuses hFits⟩

theorem elfGuarded_safe
    (hGuarded : ElfGuarded im) :
    ElfSafe im wantsEntry wantsStack m := by
  rcases hGuarded with ⟨hTests, hRest⟩
  have hNone :
      ∀ r : ElfLoaded, r.user.writes = [] →
        ∀ a ∈ r.user.writes, a.toNat ≤ userLimit := by
    intro r hNil a hMem
    rw [hNil] at hMem
    exact absurd hMem List.not_mem_nil
  by_cases hValid : ElfValid im
  · rcases hRest hValid with ⟨hTable, hCases⟩
    by_cases hHigh : ElfAllTooHigh im
    · have hRet : (-10 : Int) < 0 := by decide
      refine ⟨.failed (-10) ⟨m, []⟩, ?_, hNone _ rfl,
        fun _ => ⟨hRet, rfl⟩⟩
      rw [elfLoad_valid hTests hValid,
        elfLoadTable_high hTable hHigh]
    · rw [or_iff_right hHigh] at hCases
      rcases hCases with hFirst | ⟨hFits, hBelow⟩
      · rcases elfCopyAll_refused_iff.mpr hFirst with
          ⟨r, hRun, hRet, hNil⟩
        refine ⟨r, ?_, hNone r hNil, fun _ => ⟨hRet, hNil⟩⟩
        rw [elfLoad_valid hTests hValid,
          elfLoadTable_low hTable hHigh]
        exact hRun
      · have hLoaded :=
          hFits.loaded hValid hHigh wantsEntry wantsStack m
        refine ⟨_, hLoaded, ?_, fun hNot => absurd hFits hNot⟩
        exact hFits.writes_le_iff.mpr hBelow
  · have hRet : (-1 : Int) < 0 := by decide
    exact ⟨_, elfLoad_invalid hTests hValid, hNone _ rfl,
      fun _ => ⟨hRet, rfl⟩⟩

/- The images for which the loader is safe -/
theorem elfLoad_safe_iff
    (im : ElfImage)
    (wantsEntry wantsStack : Bool)
    (m : ByteMemory) :
    ElfSafe im wantsEntry wantsStack m ↔ ElfGuarded im :=
  ⟨elfSafe_guarded, elfGuarded_safe⟩

/- The second segment starts where the image ends. -/
def elfLateImage : ElfImage where
  data := 0x1000000#64
  bytes :=
    elfSmallHeader 0 2 ++ elfSmallPhdr 0 0 1 1 ++
      elfSmallPhdr 176 16 1 1
  fits := by decide +kernel

/- It is refused, but the first segment has been copied. -/
theorem elfLoad_refused_late :
    ¬ ElfSafe elfLateImage true true (fun _ => 0#8) := by
  rintro ⟨r, hRun, -, hRefuses⟩
  have hTrace :
      (elfLoad elfLateImage true true fun _ => 0#8).map
          (fun r => (r.ret, r.user.writes)) =
        some (-11, [0x400000#64]) := by
    decide +kernel
  have hNot : ¬ ElfFits elfLateImage := by
    decide +kernel
  have hNone := (hRefuses hNot).2
  rw [hRun, Option.map_some, hNone] at hTrace
  exact nomatch (Prod.mk.inj (Option.some.inj hTrace)).2

end FeatherOS
