import FeatherOS.Memory.Frames
import Mathlib.Order.Bounds.Basic

/-
  What `find_first_free` answers, and what its callers make
  of the answer.

  The inner loop has no bound of its own at the last page. It
  stops there because the first padding bit is set, so in
  every state that the allocator reaches the answer is the
  least page at which a run of free pages below `max_pages`
  starts, and no bit beyond the bitmap is tested.

  An allocation returns the address of that page, and 0 when
  there is none. Page 0 has address 0.

  Key definitions include:
    * `MemoryManager.RunAt`
    * `searchReads`
    * `ZeroMeansNone`

  Key theorems include:
    * `MemoryManager.isLeast_of_searchFree`
    * `lt_of_mem_searchReads`
    * `findFirstFree_least`
    * `alloc_zero_means_none_iff`
-/

namespace FeatherOS

open MemoryManager

--------------------
-- The Bits That Are Tested
--------------------

/- The bits that the inner loop tests, in order. -/
def runReads
    (bitmap : Nat → U32)
    (i : U64) :
    Nat → U64 → List U64
  | 0, _ => []
  | n + 1, j =>
      (i + j) ::
        if bitmapTest bitmap (i + j) then
          []
        else
          runReads bitmap i n (j + 1#64)

/- The bits that the outer loop tests, in order. -/
def searchReads
    (bitmap : Nat → U32)
    (count : U64) :
    Nat → U64 → List U64
  | 0, _ => []
  | n + 1, i =>
      runReads bitmap i count.toNat 0#64 ++
        if runIsFree bitmap i count.toNat 0#64 then
          []
        else
          searchReads bitmap count n (i + 1#64)

def findFirstFreeReads
    (bitmap : Nat → U32)
    (maxBits count : U64) : List U64 :=
  searchReads bitmap count maxBits.toNat 0#64

section Reads

variable {bitmap bitmap' : Nat → U32}
variable {count i j stop : U64}
variable {n : Nat}

/- A bitmap with the same bits there gives the same answer. -/
theorem runIsFree_of_reads
    (hSame : ∀ q ∈ runReads bitmap i n j,
      bitmapTest bitmap' q = bitmapTest bitmap q) :
    runIsFree bitmap' i n j = runIsFree bitmap i n j := by
  induction n generalizing j with
  | zero => rfl
  | succ n ih =>
      simp only [runReads, List.mem_cons, forall_eq_or_imp]
        at hSame
      simp only [runIsFree, hSame.1]
      cases hBit : bitmapTest bitmap (i + j) with
      | true => rfl
      | false =>
          have hRest := hSame.2
          simp only [hBit, Bool.false_eq_true, if_false] at hRest
          exact ih hRest

theorem searchFree_of_reads
    (hSame : ∀ q ∈ searchReads bitmap count n i,
      bitmapTest bitmap' q = bitmapTest bitmap q) :
    searchFree bitmap' count n i =
      searchFree bitmap count n i := by
  induction n generalizing i with
  | zero => rfl
  | succ n ih =>
      simp only [searchReads, List.mem_append] at hSame
      have hRun := runIsFree_of_reads
        (fun q hq => hSame q (.inl hq))
      simp only [searchFree, hRun]
      cases hFree : runIsFree bitmap i count.toNat 0#64 with
      | true => rfl
      | false =>
          simp only [hFree, Bool.false_eq_true, if_false]
            at hSame ⊢
          exact ih fun q hq => hSame q (.inr hq)

/- The inner loop goes no further than the first set bit. -/
theorem le_of_mem_runReads
    (hStop : bitmapTest bitmap stop = true)
    (hBelow : i + j ≤ stop) :
    ∀ q ∈ runReads bitmap i n j, q ≤ stop := by
  induction n generalizing j with
  | zero => simp [runReads]
  | succ n ih =>
      intro q hq
      simp only [runReads, List.mem_cons] at hq
      rcases hq with rfl | hRest
      · exact hBelow
      · cases hBit : bitmapTest bitmap (i + j) with
        | true => simp [hBit] at hRest
        | false =>
            simp only [hBit, Bool.false_eq_true, if_false]
              at hRest
            have hNe : i + j ≠ stop := by
              rintro hEq
              rw [hEq, hStop] at hBit
              cases hBit
            have hLe := BitVec.le_def.mp hBelow
            have hNatNe : (i + j).toNat ≠ stop.toNat :=
              fun h => hNe (BitVec.eq_of_toNat_eq h)
            have hLt : i + j < stop :=
              BitVec.lt_def.mpr (by omega)
            refine ih ?_ q hRest
            rw [← BitVec.add_assoc, BitVec.le_def,
              Words.toNat_succ_of_lt hLt]
            exact BitVec.lt_def.mp hLt

theorem le_of_mem_searchReads
    (hStop : bitmapTest bitmap stop = true)
    (hBelow : i.toNat + n ≤ stop.toNat) :
    ∀ q ∈ searchReads bitmap count n i, q ≤ stop := by
  induction n generalizing i with
  | zero => simp [searchReads]
  | succ n ih =>
      intro q hq
      simp only [searchReads, List.mem_append] at hq
      rcases hq with hRun | hRest
      · refine le_of_mem_runReads hStop ?_ q hRun
        rw [BitVec.add_zero, BitVec.le_def]
        omega
      · cases hFree : runIsFree bitmap i count.toNat 0#64 with
        | true => simp [hFree] at hRest
        | false =>
            simp only [hFree, Bool.false_eq_true, if_false]
              at hRest
            have hStopLt := stop.isLt
            have hNext : (i + 1#64).toNat = i.toNat + 1 :=
              Words.toNat_succ (by omega)
            exact ih (by omega) q hRest

end Reads

--------------------
-- Runs Of Free Pages
--------------------

/-
  Pages `i` to `i + count - 1` are below `max_pages` and
  free.
-/
def MemoryManager.RunAt
    (mm : MemoryManager)
    (count : U64)
    (i : Nat) : Prop :=
  ∀ k < count.toNat, i + k < mm.maxPages.toNat ∧
    bitmapTest mm.bitmap (BitVec.ofNat 64 (i + k)) = false

namespace MemoryManager

variable {mm : MemoryManager}
variable {count : U64}

/- The first padding bit keeps the run below the last page. -/
theorem runIsFree_iff_runAt
    (hOk : mm.Ok)
    {i : U64}
    (hBelow : i < mm.maxPages) :
    runIsFree mm.bitmap i count.toNat 0#64 = true ↔
      mm.RunAt count i.toNat := by
  have hMax := mm.maxPages.isLt
  rw [runIsFree_iff, BitVec.add_zero]
  constructor
  · intro hClear k hk
    rcases lt_of_clear_pagesFrom hOk.padding hBelow hClear with
      ⟨hFit, _⟩
    refine ⟨by omega, hClear _ ?_⟩
    rw [mem_pagesFrom_iff (by omega), BitVec.toNat_ofNat]
    omega
  · intro hRun q hq
    have hFit : i.toNat + count.toNat ≤ 2 ^ 64 := by
      by_cases hNone : count.toNat = 0
      · omega
      · have hLast := (hRun (count.toNat - 1) (by omega)).1
        omega
    have hBounds := (mem_pagesFrom_iff hFit).mp hq
    have hAt := (hRun (q.toNat - i.toNat) (by omega)).2
    rw [Nat.add_sub_cancel' hBounds.1,
      BitVec.ofNat_toNat, BitVec.setWidth_eq] at hAt
    exact hAt

/- A run of at least one page starts below the last page. -/
theorem RunAt.lt
    {i : Nat}
    (hRun : mm.RunAt count i)
    (hCount : count ≠ 0#64) :
    i < mm.maxPages.toNat := by
  have hPos : 0 < count.toNat := by
    rw [Nat.pos_iff_ne_zero]
    exact fun h => hCount (BitVec.eq_of_toNat_eq h)
  exact (hRun 0 hPos).1

/- The inner loop finds a run where there is one. -/
theorem RunAt.isFree
    (hOk : mm.Ok)
    {i : Nat}
    (hRun : mm.RunAt count i)
    (hLt : i < mm.maxPages.toNat) :
    (BitVec.ofNat 64 i).toNat = i ∧
      runIsFree mm.bitmap (BitVec.ofNat 64 i) count.toNat
        0#64 = true := by
  have hMax := mm.maxPages.isLt
  have hNat : (BitVec.ofNat 64 i).toNat = i := by
    rw [BitVec.toNat_ofNat]
    omega
  refine ⟨hNat, (runIsFree_iff_runAt hOk ?_).mpr ?_⟩
  · exact BitVec.lt_def.mpr (by omega)
  · rwa [hNat]

end MemoryManager

/-
  The outer loop stops at the first index for which the inner
  loop finds no set bit.
-/
theorem searchFree_first
    {bitmap : Nat → U32}
    {count i : U64}
    {n : Nat}
    (hFit : i.toNat + n < 2 ^ 64) :
    match searchFree bitmap count n i with
    | some q =>
        (i.toNat ≤ q.toNat ∧ q.toNat < i.toNat + n) ∧
          runIsFree bitmap q count.toNat 0#64 = true ∧
          ∀ r : U64, i.toNat ≤ r.toNat → r.toNat < q.toNat →
            runIsFree bitmap r count.toNat 0#64 = false
    | none =>
        ∀ r : U64, i.toNat ≤ r.toNat →
          r.toNat < i.toNat + n →
            runIsFree bitmap r count.toNat 0#64 = false := by
  induction n generalizing i with
  | zero =>
      intro r hLow hHigh
      omega
  | succ n ih =>
      have hNext : (i + 1#64).toNat = i.toNat + 1 :=
        Words.toNat_succ (by omega)
      unfold searchFree
      cases hRun : runIsFree bitmap i count.toNat 0#64 with
      | true =>
          simp only [if_true]
          exact ⟨⟨Nat.le_refl _, by omega⟩, hRun,
            fun r hLow hHigh => absurd hLow (by omega)⟩
      | false =>
          have hRest := ih (i := i + 1#64) (by omega)
          simp only [Bool.false_eq_true, if_false]
          have hSkip : ∀ r : U64, i.toNat ≤ r.toNat →
              r.toNat < (i + 1#64).toNat →
              runIsFree bitmap r count.toNat 0#64 = false := by
            intro r hLow hHigh
            have hEq : r = i := BitVec.eq_of_toNat_eq (by omega)
            exact hEq ▸ hRun
          cases hFound : searchFree bitmap count n (i + 1#64) with
          | some q =>
              simp only [hFound] at hRest ⊢
              rcases hRest with ⟨hBounds, hHere, hFirst⟩
              refine ⟨by omega, hHere, ?_⟩
              intro r hLow hHigh
              by_cases hSame : r.toNat < (i + 1#64).toNat
              · exact hSkip r hLow hSame
              · exact hFirst r (by omega) hHigh
          | none =>
              simp only [hFound] at hRest ⊢
              intro r hLow hHigh
              by_cases hSame : r.toNat < (i + 1#64).toNat
              · exact hSkip r hLow hSame
              · exact hRest r (by omega) (by omega)

variable {q : U64}

namespace MemoryManager

variable {mm : MemoryManager}
variable {count : U64}

/- What is found is the least run there is. -/
theorem isLeast_of_searchFree
    (hOk : mm.Ok)
    (hFound : searchFree mm.bitmap count mm.maxPages.toNat
      0#64 = some q) :
    q < mm.maxPages ∧
      IsLeast {i | mm.RunAt count i} q.toNat := by
  have hZero : (0#64 : U64).toNat = 0 := rfl
  have hMax := mm.maxPages.isLt
  have hFirst := @searchFree_first mm.bitmap count 0#64
    mm.maxPages.toNat (by omega)
  rw [hFound] at hFirst
  rcases hFirst with ⟨⟨_, hHigh⟩, hHere, hNone⟩
  have hBelow : q < mm.maxPages :=
    BitVec.lt_def.mpr (by omega)
  refine ⟨hBelow, (runIsFree_iff_runAt hOk hBelow).mp hHere, ?_⟩
  intro i hRun
  by_contra hLess
  rcases hRun.isFree hOk (by omega) with ⟨hNat, hFree⟩
  rw [hNone _ (by omega) (by omega)] at hFree
  cases hFree

/- Where nothing is found there is no run. -/
theorem not_runAt_of_searchFree
    (hOk : mm.Ok)
    (hCount : count ≠ 0#64)
    (hFound : searchFree mm.bitmap count mm.maxPages.toNat
      0#64 = none)
    (i : Nat) :
    ¬ mm.RunAt count i := by
  intro hRun
  have hZero : (0#64 : U64).toNat = 0 := rfl
  have hMax := mm.maxPages.isLt
  have hLt := hRun.lt hCount
  have hFirst := @searchFree_first mm.bitmap count 0#64
    mm.maxPages.toNat (by omega)
  rw [hFound] at hFirst
  rcases hRun.isFree hOk hLt with ⟨hNat, hFree⟩
  rw [hFirst _ (by omega) (by omega)] at hFree
  cases hFree

/- The `int` that a page number below the last page becomes -/
theorem Ok.signExtend_page
    (hOk : mm.Ok)
    (hBelow : q < mm.maxPages) :
    (q.setWidth 32).slt 0#32 = false ∧
      (q.setWidth 32).signExtend 64 = q := by
  have hMax := hOk.toNat_maxPages
  rw [BitVec.lt_def] at hBelow
  exact signExtend_setWidth_small (by omega)

/- An allocation works on the page that the loops find. -/
theorem pageFor_eq_search
    (hOk : mm.Ok)
    (count : U64) :
    mm.pageFor count =
      searchFree mm.bitmap count mm.maxPages.toNat 0#64 := by
  unfold pageFor findFirstFree
  cases hFound : searchFree mm.bitmap count mm.maxPages.toNat
      0#64 with
  | none => rfl
  | some q =>
      have hBelow := (isLeast_of_searchFree hOk hFound).1
      rcases hOk.signExtend_page hBelow with ⟨hPos, hBack⟩
      simp [hPos, hBack]

end MemoryManager

--------------------
-- The Answer
--------------------

variable {mm : MemoryManager}

/- The answer names the least run, or is -1 without one. -/
theorem toInt_findFirstFree
    {count : U64}
    (hOk : mm.Ok)
    (hCount : count ≠ 0#64) :
    (∀ i : Nat,
      (findFirstFree mm.bitmap mm.maxPages count).toInt = i ↔
        IsLeast {i | mm.RunAt count i} i) ∧
      ((findFirstFree mm.bitmap mm.maxPages count).toInt = -1 ↔
        ∀ i, ¬ mm.RunAt count i) := by
  unfold findFirstFree
  cases hFound : searchFree mm.bitmap count mm.maxPages.toNat
      0#64 with
  | none =>
      have hNone := not_runAt_of_searchFree hOk hCount hFound
      have hMinus : (-1#32 : BitVec 32).toInt = -1 := by decide
      simp only [hMinus]
      refine ⟨?_, fun _ => hNone, fun _ => trivial⟩
      intro i
      constructor
      · intro hEq
        omega
      · intro hLeast
        exact absurd hLeast.1 (hNone i)
  | some q =>
      rcases isLeast_of_searchFree hOk hFound with
        ⟨hBelow, hLeast⟩
      have hInt : (q.setWidth 32).toInt = q.toNat := by
        have hMax := hOk.toNat_maxPages
        rw [BitVec.lt_def] at hBelow
        have hNat : (q.setWidth 32).toNat = q.toNat := by
          rw [BitVec.toNat_setWidth]
          omega
        rw [BitVec.toInt_eq_toNat_of_lt (by omega), hNat]
      simp only [hInt]
      refine ⟨?_, ?_, ?_⟩
      · intro i
        rw [Int.natCast_inj]
        constructor
        · rintro rfl
          exact hLeast
        · exact fun hOther => hLeast.unique hOther
      · intro hEq
        omega
      · intro hNone
        exact absurd hLeast.1 (hNone _)

/- The loops stay inside the bitmap. -/
theorem lt_of_mem_searchReads
    {count bit : U64}
    (hOk : mm.Ok)
    (hRead : bit ∈
      findFirstFreeReads mm.bitmap mm.maxPages count) :
    4 * (bit.toNat / 32) + 4 ≤ mm.bitmapSize.toNat := by
  have hZero : (0#64 : U64).toNat = 0 := rfl
  have hLe := le_of_mem_searchReads hOk.padding
    (by omega) bit hRead
  have hMax := hOk.toNat_maxPages
  have hSize : (16384#64).toNat = 16384 := by decide
  rw [BitVec.le_def] at hLe
  rw [hOk.bitmap_at.2]
  omega

/- Every reachable state has a good manager. -/
theorem physRun_ok
    {memory : Nat → U32}
    {calls : List PhysCall}
    {s : PhysState}
    (hRun : Run physStep (PhysState.boot memory) calls s) :
    ∃ mm, s.memManager = some mm ∧ mm.Ok := by
  have hInv := hRun.invariant (fun s => ∃ mm, s.Inv mm)
    (fun _ _ _ hInv hStep => physStep_inv hInv hStep)
    ⟨_, PhysState.boot_inv memory⟩
  rcases hInv with ⟨mm, hInv⟩
  exact ⟨mm, hInv.mem, hInv.ok⟩

/-
  In every state that the allocator reaches, the answer is
  the least page at which enough free pages start, -1 exactly
  if there is none, and every word read lies in the bitmap.
  The answer depends on the bits read and no others.
-/
theorem findFirstFree_least
    {memory : Nat → U32}
    {calls : List PhysCall}
    {s : PhysState}
    (hRun : Run physStep (PhysState.boot memory) calls s) :
    ∃ mm, s.memManager = some mm ∧
      ∀ count : U64, count ≠ 0#64 →
        (∀ i : Nat,
          (findFirstFree mm.bitmap mm.maxPages count).toInt =
              i ↔
            IsLeast {i | mm.RunAt count i} i) ∧
        ((findFirstFree mm.bitmap mm.maxPages count).toInt =
            -1 ↔
          ∀ i, ¬ mm.RunAt count i) ∧
        (∀ bit ∈ findFirstFreeReads mm.bitmap mm.maxPages count,
          4 * (bit.toNat / 32) + 4 ≤ mm.bitmapSize.toNat) ∧
        ∀ bitmap,
          (∀ bit ∈
              findFirstFreeReads mm.bitmap mm.maxPages count,
            bitmapTest bitmap bit = bitmapTest mm.bitmap bit) →
          findFirstFree bitmap mm.maxPages count =
            findFirstFree mm.bitmap mm.maxPages count := by
  rcases physRun_ok hRun with ⟨mm, hMem, hOk⟩
  refine ⟨mm, hMem, fun count hCount => ?_⟩
  rcases toInt_findFirstFree hOk hCount with ⟨hAt, hNone⟩
  refine ⟨hAt, hNone, fun bit hRead =>
    lt_of_mem_searchReads hOk hRead, fun bitmap hSame => ?_⟩
  unfold findFirstFree
  rw [searchFree_of_reads hSame]

/- One page is free at page `i`. -/
theorem MemoryManager.runAt_one_iff
    (i : Nat) :
    mm.RunAt 1#64 i ↔
      i < mm.maxPages.toNat ∧
        bitmapTest mm.bitmap (BitVec.ofNat 64 i) = false := by
  have hOne : (1#64 : U64).toNat = 1 := rfl
  unfold RunAt
  rw [hOne]
  constructor
  · exact fun hRun => hRun 0 (by omega)
  · intro hFree k hk
    have hZero : k = 0 := by omega
    subst hZero
    exact hFree

/- Page 0 is free after boot. -/
theorem bootManager_runAt_zero
    (memory : Nat → U32) :
    (bootManager memory).RunAt 1#64 0 := by
  rw [runAt_one_iff, bootManager_maxPages]
  refine ⟨by decide, ?_⟩
  exact (bitmapTest_bootManager (by decide)).mpr
    (Or.inl (by decide))

/- The first search after boot finds page 0. -/
theorem findFirstFree_least_boot :
    ∃ mm, (PhysState.boot fun _ => 0#32).memManager = some mm ∧
      (findFirstFree mm.bitmap mm.maxPages 1#64).toInt = 0 := by
  rcases findFirstFree_least
      (Run.nil (PhysState.boot fun _ => 0#32)) with
    ⟨mm, hMem, hAll⟩
  refine ⟨mm, hMem, ?_⟩
  have hBoot : mm = bootManager fun _ => 0#32 :=
    (Option.some.inj hMem).symm
  rw [hBoot] at hAll ⊢
  exact ((hAll 1#64 (by decide)).1 0).mpr
    ⟨bootManager_runAt_zero _, fun _ _ => Nat.zero_le _⟩

--------------------
-- The Failure Value
--------------------

/-
  What a caller that takes 0 for "out of memory" relies on:
  a call for `count` pages that returns 0 found no run of
  that many free pages, and left bitmap and statistics as
  they were.
-/
def ZeroMeansNone
    (memManager : Option MemoryManager)
    (count : U64)
    (result : U64 × Option MemoryManager) : Prop :=
  result.1 = 0#64 →
    ∃ mm mm', memManager = some mm ∧ result.2 = some mm' ∧
      (∀ i, ¬ mm.RunAt count i) ∧
      mm'.bitmap = mm.bitmap ∧ mm'.stats = mm.stats

/- The address of a page -/
theorem toNat_pageToAddr
    (hq : q.toNat < 2 ^ 52) :
    (pageToAddr q).toNat = q.toNat * 4096 := by
  unfold pageToAddr pageShift
  rw [BitVec.toNat_shiftLeft, Nat.shiftLeft_eq]
  omega

/- Only page 0 has address 0. -/
theorem pageToAddr_eq_zero_iff
    (hq : q.toNat < 2 ^ 52) :
    pageToAddr q = 0#64 ↔ q.toNat = 0 := by
  rw [← BitVec.toNat_inj, toNat_pageToAddr hq]
  change _ = 0 ↔ _
  omega

/- A call keeps its word unless the run found is at page 0. -/
theorem zeroMeansNone_physicalAllocPages_iff
    {count : U64}
    (hOk : mm.Ok)
    (hCount : count ≠ 0#64) :
    ZeroMeansNone (some mm) count
        (physicalAllocPages (some mm) count) ↔
      ¬ mm.RunAt count 0 := by
  unfold ZeroMeansNone physicalAllocPages
  rw [withManager_ok hOk, pageFor_eq_search hOk]
  cases hFound : searchFree mm.bitmap count mm.maxPages.toNat
      0#64 with
  | none =>
      have hNone := not_runAt_of_searchFree hOk hCount hFound
      exact ⟨fun _ => hNone 0,
        fun _ _ => ⟨mm, mm, rfl, rfl, hNone, rfl, rfl⟩⟩
  | some q =>
      rcases isLeast_of_searchFree hOk hFound with
        ⟨hBelow, hLeast⟩
      have hMax := hOk.toNat_maxPages
      rw [BitVec.lt_def] at hBelow
      have hZero := pageToAddr_eq_zero_iff
        (show q.toNat < 2 ^ 52 by omega)
      constructor
      · intro hWord hRun
        have hAt : q.toNat = 0 :=
          Nat.le_zero.mp (hLeast.2 hRun)
        rcases hWord (hZero.mpr hAt) with
          ⟨mm₀, _, hMem, _, hNone, _, _⟩
        cases hMem
        exact hNone 0 hRun
      · intro hNot hReturned
        have hAt := hZero.mp hReturned
        exact absurd (hAt ▸ hLeast.1) hNot

/-
  In every state that the allocator reaches: 0 means "no
  memory" if and only if the pages from 0 on are not a run of
  the size asked for.
-/
theorem alloc_zero_means_none_iff
    {memory : Nat → U32}
    {calls : List PhysCall}
    {s : PhysState}
    (hRun : Run physStep (PhysState.boot memory) calls s) :
    ∃ mm, s.memManager = some mm ∧
      (ZeroMeansNone s.memManager 1#64
          (physicalAllocPage s.memManager) ↔
        ¬ mm.RunAt 1#64 0) ∧
      ∀ count : U64, count ≠ 0#64 →
        (ZeroMeansNone s.memManager count
            (physicalAllocPages s.memManager count) ↔
          ¬ mm.RunAt count 0) := by
  rcases physRun_ok hRun with ⟨mm, hMem, hOk⟩
  rw [hMem]
  refine ⟨mm, rfl, ?_, ?_⟩
  · rw [physicalAllocPage_eq]
    exact zeroMeansNone_physicalAllocPages_iff hOk (by decide)
  · intro count hCount
    exact zeroMeansNone_physicalAllocPages_iff hOk hCount

/- The state after boot is one in which 0 is ambiguous. -/
theorem alloc_zero_means_none_iff_boot :
    ¬ ZeroMeansNone (PhysState.boot fun _ => 0#32).memManager
      1#64
      (physicalAllocPage
        (PhysState.boot fun _ => 0#32).memManager) := by
  rcases alloc_zero_means_none_iff
      (Run.nil (PhysState.boot fun _ => 0#32)) with
    ⟨mm, hMem, hIff, _⟩
  rw [hIff, not_not]
  have hBoot : mm = bootManager fun _ => 0#32 :=
    (Option.some.inj hMem).symm
  exact hBoot ▸ bootManager_runAt_zero _

/-
  The first allocation after boot takes page 0 and returns 0:
  frames are free, and the bitmap has changed.
-/
theorem first_alloc_returns_zero :
    ¬ ∀ (memory : Nat → U32) (calls : List PhysCall)
        (s : PhysState),
      Run physStep (PhysState.boot memory) calls s →
        ZeroMeansNone s.memManager 1#64
          (physicalAllocPage s.memManager) := by
  intro hAll
  have hBoot := hAll (fun _ => 0#32) [] _ (.nil _)
  rw [physicalAllocPage_eq] at hBoot
  exact (zeroMeansNone_physicalAllocPages_iff (bootManager_ok _)
    (by decide)).mp hBoot (bootManager_runAt_zero _)

end FeatherOS
