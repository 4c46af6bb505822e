import FeatherOS.Memory.Frames
import Mathlib.Order.Interval.Finset.Nat

/-
  The counter `free_pages` beside the bitmap.

  The drift of a manager is how far its counter is ahead of
  the clear bits. `memory_manager_init` leaves a drift of
  65540 pages, since it counts every page as free. Allocating,
  freeing and reserving keep the drift; `physical_unreserve`
  adds two for every clear page, which it marks as taken and
  counts as freed.

  Key definitions include:
    * `MemoryManager.drift`
    * `unreserveMarks`
    * `PhysState.FreePagesExact`

  Key theorems include:
    * `bootManager_drift`
    * `physStep_drift`
    * `physical_run_freePages_wrong`
-/

namespace FeatherOS

open MemoryManager

--------------------
-- The Drift
--------------------

/- The clear bits among the first `max_pages`. -/
def MemoryManager.clearPages (mm : MemoryManager) : Nat :=
  Bitmap.clears mm.bitmap mm.maxPages.toNat

def MemoryManager.drift (mm : MemoryManager) : U64 :=
  mm.stats.freePages - BitVec.ofNat 64 mm.clearPages

theorem MemoryManager.clearPages_le
    (mm : MemoryManager) :
    mm.clearPages ≤ mm.maxPages.toNat := by
  have hCard :=
    Finset.card_filter_le (Finset.range mm.maxPages.toNat)
      (fun i => Bitmap.test mm.bitmap i = false)
  simpa [clearPages, Bitmap.clears, Bitmap.clearBits]
    using hCard

/- The counter is right when the drift is zero. -/
theorem MemoryManager.freePages_eq_iff_drift
    (mm : MemoryManager) :
    mm.stats.freePages.toNat = mm.clearPages ↔
      mm.drift = 0#64 := by
  have hLe := mm.clearPages_le
  have hLt := mm.maxPages.isLt
  have hNat :
      (BitVec.ofNat 64 mm.clearPages).toNat = mm.clearPages := by
    rw [BitVec.toNat_ofNat]
    omega
  unfold drift
  rw [BitVec.sub_eq_iff_eq_add, BitVec.zero_add,
    ← BitVec.toNat_inj, hNat]

--------------------
-- One Page
--------------------

variable {mm : MemoryManager}
variable {page : U64}

/- Setting a clear bit below the last page. -/
theorem clearPages_bitmapSet
    (hBelow : page < mm.maxPages)
    (hClear : bitmapTest mm.bitmap page = false) :
    Bitmap.clears (bitmapSet mm.bitmap page)
        mm.maxPages.toNat + 1 =
      mm.clearPages :=
  Bitmap.clears_set (BitVec.lt_def.mp hBelow) hClear

theorem takePage_drift
    (hBelow : page < mm.maxPages)
    (hClear : bitmapTest mm.bitmap page = false) :
    (mm.takePage page).drift = mm.drift := by
  have hOne :
      (mm.takePage page).clearPages + 1 = mm.clearPages :=
    clearPages_bitmapSet hBelow hClear
  unfold drift
  rw [← hOne, BitVec.ofNat_add]
  change mm.stats.freePages - 1#64 - _ = _
  generalize BitVec.ofNat 64 (mm.takePage page).clearPages = x
  grind

theorem releasePage_drift
    (hBelow : page < mm.maxPages)
    (hSet : bitmapTest mm.bitmap page = true) :
    (mm.releasePage page).drift = mm.drift := by
  have hOne :
      (mm.releasePage page).clearPages = mm.clearPages + 1 :=
    Bitmap.clears_clr (BitVec.lt_def.mp hBelow) hSet
  unfold drift
  rw [hOne, BitVec.ofNat_add]
  change mm.stats.freePages + 1#64 - _ = _
  grind

theorem freeTurn_drift
    (mm : MemoryManager)
    (page : U64) :
    (mm.freeTurn page).drift = mm.drift := by
  unfold freeTurn
  by_cases hTurn :
      page < mm.maxPages ∧ bitmapTest mm.bitmap page
  · rw [if_pos hTurn]
    exact releasePage_drift hTurn.1 hTurn.2
  · rw [if_neg hTurn]

/- A page that reserving or unreserving really marks. -/
def MemoryManager.Marks
    (mm : MemoryManager)
    (page : U64) : Prop :=
  page < mm.maxPages ∧ bitmapTest mm.bitmap page = false

instance
    (mm : MemoryManager)
    (page : U64) :
    Decidable (mm.Marks page) :=
  inferInstanceAs (Decidable (_ ∧ _))

/-
  Marking takes a clear bit from the count and moves the
  counter by `delta`.
-/
theorem markTurn_drift
    (delta : U64)
    {bumpFree bumpReserved : U64 → U64}
    (hBump : ∀ free, bumpFree free = free + delta)
    (mm : MemoryManager)
    (page : U64) :
    (mm.markTurn bumpFree bumpReserved page).drift =
      if mm.Marks page then
        mm.drift + delta + 1#64
      else
        mm.drift := by
  unfold markTurn
  by_cases hBelow : page < mm.maxPages
  · cases hTest : bitmapTest mm.bitmap page with
    | true =>
        have hNot : ¬ mm.Marks page := by
          simp [Marks, hTest]
        rw [if_pos hBelow, if_neg hNot]
        rfl
    | false =>
        have hMarks : mm.Marks page := ⟨hBelow, hTest⟩
        have hOne := clearPages_bitmapSet hBelow hTest
        rw [if_pos hBelow, if_pos hMarks]
        change bumpFree mm.stats.freePages -
          BitVec.ofNat 64
            (Bitmap.clears (bitmapSet mm.bitmap page)
              mm.maxPages.toNat) = _
        unfold drift
        rw [hBump, ← hOne, BitVec.ofNat_add]
        generalize BitVec.ofNat 64
          (Bitmap.clears (bitmapSet mm.bitmap page)
            mm.maxPages.toNat) = x
        grind
  · have hNot : ¬ mm.Marks page := fun h => hBelow h.1
    rw [if_neg hBelow, if_neg hNot]

theorem reserveTurn_drift
    (mm : MemoryManager)
    (page : U64) :
    (mm.reserveTurn page).drift = mm.drift := by
  unfold reserveTurn
  rw [markTurn_drift (-1#64)
    (fun free => BitVec.sub_eq_add_neg free 1#64)]
  split
  · grind
  · rfl

theorem unreserveTurn_drift
    (mm : MemoryManager)
    (page : U64) :
    (mm.unreserveTurn page).drift =
      if mm.Marks page then
        mm.drift + 2#64
      else
        mm.drift := by
  unfold unreserveTurn
  rw [markTurn_drift 1#64 (fun _ => rfl)]
  split
  · grind
  · rfl

--------------------
-- Loops
--------------------

/- A loop whose turns keep the drift keeps it. -/
theorem forPages_drift
    {turn : MemoryManager → U64 → MemoryManager}
    (hTurn : ∀ mm page, (turn mm page).drift = mm.drift)
    (n : Nat)
    (page : U64)
    (mm : MemoryManager) :
    (forPages turn n page mm).drift = mm.drift := by
  unfold forPages
  induction pagesFrom n page generalizing mm with
  | nil => rfl
  | cons page pages ih =>
      rw [List.foldl_cons, ih, hTurn]

/-
  Taking distinct free pages: a page taken earlier is none of
  those to come, so each is still clear at its turn.
-/
theorem foldl_takePage_drift
    {pages : List U64}
    (hNodup : pages.Nodup)
    (hClear : ∀ q ∈ pages, q < mm.maxPages ∧
      bitmapTest mm.bitmap q = false) :
    (pages.foldl takePage mm).drift = mm.drift := by
  induction pages generalizing mm with
  | nil => rfl
  | cons page pages ih =>
      rcases List.nodup_cons.mp hNodup with ⟨hFresh, hRest⟩
      have hPage := hClear page (by simp)
      have hStill : ∀ q ∈ pages,
          q < (mm.takePage page).maxPages ∧
            bitmapTest (mm.takePage page).bitmap q = false := by
        intro q hq
        have hOld := hClear q (by simp [hq])
        have hNe : q ≠ page := by
          intro h
          exact hFresh (h ▸ hq)
        exact ⟨hOld.1, by simp [takePage, hNe, hOld.2]⟩
      rw [List.foldl_cons, ih hRest hStill,
        takePage_drift hPage.1 hPage.2]

/- How many pages an unreserving loop marks. -/
def unreserveMarks : MemoryManager → List U64 → Nat
  | _, [] => 0
  | mm, page :: pages =>
      (if mm.Marks page then 1 else 0) +
        unreserveMarks (mm.unreserveTurn page) pages

theorem foldl_unreserveTurn_drift
    (pages : List U64)
    (mm : MemoryManager) :
    (pages.foldl unreserveTurn mm).drift =
      mm.drift +
        BitVec.ofNat 64 (2 * unreserveMarks mm pages) := by
  induction pages generalizing mm with
  | nil => simp [unreserveMarks]
  | cons page pages ih =>
      rw [List.foldl_cons, ih, unreserveTurn_drift,
        unreserveMarks]
      by_cases hMarks : mm.Marks page
      · rw [if_pos hMarks, if_pos hMarks, Nat.mul_add,
          BitVec.ofNat_add, BitVec.add_assoc]
      · rw [if_neg hMarks, if_neg hMarks, Nat.zero_add]

--------------------
-- The Start
--------------------

theorem bootManager_clearPages
    (memory : Nat → U32) :
    (bootManager memory).clearPages = 65435 := by
  have hMax : (bootManager memory).maxPages.toNat = 130975 := by
    rw [bootManager_maxPages]
    decide
  have hSet :
      Bitmap.clearBits (bootManager memory).bitmap 130975 =
        Finset.range 0x9F ∪
          (Finset.Ico 0x100 0x200 ∪
            Finset.Ico 0x204 0x10000) := by
    ext i
    rw [Bitmap.mem_clearBits]
    simp only [Finset.mem_union, Finset.mem_range,
      Finset.mem_Ico]
    by_cases hi : i < 130975
    · have hNat : (BitVec.ofNat 64 i).toNat = i := by
        rw [BitVec.toNat_ofNat]
        omega
      have hBit :=
        @bitmapTest_bootManager memory (BitVec.ofNat 64 i)
          (by omega)
      unfold bitmapTest isBootFree at hBit
      rw [hNat] at hBit
      rw [hBit]
      omega
    · omega
  unfold clearPages Bitmap.clears
  rw [hMax, hSet, Finset.card_union_of_disjoint,
    Finset.card_union_of_disjoint]
  · simp
  · rw [Finset.disjoint_left]
    intro i
    simp only [Finset.mem_Ico]
    omega
  · rw [Finset.disjoint_left]
    intro i
    simp only [Finset.mem_range, Finset.mem_union,
      Finset.mem_Ico]
    omega

/- The counter starts at `max_pages`. -/
theorem bootManager_drift
    (memory : Nat → U32) :
    (bootManager memory).drift = 65540#64 := by
  have hFree :
      (bootManager memory).stats.freePages = 0x1FF9F#64 :=
    bootManager_maxPages memory
  unfold drift
  rw [hFree, bootManager_clearPages]
  decide

--------------------
-- Every Run
--------------------

/- The pages that one call marks by unreserving them. -/
def PhysState.marks
    (s : PhysState) :
    PhysCall → Nat
  | .unreserve addr count =>
      match s.memManager with
      | none => 0
      | some mm =>
          unreserveMarks mm
            (pagesFrom count.toNat (addrToPage addr))
  | _ => 0

/- The same over a sequence of calls. -/
def PhysState.runMarks : PhysState → List PhysCall → Nat
  | _, [] => 0
  | s, call :: calls =>
      s.marks call + (physExec s call).runMarks calls

/- `free_pages` is the number of clear bits. -/
def PhysState.FreePagesExact (s : PhysState) : Prop :=
  ∃ mm, s.memManager = some mm ∧
    mm.stats.freePages.toNat = mm.clearPages

theorem physicalAllocPages_drift
    {mm mm' : MemoryManager}
    {count : U64}
    (hOk : mm.Ok)
    (hRes :
      (physicalAllocPages (some mm) count).2 = some mm') :
    mm'.drift = mm.drift := by
  unfold physicalAllocPages at hRes
  rw [withManager_ok hOk] at hRes
  cases hFound : mm.pageFor count with
  | none =>
      simp only [hFound, Option.some.injEq] at hRes
      rw [← hRes]
  | some page =>
      rcases pageFor_spec hOk hFound with ⟨hFit, hClear⟩
      simp only [hFound, Option.some.injEq] at hRes
      rw [← hRes]
      exact foldl_takePage_drift (nodup_pagesFrom (by omega))
        hClear

/- What one call does to the drift. -/
theorem physStep_drift
    {s s' : PhysState}
    {call : PhysCall}
    (hInv : s.Inv mm)
    (hStep : physStep s call s') :
    ∃ mm', s'.Inv mm' ∧
      mm'.drift =
        mm.drift + BitVec.ofNat 64 (2 * s.marks call) := by
  rcases physStep_inv ⟨mm, hInv⟩ hStep with ⟨mm', hInv'⟩
  refine ⟨mm', hInv', ?_⟩
  have hMem := hInv'.mem
  unfold physStep at hStep
  subst hStep
  cases call with
  | allocPage =>
      simp only [physExec, PhysState.take,
        physicalAllocPage_eq, hInv.mem] at hMem
      simpa [PhysState.marks] using
        physicalAllocPages_drift hInv.ok hMem
  | allocPages count =>
      simp only [physExec, PhysState.take, hInv.mem] at hMem
      simpa [PhysState.marks] using
        physicalAllocPages_drift hInv.ok hMem
  | freePage addr =>
      simp only [physExec, PhysState.strike,
        physicalFreePage_eq, hInv.mem, physicalFreePages,
        withManager_ok hInv.ok, Option.some.injEq] at hMem
      rw [← hMem]
      simpa [PhysState.marks] using
        forPages_drift freeTurn_drift _ _ mm
  | freePages addr count =>
      simp only [physExec, PhysState.strike, hInv.mem,
        physicalFreePages, withManager_ok hInv.ok,
        Option.some.injEq] at hMem
      rw [← hMem]
      simpa [PhysState.marks] using
        forPages_drift freeTurn_drift _ _ mm
  | reserve addr count =>
      simp only [physExec, hInv.mem, physicalReserve,
        withManager_ok hInv.ok, Option.some.injEq] at hMem
      rw [← hMem]
      simpa [PhysState.marks] using
        forPages_drift reserveTurn_drift _ _ mm
  | unreserve addr count =>
      simp only [physExec, hInv.mem, physicalUnreserve,
        withManager_ok hInv.ok, Option.some.injEq] at hMem
      rw [← hMem]
      simp only [PhysState.marks, hInv.mem]
      exact foldl_unreserveTurn_drift _ mm

/- The drift after a run is set by the pages it unreserved. -/
theorem physRun_drift
    {s t : PhysState}
    {calls : List PhysCall}
    (hInv : s.Inv mm)
    (hRun : Run physStep s calls t) :
    ∃ mm', t.Inv mm' ∧
      mm'.drift =
        mm.drift + BitVec.ofNat 64 (2 * s.runMarks calls) := by
  induction hRun generalizing mm with
  | nil s =>
      exact ⟨mm, hInv, by simp [PhysState.runMarks]⟩
  | @cons s t u call calls hStep _ ih =>
      rcases physStep_drift hInv hStep with
        ⟨mm₁, hInv₁, hDrift₁⟩
      rcases ih hInv₁ with ⟨mm₂, hInv₂, hDrift₂⟩
      refine ⟨mm₂, hInv₂, ?_⟩
      unfold physStep at hStep
      rw [hDrift₂, hDrift₁, PhysState.runMarks, Nat.mul_add,
        BitVec.ofNat_add, ← BitVec.add_assoc, hStep]

theorem boot_freePages_wrong
    (memory : Nat → U32) :
    ¬ (PhysState.boot memory).FreePagesExact := by
  intro hExact
  rcases hExact with ⟨mm, hMem, hCount⟩
  have hBoot : mm = bootManager memory := by
    rw [(PhysState.boot_inv memory).mem] at hMem
    exact (Option.some.inj hMem).symm
  rw [freePages_eq_iff_drift, hBoot, bootManager_drift]
    at hCount
  exact absurd hCount (by decide)

/-
  No run keeps the counter right: it is wrong from the start.
  At the end of a run it is right only if the pages unreserved
  on the way have turned the drift around modulo `2 ^ 64`.
-/
theorem physical_run_freePages_wrong
    {memory : Nat → U32}
    {calls : List PhysCall}
    {s : PhysState}
    (hRun : Run physStep (PhysState.boot memory) calls s) :
    (¬ ∀ done rest t, calls = done ++ rest →
        Run physStep (PhysState.boot memory) done t →
          t.FreePagesExact) ∧
      (s.FreePagesExact ↔
        (65540 + 2 * (PhysState.boot memory).runMarks calls) %
          2 ^ 64 = 0) := by
  constructor
  · intro hAll
    exact boot_freePages_wrong memory
      (hAll [] calls _ rfl (.nil _))
  · rcases physRun_drift (PhysState.boot_inv memory) hRun with
      ⟨mm, hInv, hDrift⟩
    have hExact :
        s.FreePagesExact ↔ mm.drift = 0#64 := by
      rw [← freePages_eq_iff_drift]
      constructor
      · intro h
        rcases h with ⟨mm₁, hMem, hCount⟩
        rw [hInv.mem] at hMem
        cases hMem
        exact hCount
      · intro hCount
        exact ⟨mm, hInv.mem, hCount⟩
    rw [hExact, hDrift, bootManager_drift,
      ← BitVec.ofNat_add, ← BitVec.toNat_inj,
      BitVec.toNat_ofNat]
    exact Iff.rfl

/- Pages are taken, given back and unreserved. -/
def threePhysCalls : List PhysCall :=
  [.allocPages 2, .freePage 0, .unreserve 0x5000 1]

theorem unreserveMarks_le
    (mm : MemoryManager)
    (pages : List U64) :
    unreserveMarks mm pages ≤ pages.length := by
  induction pages generalizing mm with
  | nil => exact Nat.le_refl 0
  | cons page pages ih =>
      have hRest := ih (mm.unreserveTurn page)
      rw [unreserveMarks, List.length_cons]
      split <;> omega

theorem runMarks_threePhysCalls
    (s : PhysState) :
    s.runMarks threePhysCalls ≤ 1 := by
  have hLast : ∀ s : PhysState,
      s.marks (.unreserve 0x5000 1) ≤ 1 := by
    intro s
    unfold PhysState.marks
    cases s.memManager with
    | none => exact Nat.zero_le 1
    | some mm => exact unreserveMarks_le mm _
  have hMarks := hLast
    (physExec (physExec s (.allocPages 2)) (.freePage 0))
  unfold threePhysCalls
  simp only [PhysState.runMarks, PhysState.marks]
    at hMarks ⊢
  omega

theorem physical_run_freePages_wrong_three :
    ∃ s,
      Run physStep (PhysState.boot fun _ => 0) threePhysCalls
        s ∧
      ¬ s.FreePagesExact := by
  have hRun :
      Run physStep (PhysState.boot fun _ => 0) threePhysCalls
        _ :=
    .cons rfl (.cons rfl (.cons rfl (.nil _)))
  refine ⟨_, hRun, ?_⟩
  rw [(physical_run_freePages_wrong hRun).2]
  have hMarks :=
    runMarks_threePhysCalls (PhysState.boot fun _ => 0)
  generalize PhysState.runMarks _ _ = marks at hMarks ⊢
  omega

/- The counter is wrong before the first call. -/
theorem freePages_not_exact_after_init :
    ¬ ∀ (memory : Nat → U32) calls s,
      Run physStep (PhysState.boot memory) calls s →
        s.FreePagesExact := by
  intro hAll
  exact boot_freePages_wrong (fun _ => 0)
    (hAll (fun _ => 0) [] _ (.nil _))

end FeatherOS
