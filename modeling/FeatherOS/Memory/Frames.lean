import FeatherOS.Library.Run
import FeatherOS.Memory.Init

/-
  Who owns which page frame.

  A ledger beside the manager records the frames every
  allocation took and strikes out those a later call frees.
  No frame stands in the ledger twice. The search of
  `find_first_free` reads bits behind the last page, and what
  stops it there is the first padding bit of the bitmap,
  which no operation ever clears.

  Key definitions include:
    * `PhysCall`
    * `PhysState`
    * `physStep`
    * `MemoryManager.Ok`

  Key theorems include:
    * `MemoryManager.pageFor_spec`
    * `physStep_inv`
    * `physical_run_frames_disjoint`
-/

namespace FeatherOS

--------------------
-- Runs Of Pages
--------------------

variable {n : Nat}
variable {page q : U64}

/- The pages of a run that does not wrap -/
theorem mem_pagesFrom_iff
    (hFit : page.toNat + n ≤ 2 ^ 64) :
    q ∈ pagesFrom n page ↔
      page.toNat ≤ q.toNat ∧ q.toNat < page.toNat + n := by
  induction n generalizing page with
  | zero =>
      simp only [pagesFrom, List.not_mem_nil, false_iff]
      omega
  | succ n ih =>
      simp only [pagesFrom, List.mem_cons]
      by_cases hLast : page.toNat + 1 = 2 ^ 64
      · have hn : n = 0 := by omega
        subst hn
        have hq := q.isLt
        simp only [pagesFrom, List.not_mem_nil, or_false]
        constructor
        · rintro rfl
          omega
        · intro hBounds
          exact BitVec.eq_of_toNat_eq (by omega)
      · have hp := page.isLt
        have hNext : (page + 1#64).toNat = page.toNat + 1 :=
          Words.toNat_succ (by omega)
        rw [ih (by omega), hNext]
        constructor
        · rintro (rfl | hBounds)
          · omega
          · omega
        · intro hBounds
          by_cases hEq : q = page
          · exact Or.inl hEq
          · have hNe : q.toNat ≠ page.toNat :=
              fun h => hEq (BitVec.eq_of_toNat_eq h)
            exact Or.inr (by omega)

/- Pages that do not wrap are all above the first one. -/
theorem le_of_mem_pagesFrom
    (hFit : page.toNat + n ≤ 2 ^ 64)
    (hq : q ∈ pagesFrom n page) :
    page.toNat ≤ q.toNat := by
  exact ((mem_pagesFrom_iff hFit).mp hq).1

theorem nodup_pagesFrom
    (hFit : page.toNat + n ≤ 2 ^ 64) :
    (pagesFrom n page).Nodup := by
  induction n generalizing page with
  | zero => simp [pagesFrom]
  | succ n ih =>
      cases n with
      | zero => simp [pagesFrom]
      | succ n =>
          have hNext :
              (page + 1#64).toNat = page.toNat + 1 :=
            Words.toNat_succ (by omega)
          rw [pagesFrom, List.nodup_cons]
          refine ⟨?_, ih (by omega)⟩
          intro hMem
          have hLe := le_of_mem_pagesFrom (by omega) hMem
          omega

variable {bitmap : Nat → U32}

/-
  Clear pages that start below a set bit stay below it.
-/
theorem lt_of_clear_pagesFrom
    {page stop : U64}
    (hStop : bitmapTest bitmap stop = true)
    (hBelow : page < stop)
    (hClear :
      ∀ q ∈ pagesFrom n page, bitmapTest bitmap q = false) :
    page.toNat + n ≤ stop.toNat ∧
      ∀ q ∈ pagesFrom n page, q < stop := by
  induction n generalizing page with
  | zero =>
      rw [BitVec.lt_def] at hBelow
      exact ⟨by omega, by simp [pagesFrom]⟩
  | succ n ih =>
      rw [BitVec.lt_def] at hBelow
      have hNext :
          (page + 1#64).toNat = page.toNat + 1 :=
        Words.toNat_succ (by omega)
      simp only [pagesFrom, List.mem_cons,
        forall_eq_or_imp] at hClear ⊢
      cases n with
      | zero =>
          simp only [pagesFrom, List.not_mem_nil]
          exact ⟨by omega, BitVec.lt_def.mpr hBelow, by simp⟩
      | succ n =>
          have hNe : page + 1#64 ≠ stop := by
            intro hEq
            have hHead := hClear.2 (page + 1#64)
              (by simp [pagesFrom])
            rw [hEq, hStop] at hHead
            simp at hHead
          have hLt : page + 1#64 < stop := by
            have hNat : (page + 1#64).toNat ≠ stop.toNat :=
              fun h => hNe (BitVec.eq_of_toNat_eq h)
            rw [BitVec.lt_def]
            omega
          rcases ih hLt hClear.2 with ⟨hFit, hAll⟩
          exact ⟨by omega, BitVec.lt_def.mpr hBelow, hAll⟩

--------------------
-- The Search
--------------------

theorem runIsFree_iff
    (bitmap : Nat → U32)
    (i j : U64)
    (n : Nat) :
    runIsFree bitmap i n j = true ↔
      ∀ q ∈ pagesFrom n (i + j),
        bitmapTest bitmap q = false := by
  induction n generalizing j with
  | zero => simp [runIsFree, pagesFrom]
  | succ n ih =>
      have hNext : i + j + 1#64 = i + (j + 1#64) :=
        BitVec.add_assoc i j 1#64
      simp only [runIsFree, pagesFrom, List.mem_cons,
        forall_eq_or_imp, hNext, ← ih]
      cases bitmapTest bitmap (i + j) with
      | true => simp
      | false => simp

theorem searchFree_some
    {count i q : U64}
    (hFit : i.toNat + n < 2 ^ 64)
    (hFound : searchFree bitmap count n i = some q) :
    q.toNat < i.toNat + n ∧
      ∀ r ∈ pagesFrom count.toNat q,
        bitmapTest bitmap r = false := by
  induction n generalizing i with
  | zero => simp [searchFree] at hFound
  | succ n ih =>
      unfold searchFree at hFound
      by_cases hRun :
          runIsFree bitmap i count.toNat 0#64 = true
      · rw [if_pos hRun] at hFound
        cases hFound
        rw [runIsFree_iff, BitVec.add_zero] at hRun
        exact ⟨by omega, hRun⟩
      · rw [if_neg hRun] at hFound
        have hNext :
            (i + 1#64).toNat = i.toNat + 1 :=
          Words.toNat_succ (by omega)
        rcases ih (by omega) hFound with ⟨hLt, hClear⟩
        exact ⟨by omega, hClear⟩

/- A small index survives the cut to `int` and back. -/
theorem signExtend_setWidth_small
    {i : U64}
    (hi : i.toNat < 2 ^ 31) :
    (i.setWidth 32).slt 0#32 = false ∧
      (i.setWidth 32).signExtend 64 = i := by
  have hNat : (i.setWidth 32).toNat = i.toNat := by
    rw [BitVec.toNat_setWidth]
    omega
  have hMsb : (i.setWidth 32).msb = false := by
    rw [BitVec.msb_eq_false_iff_two_mul_lt, hNat]
    omega
  constructor
  · rw [BitVec.slt_zero_eq_msb, hMsb]
  · rw [BitVec.signExtend_eq_setWidth_of_msb_false hMsb]
    apply BitVec.eq_of_toNat_eq
    rw [BitVec.toNat_setWidth, hNat]
    omega

variable {P : U64 → Prop}
variable {mm : MemoryManager}

namespace MemoryManager

/- The fields that are fixed at initialisation. -/
def layout
    (mm : MemoryManager) :
    U32 × U64 × U64 × U64 :=
  (mm.magic, mm.maxPages, mm.bitmapPhysAddr, mm.bitmapSize)

/-
  What every operation relies on and keeps: the layout and
  the first bit behind the last page.
-/
structure Ok (mm : MemoryManager) : Prop where
  layout_eq :
    mm.layout =
      (memoryBitmapMagic, 0x1FF9F#64, 0x200000#64, 16384#64)
  padding : bitmapTest mm.bitmap mm.maxPages = true

theorem Ok.magic_eq
    (hOk : mm.Ok) :
    mm.magic = memoryBitmapMagic :=
  congrArg (fun l => l.1) hOk.layout_eq

theorem Ok.maxPages_eq
    (hOk : mm.Ok) :
    mm.maxPages = 0x1FF9F#64 :=
  congrArg (fun l => l.2.1) hOk.layout_eq

theorem Ok.toNat_maxPages
    (hOk : mm.Ok) :
    mm.maxPages.toNat = 130975 := by
  rw [hOk.maxPages_eq]
  decide

theorem Ok.bitmap_at
    (hOk : mm.Ok) :
    mm.bitmapPhysAddr = 0x200000#64 ∧
      mm.bitmapSize = 16384#64 :=
  ⟨congrArg (fun l => l.2.2.1) hOk.layout_eq,
    congrArg (fun l => l.2.2.2) hOk.layout_eq⟩

/- A page found starts a clear run that fits. -/
theorem pageFor_spec
    {count page : U64}
    (hOk : mm.Ok)
    (hFound : mm.pageFor count = some page) :
    page.toNat + count.toNat ≤ mm.maxPages.toNat ∧
      ∀ q ∈ pagesFrom count.toNat page,
        q < mm.maxPages ∧ bitmapTest mm.bitmap q = false := by
  have hMax := hOk.toNat_maxPages
  unfold pageFor findFirstFree at hFound
  cases hSearch :
      searchFree mm.bitmap count mm.maxPages.toNat 0#64 with
  | none => simp [hSearch] at hFound
  | some i =>
      have hZero : (0#64 : U64).toNat = 0 := by decide
      rcases searchFree_some (by omega) hSearch with
        ⟨hLt, hClear⟩
      rcases signExtend_setWidth_small
          (show i.toNat < 2 ^ 31 by omega) with
        ⟨hPos, hBack⟩
      have hPage : i = page := by
        simpa [hSearch, hPos, hBack] using hFound
      subst hPage
      have hBelow : i < mm.maxPages := by
        rw [BitVec.lt_def]
        omega
      rcases lt_of_clear_pagesFrom hOk.padding hBelow
          hClear with
        ⟨hFit, hAll⟩
      exact ⟨hFit, fun q hq => ⟨hAll q hq, hClear q hq⟩⟩

--------------------
-- What The Operations Leave Alone
--------------------

/-
  `mm'` differs from `mm` in the bits of the pages in `P`
  and in the statistics only.
-/
structure Keeps
    (P : U64 → Prop)
    (mm mm' : MemoryManager) : Prop where
  layout_eq : mm'.layout = mm.layout
  test : ∀ q, ¬ P q →
    bitmapTest mm'.bitmap q = bitmapTest mm.bitmap q

/- No bit is cleared. -/
def Grows
    (mm mm' : MemoryManager) : Prop :=
  ∀ q, bitmapTest mm.bitmap q = true →
    bitmapTest mm'.bitmap q = true

variable {mm mm' : MemoryManager}

theorem Keeps.maxPages
    (hKeeps : Keeps P mm mm') :
    mm'.maxPages = mm.maxPages :=
  congrArg (fun l => l.2.1) hKeeps.layout_eq

theorem Keeps.ok
    (hKeeps : Keeps P mm mm')
    (hBelow : ∀ q, P q → q < mm.maxPages)
    (hOk : mm.Ok) :
    mm'.Ok where
  layout_eq := hKeeps.layout_eq.trans hOk.layout_eq
  padding := by
    have hOut : ¬ P mm.maxPages := by
      intro hP
      exact BitVec.lt_irrefl _ (hBelow _ hP)
    rw [hKeeps.maxPages, hKeeps.test _ hOut]
    exact hOk.padding

variable {turn : MemoryManager → U64 → MemoryManager}

/- A loop changes what its turns change. -/
theorem keeps_foldl
    {max : U64}
    (hTurn : ∀ mm page, mm.maxPages = max →
      Keeps (fun q => q = page ∧ P q) mm (turn mm page))
    (pages : List U64)
    (mm : MemoryManager)
    (hMax : mm.maxPages = max) :
    Keeps (fun q => q ∈ pages ∧ P q) mm
      (pages.foldl turn mm) := by
  induction pages generalizing mm with
  | nil => exact ⟨rfl, fun _ _ => rfl⟩
  | cons page pages ih =>
      have hHead := hTurn mm page hMax
      have hTail :=
        ih (turn mm page) (hHead.maxPages.trans hMax)
      refine ⟨hTail.layout_eq.trans hHead.layout_eq, ?_⟩
      intro q hq
      rw [List.foldl_cons, hTail.test q, hHead.test q]
      · intro hIn
        exact hq ⟨by simp [hIn.1], hIn.2⟩
      · intro hIn
        exact hq ⟨by simp [hIn.1], hIn.2⟩

theorem grows_foldl
    (hTurn : ∀ mm page, Grows mm (turn mm page))
    (pages : List U64)
    (mm : MemoryManager) :
    Grows mm (pages.foldl turn mm) := by
  induction pages generalizing mm with
  | nil => exact fun _ h => h
  | cons page pages ih =>
      intro q hq
      exact ih (turn mm page) q (hTurn mm page q hq)

theorem takePage_keeps
    (mm : MemoryManager)
    (page : U64) :
    Keeps (fun q => q = page ∧ True) mm
      (mm.takePage page) := by
  refine ⟨rfl, ?_⟩
  intro q hq
  have hNe : q ≠ page := fun h => hq ⟨h, trivial⟩
  simp [takePage, hNe]

theorem takePage_grows
    (mm : MemoryManager)
    (page : U64) :
    Grows mm (mm.takePage page) := by
  intro q hq
  simp [takePage, hq]

/- The pages of an allocation are set when it is done. -/
theorem test_foldl_takePage
    {pages : List U64}
    (hq : q ∈ pages)
    (mm : MemoryManager) :
    bitmapTest (pages.foldl takePage mm).bitmap q = true := by
  induction pages generalizing mm with
  | nil => simp at hq
  | cons page pages ih =>
      by_cases hTail : q ∈ pages
      · exact ih hTail (mm.takePage page)
      · have hHead : q = page := by
          simpa [hTail] using hq
        have hSet :
            bitmapTest (mm.takePage page).bitmap q = true := by
          simp [takePage, hHead]
        exact grows_foldl takePage_grows pages _ q hSet

theorem releasePage_keeps
    (mm : MemoryManager)
    (page : U64) :
    Keeps (fun q => q = page) mm (mm.releasePage page) := by
  refine ⟨rfl, ?_⟩
  intro q hq
  simp [releasePage, hq]

theorem freeTurn_keeps
    (mm : MemoryManager)
    (page : U64) :
    Keeps (fun q => q = page ∧ q < mm.maxPages) mm
      (mm.freeTurn page) := by
  unfold freeTurn
  by_cases hTurn :
      page < mm.maxPages ∧ bitmapTest mm.bitmap page
  · rw [if_pos hTurn]
    refine ⟨rfl, ?_⟩
    intro q hq
    have hNe : q ≠ page := by
      intro h
      exact hq ⟨h, h ▸ hTurn.1⟩
    exact (mm.releasePage_keeps page).test q hNe
  · rw [if_neg hTurn]
    exact ⟨rfl, fun _ _ => rfl⟩

/-
  To the bitmap, reserving and unreserving are the same: the
  bit of every page below the last is set.
-/
theorem bitmap_markTurn
    (bumpFree bumpReserved : U64 → U64)
    (mm : MemoryManager)
    (page q : U64) :
    bitmapTest
        (mm.markTurn bumpFree bumpReserved page).bitmap q =
      (decide (q = page ∧ q < mm.maxPages) ||
        bitmapTest mm.bitmap q) := by
  unfold markTurn
  by_cases hBelow : page < mm.maxPages
  · by_cases hq : q = page
    · cases hTest : bitmapTest mm.bitmap page with
      | true => simp [hq, hTest, hBelow]
      | false => simp [hq, hTest, hBelow]
    · cases hTest : bitmapTest mm.bitmap page with
      | true => simp [hBelow, hq]
      | false => simp [hBelow, hq]
  · by_cases hq : q = page
    · simp [hq, hBelow]
    · simp [hBelow, hq]

theorem markTurn_keeps
    (bumpFree bumpReserved : U64 → U64)
    (mm : MemoryManager)
    (page : U64) :
    Keeps (fun q => q = page ∧ q < mm.maxPages) mm
      (mm.markTurn bumpFree bumpReserved page) := by
  constructor
  · unfold markTurn
    split
    · cases bitmapTest mm.bitmap page with
      | true => rfl
      | false => rfl
    · rfl
  · intro q hq
    rw [bitmap_markTurn]
    simp [hq]

theorem markTurn_grows
    (bumpFree bumpReserved : U64 → U64)
    (mm : MemoryManager)
    (page : U64) :
    Grows mm (mm.markTurn bumpFree bumpReserved page) := by
  intro q hq
  rw [bitmap_markTurn, hq, Bool.or_true]

end MemoryManager

--------------------
-- The Operations On A Good Manager
--------------------

open MemoryManager

theorem withManager_ok
    {α : Type}
    (hOk : mm.Ok)
    (giveUp : α)
    (body : MemoryManager → α × MemoryManager) :
    withManager (some mm) giveUp body =
      ((body mm).1, some (body mm).2) := by
  simp [withManager, hOk.magic_eq]

/- One page is a run of one page. -/
theorem physicalAllocPage_eq
    (memManager : Option MemoryManager) :
    physicalAllocPage memManager =
      physicalAllocPages memManager 1#64 := by
  unfold physicalAllocPage physicalAllocPages
  rfl

theorem physicalFreePage_eq
    (memManager : Option MemoryManager)
    (addr : U64) :
    physicalFreePage memManager addr =
      physicalFreePages memManager addr 1#64 := by
  unfold physicalFreePage physicalFreePages
  congr 2
  funext mm
  change _ = ((), mm.freeTurn (addrToPage addr))
  unfold freeTurn
  by_cases hOver : mm.maxPages ≤ addrToPage addr
  · have hNot : ¬ addrToPage addr < mm.maxPages :=
      BitVec.not_lt.mpr hOver
    simp [hOver, hNot]
  · have hBelow : addrToPage addr < mm.maxPages :=
      BitVec.not_le.mp hOver
    cases hTest : bitmapTest mm.bitmap (addrToPage addr) with
    | true => simp [hOver, hBelow, hTest]
    | false => simp [hOver, hTest]

/- The frames a call for `count` pages takes. -/
def framesFor
    (memManager : Option MemoryManager)
    (count : U64) : List U64 :=
  (withManager memManager [] fun mm =>
    match mm.pageFor count with
    | none => ([], mm)
    | some page => (pagesFrom count.toNat page, mm)).1

/-
  An allocation takes frames that were free, each of them
  once, and touches no other bit.
-/
theorem physicalAllocPages_spec
    (hOk : mm.Ok)
    (count : U64) :
    ∃ mm', (physicalAllocPages (some mm) count).2 = some mm' ∧
      Keeps (fun q => q ∈ framesFor (some mm) count) mm mm' ∧
      Grows mm mm' ∧
      (framesFor (some mm) count).Nodup ∧
      ∀ q ∈ framesFor (some mm) count,
        q < mm.maxPages ∧
          bitmapTest mm.bitmap q = false ∧
          bitmapTest mm'.bitmap q = true := by
  unfold physicalAllocPages framesFor
  simp only [withManager_ok hOk]
  cases hFound : mm.pageFor count with
  | none =>
      exact ⟨mm, rfl, ⟨rfl, fun _ _ => rfl⟩,
        fun _ h => h, by simp, by simp⟩
  | some page =>
      rcases pageFor_spec hOk hFound with ⟨hFit, hClear⟩
      have hLoop :=
        keeps_foldl (fun mm page _ => takePage_keeps mm page)
          (pagesFrom count.toNat page) mm rfl
      refine ⟨_, rfl, ⟨hLoop.layout_eq, ?_⟩,
        ?_, nodup_pagesFrom (by omega), ?_⟩
      · intro q hq
        exact hLoop.test q (fun h => hq h.1)
      · exact grows_foldl takePage_grows _ mm
      · intro q hq
        exact ⟨(hClear q hq).1, (hClear q hq).2,
          test_foldl_takePage hq mm⟩

theorem physicalFreePages_spec
    (hOk : mm.Ok)
    (addr count : U64) :
    ∃ mm', physicalFreePages (some mm) addr count = some mm' ∧
      Keeps
        (fun q =>
          q ∈ pagesFrom count.toNat (addrToPage addr) ∧
            q < mm.maxPages) mm mm' := by
  unfold physicalFreePages
  rw [withManager_ok hOk]
  refine ⟨_, rfl, keeps_foldl ?_ _ mm rfl⟩
  intro mm₁ page hMax
  rw [← hMax]
  exact freeTurn_keeps mm₁ page

/- What reserving and unreserving have in common. -/
theorem forPages_markTurn_spec
    (bumpFree bumpReserved : U64 → U64)
    (mm : MemoryManager)
    (n : Nat)
    (page : U64) :
    Keeps (fun q => q ∈ pagesFrom n page ∧ q < mm.maxPages)
        mm (forPages (markTurn bumpFree bumpReserved) n page
          mm) ∧
      Grows mm (forPages (markTurn bumpFree bumpReserved) n
        page mm) := by
  constructor
  · refine keeps_foldl ?_ _ mm rfl
    intro mm₁ page hMax
    rw [← hMax]
    exact markTurn_keeps bumpFree bumpReserved mm₁ page
  · exact grows_foldl (markTurn_grows bumpFree bumpReserved)
      _ mm

--------------------
-- The Ledger
--------------------

/- The calls of the physical allocator. -/
inductive PhysCall where
  | allocPage
  | allocPages (count : U64)
  | freePage (addr : U64)
  | freePages (addr count : U64)
  | reserve (addr count : U64)
  | unreserve (addr count : U64)

/-
  The global manager, the frames every allocation so far
  still owns, and all frames ever handed out.
-/
structure PhysState where
  memManager : Option MemoryManager
  live : List (List U64)
  handed : List U64

namespace PhysState

/- An allocation adds its frames to the ledger. -/
def take
    (s : PhysState)
    (frames : List U64)
    (memManager : Option MemoryManager) :
    PhysState where
  memManager := memManager
  live := frames :: s.live
  handed := frames ++ s.handed

/- A free strikes the pages it covers from every entry. -/
def strike
    (s : PhysState)
    (covered : List U64)
    (memManager : Option MemoryManager) :
    PhysState where
  memManager := memManager
  live := s.live.map fun frames =>
    frames.filter (fun q => q ∉ covered)
  handed := s.handed

/- The state after `memory_manager_init`. -/
def boot (memory : Nat → U32) : PhysState where
  memManager := (memoryManagerInit memory).2
  live := []
  handed := []

end PhysState

def physExec
    (s : PhysState) :
    PhysCall → PhysState
  | .allocPage =>
      s.take (framesFor s.memManager 1#64)
        (physicalAllocPage s.memManager).2
  | .allocPages count =>
      s.take (framesFor s.memManager count)
        (physicalAllocPages s.memManager count).2
  | .freePage addr =>
      s.strike [addrToPage addr]
        (physicalFreePage s.memManager addr)
  | .freePages addr count =>
      s.strike (pagesFrom count.toNat (addrToPage addr))
        (physicalFreePages s.memManager addr count)
  | .reserve addr count =>
      { s with
        memManager :=
          physicalReserve s.memManager addr count }
  | .unreserve addr count =>
      { s with
        memManager :=
          physicalUnreserve s.memManager addr count }

def physStep
    (s : PhysState)
    (call : PhysCall)
    (s' : PhysState) : Prop :=
  s' = physExec s call

--------------------
-- The Invariant
--------------------

structure PhysState.Inv
    (s : PhysState)
    (mm : MemoryManager) : Prop where
  mem : s.memManager = some mm
  ok : mm.Ok
  disjoint : s.live.Pairwise List.Disjoint
  nodup : ∀ frames ∈ s.live, frames.Nodup
  marked : ∀ frames ∈ s.live, ∀ q ∈ frames,
    bitmapTest mm.bitmap q = true
  bounded : ∀ q ∈ s.handed, q < mm.maxPages

namespace PhysState.Inv

variable {s : PhysState}
variable {mm mm' : MemoryManager}

theorem take
    {frames : List U64}
    (hInv : s.Inv mm)
    (hKeeps : Keeps (fun q => q ∈ frames) mm mm')
    (hGrows : Grows mm mm')
    (hNodup : frames.Nodup)
    (hFrames : ∀ q ∈ frames, q < mm.maxPages ∧
      bitmapTest mm.bitmap q = false ∧
      bitmapTest mm'.bitmap q = true) :
    (s.take frames (some mm')).Inv mm' where
  mem := rfl
  ok := hKeeps.ok (fun q hq => (hFrames q hq).1) hInv.ok
  disjoint := by
    refine List.pairwise_cons.mpr ⟨?_, hInv.disjoint⟩
    intro old hOld q hq hqOld
    have hSet := hInv.marked old hOld q hqOld
    rw [(hFrames q hq).2.1] at hSet
    simp at hSet
  nodup := by
    intro entry hEntry
    rcases List.mem_cons.mp hEntry with rfl | hOld
    · exact hNodup
    · exact hInv.nodup entry hOld
  marked := by
    intro entry hEntry q hq
    rcases List.mem_cons.mp hEntry with rfl | hOld
    · exact (hFrames q hq).2.2
    · exact hGrows q (hInv.marked entry hOld q hq)
  bounded := by
    intro q hq
    rw [hKeeps.maxPages]
    rcases List.mem_append.mp hq with hNew | hOld
    · exact (hFrames q hNew).1
    · exact hInv.bounded q hOld

theorem strike
    {covered : List U64}
    (hInv : s.Inv mm)
    (hKeeps :
      Keeps (fun q => q ∈ covered ∧ q < mm.maxPages) mm mm') :
    (s.strike covered (some mm')).Inv mm' where
  mem := rfl
  ok := hKeeps.ok (fun q hq => hq.2) hInv.ok
  disjoint := by
    refine List.pairwise_map.mpr (hInv.disjoint.imp ?_)
    intro a b hDisjoint q hqa hqb
    exact hDisjoint (List.mem_of_mem_filter hqa)
      (List.mem_of_mem_filter hqb)
  nodup := by
    intro entry hEntry
    rcases List.mem_map.mp hEntry with ⟨old, hOld, rfl⟩
    exact (hInv.nodup old hOld).filter _
  marked := by
    intro entry hEntry q hq
    rcases List.mem_map.mp hEntry with ⟨old, hOld, rfl⟩
    rcases List.mem_filter.mp hq with ⟨hqOld, hOut⟩
    rw [hKeeps.test q]
    · exact hInv.marked old hOld q hqOld
    · intro hIn
      simp [hIn.1] at hOut
  bounded := by
    intro q hq
    rw [hKeeps.maxPages]
    exact hInv.bounded q hq

theorem mark
    (hInv : s.Inv mm)
    (hKeeps : Keeps (fun q => P q ∧ q < mm.maxPages) mm mm')
    (hGrows : Grows mm mm') :
    { s with memManager := some mm' }.Inv mm' where
  mem := rfl
  ok := hKeeps.ok (fun q hq => hq.2) hInv.ok
  disjoint := hInv.disjoint
  nodup := hInv.nodup
  marked := by
    intro frames hFrames q hq
    exact hGrows q (hInv.marked frames hFrames q hq)
  bounded := by
    intro q hq
    rw [hKeeps.maxPages]
    exact hInv.bounded q hq

end PhysState.Inv

/- One call keeps the invariant. -/
theorem physStep_inv
    {s s' : PhysState}
    {call : PhysCall}
    (hInv : ∃ mm, s.Inv mm)
    (hStep : physStep s call s') :
    ∃ mm, s'.Inv mm := by
  rcases hInv with ⟨mm, hInv⟩
  unfold physStep at hStep
  subst hStep
  cases call with
  | allocPage =>
      rcases physicalAllocPages_spec hInv.ok 1#64 with
        ⟨mm', hRes, hKeeps, hGrows, hNodup, hFrames⟩
      simp only [physExec]
      rw [physicalAllocPage_eq, hInv.mem, hRes]
      exact ⟨mm', hInv.take hKeeps hGrows hNodup hFrames⟩
  | allocPages count =>
      rcases physicalAllocPages_spec hInv.ok count with
        ⟨mm', hRes, hKeeps, hGrows, hNodup, hFrames⟩
      simp only [physExec]
      rw [hInv.mem, hRes]
      exact ⟨mm', hInv.take hKeeps hGrows hNodup hFrames⟩
  | freePage addr =>
      rcases physicalFreePages_spec hInv.ok addr 1#64 with
        ⟨mm', hRes, hKeeps⟩
      simp only [physExec]
      rw [physicalFreePage_eq, hInv.mem, hRes]
      exact ⟨mm', hInv.strike hKeeps⟩
  | freePages addr count =>
      rcases physicalFreePages_spec hInv.ok addr count with
        ⟨mm', hRes, hKeeps⟩
      simp only [physExec]
      rw [hInv.mem, hRes]
      exact ⟨mm', hInv.strike hKeeps⟩
  | reserve addr count =>
      simp only [physExec, physicalReserve]
      rw [hInv.mem, withManager_ok hInv.ok]
      have hSpec :=
        forPages_markTurn_spec (fun free => free - 1#64)
          (fun reserved => reserved + 1#64) mm count.toNat
          (addrToPage addr)
      exact ⟨_, hInv.mark hSpec.1 hSpec.2⟩
  | unreserve addr count =>
      simp only [physExec, physicalUnreserve]
      rw [hInv.mem, withManager_ok hInv.ok]
      have hSpec :=
        forPages_markTurn_spec (fun free => free + 1#64)
          (fun reserved => reserved - 1#64) mm count.toNat
          (addrToPage addr)
      exact ⟨_, hInv.mark hSpec.1 hSpec.2⟩

theorem bootManager_ok
    (memory : Nat → U32) :
    (bootManager memory).Ok where
  layout_eq := by
    unfold layout
    rw [bootManager_maxPages, bootManager_bitmapSize]
    rfl
  padding := by
    rw [bootManager_maxPages]
    have hFree := @bitmapTest_bootManager memory 0x1FF9F#64
      (by decide)
    apply Bool.eq_true_of_not_eq_false
    rw [hFree]
    unfold isBootFree
    decide

theorem PhysState.boot_inv
    (memory : Nat → U32) :
    (PhysState.boot memory).Inv (bootManager memory) where
  mem := rfl
  ok := bootManager_ok memory
  disjoint := List.Pairwise.nil
  nodup := by simp [PhysState.boot]
  marked := by simp [PhysState.boot]
  bounded := by simp [PhysState.boot]

--------------------
-- Every Run
--------------------

/- A run of pages is recorded from the address returned. -/
theorem framesFor_addr
    {count : U64}
    (hOk : mm.Ok)
    (hSome : framesFor (some mm) count ≠ []) :
    framesFor (some mm) count =
      pagesFrom count.toNat
        (addrToPage
          (physicalAllocPages (some mm) count).1) := by
  unfold framesFor physicalAllocPages at *
  simp only [withManager_ok hOk] at *
  cases hFound : mm.pageFor count with
  | none => simp [hFound] at hSome
  | some page =>
      rcases pageFor_spec hOk hFound with ⟨hFit, _⟩
      have hMax := hOk.toNat_maxPages
      have hBack : addrToPage (pageToAddr page) = page := by
        unfold addrToPage pageToAddr pageShift
        apply BitVec.eq_of_toNat_eq
        rw [BitVec.toNat_ushiftRight, BitVec.toNat_shiftLeft,
          Nat.shiftLeft_eq, Nat.shiftRight_eq_div_pow]
        omega
      simp only [hBack]

/-
  Whatever the calls, the live allocations own disjoint sets
  of frames, the bit of every live frame is set, and no frame
  behind the last page was ever handed out.
-/
theorem physical_run_frames_disjoint
    {memory : Nat → U32}
    {calls : List PhysCall}
    {s : PhysState}
    (hRun : Run physStep (PhysState.boot memory) calls s) :
    s.live.Pairwise List.Disjoint ∧
      (∀ frames ∈ s.live, frames.Nodup) ∧
      ∃ mm, s.memManager = some mm ∧
        (∀ frames ∈ s.live, ∀ q ∈ frames,
          bitmapTest mm.bitmap q = true) ∧
        (∀ q ∈ s.handed, q < mm.maxPages) ∧
        ∀ count, framesFor (some mm) count ≠ [] →
          framesFor (some mm) count =
            pagesFrom count.toNat (addrToPage
              (physicalAllocPages (some mm) count).1) := by
  have hInv :=
    hRun.invariant (fun s => ∃ mm, s.Inv mm)
      (fun _ _ _ hInv hStep => physStep_inv hInv hStep)
      ⟨_, PhysState.boot_inv memory⟩
  rcases hInv with ⟨mm, hInv⟩
  exact ⟨hInv.disjoint, hInv.nodup, mm, hInv.mem,
    hInv.marked, hInv.bounded,
    fun count hSome => framesFor_addr hInv.ok hSome⟩

theorem physical_run_frames_disjoint_two :
    ∃ s, Run physStep (PhysState.boot fun _ => 0)
        [.allocPage, .allocPages 2] s ∧
      s.live.Pairwise List.Disjoint := by
  have hRun :
      Run physStep (PhysState.boot fun _ => 0)
        [.allocPage, .allocPages 2] _ :=
    .cons rfl (.cons rfl (.nil _))
  exact ⟨_, hRun, (physical_run_frames_disjoint hRun).1⟩

end FeatherOS
