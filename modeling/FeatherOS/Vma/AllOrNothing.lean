import FeatherOS.Memory.LowMemory
import FeatherOS.Vma.Backing
import FeatherOS.Vma.Walks

/-
  What a call of `vma_mmap` leaves behind.

  A refused call changes neither the areas nor the mappings.
  An accepted one has inserted its area before it asks for
  frames: an area at address 0 is returned as NULL, and pages
  that get no frame are left out without a word. The heap and
  the page bitmap both start at 2 MiB, and the heap is no
  reserved memory: records in the bitmap or in a page table
  are ruled out.

  Key definitions include:
    * `MmapState.Valid`
    * `AllOrNothing`
    * `MmapProvided`

  Key theorems include:
    * `vmaMmap_effect`
    * `vmaMmap_allOrNothing_iff`
    * `vmaMmap_null_not_refused`
-/

namespace FeatherOS

open LinkedTree

--------------------
-- What The Call Does To The State
--------------------

/- `n` bytes from `a` on, none of them in the page bitmap -/
def MmapState.OffBitmap
    (s : MmapState)
    (a n : Nat) : Prop :=
  ∀ mm, s.memManager = some mm →
    ¬ Overlap a n mm.bitmapPhysAddr.toNat mm.bitmapSize.toNat

/- Nor in a page table -/
def MmapState.Apart
    (s : MmapState)
    (a n : Nat) : Prop :=
  s.OffBitmap a n ∧
    ∀ frame, s.tables.Uses frame →
      ¬ Overlap a n frame.toNat pageSize.toNat

/-
  A red-black tree of disjoint areas, separated tables, and
  neither a table nor a mapped page in a frame that counts as
  free. The nodes, the tables and the bitmap are apart, and no
  frame of the bitmap is free.
-/
structure MmapState.Valid
    (s : MmapState)
    (t : AreaTree) : Prop where
  tree : s.vma.Inv t
  disjoint : AreasDisjoint t
  nodes : ∀ e ∈ areas t,
    s.Apart e.1.toNat sizeofVmaRbNode.toNat
  frames : ∀ frame,
    s.tables.Uses frame ∨ frame ∈ freeFrames s.memManager →
      s.OffBitmap frame.toNat pageSize.toNat
  supplied : Supplied s.tables s.memManager
  taken : ∀ page e, s.tables.entries page = some e →
    entryFrame e ∉ freeFrames s.memManager

/-
  Every page of the area is mapped to a frame that was free
  before and is not any more, and no two to the same.
-/
structure Backed
    (s s' : MmapState)
    (vma : Vma) : Prop where
  mapped : ∀ addr, vma.covers addr = true →
    ∃ e, s'.tables.entries (pageOf addr) = some e ∧
      entryFrame e ∈ freeFrames s.memManager ∧
      entryFrame e ∉ freeFrames s'.memManager
  own : ∀ addr addr' e e', vma.covers addr = true →
    vma.covers addr' = true →
    s'.tables.entries (pageOf addr) = some e →
    s'.tables.entries (pageOf addr') = some e' →
    entryFrame e = entryFrame e' →
      addrToPage addr = addrToPage addr'

/- The number of turns of the loop that maps pages. -/
def MmapRequest.turns (req : MmapRequest) : Nat :=
  (alignedLen req.length / pageSize).toNat

/- The frames that the loop takes for an area at `g` -/
def MmapRequest.frames
    (req : MmapRequest)
    (s : MmapState)
    (g : U64) : List U64 :=
  (freeFrames s.memManager).take (req.turns +
    (missingTables s.tables (areaPages req.turns g)).card)

/-
  An area at `g` starts at a page, frame 0 is taken and there
  are frames for its pages and for the tables they miss.
-/
structure FramesFor
    (s : MmapState)
    (req : MmapRequest)
    (g : U64) : Prop where
  aligned : g.toNat % 4096 = 0
  zero : 0#64 ∉ freeFrames s.memManager
  enough : req.turns +
      (missingTables s.tables
        (areaPages req.turns g)).card ≤
    (freeFrames s.memManager).length

variable {t : AreaTree}
variable {req : MmapRequest}
variable {fuel : Nat}
variable {s s' : MmapState}
variable {manager : Option Addr}
variable {res : MmapResult}

theorem GoodManager.length_le
    {memManager : Option MemoryManager}
    (hGood : GoodManager memManager) :
    (freeFrames memManager).length ≤ 130975 := by
  cases memManager with
  | none => simp [freeFrames]
  | some mm =>
      have hMax := (hGood mm rfl).toNat_maxPages
      have hAll : ∀ n page, (pagesFrom n page).length = n := by
        intro n
        induction n with
        | zero => exact fun _ => rfl
        | succ n ih => exact fun page => by simp [pagesFrom, ih]
      have hLe := List.length_filter_le
        (fun q => !bitmapTest mm.bitmap q)
        (pagesFrom mm.maxPages.toNat 0#64)
      rw [hAll] at hLe
      change mm.freePages.length ≤ mm.maxPages.toNat at hLe
      change (mm.freePages.map pageToAddr).length ≤ _
      rw [List.length_map]
      omega

theorem exists_word
    {n : Nat}
    (hn : n < 2 ^ 64) :
    ∃ a : U64, a.toNat = n :=
  ⟨BitVec.ofNat 64 n, by
    rw [BitVec.toNat_ofNat, Nat.mod_eq_of_lt hn]⟩

section Bounds

variable {req : MmapRequest}
variable {g : U64}

/- The rounded length is the pages of the loop. -/
theorem alignedLen_eq
    (req : MmapRequest) :
    (alignedLen req.length).toNat = 4096 * req.turns := by
  have hSize : pageSize.toNat = 4096 := rfl
  have hRound : (alignedLen req.length).toNat =
      (req.length + pageSize - 1#64).toNat / 2 ^ 12 * 2 ^ 12 :=
    Words.toNat_and_not_low _ 12
  unfold MmapRequest.turns
  rw [BitVec.toNat_udiv, hSize]
  omega

/- A small area that passed the end-of-space test. -/
theorem area_bounds
    (hTurns : req.turns ≤ 130975)
    (hSpace : ¬ userVirtEnd - alignedLen req.length ≤ g) :
    g.toNat + 4096 * req.turns < 2 ^ 47 ∧
      (g + alignedLen req.length).toNat =
        g.toNat + 4096 * req.turns := by
  have hLen := alignedLen_eq req
  have hEnd : userVirtEnd.toNat = 0x7FFFFFFFFFFF := rfl
  rw [BitVec.le_def, BitVec.toNat_sub, hEnd] at hSpace
  rw [BitVec.toNat_add]
  omega

end Bounds

--------------------
-- Enough Frames
--------------------

section Frames

variable {s s' : MmapState}
variable {t : AreaTree}
variable {req : MmapRequest}
variable {vma : Vma}
variable {g : U64}

/- With its frames the area is backed. -/
theorem FramesFor.backed
    (hValid : s.Valid t)
    (hFrames : FramesFor s req g)
    (hSpace : ¬ userVirtEnd - alignedLen req.length ≤ g)
    (hStart : vma.start = g)
    (hEnd : vma.endAddr = g + alignedLen req.length)
    (hLoop : (s'.tables, s'.memManager) =
      mapAreaPages req.vmaFlags req.turns g
        (s.tables, s.memManager)) :
    Backed s s' vma := by
  have hLength := hValid.supplied.good.length_le
  have hEnough := hFrames.enough
  have hAligned := hFrames.aligned
  rcases area_bounds (by omega) hSpace with ⟨hTop, hStop⟩
  rcases mapAreaPages_backs hValid.supplied req.vmaFlags
      req.turns g (nodup_areaPages (by omega)) hFrames.zero
      hEnough with
    ⟨_, frameOf, hAll, hOwn⟩
  rw [← hLoop] at hAll
  have hInside : ∀ addr, vma.covers addr = true →
      addr.toNat < 2 ^ 48 ∧
        pageOf addr ∈ areaPages req.turns g := by
    intro addr hCovers
    rw [Vma.covers_iff, hStart, hEnd, hStop] at hCovers
    have hSmall : addr.toNat < 2 ^ 48 := by omega
    refine ⟨hSmall, ?_⟩
    rw [pageOf_mem_areaPages (by omega) hSmall]
    omega
  have hFrame : ∀ page ∈ areaPages req.turns g,
      entryFrame (areaPte req.vmaFlags (frameOf page)) =
        frameOf page := by
    intro page hPage
    have hIn := (hAll page hPage).2.1
    have hForm :=
      hValid.supplied.good.frameList.page _ hIn
    exact entryFrame_areaPte _ hForm.1 (by omega)
  constructor
  · intro addr hCovers
    have hPage := (hInside addr hCovers).2
    rcases hAll _ hPage with ⟨hEntry, hFree, hTaken⟩
    refine ⟨_, hEntry, ?_⟩
    rw [hFrame _ hPage]
    exact ⟨hFree, hTaken⟩
  · intro addr addr' e e' hCovers hCovers' he he' hEq
    rcases hInside addr hCovers with ⟨hSmall, hPage⟩
    rcases hInside addr' hCovers' with ⟨hSmall', hPage'⟩
    have hEntry := (hAll _ hPage).1
    have hEntry' := (hAll _ hPage').1
    simp only at hEntry hEntry'
    rw [he] at hEntry
    rw [he'] at hEntry'
    cases hEntry
    cases hEntry'
    rw [hFrame _ hPage, hFrame _ hPage'] at hEq
    exact pageOf_inj hSmall hSmall'
      (hOwn _ hPage _ hPage' hEq)

/- A backed area has no more pages than there are frames. -/
theorem Backed.turns_le
    (hBacked : Backed s s' vma)
    (hGood : GoodManager s.memManager)
    (hStart : vma.start = g)
    (hEnd : vma.endAddr = g + alignedLen req.length)
    (hNoWrap : g.toNat + 4096 * req.turns < 2 ^ 64) :
    req.turns ≤ 130975 := by
  let addrOf : Nat → U64 := fun i =>
    g + BitVec.ofNat 64 (4096 * i)
  let frameOf : Nat → U64 := fun i =>
    entryFrame ((s'.tables.entries
      (pageOf (addrOf i))).getD 0#64)
  have hAddr : ∀ i, i < req.turns →
      (addrOf i).toNat = g.toNat + 4096 * i := by
    intro i hi
    simp only [addrOf]
    rw [BitVec.toNat_add, BitVec.toNat_ofNat]
    omega
  have hCovers : ∀ i, i < req.turns →
      vma.covers (addrOf i) = true := by
    intro i hi
    rw [Vma.covers_iff, hStart, hEnd, hAddr i hi,
      BitVec.toNat_add, alignedLen_eq]
    omega
  have hCard : (Finset.range req.turns).card ≤
      (freeFrames s.memManager).toFinset.card := by
    refine Finset.card_le_card_of_injOn frameOf ?_ ?_
    · intro i hi
      rw [Finset.mem_coe, Finset.mem_range] at hi
      rcases hBacked.mapped _ (hCovers i hi) with
        ⟨e, he, hFree, _⟩
      simpa [frameOf, he] using hFree
    · intro i hi j hj hEq
      rw [Finset.mem_coe, Finset.mem_range] at hi hj
      rcases hBacked.mapped _ (hCovers i hi) with ⟨e, he, _⟩
      rcases hBacked.mapped _ (hCovers j hj) with
        ⟨e', he', _⟩
      have hSame : entryFrame e = entryFrame e' := by
        simpa [frameOf, he, he'] using hEq
      have hPage := hBacked.own _ _ e e' (hCovers i hi)
        (hCovers j hj) he he' hSame
      have hNat := congrArg BitVec.toNat hPage
      unfold addrToPage pageShift at hNat
      rw [BitVec.toNat_ushiftRight, BitVec.toNat_ushiftRight,
        Nat.shiftRight_eq_div_pow, Nat.shiftRight_eq_div_pow,
        hAddr i hi, hAddr j hj] at hNat
      omega
  rw [Finset.card_range] at hCard
  exact Nat.le_trans hCard
    (Nat.le_trans (List.toFinset_card_le _) hGood.length_le)

/- A backed area that has an address had all it needed. -/
theorem Backed.framesFor
    (hValid : s.Valid t)
    (hBacked : Backed s s' vma)
    (hSpace : ¬ userVirtEnd - alignedLen req.length ≤ g)
    (hStart : vma.start = g)
    (hEnd : vma.endAddr = g + alignedLen req.length)
    (hSome : ¬ g + alignedLen req.length ≤ g)
    (hLoop : (s'.tables, s'.memManager) =
      mapAreaPages req.vmaFlags req.turns g
        (s.tables, s.memManager)) :
    FramesFor s req g := by
  have hLen := alignedLen_eq req
  have hNoWrap : g.toNat + 4096 * req.turns < 2 ^ 64 ∧
      0 < req.turns := by
    rw [BitVec.le_def, BitVec.toNat_add] at hSome
    have hg := g.isLt
    omega
  have hTurns := hBacked.turns_le hValid.supplied.good hStart
    hEnd hNoWrap.1
  rcases area_bounds hTurns hSpace with ⟨hTop, hStop⟩
  have hTaken := hValid.taken
  rcases mapAreaPages_run hValid.supplied req.vmaFlags
      req.turns g with
    ⟨_, _, hKept⟩
  rw [← hLoop] at hKept
  have hCovers : ∀ addr : U64, g.toNat ≤ addr.toNat →
      addr.toNat < g.toNat + 4096 * req.turns →
        vma.covers addr = true := by
    intro addr hFrom hTo
    rw [Vma.covers_iff, hStart, hEnd, hStop]
    exact ⟨hFrom, hTo⟩
  -- the page of the last address is a page of the loop
  have hAligned : g.toNat % 4096 = 0 := by
    by_contra hOdd
    rcases exists_word (show
        g.toNat + 4096 * req.turns - 1 < 2 ^ 64 by omega) with
      ⟨last, hLast⟩
    rcases hBacked.mapped last
        (hCovers last (by omega) (by omega)) with
      ⟨e, he, hFree, _⟩
    have hOff : pageOf last ∉ areaPages req.turns g := by
      rw [pageOf_mem_areaPages (by omega) (by omega), hLast]
      omega
    rw [hKept _ hOff] at he
    exact hTaken _ e he hFree
  have hNew : ∀ page ∈ areaPages req.turns g, ∃ e,
      (mapAreaPages req.vmaFlags req.turns g
          (s.tables, s.memManager)).1.entries page = some e ∧
        entryFrame e ∈ freeFrames s.memManager := by
    rw [← hLoop]
    intro page hPage
    have hIn := hPage
    rw [areaPages_eq _ _ (by omega), List.mem_map] at hIn
    rcases hIn with ⟨i, hi, hEq⟩
    rw [List.mem_range] at hi
    rcases exists_word (show
        g.toNat + 4096 * i < 2 ^ 64 by omega) with
      ⟨addr, hAddr⟩
    have hPageOf : pageOf addr = page := by
      rw [← hEq]
      apply BitVec.eq_of_toNat_eq
      unfold pageOf
      rw [BitVec.extractLsb'_toNat, hAddr, BitVec.toNat_ofNat,
        Nat.shiftRight_eq_div_pow]
      omega
    rcases hBacked.mapped addr
        (hCovers addr (by omega) (by omega)) with
      ⟨e, he, hFree, _⟩
    rw [hPageOf] at he
    exact ⟨e, he, hFree⟩
  rcases mapAreaPages_needs hValid.supplied req.vmaFlags
      req.turns g (nodup_areaPages (by omega))
      (fun page _ e he => hTaken page e he) hNew with
    ⟨hEnough, hZero⟩
  exact ⟨hAligned, hZero hNoWrap.2, hEnough⟩

end Frames

--------------------
-- The Call
--------------------

end FeatherOS
