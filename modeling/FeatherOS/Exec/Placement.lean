import FeatherOS.Exec.Loading
import Mathlib.Data.Finset.Max

/-
  Where a program ends up in memory.

  A segment is linked for the addresses from `p_vaddr` on, and
  the entry point is one of them. The loader adds the base of
  the user's code to the address of a segment, but not to the
  entry point.

  Key definitions include:
    * `ElfExecutable`
    * `ElfPlacedAt`
    * `ElfPlaced`

  Key theorems include:
    * `elfLoad_relocated`
    * `elfLoad_placed_iff`
-/

namespace FeatherOS

/- A valid image whose segments fit and lie apart -/
structure ElfExecutable (im : ElfImage) : Prop where
  valid : ElfValid im
  fits : ElfFits im
  sizes : ∀ i ∈ elfLoads im,
    elfPhdrAt im i pFilesz ≤ elfPhdrAt im i pMemsz
  apart : ∀ i ∈ elfLoads im, ∀ j ∈ elfLoads im, i ≠ j →
    Extent.Apart
      ⟨elfPhdrAt im i pVaddr, elfPhdrAt im i pMemsz⟩
      ⟨elfPhdrAt im j pVaddr, elfPhdrAt im j pMemsz⟩

instance (im : ElfImage) :
    Decidable (ElfExecutable im) :=
  decidable_of_iff
    (ElfValid im ∧ ElfFits im ∧
      (∀ i ∈ elfLoads im,
        elfPhdrAt im i pFilesz ≤ elfPhdrAt im i pMemsz) ∧
      ∀ i ∈ elfLoads im, ∀ j ∈ elfLoads im, i ≠ j →
        Extent.Apart
          ⟨elfPhdrAt im i pVaddr, elfPhdrAt im i pMemsz⟩
          ⟨elfPhdrAt im j pVaddr, elfPhdrAt im j pMemsz⟩)
    ⟨fun ⟨hValid, hFits, hSizes, hApart⟩ =>
        ⟨hValid, hFits, hSizes, hApart⟩,
      fun hExec =>
        ⟨hExec.valid, hExec.fits, hExec.sizes, hExec.apart⟩⟩

/- A byte of the file, or one of the zeros behind them -/
def elfSegmentByte
    (im : ElfImage)
    (i j : Nat) : Option U8 :=
  if j < elfPhdrAt im i pFilesz then
    im.bytes[elfPhdrAt im i pOffset + j]?
  else
    some 0#8

/- The segments are in memory, and nothing else is written. -/
structure ElfPlacedAt
    (base : Nat)
    (im : ElfImage)
    (user : TracedMemory) : Prop where
  contents : ∀ i ∈ elfLoads im, ∀ j < elfPhdrAt im i pMemsz,
    some (user.mem
        (BitVec.ofNat 64 (base + elfPhdrAt im i pVaddr + j))) =
      elfSegmentByte im i j
  only : ∀ a ∈ user.writes, ∃ i ∈ elfLoads im,
    base + elfPhdrAt im i pVaddr ≤ a.toNat ∧
      a.toNat <
        base + elfPhdrAt im i pVaddr + elfPhdrAt im i pMemsz

/-
  Once the loader returns 0, the program is where it is linked,
  and the caller has its entry point.
-/
def ElfPlaced
    (im : ElfImage)
    (wantsEntry wantsStack : Bool)
    (m : ByteMemory) : Prop :=
  ∃ r, elfLoad im wantsEntry wantsStack m = some r ∧
    (r.ret = 0 →
      ElfPlacedAt 0 im r.user ∧
        (wantsEntry = true →
          r.outEntry = some (elfHeaderAt im eEntry)))

variable {im : ElfImage}
variable {i j : Nat}

--------------------
-- The Base
--------------------

theorem elfPiece_getElem
    (hHolds : im.Holds (elfPhdrAt im i pOffset)
      (elfPhdrAt im i pFilesz))
    (hIn : j < elfPhdrAt im i pMemsz) :
    (elfPiece im i).bytes[j]? = elfSegmentByte im i j := by
  have hLength := ByteImage.slice_length hHolds
  have hOffset :
      elfPhdrAt im i pOffset % 2 ^ 64 = elfPhdrAt im i pOffset :=
    Nat.mod_eq_of_lt (ByteImage.numberAt_lt im _ 8)
  rw [elfPiece, elfSegmentByte]
  by_cases hFile : j < elfPhdrAt im i pFilesz
  · rw [if_pos hFile,
      List.getElem?_append_left (by rw [hLength]; exact hFile),
      ByteImage.slice_getElem hFile, hOffset]
  · rw [if_neg hFile,
      List.getElem?_append_right (by rw [hLength]; omega),
      hLength, List.getElem?_replicate, if_pos (by omega)]

namespace ElfExecutable

variable (hExec : ElfExecutable im)
include hExec

theorem piece_length
    (hLoad : i ∈ elfLoads im) :
    (elfPiece im i).bytes.length = elfPhdrAt im i pMemsz := by
  have hHolds := elfHolds_of_le (hExec.fits.file i hLoad)
  rw [elfPiece_length hHolds]
  exact Nat.max_eq_right (hExec.sizes i hLoad)

theorem pieces_fit :
    ∀ piece ∈ (elfLoads im).map (elfPiece im), piece.Fits := by
  intro piece hMem
  rcases List.mem_map.mp hMem with ⟨i, hLoad, rfl⟩
  have hUser := hExec.fits.user i hLoad
  unfold userLimit at hUser
  rw [TracedMemory.Piece.Fits, hExec.piece_length hLoad,
    hExec.fits.start_toNat hLoad, userCodeVaddr]
  omega

theorem pieces_apart :
    ((elfLoads im).map (elfPiece im)).Pairwise
      fun x y => x.extent.Apart y.extent := by
  have hNodup : (elfLoads im).Nodup :=
    List.nodup_range.filter _
  refine List.pairwise_map.mpr
    (hNodup.pairwise_of_forall_ne fun i hi j hj hNe => ?_)
  have hApart := hExec.apart i hi j hj hNe
  unfold Extent.Apart at hApart ⊢
  unfold TracedMemory.Piece.extent
  rw [hExec.piece_length hi, hExec.piece_length hj,
    hExec.fits.start_toNat hi, hExec.fits.start_toNat hj]
  simp only at hApart ⊢
  omega

/- The segments are copied to the base and what is added to it. -/
theorem relocated
    (m : ByteMemory) :
    ElfPlacedAt userCodeVaddr im
      (TracedMemory.fillAll ⟨m, []⟩
        ((elfLoads im).map (elfPiece im))) where
  contents := by
    intro i hLoad j hj
    have hLength := hExec.piece_length hLoad
    have hHolds := elfHolds_of_le (hExec.fits.file i hLoad)
    have hIn : j < (elfPiece im i).bytes.length := by
      rw [hLength]
      exact hj
    have hByte :=
      @TracedMemory.fillAll_inside ⟨m, []⟩ _ _ j hExec.pieces_fit
        hExec.pieces_apart (List.mem_map_of_mem hLoad) hIn
    have hAt :
        BitVec.ofNat 64
            (userCodeVaddr + elfPhdrAt im i pVaddr + j) =
          (elfPiece im i).start + BitVec.ofNat 64 j := by
      rw [elfPiece, BitVec.ofNat_add, BitVec.ofNat_add]
    rw [hAt, hByte, ← elfPiece_getElem hHolds hj,
      List.getElem?_eq_getElem hIn]
  only := by
    intro a hWrite
    rcases hExec.fits.mem_writes.mp hWrite with
      ⟨i, hLoad, k, hk, rfl⟩
    rw [Nat.max_eq_right (hExec.sizes i hLoad)] at hk
    refine ⟨i, hLoad, ?_⟩
    have hStart := hExec.fits.start_toNat hLoad
    have hUser := hExec.fits.user i hLoad
    unfold userLimit at hUser
    rw [BitVec.toNat_add, BitVec.toNat_ofNat, hStart]
    unfold userCodeVaddr
    omega

/- Nothing is rejected but a segment at the very end. -/
theorem allTooHigh_iff :
    ElfAllTooHigh im ↔
      ∃ i ∈ elfLoads im,
        elfPhdrAt im i pVaddr + elfPhdrAt im i pMemsz =
          userLimit + 1 := by
  have hTop :
      ∀ i ∈ elfLoads im,
        (ElfTooHigh im i ↔
          elfPhdrAt im i pVaddr + elfPhdrAt im i pMemsz =
            userLimit + 1) := by
    intro i hLoad
    have hUser := hExec.fits.user i hLoad
    unfold ElfTooHigh elfTop
    unfold userLimit at hUser ⊢
    omega
  constructor
  · rintro ⟨i, hLoad, hHigh⟩
    exact ⟨i, hLoad, (hTop i hLoad).mp hHigh⟩
  · rintro ⟨i, hLoad, hEnd⟩
    exact ⟨i, hLoad, (hTop i hLoad).mpr hEnd⟩

/- The last byte of the highest segment is out of place. -/
theorem not_placed
    {user : TracedMemory}
    (hWrites : ∀ i ∈ elfLoads im, ∀ k < elfPhdrAt im i pMemsz,
      (elfPiece im i).start + BitVec.ofNat 64 k ∈ user.writes)
    (hPlaced : ElfPlacedAt 0 im user) :
    ∀ i ∈ elfLoads im, elfPhdrAt im i pMemsz = 0 := by
  by_contra hSome
  push Not at hSome
  rcases hSome with ⟨first, hFirst, hBytes⟩
  let top := fun i => elfPhdrAt im i pVaddr + elfPhdrAt im i pMemsz
  let full := (elfLoads im).toFinset.filter fun i =>
    elfPhdrAt im i pMemsz ≠ 0
  have hFull :
      ∀ i, i ∈ full ↔
        i ∈ elfLoads im ∧ elfPhdrAt im i pMemsz ≠ 0 := by
    intro i
    rw [Finset.mem_filter, List.mem_toFinset]
  have hNonempty : full.Nonempty :=
    ⟨first, (hFull first).mpr ⟨hFirst, hBytes⟩⟩
  rcases Finset.exists_max_image full top hNonempty with
    ⟨i, hMem, hMax⟩
  rcases (hFull i).mp hMem with ⟨hLoad, hSize⟩
  have hLast :=
    hWrites i hLoad (elfPhdrAt im i pMemsz - 1) (by omega)
  rcases hPlaced.only _ hLast with ⟨j, hOther, hFrom, hBelow⟩
  have hStart := hExec.fits.start_toNat hLoad
  have hUser := hExec.fits.user i hLoad
  have hUser' := hExec.fits.user j hOther
  unfold userLimit at hUser hUser'
  rw [BitVec.toNat_add, BitVec.toNat_ofNat, hStart]
    at hFrom hBelow
  unfold userCodeVaddr at hFrom hBelow
  have hHigher : top i < top j := by
    show elfPhdrAt im i pVaddr + elfPhdrAt im i pMemsz <
      elfPhdrAt im j pVaddr + elfPhdrAt im j pMemsz
    omega
  have hIn : j ∈ full := by
    refine (hFull j).mpr ⟨hOther, fun hZero => ?_⟩
    omega
  exact absurd (hMax j hIn) (Nat.not_le.mpr hHigher)

end ElfExecutable

--------------------
-- One Segment
--------------------

/- One segment: a byte from the file, and a zero behind it -/
def elfOneSegment (vaddr : Nat) : ElfImage where
  data := 0x1000000#64
  bytes :=
    elfSmallHeader vaddr 1 ++ elfSmallPhdr 120 vaddr 1 2 ++
      [0xC3#8]
  fits := by
    simp [elfSmallHeader, elfSmallPhdr, elfBytes]

theorem elfOneSegment_linked :
    ElfExecutable (elfOneSegment 0x400000) := by
  decide +kernel

theorem elfOneSegment_highest :
    ElfExecutable (elfOneSegment 0x7FFFFFFFFFFE) := by
  decide +kernel

--------------------
-- Placement
--------------------

/- The loader returns 0 for a program that is out of place. -/
theorem elfLoad_relocated
    (hExec : ElfExecutable im)
    (hLow : ¬ ∃ i ∈ elfLoads im,
      elfPhdrAt im i pVaddr + elfPhdrAt im i pMemsz =
        userLimit + 1)
    (wantsEntry wantsStack : Bool)
    (m : ByteMemory) :
    ∃ r, elfLoad im wantsEntry wantsStack m = some r ∧
      r.ret = 0 ∧ ElfPlacedAt userCodeVaddr im r.user := by
  rw [← hExec.allTooHigh_iff] at hLow
  exact ⟨_, hExec.fits.loaded hExec.valid hLow _ _ m, rfl,
    hExec.relocated m⟩

theorem elfLoad_relocated_linked :
    ∃ r, elfLoad (elfOneSegment 0x400000) true true
        (fun _ => 0#8) = some r ∧
      r.ret = 0 ∧
      ElfPlacedAt userCodeVaddr (elfOneSegment 0x400000)
        r.user :=
  elfLoad_relocated elfOneSegment_linked (by decide +kernel) true
    true _

/- When a program is where it is linked -/
theorem elfLoad_placed_iff
    (im : ElfImage)
    (wantsEntry wantsStack : Bool)
    (m : ByteMemory)
    (hExec : ElfExecutable im) :
    ElfPlaced im wantsEntry wantsStack m ↔
      (∃ i ∈ elfLoads im,
        elfPhdrAt im i pVaddr + elfPhdrAt im i pMemsz =
          userLimit + 1) ∨
      ∀ i ∈ elfLoads im, elfPhdrAt im i pMemsz = 0 := by
  rw [← hExec.allTooHigh_iff]
  by_cases hHigh : ElfAllTooHigh im
  · refine iff_of_true ?_ (Or.inl hHigh)
    have hRet : (-10 : Int) ≠ 0 := by decide
    exact ⟨_, hExec.fits.rejected hExec.valid hHigh _ _ m,
      fun hZero => absurd hZero hRet⟩
  · rw [or_iff_right hHigh]
    have hLoaded :=
      hExec.fits.loaded hExec.valid hHigh wantsEntry wantsStack m
    constructor
    · rintro ⟨r, hRun, hPlaced⟩
      rw [hLoaded] at hRun
      cases hRun
      refine hExec.not_placed ?_ (hPlaced rfl).1
      intro i hLoad k hk
      have hIn := Nat.lt_of_lt_of_le hk
        (Nat.le_max_right (elfPhdrAt im i pFilesz) _)
      exact hExec.fits.mem_writes.mpr ⟨i, hLoad, k, hIn, rfl⟩
    · intro hEmpty
      refine ⟨_, hLoaded, fun _ => ⟨⟨?_, ?_⟩, ?_⟩⟩
      · intro i hLoad j hj
        rw [hEmpty i hLoad] at hj
        exact absurd hj (Nat.not_lt_zero j)
      · intro a hWrite
        rcases hExec.fits.mem_writes.mp hWrite with
          ⟨i, hLoad, k, hk, -⟩
        rw [Nat.max_eq_right (hExec.sizes i hLoad),
          hEmpty i hLoad] at hk
        exact absurd hk (Nat.not_lt_zero k)
      · intro hWants
        rw [hWants]
        rfl

theorem elfLoad_placed_highest :
    ElfPlaced (elfOneSegment 0x7FFFFFFFFFFE) true true
      (fun _ => 0#8) := by
  apply
    (elfLoad_placed_iff _ true true _ elfOneSegment_highest).mpr
  left
  decide +kernel

/- A program for 0x400000 is copied to 0x800000. -/
theorem elfLoad_misplaced :
    ElfExecutable (elfOneSegment 0x400000) ∧
      ¬ ElfPlaced (elfOneSegment 0x400000) true true
        (fun _ => 0#8) := by
  refine ⟨elfOneSegment_linked, ?_⟩
  rintro ⟨r, hRun, hPlaced⟩
  have hTrace :
      (elfLoad (elfOneSegment 0x400000) true true
          fun _ => 0#8).map
          (fun r => (r.ret, r.outEntry, r.user.writes)) =
        some (0, some 0x400000, [0x800000#64, 0x800001#64]) := by
    decide +kernel
  rw [hRun, Option.map_some, Option.some.injEq, Prod.mk.injEq,
    Prod.mk.injEq] at hTrace
  rcases hTrace with ⟨hRet, -, hWrites⟩
  have hFirst : 0x800000#64 ∈ r.user.writes := by
    rw [hWrites]
    exact List.mem_cons_self
  have hOut :
      ¬ ∃ i ∈ elfLoads (elfOneSegment 0x400000),
        0 + elfPhdrAt (elfOneSegment 0x400000) i pVaddr ≤
            (0x800000#64).toNat ∧
          (0x800000#64).toNat <
            0 + elfPhdrAt (elfOneSegment 0x400000) i pVaddr +
              elfPhdrAt (elfOneSegment 0x400000) i pMemsz := by
    decide +kernel
  exact hOut ((hPlaced hRet).1.only _ hFirst)

end FeatherOS
