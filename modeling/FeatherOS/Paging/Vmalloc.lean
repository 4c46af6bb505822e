import FeatherOS.Library.Extents
import FeatherOS.Library.Run
import FeatherOS.Memory.Model

/-
  The addresses that `vmalloc` of `kernel/mm/paging_impl.c`
  gives out.

  The next address is moved up before it is compared with the
  end, and neither the rounding nor the sum is watched for a
  wrap.

  Key definitions include:
    * `vmalloc`
    * `VmallocGood`
    * `VmallocOk`

  Key theorems include:
    * `vmalloc_cases`
    * `vmallocStep_decided`
    * `vmallocRun_good_iff`
-/

namespace FeatherOS

--------------------
-- The Call
--------------------

/- VMALLOC_START -/
def vmallocStart : U64 := 0xFFFF800000000000#64

/- VMALLOC_REGION_SIZE -/
def vmallocRegionSize : U64 := 0x2000000000#64

/- vmalloc_end -/
def vmallocEnd : U64 := vmallocStart + vmallocRegionSize

/- `(size + PAGE_SIZE - 1) & ~(PAGE_SIZE - 1)` -/
def vmallocSize (size : U64) : U64 :=
  (size + pageSize - 1#64) &&& ~~~(pageSize - 1#64)

/- The pointer that is returned, and vmalloc_next -/
def vmalloc
    (vmallocNext size : U64) :
    U64 × U64 :=
  let size := vmallocSize size
  let virt := vmallocNext
  let vmallocNext := vmallocNext + size
  if vmallocNext > vmallocEnd then
    (0#64, vmallocNext)
  else
    (virt, vmallocNext)

--------------------
-- Runs
--------------------

/- vmalloc_next, and the ranges that were returned -/
structure VmallocState where
  next : U64
  owned : List Extent

def vmallocStep
    (s : VmallocState)
    (size : U64)
    (t : VmallocState) : Prop :=
  let answer := vmalloc s.next size
  t =
    ⟨answer.2,
      if answer.1 = 0#64 then s.owned
      else s.owned ++ [⟨answer.1.toNat, size.toNat⟩]⟩

/- A range of bytes in the region -/
def InRegion (e : Extent) : Prop :=
  vmallocStart.toNat ≤ e.start ∧
    e.start + e.size ≤ vmallocEnd.toNat

/- A request that gets a range of its own in the region -/
structure Obtains
    (next size : U64) : Prop where
  some : 1 ≤ size.toNat
  granted : (vmalloc next size).1 ≠ 0#64
  inside : InRegion ⟨(vmalloc next size).1.toNat, size.toNat⟩

structure VmallocGood
    (s : VmallocState)
    (size : U64)
    (t : VmallocState) : Prop where
  inside : ∀ e ∈ t.owned, 1 ≤ e.size → InRegion e
  apart : t.owned.Pairwise Extent.Apart
  failed : (vmalloc s.next size).1 = 0#64 →
    ∀ later, Obtains s.next later → Obtains t.next later

/- The size in whole pages, which may be 2^64 -/
def pagesSize (size : U64) : Nat :=
  (size.toNat + 4095) / 4096 * 4096

/-
  Nothing is asked for, or it has room, or there is no room at
  all any more and the sum of 64 bits is beyond the end.
-/
def VmallocOk
    (s : VmallocState)
    (size : U64) : Prop :=
  size = 0#64 ∨
    s.next.toNat + pagesSize size ≤ vmallocEnd.toNat ∨
    (vmallocEnd.toNat ≤ s.next.toNat ∧
      vmallocEnd.toNat <
        (s.next.toNat + pagesSize size) % 2 ^ 64)

--------------------
-- One Call
--------------------

theorem toNat_vmallocSize
    (size : U64) :
    (vmallocSize size).toNat = pagesSize size % 2 ^ 64 := by
  have hMask : (vmallocSize size).toNat =
      (size + pageSize - 1#64).toNat / 2 ^ 12 * 2 ^ 12 :=
    Words.toNat_and_not_low _ 12
  have hSize : pageSize.toNat = 4096 := rfl
  have hSum : (size + pageSize - 1#64).toNat =
      (size.toNat + 4095) % 2 ^ 64 := by
    rw [BitVec.toNat_sub, BitVec.toNat_add, hSize,
      BitVec.toNat_ofNat]
    omega
  have hLt := size.isLt
  rw [hMask, hSum, pagesSize]
  omega

/- Where the next address goes, and what is returned -/
theorem vmalloc_cases
    (next size : U64) :
    (vmalloc next size).2.toNat =
        (next.toNat + pagesSize size) % 2 ^ 64 ∧
      (vmalloc next size).1 =
        if vmallocEnd.toNat <
            (next.toNat + pagesSize size) % 2 ^ 64 then
          0#64
        else
          next := by
  have hNext : (next + vmallocSize size).toNat =
      (next.toNat + pagesSize size) % 2 ^ 64 := by
    rw [BitVec.toNat_add, toNat_vmallocSize, Nat.add_mod_mod]
  unfold vmalloc
  simp only [gt_iff_lt, BitVec.lt_def, hNext]
  split
  next => exact ⟨hNext, rfl⟩
  next => exact ⟨hNext, rfl⟩

/- The next address is a page of the region or behind it. -/
structure VmallocInvariant (s : VmallocState) : Prop where
  aligned : s.next.toNat % 4096 = 0
  start : vmallocStart.toNat ≤ s.next.toNat
  inside : ∀ e ∈ s.owned, InRegion e
  below : ∀ e ∈ s.owned, e.start + e.size ≤ s.next.toNat
  apart : s.owned.Pairwise Extent.Apart

section Step

variable {s t : VmallocState}
variable {size : U64}
variable {next : U64}

/- A page that has room is one for every smaller request. -/
theorem obtains_iff
    (hAligned : next.toNat % 4096 = 0)
    (hStart : vmallocStart.toNat ≤ next.toNat) :
    Obtains next size ↔
      1 ≤ size.toNat ∧
        next.toNat + pagesSize size ≤ vmallocEnd.toNat := by
  have hFirst : vmallocStart.toNat = 0xFFFF800000000000 := rfl
  have hEnd : vmallocEnd.toNat = 0xFFFF802000000000 := rfl
  have hLt := next.isLt
  have hRound :
      size.toNat ≤ pagesSize size ∧ pagesSize size % 4096 = 0 ∧
        pagesSize size < size.toNat + 4096 := by
    unfold pagesSize
    omega
  rcases vmalloc_cases next size with ⟨_, hPtr⟩
  constructor
  · rintro ⟨hSome, hGranted, hInside⟩
    rw [hPtr] at hGranted hInside
    split at hGranted
    next => exact absurd rfl hGranted
    next hFits =>
      rw [if_neg hFits] at hInside
      unfold InRegion at hInside
      refine ⟨hSome, ?_⟩
      simp only at hInside
      omega
  · rintro ⟨hSome, hFits⟩
    have hNot : ¬ vmallocEnd.toNat <
        (next.toNat + pagesSize size) % 2 ^ 64 := by
      omega
    rw [if_neg hNot] at hPtr
    refine ⟨hSome, ?_, ?_⟩
    · rw [hPtr]
      intro hZero
      rw [hZero] at hStart
      exact absurd hStart (by decide)
    · rw [hPtr]
      refine ⟨hStart, ?_⟩
      simp only
      omega

/- A new range above all the others -/
theorem VmallocInvariant.grant
    (hInv : VmallocInvariant s)
    (hNext : next.toNat = s.next.toNat + pagesSize size)
    (hFits : next.toNat ≤ vmallocEnd.toNat) :
    VmallocInvariant
      ⟨next, s.owned ++ [⟨s.next.toNat, size.toNat⟩]⟩ := by
  have hAligned := hInv.aligned
  have hStart := hInv.start
  have hRound :
      size.toNat ≤ pagesSize size ∧
        pagesSize size % 4096 = 0 := by
    unfold pagesSize
    omega
  refine ⟨?_, ?_, ?_, ?_, ?_⟩
  · simp only
    omega
  · simp only
    omega
  · intro e he
    rcases List.mem_append.mp he with hOld | hNew
    · exact hInv.inside e hOld
    · rw [List.mem_singleton.mp hNew]
      refine ⟨hStart, ?_⟩
      simp only
      omega
  · intro e he
    rcases List.mem_append.mp he with hOld | hNew
    · have hBelow := hInv.below e hOld
      simp only
      omega
    · rw [List.mem_singleton.mp hNew]
      simp only
      omega
  · rw [List.pairwise_append]
    refine ⟨hInv.apart, List.pairwise_singleton _ _, ?_⟩
    intro e he f hf
    rw [List.mem_singleton.mp hf]
    exact .inl (hInv.below e he)

/- A request that is refused leaves the ranges as they are. -/
theorem VmallocInvariant.refuse
    (hInv : VmallocInvariant s)
    (hAligned : next.toNat % 4096 = 0)
    (hEnd : vmallocEnd.toNat ≤ next.toNat) :
    VmallocInvariant ⟨next, s.owned⟩ where
  aligned := hAligned
  start := Nat.le_trans (by decide) hEnd
  inside := hInv.inside
  below := fun e he => Nat.le_trans (hInv.inside e he).2 hEnd
  apart := hInv.apart

/- Where the invariant holds, the ranges are good. -/
theorem VmallocInvariant.good
    (hAfter : VmallocInvariant t)
    (hFailed : (vmalloc s.next size).1 = 0#64 →
      ∀ later, Obtains s.next later → Obtains t.next later) :
    VmallocGood s size t where
  inside := fun e he _ => hAfter.inside e he
  apart := hAfter.apart
  failed := hFailed

/- Nothing can be obtained behind the end. -/
theorem not_obtains
    {next later : U64}
    (hEnd : vmallocEnd.toNat ≤ next.toNat)
    (hAligned : next.toNat % 4096 = 0) :
    ¬ Obtains next later := by
  have hStart : vmallocStart.toNat ≤ next.toNat :=
    Nat.le_trans (by decide) hEnd
  rw [obtains_iff hAligned hStart]
  rintro ⟨hSome, hFits⟩
  unfold pagesSize at hFits
  omega

/- The state after a call, by what the call returns -/
theorem vmallocStep_cases
    (hInv : VmallocInvariant s)
    (hStep : vmallocStep s size t) :
    t.next.toNat = (s.next.toNat + pagesSize size) % 2 ^ 64 ∧
      ((vmallocEnd.toNat < t.next.toNat ∧
          (vmalloc s.next size).1 = 0#64 ∧ t.owned = s.owned) ∨
        (t.next.toNat ≤ vmallocEnd.toNat ∧
          (vmalloc s.next size).1 ≠ 0#64 ∧
          t.owned = s.owned ++ [⟨s.next.toNat, size.toNat⟩])) := by
  rcases vmalloc_cases s.next size with ⟨hNext, hPtr⟩
  have hNotNull : s.next ≠ 0#64 := by
    intro hZero
    have hStart := hInv.start
    rw [hZero] at hStart
    exact absurd hStart (by decide)
  subst hStep
  refine ⟨hNext, ?_⟩
  simp only [hNext, hPtr]
  split
  next hBeyond => exact .inl ⟨hBeyond, rfl, if_pos rfl⟩
  next hFits =>
    exact .inr ⟨Nat.not_lt.mp hFits, hNotNull, rfl⟩

theorem vmallocStep_decided
    (hInv : VmallocInvariant s)
    (hStep : vmallocStep s size t) :
    (VmallocGood s size t ↔ VmallocOk s size) ∧
      (VmallocOk s size → VmallocInvariant t) := by
  have hEnd : vmallocEnd.toNat = 0xFFFF802000000000 := rfl
  have hAligned := hInv.aligned
  have hStart := hInv.start
  have hLt := s.next.isLt
  have hRound :
      size.toNat ≤ pagesSize size ∧ pagesSize size % 4096 = 0 := by
    unfold pagesSize
    omega
  rcases t with ⟨next, owned⟩
  rcases vmallocStep_cases hInv hStep with
    ⟨hNext, ⟨hBeyond, hNull, rfl⟩ | ⟨hFits, hSome, rfl⟩⟩
  · simp only at hNext hBeyond
    -- the call is refused
    have hNextAligned : next.toNat % 4096 = 0 := by omega
    have hAfter : VmallocInvariant ⟨next, s.owned⟩ :=
      hInv.refuse hNextAligned (by omega)
    refine ⟨?_, fun _ => hAfter⟩
    by_cases hOut : vmallocEnd.toNat ≤ s.next.toNat
    · refine iff_of_true (hAfter.good ?_) ?_
      · intro _ later hLater
        exact absurd hLater (not_obtains hOut hAligned)
      · exact .inr (.inr ⟨hOut, by omega⟩)
    · refine iff_of_false ?_ ?_
      · intro hGood
        have hPage : Obtains s.next 1#64 := by
          rw [obtains_iff hAligned hStart]
          have hOne : pagesSize 1#64 = 4096 := rfl
          rw [hOne]
          refine ⟨by decide, by omega⟩
        have hLater := hGood.failed hNull 1#64 hPage
        exact not_obtains hBeyond.le hNextAligned hLater
      · rintro (rfl | hRoom | hNone)
        · have hZero : pagesSize 0#64 = 0 := rfl
          rw [hZero] at hNext
          omega
        · omega
        · omega
  · simp only at hNext hFits
    -- the call returns the old address
    by_cases hRoom :
        s.next.toNat + pagesSize size ≤ vmallocEnd.toNat
    · have hSum : next.toNat = s.next.toNat + pagesSize size := by
        omega
      have hAfter := hInv.grant hSum hFits
      refine ⟨?_, fun _ => hAfter⟩
      refine iff_of_true (hAfter.good ?_) (.inr (.inl hRoom))
      intro hNull
      exact absurd hNull hSome
    · have hOne : 1 ≤ size.toNat := by
        by_contra hZero
        unfold pagesSize at hNext hRoom
        omega
      have hNotOk : ¬ VmallocOk s size := by
        rintro (rfl | hFits | hNone)
        · cases hOne
        · exact hRoom hFits
        · omega
      refine ⟨iff_of_false ?_ hNotOk, fun h => absurd h hNotOk⟩
      intro hGood
      have hInside := hGood.inside ⟨s.next.toNat, size.toNat⟩
        (List.mem_append_right _ (List.mem_singleton_self _)) hOne
      have hLast := hInside.2
      simp only at hLast
      unfold pagesSize at hRoom
      omega

end Step

/- What the globals are initialised with -/
def vmallocBooted : VmallocState :=
  ⟨vmallocStart, []⟩

theorem vmallocBooted_invariant :
    VmallocInvariant vmallocBooted where
  aligned := by decide
  start := Nat.le_refl _
  inside := nofun
  below := nofun
  apart := .nil

/-
  The ranges of a run are apart, in the region and not in the
  way of later ones if and only if each request is for no
  bytes, has room, or comes when nothing is left and does not
  wrap to an address before the end.
-/
theorem vmallocRun_good_iff
    {t : VmallocState}
    {sizes : List U64} :
    Run (fun s size t =>
        vmallocStep s size t ∧ VmallocGood s size t)
        vmallocBooted sizes t ↔
      Run (Guarded VmallocOk vmallocStep) vmallocBooted sizes
        t := by
  apply Run.guarded_iff VmallocInvariant
  · intro s size t hInv hOk hStep
    exact (vmallocStep_decided hInv hStep).2 hOk
  · intro s size t hInv hStep
    exact (vmallocStep_decided hInv hStep).1
  · exact vmallocBooted_invariant

/- A request for the whole region and a page more uses it up. -/
theorem large_vmalloc_exhausts :
    ¬ ∀ (s t : VmallocState) (sizes : List U64) (size : U64),
      Run vmallocStep vmallocBooted sizes s →
        vmallocStep s size t → VmallocGood s size t := by
  intro hAll
  have hGood := hAll vmallocBooted _ [] 0x2000001000#64 (.nil _)
    rfl
  have hIff :=
    (vmallocStep_decided vmallocBooted_invariant rfl).1.mp hGood
  revert hIff
  unfold VmallocOk
  decide

end FeatherOS
