import FeatherOS.Paging.Refinement

/-
  Translating what was mapped.

  `paging_virt_to_phys` takes the frame out of an entry by
  clearing its low twelve bits. The flag PTE_NX is bit 63 and
  is not among them, so the translation of a page mapped with
  `nx` is off by 2^63, and that of any other page is right.

  Key theorems include:
    * `pagingVirtToPhys_eq`
    * `frameMask_makePte`
    * `pagingVirtToPhys_mapped_iff`
-/

namespace FeatherOS

open RadixTable

/- The translation reads the page's entry, and 0 without it. -/
theorem pagingVirtToPhys_eq
    (t : PageTables)
    (virt : U64) :
    pagingVirtToPhys t virt =
      match t.entries (pageOf virt) with
      | none => 0#64
      | some entry => frameMask entry + (virt &&& 0xFFF#64) := by
  rw [entries_eq_findTable]
  simp only [pagingVirtToPhys]
  cases t.findTable (virtToIndices virt) with
  | none => rfl
  | some pt =>
      cases hPresent :
          isPresent (t.memory pt (virtToIndices virt).pt) with
      | true => simp [hPresent]
      | false => simp [hPresent]

/- Addresses of one page have the same page number. -/
theorem pageOf_eq_of_frameMask
    {v virt : U64}
    (hSame : frameMask v = frameMask virt) :
    pageOf v = pageOf virt := by
  apply BitVec.eq_of_getLsbD_eq
  intro i hi
  have hBit := congrArg (fun a => a.getLsbD (12 + i)) hSame
  simp only [getLsbD_frameMask _ _ (show 12 + i < 64 by omega)]
    at hBit
  have hAbove : decide (12 + i < 12) = false :=
    decide_eq_false (by omega)
  rw [hAbove, Bool.not_false, Bool.and_true, Bool.and_true]
    at hBit
  unfold pageOf
  rw [BitVec.getLsbD_extractLsb', BitVec.getLsbD_extractLsb',
    hBit]

/- Of the flags of an entry, only PTE_NX is left. -/
theorem frameMask_makePte
    (phys : U64)
    (writable user nx : Bool) :
    frameMask (makePte phys true writable user nx) =
      if nx then frameMask phys ||| pteNx else frameMask phys := by
  have hOr : ∀ x y : U64,
      frameMask (x ||| y) = frameMask x ||| frameMask y :=
    fun _ _ => BitVec.and_or_distrib_right
  have hSelf : frameMask (frameMask phys) = frameMask phys := by
    unfold frameMask
    rw [BitVec.and_assoc, BitVec.and_self]
  have hPresent : frameMask ptePresent = 0#64 := by decide
  have hWritable : frameMask pteWritable = 0#64 := by decide
  have hUser : frameMask pteUser = 0#64 := by decide
  have hNx : frameMask pteNx = pteNx := by decide
  unfold makePte
  cases writable <;> cases user <;> cases nx <;>
    simp [hOr, hSelf, hPresent, hWritable, hUser, hNx]

/- The frame of an address below 2^52 leaves bit 63 clear. -/
theorem frameMask_or_nx_ne
    {phys : U64}
    (hPhys : phys.toNat < 2 ^ 52) :
    frameMask phys ||| pteNx ≠ frameMask phys := by
  intro hEq
  have hBit := congrArg (fun a => a.getLsbD 63) hEq
  have hHigh : phys.getLsbD 63 = false := by
    rw [← BitVec.testBit_toNat]
    exact Nat.testBit_lt_two_pow (by omega)
  have hNx : pteNx.getLsbD 63 = true := by decide
  simp only [BitVec.getLsbD_or, hNx, Bool.or_true,
    getLsbD_frameMask _ _ (show 63 < 64 by decide), hHigh,
    Bool.false_and] at hBit
  cases hBit

/-
  After a page has been mapped, its addresses translate to
  those of the frame if and only if `nx` was not set.
-/
theorem pagingVirtToPhys_mapped_iff
    {t t' : PageTables}
    {answers rest : List U64}
    {virt phys : U64}
    {writable user nx : Bool}
    (hSep : t.Separate)
    (hFresh : FreshAnswers t answers)
    (hPhys : phys.toNat < 2 ^ 52)
    (hMap : pagingMapPage nextAnswer answers t virt phys
      writable user nx = (0, t', rest)) :
    (∀ v, frameMask v = frameMask virt →
      pagingVirtToPhys t' v =
        frameMask phys + (v &&& 0xFFF#64)) ↔
      nx = false := by
  rcases pagingMapPage_spec hSep hFresh virt phys writable user
      nx with
    ⟨r, t₁, rest₁, hCall, _, _, hEffect⟩
  rw [hMap] at hCall
  cases hCall
  have hEntries := (hEffect.resolve_right
    (fun hFail => absurd hFail.1 (by decide))).2
  have hValue : ∀ v, frameMask v = frameMask virt →
      pagingVirtToPhys t' v =
        frameMask (makePte phys true writable user nx) +
          (v &&& 0xFFF#64) := by
    intro v hSame
    rw [pagingVirtToPhys_eq, pageOf_eq_of_frameMask hSame,
      hEntries, Function.update_self]
  constructor
  · intro hAll
    have hHere := hAll virt rfl
    rw [hValue virt rfl, frameMask_makePte,
      BitVec.add_left_inj] at hHere
    cases nx with
    | false => rfl
    | true => exact absurd hHere (frameMask_or_nx_ne hPhys)
  · rintro rfl v hSame
    rw [hValue v hSame, frameMask_makePte]
    rfl

theorem pagingVirtToPhys_mapped_iff_first_page :
    pagingVirtToPhys
        (pagingMapPage nextAnswer [0x5000, 0x6000, 0x7000]
          bootTables 0x400000 0x9000 true true false).2.1
        0x400123 =
      0x9123 := by
  exact (@pagingVirtToPhys_mapped_iff bootTables _ _ [] 0x400000
    0x9000 true true false bootTables_boot.separate
    bootTables_fresh (by decide) (by rfl)).mpr rfl 0x400123
      (by decide)

/-
  Mapped with `nx`, the page at 0x400000 translates to
  0x8000000000009000 in place of 0x9000.
-/
theorem nx_page_mistranslated :
    ¬ ∀ (t : PageTables) (answers : List U64)
        (virt phys : U64) (writable user nx : Bool),
      t.Separate → FreshAnswers t answers →
        virt.toNat < 2 ^ 52 → phys.toNat < 2 ^ 52 →
        (pagingMapPage nextAnswer answers t virt phys writable
          user nx).1 = 0 →
        ∀ v, frameMask v = frameMask virt →
          pagingVirtToPhys
              (pagingMapPage nextAnswer answers t virt phys
                writable user nx).2.1 v =
            frameMask phys + (v &&& 0xFFF#64) := by
  intro hAll
  have hHere := hAll bootTables [0x5000, 0x6000, 0x7000]
    0x400000 0x9000 true true true bootTables_boot.separate
    bootTables_fresh (by decide) (by decide) (by rfl) 0x400000 rfl
  revert hHere
  decide

end FeatherOS
