import FeatherOS.Paging.Window

/-
  Page tables with a direct map: 512 MiB of physical memory at
  KERNEL_VIRT_BASE, where the functions of the virtual memory
  manager look for the tables.

  Key definitions include:
    * `directTables`
    * `VmmState.mapped`

  Key theorems include:
    * `walk_directTables`
    * `entries_directTables`
    * `VmmState.mapped_supplied`
-/

namespace FeatherOS

open RadixTable

--------------------
-- The Tables
--------------------

/- The pages of the 512 MiB of physical memory -/
def IsFrame (frame : U64) : Prop :=
  frame.toNat % 4096 = 0 ∧ frame.toNat < 2 ^ 29

/- The last table for the index `k` of the page directory -/
def directPt (k : TableIndex) : U64 :=
  0x10100000#64 + (k.setWidth 64 <<< 12)

def tablePte (frame : U64) : U64 :=
  makePte frame true true false false

/-
  512 MiB at KERNEL_VIRT_BASE, with the tables in the frames
  from 0x10000000 on.
-/
def directTables : PageTables where
  pml4 := 0x10000000#64
  memory := fun frame index =>
    if frame = 0x10000000#64 then
      if index = 256#9 then tablePte 0x10001000#64 else 0#64
    else if frame = 0x10001000#64 then
      if index = 0#9 then tablePte 0x10002000#64 else 0#64
    else if frame = 0x10002000#64 then
      if index < 256#9 then tablePte (directPt index) else 0#64
    else
      tablePte
        (((frame - 0x10100000#64) <<< 9) +
          (index.setWidth 64 <<< 12))

theorem toNat_directPt
    (k : TableIndex) :
    (directPt k).toNat = 0x10100000 + k.toNat * 4096 := by
  have hk := k.isLt
  unfold directPt
  rw [BitVec.toNat_add, BitVec.toNat_shiftLeft,
    BitVec.toNat_setWidth, Nat.shiftLeft_eq]
  simp only [BitVec.toNat_ofNat]
  omega

variable {frame : U64}

theorem nextFrame_tablePte
    (hPage : frame.toNat % 4096 = 0) :
    nextFrame (tablePte frame) = some frame :=
  nextFrame_makePte (frameMask_of_page hPage)

theorem next_directRoot
    (index : TableIndex) :
    nextFrame (directTables.memory directTables.pml4 index) =
      if index = 256#9 then some 0x10001000#64 else none := by
  change nextFrame (if index = 256#9 then _ else _) = _
  split
  next => exact nextFrame_tablePte (by decide)
  next => decide

theorem next_directPdp
    (index : TableIndex) :
    nextFrame (directTables.memory 0x10001000#64 index) =
      if index = 0#9 then some 0x10002000#64 else none := by
  change nextFrame (if index = 0#9 then _ else _) = _
  split
  next => exact nextFrame_tablePte (by decide)
  next => decide

theorem next_directPd
    (index : TableIndex) :
    nextFrame (directTables.memory 0x10002000#64 index) =
      if index < 256#9 then some (directPt index) else none := by
  change nextFrame (if index < 256#9 then _ else _) = _
  split
  next =>
    refine nextFrame_tablePte ?_
    rw [toNat_directPt]
    omega
  next => decide

/- The paths to the tables, and where they lead -/
theorem walk_directTables
    {path : List TableIndex}
    (hLen : path.length ≤ 3)
    (hWalk : walk nextFrame directTables.memory
      directTables.pml4 path = some frame) :
    (path = [] ∧ frame = 0x10000000#64) ∨
      (path = [256#9] ∧ frame = 0x10001000#64) ∨
      (path = [256#9, 0#9] ∧ frame = 0x10002000#64) ∨
      ∃ k < 256#9, path = [256#9, 0#9, k] ∧
        frame = directPt k := by
  rcases walk_first nextFrame next_directRoot hWalk with
    hRoot | ⟨i, path, rfl, rfl, hWalk⟩
  · exact .inl hRoot
  rcases walk_first nextFrame next_directPdp hWalk with
    ⟨rfl, hPdp⟩ | ⟨j, path, rfl, rfl, hWalk⟩
  · exact .inr (.inl ⟨rfl, hPdp⟩)
  rcases walk_first nextFrame next_directPd hWalk with
    ⟨rfl, hPd⟩ | ⟨k, path, rfl, hk, hWalk⟩
  · exact .inr (.inr (.inl ⟨rfl, hPd⟩))
  have hNil : path = [] := by
    rw [← List.length_eq_zero_iff]
    simp only [List.length_cons] at hLen
    omega
  subst hNil
  cases hWalk
  exact .inr (.inr (.inr ⟨k, hk, rfl, rfl⟩))

theorem walk_directPt
    {k : TableIndex}
    (hk : k < 256#9) :
    walk nextFrame directTables.memory directTables.pml4
      [256#9, 0#9, k] = some (directPt k) := by
  simp only [walk, next_directRoot, next_directPdp,
    next_directPd, if_true, hk]

theorem directPt_ne
    {k : TableIndex}
    (hLow : frame.toNat < 0x10100000) :
    directPt k ≠ frame := by
  rintro rfl
  rw [toNat_directPt] at hLow
  omega

/- The path to a table -/
def directPath (frame : U64) : List TableIndex :=
  if frame = 0x10000000#64 then []
  else if frame = 0x10001000#64 then [256#9]
  else if frame = 0x10002000#64 then [256#9, 0#9]
  else [256#9, 0#9, ((frame - 0x10100000#64) >>> 12).setWidth 9]

theorem path_directTables
    {path : List TableIndex}
    (hLen : path.length ≤ 3)
    (hWalk : walk nextFrame directTables.memory
      directTables.pml4 path = some frame) :
    path = directPath frame := by
  rcases walk_directTables hLen hWalk with
    ⟨rfl, rfl⟩ | ⟨rfl, rfl⟩ | ⟨rfl, rfl⟩ | ⟨k, _, rfl, rfl⟩
  · rfl
  · rfl
  · rfl
  · have hIndex :
        ((directPt k - 0x10100000#64) >>> 12).setWidth 9 = k := by
      apply BitVec.eq_of_toNat_eq
      rw [BitVec.toNat_setWidth, BitVec.toNat_ushiftRight,
        BitVec.toNat_sub, toNat_directPt, Nat.shiftRight_eq_div_pow]
      simp only [BitVec.toNat_ofNat]
      omega
    unfold directPath
    rw [if_neg (directPt_ne (by decide)),
      if_neg (directPt_ne (by decide)),
      if_neg (directPt_ne (by decide)), hIndex]

theorem directTables_separate :
    directTables.Separate := by
  intro p q frame hp hq hWalkP hWalkQ
  rw [path_directTables hp hWalkP, path_directTables hq hWalkQ]

/- The tables lie above the free frames. -/
theorem uses_directTables
    (hUsed : directTables.Uses frame) :
    frame.toNat % 4096 = 0 ∧ 0x10000000 ≤ frame.toNat ∧
      frame.toNat < 0x10200000 := by
  rcases hUsed with ⟨path, hLen, hWalk⟩
  rcases walk_directTables hLen hWalk with
    ⟨_, rfl⟩ | ⟨_, rfl⟩ | ⟨_, rfl⟩ | ⟨k, hk, _, rfl⟩
  · decide
  · decide
  · decide
  · have hk' : k.toNat < 256 := hk
    rw [toNat_directPt]
    omega

/- Bits 39 to 12 of a pointer into the map -/
theorem toNat_windowPage
    (hFrame : IsFrame frame) :
    (windowPage frame).toNat = 2 ^ 35 + frame.toNat / 4096 := by
  have hBase : kernelVirtBase.toNat = 0xFFFF800000000000 := rfl
  have hSmall := hFrame.2
  unfold windowPage pageOf
  rw [BitVec.extractLsb'_toNat, Nat.shiftRight_eq_div_pow,
    BitVec.toNat_add, hBase]
  omega

/- The indices of such a pointer -/
theorem pageIndices_windowPage
    (hFrame : IsFrame frame) :
    (pageIndices (windowPage frame)).pml4 = 256#9 ∧
      (pageIndices (windowPage frame)).pdp = 0#9 ∧
      (pageIndices (windowPage frame)).pd.toNat =
        frame.toNat / 4096 / 512 ∧
      (pageIndices (windowPage frame)).pt.toNat =
        frame.toNat / 4096 % 512 := by
  have hPage := toNat_windowPage hFrame
  have hSmall := hFrame.2
  unfold pageIndices
  refine ⟨?_, ?_, ?_, ?_⟩
  · apply BitVec.eq_of_toNat_eq
    rw [BitVec.extractLsb'_toNat, hPage,
      Nat.shiftRight_eq_div_pow, BitVec.toNat_ofNat]
    omega
  · apply BitVec.eq_of_toNat_eq
    rw [BitVec.extractLsb'_toNat, hPage,
      Nat.shiftRight_eq_div_pow, BitVec.toNat_ofNat]
    omega
  · rw [BitVec.extractLsb'_toNat, hPage,
      Nat.shiftRight_eq_div_pow]
    omega
  · rw [BitVec.extractLsb'_toNat, hPage,
      Nat.shiftRight_eq_div_pow]
    omega

/- The entry of a last table -/
theorem memory_directPt
    {k index : TableIndex}
    (hFrame : frame.toNat % 4096 = 0)
    (hk : k.toNat = frame.toNat / 4096 / 512)
    (hIndex : index.toNat = frame.toNat / 4096 % 512) :
    directTables.memory (directPt k) index = tablePte frame := by
  have hNat := toNat_directPt k
  have hSame :
      ((directPt k - 0x10100000#64) <<< 9) +
        (index.setWidth 64 <<< 12) = frame := by
    have hOff : (directPt k - 0x10100000#64).toNat =
        k.toNat * 4096 := by
      have hLt := k.isLt
      rw [BitVec.toNat_sub, hNat]
      simp only [BitVec.toNat_ofNat]
      omega
    apply BitVec.eq_of_toNat_eq
    rw [BitVec.toNat_add, BitVec.toNat_shiftLeft, hOff,
      BitVec.toNat_shiftLeft, BitVec.toNat_setWidth,
      Nat.shiftLeft_eq, Nat.shiftLeft_eq, hk, hIndex]
    have hLt := frame.isLt
    omega
  unfold directTables
  simp only
  rw [if_neg (directPt_ne (by decide)),
    if_neg (directPt_ne (by decide)),
    if_neg (directPt_ne (by decide)), hSame]

theorem entries_directTables
    (hFrame : IsFrame frame) :
    directTables.entries (windowPage frame) =
      some (tablePte frame) := by
  have hSmall := hFrame.2
  rcases pageIndices_windowPage hFrame with
    ⟨hPml4, hPdp, hPd, hPt⟩
  have hk : (pageIndices (windowPage frame)).pd < 256#9 := by
    rw [BitVec.lt_def, hPd]
    simp only [BitVec.toNat_ofNat]
    omega
  have hWalk : walk nextFrame directTables.memory
      directTables.pml4 (pageIndices (windowPage frame)).path =
        some (directPt (pageIndices (windowPage frame)).pd) := by
    unfold Indices.path
    rw [hPml4, hPdp]
    exact walk_directPt hk
  have hEntry := memory_directPt hFrame.1 hPd hPt
  have hPresent : isPresent (directTables.memory
      (directPt (pageIndices (windowPage frame)).pd)
      (pageIndices (windowPage frame)).pt) = true := by
    rw [hEntry]
    exact isPresent_makePte _ _ _ _
  rw [PageTables.entries_of_walk hWalk hPresent, hEntry]

--------------------
-- After Boot
--------------------

def VmmState.mapped : VmmState :=
  VmmState.booted.withMemory directTables (some bootedManager)

theorem VmmState.mapped_frames
    {a : U64}
    (ha : a ∈ VmmState.mapped.freeFrames) :
    a.toNat < 0x10000000 := by
  rcases List.mem_map.mp ha with ⟨q, hq, rfl⟩
  rcases (mem_freePages_booted q).mp hq with ⟨_, _, hFree⟩
  unfold isBootFree at hFree
  rw [toNat_pageToAddr (by omega)]
  omega

theorem VmmState.mapped_supplied :
    VmmState.mapped.Supplied := by
  have hList := bootedManager_good.frameList
  refine ⟨bootedManager_good, directTables_separate, ?_, ?_⟩
  · intro a ha
    refine .inr ⟨frameMask_of_page (hList.page a ha).1, ?_⟩
    intro hUsed
    have hLow := VmmState.mapped_frames ha
    have hHigh := (uses_directTables hUsed).2.1
    omega
  · exact hList.nodup.imp fun hNe => .inr hNe

/- Frame 0 is taken, and five frames are left at least. -/
theorem VmmState.mapped_freeFrames :
    0#64 ∉ VmmState.mapped.freeFrames ∧
      5 ≤ VmmState.mapped.freeFrames.length :=
  ⟨zero_not_mem_booted, length_freeFrames_booted⟩

end FeatherOS
