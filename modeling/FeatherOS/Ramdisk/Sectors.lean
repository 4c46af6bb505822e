import FeatherOS.Ramdisk.Model

/-
  A RAM disk as an array of sectors.

  The bound test is made in 32-bit arithmetic. It accepts
  what lies in the disk, and besides whatever ends beyond
  2^32 bytes and wraps to an end in the disk.

  Key definitions include:
    * `InDisk`
    * `SectorsOk`
    * `ReadsSectors`
    * `WritesSectors`
    * `lastWritten`

  Key theorems include:
    * `transfers_iff`
    * `transferRun_byte`
    * `ramdisk_isSectorArray`
-/

namespace FeatherOS

--------------------
-- The Property
--------------------

/- The byte at the offset `i` of a disk. -/
def RamdiskState.byte
    (s : RamdiskState)
    (dev : Addr)
    (i : Nat) : U8 :=
  s.memory ((s.disks dev).data + BitVec.ofNat 64 i)

/- The sectors end in the disk, over the integers. -/
def InDisk
    (size sector count : U32) : Prop :=
  (sector.toNat + count.toNat) * 512 ≤ size.toNat

instance
    (size sector count : U32) :
    Decidable (InDisk size sector count) :=
  inferInstanceAs (Decidable (_ ≤ _))

/-
  The end of the sectors does not wrap, or wraps to an end
  outside of the disk.
-/
def SectorsOk
    (size sector count : U32) : Prop :=
  (sector.toNat + count.toNat) * 512 < 2 ^ 32 ∨
    size.toNat < (sector.toNat + count.toNat) * 512 % 2 ^ 32

section Transfers

variable (s : RamdiskState)
variable (dev : Addr)
variable (sector count : U32)
variable (buffer : Bytes)

/- A read moves its sectors to the buffer, or does nothing. -/
structure ReadsSectors : Prop where
  accepted :
    (ramdiskRead s (some dev) sector count (some buffer)).ret =
        0 ↔
      InDisk (s.disks dev).size sector count
  moved :
    InDisk (s.disks dev).size sector count →
      ∀ i,
        (ramdiskRead s (some dev) sector count
            (some buffer)).buffer i =
          if i < count.toNat * 512 then
            s.byte dev (sector.toNat * 512 + i)
          else
            buffer i
  kept :
    (ramdiskRead s (some dev) sector count
      (some buffer)).state.memory = s.memory
  refused :
    ¬ InDisk (s.disks dev).size sector count →
      ramdiskRead s (some dev) sector count (some buffer) =
        ⟨-1, buffer, s⟩

/- A write changes its sectors and no other, or nothing. -/
structure WritesSectors : Prop where
  accepted :
    (ramdiskWrite s (some dev) sector count (some buffer)).ret =
        0 ↔
      InDisk (s.disks dev).size sector count
  moved :
    InDisk (s.disks dev).size sector count →
      ∀ i < (s.disks dev).size.toNat,
        (ramdiskWrite s (some dev) sector count
            (some buffer)).state.byte dev i =
          if sector.toNat * 512 ≤ i ∧
              i < (sector.toNat + count.toNat) * 512 then
            buffer (i - sector.toNat * 512)
          else
            s.byte dev i
  refused :
    ¬ InDisk (s.disks dev).size sector count →
      ramdiskWrite s (some dev) sector count (some buffer) =
        ⟨-1, buffer, s⟩

end Transfers

--------------------
-- One Call
--------------------

section Bounds

variable {size sector count : U32}

/- What the bound test computes. -/
theorem toNat_end
    (sector count : U32) :
    (sector * ramdiskBlockSize +
        count * ramdiskBlockSize).toNat =
      (sector.toNat + count.toNat) * 512 % 2 ^ 32 := by
  simp only [ramdiskBlockSize, BitVec.toNat_add,
    BitVec.toNat_mul, BitVec.toNat_ofNat]
  omega

theorem InDisk.end_lt
    (hIn : InDisk size sector count) :
    sector.toNat * 512 + count.toNat * 512 < 2 ^ 64 := by
  have hSize := size.isLt
  unfold InDisk at hIn
  omega

theorem InDisk.sector_le
    {k : Nat}
    (hIn : InDisk size sector count)
    (hk : k < count.toNat) :
    (sector.toNat + k + 1) * 512 ≤ size.toNat := by
  have hLe : sector.toNat + k + 1 ≤ sector.toNat + count.toNat := by
    omega
  exact (Nat.mul_le_mul_right 512 hLe).trans hIn

theorem InDisk.sectorsOk
    (hIn : InDisk size sector count) :
    SectorsOk size sector count := by
  have hSize := size.isLt
  unfold InDisk at hIn
  exact Or.inl (by omega)

/- The sectors that are in the disk do not wrap. -/
theorem InDisk.toNat_mul
    (hIn : InDisk size sector count) :
    (sector * ramdiskBlockSize).toNat = sector.toNat * 512 ∧
      (count * ramdiskBlockSize).toNat = count.toNat * 512 := by
  have hSize := size.isLt
  unfold InDisk at hIn
  simp only [ramdiskBlockSize, BitVec.toNat_mul,
    BitVec.toNat_ofNat]
  omega

/- The test refuses what is not in the disk. -/
theorem SectorsOk.test_iff
    (hOk : SectorsOk size sector count) :
    size < sector * ramdiskBlockSize +
        count * ramdiskBlockSize ↔
      ¬ InDisk size sector count := by
  rw [BitVec.lt_def, toNat_end]
  have hSize := size.isLt
  unfold SectorsOk at hOk
  unfold InDisk
  omega

/- Where the end wraps into the disk the test accepts. -/
theorem sectorsOk_of_test
    (hTest :
      size < sector * ramdiskBlockSize +
          count * ramdiskBlockSize ↔
        ¬ InDisk size sector count) :
    SectorsOk size sector count := by
  rw [BitVec.lt_def, toNat_end] at hTest
  have hSize := size.isLt
  unfold InDisk at hTest
  unfold SectorsOk
  omega

end Bounds

section Calls

variable {s : RamdiskState}
variable {dev : Addr}
variable {sector count : U32}
variable {buffer : Bytes}

theorem ramdiskRead_ret
    (s : RamdiskState)
    (dev : Addr)
    (sector count : U32)
    (buffer : Bytes) :
    (ramdiskRead s (some dev) sector count (some buffer)).ret =
        0 ↔
      ¬ (s.disks dev).size <
        sector * ramdiskBlockSize + count * ramdiskBlockSize := by
  simp only [ramdiskRead]
  split
  next hTest => simp [hTest]
  next hTest => simp [hTest]

theorem ramdiskRead_memory
    (s : RamdiskState)
    (dev : Addr)
    (sector count : U32)
    (buffer : Bytes) :
    (ramdiskRead s (some dev) sector count
      (some buffer)).state.memory = s.memory := by
  simp only [ramdiskRead]
  split
  · rfl
  · rfl

/- Sums of an address and offsets. -/
theorem add_setWidth_ofNat
    {data : Addr}
    {offset : U32}
    {i : Nat} :
    data + offset.setWidth 64 + BitVec.ofNat 64 i =
      data + BitVec.ofNat 64 (offset.toNat + i) := by
  rw [BitVec.add_assoc, BitVec.ofNat_add, BitVec.ofNat_toNat]

theorem readsSectors
    (hOk : SectorsOk (s.disks dev).size sector count)
    (buffer : Bytes) :
    ReadsSectors s dev sector count buffer := by
  have hTest := hOk.test_iff
  constructor
  · rw [ramdiskRead_ret, hTest, not_not]
  · intro hIn i
    rcases hIn.toNat_mul with ⟨hSector, hCount⟩
    have hNot := mt hTest.mp (not_not.mpr hIn)
    simp only [ramdiskRead, hNot, if_false, copyOut, hCount]
    split
    · rw [add_setWidth_ofNat, hSector]
      rfl
    · rfl
  · exact ramdiskRead_memory s dev sector count buffer
  · intro hOut
    simp only [ramdiskRead, hTest.mpr hOut, if_true]

theorem ramdiskWrite_ret
    (s : RamdiskState)
    (dev : Addr)
    (sector count : U32)
    (buffer : Bytes) :
    (ramdiskWrite s (some dev) sector count (some buffer)).ret =
        0 ↔
      ¬ (s.disks dev).size <
        sector * ramdiskBlockSize + count * ramdiskBlockSize := by
  simp only [ramdiskWrite]
  split
  next hTest => simp [hTest]
  next hTest => simp [hTest]

theorem ramdiskWrite_disks
    (s : RamdiskState)
    (dev : Addr)
    (sector count : U32)
    (buffer : Bytes) :
    (ramdiskWrite s (some dev) sector count
      (some buffer)).state.disks = s.disks := by
  simp only [ramdiskWrite]
  split
  · rfl
  · rfl

/- The memory after a write that is accepted. -/
theorem ramdiskWrite_memory
    (hIn : InDisk (s.disks dev).size sector count)
    (buffer : Bytes) :
    (ramdiskWrite s (some dev) sector count
        (some buffer)).state.memory =
      s.memory.patch
        ((s.disks dev).data +
          BitVec.ofNat 64 (sector.toNat * 512))
        (count.toNat * 512) buffer := by
  rcases hIn.toNat_mul with ⟨hSector, hCount⟩
  have hNot := mt hIn.sectorsOk.test_iff.mp (not_not.mpr hIn)
  have hOffset :
      (sector * ramdiskBlockSize).setWidth 64 =
        BitVec.ofNat 64 (sector.toNat * 512) := by
    apply BitVec.eq_of_toNat_eq
    rw [BitVec.toNat_setWidth, BitVec.toNat_ofNat, hSector]
  simp only [ramdiskWrite, hNot, if_false, hOffset, hCount]

theorem writesSectors
    (hOk : SectorsOk (s.disks dev).size sector count)
    (buffer : Bytes) :
    WritesSectors s dev sector count buffer := by
  have hTest := hOk.test_iff
  constructor
  · rw [ramdiskWrite_ret, hTest, not_not]
  · intro hIn i hi
    have hByte : i < 2 ^ 64 :=
      hi.trans ((s.disks dev).size.isLt.trans (by decide))
    unfold RamdiskState.byte
    rw [ramdiskWrite_memory hIn, ramdiskWrite_disks,
      ByteMemory.patch_offset hByte hIn.end_lt.le, Nat.add_mul]
  · intro hOut
    simp only [ramdiskWrite, hTest.mpr hOut, if_true]

/- The calls are right exactly where the test is. -/
theorem transfers_iff :
    (∀ buffer,
      ReadsSectors s dev sector count buffer ∧
        WritesSectors s dev sector count buffer) ↔
      SectorsOk (s.disks dev).size sector count := by
  constructor
  · intro hAll
    rcases hAll fun _ => 0#8 with ⟨hRead, _⟩
    apply sectorsOk_of_test
    have hAccepted := hRead.accepted
    rw [ramdiskRead_ret] at hAccepted
    rw [← hAccepted, not_not]
  · intro hOk buffer
    exact ⟨readsSectors hOk buffer, writesSectors hOk buffer⟩

end Calls

--------------------
-- Runs
--------------------

inductive RamdiskTransfer where
  | read (dev : Addr) (sector count : U32) (buffer : Bytes)
  | write (dev : Addr) (sector count : U32) (buffer : Bytes)

def transferStep
    (s : RamdiskState)
    (call : RamdiskTransfer)
    (s' : RamdiskState) : Prop :=
  match call with
  | .read dev sector count buffer =>
      s' =
        (ramdiskRead s (some dev) sector count
          (some buffer)).state
  | .write dev sector count buffer =>
      s' =
        (ramdiskWrite s (some dev) sector count
          (some buffer)).state

/- A transfer of one of these disks whose end is computed right. -/
def TransferOk
    (devs : Addr → Prop)
    (s : RamdiskState)
    (call : RamdiskTransfer) : Prop :=
  match call with
  | .read dev sector count _ =>
      devs dev ∧ SectorsOk (s.disks dev).size sector count
  | .write dev sector count _ =>
      devs dev ∧ SectorsOk (s.disks dev).size sector count

/- The data of no two of these disks overlaps. -/
def Ramdisk.Apart
    (d e : Ramdisk) : Prop :=
  d.data.toNat + d.size.toNat ≤ e.data.toNat ∨
    e.data.toNat + e.size.toNat ≤ d.data.toNat

def RamdiskState.Apart
    (s : RamdiskState)
    (devs : Addr → Prop) : Prop :=
  ∀ d e, devs d → devs e → d ≠ e →
    (s.disks d).Apart (s.disks e)

/- What a call leaves as the last data written to a sector. -/
def writtenBy
    (disks : Addr → Ramdisk)
    (dev : Addr)
    (k : Nat)
    (old : Option Bytes) :
    RamdiskTransfer → Option Bytes
  | .read _ _ _ _ => old
  | .write d sector count buffer =>
      if d = dev ∧ InDisk (disks d).size sector count ∧
          sector.toNat ≤ k ∧ k < sector.toNat + count.toNat then
        some fun j => buffer ((k - sector.toNat) * 512 + j)
      else
        old

/- The last data the calls wrote to the sector `k`. -/
def lastWritten
    (disks : Addr → Ramdisk)
    (calls : List RamdiskTransfer)
    (dev : Addr)
    (k : Nat) :
    Option Bytes :=
  calls.foldl (writtenBy disks dev k) none

section Runs

variable {s s₀ s' : RamdiskState}
variable {devs : Addr → Prop}
variable {call : RamdiskTransfer}
variable {calls : List RamdiskTransfer}
variable {dev : Addr}
variable {k j : Nat}

theorem transferStep_disks
    (hStep : transferStep s call s') :
    s'.disks = s.disks := by
  cases call with
  | read d sector count buffer =>
      subst hStep
      simp only [ramdiskRead]
      split
      · rfl
      · rfl
  | write d sector count buffer =>
      subst hStep
      exact ramdiskWrite_disks s d sector count buffer

/- A write leaves the bytes of the other disks. -/
theorem ramdiskWrite_byte_other
    {d : Addr}
    {sector count : U32}
    (hApart : (s.disks d).Apart (s.disks dev))
    (hIn : InDisk (s.disks d).size sector count)
    (hj : j < (s.disks dev).size.toNat)
    (buffer : Bytes) :
    (ramdiskWrite s (some d) sector count
      (some buffer)).state.byte dev j = s.byte dev j := by
  have hFits := (s.disks d).fits
  have hFits' := (s.disks dev).fits
  unfold RamdiskState.byte
  rw [ramdiskWrite_memory hIn, ramdiskWrite_disks]
  unfold InDisk at hIn
  unfold Ramdisk.Apart at hApart
  by_cases hEmpty : count.toNat = 0
  · simp [ByteMemory.patch, hEmpty]
  · have hStart :
        ((s.disks d).data +
            BitVec.ofNat 64 (sector.toNat * 512)).toNat =
          (s.disks d).data.toNat + sector.toNat * 512 := by
      rw [BitVec.toNat_add, BitVec.toNat_ofNat]
      omega
    have hByte :
        ((s.disks dev).data + BitVec.ofNat 64 j).toNat =
          (s.disks dev).data.toNat + j := by
      rw [BitVec.toNat_add, BitVec.toNat_ofNat]
      omega
    apply ByteMemory.patch_outside
    · omega
    · omega

/- One call does to the bytes of a sector what it says. -/
theorem transferStep_byte
    (hApart : s.Apart devs)
    (hOk : TransferOk devs s call)
    (hStep : transferStep s call s')
    (hDev : devs dev)
    (hk : (k + 1) * 512 ≤ (s.disks dev).size.toNat)
    (hj : j < 512)
    {old : Option Bytes}
    {first : U8}
    (hOld : s.byte dev (k * 512 + j) = old.elim first (· j)) :
    s'.byte dev (k * 512 + j) =
      (writtenBy s.disks dev k old call).elim first (· j) := by
  cases call with
  | read d sector count buffer =>
      subst hStep
      unfold RamdiskState.byte
      rw [ramdiskRead_memory]
      have hStep :
          transferStep s (.read d sector count buffer) _ := rfl
      rw [transferStep_disks hStep]
      exact hOld
  | write d sector count buffer =>
      subst hStep
      rcases hOk with ⟨hd, hOk⟩
      have hWrites := writesSectors hOk buffer
      by_cases hIn : InDisk (s.disks d).size sector count
      · by_cases hSame : d = dev
        · subst hSame
          rw [hWrites.moved hIn _ (by omega)]
          by_cases hRange :
              sector.toNat ≤ k ∧ k < sector.toNat + count.toNat
          · rw [if_pos (by omega), writtenBy,
              if_pos ⟨rfl, hIn, hRange⟩]
            simp only [Option.elim_some]
            congr 1
            rw [Nat.sub_mul]
            omega
          · rw [if_neg (by omega), writtenBy,
              if_neg (by simp [hRange]), hOld]
        · rw [ramdiskWrite_byte_other
            (hApart d dev hd hDev hSame) hIn (by omega), writtenBy,
            if_neg (by simp [hSame]), hOld]
      · rw [hWrites.refused hIn, writtenBy,
          if_neg (by simp [hIn]), hOld]

/- A run does to the bytes of a sector what its writes say. -/
theorem transferRun_byte
    (hApart : s₀.Apart devs)
    (hDev : devs dev)
    (hk : (k + 1) * 512 ≤ (s₀.disks dev).size.toNat)
    (hj : j < 512)
    {old : Option Bytes}
    {first : U8}
    (hOld : s₀.byte dev (k * 512 + j) = old.elim first (· j))
    (hRun :
      Run (Guarded (TransferOk devs) transferStep) s₀ calls s) :
    s.disks = s₀.disks ∧
      s.byte dev (k * 512 + j) =
        (calls.foldl (writtenBy s₀.disks dev k) old).elim first
          (· j) := by
  induction hRun generalizing old with
  | nil s => exact ⟨rfl, hOld⟩
  | cons hStep _ ih =>
      have hDisks := transferStep_disks hStep.2
      have hByte := transferStep_byte hApart hStep.1 hStep.2 hDev
        hk hj hOld
      unfold RamdiskState.Apart at ih
      rw [hDisks] at ih
      exact ih hApart hk hByte

/-
  Each call reads or writes exactly its sectors, or is
  refused, if and only if the 32-bit end of its sectors does
  not wrap into the disk. After calls of that kind a read
  gives the last data written to each sector.
-/
theorem ramdisk_isSectorArray
    (hApart : s₀.Apart devs)
    (hRun :
      Run (Guarded (TransferOk devs) transferStep) s₀ calls s) :
    (∀ (t : RamdiskState) (dev : Addr) (sector count : U32),
      (∀ buffer,
        ReadsSectors t dev sector count buffer ∧
          WritesSectors t dev sector count buffer) ↔
        SectorsOk (t.disks dev).size sector count) ∧
    ∀ dev, devs dev → ∀ sector count buffer,
      InDisk (s.disks dev).size sector count →
        ∀ k < count.toNat, ∀ j < 512,
          (ramdiskRead s (some dev) sector count
              (some buffer)).buffer (k * 512 + j) =
            (lastWritten s₀.disks calls dev
                (sector.toNat + k)).elim
              (s₀.byte dev ((sector.toNat + k) * 512 + j))
              (· j) := by
  refine ⟨fun _ _ _ _ => transfers_iff, ?_⟩
  intro dev hDev sector count buffer hIn k hk j hj
  have hDisks : s.disks = s₀.disks := by
    apply hRun.invariant fun t => t.disks = s₀.disks
    · intro t call t' hSame hStep
      rw [transferStep_disks hStep.2, hSame]
    · rfl
  have hSector := hIn.sector_le hk
  rw [hDisks] at hSector
  have hFirst :
      s₀.byte dev ((sector.toNat + k) * 512 + j) =
        (none : Option Bytes).elim
          (s₀.byte dev ((sector.toNat + k) * 512 + j)) (· j) :=
    rfl
  have hByte := transferRun_byte hApart hDev hSector hj hFirst hRun
  have hRead :=
    (readsSectors hIn.sectorsOk buffer).moved hIn (k * 512 + j)
  have hLt : k * 512 + j < count.toNat * 512 := by omega
  rw [hRead, if_pos hLt, ← Nat.add_assoc, ← Nat.add_mul]
  exact hByte.2

end Runs

/- Two disks of one sector. -/
def twoDisks : RamdiskState where
  ramdisks := fun _ => none
  ramdiskCount := 0
  disks := fun dev =>
    { name := ⟨[], empty_noNul⟩
      data := if dev = 0x1000#64 then 0x10000#64 else 0x20000#64
      size := 512#32
      blockCount := 1#32
      minor := 0
      fits := by split <;> decide }
  memory := fun _ => 0#8
  heap := Heap.initial
  stats := ⟨0#64, 0#64, 0#64, 0#64⟩

/- A sector is written and read back. -/
theorem ramdisk_isSectorArray_write :
    (ramdiskRead
        (ramdiskWrite twoDisks (some 0x1000#64) 0#32 1#32
          (some fun _ => 7#8)).state
        (some 0x1000#64) 0#32 1#32 (some fun _ => 0#8)).buffer
      (0 * 512 + 511) = 7#8 := by
  have hApart : twoDisks.Apart fun dev => dev = 0x1000#64 := by
    rintro d e rfl rfl hNe
    exact absurd rfl hNe
  have hRun :
      Run
        (Guarded (TransferOk fun dev => dev = 0x1000#64)
          transferStep)
        twoDisks
        [.write 0x1000#64 0#32 1#32 fun _ => 7#8]
        (ramdiskWrite twoDisks (some 0x1000#64) 0#32 1#32
          (some fun _ => 7#8)).state :=
    .cons ⟨⟨rfl, .inl (by decide)⟩, rfl⟩ (.nil _)
  have hIn :
      InDisk
        ((ramdiskWrite twoDisks (some 0x1000#64) 0#32 1#32
          (some fun _ => 7#8)).state.disks 0x1000#64).size
        0#32 1#32 := by
    decide
  exact (ramdisk_isSectorArray hApart hRun).2 0x1000#64 rfl
    0#32 1#32 _ hIn 0 (by decide) 511 (by decide)

/-
  Sector 2^23 of a disk of one sector is read without an
  error.
-/
theorem ramdiskRead_wraps :
    ¬ ∀ (s : RamdiskState) (dev : Addr) (sector count : U32)
        (buffer : Bytes),
      (ramdiskRead s (some dev) sector count (some buffer)).ret =
          0 ↔
        InDisk (s.disks dev).size sector count := by
  intro hAll
  have hRead :=
    hAll twoDisks 0x1000#64 0x800000#32 1#32 fun _ => 0#8
  revert hRead
  decide

end FeatherOS
