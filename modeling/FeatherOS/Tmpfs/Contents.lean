import FeatherOS.Tmpfs.Blocks

/-
  A file of tmpfs as a zero-filled array of bytes.

  `kmalloc` does not clear a block, so a write beyond the end
  of a file leaves what the memory held in the gap. A read
  from beyond the end returns a wrapped count, and the ends
  of reads and writes wrap at 2^32.

  Key definitions include:
    * `ByteFile`
    * `Represents`
    * `ReadOk`
    * `WriteOk`
    * `fileStep`

  Key theorems include:
    * `readsFile_iff`
    * `writesFile_iff`
    * `tmpfsRun_files`
-/

namespace FeatherOS

--------------------
-- Arrays Of Bytes
--------------------

/- A file; all bytes from its end on are zero. -/
structure ByteFile where
  size : Nat
  byte : Nat → U8
  zero_beyond : ∀ i, size ≤ i → byte i = 0#8

namespace ByteFile

def empty : ByteFile where
  size := 0
  byte := fun _ => 0#8
  zero_beyond _ _ := rfl

/- The bytes up to a new end that were not written are zero. -/
def write
    (f : ByteFile)
    (offset : Nat)
    (buf : Bytes)
    (count : Nat) :
    ByteFile where
  size := max f.size (offset + count)
  byte := fun i =>
    if offset ≤ i ∧ i < offset + count then
      buf (i - offset)
    else
      f.byte i
  zero_beyond := by
    intro i hi
    rw [if_neg (by omega)]
    exact f.zero_beyond i (by omega)

/- How many bytes there are to read; subtraction stops at 0. -/
def available
    (f : ByteFile)
    (offset count : Nat) :
    Nat :=
  min count (f.size - offset)

end ByteFile

--------------------
-- The Property
--------------------

/- The byte `i` of the data of an inode. -/
def TmpfsState.byte
    (s : TmpfsState)
    (inode : Addr)
    (i : Nat) : U8 :=
  s.memory ((s.inodes inode).data.getD 0#64 + BitVec.ofNat 64 i)

structure Represents
    (s : TmpfsState)
    (inode : Addr)
    (f : ByteFile) : Prop where
  size : (s.inodes inode).size.toNat = f.size
  bytes : ∀ i < f.size, s.byte inode i = f.byte i

/- A read returns the bytes there are. -/
def ReadsFile
    (s : TmpfsState)
    (f : ByteFile)
    (inode : Addr)
    (offset : U32)
    (buf : Bytes)
    (count : U32) : Prop :=
  (tmpfsRead s (some inode) offset (some buf) count).1 =
      f.available offset.toNat count.toNat ∧
    ∀ i,
      (tmpfsRead s (some inode) offset (some buf) count).2 i =
        if i < f.available offset.toNat count.toNat then
          f.byte (offset.toNat + i)
        else
          buf i

/- A write is done to the array, or it changes nothing. -/
def WritesFile
    (s : TmpfsState)
    (f : ByteFile)
    (now : U64)
    (inode : Addr)
    (offset : U32)
    (buf : Bytes)
    (count : U32) : Prop :=
  (tmpfsWrite s now (some inode) offset (some buf) count).1 =
        count.toNat ∧
      Represents
        (tmpfsWrite s now (some inode) offset (some buf) count).2
        inode (f.write offset.toNat buf count.toNat) ∨
    tmpfsWrite s now (some inode) offset (some buf) count = (-1, s)

/-
  The read starts in the file or at its end, and its own end
  does not wrap into the file.
-/
def ReadOk
    (s : TmpfsState)
    (inode : Addr)
    (offset count : U32) : Prop :=
  offset.toNat ≤ (s.inodes inode).size.toNat ∧
    (offset.toNat + count.toNat < 2 ^ 32 ∨
      (s.inodes inode).size.toNat <
        (offset.toNat + count.toNat) % 2 ^ 32)

/-
  The write is refused, or its end does not wrap and a gap
  before it is zero in the memory that `kmalloc` gives.
-/
def WriteOk
    (s : TmpfsState)
    (inode : Addr)
    (offset count : U32) : Prop :=
  WriteRefused s inode offset count ∨
    offset.toNat + count.toNat < 2 ^ 32 ∧
      ∀ i, (s.inodes inode).size.toNat ≤ i → i < offset.toNat →
        s.memory (s.heap.heapPtr + BitVec.ofNat 64 i) = 0#8

--------------------
-- Reads
--------------------

section Files

variable {s : TmpfsState}
variable {live : List Addr}
variable {f : ByteFile}
variable {inode : Addr}
variable {offset count : U32}

/- A file lies in the heap. -/
theorem TmpfsBlocks.size_le
    (hBlocks : TmpfsBlocks s live)
    (hInode : inode ∈ live) :
    ((s.inodes inode).data.getD 0#64).toNat +
        (s.inodes inode).size.toNat ≤
      heapStart + heapSize := by
  have hTop := s.heap.heapPtr_le
  cases hData : (s.inodes inode).data with
  | none =>
      rw [hBlocks.empty inode hInode hData]
      decide
  | some d =>
      have hBelow :=
        hBlocks.placed.below (.data inode)
          ⟨d.toNat, (s.inodes inode).size.toNat⟩
          (by simp [tmpfsExtent, hInode, hData])
      simp only [Option.getD_some] at hBelow ⊢
      omega

/- The count that a read works with. -/
def readCount
    (s : TmpfsState)
    (inode : Addr)
    (offset count : U32) :
    U32 :=
  if (s.inodes inode).size < offset + count then
    (s.inodes inode).size - offset
  else
    count

theorem tmpfsRead_eq
    (buf : Bytes) :
    tmpfsRead s (some inode) offset (some buf) count =
      ((readCount s inode offset count).toInt,
        copyOut s.memory
          ((s.inodes inode).data.getD 0#64 + offset.setWidth 64)
          (readCount s inode offset count).toNat buf) := by
  have hAnswer :
      tmpfsRead s (some inode) offset (some buf) count =
        if readCount s inode offset count = 0#32 then
          (0, buf)
        else
          ((readCount s inode offset count).toInt,
            copyOut s.memory
              ((s.inodes inode).data.getD 0#64 +
                offset.setWidth 64)
              (readCount s inode offset count).toNat buf) := rfl
  rw [hAnswer]
  split
  next hZero =>
    rw [hZero]
    rfl
  next => rfl

variable (offset count) in
/- It is right exactly where the condition holds. -/
theorem readCount_iff
    (hSize : (s.inodes inode).size.toNat < 2 ^ 31) :
    (readCount s inode offset count).toInt =
        (min count.toNat
          ((s.inodes inode).size.toNat - offset.toNat) : Nat) ↔
      ReadOk s inode offset count := by
  have hOffset := offset.isLt
  have hCount := count.isLt
  unfold ReadOk
  rw [BitVec.toInt_eq_toNat_cond]
  by_cases hTest : (s.inodes inode).size < offset + count
  · rw [readCount, if_pos hTest, BitVec.toNat_sub]
    rw [BitVec.lt_def, BitVec.toNat_add] at hTest
    omega
  · rw [readCount, if_neg hTest]
    rw [BitVec.lt_def, BitVec.toNat_add] at hTest
    omega

/- A read returns what the array holds, where it may. -/
theorem readsFile_iff
    (hSize : (s.inodes inode).size.toNat < 2 ^ 31)
    (hFile : Represents s inode f) :
    (∀ buf, ReadsFile s f inode offset buf count) ↔
      ReadOk s inode offset count := by
  have hCount := readCount_iff offset count hSize
  rw [hFile.size] at hCount
  constructor
  · intro hAll
    rcases hAll fun _ => 0#8 with ⟨hRet, _⟩
    rw [tmpfsRead_eq] at hRet
    exact hCount.mp hRet
  · intro hOk buf
    have hRet := hCount.mpr hOk
    have hNat :
        (readCount s inode offset count).toNat =
          f.available offset.toNat count.toNat := by
      have hSmall := hFile.size
      rw [BitVec.toInt_eq_toNat_cond] at hRet
      unfold ByteFile.available
      omega
    unfold ReadsFile
    rw [tmpfsRead_eq]
    refine ⟨hRet, ?_⟩
    intro i
    simp only [copyOut, hNat]
    split
    next hi =>
      have hIn : offset.toNat + i < f.size := by
        unfold ByteFile.available at hi
        omega
      rw [← hFile.bytes _ hIn, ← BitVec.ofNat_toNat,
        BitVec.add_assoc, ← BitVec.ofNat_add]
      rfl
    next => rfl

--------------------
-- Writes
--------------------

variable {i : Nat}

/- The block of a file, old or new, with its old bytes. -/
theorem grownMemory_byte
    (hBlocks : TmpfsBlocks s live)
    (hInode : inode ∈ live)
    (hi : i < 2 ^ 32) :
    grownMemory s inode offset count
        ((writtenData s inode offset count).getD 0#64 +
          BitVec.ofNat 64 i) =
      if (s.inodes inode).size < offset + count ∧
          (s.inodes inode).size.toNat ≤ i then
        s.memory (s.heap.heapPtr + BitVec.ofNat 64 i)
      else
        s.byte inode i := by
  have hTop := s.heap.heapPtr_le
  have hHeap : heapStart + heapSize < 2 ^ 32 := by decide
  have hSize := (s.inodes inode).size.isLt
  by_cases hGrows : (s.inodes inode).size < offset + count
  · simp only [grownMemory, writtenData, hGrows, if_true, true_and,
      Option.getD_some]
    cases hData : (s.inodes inode).data with
    | none =>
        have hZero : (s.inodes inode).size.toNat ≤ i := by
          rw [hBlocks.empty inode hInode hData]
          exact Nat.zero_le i
        rw [if_pos hZero]
    | some d =>
        simp only
        by_cases hIn : (s.inodes inode).size.toNat ≤ i
        · rw [if_pos hIn]
          have hAt :
              (s.heap.heapPtr + BitVec.ofNat 64 i).toNat =
                s.heap.heapPtr.toNat + i := by
            rw [BitVec.toNat_add, BitVec.toNat_ofNat]
            omega
          apply ByteMemory.patch_outside
          · omega
          · omega
        · rw [if_neg hIn, ByteMemory.patch_inside (by omega)
            (by omega)]
          simp only [TmpfsState.byte, hData, Option.getD_some]
  · simp only [grownMemory, writtenData, hGrows, if_false,
      false_and]
    rfl

variable {buf : Bytes}
variable {now : U64}
variable {answer : Int × TmpfsState}

/- The bytes of a file after a write whose end does not wrap. -/
theorem WriteDone.byte
    (hBlocks : TmpfsBlocks s live)
    (hInode : inode ∈ live)
    (hDone : WriteDone s live now inode offset buf count answer)
    (hEnd : offset.toNat + count.toNat < 2 ^ 32)
    (hi : i < 2 ^ 32) :
    answer.2.byte inode i =
      if offset.toNat ≤ i ∧ i < offset.toNat + count.toNat then
        buf (i - offset.toNat)
      else if (s.inodes inode).size < offset + count ∧
          (s.inodes inode).size.toNat ≤ i then
        s.memory (s.heap.heapPtr + BitVec.ofNat 64 i)
      else
        s.byte inode i := by
  have hNode := hDone.changed.inodes inode hInode
  rw [if_pos rfl] at hNode
  rw [TmpfsState.byte, hNode, hDone.memory, ← BitVec.ofNat_toNat,
    ByteMemory.patch_offset (by omega) (by omega),
    grownMemory_byte hBlocks hInode hi]

theorem writtenSize_toNat
    (hEnd : offset.toNat + count.toNat < 2 ^ 32) :
    (writtenSize s inode offset count).toNat =
      max (s.inodes inode).size.toNat
        (offset.toNat + count.toNat) := by
  have hSum :
      (offset + count).toNat = offset.toNat + count.toNat := by
    rw [BitVec.toNat_add]
    omega
  unfold writtenSize
  split
  next hGrows =>
    rw [BitVec.lt_def] at hGrows
    omega
  next hGrows =>
    rw [BitVec.lt_def] at hGrows
    omega

theorem Represents.write
    (hFile : Represents s inode f)
    (hBlocks : TmpfsBlocks s live)
    (hInode : inode ∈ live)
    (hDone : WriteDone s live now inode offset buf count answer)
    (hEnd : offset.toNat + count.toNat < 2 ^ 32)
    (hGap : ∀ i, (s.inodes inode).size.toNat ≤ i →
      i < offset.toNat →
        s.memory (s.heap.heapPtr + BitVec.ofNat 64 i) = 0#8) :
    Represents answer.2 inode
      (f.write offset.toNat buf count.toNat) := by
  have hNode := hDone.changed.inodes inode hInode
  rw [if_pos rfl] at hNode
  have hSize := hFile.size
  have hMax := (s.inodes inode).size.isLt
  have hSum :
      (offset + count).toNat = offset.toNat + count.toNat := by
    rw [BitVec.toNat_add]
    omega
  constructor
  · rw [hNode]
    simp only [writtenSize_toNat hEnd, hSize, ByteFile.write]
  · intro i hi
    simp only [ByteFile.write] at hi ⊢
    rw [hDone.byte hBlocks hInode hEnd (by omega)]
    split
    · rfl
    next hOut =>
      split
      next hNew =>
        -- the byte is in the gap
        rw [hGap i hNew.2 (by omega),
          f.zero_beyond i (by omega)]
      next hOld =>
        rw [BitVec.lt_def, hSum] at hOld
        exact hFile.bytes i (by omega)

/- An accepted write has a count that is a positive `int`. -/
theorem accepted_toInt
    (hBlocks : TmpfsBlocks s live)
    (hInode : inode ∈ live)
    (hAccepted : ¬ WriteRefused s inode offset count)
    (hEnd : offset.toNat + count.toNat < 2 ^ 32) :
    count.toInt = count.toNat := by
  have hHeap : heapStart + heapSize < 2 ^ 31 := by decide
  have hSize := hBlocks.size_le hInode
  have hSum :
      (offset + count).toNat = offset.toNat + count.toNat := by
    rw [BitVec.toNat_add]
    omega
  have hSmall : count.toNat < 2 ^ 31 := by
    by_cases hGrows : (s.inodes inode).size < offset + count
    · have hRoom := (grown_heap hAccepted hGrows).1
      have hTop :=
        (kmalloc s.heap
          ((offset + count).setWidth 64)).2.heapPtr_le
      omega
    · rw [BitVec.lt_def, hSum] at hGrows
      omega
  rw [BitVec.toInt_eq_toNat_cond, if_pos (by omega)]

/- A write is done to the array, where it may. -/
theorem writesFile_iff
    (hBlocks : TmpfsBlocks s live)
    (hInode : inode ∈ live)
    (hFile : Represents s inode f) :
    (∀ now buf, WritesFile s f now inode offset buf count) ↔
      WriteOk s inode offset count := by
  constructor
  · intro hAll
    by_cases hRefused : WriteRefused s inode offset count
    · exact .inl hRefused
    right
    have hEnd : offset.toNat + count.toNat < 2 ^ 32 := by
      -- a state after the write has another time
      have hNow := hAll ((s.inodes inode).mtime + 1#64) fun _ => 0#8
      rw [WritesFile, tmpfsWrite_accepted hRefused] at hNow
      rcases hNow with ⟨_, hDone⟩ | hSame
      · have hSize := hDone.size
        have hMax := BitVec.isLt
          ((tmpfsStore (writtenState s inode offset count)
            ((s.inodes inode).mtime + 1#64) inode offset
            (fun _ => 0#8) count).2.inodes inode).size
        simp only [ByteFile.write] at hSize
        omega
      · have hTime := congrArg
          (fun answer => (answer.2.inodes inode).mtime) hSame
        simp only [tmpfsStore, TmpfsState.modify,
          Function.update_self] at hTime
        have hOne := congrArg BitVec.toNat hTime
        simp only [BitVec.toNat_add, BitVec.toNat_ofNat] at hOne
        omega
    refine ⟨hEnd, ?_⟩
    intro i hFrom hTo
    have hZero := hAll 0#64 fun _ => 0#8
    have hDone := tmpfsWrite_done hBlocks hInode hRefused
      (hBlocks.spares_write hInode hEnd) 0#64 fun _ => 0#8
    rcases hZero with ⟨_, hRep⟩ | hSame
    · have hSize := hFile.size
      have hByte := hRep.bytes i (by
        simp only [ByteFile.write]
        omega)
      simp only [ByteFile.write] at hByte
      rw [hDone.byte hBlocks hInode hEnd (by omega),
        if_neg (by omega), if_pos, if_neg (by omega),
        f.zero_beyond i (by omega)] at hByte
      · exact hByte
      · rw [BitVec.lt_def, BitVec.toNat_add]
        omega
    · have hRet := hDone.ret
      rw [hSame, BitVec.toInt_eq_toNat_cond] at hRet
      omega
  · rintro hOk now buf
    by_cases hRefused : WriteRefused s inode offset count
    · exact .inr (tmpfsWrite_refused hRefused now buf)
    · rcases hOk with hRefused' | ⟨hEnd, hGap⟩
      · exact absurd hRefused' hRefused
      · have hDone := tmpfsWrite_done hBlocks hInode hRefused
          (hBlocks.spares_write hInode hEnd) now buf
        left
        constructor
        · rw [hDone.ret,
            accepted_toInt hBlocks hInode hRefused hEnd]
        · exact hFile.write hBlocks hInode hDone hEnd hGap

/- The block of a file with data. -/
theorem TmpfsBlocks.fileBelow
    (hBlocks : TmpfsBlocks s live)
    (hInode : inode ∈ live)
    {d : Addr}
    (hData : (s.inodes inode).data = some d) :
    d.toNat + (s.inodes inode).size.toNat ≤
      s.heap.heapPtr.toNat :=
  hBlocks.placed.below (.data inode)
    ⟨d.toNat, (s.inodes inode).size.toNat⟩
    (by simp [tmpfsExtent, hInode, hData])

/- A write leaves the bytes of the other files. -/
theorem WriteDone.byte_other
    (hDone : WriteDone s live now inode offset buf count answer)
    (hBlocks : TmpfsBlocks s live)
    (hAfter : TmpfsBlocks answer.2 live)
    (hInode : inode ∈ live)
    (hEnd : offset.toNat + count.toNat < 2 ^ 32)
    {b : Addr}
    (hb : b ∈ live)
    (hNe : b ≠ inode)
    (hi : i < (s.inodes b).size.toNat) :
    answer.2.byte b i = s.byte b i := by
  have hTop := s.heap.heapPtr_le
  have hHeap : heapStart + heapSize < 2 ^ 32 := by decide
  have hNode := hDone.changed.inodes inode hInode
  have hOther := hDone.changed.inodes b hb
  rw [if_pos rfl] at hNode
  rw [if_neg hNe] at hOther
  cases hData : (s.inodes b).data with
  | none =>
      have hEmpty := hBlocks.empty b hb hData
      rw [hEmpty] at hi
      exact absurd hi (Nat.not_lt_zero i)
  | some d =>
      have hBelow := hBlocks.fileBelow hb hData
      simp only [TmpfsState.byte, hOther, hData, Option.getD_some,
        hDone.memory]
      -- the copy of the old data goes above all blocks
      have hGrown :
          grownMemory s inode offset count
              (d + BitVec.ofNat 64 i) =
            s.memory (d + BitVec.ofNat 64 i) := by
        have hMax := (s.inodes inode).size.isLt
        unfold grownMemory
        split
        · cases (s.inodes inode).data with
          | none => rfl
          | some old =>
              apply ByteMemory.patch_apart (by omega) (by omega) _ hi
              exact .inr hBelow
        · rfl
      rw [← hGrown]
      cases hNew : writtenData s inode offset count with
      | none =>
          have hNoData : (answer.2.inodes inode).data = none := by
            rw [hNode]
            exact hNew
          have hZero := hAfter.empty inode hInode hNoData
          rw [hNode] at hZero
          have hNone :
              (writtenSize s inode offset count).toNat = _ :=
            writtenSize_toNat hEnd
          have hNothing : count.toNat = 0 := by
            simp only at hZero
            rw [hZero, BitVec.toNat_ofNat] at hNone
            omega
          simp [ByteMemory.patch, hNothing]
      | some new =>
          have hNewBelow := hAfter.size_le hInode
          rw [hNode, hNew] at hNewBelow
          simp only [Option.getD_some,
            writtenSize_toNat hEnd] at hNewBelow ⊢
          have hStart :
              (new + offset.setWidth 64).toNat =
                new.toNat + offset.toNat := by
            rw [BitVec.toNat_add, BitVec.toNat_setWidth]
            omega
          apply ByteMemory.patch_apart (by omega) (by omega) _ hi
          apply hAfter.placed.within (i := .data inode)
            (j := .data b)
            (p := ⟨new.toNat,
              (writtenSize s inode offset count).toNat⟩)
          · simp [Ne.symm hNe]
          · simp [tmpfsExtent, hInode, hNode, hNew]
          · simp [tmpfsExtent, hb, hOther, hData]
          · simp only [hStart]
            omega
          · simp only [hStart, writtenSize_toNat hEnd]
            omega

end Files

--------------------
-- Runs
--------------------

/- A session that remembers an array for every file. -/
structure FileSession extends TmpfsSession where
  files : Addr → ByteFile

/- A new file is empty; a write counts when it returns `count`. -/
def filesNext
    (s : FileSession) :
    TmpfsCall → Addr → ByteFile
  | .create now parent name mode =>
      match (tmpfsCreate s.toTmpfsState now parent name mode).1 with
      | none => s.files
      | some a => Function.update s.files a ByteFile.empty
  | .write now (some a) offset (some buf) count =>
      if (tmpfsWrite s.toTmpfsState now (some a) offset (some buf)
            count).1 =
          count.toNat then
        Function.update s.files a
          ((s.files a).write offset.toNat buf count.toNat)
      else
        s.files
  | _ => s.files

def fileStep
    (s : FileSession)
    (call : TmpfsCall)
    (s' : FileSession) : Prop :=
  tmpfsStep s.toTmpfsSession call s'.toTmpfsSession ∧
    s'.files = filesNext s call

/- After `tmpfs_init` all files are empty. -/
def FilesStarted (s : FileSession) : Prop :=
  TmpfsStarted s.toTmpfsSession ∧
    ∀ a ∈ s.live, s.files a = ByteFile.empty

/- The condition on every read and write. -/
def FileOk
    (s : FileSession) :
    TmpfsCall → Prop
  | .read (some a) offset (some _) count =>
      ReadOk s.toTmpfsState a offset count
  | .write _ (some a) offset (some _) count =>
      WriteOk s.toTmpfsState a offset count
  | _ => True

/- What every call keeps. -/
structure FilesInvariant (s : FileSession) : Prop where
  blocks : TmpfsBlocks s.toTmpfsState s.live
  files : ∀ a ∈ s.live, Represents s.toTmpfsState a (s.files a)

variable {call : TmpfsCall}

theorem FileOk.writeOk
    {s : FileSession}
    (hOk : FileOk s call) :
    TmpfsWriteOk s.toTmpfsSession call := by
  cases call with
  | write now inode offset buf count =>
      cases inode with
      | none => trivial
      | some inode =>
          cases buf with
          | none => trivial
          | some buf =>
              rcases hOk with hRefused | ⟨hEnd, _⟩
              · exact .inr (.inl hRefused)
              · exact .inl hEnd
  | _ => trivial

/- An inode with the same data, and the same bytes there. -/
theorem Represents.congr
    {s s' : TmpfsState}
    {a : Addr}
    {f : ByteFile}
    (hFile : Represents s a f)
    (hData : (s'.inodes a).data = (s.inodes a).data)
    (hSize : (s'.inodes a).size = (s.inodes a).size)
    (hByte : ∀ i < (s.inodes a).size.toNat,
      s'.memory
          ((s.inodes a).data.getD 0#64 + BitVec.ofNat 64 i) =
        s.byte a i) :
    Represents s' a f := by
  constructor
  · rw [hSize, hFile.size]
  · intro i hi
    rw [TmpfsState.byte, hData,
      hByte i (by rw [hFile.size]; exact hi)]
    exact hFile.bytes i hi

theorem FilesInvariant.step
    {s s' : FileSession}
    (hInv : FilesInvariant s)
    (hOk : FileOk s call)
    (hStep : fileStep s call s') :
    FilesInvariant s' := by
  have hBlocks := hInv.blocks.step hOk.writeOk hStep.1
  refine ⟨hBlocks, ?_⟩
  rcases s' with ⟨s', files'⟩
  rcases hStep with ⟨⟨hLegal, hNext⟩, hFiles⟩
  simp only at hBlocks hNext hFiles ⊢
  subst hNext hFiles
  have hFresh := hInv.blocks.fresh
  cases call with
  | create now parent name mode =>
      have hParent : parent ≠ some s.heap.heapPtr := by
        rintro rfl
        exact hFresh (hLegal _ rfl)
      rcases tmpfsCreate_cases now name mode hParent with
        hFull | ⟨t, hNew, hCreated, _, _⟩
      · simp only [tmpfsNext, filesNext, hFull]
        exact hInv.files
      · simp only [tmpfsNext, filesNext, hNew]
        intro b hb
        rcases List.mem_cons.mp hb with rfl | hb
        · rcases hCreated.new with ⟨_, hSize, _, _, _⟩
          rw [Function.update_self]
          refine ⟨by rw [hSize]; rfl, ?_⟩
          intro i hi
          cases hi
        · have hNe : b ≠ s.heap.heapPtr := by
            rintro rfl
            exact hFresh hb
          rcases unlinked_fields (hCreated.others b hNe) with
            ⟨_, hSize, hData, _, _⟩
          rw [Function.update_of_ne hNe]
          apply (hInv.files b hb).congr hData hSize
          intro i _
          rw [hCreated.memory]
          rfl
  | delete inode =>
      cases inode with
      | none => exact hInv.files
      | some a =>
          rcases hLegal a rfl with ⟨ha, _⟩
          have hRefs := hInv.blocks.refs a ha
          have hGone :=
            tmpfsDelete_deleted hRefs (hInv.blocks.empty a ha)
          simp only [tmpfsNext, filesNext, hRefs]
          intro b hb
          rcases (hInv.blocks.nodup.mem_erase_iff).mp hb with
            ⟨hNe, hLive⟩
          rcases unlinked_fields (hGone.others b hNe) with
            ⟨_, hSize, hData, _, _⟩
          apply (hInv.files b hLive).congr hData hSize
          intro i _
          rw [hGone.memory]
          rfl
  | read inode offset buf count => exact hInv.files
  | write now inode offset buf count =>
      cases inode with
      | none => exact hInv.files
      | some inode =>
          cases buf with
          | none => exact hInv.files
          | some buf =>
              have hInode := hLegal inode rfl
              have hFile := hInv.files inode hInode
              simp only [tmpfsNext, filesNext] at hBlocks ⊢
              by_cases hRefused :
                  WriteRefused s.toTmpfsState inode offset count
              · have hRet : (-1 : Int) ≠ (count.toNat : Int) := by
                  omega
                rw [tmpfsWrite_refused hRefused, if_neg hRet]
                exact hInv.files
              · rcases hOk with hRefused' | ⟨hEnd, hGap⟩
                · exact absurd hRefused' hRefused
                have hDone := tmpfsWrite_done hInv.blocks hInode
                  hRefused (hInv.blocks.spares_write hInode hEnd)
                  now buf
                have hRet := hDone.ret
                rw [accepted_toInt hInv.blocks hInode hRefused
                  hEnd] at hRet
                rw [if_pos hRet]
                intro b hb
                by_cases hNe : b = inode
                · subst hNe
                  rw [Function.update_self]
                  exact hFile.write hInv.blocks hInode hDone hEnd
                    hGap
                · have hNode := hDone.changed.inodes b hb
                  rw [if_neg hNe] at hNode
                  rw [Function.update_of_ne hNe]
                  apply (hInv.files b hb).congr
                    (by rw [hNode]) (by rw [hNode])
                  intro i hi
                  have hByte := hDone.byte_other hInv.blocks
                    hBlocks hInode hEnd hb hNe hi
                  rw [TmpfsState.byte, hNode] at hByte
                  exact hByte
  | other size memory =>
      simp only [tmpfsNext, filesNext]
      intro b hb
      refine Represents.congr (s := s.toTmpfsState)
        (hInv.files b hb) rfl rfl ?_
      intro i hi
      cases hData : (s.inodes b).data with
      | none =>
          rw [hInv.blocks.empty b hb hData] at hi
          exact absurd hi (Nat.not_lt_zero i)
      | some d =>
          simp only [TmpfsState.byte, hData, Option.getD_some]
          exact hLegal b hb d hData i hi

/-
  After reads and writes that meet the condition the files
  are their arrays, and the next read or write is right if
  and only if it meets the condition.
-/
theorem tmpfsRun_files
    {s₀ s : FileSession}
    {calls : List TmpfsCall}
    (hStart : FilesStarted s₀)
    (hRun : Run (Guarded FileOk fileStep) s₀ calls s) :
    ∀ a ∈ s.live,
      Represents s.toTmpfsState a (s.files a) ∧
        ∀ offset count,
          ((∀ buf,
              ReadsFile s.toTmpfsState (s.files a) a offset buf
                count) ↔
            ReadOk s.toTmpfsState a offset count) ∧
          ((∀ now buf,
              WritesFile s.toTmpfsState (s.files a) now a offset
                buf count) ↔
            WriteOk s.toTmpfsState a offset count) := by
  have hInv : FilesInvariant s := by
    apply hRun.invariant FilesInvariant
    · intro t call t' hInv hStep
      exact hInv.step hStep.1 hStep.2
    · refine ⟨hStart.1.blocks, ?_⟩
      intro a ha
      rw [hStart.2 a ha]
      rcases hStart.1.initialized with ⟨root, sb, hInit⟩
      rw [hInit.live] at ha
      refine ⟨?_, fun i hi => absurd hi (Nat.not_lt_zero i)⟩
      rw [List.mem_singleton.mp ha, hInit.node]
      rfl
  intro a ha
  have hFile := hInv.files a ha
  have hSize := hInv.blocks.size_le ha
  have hHeap : heapStart + heapSize < 2 ^ 31 := by decide
  refine ⟨hFile, fun offset count => ⟨?_, ?_⟩⟩
  · exact readsFile_iff (by omega) hFile
  · exact writesFile_iff hInv.blocks ha hFile

def startedFiles : FileSession where
  toTmpfsSession := startedTmpfs
  files := fun _ => ByteFile.empty

theorem startedFiles_started :
    FilesStarted startedFiles :=
  ⟨startedTmpfs_started, fun _ _ => rfl⟩

def filesAfter
    (s : FileSession)
    (call : TmpfsCall) :
    FileSession where
  toTmpfsSession := tmpfsNext s.toTmpfsSession call
  files := filesNext s call

def writtenFiles : FileSession :=
  fileCalls.foldl filesAfter startedFiles

/- What was written is read. -/
theorem tmpfsRun_files_read :
    ReadsFile writtenFiles.toTmpfsState
      (writtenFiles.files 0x200170#64) 0x200170#64 2#32
      (fun _ => 0#8) 4#32 := by
  have hRun :
      Run (Guarded FileOk fileStep) startedFiles fileCalls
        writtenFiles := by
    refine .cons ⟨trivial, ⟨?_, rfl⟩, rfl⟩
      (.cons ⟨.inr ⟨by decide, ?_⟩, ⟨?_, rfl⟩, rfl⟩ (.nil _))
    · intro p hp
      cases hp
      decide +kernel
    · intro i _ hi
      exact absurd hi (Nat.not_lt_zero i)
    · intro a ha
      cases ha
      decide +kernel
  have hLive : 0x200170#64 ∈ writtenFiles.live := by
    decide +kernel
  rcases tmpfsRun_files startedFiles_started hRun 0x200170#64
    hLive with ⟨_, hNext⟩
  have hOk :
      ReadOk writtenFiles.toTmpfsState 0x200170#64 2#32 4#32 := by
    unfold ReadOk
    decide +kernel
  exact (hNext 2#32 4#32).1.mpr hOk fun _ => 0#8

/- A read from beyond the end of a file returns -1. -/
theorem tmpfsRead_wraps :
    ¬ ∀ (s₀ s : FileSession) (calls : List TmpfsCall),
      FilesStarted s₀ → Run fileStep s₀ calls s →
        ∀ a ∈ s.live, ∀ (offset : U32) (buf : Bytes) (count : U32),
          ReadsFile s.toTmpfsState (s.files a) a offset buf
            count := by
  intro hAll
  rcases hAll startedFiles startedFiles [] startedFiles_started
      (.nil _) 0x200018#64 (by decide +kernel) 1#32
      (fun _ => 0#8) 1#32 with
    ⟨hRet, _⟩
  revert hRet
  decide +kernel

end FeatherOS
