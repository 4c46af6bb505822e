import FeatherOS.Tmpfs.Model

/-
  Calls of tmpfs, and what its writes do.

  A session remembers the inodes that are live. The blocks
  that the superblock, the live inodes and their files have
  lie apart, and a copy into the block of a file leaves the
  records alone. Only a copy beyond it can reach them.

  Key definitions include:
    * `TmpfsSession`
    * `TmpfsCall`
    * `tmpfsStep`
    * `tmpfsExtent`
    * `Spares`

  Key theorems include:
    * `tmpfsWrite_refused`
    * `tmpfsWrite_done`
-/

namespace FeatherOS

--------------------
-- Sessions
--------------------

/- The live inodes are those created and not yet freed. -/
structure TmpfsSession extends TmpfsState where
  live : List Addr

/-
  A call of another part of the kernel asks for memory and
  writes to what is its own.
-/
inductive TmpfsCall where
  | create
      (now : U64)
      (parent : Option Addr)
      (name : Option CString)
      (mode : U16)
  | delete (inode : Option Addr)
  | read
      (inode : Option Addr)
      (offset : U32)
      (buf : Option Bytes)
      (count : U32)
  | write
      (now : U64)
      (inode : Option Addr)
      (offset : U32)
      (buf : Option Bytes)
      (count : U32)
  | other (size : U64) (memory : ByteMemory)

/- The inodes that are passed are live; one to delete is empty. -/
def TmpfsLegal
    (s : TmpfsSession) :
    TmpfsCall → Prop
  | .create _ parent _ _ => ∀ p, parent = some p → p ∈ s.live
  | .delete inode =>
      ∀ a, inode = some a →
        a ∈ s.live ∧ ∀ c ∈ s.live, (s.inodes c).parent ≠ some a
  | .read inode _ _ _ => ∀ a, inode = some a → a ∈ s.live
  | .write _ inode _ _ _ => ∀ a, inode = some a → a ∈ s.live
  | .other _ memory =>
      ∀ a ∈ s.live, ∀ data, (s.inodes a).data = some data →
        ∀ i < (s.inodes a).size.toNat,
          memory (data + BitVec.ofNat 64 i) =
            s.memory (data + BitVec.ofNat 64 i)

def tmpfsNext
    (s : TmpfsSession) :
    TmpfsCall → TmpfsSession
  | .create now parent name mode =>
      let answer :=
        tmpfsCreate s.toTmpfsState now parent name mode
      { toTmpfsState := answer.2
        live := answer.1.toList ++ s.live }
  | .delete none => s
  | .delete (some a) =>
      { toTmpfsState := (tmpfsDelete s.toTmpfsState (some a)).2
        live :=
          if 0 < ((s.inodes a).refcount - 1#32).toInt then
            s.live
          else
            s.live.erase a }
  | .read _ _ _ _ => s
  | .write now inode offset buf count =>
      { s with
        toTmpfsState :=
          (tmpfsWrite s.toTmpfsState now inode offset buf
            count).2 }
  | .other size memory =>
      { s with
        memory := memory
        heap := (kmalloc s.heap size).2 }

def tmpfsStep
    (s : TmpfsSession)
    (call : TmpfsCall)
    (s' : TmpfsSession) : Prop :=
  TmpfsLegal s call ∧ s' = tmpfsNext s call

/- After a `tmpfs_init` that succeeds the root is live. -/
def TmpfsStarted (s : TmpfsSession) : Prop :=
  ∃ (s₀ : TmpfsState) (root : Addr),
    tmpfsInit s₀ = (0, s.toTmpfsState) ∧
      s.sb.root = some root ∧ s.live = [root]

--------------------
-- Blocks
--------------------

inductive TmpfsOwner where
  | superblock
  | record (a : Addr)
  | data (a : Addr)

local instance inodeAddrs : LawfulBEq Addr := inferInstance

/- The blocks of the superblock, the inodes and the files. -/
def tmpfsExtent
    (s : TmpfsState)
    (live : List Addr) :
    TmpfsOwner → Option Extent
  | .superblock => s.sbPtr.map fun p => ⟨p.toNat, sizeofTmpfsSb⟩
  | .record a =>
      if a ∈ live then some ⟨a.toNat, sizeofTmpfsInode⟩ else none
  | .data a =>
      if a ∈ live then
        (s.inodes a).data.map fun d =>
          ⟨d.toNat, (s.inodes a).size.toNat⟩
      else
        none

/- The bytes are not those of a record. -/
def Spares
    (s : TmpfsState)
    (live : List Addr)
    (e : Extent) : Prop :=
  (∀ b ∈ live, e.Apart ⟨b.toNat, sizeofTmpfsInode⟩) ∧
    ∀ p, s.sbPtr = some p → e.Apart ⟨p.toNat, sizeofTmpfsSb⟩

/- The blocks are apart, and each inode has one reference. -/
structure TmpfsBlocks
    (s : TmpfsState)
    (live : List Addr) : Prop where
  nodup : live.Nodup
  placed :
    Extents.Placed (tmpfsExtent s live) s.heap.heapPtr.toNat
  empty : ∀ a ∈ live, (s.inodes a).data = none →
    (s.inodes a).size = 0#32
  refs : ∀ a ∈ live, (s.inodes a).refcount = 1#32

/- Where the bytes of a write go. -/
def writeExtent
    (data : Option Addr)
    (offset count : U32) :
    Extent :=
  ⟨(data.getD 0#64 + offset.setWidth 64).toNat, count.toNat⟩

/- The file grows, and there is no room for its new size. -/
def WriteRefused
    (s : TmpfsState)
    (inode : Addr)
    (offset count : U32) : Prop :=
  (s.inodes inode).size < offset + count ∧
    (s.sb.maxSize < s.sb.usedSize + (offset + count) ∨
      (kmalloc s.heap ((offset + count).setWidth 64)).1 = none)

/- The data of the file that the bytes are written to. -/
def writtenData
    (s : TmpfsState)
    (inode : Addr)
    (offset count : U32) :
    Option Addr :=
  if (s.inodes inode).size < offset + count then
    some s.heap.heapPtr
  else
    (s.inodes inode).data

def writtenSize
    (s : TmpfsState)
    (inode : Addr)
    (offset count : U32) :
    U32 :=
  if (s.inodes inode).size < offset + count then
    offset + count
  else
    (s.inodes inode).size

/- The memory with the old data at its new place. -/
def grownMemory
    (s : TmpfsState)
    (inode : Addr)
    (offset count : U32) :
    ByteMemory :=
  if (s.inodes inode).size < offset + count then
    match (s.inodes inode).data with
    | none => s.memory
    | some data =>
        s.memory.patch s.heap.heapPtr (s.inodes inode).size.toNat
          fun i => s.memory (data + BitVec.ofNat 64 i)
  else
    s.memory

/- Among the live inodes and the superblock only these change. -/
structure FileChanged
    (s s' : TmpfsState)
    (live : List Addr)
    (inode : Addr)
    (node : TmpfsInode)
    (usedSize : U32) : Prop where
  inodes : ∀ b ∈ live,
    s'.inodes b = if b = inode then node else s.inodes b
  sb : s'.sb = { s.sb with usedSize := usedSize }
  sbPtr : s'.sbPtr = s.sbPtr

/- What a write that is not refused does. -/
structure WriteDone
    (s : TmpfsState)
    (live : List Addr)
    (now : U64)
    (inode : Addr)
    (offset : U32)
    (buf : Bytes)
    (count : U32)
    (answer : Int × TmpfsState) : Prop where
  ret : answer.1 = count.toInt
  changed :
    FileChanged s answer.2 live inode
      { s.inodes inode with
        data := writtenData s inode offset count
        size := writtenSize s inode offset count
        mtime := now }
      (s.sb.usedSize - (s.inodes inode).size +
        writtenSize s inode offset count)
  memory :
    answer.2.memory =
      (grownMemory s inode offset count).patch
        ((writtenData s inode offset count).getD 0#64 +
          offset.setWidth 64)
        count.toNat buf
  heap :
    answer.2.heap =
      if (s.inodes inode).size < offset + count then
        (kmalloc s.heap ((offset + count).setWidth 64)).2
      else
        s.heap

section Blocks

variable {s : TmpfsState}
variable {live : List Addr}
variable {dst : Addr}
variable {n : Nat}
variable {bytes : Bytes}

theorem copyIn_inodes
    (hSpares : Spares s live ⟨dst.toNat, n⟩)
    {b : Addr}
    (hb : b ∈ live) :
    (s.copyIn dst n bytes).inodes b = s.inodes b := by
  simp only [TmpfsState.copyIn, TmpfsInode.copied]
  rw [if_pos (hSpares.1 b hb)]

theorem copyIn_sb
    (hSpares : Spares s live ⟨dst.toNat, n⟩) :
    (s.copyIn dst n bytes).sb = s.sb := by
  simp only [TmpfsState.copyIn]
  cases hPtr : s.sbPtr with
  | none => rfl
  | some p =>
      simp only [TmpfsSb.copied]
      rw [if_pos (hSpares.2 p hPtr)]

/- Memory that was not given out yet holds no record. -/
theorem TmpfsBlocks.spares_above
    (hBlocks : TmpfsBlocks s live)
    {e : Extent}
    (hAbove : s.heap.heapPtr.toNat ≤ e.start) :
    Spares s live e := by
  constructor
  · intro b hb
    have hBelow :=
      hBlocks.placed.below (.record b)
        ⟨b.toNat, sizeofTmpfsInode⟩ (by simp [tmpfsExtent, hb])
    exact .inr (hBelow.trans hAbove)
  · intro p hp
    have hBelow :=
      hBlocks.placed.below .superblock
        ⟨p.toNat, sizeofTmpfsSb⟩ (by simp [tmpfsExtent, hp])
    exact .inr (hBelow.trans hAbove)

/- Neither does a part of the block of a file. -/
theorem TmpfsBlocks.spares_within
    (hBlocks : TmpfsBlocks s live)
    {a data : Addr}
    (ha : a ∈ live)
    (hData : (s.inodes a).data = some data)
    {e : Extent}
    (hStart : data.toNat ≤ e.start)
    (hEnd :
      e.start + e.size ≤
        data.toNat + (s.inodes a).size.toNat) :
    Spares s live e := by
  have hFile :
      tmpfsExtent s live (.data a) =
        some ⟨data.toNat, (s.inodes a).size.toNat⟩ := by
    simp [tmpfsExtent, ha, hData]
  constructor
  · intro b hb
    exact hBlocks.placed.within (j := .record b) (by simp) hFile
      (by simp [tmpfsExtent, hb]) hStart hEnd
  · intro p hp
    exact hBlocks.placed.within (j := .superblock) (by simp) hFile
      (by simp [tmpfsExtent, hp]) hStart hEnd

--------------------
-- Writes
--------------------

variable {inode : Addr}
variable {offset count : U32}

theorem tmpfsGrow_changed
    (hInode : inode ∈ live)
    (hEmpty :
      (s.inodes inode).data = none → (s.inodes inode).size = 0#32)
    (newSize : U32)
    {newData : Addr}
    (hSpares :
      Spares s live
        ⟨newData.toNat, (s.inodes inode).size.toNat⟩) :
    FileChanged s (tmpfsGrow s inode newSize newData) live inode
      { s.inodes inode with data := some newData, size := newSize }
      (s.sb.usedSize - (s.inodes inode).size + newSize) := by
  cases hData : (s.inodes inode).data with
  | none =>
      constructor
      · intro b _
        simp only [tmpfsGrow, hData, TmpfsState.modify,
          Function.update_apply]
      · simp only [tmpfsGrow, hData, TmpfsState.modify,
          hEmpty hData, BitVec.sub_zero]
      · simp only [tmpfsGrow, hData, TmpfsState.modify]
  | some data =>
      constructor
      · intro b hb
        simp only [tmpfsGrow, hData, TmpfsState.modify,
          Function.update_apply, copyIn_inodes hSpares hb,
          copyIn_inodes hSpares hInode]
      · simp only [tmpfsGrow, hData, TmpfsState.modify,
          copyIn_inodes hSpares hInode, copyIn_sb hSpares]
      · simp only [tmpfsGrow, hData, TmpfsState.modify,
          TmpfsState.copyIn]

theorem tmpfsStore_changed
    (hInode : inode ∈ live)
    (hSpares :
      Spares s live
        (writeExtent (s.inodes inode).data offset count))
    (now : U64)
    (buf : Bytes) :
    FileChanged s (tmpfsStore s now inode offset buf count).2 live
      inode { s.inodes inode with mtime := now }
      s.sb.usedSize := by
  constructor
  · intro b hb
    simp only [tmpfsStore, TmpfsState.modify,
      Function.update_apply, copyIn_inodes hSpares hb,
      copyIn_inodes hSpares hInode]
  · simp only [tmpfsStore, TmpfsState.modify, copyIn_sb hSpares]
  · rfl

theorem FileChanged.trans
    {s' s'' : TmpfsState}
    {node node' : TmpfsInode}
    {used used' : U32}
    (hFirst : FileChanged s s' live inode node used)
    (hSecond : FileChanged s' s'' live inode node' used') :
    FileChanged s s'' live inode node' used' := by
  constructor
  · intro b hb
    rw [hSecond.inodes b hb, hFirst.inodes b hb]
    split
    · rfl
    · rfl
  · rw [hSecond.sb, hFirst.sb]
  · rw [hSecond.sbPtr, hFirst.sbPtr]

/- A write that is refused changes nothing. -/
theorem tmpfsWrite_refused
    (hRefused : WriteRefused s inode offset count)
    (now : U64)
    (buf : Bytes) :
    tmpfsWrite s now (some inode) offset (some buf) count =
      (-1, s) := by
  rcases hRefused with ⟨hGrows, hFull⟩
  simp only [tmpfsWrite, hGrows, if_true]
  split
  · rfl
  · next hLimit =>
      cases hCall :
          kmalloc s.heap ((offset + count).setWidth 64) with
      | mk p heap =>
          cases p with
          | none => rw [kmalloc_none hCall]
          | some p =>
              rcases hFull with hFull | hFull
              · exact absurd hFull hLimit
              · rw [hCall] at hFull
                cases hFull

/- The state in which the bytes are copied. -/
def writtenState
    (s : TmpfsState)
    (inode : Addr)
    (offset count : U32) :
    TmpfsState :=
  if (s.inodes inode).size < offset + count then
    tmpfsGrow
      { s with
        heap := (kmalloc s.heap ((offset + count).setWidth 64)).2 }
      inode (offset + count) s.heap.heapPtr
  else
    s

theorem tmpfsWrite_accepted
    (hAccepted : ¬ WriteRefused s inode offset count)
    (now : U64)
    (buf : Bytes) :
    tmpfsWrite s now (some inode) offset (some buf) count =
      tmpfsStore (writtenState s inode offset count) now inode
        offset buf count := by
  by_cases hGrows : (s.inodes inode).size < offset + count
  · simp only [WriteRefused, hGrows, true_and, not_or]
      at hAccepted
    rcases hAccepted with ⟨hLimit, hRoom⟩
    cases hCall :
        kmalloc s.heap ((offset + count).setWidth 64) with
    | mk p heap =>
        cases p with
        | none =>
            rw [hCall] at hRoom
            exact absurd rfl hRoom
        | some p =>
            have hNew := (kmalloc_some hCall).1
            subst hNew
            simp only [tmpfsWrite, writtenState, hGrows, if_true,
              hLimit, if_false, hCall]
  · simp only [tmpfsWrite, writtenState, hGrows, if_false]

variable (offset count) in
/- Growing changes the data and the size of the file. -/
theorem writtenState_changed
    (hBlocks : TmpfsBlocks s live)
    (hInode : inode ∈ live) :
    FileChanged s (writtenState s inode offset count) live inode
      { s.inodes inode with
        data := writtenData s inode offset count
        size := writtenSize s inode offset count }
      (s.sb.usedSize - (s.inodes inode).size +
        writtenSize s inode offset count) := by
  by_cases hGrows : (s.inodes inode).size < offset + count
  · have hAbove :
        Spares s live
          ⟨s.heap.heapPtr.toNat, (s.inodes inode).size.toNat⟩ :=
      hBlocks.spares_above (Nat.le_refl _)
    simp only [writtenState, writtenData, writtenSize, hGrows,
      if_true]
    have hGrown :=
      tmpfsGrow_changed
        (s :=
          { s with
            heap :=
              (kmalloc s.heap ((offset + count).setWidth 64)).2 })
        hInode (hBlocks.empty inode hInode)
        (offset + count) hAbove
    exact { hGrown with }
  · simp only [writtenState, writtenData, writtenSize, hGrows,
      if_false, BitVec.sub_add_cancel]
    refine ⟨?_, rfl, rfl⟩
    intro b _
    split
    next hb => rw [hb]
    next => rfl

theorem writtenState_memory :
    (writtenState s inode offset count).memory =
        grownMemory s inode offset count ∧
      (writtenState s inode offset count).heap =
        if (s.inodes inode).size < offset + count then
          (kmalloc s.heap ((offset + count).setWidth 64)).2
        else
          s.heap := by
  unfold writtenState grownMemory
  split
  · unfold tmpfsGrow
    cases (s.inodes inode).data with
    | none => exact ⟨rfl, rfl⟩
    | some data => exact ⟨rfl, rfl⟩
  · exact ⟨rfl, rfl⟩

theorem tmpfsWrite_done
    (hBlocks : TmpfsBlocks s live)
    (hInode : inode ∈ live)
    (hAccepted : ¬ WriteRefused s inode offset count)
    (hSpares :
      Spares s live
        (writeExtent (writtenData s inode offset count) offset
          count))
    (now : U64)
    (buf : Bytes) :
    WriteDone s live now inode offset buf count
      (tmpfsWrite s now (some inode) offset (some buf) count) := by
  have hGrown :=
    writtenState_changed offset count hBlocks hInode
  have hNode := hGrown.inodes inode hInode
  rw [if_pos rfl] at hNode
  have hStill :
      Spares (writtenState s inode offset count) live
        (writeExtent
          ((writtenState s inode offset count).inodes inode).data
          offset count) := by
    rw [hNode]
    refine ⟨hSpares.1, ?_⟩
    rw [hGrown.sbPtr]
    exact hSpares.2
  have hStored := tmpfsStore_changed hInode hStill now buf
  rw [hNode, hGrown.sb] at hStored
  rw [tmpfsWrite_accepted hAccepted]
  constructor
  · rfl
  · exact hGrown.trans hStored
  · simp only [tmpfsStore, TmpfsState.modify, TmpfsState.copyIn,
      hNode, writtenState_memory.1]
  · simp only [tmpfsStore, TmpfsState.modify, TmpfsState.copyIn,
      writtenState_memory.2]

/- The bytes of a write whose end does not wrap. -/
theorem TmpfsBlocks.spares_write
    (hBlocks : TmpfsBlocks s live)
    (hInode : inode ∈ live)
    (hEnd : offset.toNat + count.toNat < 2 ^ 32) :
    Spares s live
      (writeExtent (writtenData s inode offset count) offset
        count) := by
  have hTop := s.heap.heapPtr_le
  have hHeap : heapStart + heapSize < 2 ^ 32 := by decide
  have hOffset := offset.isLt
  have hSum :
      (offset + count).toNat = offset.toNat + count.toNat := by
    rw [BitVec.toNat_add]
    omega
  have hStart : ∀ d : Addr, d.toNat ≤ s.heap.heapPtr.toNat →
      (d + offset.setWidth 64).toNat =
        d.toNat + offset.toNat := by
    intro d hd
    rw [BitVec.toNat_add, BitVec.toNat_setWidth]
    omega
  by_cases hGrows : (s.inodes inode).size < offset + count
  · apply hBlocks.spares_above
    rw [writtenData, if_pos hGrows]
    simp only [writeExtent, Option.getD_some,
      hStart s.heap.heapPtr (Nat.le_refl _)]
    omega
  · rw [writtenData, if_neg hGrows]
    rw [BitVec.lt_def, hSum] at hGrows
    cases hData : (s.inodes inode).data with
    | none =>
        have hSize :
            (s.inodes inode).size.toNat = 0 := by
          rw [hBlocks.empty inode hInode hData]
          rfl
        have hZero : offset = 0#32 := by
          apply BitVec.eq_of_toNat_eq
          rw [BitVec.toNat_ofNat]
          omega
        have hNone : count.toNat = 0 := by omega
        subst hZero
        simp only [writeExtent, hNone]
        exact ⟨fun b _ => .inl (Nat.zero_le _),
          fun p _ => .inl (Nat.zero_le _)⟩
    | some d =>
        have hBelow :=
          hBlocks.placed.below (.data inode)
            ⟨d.toNat, (s.inodes inode).size.toNat⟩
            (by simp [tmpfsExtent, hInode, hData])
        have hAt := hStart d (by simp only at hBelow; omega)
        apply hBlocks.spares_within hInode hData
        · simp only [writeExtent, Option.getD_some, hAt]
          omega
        · simp only [writeExtent, Option.getD_some, hAt]
          omega

end Blocks

end FeatherOS
