import FeatherOS.Library.OpenFiles
import FeatherOS.Vfs.Lifetime

/-
  Open files as handles with a position.

  `vfs_read` tests the access mode with a mask in which
  `VFS_O_RDONLY` is zero, so that it refuses a file that is
  open for reading only. `vfs_write` does not look at
  `VFS_O_APPEND`.

  Key definitions include:
    * `vfsRead`
    * `vfsWrite`
    * `vfsLseek`
    * `ArrayFile`
    * `HandleRight`
    * `HandleOk`

  Key theorems include:
    * `vfsRead_right_iff`
    * `vfsWrite_right_iff`
    * `handleRun_right_iff`
-/

namespace FeatherOS

--------------------
-- Reading And Writing
--------------------

/-
  `fops->read` and `fops->write` may be NULL. They give the
  position behind what they moved, and `read` the bytes that
  it stored in the buffer.
-/
structure FileOps (W : Type) where
  read :
    Option
      (VfsFile → Addr → U32 → U64 → VfsKernel W →
        Int × List U8 × U64 × VfsKernel W)
  write :
    Option
      (VfsFile → List U8 → U32 → U64 → VfsKernel W →
        Int × U64 × VfsKernel W)

/- The access modes and flags of `vfs_open` -/
def vfsORdonly : U32 := 0x0000#32
def vfsOWronly : U32 := 0x0001#32
def vfsORdwr : U32 := 0x0002#32
def vfsOAppend : U32 := 0x0400#32

def vfsSeekSet : Int := 0
def vfsSeekCur : Int := 1
def vfsSeekEnd : Int := 2

variable {W : Type}

namespace VfsState

def findFile
    (s : VfsState W)
    (f : Addr) : Option VfsFile :=
  s.files.find? fun x => x.ptr = f

/- file->f_pos = pos -/
def setPos
    (s : VfsState W)
    (f : Addr)
    (pos : U64) :
    VfsState W :=
  { s with
    files := s.files.map fun x =>
      if x.ptr = f then { x with pos := pos } else x }

/- After a call of the operations of a file -/
def afterOps
    (s : VfsState W)
    (kernel : VfsKernel W) :
    VfsState W :=
  { s with kernel := kernel, operations := s.operations + 1#64 }

end VfsState

section Calls

variable (fops : Addr → FileOps W)

/- The status, `*read` if it is stored, and the bytes -/
def vfsRead
    (s : VfsState W)
    (file buf : Option Addr)
    (count : U32) :
    Int × Option U32 × List U8 × VfsState W :=
  match file, buf with
  | some f, some buf =>
      match s.findFile f with
      | none => (-1, none, [], s)
      | some file =>
          if file.flags &&& (vfsORdonly ||| vfsORdwr) = 0#32 then
            (-1, some 0#32, [], s)
          else
            match (fops file.vnode).read with
            | none => (-1, some 0#32, [], s)
            | some read =>
                match read file buf count file.pos s.kernel with
                | (ret, bytes, pos, kernel) =>
                    if 0 ≤ ret then
                      (ret, some (BitVec.ofInt 32 ret), bytes,
                        (s.setPos f pos).afterOps kernel)
                    else
                      (ret, some 0#32, bytes, s.afterOps kernel)
  | _, _ => (-1, none, [], s)

/- The status, and `*written` if it is stored -/
def vfsWrite
    (s : VfsState W)
    (file : Option Addr)
    (buf : Option (List U8))
    (count : U32) :
    Int × Option U32 × VfsState W :=
  match file, buf with
  | some f, some buf =>
      match s.findFile f with
      | none => (-1, none, s)
      | some file =>
          if file.flags &&& (vfsOWronly ||| vfsORdwr) = 0#32 then
            (-1, some 0#32, s)
          else
            match (fops file.vnode).write with
            | none => (-1, some 0#32, s)
            | some write =>
                match write file buf count file.pos s.kernel with
                | (ret, pos, kernel) =>
                    if 0 ≤ ret then
                      (ret, some (BitVec.ofInt 32 ret),
                        (s.setPos f pos).afterOps kernel)
                    else
                      (ret, some 0#32, s.afterOps kernel)
  | _, _ => (-1, none, s)

end Calls

/- The status, and `*new_pos` if it is stored -/
def vfsLseek
    (s : VfsState W)
    (file : Option Addr)
    (offset : U64)
    (mode : Int) :
    Int × Option U64 × VfsState W :=
  match file with
  | none => (-1, none, s)
  | some f =>
      match s.findFile f with
      | none => (-1, none, s)
      | some file =>
          if mode = vfsSeekSet then
            (0, some offset, s.setPos f offset)
          else if mode = vfsSeekCur then
            (0, some (file.pos + offset),
              s.setPos f (file.pos + offset))
          else if mode = vfsSeekEnd then
            let size := (s.kernel.vnodes file.vnode).size
            (0, some (size.setWidth 64 + offset),
              s.setPos f (size.setWidth 64 + offset))
          else
            (-1, none, s)

--------------------
-- Files Of Bytes
--------------------

section Bytes

variable (content : VfsKernel W → List U8)

/- A read takes bytes from the position on. -/
structure ReadsBytes
    (read : VfsFile → Addr → U32 → U64 → VfsKernel W →
      Int × List U8 × U64 × VfsKernel W) : Prop where
  keeps : ∀ file buf count pos kernel,
    content (read file buf count pos kernel).2.2.2 =
      content kernel
  status : ∀ file buf count pos kernel,
    0 ≤ (read file buf count pos kernel).1 →
      (read file buf count pos kernel).1 =
        (read file buf count pos kernel).2.1.length
  count : ∀ file buf count pos kernel,
    0 ≤ (read file buf count pos kernel).1 →
      (read file buf count pos kernel).2.1.length ≤ count.toNat
  bytes : ∀ file buf count pos kernel,
    0 ≤ (read file buf count pos kernel).1 →
      (read file buf count pos kernel).2.1 <+:
        (content kernel).drop pos.toNat
  pos : ∀ file buf count pos kernel,
    0 ≤ (read file buf count pos kernel).1 →
      (read file buf count pos kernel).2.2.1.toNat =
        pos.toNat + (read file buf count pos kernel).2.1.length

/- A write puts bytes from the buffer at the position. -/
structure WritesBytes
    (write : VfsFile → List U8 → U32 → U64 → VfsKernel W →
      Int × U64 × VfsKernel W) : Prop where
  fails : ∀ file buf count pos kernel,
    (write file buf count pos kernel).1 < 0 →
      content (write file buf count pos kernel).2.2 =
        content kernel
  count : ∀ file buf count pos kernel,
    (write file buf count pos kernel).1 ≤ count.toNat
  pos : ∀ file buf count pos kernel,
    0 ≤ (write file buf count pos kernel).1 →
      (write file buf count pos kernel).2.1.toNat =
        pos.toNat + (write file buf count pos kernel).1.toNat
  written : ∀ file buf count pos kernel,
    count.toNat ≤ buf.length →
      0 ≤ (write file buf count pos kernel).1 →
        OpenFiles.Written (content kernel) pos.toNat
          (buf.take (write file buf count pos kernel).1.toNat)
          (content (write file buf count pos kernel).2.2)

end Bytes

/-
  The file of the vnode `v` has bytes, as many as its size,
  which the world keeps and only its own operations change.
-/
structure ArrayFile
    (ops : Addr → VnodeOps W)
    (fops : Addr → FileOps W)
    (v : Addr) where
  content : VfsKernel W → List U8
  size : ∀ kernel,
    (content kernel).length = (kernel.vnodes v).size.toNat
  kept : ∀ kernel kernel',
    kernel'.world = kernel.world →
      (kernel'.vnodes v).size = (kernel.vnodes v).size →
        content kernel' = content kernel
  lookup : ∀ w lookup, (ops w).lookup = some lookup →
    ∀ name kernel,
      content (lookup w name kernel).2.2 = content kernel
  openFile : ∀ openFile, (ops v).openFile = some openFile →
    ∀ f kernel, content (openFile v f kernel).2 = content kernel
  closeFile : ∀ closeFile, (ops v).closeFile = some closeFile →
    ∀ f kernel, content (closeFile f kernel) = content kernel
  read : ∃ read, (fops v).read = some read ∧
    ReadsBytes content read
  write : ∃ write, (fops v).write = some write ∧
    WritesBytes content write

--------------------
-- The Property
--------------------

inductive HandleCall where
  | openFile (path : Option CString) (flags : U32)
  | read (file buf : Option Addr) (count : U32)
  | write
      (file : Option Addr)
      (buf : Option (List U8))
      (count : U32)
  | lseek (file : Option Addr) (offset : U64) (mode : Int)
  | closeFile (file : Option Addr)

/- What the flags of `vfs_open` ask for -/
def modeOf (flags : U32) : OpenFiles.Mode where
  reads :=
    flags &&& (vfsOWronly ||| vfsORdwr) = vfsORdonly ∨
      flags &&& vfsORdwr ≠ 0#32
  writes :=
    flags &&& vfsOWronly ≠ 0#32 ∨ flags &&& vfsORdwr ≠ 0#32
  appends := flags &&& vfsOAppend ≠ 0#32

/- A status and a stored count report what a call moved. -/
def Reports
    (ret : Int)
    (stored : Option U32) :
    Option (List U8) → Prop
  | none => ret < 0 ∧ stored = some 0#32
  | some bytes =>
      ret = bytes.length ∧
        stored = some (BitVec.ofNat 32 bytes.length)

section Property

variable {ops : Addr → VnodeOps W}
variable {fops : Addr → FileOps W}
variable {v : Addr}

/- The bytes that the file hands out at a handle's position -/
def readGiven
    (fops : Addr → FileOps W)
    (s : VfsState W)
    (f buf : Addr)
    (count : U32) : Option (List U8) :=
  (s.findFile f).bind fun file =>
    (fops file.vnode).read.bind fun read =>
      let answer := read file buf count file.pos s.kernel
      if 0 ≤ answer.1 then some answer.2.1 else none

/- The bytes that the file takes at a handle's position -/
def writeGiven
    (fops : Addr → FileOps W)
    (s : VfsState W)
    (f : Addr)
    (buf : List U8)
    (count : U32) : Option (List U8) :=
  (s.findFile f).bind fun file =>
    (fops file.vnode).write.bind fun write =>
      let answer := write file buf count file.pos s.kernel
      if 0 ≤ answer.1 then some (buf.take answer.1.toNat)
      else none

/- The handles of the open files, and the bytes -/
def filesOf
    (b : ArrayFile ops fops v)
    (s : VfsState W) :
    OpenFiles.Files Addr U8 where
  content := b.content s.kernel
  handles := s.files.map fun x =>
    (x.ptr, ⟨modeOf x.flags, x.pos.toNat⟩)

/- An open file of the vnode -/
def IsHandle
    (v : Addr)
    (s : VfsState W)
    (f : Addr) : Prop :=
  ∃ file, s.findFile f = some file ∧ file.vnode = v

variable (ops v) in
/- The calls go through handles of the file of `v`. -/
def HandleLegal
    (s : VfsState W) :
    HandleCall → Prop
  | .openFile path _ =>
      ∀ w, (lookedUp ops s path).2.1 = some w → w = v
  | .read (some f) _ _ => IsHandle v s f
  | .write (some f) buf count =>
      IsHandle v s f ∧ ∀ bytes ∈ buf, count.toNat ≤ bytes.length
  | .lseek (some f) _ _ => IsHandle v s f
  | .closeFile (some f) => IsHandle v s f
  | _ => True

variable (ops fops) in
def handleNext
    (s : VfsState W) :
    HandleCall → VfsState W
  | .openFile path flags => (vfsOpen ops s path flags).2.2
  | .read file buf count => (vfsRead fops s file buf count).2.2.2
  | .write file buf count => (vfsWrite fops s file buf count).2.2
  | .lseek file offset mode => (vfsLseek s file offset mode).2.2
  | .closeFile file => (vfsClose ops s file).2

variable (ops fops v) in
def handleStep
    (s : VfsState W)
    (call : HandleCall)
    (s' : VfsState W) : Prop :=
  HandleLegal ops v s call ∧ s' = handleNext ops fops s call

/- Where `vfs_lseek` should move a handle -/
def seekTarget
    (size pos offset : Nat)
    (mode : Int) : Option Nat :=
  if mode = vfsSeekSet then some offset
  else if mode = vfsSeekCur then some ((pos + offset) % 2 ^ 64)
  else if mode = vfsSeekEnd then some ((size + offset) % 2 ^ 64)
  else none

/- An opening adds a handle at the start, or does nothing. -/
structure OpenRight
    (b : ArrayFile ops fops v)
    (s : VfsState W)
    (flags : U32)
    (answer : Int × Option Addr × VfsState W) : Prop where
  failed : answer.2.1 = none →
    answer.1 ≠ 0 ∧ filesOf b answer.2.2 = filesOf b s
  opened : ∀ f, answer.2.1 = some f →
    answer.1 = 0 ∧
      filesOf b answer.2.2 =
        (filesOf b s).opened f (modeOf flags)
          (flags &&& vfsOTrunc ≠ 0#32)

/- A read answers by the mode and position of its handle. -/
def ReadRight
    (b : ArrayFile ops fops v)
    (s : VfsState W)
    (f buf : Addr)
    (count : U32)
    (answer : Int × Option U32 × List U8 × VfsState W) : Prop :=
  ∃ moved, Reports answer.1 answer.2.1 moved ∧
    (∀ bytes ∈ moved, answer.2.2.1 = bytes) ∧
      OpenFiles.Read (filesOf b s) f count.toNat
        (readGiven fops s f buf count) moved
        (filesOf b answer.2.2.2)

/- A write, and where it puts its bytes in append mode -/
def WriteRight
    (b : ArrayFile ops fops v)
    (s : VfsState W)
    (f : Addr)
    (buf : List U8)
    (count : U32)
    (answer : Int × Option U32 × VfsState W) : Prop :=
  ∃ moved, Reports answer.1 answer.2.1 moved ∧
    OpenFiles.Write (filesOf b s) f (buf.take count.toNat)
      (writeGiven fops s f buf count) moved
      (filesOf b answer.2.2)

/- A seek moves its handle, or does nothing. -/
def SeekRight
    (b : ArrayFile ops fops v)
    (s : VfsState W)
    (f : Addr)
    (offset : U64)
    (mode : Int)
    (answer : Int × Option U64 × VfsState W) : Prop :=
  ∃ h, (filesOf b s).find f = some h ∧
    match seekTarget (filesOf b s).content.length h.pos
        offset.toNat mode with
    | none => answer.1 ≠ 0 ∧ filesOf b answer.2.2 = filesOf b s
    | some pos =>
        answer.1 = 0 ∧
          answer.2.1 = some (BitVec.ofNat 64 pos) ∧
            filesOf b answer.2.2 = (filesOf b s).moveTo f pos

/- Nothing is done without a file or a buffer. -/
def HandleRight
    (b : ArrayFile ops fops v)
    (s : VfsState W)
    (call : HandleCall) : Prop :=
  match call with
  | .openFile path flags =>
      OpenRight b s flags (vfsOpen ops s path flags)
  | .read (some f) (some buf) count =>
      ReadRight b s f buf count
        (vfsRead fops s (some f) (some buf) count)
  | .write (some f) (some buf) count =>
      WriteRight b s f buf count
        (vfsWrite fops s (some f) (some buf) count)
  | .lseek (some f) offset mode =>
      SeekRight b s f offset mode (vfsLseek s (some f) offset mode)
  | .closeFile (some f) =>
      (vfsClose ops s (some f)).1 = 0 ∧
        filesOf b (vfsClose ops s (some f)).2 =
          (filesOf b s).closed f
  | .read file buf count =>
      (vfsRead fops s file buf count).1 < 0 ∧
        filesOf b (vfsRead fops s file buf count).2.2.2 =
          filesOf b s
  | .write file buf count =>
      (vfsWrite fops s file buf count).1 < 0 ∧
        filesOf b (vfsWrite fops s file buf count).2.2 =
          filesOf b s
  | .lseek none offset mode =>
      (vfsLseek s none offset mode).1 < 0 ∧
        filesOf b (vfsLseek s none offset mode).2.2 = filesOf b s
  | .closeFile none =>
      (vfsClose ops s none).1 < 0 ∧
        filesOf b (vfsClose ops s none).2 = filesOf b s

/-
  A read through a handle that is open for reading only is one
  that the file fails, and a write through a handle in append
  mode moves bytes only where the file ends.
-/
def HandleOk
    (b : ArrayFile ops fops v)
    (s : VfsState W) :
    HandleCall → Prop
  | .read (some f) (some buf) count =>
      ∀ file, s.findFile f = some file →
        file.flags &&& (vfsOWronly ||| vfsORdwr) = vfsORdonly →
          readGiven fops s f buf count = none
  | .write (some f) (some buf) count =>
      ∀ file, s.findFile f = some file →
        (modeOf file.flags).writes = true →
          file.flags &&& vfsOAppend ≠ 0#32 →
            ∀ bytes, writeGiven fops s f buf count = some bytes →
              bytes ≠ [] →
                file.pos.toNat = (b.content s.kernel).length
  | _ => True

/- `vfs_open` gives a file one reference. -/
def SingleRefs (s : VfsState W) : Prop :=
  ∀ f ∈ s.files, f.refcount = 1

--------------------
-- Lookups
--------------------

/- The open files and the bytes are the same. -/
structure FilesKept
    (b : ArrayFile ops fops v)
    (s s' : VfsState W) : Prop where
  files : s'.files = s.files
  content : b.content s'.kernel = b.content s.kernel

section Kept

variable {b : ArrayFile ops fops v}

theorem FilesKept.refl
    (s : VfsState W) :
    FilesKept b s s :=
  ⟨rfl, rfl⟩

theorem FilesKept.trans
    {s s' s'' : VfsState W}
    (hFirst : FilesKept b s s')
    (hSecond : FilesKept b s' s'') :
    FilesKept b s s'' where
  files := by rw [hSecond.files, hFirst.files]
  content := by rw [hSecond.content, hFirst.content]

theorem FilesKept.filesOf_eq
    {s s' : VfsState W}
    (hKept : FilesKept b s s') :
    filesOf b s' = filesOf b s := by
  rw [filesOf, filesOf, hKept.files, hKept.content]

/- References are not bytes. -/
theorem addRef_kept
    (s : VfsState W)
    (w : Addr)
    (n : Int) :
    FilesKept b s (s.addRef w n) where
  files := rfl
  content := by
    refine b.kept s.kernel _ rfl ?_
    simp only [VfsState.addRef, VfsState.setVnode,
      Function.update_apply]
    split
    next hSame => rw [hSame]
    next => rfl

theorem vnodePut_kept
    (s : VfsState W)
    (w : Addr) :
    FilesKept b s (vnodePut s w) := by
  have hRef := @addRef_kept W ops fops v b s w (-1)
  simp only [vnodePut]
  split
  · exact hRef
  · exact ⟨hRef.files, hRef.content⟩

theorem dentryAdd_kept
    (s : VfsState W)
    (name : List U8)
    (w : Option Addr) :
    FilesKept b s (dentryAdd s name w) := by
  unfold dentryAdd
  split
  · exact .refl s
  · split
    · exact ⟨rfl, b.kept _ _ rfl rfl⟩
    · exact ⟨rfl, b.kept _ _ rfl rfl⟩

theorem walkPath_kept
    (names : List (List U8))
    (current : Addr)
    (s : VfsState W) :
    FilesKept b s (walkPath ops names current s).2.2 := by
  induction names generalizing current s with
  | nil => exact .refl s
  | cons name rest ih =>
      simp only [walkPath]
      split
      · exact ih current s
      · split
        · exact vnodePut_kept s current
        next lookup hOps =>
          have hLookup : FilesKept b s
              { s with
                kernel := (lookup current name s.kernel).2.2 } :=
            ⟨rfl, b.lookup current lookup hOps name s.kernel⟩
          have hPut := hLookup.trans (vnodePut_kept _ current)
          split
          · exact hPut
          · split
            · exact hPut
            · exact hPut.trans (ih _ _)

theorem lookupUncached_kept
    (s : VfsState W)
    (path : List U8) :
    FilesKept b s (lookupUncached ops s path).2.2 := by
  unfold lookupUncached
  split
  · exact .refl s
  next start rest _ =>
    have hGet : FilesKept b s (vnodeGet s start) :=
      addRef_kept s start 1
    simp only
    split
    · exact hGet
    · have hWalk := hGet.trans (@walkPath_kept W ops fops v b
        (pathComponents [] rest) start (vnodeGet s start))
      revert hWalk
      generalize walkPath ops (pathComponents [] rest) start
        (vnodeGet s start) = answer
      rcases answer with ⟨ret, _ | w, s'⟩
      · exact fun hWalk => hWalk
      · exact fun hWalk => hWalk.trans (dentryAdd_kept s' rest _)

theorem pathLookup_kept
    (s : VfsState W)
    (path : Option CString) :
    FilesKept b s (pathLookup ops s path).2.2 := by
  cases path with
  | none => exact .refl s
  | some path =>
      rw [pathLookup_eq]
      have hAsked : FilesKept b s (afterCache s path.bytes) :=
        ⟨rfl, rfl⟩
      split
      next w _ =>
        have hGet : FilesKept b
            { afterCache s path.bytes with
              cacheHits := s.cacheHits + 1#64 }
            (vnodeGet { afterCache s path.bytes with
              cacheHits := s.cacheHits + 1#64 } w) :=
          addRef_kept _ w 1
        exact hAsked.trans ⟨hGet.files, hGet.content⟩
      · exact hAsked.trans (lookupUncached_kept _ _)

--------------------
-- Opening And Closing
--------------------

variable {s t : VfsState W}

/- The handle is new, and the bytes go if they should. -/
theorem truncateFile_opened
    (hKept : FilesKept b s t)
    (f : Addr)
    (flags : U32) :
    filesOf b
        (truncateFile
          { t with files := ⟨f, v, 0#64, flags, 1⟩ :: t.files }
          v flags) =
      (filesOf b s).opened f (modeOf flags)
        (flags &&& vfsOTrunc ≠ 0#32) := by
  have hSize := b.size t.kernel
  unfold truncateFile
  split
  next hBoth =>
    have hNone : ∀ u : VfsState W,
        b.content
          (u.setVnode v fun vnode =>
            { vnode with size := 0#32 }).kernel = [] := by
      intro u
      rw [← List.length_eq_zero_iff, b.size]
      simp [VfsState.setVnode]
    rw [filesOf, OpenFiles.Files.opened, hNone]
    simp only [VfsState.setVnode, hKept.files, hBoth.1,
      decide_true, if_true, ne_eq, not_false_eq_true]
    rfl
  next hNot =>
    rw [filesOf, OpenFiles.Files.opened, hKept.files]
    by_cases hTrunc : flags &&& vfsOTrunc = 0#32
    · simp only [hTrunc, ne_eq, not_true_eq_false, decide_false,
        Bool.false_eq_true, if_false, hKept.content]
      rfl
    · have hEmpty : (t.kernel.vnodes v).size.toNat = 0 := by
        have hZero : ¬ 0#32 < (t.kernel.vnodes v).size :=
          fun hLt => hNot ⟨hTrunc, hLt⟩
        rw [BitVec.lt_def] at hZero
        simpa using hZero
      rw [hEmpty, List.length_eq_zero_iff] at hSize
      simp only [hTrunc, ne_eq, not_false_eq_true, decide_true,
        if_true, hSize]
      rfl

variable {flags : U32}
variable {ret : Int}

theorem OpenRight.of_failed
    (hRet : ret ≠ 0)
    (hKept : FilesKept b s t) :
    OpenRight b s flags (ret, none, t) where
  failed := fun _ => ⟨hRet, hKept.filesOf_eq⟩
  opened := fun _ hFound => nomatch hFound

variable {f : Addr}

theorem OpenRight.of_opened
    (hOpened : filesOf b t =
      (filesOf b s).opened f (modeOf flags)
        (flags &&& vfsOTrunc ≠ 0#32)) :
    OpenRight b s flags (0, some f, t) where
  failed := fun hNone => nomatch hNone
  opened := by
    intro g hFound
    cases hFound
    exact ⟨rfl, hOpened⟩

theorem openVnode_right
    (hKept : FilesKept b s t)
    (flags : U32) :
    OpenRight b s flags (openVnode ops t v flags) := by
  unfold openVnode
  cases hCall : kmalloc t.kernel.heap sizeofFile with
  | mk f heap =>
      have hHeap : FilesKept b s
          { t with kernel := { t.kernel with heap := heap } } :=
        hKept.trans ⟨rfl, b.kept _ _ rfl rfl⟩
      cases f with
      | none =>
          exact .of_failed (by simp)
            (hHeap.trans (vnodePut_kept _ v))
      | some f =>
          cases hOpen : (ops v).openFile with
          | none =>
              exact .of_opened (truncateFile_opened hHeap f flags)
          | some openFile =>
              have hHook : FilesKept b s
                  { t with
                    kernel :=
                      (openFile v f
                        { t.kernel with heap := heap }).2 } :=
                ⟨hKept.files,
                  (b.openFile openFile hOpen f _).trans
                    hHeap.content⟩
              by_cases hRet :
                  (openFile v f { t.kernel with heap := heap }).1 = 0
              · simp only [hRet, ne_eq, not_true_eq_false, if_false]
                exact .of_opened
                  (truncateFile_opened hHook f flags)
              · simp only [hRet, ne_eq, not_false_eq_true, if_true]
                exact .of_failed hRet
                  (hHook.trans (vnodePut_kept _ v))

theorem vfsOpen_right
    {path : Option CString}
    (hLegal : HandleLegal ops v s (.openFile path flags)) :
    OpenRight b s flags (vfsOpen ops s path flags) := by
  cases path with
  | none => exact .of_failed (by simp) (.refl s)
  | some path =>
      have hCounted : FilesKept b s
          { s with operations := s.operations + 1#64 } :=
        ⟨rfl, rfl⟩
      have hKept : FilesKept b s
          (lookedUp ops s (some path)).2.2 :=
        hCounted.trans (pathLookup_kept _ _)
      have hRet : ∀ w,
          (lookedUp ops s (some path)).2.1 = some w →
          (lookedUp ops s (some path)).1 = 0 :=
        fun _ => pathLookup_ret
      simp only [HandleLegal] at hLegal
      rw [vfsOpen_eq]
      revert hKept hRet hLegal
      generalize lookedUp ops s (some path) = answer
      rcases answer with ⟨ret, _ | w, t⟩
      · intro _ hKept _
        simp only
        split
        · exact .of_failed (by simp) hKept
        · exact .of_failed (by simp) hKept
      · intro hFile hKept hRet
        have hZero := hRet w rfl
        have hSame := hFile w rfl
        simp only at hZero
        subst hZero hSame
        simp only [ne_eq, not_true_eq_false, if_false]
        exact openVnode_right hKept flags

/- The handle goes with its one reference. -/
theorem vfsClose_right
    (hRefs : SingleRefs s)
    (hHandle : IsHandle v s f) :
    (vfsClose ops s (some f)).1 = 0 ∧
      filesOf b (vfsClose ops s (some f)).2 =
        (filesOf b s).closed f := by
  rcases hHandle with ⟨file, hFind, rfl⟩
  have hOne := hRefs file (List.mem_of_find?_eq_some hFind)
  -- the reference to the vnode changes no bytes
  have hPut : ∀ kernel : VfsKernel W,
      b.content kernel = b.content s.kernel →
      filesOf b
          { vnodePut
              { s with
                files :=
                  { file with refcount := 0 } ::
                    s.files.eraseP fun x => x.ptr = f
                kernel := kernel } file.vnode with
            files := s.files.eraseP fun x => x.ptr = f } =
        (filesOf b s).closed f := by
    intro kernel hContent
    rw [filesOf, filesOf, OpenFiles.Files.closed,
      List.eraseP_map, (vnodePut_kept _ file.vnode).content,
      hContent]
    rfl
  rw [VfsState.findFile] at hFind
  simp only [vfsClose, hFind, hOne, Int.sub_self, Int.lt_irrefl,
    if_false]
  refine ⟨trivial, ?_⟩
  split
  next => exact hPut s.kernel rfl
  next closeFile hClose =>
    exact hPut _ (b.closeFile closeFile hClose f s.kernel)

--------------------
-- Seeking
--------------------

theorem find_filesOf
    (s : VfsState W)
    (f : Addr) :
    (filesOf b s).find f =
      (s.findFile f).map fun x =>
        ⟨modeOf x.flags, x.pos.toNat⟩ := by
  rw [OpenFiles.Files.find, filesOf, List.find?_map,
    Option.map_map]
  rfl

/- The position of the file is that of the handle. -/
theorem setPos_filesOf
    (s : VfsState W)
    (f : Addr)
    (pos : U64) :
    filesOf b (s.setPos f pos) =
      (filesOf b s).moveTo f pos.toNat := by
  rw [filesOf, filesOf, OpenFiles.Files.moveTo,
    VfsState.setPos, List.map_map, List.map_map]
  refine congrArg _ (List.map_congr_left fun x _ => ?_)
  simp only [Function.comp_apply]
  split
  · rfl
  · rfl

/- Positions wrap as the sums that they are. -/
theorem seekTarget_eq
    (size : U32)
    (pos offset : U64)
    (mode : Int) :
    seekTarget size.toNat pos.toNat offset.toNat mode =
      if mode = vfsSeekSet then some offset.toNat
      else if mode = vfsSeekCur then some (pos + offset).toNat
      else if mode = vfsSeekEnd then
        some (size.setWidth 64 + offset).toNat
      else none := by
  have hWide : (size.setWidth 64).toNat = size.toNat :=
    BitVec.toNat_setWidth_of_le (by decide)
  rw [BitVec.toNat_add, BitVec.toNat_add, hWide]
  rfl

theorem vfsLseek_right
    (hHandle : IsHandle v s f)
    (offset : U64)
    (mode : Int) :
    SeekRight b s f offset mode
      (vfsLseek s (some f) offset mode) := by
  rcases hHandle with ⟨file, hFind, rfl⟩
  refine ⟨⟨modeOf file.flags, file.pos.toNat⟩, ?_, ?_⟩
  · rw [find_filesOf, hFind]
    rfl
  · have hSize : (filesOf b s).content.length =
        (s.kernel.vnodes file.vnode).size.toNat :=
      b.size s.kernel
    have hMoved : ∀ pos : U64,
        some pos = some (BitVec.ofNat 64 pos.toNat) ∧
          filesOf b (s.setPos f pos) =
            (filesOf b s).moveTo f pos.toNat := fun pos =>
      ⟨by rw [BitVec.ofNat_toNat, BitVec.setWidth_eq],
        setPos_filesOf s f pos⟩
    rw [hSize, seekTarget_eq]
    simp only [vfsLseek, hFind]
    by_cases hSet : mode = vfsSeekSet
    · simp only [if_pos hSet]
      exact ⟨trivial, hMoved offset⟩
    · by_cases hCur : mode = vfsSeekCur
      · simp only [if_neg hSet, if_pos hCur]
        exact ⟨trivial, hMoved _⟩
      · by_cases hEnd : mode = vfsSeekEnd
        · simp only [if_neg hSet, if_neg hCur, if_pos hEnd]
          exact ⟨trivial, hMoved _⟩
        · simp only [if_neg hSet, if_neg hCur, if_neg hEnd]
          exact ⟨by simp, trivial⟩

--------------------
-- Reading
--------------------

/- `VFS_O_RDONLY` adds nothing to a mask. -/
theorem readMask_eq :
    vfsORdonly ||| vfsORdwr = vfsORdwr := by
  decide

theorem accessMask_eq_zero
    (flags : U32) :
    flags &&& (vfsOWronly ||| vfsORdwr) = 0#32 ↔
      flags &&& vfsOWronly = 0#32 ∧ flags &&& vfsORdwr = 0#32 := by
  rw [BitVec.and_or_distrib_left, BitVec.or_eq_zero_iff]

theorem writes_iff
    (flags : U32) :
    (modeOf flags).writes = true ↔
      flags &&& (vfsOWronly ||| vfsORdwr) ≠ 0#32 := by
  rw [ne_eq, accessMask_eq_zero, not_and_or]
  exact decide_eq_true_iff

/- Of the files that are not read, some should be. -/
theorem reads_iff
    (hRefused : flags &&& (vfsORdonly ||| vfsORdwr) = 0#32) :
    (modeOf flags).reads = true ↔
      flags &&& (vfsOWronly ||| vfsORdwr) = vfsORdonly := by
  rw [readMask_eq] at hRefused
  refine decide_eq_true_iff.trans (or_iff_left ?_)
  exact not_not.mpr hRefused

theorem Reports.none_of_neg
    {stored : Option U32}
    {moved : Option (List U8)}
    (hReports : Reports ret stored moved)
    (hNeg : ret < 0) :
    moved = none := by
  cases moved with
  | none => rfl
  | some bytes =>
      have hRet := hReports.1
      omega

/- A call that moved the file along, and changed the bytes -/
theorem afterOps_filesOf
    (s : VfsState W)
    (f : Addr)
    (pos : U64)
    (kernel : VfsKernel W) :
    filesOf b ((s.setPos f pos).afterOps kernel) =
      ((filesOf b s).moveTo f pos.toNat).withContent
        (b.content kernel) := by
  rw [← setPos_filesOf]
  rfl

variable {file : VfsFile}

theorem readGiven_eq
    (hFind : s.findFile f = some file)
    {read : VfsFile → Addr → U32 → U64 → VfsKernel W →
      Int × List U8 × U64 × VfsKernel W}
    (hOps : (fops file.vnode).read = some read)
    (buf : Addr)
    (count : U32) :
    readGiven fops s f buf count =
      if 0 ≤ (read file buf count file.pos s.kernel).1 then
        some (read file buf count file.pos s.kernel).2.1
      else
        none := by
  rw [readGiven, hFind, Option.bind_some, hOps, Option.bind_some]

/- A read that is not refused is right. -/
theorem vfsRead_granted
    (hFind : s.findFile f = some file)
    (hVnode : file.vnode = v)
    (hGranted : file.flags &&& (vfsORdonly ||| vfsORdwr) ≠ 0#32)
    (buf : Addr)
    (count : U32) :
    ReadRight b s f buf count
      (vfsRead fops s (some f) (some buf) count) := by
  subst hVnode
  rcases b.read with ⟨read, hOps, hBytes⟩
  have hView := (@find_filesOf W ops fops file.vnode b s f).trans
    (congrArg _ hFind)
  have hGiven := readGiven_eq hFind hOps buf count
  have hMode : (modeOf file.flags).reads = true := by
    rw [readMask_eq] at hGranted
    exact decide_eq_true (.inr hGranted)
  have hKeeps := hBytes.keeps file buf count file.pos s.kernel
  simp only [vfsRead, hFind, hGranted, if_false, hOps]
  by_cases hRet :
      0 ≤ (read file buf count file.pos s.kernel).1
  · rw [if_pos hRet] at hGiven
    have hStatus := hBytes.status file buf count file.pos s.kernel
      hRet
    have hPos := hBytes.pos file buf count file.pos s.kernel hRet
    simp only [hRet, if_true]
    refine ⟨some (read file buf count file.pos s.kernel).2.1,
      ⟨hStatus, ?_⟩, ?_, ?_⟩
    · rw [hStatus, BitVec.ofInt_natCast]
    · intro bytes hMem
      exact Option.some.inj hMem
    · have hMoved := OpenFiles.Read.moved hView hMode hGiven
        (hBytes.count file buf count file.pos s.kernel hRet)
        (hBytes.bytes file buf count file.pos s.kernel hRet)
      rw [afterOps_filesOf, hKeeps, hPos]
      exact hMoved
  · rw [if_neg hRet] at hGiven
    simp only [hRet, if_false]
    refine ⟨none, ⟨by omega, rfl⟩, by simp, ?_⟩
    have hSame : FilesKept b s (s.afterOps
        (read file buf count file.pos s.kernel).2.2.2) :=
      ⟨rfl, hKeeps⟩
    rw [hSame.filesOf_eq]
    exact .failed hView hMode hGiven

/-
  A read is right unless it is refused through a handle that
  is open for reading only.
-/
theorem vfsRead_right_iff
    (hHandle : IsHandle v s f)
    (buf : Addr)
    (count : U32) :
    ReadRight b s f buf count
        (vfsRead fops s (some f) (some buf) count) ↔
      HandleOk b s (.read (some f) (some buf) count) := by
  rcases hHandle with ⟨file, hFind, hVnode⟩
  simp only [HandleOk, hFind, Option.some.injEq, forall_eq']
  by_cases hRefused :
      file.flags &&& (vfsORdonly ||| vfsORdwr) = 0#32
  · have hView := (@find_filesOf W ops fops v b s f).trans
      (congrArg _ hFind)
    simp only [vfsRead, hFind, hRefused, if_true]
    rw [← reads_iff hRefused]
    have hIff := @OpenFiles.read_refused_iff Addr U8 _ _ f _ hView
      count.toNat (readGiven fops s f buf count)
    refine Iff.trans ?_ hIff
    constructor
    · rintro ⟨moved, hReports, _, hRead⟩
      have hNone := hReports.none_of_neg (by simp)
      subst hNone
      exact hRead
    · intro hRead
      exact ⟨none, ⟨by simp, rfl⟩, by simp, hRead⟩
  · have hRight := vfsRead_granted (b := b) hFind hVnode hRefused
      buf count
    refine iff_of_true hRight fun hReadOnly => ?_
    have hBoth := (accessMask_eq_zero file.flags).mp hReadOnly
    rw [readMask_eq] at hRefused
    exact absurd hBoth.2 hRefused

--------------------
-- Writing
--------------------

theorem writeGiven_eq
    (hFind : s.findFile f = some file)
    {write : VfsFile → List U8 → U32 → U64 → VfsKernel W →
      Int × U64 × VfsKernel W}
    (hOps : (fops file.vnode).write = some write)
    (buf : List U8)
    (count : U32) :
    writeGiven fops s f buf count =
      if 0 ≤ (write file buf count file.pos s.kernel).1 then
        some (buf.take
          (write file buf count file.pos s.kernel).1.toNat)
      else
        none := by
  rw [writeGiven, hFind, Option.bind_some, hOps, Option.bind_some]

variable {buf : List U8}
variable {count : U32}

/-
  A write that is not refused is right where it moves no
  bytes, or at the place that its mode asks for.
-/
theorem vfsWrite_granted_iff
    (hFind : s.findFile f = some file)
    (hVnode : file.vnode = v)
    (hGranted : file.flags &&& (vfsOWronly ||| vfsORdwr) ≠ 0#32)
    (hBuf : count.toNat ≤ buf.length) :
    WriteRight b s f buf count
        (vfsWrite fops s (some f) (some buf) count) ↔
      ((modeOf file.flags).appends = true →
        ∀ bytes, writeGiven fops s f buf count = some bytes →
          bytes ≠ [] →
            file.pos.toNat = (b.content s.kernel).length) := by
  subst hVnode
  rcases b.write with ⟨write, hOps, hBytes⟩
  have hView := (@find_filesOf W ops fops file.vnode b s f).trans
    (congrArg _ hFind)
  have hGiven := writeGiven_eq hFind hOps buf count
  have hMode := (writes_iff file.flags).mpr hGranted
  have hCount := hBytes.count file buf count file.pos s.kernel
  simp only [vfsWrite, hFind, hGranted, if_false, hOps]
  by_cases hRet : 0 ≤ (write file buf count file.pos s.kernel).1
  · rw [if_pos hRet] at hGiven
    have hPos := hBytes.pos file buf count file.pos s.kernel hRet
    have hWritten := hBytes.written file buf count file.pos
      s.kernel hBuf hRet
    simp only [hRet, if_true, hGiven, Option.some.injEq,
      forall_eq']
    generalize write file buf count file.pos s.kernel = answer
      at hRet hCount hPos hWritten hGiven ⊢
    rcases answer with ⟨ret, pos, kernel⟩
    simp only at hRet hCount hPos hWritten hGiven ⊢
    -- the status is the number of bytes that were taken
    have hLength : (buf.take ret.toNat).length = ret.toNat := by
      rw [List.length_take]
      omega
    have hData : buf.take ret.toNat <+: buf.take count.toNat :=
      List.take_prefix_take_left (by omega)
    have hIff := OpenFiles.write_moved_iff hView hMode hData
      hWritten
    rw [hLength, ← hPos, ← afterOps_filesOf] at hIff
    refine Iff.trans ?_ hIff
    constructor
    · rintro ⟨_ | bytes, hReports, hWrite⟩
      · exact absurd hReports.1 (by simpa using hRet)
      · have hTaken := hGiven.symm.trans hWrite.given_eq
        cases hTaken
        rw [hGiven] at hWrite
        exact hWrite
    · intro hWrite
      refine ⟨some (buf.take ret.toNat), ⟨?_, ?_⟩, ?_⟩
      · simp only [hLength]
        omega
      · have hSame : ret = (ret.toNat : Int) := by omega
        rw [hLength]
        simp only
        rw [hSame, BitVec.ofInt_natCast, Int.toNat_natCast]
      · rw [hGiven]
        exact hWrite
  · rw [if_neg hRet] at hGiven
    have hFails := hBytes.fails file buf count file.pos s.kernel
      (by omega)
    have hSame : FilesKept b s (s.afterOps
        (write file buf count file.pos s.kernel).2.2) :=
      ⟨rfl, hFails⟩
    simp only [hRet, if_false, hGiven]
    refine iff_of_true ⟨none, ⟨by omega, rfl⟩, ?_⟩ (by simp)
    rw [hSame.filesOf_eq]
    exact .failed hView hMode hGiven

theorem vfsWrite_right_iff
    (hHandle : IsHandle v s f)
    (hBuf : count.toNat ≤ buf.length) :
    WriteRight b s f buf count
        (vfsWrite fops s (some f) (some buf) count) ↔
      HandleOk b s (.write (some f) (some buf) count) := by
  rcases hHandle with ⟨file, hFind, hVnode⟩
  simp only [HandleOk, hFind, Option.some.injEq, forall_eq']
  by_cases hRefused :
      file.flags &&& (vfsOWronly ||| vfsORdwr) = 0#32
  · have hView := (@find_filesOf W ops fops v b s f).trans
      (congrArg _ hFind)
    have hMode : (modeOf file.flags).writes = false := by
      rw [← Bool.not_eq_true, writes_iff, not_not]
      exact hRefused
    simp only [vfsWrite, hFind, hRefused, if_true]
    refine iff_of_true
      ⟨none, ⟨by simp, rfl⟩, .refused hView hMode⟩ ?_
    intro hWrites
    rw [hMode] at hWrites
    cases hWrites
  · rw [vfsWrite_granted_iff hFind hVnode hRefused hBuf,
      writes_iff]
    have hAppends : (modeOf file.flags).appends = true ↔
        file.flags &&& vfsOAppend ≠ 0#32 :=
      decide_eq_true_iff
    rw [hAppends]
    exact ⟨fun hAll _ => hAll, fun hAll => hAll hRefused⟩

--------------------
-- Runs
--------------------

theorem setPos_singleRefs
    (hRefs : SingleRefs s)
    (f : Addr)
    (pos : U64) :
    SingleRefs (s.setPos f pos) := by
  intro x hMem
  rcases List.mem_map.mp hMem with ⟨y, hy, rfl⟩
  split
  · exact hRefs y hy
  · exact hRefs y hy

theorem openVnode_singleRefs
    (hRefs : SingleRefs s)
    (w : Addr)
    (flags : U32) :
    SingleRefs (openVnode ops s w flags).2.2 := by
  have hPut : ∀ kernel : VfsKernel W,
      SingleRefs (vnodePut { s with kernel := kernel } w) := by
    intro kernel
    rw [SingleRefs, (vnodePut_tables _ w).files]
    exact hRefs
  have hNew : ∀ (f : Addr) (kernel : VfsKernel W),
      SingleRefs
        (truncateFile
          { s with
            files := ⟨f, w, 0#64, flags, 1⟩ :: s.files
            kernel := kernel } w flags) := by
    intro f kernel x hMem
    have hCons : x ∈ ⟨f, w, 0#64, flags, 1⟩ :: s.files := by
      unfold truncateFile at hMem
      split at hMem
      · exact hMem
      · exact hMem
    rcases List.mem_cons.mp hCons with rfl | hOld
    · rfl
    · exact hRefs x hOld
  unfold openVnode
  split
  · exact hPut _
  · simp only
    split
    · exact hNew _ _
    · split
      · exact hPut _
      · exact hNew _ _

theorem handleNext_singleRefs
    (b : ArrayFile ops fops v)
    (hRefs : SingleRefs s)
    (call : HandleCall) :
    SingleRefs (handleNext ops fops s call) := by
  cases call with
  | openFile path flags =>
      cases path with
      | none => exact hRefs
      | some path =>
          have hKept := @pathLookup_kept W ops fops v b
            { s with operations := s.operations + 1#64 }
            (some path)
          simp only [handleNext]
          rw [vfsOpen_eq]
          change FilesKept b _ (lookedUp ops s (some path)).2.2
            at hKept
          revert hKept
          generalize lookedUp ops s (some path) = answer
          rcases answer with ⟨ret, found, t⟩
          intro hKept
          have hSame : SingleRefs t := by
            rw [SingleRefs, hKept.files]
            exact hRefs
          simp only
          split
          · exact hSame
          · split
            · exact hSame
            · exact openVnode_singleRefs hSame _ flags
  | read file buf count =>
      simp only [handleNext, vfsRead]
      split
      · split
        · exact hRefs
        · split
          · exact hRefs
          · split
            · exact hRefs
            · split
              · exact setPos_singleRefs hRefs _ _
              · exact hRefs
      · exact hRefs
  | write file buf count =>
      simp only [handleNext, vfsWrite]
      split
      · split
        · exact hRefs
        · split
          · exact hRefs
          · split
            · exact hRefs
            · split
              · exact setPos_singleRefs hRefs _ _
              · exact hRefs
      · exact hRefs
  | lseek file offset mode =>
      simp only [handleNext, vfsLseek]
      split
      · exact hRefs
      · split
        · exact hRefs
        · split
          · exact setPos_singleRefs hRefs _ _
          · split
            · exact setPos_singleRefs hRefs _ _
            · split
              · exact setPos_singleRefs hRefs _ _
              · exact hRefs
  | closeFile file =>
      simp only [handleNext, vfsClose]
      split
      · exact hRefs
      · split
        · exact hRefs
        next file hFind =>
          have hOne := hRefs file (List.mem_of_find?_eq_some hFind)
          simp only [hOne, Int.sub_self, Int.lt_irrefl, if_false]
          exact fun x hMem => hRefs x (List.mem_of_mem_eraseP hMem)

/- A call of a handle is right if and only if it is fit. -/
theorem handleRight_iff
    (b : ArrayFile ops fops v)
    (hRefs : SingleRefs s)
    {call : HandleCall}
    (hLegal : HandleLegal ops v s call) :
    HandleRight b s call ↔ HandleOk b s call := by
  cases call with
  | openFile path flags =>
      exact iff_of_true (vfsOpen_right hLegal) trivial
  | read file buf count =>
      cases file with
      | none => exact iff_of_true ⟨by simp [vfsRead], rfl⟩ trivial
      | some f =>
          cases buf with
          | none =>
              exact iff_of_true ⟨by simp [vfsRead], rfl⟩ trivial
          | some buf => exact vfsRead_right_iff hLegal buf count
  | write file buf count =>
      cases file with
      | none => exact iff_of_true ⟨by simp [vfsWrite], rfl⟩ trivial
      | some f =>
          cases buf with
          | none =>
              exact iff_of_true ⟨by simp [vfsWrite], rfl⟩ trivial
          | some buf =>
              exact vfsWrite_right_iff hLegal.1 (hLegal.2 buf rfl)
  | lseek file offset mode =>
      cases file with
      | none => exact iff_of_true ⟨by simp [vfsLseek], rfl⟩ trivial
      | some f =>
          exact iff_of_true (vfsLseek_right hLegal offset mode)
            trivial
  | closeFile file =>
      cases file with
      | none => exact iff_of_true ⟨by simp [vfsClose], rfl⟩ trivial
      | some f =>
          exact iff_of_true (vfsClose_right hRefs hLegal) trivial

end Kept

end Property

/-
  In a run all calls are right if and only if no read that the
  file would answer goes through a handle that is open for
  reading only, and no write in append mode moves bytes to
  another place than the end.
-/
theorem handleRun_right_iff
    {ops : Addr → VnodeOps W}
    {fops : Addr → FileOps W}
    {v : Addr}
    (b : ArrayFile ops fops v)
    {s t : VfsState W}
    {calls : List HandleCall}
    (hRefs : SingleRefs s) :
    Run
        (fun s call s' =>
          handleStep ops fops v s call s' ∧ HandleRight b s call)
        s calls t ↔
      Run (Guarded (HandleOk b) (handleStep ops fops v))
        s calls t := by
  refine Run.guarded_iff SingleRefs ?_ ?_ hRefs
  · intro s call s' hRefs _ hStep
    rw [hStep.2]
    exact handleNext_singleRefs b hRefs call
  · intro s call s' hRefs hStep
    exact handleRight_iff b hRefs hStep.1

--------------------
-- A File In Memory
--------------------

/- The bytes of the world, as many as the vnode has -/
def byteContent
    (v : Addr)
    (kernel : VfsKernel (Nat → U8)) : List U8 :=
  (List.range (kernel.vnodes v).size.toNat).map kernel.world

/- As many bytes as there are and an `int` can count -/
def byteRead
    (v : Addr)
    (_ : VfsFile)
    (_ : Addr)
    (count : U32)
    (pos : U64)
    (kernel : VfsKernel (Nat → U8)) :
    Int × List U8 × U64 × VfsKernel (Nat → U8) :=
  let left := (kernel.vnodes v).size.toNat - pos.toNat
  let n := min (min count.toNat left) (2 ^ 31 - 1)
  (n, (List.range n).map fun i => kernel.world (pos.toNat + i),
    pos + BitVec.ofNat 64 n, kernel)

/- All bytes, if there is room and an `int` can count them -/
def byteWrite
    (v : Addr)
    (_ : VfsFile)
    (buf : List U8)
    (count : U32)
    (pos : U64)
    (kernel : VfsKernel (Nat → U8)) :
    Int × U64 × VfsKernel (Nat → U8) :=
  let behind := pos.toNat + count.toNat
  if 0 < count.toNat ∧ count.toNat < 2 ^ 31 ∧
      behind < 2 ^ 32 then
    (count.toNat, pos + BitVec.ofNat 64 count.toNat,
      { kernel with
        vnodes :=
          Function.update kernel.vnodes v
            { kernel.vnodes v with
              size :=
                BitVec.ofNat 32
                  (max (kernel.vnodes v).size.toNat behind) }
        world := fun i =>
          if pos.toNat ≤ i ∧ i < behind then
            buf.getD (i - pos.toNat) 0#8
          else
            kernel.world i })
  else
    (0, pos, kernel)

theorem length_byteContent
    (v : Addr)
    (kernel : VfsKernel (Nat → U8)) :
    (byteContent v kernel).length =
      (kernel.vnodes v).size.toNat := by
  rw [byteContent, List.length_map, List.length_range]

theorem getElem?_byteContent
    (v : Addr)
    (kernel : VfsKernel (Nat → U8))
    (i : Nat) :
    (byteContent v kernel)[i]? =
      if i < (kernel.vnodes v).size.toNat then
        some (kernel.world i)
      else
        none := by
  rw [byteContent, List.getElem?_map]
  split
  next hLt => rw [List.getElem?_range hLt, Option.map_some]
  next hLt =>
    rw [List.getElem?_eq_none (by
      rw [List.length_range]
      omega), Option.map_none]

theorem byteRead_reads
    (v : Addr) :
    ReadsBytes (byteContent v) (byteRead v) where
  keeps := fun _ _ _ _ _ => rfl
  status := by
    intro file buf count pos kernel _
    simp [byteRead]
  count := by
    intro file buf count pos kernel _
    simp only [byteRead, List.length_map, List.length_range]
    omega
  bytes := by
    intro file buf count pos kernel _
    rw [List.prefix_iff_getElem?]
    intro i hLt
    simp only [byteRead, List.length_map, List.length_range]
      at hLt
    rw [List.getElem?_drop, getElem?_byteContent,
      if_pos (by omega)]
    simp [byteRead]
  pos := by
    intro file buf count pos kernel _
    have hSize := (kernel.vnodes v).size.isLt
    have hPos := pos.isLt
    simp only [byteRead, List.length_map, List.length_range]
    rw [BitVec.toNat_add, BitVec.toNat_ofNat]
    omega

theorem byteWrite_writes
    (v : Addr) :
    WritesBytes (byteContent v) (byteWrite v) where
  fails := by
    intro file buf count pos kernel hNeg
    simp only [byteWrite] at hNeg
    split at hNeg
    next => exact absurd hNeg (by simp)
    next => exact absurd hNeg (by simp)
  count := by
    intro file buf count pos kernel
    simp only [byteWrite]
    split
    · exact Int.le_refl _
    · exact Int.natCast_nonneg _
  pos := by
    intro file buf count pos kernel _
    simp only [byteWrite]
    split
    next hRoom =>
      simp only [BitVec.toNat_add, BitVec.toNat_ofNat,
        Int.toNat_natCast]
      omega
    next => rfl
  written := by
    intro file buf count pos kernel hBuf _
    simp only [byteWrite]
    split
    next hRoom =>
      have hSize := (kernel.vnodes v).size.isLt
      have hLength : (buf.take count.toNat).length =
          count.toNat := by
        rw [List.length_take]
        omega
      have hSome : buf.take count.toNat ≠ [] := by
        rw [← List.length_pos_iff, hLength]
        exact hRoom.1
      rw [Int.toNat_natCast]
      constructor
      · rw [length_byteContent, length_byteContent, if_neg hSome,
          hLength]
        simp only [Function.update_self, BitVec.toNat_ofNat]
        omega
      · intro i hi
        rw [hLength] at hi
        have hThere : pos.toNat ≤ pos.toNat + i ∧
            pos.toNat + i < pos.toNat + count.toNat := by
          omega
        rw [getElem?_byteContent, List.getElem?_take_of_lt hi]
        simp only [Function.update_self, BitVec.toNat_ofNat]
        rw [if_pos (by omega), if_pos hThere,
          Nat.add_sub_cancel_left, List.getD_eq_getElem?_getD,
          List.getElem?_eq_getElem (by omega), Option.getD_some]
      · intro i hi hAway
        rw [length_byteContent] at hi
        rw [hLength] at hAway
        have hOther : ¬ (pos.toNat ≤ i ∧
            i < pos.toNat + count.toNat) := by
          omega
        rw [getElem?_byteContent, getElem?_byteContent,
          if_pos hi]
        simp only [Function.update_self, BitVec.toNat_ofNat]
        rw [if_pos (by omega), if_neg hOther]
    next => exact .nil _ _

def byteOps (_ : Addr) : VnodeOps (Nat → U8) where
  lookup := none
  openFile := none
  closeFile := none

def byteFops (v : Addr) : FileOps (Nat → U8) where
  read := some (byteRead v)
  write := some (byteWrite v)

def byteFile (v : Addr) : ArrayFile byteOps byteFops v where
  content := byteContent v
  size := length_byteContent v
  kept := by
    intro kernel kernel' hWorld hSize
    rw [byteContent, byteContent, hWorld, hSize]
  lookup := fun _ _ hOps => nomatch hOps
  openFile := fun _ hOps => nomatch hOps
  closeFile := fun _ hOps => nomatch hOps
  read := ⟨_, rfl, byteRead_reads v⟩
  write := ⟨_, rfl, byteWrite_writes v⟩

def byteFs : Filesystem (Nat → U8) where
  name := ⟨[], empty_noNul⟩
  mount := fun _ _ _ kernel => (-1, none, kernel)
  unmount := none
  root := fun _ kernel => (none, kernel)

/- The file is mounted at "/" and has the byte "a". -/
def byteVfs : VfsState (Nat → U8) where
  filesystems := [byteFs]
  mounts := [⟨[slash], ⟨0x1000#64, byteFs, 0x5000#64⟩⟩]
  mountCount := 1
  dentries := []
  dentryCount := 0
  rootVnode := none
  files := []
  kernel :=
    ⟨fun _ => ⟨1#32, none, 1⟩, Heap.initial, fun _ => 0x61#8⟩
  freed := []
  lookups := 0#64
  cacheHits := 0#64
  operations := 0#64

theorem byteVfs_singleRefs :
    SingleRefs byteVfs :=
  fun _ hMem => nomatch hMem

def rootPath : CString := ⟨[slash], by decide⟩

theorem byteVfs_legal
    (flags : U32) :
    HandleLegal byteOps 0x5000#64 byteVfs
      (.openFile (some rootPath) flags) := by
  intro w hFound
  have hRoot : (lookedUp byteOps byteVfs (some rootPath)).2.1 =
      some 0x5000#64 := rfl
  rw [hRoot] at hFound
  exact (Option.some.inj hFound).symm

/- The byte is read and another written behind it. -/
def byteCalls : List HandleCall :=
  [.openFile (some rootPath) vfsORdwr,
    .read (some 0x200000#64) (some 0x9000#64) 1#32,
    .write (some 0x200000#64) (some [0x62#8]) 1#32]

def byteAfter (calls : List HandleCall) : VfsState (Nat → U8) :=
  calls.foldl (handleNext byteOps byteFops) byteVfs

theorem handleRun_right_three :
    Run
      (fun s call s' =>
        handleStep byteOps byteFops 0x5000#64 s call s' ∧
          HandleRight (byteFile 0x5000#64) s call)
      byteVfs byteCalls (byteAfter byteCalls) := by
  refine (handleRun_right_iff (byteFile 0x5000#64)
    byteVfs_singleRefs).mpr ?_
  refine .cons ⟨trivial, byteVfs_legal _, rfl⟩
    (.cons ⟨?_, ⟨_, rfl, rfl⟩, rfl⟩
      (.cons ⟨?_, ⟨⟨_, rfl, rfl⟩, ?_⟩, rfl⟩ (.nil _)))
  · intro file hFind hReadOnly
    cases hFind
    exact absurd hReadOnly (by decide)
  · intro file hFind _ hAppends
    cases hFind
    exact absurd hAppends (by decide)
  · intro buf hBuf
    cases hBuf
    decide

/- A file that is open for reading only is not read. -/
theorem vfsRead_refuses_reader :
    ¬ ∀ (ops : Addr → VnodeOps (Nat → U8))
        (fops : Addr → FileOps (Nat → U8)) (v : Addr)
        (b : ArrayFile ops fops v) (s t : VfsState (Nat → U8))
        (calls : List HandleCall),
      SingleRefs s → Run (handleStep ops fops v) s calls t →
        Run
          (fun s call s' =>
            handleStep ops fops v s call s' ∧ HandleRight b s call)
          s calls t := by
  intro hAll
  have hRun := hAll byteOps byteFops 0x5000#64
    (byteFile 0x5000#64) byteVfs _
    [.openFile (some rootPath) vfsORdonly,
      .read (some 0x200000#64) (some 0x9000#64) 1#32]
    byteVfs_singleRefs
    (.cons ⟨byteVfs_legal _, rfl⟩
      (.cons ⟨⟨_, rfl, rfl⟩, rfl⟩ (.nil _)))
  cases hRun with
  | cons hOpen hRest =>
      rcases hOpen with ⟨⟨_, rfl⟩, _⟩
      cases hRest with
      | cons hRead _ =>
          have hOk := (handleRight_iff _ (handleNext_singleRefs
            (byteFile 0x5000#64) byteVfs_singleRefs _)
            hRead.1.1).mp hRead.2
          have hNone := hOk _ rfl rfl
          have hGiven :
              readGiven byteFops
                  (byteAfter
                    [.openFile (some rootPath) vfsORdonly])
                  0x200000#64 0x9000#64 1#32 =
                some [0x61#8] := rfl
          exact absurd (hGiven.symm.trans hNone)
            (Option.some_ne_none _)

end FeatherOS
