import FeatherOS.Library.Extents
import FeatherOS.Ramdisk.Model

/-
  The tmpfs of `kernel/fs/ramdisk.c`.

  The inodes are kept in a map from their addresses, the data
  of the files in a byte memory. A `memcpy` writes to the
  memory, and to the fields of the records that it reaches.
  `kfree` gives nothing back. `now` is what `get_uptime_ms`
  answers.

  Key definitions include:
    * `TmpfsState`
    * `tmpfsInit`
    * `tmpfsCreate`
    * `tmpfsDelete`
    * `tmpfsRead`
    * `tmpfsWrite`
-/

namespace FeatherOS

--------------------
-- Records
--------------------

/- tmpfs_inode_t -/
structure TmpfsInode where
  ino : U32
  name : Bytes
  size : U32
  mode : U16
  atime : U64
  mtime : U64
  ctime : U64
  data : Option Addr
  parent : Option Addr
  children : Option Addr
  next : Option Addr
  prev : Option Addr
  refcount : U32

/- tmpfs_sb_t -/
structure TmpfsSb where
  nextIno : U32
  root : Option Addr
  maxSize : U32
  usedSize : U32

def sizeofTmpfsInode : Nat := 344

def sizeofTmpfsSb : Nat := 24

/- TMPFS_MAX_SIZE -/
def tmpfsMaxSize : U32 := 0x10000000#32

/- What `memset` with 0 leaves. -/
def TmpfsInode.zero : TmpfsInode where
  ino := 0#32
  name := fun _ => 0#8
  size := 0#32
  mode := 0#16
  atime := 0#64
  mtime := 0#64
  ctime := 0#64
  data := none
  parent := none
  children := none
  next := none
  prev := none
  refcount := 0#32

/- A name of at most 255 characters, followed by NULs. -/
def tmpfsName (name : CString) : Bytes :=
  fun k => (name.take 255).bytes.getD k 0#8

/- The globals, the record of `tmpfs_sb` and the memory. -/
structure TmpfsState where
  sbPtr : Option Addr
  sb : TmpfsSb
  inodes : Addr → TmpfsInode
  memory : ByteMemory
  heap : Heap

def TmpfsState.modify
    (s : TmpfsState)
    (a : Addr)
    (f : TmpfsInode → TmpfsInode) :
    TmpfsState :=
  { s with inodes := Function.update s.inodes a (f (s.inodes a)) }

--------------------
-- Copies
--------------------

/- The byte `k` of a little-endian word is replaced. -/
def setByte
    {w : Nat}
    (word : BitVec w)
    (k : Nat)
    (byte : U8) :
    BitVec w :=
  (word &&& ~~~((0xFF#8).setWidth w <<< (8 * k))) |||
    (byte.setWidth w <<< (8 * k))

section Copies

variable (dst : Addr)
variable (n : Nat)
variable (bytes : Bytes)

/- The field at `a` after a copy of `n` bytes to `dst`. -/
def copyField
    {w : Nat}
    (a : Addr)
    (field : BitVec w) :
    BitVec w :=
  (List.range (w / 8)).foldl
    (fun word k =>
      let i := (a + BitVec.ofNat 64 k - dst).toNat
      if i < n then setByte word k (bytes i) else word)
    field

def copyPointer
    (a : Addr)
    (field : Option Addr) :
    Option Addr :=
  let word := copyField dst n bytes a (field.getD 0#64)
  if word = 0#64 then none else some word

def copyName
    (a : Addr)
    (name : Bytes) :
    Bytes :=
  fun k =>
    let i := (a + BitVec.ofNat 64 k - dst).toNat
    if i < n then bytes i else name k

/- The inode at `a`; its fields lie as in tmpfs_inode_t. -/
def TmpfsInode.copied
    (a : Addr)
    (inode : TmpfsInode) :
    TmpfsInode :=
  if Extent.Apart ⟨dst.toNat, n⟩ ⟨a.toNat, sizeofTmpfsInode⟩ then
    inode
  else
    { ino := copyField dst n bytes a inode.ino
      name := copyName dst n bytes (a + 4#64) inode.name
      size := copyField dst n bytes (a + 260#64) inode.size
      mode := copyField dst n bytes (a + 264#64) inode.mode
      atime := copyField dst n bytes (a + 272#64) inode.atime
      mtime := copyField dst n bytes (a + 280#64) inode.mtime
      ctime := copyField dst n bytes (a + 288#64) inode.ctime
      data := copyPointer dst n bytes (a + 296#64) inode.data
      parent := copyPointer dst n bytes (a + 304#64) inode.parent
      children :=
        copyPointer dst n bytes (a + 312#64) inode.children
      next := copyPointer dst n bytes (a + 320#64) inode.next
      prev := copyPointer dst n bytes (a + 328#64) inode.prev
      refcount :=
        copyField dst n bytes (a + 336#64) inode.refcount }

/- The superblock at `a`. -/
def TmpfsSb.copied
    (a : Addr)
    (sb : TmpfsSb) :
    TmpfsSb :=
  if Extent.Apart ⟨dst.toNat, n⟩ ⟨a.toNat, sizeofTmpfsSb⟩ then
    sb
  else
    { nextIno := copyField dst n bytes a sb.nextIno
      root := copyPointer dst n bytes (a + 8#64) sb.root
      maxSize := copyField dst n bytes (a + 16#64) sb.maxSize
      usedSize := copyField dst n bytes (a + 20#64) sb.usedSize }

/- `memcpy` of `n` bytes to `dst` -/
def TmpfsState.copyIn
    (s : TmpfsState) :
    TmpfsState :=
  { s with
    sb :=
      match s.sbPtr with
      | none => s.sb
      | some a => s.sb.copied dst n bytes a
    inodes := fun a => (s.inodes a).copied dst n bytes a
    memory := s.memory.patch dst n bytes }

end Copies

--------------------
-- Inodes
--------------------

def tmpfsInit (s : TmpfsState) : Int × TmpfsState :=
  match kmalloc s.heap (BitVec.ofNat 64 sizeofTmpfsSb) with
  | (none, heap) => (-1, { s with sbPtr := none, heap := heap })
  | (some sb, heap) =>
      let s :=
        { s with
          sbPtr := some sb
          sb :=
            { nextIno := 1#32
              root := none
              maxSize := tmpfsMaxSize
              usedSize := 0#32 } }
      match kmalloc heap (BitVec.ofNat 64 sizeofTmpfsInode) with
      | (none, heap) => (-1, { s with heap := heap })
      | (some root, heap) =>
          (0,
            { s with
              sb :=
                { s.sb with
                  nextIno := s.sb.nextIno + 1#32
                  root := some root }
              inodes :=
                Function.update s.inodes root
                  { TmpfsInode.zero with
                    ino := s.sb.nextIno
                    name := fun k => if k = 0 then 0x2F#8 else 0#8
                    mode := 0x1C2#16
                    refcount := 1#32 }
              heap := heap })

/- The record of a new inode is filled. -/
def newInode
    (s : TmpfsState)
    (now : U64)
    (parent : Option Addr)
    (name : CString)
    (mode : U16)
    (inode : Addr) :
    TmpfsState :=
  { s with
    sb := { s.sb with nextIno := s.sb.nextIno + 1#32 }
    inodes :=
      Function.update s.inodes inode
        { TmpfsInode.zero with
          ino := s.sb.nextIno
          name := tmpfsName name
          mode := mode
          parent := parent
          refcount := 1#32
          atime := now
          mtime := now
          ctime := now } }

/- The new inode becomes the first child of its parent. -/
def addToChildren
    (s : TmpfsState)
    (parent inode : Addr) :
    TmpfsState :=
  let s := s.modify inode fun node =>
    { node with next := (s.inodes parent).children }
  let s :=
    match (s.inodes parent).children with
    | none => s
    | some child =>
        s.modify child fun node => { node with prev := some inode }
  s.modify parent fun node => { node with children := some inode }

def tmpfsCreate
    (s : TmpfsState)
    (now : U64)
    (parent : Option Addr)
    (name : Option CString)
    (mode : U16) :
    Option Addr × TmpfsState :=
  match name with
  | none => (none, s)
  | some name =>
      match kmalloc s.heap (BitVec.ofNat 64 sizeofTmpfsInode) with
      | (none, heap) => (none, { s with heap := heap })
      | (some inode, heap) =>
          let s :=
            newInode { s with heap := heap } now parent name mode
              inode
          match parent with
          | none => (some inode, s)
          | some parent => (some inode, addToChildren s parent inode)

/- The link to the inode from before goes past it. -/
def unlinkBefore
    (s : TmpfsState)
    (parent inode : Addr) :
    TmpfsState :=
  match (s.inodes inode).prev with
  | some prev =>
      s.modify prev fun node =>
        { node with next := (s.inodes inode).next }
  | none =>
      s.modify parent fun node =>
        { node with children := (s.inodes inode).next }

/- So does the link from behind. -/
def unlinkAfter
    (s : TmpfsState)
    (inode : Addr) :
    TmpfsState :=
  match (s.inodes inode).next with
  | some next =>
      s.modify next fun node =>
        { node with prev := (s.inodes inode).prev }
  | none => s

def removeFromParent
    (s : TmpfsState)
    (parent inode : Addr) :
    TmpfsState :=
  unlinkAfter (unlinkBefore s parent inode) inode

/- The bytes of a file are not counted any more. -/
def freeData
    (s : TmpfsState)
    (inode : Addr) :
    TmpfsState :=
  match (s.inodes inode).data with
  | none => s
  | some _ =>
      { s with
        sb :=
          { s.sb with
            usedSize := s.sb.usedSize - (s.inodes inode).size } }

/- The part of `tmpfs_delete` for the last reference. -/
def tmpfsFree
    (s : TmpfsState)
    (inode : Addr) :
    TmpfsState :=
  match (s.inodes inode).parent with
  | none => freeData s inode
  | some parent => freeData (removeFromParent s parent inode) inode

def dropReference
    (s : TmpfsState)
    (inode : Addr) :
    TmpfsState :=
  s.modify inode fun node =>
    { node with refcount := node.refcount - 1#32 }

def tmpfsDelete
    (s : TmpfsState)
    (inode : Option Addr) :
    Int × TmpfsState :=
  match inode with
  | none => (-1, s)
  | some inode =>
      let s := dropReference s inode
      if 0 < (s.inodes inode).refcount.toInt then
        (0, s)
      else
        (0, tmpfsFree s inode)

--------------------
-- Files
--------------------

/- The return value and the caller's buffer. -/
def tmpfsRead
    (s : TmpfsState)
    (inode : Option Addr)
    (offset : U32)
    (buf : Option Bytes)
    (count : U32) :
    Int × Bytes :=
  match inode, buf with
  | some inode, some buf =>
      let node := s.inodes inode
      let count :=
        if node.size < offset + count then
          node.size - offset
        else
          count
      if count = 0#32 then
        (0, buf)
      else
        (count.toInt,
          copyOut s.memory
            (node.data.getD 0#64 + offset.setWidth 64)
            count.toNat buf)
  | _, buf => (-1, buf.getD fun _ => 0#8)

/- The old data is copied to a new block of the new size. -/
def tmpfsGrow
    (s : TmpfsState)
    (inode : Addr)
    (newSize : U32)
    (newData : Addr) :
    TmpfsState :=
  let s :=
    match (s.inodes inode).data with
    | none => s
    | some data =>
        let s := s.copyIn newData (s.inodes inode).size.toNat
          fun i => s.memory (data + BitVec.ofNat 64 i)
        { s with
          sb :=
            { s.sb with
              usedSize := s.sb.usedSize - (s.inodes inode).size } }
  let s := s.modify inode fun node =>
    { node with data := some newData, size := newSize }
  { s with
    sb := { s.sb with usedSize := s.sb.usedSize + newSize } }

def tmpfsStore
    (s : TmpfsState)
    (now : U64)
    (inode : Addr)
    (offset : U32)
    (buf : Bytes)
    (count : U32) :
    Int × TmpfsState :=
  let s := s.copyIn
    ((s.inodes inode).data.getD 0#64 + offset.setWidth 64)
    count.toNat buf
  (count.toInt, s.modify inode fun node => { node with mtime := now })

/- All sums of offsets, counts and sizes are 32-bit. -/
def tmpfsWrite
    (s : TmpfsState)
    (now : U64)
    (inode : Option Addr)
    (offset : U32)
    (buf : Option Bytes)
    (count : U32) :
    Int × TmpfsState :=
  match inode, buf with
  | some inode, some buf =>
      if (s.inodes inode).size < offset + count then
        let newSize := offset + count
        if s.sb.maxSize < s.sb.usedSize + newSize then
          (-1, s)
        else
          match kmalloc s.heap (newSize.setWidth 64) with
          | (none, heap) => (-1, { s with heap := heap })
          | (some newData, heap) =>
              tmpfsStore
                (tmpfsGrow { s with heap := heap } inode newSize
                  newData)
                now inode offset buf count
      else
        tmpfsStore s now inode offset buf count
  | _, _ => (-1, s)

end FeatherOS
