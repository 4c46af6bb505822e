import FeatherOS.Hash.Strings
import FeatherOS.Ramdisk.Model

/-
  The virtual file system of `kernel/fs/vfs.c`.

  The lists of mounts, dentries and files are lists of their
  records. The operations of filesystems and vnodes work on
  the vnodes, the heap and a world of their own. Every vnode
  that `vnode_put` frees is noted, with whether something
  still points to it. A path is split before it is walked.

  Key definitions include:
    * `VfsState`
    * `vfsInit`
    * `vfsMount`
    * `vfsUnmount`
    * `pathLookup`
    * `vfsOpen`
    * `vfsClose`
-/

namespace FeatherOS

--------------------
-- Records
--------------------

/- vnode_t; its operations are those of its address. -/
structure Vnode where
  size : U32
  sb : Option Addr
  refcount : Int

/- What the operations of a filesystem may change. -/
structure VfsKernel (W : Type) where
  vnodes : Addr → Vnode
  heap : Heap
  world : W

section Records

variable (W : Type)

/- `ops->lookup`, `fops->open` and `fops->close` may be NULL. -/
structure VnodeOps where
  lookup :
    Option
      (Addr → List U8 → VfsKernel W →
        Int × Option Addr × VfsKernel W)
  openFile :
    Option (Addr → Addr → VfsKernel W → Int × VfsKernel W)
  closeFile : Option (Addr → VfsKernel W → VfsKernel W)

/- filesystem_t; `mount` may set `s_root`. -/
structure Filesystem where
  name : CString
  mount :
    Addr → Option CString → Option Addr → VfsKernel W →
      Int × Option Addr × VfsKernel W
  unmount : Option (Addr → VfsKernel W → VfsKernel W)
  root : Addr → VfsKernel W → Option Addr × VfsKernel W

/- superblock_t -/
structure Superblock where
  ptr : Addr
  fs : Filesystem W
  sRoot : Addr

/- mount_t -/
structure Mount where
  target : List U8
  sb : Superblock W

/- dentry_t -/
structure Dentry where
  name : List U8
  vnode : Option Addr
  flags : U32
  refcount : Int

/- file_t -/
structure VfsFile where
  ptr : Addr
  vnode : Addr
  pos : U64
  flags : U32
  refcount : Int

structure VfsState where
  filesystems : List (Filesystem W)
  mounts : List (Mount W)
  mountCount : Int
  dentries : List Dentry
  dentryCount : Int
  rootVnode : Option Addr
  files : List VfsFile
  kernel : VfsKernel W
  freed : List (Addr × Bool)
  lookups : U64
  cacheHits : U64
  operations : U64

end Records

/- The sizes of the records that are allocated. -/
def sizeofVnode : U64 := 96#64
def sizeofDentry : U64 := 320#64
def sizeofSuperblock : U64 := 136#64
def sizeofMount : U64 := 344#64
def sizeofFile : U64 := 48#64

/- MAX_FILENAME -/
def maxFilename : Nat := 255

/- MAX_DENTRY_CACHE -/
def maxDentryCache : Nat := 256

/- DENTRY_NEGATIVE -/
def dentryNegative : U32 := 0x0002#32

/- VFS_O_TRUNC -/
def vfsOTrunc : U32 := 0x0200#32

/- The character `/`. -/
def slash : U8 := 0x2F#8

section Vfs

variable {W : Type}

--------------------
-- References
--------------------

namespace VfsState

def setVnode
    (s : VfsState W)
    (v : Addr)
    (f : Vnode → Vnode) :
    VfsState W :=
  { s with
    kernel :=
      { s.kernel with
        vnodes :=
          Function.update s.kernel.vnodes v
            (f (s.kernel.vnodes v)) } }

def addRef
    (s : VfsState W)
    (v : Addr)
    (n : Int) :
    VfsState W :=
  s.setVnode v fun vnode =>
    { vnode with refcount := vnode.refcount + n }

/-
  A dentry of the cache, an open file or the superblock of a
  mount points to the vnode.
-/
def pointsTo
    (s : VfsState W)
    (v : Addr) : Bool :=
  s.dentries.any (fun d => d.vnode = some v) ||
    s.files.any (fun f => 0 < f.refcount ∧ f.vnode = v) ||
    s.mounts.any fun m => m.sb.sRoot = v

end VfsState

def vnodeGet
    (s : VfsState W)
    (v : Addr) :
    VfsState W :=
  s.addRef v 1

/- A vnode without references is freed. -/
def vnodePut
    (s : VfsState W)
    (v : Addr) :
    VfsState W :=
  let s := s.addRef v (-1)
  if 0 < (s.kernel.vnodes v).refcount then
    s
  else
    { s with freed := s.freed ++ [(v, s.pointsTo v)] }

--------------------
-- Dentries
--------------------

/- INT_MAX; a sum above it has no meaning. -/
def intMax : Int := 2 ^ 31 - 1

/- The test in the loop of `dentry_lookup`. -/
def Dentry.isHit
    (path : List U8)
    (d : Dentry) : Bool :=
  strcmp d.name path = 0 ∧ d.flags &&& dentryNegative = 0#32

/- The first dentry of that name gets a reference. -/
def dentryLookup
    (path : List U8) :
    List Dentry → Option Dentry × List Dentry
  | [] => (none, [])
  | d :: ds =>
      if d.isHit path then
        let d := { d with refcount := d.refcount + 1 }
        (some d, d :: ds)
      else
        let answer := dentryLookup path ds
        (answer.1, d :: answer.2)

/- Unused dentries go while there are more than half. -/
def dentryPrune :
    List Dentry → Int → List Dentry × Int
  | [], count => ([], count)
  | d :: ds, count =>
      if count ≤ (maxDentryCache / 2 : Nat) then
        (d :: ds, count)
      else if d.refcount ≤ 0 then
        dentryPrune ds (count - 1)
      else
        let answer := dentryPrune ds count
        (d :: answer.1, answer.2)

/- The name is compared whole, and kept cut. -/
def dentryAdd
    (s : VfsState W)
    (name : List U8)
    (vnode : Option Addr) :
    VfsState W :=
  if s.dentries.any (fun d => strcmp d.name name = 0) then
    s
  else
    match kmalloc s.kernel.heap sizeofDentry with
    | (none, heap) =>
        { s with kernel := { s.kernel with heap := heap } }
    | (some _, heap) =>
        let d : Dentry :=
          { name := name.take maxFilename
            vnode := vnode
            flags := 0#32
            refcount := 1 }
        let dentries := d :: s.dentries
        let count := s.dentryCount + 1
        let pruned :=
          if (maxDentryCache : Int) < count then
            dentryPrune dentries count
          else
            (dentries, count)
        { s with
          dentries := pruned.1
          dentryCount := pruned.2
          kernel := { s.kernel with heap := heap } }

--------------------
-- Mounts
--------------------

/- `char` is unsigned here. The end of a string reads as zero. -/
def strncmp
    (s t : List U8) :
    Nat → Int
  | 0 => 0
  | n + 1 =>
      if s.headD 0#8 ≠ t.headD 0#8 ∨ s.headD 0#8 = 0#8 then
        (s.headD 0#8).toNat - (t.headD 0#8).toNat
      else
        strncmp s.tail t.tail n

/- The longest target that the path begins with. -/
def vfsFindMount
    (mounts : List (Mount W))
    (path : List U8) :
    Option (Mount W) :=
  (mounts.foldl
    (fun best m =>
      if best.2 < m.target.length ∧
          strncmp path m.target m.target.length = 0 then
        (some m, m.target.length)
      else
        best)
    (none, 0)).1

def unmountFs
    (s : VfsState W)
    (fs : Filesystem W)
    (sb : Addr) :
    VfsState W :=
  match fs.unmount with
  | none => s
  | some unmount => { s with kernel := unmount sb s.kernel }

/- The mount of a superblock with a root. -/
def addMount
    (s : VfsState W)
    (target : CString)
    (sb : Superblock W) :
    Int × VfsState W :=
  let s := s.setVnode sb.sRoot fun vnode =>
    { vnode with sb := some sb.ptr }
  match kmalloc s.kernel.heap sizeofMount with
  | (none, heap) =>
      let s := { s with kernel := { s.kernel with heap := heap } }
      (-1, unmountFs (s.addRef sb.sRoot (-1)) sb.fs sb.ptr)
  | (some _, heap) =>
      (0,
        { s with
          mounts := ⟨target.bytes.take 255, sb⟩ :: s.mounts
          mountCount := s.mountCount + 1
          kernel := { s.kernel with heap := heap } })

/- The part of `vfs_mount` with the superblock. -/
def mountFs
    (s : VfsState W)
    (source : Option CString)
    (target : CString)
    (fs : Filesystem W)
    (data : Option Addr)
    (sb : Addr) :
    Int × VfsState W :=
  match fs.mount sb source data s.kernel with
  | (ret, sRoot, kernel) =>
      let s := { s with kernel := kernel }
      if ret ≠ 0 then
        (-1, s)
      else
        match sRoot with
        | some sRoot => addMount s target ⟨sb, fs, sRoot⟩
        | none =>
            match fs.root sb s.kernel with
            | (some sRoot, kernel) =>
                addMount { s with kernel := kernel } target
                  ⟨sb, fs, sRoot⟩
            | (none, kernel) =>
                (-1, unmountFs { s with kernel := kernel } fs sb)

def vfsMount
    (s : VfsState W)
    (source target fsType : Option CString)
    (data : Option Addr) :
    Int × VfsState W :=
  match target, fsType with
  | some target, some fsType =>
      if s.mounts.any
          (fun m => strcmp m.target target.bytes = 0) then
        (-1, s)
      else
        match s.filesystems.find?
            (fun fs => strcmp fs.name.bytes fsType.bytes = 0) with
        | none => (-1, s)
        | some fs =>
            match kmalloc s.kernel.heap sizeofSuperblock with
            | (none, heap) =>
                (-1,
                  { s with
                    kernel := { s.kernel with heap := heap } })
            | (some sb, heap) =>
                mountFs
                  { s with
                    kernel := { s.kernel with heap := heap } }
                  source target fs data sb
  | _, _ => (-1, s)

/- The reference to the root is dropped without `vnode_put`. -/
def vfsUnmount
    (s : VfsState W)
    (target : Option CString) :
    Int × VfsState W :=
  match target with
  | none => (-1, s)
  | some target =>
      match s.mounts.find?
          (fun m => strcmp m.target target.bytes = 0) with
      | none => (-1, s)
      | some m =>
          let s :=
            { s with
              mounts := s.mounts.eraseP fun m =>
                strcmp m.target target.bytes = 0
              mountCount := s.mountCount - 1 }
          let s := unmountFs s m.sb.fs m.sb.ptr
          (0, s.addRef m.sb.sRoot (-1))

--------------------
-- Paths
--------------------

/-
  The components of a path, after the characters `acc` of
  one. A component ends at 255 characters.
-/
def pathComponents
    (acc : List U8) :
    List U8 → List (List U8)
  | [] => if acc = [] then [] else [acc]
  | c :: rest =>
      if c = slash then
        if acc = [] then pathComponents [] rest
        else acc :: pathComponents [] rest
      else if acc.length = maxFilename then
        acc :: pathComponents [c] rest
      else
        pathComponents (acc ++ [c]) rest

/- The components `.` and `..` -/
def isDots (component : List U8) : Bool :=
  strcmp component [0x2E#8] = 0 ∨
    strcmp component [0x2E#8, 0x2E#8] = 0

/- Where a walk begins, and what is left of the path. -/
def walkStart
    (s : VfsState W)
    (path : List U8) :
    Option Addr × List U8 :=
  match vfsFindMount s.mounts path with
  | some m =>
      (some m.sb.sRoot,
        (path.drop m.target.length).dropWhile fun c => c = slash)
  | none => (s.rootVnode, path)

variable (ops : Addr → VnodeOps W)

/- The loop over the components. -/
def walkPath :
    List (List U8) → Addr → VfsState W →
      Int × Option Addr × VfsState W
  | [], current, s => (0, some current, s)
  | component :: rest, current, s =>
      if isDots component then
        walkPath rest current s
      else
        match (ops current).lookup with
        | none => (-1, none, vnodePut s current)
        | some lookup =>
            match lookup current component s.kernel with
            | (ret, next, kernel) =>
                let s := vnodePut { s with kernel := kernel } current
                if ret ≠ 0 then
                  (ret, none, s)
                else
                  match next with
                  | none => (-1, none, s)
                  | some next => walkPath rest next s

/- The part of `path_lookup` after the cache. -/
def lookupUncached
    (s : VfsState W)
    (path : List U8) :
    Int × Option Addr × VfsState W :=
  match walkStart s path with
  | (none, _) => (-1, none, s)
  | (some start, rest) =>
      let s := vnodeGet s start
      if strcmp rest [slash] = 0 ∨ strcmp rest [] = 0 then
        (0, some start, s)
      else
        match walkPath ops (pathComponents [] rest) start s with
        | (ret, none, s) => (ret, none, s)
        | (ret, some v, s) =>
            (ret, some v, dentryAdd s rest (some v))

def pathLookup
    (s : VfsState W)
    (path : Option CString) :
    Int × Option Addr × VfsState W :=
  match path with
  | none => (-1, none, s)
  | some path =>
      let answer := dentryLookup path.bytes s.dentries
      let s :=
        { s with
          dentries := answer.2
          lookups := s.lookups + 1#64
          operations := s.operations + 1#64 }
      match answer.1.bind Dentry.vnode with
      | some v =>
          (0, some v,
            vnodeGet { s with cacheHits := s.cacheHits + 1#64 } v)
      | none => lookupUncached ops s path.bytes

--------------------
-- Files
--------------------

def truncateFile
    (s : VfsState W)
    (v : Addr)
    (flags : U32) :
    VfsState W :=
  if flags &&& vfsOTrunc ≠ 0#32 ∧
      0#32 < (s.kernel.vnodes v).size then
    s.setVnode v fun vnode => { vnode with size := 0#32 }
  else
    s

/- The part of `vfs_open` with the vnode. -/
def openVnode
    (s : VfsState W)
    (v : Addr)
    (flags : U32) :
    Int × Option Addr × VfsState W :=
  match kmalloc s.kernel.heap sizeofFile with
  | (none, heap) =>
      (-1, none,
        vnodePut
          { s with kernel := { s.kernel with heap := heap } } v)
  | (some f, heap) =>
      let file : VfsFile := ⟨f, v, 0#64, flags, 1⟩
      let opened :=
        { s with
          files := file :: s.files
          kernel := { s.kernel with heap := heap } }
      match (ops v).openFile with
      | none => (0, some f, truncateFile opened v flags)
      | some openFile =>
          match openFile v f opened.kernel with
          | (ret, kernel) =>
              if ret ≠ 0 then
                (ret, none, vnodePut { s with kernel := kernel } v)
              else
                (0, some f,
                  truncateFile { opened with kernel := kernel } v
                    flags)

def vfsOpen
    (s : VfsState W)
    (path : Option CString)
    (flags : U32) :
    Int × Option Addr × VfsState W :=
  match path with
  | none => (-1, none, s)
  | some path =>
      let s := { s with operations := s.operations + 1#64 }
      match pathLookup ops s (some path) with
      | (ret, v, s) =>
          if ret ≠ 0 then
            (-1, none, s)
          else
            match v with
            | none => (-1, none, s)
            | some v => openVnode ops s v flags

/- The file is the first of that address. -/
def vfsClose
    (s : VfsState W)
    (file : Option Addr) :
    Int × VfsState W :=
  match file with
  | none => (-1, s)
  | some f =>
      match s.files.find? (fun x => x.ptr = f) with
      | none => (-1, s)
      | some file =>
          let rest := s.files.eraseP fun x => x.ptr = f
          let file := { file with refcount := file.refcount - 1 }
          let s := { s with files := file :: rest }
          if 0 < file.refcount then
            (0, s)
          else
            let s :=
              match (ops file.vnode).closeFile with
              | none => s
              | some closeFile =>
                  { s with kernel := closeFile f s.kernel }
            let s := vnodePut s file.vnode
            (0, { s with files := rest })

--------------------
-- Initialisation
--------------------

def vfsInit (s : VfsState W) : Int × VfsState W :=
  let s := { s with dentries := [], dentryCount := 0 }
  match kmalloc s.kernel.heap sizeofVnode with
  | (none, heap) =>
      (-1,
        { s with
          rootVnode := none
          kernel := { s.kernel with heap := heap } })
  | (some root, heap) =>
      let s :=
        { s with
          rootVnode := some root
          kernel :=
            { s.kernel with
              vnodes :=
                Function.update s.kernel.vnodes root
                  ⟨0#32, none, 1⟩ } }
      match kmalloc heap sizeofDentry with
      | (none, heap) =>
          (-1, { s with kernel := { s.kernel with heap := heap } })
      | (some _, heap) =>
          (0,
            { s with
              dentries := [⟨[slash], some root, 0#32, 1⟩]
              dentryCount := 1
              kernel := { s.kernel with heap := heap } })

end Vfs

end FeatherOS
