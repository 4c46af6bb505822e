import FeatherOS.Vfs.Transparency

/-
  When vnodes are freed.

  Open files and mounts have references of their own, but a
  dentry points to its vnode without one. So a vnode is freed
  under a dentry when the last of the other references goes.

  Key definitions include:
    * `RefsKept`
    * `FilesystemRefs`
    * `LifetimeOk`
    * `FreedOk`

  Key theorems include:
    * `pathLookup_looked`
    * `vfsRun_freed_iff`
-/

namespace FeatherOS

section Vfs

variable {W : Type}

--------------------
-- What The Operations Promise
--------------------

def VfsKernel.refs
    (kernel : VfsKernel W)
    (v : Addr) : Int :=
  (kernel.vnodes v).refcount

/-
  A lookup returns its vnode with one reference added for the
  caller; opening and closing take none.
-/
structure RefsKept (ops : Addr → VnodeOps W) : Prop where
  lookup : ∀ v lookup, (ops v).lookup = some lookup →
    ∀ name kernel w,
      (lookup v name kernel).2.2.refs w =
        kernel.refs w +
          if (lookup v name kernel).1 = 0 ∧
              (lookup v name kernel).2.1 = some w then 1
          else 0
  openFile : ∀ v openFile, (ops v).openFile = some openFile →
    ∀ f kernel w, (openFile v f kernel).2.refs w = kernel.refs w
  closeFile : ∀ v closeFile, (ops v).closeFile = some closeFile →
    ∀ f kernel w, (closeFile f kernel).refs w = kernel.refs w

/-
  A filesystem hands the root of a superblock over with the
  reference that unmounting drops.
-/
structure FilesystemRefs (fs : Filesystem W) : Prop where
  mount : ∀ sb source data kernel w,
    (fs.mount sb source data kernel).2.2.refs w =
      kernel.refs w +
        if (fs.mount sb source data kernel).1 = 0 ∧
            (fs.mount sb source data kernel).2.1 = some w then 1
        else 0
  root : ∀ sb kernel w,
    (fs.root sb kernel).2.refs w =
      kernel.refs w +
        if (fs.root sb kernel).1 = some w then 1 else 0
  unmount : ∀ unmount, fs.unmount = some unmount →
    ∀ sb kernel w, (unmount sb kernel).refs w = kernel.refs w

--------------------
-- The Property
--------------------

/- No vnode was freed while something pointed to it. -/
def FreedOk (s : VfsState W) : Prop :=
  ∀ entry ∈ s.freed, entry.2 = false

def NoDentry
    (s : VfsState W)
    (v : Addr) : Prop :=
  ∀ d ∈ s.dentries, d.vnode ≠ some v

inductive LifetimeCall where
  | mount
      (source target fsType : Option CString)
      (data : Option Addr)
  | openFile (path : Option CString) (flags : U32)
  | closeFile (file : Option Addr)

section Calls

variable (ops : Addr → VnodeOps W)

/- A file that is closed is open. -/
def LifetimeLegal
    (s : VfsState W) :
    LifetimeCall → Prop
  | .closeFile (some f) => ∃ x ∈ s.files, x.ptr = f
  | _ => True

def lifetimeNext
    (s : VfsState W) :
    LifetimeCall → VfsState W
  | .mount source target fsType data =>
      (vfsMount s source target fsType data).2
  | .openFile path flags => (vfsOpen ops s path flags).2.2
  | .closeFile file => (vfsClose ops s file).2

def lifetimeStep
    (s : VfsState W)
    (call : LifetimeCall)
    (s' : VfsState W) : Prop :=
  LifetimeLegal s call ∧ s' = lifetimeNext ops s call

/- Nothing is open or mounted, and a `vfs_init` succeeds. -/
def LifetimeStarted (s : VfsState W) : Prop :=
  ∃ s₀ : VfsState W,
    s₀.files = [] ∧ s₀.mounts = [] ∧ s₀.freed = [] ∧
      (∀ v, 0 ≤ s₀.kernel.refs v) ∧ vfsInit s₀ = (0, s)

/- The lookup of `vfs_open`. -/
def lookedUp
    (s : VfsState W)
    (path : Option CString) :
    Int × Option Addr × VfsState W :=
  pathLookup ops { s with operations := s.operations + 1#64 } path

/- There is no memory for the file, or its `open` fails. -/
def OpenFails
    (s : VfsState W)
    (v : Addr) : Prop :=
  (kmalloc s.kernel.heap sizeofFile).1 = none ∨
    ∃ openFile f, (ops v).openFile = some openFile ∧
      (kmalloc s.kernel.heap sizeofFile).1 = some f ∧
      (openFile v f
        { s.kernel with
          heap := (kmalloc s.kernel.heap sizeofFile).2 }).1 ≠ 0

/-
  A call does not drop the last reference to a vnode that a
  dentry points to. An opening that fails drops the one its
  lookup took.
-/
def LifetimeOk
    (s : VfsState W) :
    LifetimeCall → Prop
  | .mount _ _ _ _ => True
  | .openFile path _ =>
      ∀ v, (lookedUp ops s path).2.1 = some v →
        OpenFails ops (lookedUp ops s path).2.2 v →
          1 ≤ s.kernel.refs v ∨
            NoDentry (lookedUp ops s path).2.2 v
  | .closeFile none => True
  | .closeFile (some f) =>
      ∀ file, s.files.find? (fun x => x.ptr = f) = some file →
        file.refcount ≤ 1 →
          2 ≤ s.kernel.refs file.vnode ∨ NoDentry s file.vnode

end Calls

--------------------
-- References
--------------------

/- The open files, the mounts and the root, for one vnode. -/
def holders
    (s : VfsState W)
    (v : Addr) : Nat :=
  s.files.countP (fun f => 0 < f.refcount ∧ f.vnode = v) +
    s.mounts.countP (fun m => m.sb.sRoot = v) +
    if s.rootVnode = some v then 1 else 0

/- What every call keeps. -/
structure LifetimeInvariant (s : VfsState W) : Prop where
  held : ∀ v, (holders s v : Int) ≤ s.kernel.refs v
  cached : ∀ d ∈ s.dentries, ∀ v, d.vnode = some v →
    1 ≤ s.kernel.refs v
  opened : ∀ f ∈ s.files, 0 < f.refcount
  filesystems : ∀ fs ∈ s.filesystems, FilesystemRefs fs
  freed : FreedOk s

variable {ops : Addr → VnodeOps W}

@[simp] theorem refs_setVnode
    (s : VfsState W)
    (v w : Addr)
    (f : Vnode → Vnode) :
    (s.setVnode v f).kernel.refs w =
      if w = v then (f (s.kernel.vnodes v)).refcount
      else s.kernel.refs w := by
  simp only [VfsState.setVnode, VfsKernel.refs,
    Function.update_apply]
  split
  · rfl
  · rfl

theorem refs_addRef
    (s : VfsState W)
    (v w : Addr)
    (n : Int) :
    (s.addRef v n).kernel.refs w =
      s.kernel.refs w + if w = v then n else 0 := by
  simp only [VfsState.addRef, refs_setVnode]
  split
  next h => rw [h]; rfl
  next => omega

theorem refs_vnodePut
    (s : VfsState W)
    (v w : Addr) :
    (vnodePut s v).kernel.refs w =
      s.kernel.refs w - if w = v then 1 else 0 := by
  have hSame :
      (vnodePut s v).kernel = (s.addRef v (-1)).kernel := by
    simp only [vnodePut]
    split
    · rfl
    · rfl
  rw [hSame, refs_addRef]
  split
  · omega
  · omega

variable {v : Addr}
variable {s : VfsState W}

/- Nothing points to a vnode without holders and dentries. -/
theorem pointsTo_eq_false
    (hHolders : holders s v = 0)
    (hDentry : NoDentry s v) :
    s.pointsTo v = false := by
  have hFiles :
      s.files.countP (fun f => 0 < f.refcount ∧ f.vnode = v) =
        0 := by
    unfold holders at hHolders
    omega
  have hMounts :
      s.mounts.countP (fun m => m.sb.sRoot = v) = 0 := by
    unfold holders at hHolders
    omega
  rw [List.countP_eq_zero] at hFiles hMounts
  simp only [VfsState.pointsTo, Bool.or_eq_false_iff,
    List.any_eq_false]
  refine ⟨⟨?_, hFiles⟩, hMounts⟩
  intro d hd
  simpa using hDentry d hd

/- When a reference is dropped. -/
theorem vnodePut_freedOk_iff
    (hFreed : FreedOk s) :
    FreedOk (vnodePut s v) ↔
      (s.kernel.refs v ≤ 1 → s.pointsTo v = false) := by
  have hRefs :
      ((s.addRef v (-1)).kernel.vnodes v).refcount =
        s.kernel.refs v - 1 := by
    have hAdd := refs_addRef s v v (-1)
    rw [if_pos rfl] at hAdd
    unfold VfsKernel.refs at hAdd ⊢
    omega
  simp only [vnodePut, hRefs]
  split
  next hMore =>
    constructor
    · intro _ hLast
      omega
    · intro _
      exact hFreed
  next hLast =>
    constructor
    · intro hAll _
      exact hAll (v, (s.addRef v (-1)).pointsTo v) (by simp)
    · intro hPoints entry hEntry
      rcases List.mem_append.mp hEntry with hOld | hNew
      · exact hFreed entry hOld
      · rw [List.mem_singleton.mp hNew]
        exact hPoints (by omega)

--------------------
-- Lookups
--------------------

variable {s s₀ : VfsState W}

/- A vnode without references has no holder and no dentry. -/
theorem LifetimeInvariant.idle
    (hInv : LifetimeInvariant s₀)
    (hTables : SameTables s₀ s)
    (hRefs : s₀.kernel.refs v ≤ 0) :
    s.pointsTo v = false := by
  apply pointsTo_eq_false
  · have hHeld := hInv.held v
    have hSame : holders s v = holders s₀ v := by
      simp only [holders, hTables.files, hTables.mounts,
        hTables.rootVnode]
    omega
  · intro d hd hPoints
    rw [hTables.dentries] at hd
    have hUsed := hInv.cached d hd v hPoints
    omega

/- A walk that holds one more reference passes it on. -/
theorem walkPath_looked
    (hOps : RefsKept ops)
    (hInv : LifetimeInvariant s₀)
    (names : List (List U8))
    (hTables : SameTables s₀ s)
    (hRefs : ∀ w,
      s.kernel.refs w =
        s₀.kernel.refs w + if some v = some w then 1 else 0)
    (hFreed : FreedOk s) :
    (∀ w,
      (walkPath ops names v s).2.2.kernel.refs w =
        s₀.kernel.refs w +
          if (walkPath ops names v s).2.1 = some w then 1
          else 0) ∧
      FreedOk (walkPath ops names v s).2.2 := by
  induction names generalizing v s with
  | nil => exact ⟨hRefs, hFreed⟩
  | cons name rest ih =>
      simp only [walkPath]
      split
      · exact ih hTables hRefs hFreed
      · -- the reference to this vnode is dropped
        have hDrop : ∀ (kernel : VfsKernel W)
            (next : Option Addr),
            (∀ w, kernel.refs w =
              s.kernel.refs w + if next = some w then 1 else 0) →
            (∀ w,
              (vnodePut { s with kernel := kernel } v).kernel.refs
                  w =
                s₀.kernel.refs w +
                  if next = some w then 1 else 0) ∧
              FreedOk (vnodePut { s with kernel := kernel } v) ∧
              SameTables s₀
                (vnodePut { s with kernel := kernel } v) := by
          intro kernel next hKernel
          have hSame : SameTables s₀ { s with kernel := kernel } :=
            ⟨hTables.filesystems, hTables.mounts,
              hTables.dentries, hTables.dentryCount,
              hTables.rootVnode, hTables.files⟩
          refine ⟨?_, ?_, hSame.trans (vnodePut_tables _ v)⟩
          · intro w
            rw [refs_vnodePut]
            simp only [hKernel, hRefs, Option.some.injEq]
            simp only [eq_comm (a := v)]
            omega
          · refine (vnodePut_freedOk_iff
              (s := { s with kernel := kernel }) hFreed).mpr ?_
            intro hLast
            apply hInv.idle hSame
            simp only [hKernel, hRefs, if_true] at hLast
            split at hLast
            · omega
            · omega
        split
        · have hNone := hDrop s.kernel none (by simp)
          exact ⟨hNone.1, hNone.2.1⟩
        next lookup hLookup =>
          have hKept := hOps.lookup v lookup hLookup name s.kernel
          by_cases hRet : (lookup v name s.kernel).1 = 0
          · simp only [hRet, ne_eq, not_true_eq_false, if_false]
            simp only [hRet, true_and] at hKept
            rcases hDrop _ _ hKept with ⟨hNext, hOk, hSame⟩
            cases hFound : (lookup v name s.kernel).2.1 with
            | none =>
                simp only [hFound] at hNext
                exact ⟨hNext, hOk⟩
            | some next =>
                simp only [hFound] at hNext
                exact ih hSame hNext hOk
          · simp only [hRet, ne_eq, not_false_eq_true, if_true]
            simp only [hRet, false_and, if_false] at hKept
            have hNone :=
              hDrop (lookup v name s.kernel).2.2 none
                (by simpa using hKept)
            exact ⟨hNone.1, hNone.2.1⟩

/- What a lookup does to references and to the cache. -/
structure Looked
    (s s' : VfsState W)
    (found : Option Addr) : Prop where
  refs : ∀ w,
    s'.kernel.refs w =
      s.kernel.refs w + if found = some w then 1 else 0
  filesystems : s'.filesystems = s.filesystems
  mounts : s'.mounts = s.mounts
  rootVnode : s'.rootVnode = s.rootVnode
  files : s'.files = s.files
  dentries : ∀ d ∈ s'.dentries, ∀ v, d.vnode = some v →
    found = some v ∨ ∃ d₀ ∈ s.dentries, d₀.vnode = some v
  freed : FreedOk s'

variable {d : Dentry}
variable {dentries : List Dentry}

/- Pruning drops entries. -/
theorem mem_dentryPrune
    {count : Int}
    (hd : d ∈ (dentryPrune dentries count).1) :
    d ∈ dentries := by
  induction dentries generalizing count with
  | nil => exact hd
  | cons e ds ih =>
      simp only [dentryPrune] at hd
      split at hd
      · exact hd
      · split at hd
        · exact List.mem_cons_of_mem e (ih hd)
        · rcases List.mem_cons.mp hd with rfl | hd
          · exact List.mem_cons_self
          · exact List.mem_cons_of_mem e (ih hd)

theorem dentryAdd_looked
    (hLooked : Looked s₀ s (some v))
    (name : List U8) :
    Looked s₀ (dentryAdd s name (some v)) (some v) := by
  unfold dentryAdd
  split
  · exact hLooked
  · split
    · exact
        { refs := hLooked.refs
          filesystems := hLooked.filesystems
          mounts := hLooked.mounts
          rootVnode := hLooked.rootVnode
          files := hLooked.files
          dentries := hLooked.dentries
          freed := hLooked.freed }
    · refine
        { refs := hLooked.refs
          filesystems := hLooked.filesystems
          mounts := hLooked.mounts
          rootVnode := hLooked.rootVnode
          files := hLooked.files
          dentries := ?_
          freed := hLooked.freed }
      intro d hd w hw
      have hMem : d ∈
          (⟨name.take maxFilename, some v, 0#32, 1⟩ : Dentry) ::
            s.dentries := by
        simp only at hd
        split at hd
        · exact mem_dentryPrune hd
        · exact hd
      rcases List.mem_cons.mp hMem with rfl | hOld
      · exact .inl hw
      · exact hLooked.dentries d hOld w hw

theorem lookupUncached_looked
    (hOps : RefsKept ops)
    (hInv : LifetimeInvariant s)
    (path : List U8) :
    Looked s (lookupUncached ops s path).2.2
      (lookupUncached ops s path).2.1 := by
  have hSame : Looked s s none :=
    { refs := by simp
      filesystems := rfl
      mounts := rfl
      rootVnode := rfl
      files := rfl
      dentries := fun d hd v hv => .inr ⟨d, hd, hv⟩
      freed := hInv.freed }
  unfold lookupUncached
  cases hStart : walkStart s path with
  | mk start rest =>
      cases start with
      | none => exact hSame
      | some start =>
          have hGet : ∀ w, (vnodeGet s start).kernel.refs w =
              s.kernel.refs w +
                if some start = some w then 1 else 0 := by
            intro w
            rw [vnodeGet, refs_addRef]
            simp only [Option.some.injEq, eq_comm (a := start)]
          have hTables : SameTables s (vnodeGet s start) :=
            ⟨rfl, rfl, rfl, rfl, rfl, rfl⟩
          simp only
          split
          · exact
              { refs := hGet
                filesystems := rfl
                mounts := rfl
                rootVnode := rfl
                files := rfl
                dentries := fun d hd v hv => .inr ⟨d, hd, hv⟩
                freed := hInv.freed }
          · have hWalk := walkPath_looked hOps hInv
              (pathComponents [] rest) hTables hGet hInv.freed
            have hAfter := hTables.trans (@walkPath_tables
              W ops (pathComponents [] rest) start
              (vnodeGet s start))
            revert hWalk hAfter
            generalize walkPath ops (pathComponents [] rest) start
              (vnodeGet s start) = answer
            rcases answer with ⟨ret, found, s'⟩
            rintro ⟨hRefs, hFreed⟩ hAfter
            have hLooked : Looked s s' found :=
              { refs := hRefs
                filesystems := hAfter.filesystems
                mounts := hAfter.mounts
                rootVnode := hAfter.rootVnode
                files := hAfter.files
                dentries := by
                  intro d hd v hv
                  rw [hAfter.dentries] at hd
                  exact .inr ⟨d, hd, hv⟩
                freed := hFreed }
            cases found with
            | none => exact hLooked
            | some v => exact dentryAdd_looked hLooked rest

/- A hit changes the count of the dentry only. -/
theorem mem_dentryLookup
    {path : List U8}
    (hd : d ∈ (dentryLookup path dentries).2) :
    ∃ d₀ ∈ dentries, d₀.vnode = d.vnode := by
  induction dentries with
  | nil => cases hd
  | cons e ds ih =>
      simp only [dentryLookup] at hd
      split at hd
      · rcases List.mem_cons.mp hd with rfl | hd
        · exact ⟨e, List.mem_cons_self, rfl⟩
        · exact ⟨d, List.mem_cons_of_mem e hd, rfl⟩
      · rcases List.mem_cons.mp hd with rfl | hd
        · exact ⟨d, List.mem_cons_self, rfl⟩
        · rcases ih hd with ⟨d₀, hMem, hSame⟩
          exact ⟨d₀, List.mem_cons_of_mem e hMem, hSame⟩

theorem LifetimeInvariant.afterCache
    (hInv : LifetimeInvariant s)
    (path : List U8) :
    LifetimeInvariant (afterCache s path) where
  held := hInv.held
  cached := by
    intro d hd v hv
    rcases mem_dentryLookup hd with ⟨d₀, hMem, hSame⟩
    exact hInv.cached d₀ hMem v (hSame.trans hv)
  opened := hInv.opened
  filesystems := hInv.filesystems
  freed := hInv.freed

theorem pathLookup_looked
    (hOps : RefsKept ops)
    (hInv : LifetimeInvariant s)
    (path : Option CString) :
    Looked s (pathLookup ops s path).2.2
      (pathLookup ops s path).2.1 := by
  cases path with
  | none =>
      exact
        { refs := by simp [pathLookup]
          filesystems := rfl
          mounts := rfl
          rootVnode := rfl
          files := rfl
          dentries := fun d hd v hv => .inr ⟨d, hd, hv⟩
          freed := hInv.freed }
  | some path =>
      rw [pathLookup_eq]
      split
      next v hHit =>
        exact
          { refs := by
              intro w
              rw [vnodeGet, refs_addRef]
              simp only [Option.some.injEq, eq_comm (a := v)]
              rfl
            filesystems := rfl
            mounts := rfl
            rootVnode := rfl
            files := rfl
            dentries := by
              intro d hd w hw
              rcases mem_dentryLookup hd with ⟨d₀, hMem, hSame⟩
              exact .inr ⟨d₀, hMem, hSame.trans hw⟩
            freed := hInv.freed }
      · have hAsked := hInv.afterCache path.bytes
        have hLooked := lookupUncached_looked hOps hAsked path.bytes
        exact
          { refs := hLooked.refs
            filesystems := hLooked.filesystems
            mounts := hLooked.mounts
            rootVnode := hLooked.rootVnode
            files := hLooked.files
            dentries := by
              intro d hd v hv
              rcases hLooked.dentries d hd v hv with
                hFound | ⟨d₁, hMem, hSame⟩
              · exact .inl hFound
              · rcases mem_dentryLookup hMem with
                  ⟨d₀, hMem₀, hSame₀⟩
                exact .inr ⟨d₀, hMem₀, hSame₀.trans hSame⟩
            freed := hLooked.freed }

/- A lookup that finds a vnode returns 0. -/
theorem pathLookup_ret
    {path : Option CString}
    (hFound : (pathLookup ops s path).2.1 = some v) :
    (pathLookup ops s path).1 = 0 := by
  cases path with
  | none => simp [pathLookup] at hFound
  | some path =>
      rw [pathLookup_eq] at hFound ⊢
      split at hFound
      next => rfl
      next =>
        unfold lookupUncached at hFound ⊢
        cases hStart :
            walkStart (afterCache s path.bytes) path.bytes with
        | mk start rest =>
            cases start with
            | none => simp [hStart] at hFound
            | some start =>
                simp only [hStart] at hFound ⊢
                split at hFound
                next hRoot => rw [if_pos hRoot]
                next hRoot =>
                  rw [if_neg hRoot]
                  have hRet : ∀ v,
                      (walkPath ops (pathComponents [] rest) start
                        (vnodeGet (afterCache s path.bytes)
                          start)).2.1 = some v →
                      (walkPath ops (pathComponents [] rest) start
                        (vnodeGet (afterCache s path.bytes)
                          start)).1 = 0 :=
                    fun _ => walkPath_ret
                  revert hFound hRet
                  generalize walkPath ops (pathComponents [] rest)
                    start (vnodeGet (afterCache s path.bytes) start)
                    = answer
                  rcases answer with ⟨ret, found, s'⟩
                  intro hFound hRet
                  cases found with
                  | none => cases hFound
                  | some w => exact hRet w rfl

--------------------
-- Opening
--------------------

/- References and holders grow alike. -/
theorem LifetimeInvariant.grow
    {s s' : VfsState W}
    (hInv : LifetimeInvariant s)
    {extra : Addr → Nat}
    (hRefs : ∀ w, s'.kernel.refs w = s.kernel.refs w + extra w)
    (hHolders : ∀ w, holders s' w ≤ holders s w + extra w)
    (hCached : ∀ d ∈ s'.dentries, ∀ v, d.vnode = some v →
      1 ≤ s'.kernel.refs v)
    (hOpened : ∀ f ∈ s'.files, 0 < f.refcount)
    (hFilesystems : s'.filesystems = s.filesystems)
    (hFreed : FreedOk s') :
    LifetimeInvariant s' where
  held := by
    intro w
    have hOld := hInv.held w
    have hMore := hHolders w
    rw [hRefs w]
    omega
  cached := hCached
  opened := hOpened
  filesystems := by
    rw [hFilesystems]
    exact hInv.filesystems
  freed := hFreed

theorem LifetimeInvariant.refs_nonneg
    (hInv : LifetimeInvariant s)
    (v : Addr) :
    0 ≤ s.kernel.refs v := by
  have hHeld := hInv.held v
  omega

/- Only a dentry can point to a vnode without holders. -/
theorem pointsTo_eq_false_iff
    (hHolders : holders s v = 0) :
    s.pointsTo v = false ↔ NoDentry s v := by
  constructor
  · intro hPoints d hd hv
    simp only [VfsState.pointsTo, Bool.or_eq_false_iff,
      List.any_eq_false] at hPoints
    exact hPoints.1.1 d hd (by simpa using hv)
  · exact pointsTo_eq_false hHolders

section Opening

variable {s t : VfsState W}
variable {v : Addr}

theorem Looked.cached
    (hInv : LifetimeInvariant s)
    (hLooked : Looked s t (some v)) :
    ∀ d ∈ t.dentries, ∀ w, d.vnode = some w →
      1 ≤ t.kernel.refs w := by
  intro d hd w hw
  have hNonneg := hInv.refs_nonneg w
  rw [hLooked.refs]
  rcases hLooked.dentries d hd w hw with hFound | ⟨d₀, hMem, hv⟩
  · rw [if_pos hFound]
    omega
  · have hOld := hInv.cached d₀ hMem w hv
    omega

/- The reference that the lookup took is dropped again. -/
theorem putFound_iff
    (hInv : LifetimeInvariant s)
    (hLooked : Looked s t (some v))
    (kernel : VfsKernel W)
    (hKernel : ∀ w, kernel.refs w = t.kernel.refs w) :
    (FreedOk (vnodePut { t with kernel := kernel } v) ↔
        1 ≤ s.kernel.refs v ∨ NoDentry t v) ∧
      (FreedOk (vnodePut { t with kernel := kernel } v) →
        LifetimeInvariant
          (vnodePut { t with kernel := kernel } v)) := by
  have hRefs := hLooked.refs v
  rw [if_pos rfl] at hRefs
  have hSame : ∀ w,
      holders { t with kernel := kernel } w = holders s w := by
    intro w
    simp only [holders, hLooked.files, hLooked.mounts,
      hLooked.rootVnode]
  have hIff :
      FreedOk (vnodePut { t with kernel := kernel } v) ↔
        1 ≤ s.kernel.refs v ∨ NoDentry t v := by
    rw [vnodePut_freedOk_iff (s := { t with kernel := kernel })
      hLooked.freed]
    simp only [hKernel, hRefs]
    constructor
    · intro hPut
      by_cases hMore : 1 ≤ s.kernel.refs v
      · exact .inl hMore
      · right
        have hHeld := hInv.held v
        have hNone : holders { t with kernel := kernel } v = 0 := by
          rw [hSame]
          omega
        exact (pointsTo_eq_false_iff hNone).mp (hPut (by omega))
    · rintro hOk hLast
      have hHeld := hInv.held v
      have hNone : holders { t with kernel := kernel } v = 0 := by
        rw [hSame]
        omega
      apply (pointsTo_eq_false_iff hNone).mpr
      rcases hOk with hMore | hNoDentry
      · omega
      · exact hNoDentry
  refine ⟨hIff, fun hFreed => ?_⟩
  have hTables := vnodePut_tables { t with kernel := kernel } v
  have hPut : ∀ w,
      (vnodePut { t with kernel := kernel } v).kernel.refs w =
        s.kernel.refs w + (0 : Nat) := by
    intro w
    rw [refs_vnodePut]
    simp only [hKernel, hLooked.refs, Option.some.injEq,
      eq_comm (a := v)]
    omega
  apply hInv.grow hPut
  · intro w
    simp only [holders, hTables.files, hTables.mounts,
      hTables.rootVnode]
    exact Nat.le_of_eq (hSame w)
  · intro d hd w hw
    rw [hTables.dentries] at hd
    rw [hPut]
    rcases hLooked.dentries d hd w hw with hFound | ⟨d₀, hMem, hv⟩
    · injection hFound with hFound
      subst hFound
      rcases hIff.mp hFreed with hMore | hNoDentry
      · omega
      · exact absurd hw (hNoDentry d hd)
    · have hOld := hInv.cached d₀ hMem w hv
      omega
  · rw [hTables.files]
    simp only [hLooked.files]
    exact hInv.opened
  · rw [hTables.filesystems]
    exact hLooked.filesystems
  · exact hFreed

/- The reference goes to the file. -/
theorem keepFound
    (hInv : LifetimeInvariant s)
    (hLooked : Looked s t (some v))
    (kernel : VfsKernel W)
    (hKernel : ∀ w, kernel.refs w = t.kernel.refs w)
    (file : VfsFile)
    (hVnode : file.vnode = v)
    (hOne : file.refcount = 1)
    (flags : U32) :
    LifetimeInvariant
      (truncateFile
        { t with files := file :: t.files, kernel := kernel } v
        flags) := by
  have hTables : ∀ u : VfsState W,
      SameTables u (truncateFile u v flags) ∧
        (truncateFile u v flags).freed = u.freed ∧
        ∀ w, (truncateFile u v flags).kernel.refs w =
          u.kernel.refs w := by
    intro u
    unfold truncateFile
    split
    · refine ⟨⟨rfl, rfl, rfl, rfl, rfl, rfl⟩, rfl, ?_⟩
      intro w
      rw [refs_setVnode]
      split
      next hw => rw [hw]; rfl
      next => rfl
    · exact ⟨SameTables.refl u, rfl, fun _ => rfl⟩
  rcases hTables
      { t with files := file :: t.files, kernel := kernel } with
    ⟨hSame, hFreed, hRefs⟩
  have hAll : ∀ w,
      (truncateFile
          { t with files := file :: t.files, kernel := kernel } v
          flags).kernel.refs w =
        s.kernel.refs w + ((if v = w then 1 else 0 : Nat)) := by
    intro w
    rw [hRefs]
    simp only [hKernel, hLooked.refs, Option.some.injEq]
    split
    · rfl
    · rfl
  refine hInv.grow hAll ?_ ?_ ?_ ?_ ?_
  · intro w
    simp only [holders, hSame.files, hSame.mounts,
      hSame.rootVnode]
    simp only [hLooked.files, hLooked.mounts, hLooked.rootVnode,
      List.countP_cons, hVnode, hOne, Int.one_pos, true_and,
      decide_eq_true_eq]
    omega
  · intro d hd w hw
    rw [hSame.dentries] at hd
    have hUsed := hLooked.cached hInv d hd w hw
    rw [hRefs]
    simp only [hKernel]
    exact hUsed
  · rw [hSame.files]
    intro f hf
    rcases List.mem_cons.mp hf with rfl | hf
    · omega
    · rw [hLooked.files] at hf
      exact hInv.opened f hf
  · rw [hSame.filesystems]
    exact hLooked.filesystems
  · intro entry hEntry
    rw [hFreed] at hEntry
    exact hLooked.freed entry hEntry

theorem openVnode_iff
    (hOps : RefsKept ops)
    (hInv : LifetimeInvariant s)
    (hLooked : Looked s t (some v))
    (flags : U32) :
    (FreedOk (openVnode ops t v flags).2.2 ↔
        (OpenFails ops t v →
          1 ≤ s.kernel.refs v ∨ NoDentry t v)) ∧
      (FreedOk (openVnode ops t v flags).2.2 →
        LifetimeInvariant (openVnode ops t v flags).2.2) := by
  unfold openVnode OpenFails
  cases hCall : kmalloc t.kernel.heap sizeofFile with
  | mk f heap =>
      cases f with
      | none =>
          have hPut := putFound_iff hInv hLooked
            { t.kernel with heap := heap } fun _ => rfl
          simpa using hPut
      | some f =>
          simp only [reduceCtorEq, false_or]
          cases hOpen : (ops v).openFile with
          | none =>
              have hKept := keepFound hInv hLooked
                { t.kernel with heap := heap } (fun _ => rfl)
                ⟨f, v, 0#64, flags, 1⟩ rfl rfl flags
              simp only
              refine ⟨⟨?_, fun _ => hKept.freed⟩, fun _ => hKept⟩
              rintro _ ⟨openFile, f', hSome, _⟩
              cases hSome
          | some openFile =>
              have hSame := hOps.openFile v openFile hOpen f
                { t.kernel with heap := heap }
              by_cases hRet :
                  (openFile v f { t.kernel with heap := heap }).1 = 0
              · have hKept := keepFound hInv hLooked _ hSame
                  ⟨f, v, 0#64, flags, 1⟩ rfl rfl flags
                simp only [hRet, ne_eq, not_true_eq_false, if_false]
                refine ⟨⟨?_, fun _ => hKept.freed⟩, fun _ => hKept⟩
                rintro _ ⟨openFile', f', hSome, hPtr, hFails⟩
                cases hSome
                cases hPtr
                exact absurd hRet hFails
              · have hPut := putFound_iff hInv hLooked _ hSame
                simp only [hRet, ne_eq, not_false_eq_true, if_true]
                refine ⟨hPut.1.trans ?_, hPut.2⟩
                constructor
                · exact fun hOk _ => hOk
                · intro hOk
                  exact hOk ⟨openFile, f, rfl, rfl, hRet⟩

/- A lookup without an answer changes no count. -/
theorem Looked.missed
    (hInv : LifetimeInvariant s)
    (hLooked : Looked s t none) :
    LifetimeInvariant t := by
  have hRefs : ∀ w,
      t.kernel.refs w = s.kernel.refs w + (0 : Nat) := by
    intro w
    rw [hLooked.refs]
    simp
  refine hInv.grow hRefs ?_ ?_ ?_ hLooked.filesystems hLooked.freed
  · intro w
    simp only [holders, hLooked.files, hLooked.mounts,
      hLooked.rootVnode]
    omega
  · intro d hd w hw
    rw [hRefs]
    rcases hLooked.dentries d hd w hw with hFound | ⟨d₀, hMem, hv⟩
    · cases hFound
    · have hOld := hInv.cached d₀ hMem w hv
      omega
  · rw [hLooked.files]
    exact hInv.opened

theorem vfsOpen_eq
    (s : VfsState W)
    (path : CString)
    (flags : U32) :
    vfsOpen ops s (some path) flags =
      match lookedUp ops s (some path) with
      | (ret, found, t) =>
          if ret ≠ 0 then
            (-1, none, t)
          else
            match found with
            | none => (-1, none, t)
            | some v => openVnode ops t v flags := rfl

theorem vfsOpen_iff
    (hOps : RefsKept ops)
    (hInv : LifetimeInvariant s)
    (path : Option CString)
    (flags : U32) :
    (FreedOk (vfsOpen ops s path flags).2.2 ↔
        LifetimeOk ops s (.openFile path flags)) ∧
      (FreedOk (vfsOpen ops s path flags).2.2 →
        LifetimeInvariant (vfsOpen ops s path flags).2.2) := by
  cases path with
  | none =>
      refine ⟨⟨?_, fun _ => hInv.freed⟩, fun _ => hInv⟩
      intro _ v hFound
      simp [lookedUp, pathLookup] at hFound
  | some path =>
      have hCounted :
          LifetimeInvariant
            { s with operations := s.operations + 1#64 } :=
        ⟨hInv.held, hInv.cached, hInv.opened, hInv.filesystems,
          hInv.freed⟩
      have hLooked := pathLookup_looked hOps hCounted (some path)
      have hRet : ∀ v,
          (lookedUp ops s (some path)).2.1 = some v →
          (lookedUp ops s (some path)).1 = 0 :=
        fun _ => pathLookup_ret
      change Looked _ (lookedUp ops s (some path)).2.2
        (lookedUp ops s (some path)).2.1 at hLooked
      rw [vfsOpen_eq]
      simp only [LifetimeOk]
      revert hLooked hRet
      generalize lookedUp ops s (some path) = answer
      rcases answer with ⟨ret, found, t⟩
      intro hRet hLooked
      cases found with
      | none =>
          have hKept := hLooked.missed hCounted
          simp only
          split
          · exact ⟨⟨by simp, fun _ => hKept.freed⟩, fun _ => hKept⟩
          · exact ⟨⟨by simp, fun _ => hKept.freed⟩, fun _ => hKept⟩
      | some v =>
          have hZero : ret = 0 := hRet v rfl
          have hOpen := openVnode_iff hOps hCounted hLooked flags
          simp only [hZero, ne_eq, not_true_eq_false, if_false,
            Option.some.injEq, forall_eq']
          exact hOpen

end Opening

--------------------
-- Closing
--------------------

/- The element that is found is the one that is erased. -/
theorem countP_find_eraseP
    {α : Type}
    {p : α → Bool}
    (q : α → Bool)
    {xs : List α}
    {x : α}
    (hFind : xs.find? p = some x) :
    xs.countP q = (x :: xs.eraseP p).countP q := by
  induction xs with
  | nil => cases hFind
  | cons y ys ih =>
      cases hHead : p y with
      | true =>
          rw [List.find?_cons_of_pos hHead] at hFind
          injection hFind with hFind
          rw [List.eraseP_cons_of_pos hHead, hFind]
      | false =>
          rw [List.find?_cons_of_neg (by simp [hHead])] at hFind
          rw [List.eraseP_cons_of_neg (by simp [hHead])]
          have hTail := ih hFind
          simp only [List.countP_cons] at hTail ⊢
          omega

section Closing

variable {s : VfsState W}
variable {file : VfsFile}
variable {rest : List VfsFile}

theorem holders_close
    (hCount : ∀ q : VfsFile → Bool,
      s.files.countP q = (file :: rest).countP q)
    (hOpen : 0 < file.refcount)
    (w : Addr) :
    holders { s with files := rest } w +
        (if file.vnode = w then 1 else 0) =
      holders s w := by
  simp only [holders, hCount, List.countP_cons, hOpen, true_and,
    decide_eq_true_eq]
  omega

/- The last closing drops the reference of the file. -/
theorem putClosed_iff
    (hInv : LifetimeInvariant s)
    (hCount : ∀ q : VfsFile → Bool,
      s.files.countP q = (file :: rest).countP q)
    (hRest : ∀ f ∈ rest, f ∈ s.files)
    (hOpen : 0 < file.refcount)
    (hLast : file.refcount ≤ 1)
    (kernel : VfsKernel W)
    (hKernel : ∀ w, kernel.refs w = s.kernel.refs w)
    {closed : VfsState W}
    (hClosed : closed =
      { s with
        files :=
          { file with refcount := file.refcount - 1 } :: rest
        kernel := kernel }) :
    (FreedOk (vnodePut closed file.vnode) ↔
        2 ≤ s.kernel.refs file.vnode ∨ NoDentry s file.vnode) ∧
      (FreedOk (vnodePut closed file.vnode) →
        LifetimeInvariant
          { vnodePut closed file.vnode with files := rest }) := by
  have hSame : ∀ w, closed.kernel.refs w = s.kernel.refs w := by
    intro w
    rw [hClosed]
    exact hKernel w
  have hDentries : closed.dentries = s.dentries := by rw [hClosed]
  have hFreed : closed.freed = s.freed := by rw [hClosed]
  have hNotOpen : ¬ 0 < file.refcount - 1 := by omega
  have hHolders : ∀ w,
      holders closed w = holders { s with files := rest } w := by
    intro w
    rw [hClosed]
    simp only [holders, List.countP_cons, hNotOpen, false_and,
      decide_false, Bool.false_eq_true, if_false, Nat.add_zero]
  have hCloses := holders_close hCount hOpen
  have hIff :
      FreedOk (vnodePut closed file.vnode) ↔
        2 ≤ s.kernel.refs file.vnode ∨ NoDentry s file.vnode := by
    have hOld : FreedOk closed := by
      intro entry hEntry
      rw [hFreed] at hEntry
      exact hInv.freed entry hEntry
    have hHeld := hInv.held file.vnode
    have hThis := hCloses file.vnode
    rw [if_pos rfl] at hThis
    have hPoints :
        s.kernel.refs file.vnode ≤ 1 →
          (closed.pointsTo file.vnode = false ↔
            NoDentry s file.vnode) := by
      intro hOne
      have hNone : holders closed file.vnode = 0 := by
        rw [hHolders]
        omega
      rw [pointsTo_eq_false_iff hNone, NoDentry, NoDentry,
        hDentries]
    rw [vnodePut_freedOk_iff hOld, hSame]
    constructor
    · intro hPut
      by_cases hMore : 2 ≤ s.kernel.refs file.vnode
      · exact .inl hMore
      · exact .inr ((hPoints (by omega)).mp (hPut (by omega)))
    · intro hOk hOne
      rcases hOk with hMore | hNoDentry
      · omega
      · exact (hPoints hOne).mpr hNoDentry
  refine ⟨hIff, fun hPut => ?_⟩
  have hTables := vnodePut_tables closed file.vnode
  have hMounts : closed.mounts = s.mounts := by rw [hClosed]
  have hRoot : closed.rootVnode = s.rootVnode := by rw [hClosed]
  have hFilesystems : closed.filesystems = s.filesystems := by
    rw [hClosed]
  refine
    { held := ?_
      cached := ?_
      opened := ?_
      filesystems := ?_
      freed := hPut }
  · intro w
    have hHeld := hInv.held w
    have hThis := hCloses w
    change _ ≤ (vnodePut closed file.vnode).kernel.refs w
    rw [refs_vnodePut, hSame]
    simp only [holders, hTables.mounts, hTables.rootVnode, hMounts,
      hRoot] at hThis hHeld ⊢
    simp only [eq_comm (a := w)]
    by_cases hw : file.vnode = w
    · rw [if_pos hw] at hThis ⊢
      omega
    · rw [if_neg hw] at hThis ⊢
      omega
  · intro d hd w hw
    change d ∈ (vnodePut closed file.vnode).dentries at hd
    rw [hTables.dentries, hDentries] at hd
    change 1 ≤ (vnodePut closed file.vnode).kernel.refs w
    rw [refs_vnodePut, hSame]
    have hOld := hInv.cached d hd w hw
    split
    next hThis =>
      rcases hIff.mp hPut with hMore | hNoDentry
      · rw [hThis]
        omega
      · rw [hThis] at hw
        exact absurd hw (hNoDentry d hd)
    next => omega
  · intro f hf
    exact hInv.opened f (hRest f hf)
  · intro fs hfs
    change fs ∈ (vnodePut closed file.vnode).filesystems at hfs
    rw [hTables.filesystems, hFilesystems] at hfs
    exact hInv.filesystems fs hfs

/- A file with more openings only loses one. -/
theorem dropOpening
    (hInv : LifetimeInvariant s)
    (hCount : ∀ q : VfsFile → Bool,
      s.files.countP q = (file :: rest).countP q)
    (hRest : ∀ f ∈ rest, f ∈ s.files)
    (hMore : 0 < file.refcount - 1) :
    LifetimeInvariant
      { s with
        files :=
          { file with refcount := file.refcount - 1 } ::
            rest } where
  held := by
    intro w
    have hHeld := hInv.held w
    have hOpen : 0 < file.refcount := by omega
    simp only [holders, hCount, List.countP_cons, hOpen, hMore]
      at hHeld ⊢
    exact hHeld
  cached := hInv.cached
  opened := by
    intro f hf
    rcases List.mem_cons.mp hf with rfl | hf
    · exact hMore
    · exact hInv.opened f (hRest f hf)
  filesystems := hInv.filesystems
  freed := hInv.freed

theorem vfsClose_iff
    (hOps : RefsKept ops)
    (hInv : LifetimeInvariant s)
    {f : Option Addr} :
    (FreedOk (vfsClose ops s f).2 ↔
        LifetimeOk ops s (.closeFile f)) ∧
      (FreedOk (vfsClose ops s f).2 →
        LifetimeInvariant (vfsClose ops s f).2) := by
  have hSame :
      (FreedOk s ↔ True) ∧ (FreedOk s → LifetimeInvariant s) :=
    ⟨⟨fun _ => trivial, fun _ => hInv.freed⟩, fun _ => hInv⟩
  cases f with
  | none => exact hSame
  | some f =>
      simp only [vfsClose, LifetimeOk]
      cases hFind : s.files.find? (fun x => x.ptr = f) with
      | none => simpa using hSame
      | some file =>
          have hCount := fun q : VfsFile → Bool =>
            countP_find_eraseP q hFind
          have hRest : ∀ x ∈ s.files.eraseP (fun x => x.ptr = f),
              x ∈ s.files := fun x hx => List.mem_of_mem_eraseP hx
          have hOpen := hInv.opened file
            (List.mem_of_find?_eq_some hFind)
          simp only [Option.some.injEq, forall_eq']
          split
          next hMore =>
            have hKept := dropOpening hInv hCount hRest hMore
            refine ⟨⟨?_, fun _ => hKept.freed⟩, fun _ => hKept⟩
            intro _ hLast
            omega
          next hLast =>
            have hOnce : file.refcount ≤ 1 := by omega
            simp only [hOnce, true_imp_iff]
            split
            · exact putClosed_iff hInv hCount hRest hOpen hOnce
                s.kernel (fun _ => rfl) rfl
            next closeFile hClose =>
              exact putClosed_iff hInv hCount hRest hOpen hOnce _
                (hOps.closeFile file.vnode closeFile hClose f
                  s.kernel) rfl

end Closing

--------------------
-- Mounting
--------------------

section Mounting

variable {s : VfsState W}
variable {kernel : VfsKernel W}

theorem LifetimeInvariant.sameRefs
    (hInv : LifetimeInvariant s)
    (hRefs : ∀ w, kernel.refs w = s.kernel.refs w) :
    LifetimeInvariant { s with kernel := kernel } where
  held := by
    intro w
    rw [hRefs]
    exact hInv.held w
  cached := by
    intro d hd v hv
    rw [hRefs]
    exact hInv.cached d hd v hv
  opened := hInv.opened
  filesystems := hInv.filesystems
  freed := hInv.freed

theorem unmountFs_keeps
    {fs : Filesystem W}
    (hFs : FilesystemRefs fs)
    (hInv : LifetimeInvariant s)
    (sb : Addr) :
    LifetimeInvariant (unmountFs s fs sb) := by
  unfold unmountFs
  cases hUnmount : fs.unmount with
  | none => exact hInv
  | some unmount =>
      exact hInv.sameRefs (hFs.unmount unmount hUnmount sb s.kernel)

/- The mount takes over the reference of the filesystem. -/
theorem addMount_keeps
    (hInv : LifetimeInvariant s)
    {sb : Superblock W}
    (hFs : FilesystemRefs sb.fs)
    (hRefs : ∀ w,
      kernel.refs w =
        s.kernel.refs w + if some sb.sRoot = some w then 1 else 0)
    (target : CString) :
    LifetimeInvariant
      (addMount { s with kernel := kernel } target sb).2 := by
  have hSet : ∀ w,
      (VfsState.setVnode { s with kernel := kernel } sb.sRoot
        fun vnode => { vnode with sb := some sb.ptr }).kernel.refs
          w =
        s.kernel.refs w +
          ((if sb.sRoot = w then 1 else 0 : Nat)) := by
    intro w
    have hKernel := hRefs w
    simp only [Option.some.injEq] at hKernel
    rw [refs_setVnode]
    split
    next hw =>
      rw [hw, if_pos rfl] at hKernel ⊢
      exact hKernel
    next hw =>
      rw [if_neg fun h => hw h.symm] at hKernel ⊢
      exact hKernel
  unfold addMount
  generalize hState :
    (VfsState.setVnode { s with kernel := kernel } sb.sRoot
      fun vnode => { vnode with sb := some sb.ptr }) = t at hSet
  have hSame : t = { s with kernel := t.kernel } := by
    rw [← hState]
    rfl
  cases hCall : kmalloc t.kernel.heap sizeofMount with
  | mk sMount heap =>
      cases sMount with
      | none =>
          simp only [hCall]
          apply unmountFs_keeps hFs
          rw [hSame]
          apply hInv.sameRefs
          intro w
          change (VfsState.addRef
            { t with kernel := { t.kernel with heap := heap } }
            sb.sRoot (-1)).kernel.refs w = _
          rw [refs_addRef]
          change t.kernel.refs w + _ = _
          rw [hSet]
          simp only [eq_comm (a := w)]
          split
          · omega
          · simp
      | some _ =>
          simp only [hCall]
          refine hInv.grow hSet ?_ ?_ ?_ ?_ ?_
          · intro w
            rw [hSame]
            simp only [holders, List.countP_cons, decide_eq_true_eq]
            omega
          · intro d hd w hw
            rw [hSame] at hd
            have hOld := hInv.cached d hd w hw
            change 1 ≤ t.kernel.refs w
            rw [hSet]
            omega
          · rw [hSame]
            exact hInv.opened
          · rw [hSame]
          · rw [hSame]
            exact hInv.freed

theorem vfsMount_keeps
    (hInv : LifetimeInvariant s)
    (source target fsType : Option CString)
    (data : Option Addr) :
    LifetimeInvariant
      (vfsMount s source target fsType data).2 := by
  have hHeap : ∀ heap,
      LifetimeInvariant
        { s with kernel := { s.kernel with heap := heap } } :=
    fun _ => hInv.sameRefs fun _ => rfl
  unfold vfsMount
  split
  next target fsType =>
    split
    · exact hInv
    · split
      · exact hInv
      next fs hFind =>
        have hFs := hInv.filesystems fs
          (List.mem_of_find?_eq_some hFind)
        split
        next heap _ => exact hHeap heap
        next sb heap _ =>
          have hMount := hFs.mount sb source data
            { s.kernel with heap := heap }
          unfold mountFs
          revert hMount
          generalize fs.mount sb source data
            { s.kernel with heap := heap } = answer
          rcases answer with ⟨ret, sRoot, kernel⟩
          intro hMount
          simp only at hMount ⊢
          by_cases hRet : ret = 0
          · simp only [hRet, ne_eq, not_true_eq_false, if_false,
              true_and] at hMount ⊢
            cases sRoot with
            | some sRoot =>
                exact addMount_keeps (hHeap heap) hFs hMount target
            | none =>
                have hRoot := hFs.root sb kernel
                revert hRoot
                generalize fs.root sb kernel = found
                rcases found with ⟨sRoot, kernel'⟩
                intro hRoot
                simp only [reduceCtorEq, if_false, Int.add_zero]
                  at hMount
                have hKept := (hHeap heap).sameRefs hMount
                cases sRoot with
                | some sRoot =>
                    exact addMount_keeps hKept hFs hRoot target
                | none =>
                    apply unmountFs_keeps hFs
                    refine hKept.sameRefs fun w => ?_
                    simpa using hRoot w
          · simp only [hRet, ne_eq, not_false_eq_true, if_true,
              false_and, if_false, Int.add_zero] at hMount ⊢
            exact (hHeap heap).sameRefs hMount
  · exact hInv

end Mounting

--------------------
-- Runs
--------------------

theorem vfsInit_lifetime
    (hFilesystems : ∀ fs ∈ s.filesystems, FilesystemRefs fs)
    (hStart : LifetimeStarted s) :
    LifetimeInvariant s := by
  rcases hStart with ⟨s₀, hFiles, hMounts, hFreed, hRefs, hInit⟩
  simp only [vfsInit] at hInit
  split at hInit
  · simp at hInit
  next root heap hRoot =>
    split at hInit
    · simp at hInit
    next hDentry =>
      simp only [Prod.mk.injEq, true_and] at hInit
      subst hInit
      have hNew : ∀ w,
          (if w = root then (⟨0#32, none, 1⟩ : Vnode)
            else s₀.kernel.vnodes w).refcount =
            if w = root then 1 else s₀.kernel.refs w := by
        intro w
        split
        · rfl
        · rfl
      refine
        { held := ?_
          cached := ?_
          opened := ?_
          filesystems := hFilesystems
          freed := ?_ }
      · intro w
        have hOld := hRefs w
        unfold VfsKernel.refs at hOld
        simp only [holders, hFiles, hMounts, VfsKernel.refs,
          Function.update_apply, hNew, List.countP_nil,
          Option.some.injEq, eq_comm (a := root)]
        split
        · simp
        · simpa using hOld
      · intro d hd v hv
        rw [List.mem_singleton.mp hd] at hv
        injection hv with hv
        simp [VfsKernel.refs, hv]
      · intro f hf
        rw [hFiles] at hf
        cases hf
      · intro entry hEntry
        rw [hFreed] at hEntry
        cases hEntry

theorem lifetimeStep_iff
    (hOps : RefsKept ops)
    {s t : VfsState W}
    {call : LifetimeCall}
    (hInv : LifetimeInvariant s)
    (hStep : lifetimeStep ops s call t) :
    (FreedOk t ↔ LifetimeOk ops s call) ∧
      (FreedOk t → LifetimeInvariant t) := by
  rcases hStep with ⟨_, rfl⟩
  cases call with
  | mount source target fsType data =>
      have hKept := vfsMount_keeps hInv source target fsType data
      exact ⟨⟨fun _ => trivial, fun _ => hKept.freed⟩,
        fun _ => hKept⟩
  | openFile path flags => exact vfsOpen_iff hOps hInv path flags
  | closeFile file => exact vfsClose_iff hOps hInv

/-
  No vnode is freed while something points to it, in every
  state of a run, exactly when no call of the run drops the
  last reference to a vnode with a dentry.
-/
theorem vfsRun_freed_iff
    (hOps : RefsKept ops)
    {s t : VfsState W}
    {calls : List LifetimeCall}
    (hFilesystems : ∀ fs ∈ s.filesystems, FilesystemRefs fs)
    (hStart : LifetimeStarted s) :
    Run (fun s call t => lifetimeStep ops s call t ∧ FreedOk t)
        s calls t ↔
      Run (Guarded (LifetimeOk ops) (lifetimeStep ops)) s calls
        t := by
  apply Run.guarded_iff LifetimeInvariant
  · intro s call t hInv hOk hStep
    have hIff := lifetimeStep_iff hOps hInv hStep
    exact hIff.2 (hIff.1.mpr hOk)
  · intro s call t hInv hStep
    exact (lifetimeStep_iff hOps hInv hStep).1
  · exact vfsInit_lifetime hFilesystems hStart

end Vfs

--------------------
-- A Session With References
--------------------

instance
    {W : Type}
    (s : VfsState W) :
    Decidable (FreedOk s) :=
  List.decidableBAll _ s.freed

def VfsKernel.take
    (kernel : VfsKernel Unit)
    (v : Addr) :
    VfsKernel Unit :=
  (vnodeGet { bootedVfs with kernel := kernel } v).kernel

theorem refs_take
    (kernel : VfsKernel Unit)
    (v w : Addr) :
    (kernel.take v).refs w =
      kernel.refs w + if some v = some w then 1 else 0 := by
  rw [VfsKernel.take, vnodeGet, refs_addRef]
  simp only [Option.some.injEq, eq_comm (a := v)]

/- Every name below the root is that of one file. -/
def countedOps (_ : Addr) : VnodeOps Unit where
  lookup := some fun _ _ kernel =>
    (0, some 0x6000#64, kernel.take 0x6000#64)
  openFile := none
  closeFile := none

theorem countedName_noNul :
    0#8 ∉ [0x74#8] := by
  decide

def countedFs : Filesystem Unit where
  name := ⟨[0x74#8], countedName_noNul⟩
  mount := fun _ _ _ kernel =>
    (0, some 0x5000#64, kernel.take 0x5000#64)
  unmount := none
  root := fun _ kernel => (none, kernel)

theorem countedOps_kept : RefsKept countedOps where
  lookup := by
    rintro v lookup hLookup name kernel w
    injection hLookup with hLookup
    subst hLookup
    simp only [true_and]
    exact refs_take kernel 0x6000#64 w
  openFile := by
    intro v openFile hOpen
    cases hOpen
  closeFile := by
    intro v closeFile hClose
    cases hClose

theorem countedFs_refs : FilesystemRefs countedFs where
  mount := by
    intro sb source data kernel w
    simp only [countedFs, true_and]
    exact refs_take kernel 0x5000#64 w
  root := by
    intro sb kernel w
    simp [countedFs]
  unmount := by
    intro unmount hUnmount
    cases hUnmount

def countedVfs : VfsState Unit :=
  (vfsInit { bootedVfs with filesystems := [countedFs] }).2

theorem countedVfs_filesystems :
    ∀ fs ∈ countedVfs.filesystems, FilesystemRefs fs := by
  intro fs hfs
  have hSame : countedVfs.filesystems = [countedFs] := rfl
  rw [hSame, List.mem_singleton] at hfs
  rw [hfs]
  exact countedFs_refs

theorem countedVfs_started : LifetimeStarted countedVfs := by
  refine ⟨{ bootedVfs with filesystems := [countedFs] }, rfl, rfl,
    rfl, ?_, Prod.ext (by decide +kernel) rfl⟩
  intro v
  exact Int.le_refl 0

theorem mountedPath_noNul :
    0#8 ∉ [0x2F#8, 0x61#8] := by
  decide

theorem openedPath_noNul :
    0#8 ∉ [0x2F#8, 0x61#8, 0x2F#8, 0x78#8] := by
  decide

/- The filesystem is mounted at "/a" and "/a/x" is opened. -/
def openCalls : List LifetimeCall :=
  [.mount none (some ⟨[0x2F#8, 0x61#8], mountedPath_noNul⟩)
      (some ⟨[0x74#8], countedName_noNul⟩) none,
    .openFile
      (some ⟨[0x2F#8, 0x61#8, 0x2F#8, 0x78#8],
        openedPath_noNul⟩) 0#32]

def openedVfs : VfsState Unit :=
  openCalls.foldl (lifetimeNext countedOps) countedVfs

theorem vfsRun_freed_iff_open :
    Run (Guarded (LifetimeOk countedOps)
        (lifetimeStep countedOps))
      countedVfs openCalls openedVfs :=
  (vfsRun_freed_iff countedOps_kept countedVfs_filesystems
    countedVfs_started).mp
    (.cons ⟨⟨trivial, rfl⟩, by decide +kernel⟩
      (.cons ⟨⟨trivial, rfl⟩, by decide +kernel⟩ (.nil _)))

/-
  Closing the file drops the only reference to its vnode,
  which stays in the cache under "x".
-/
theorem vfsClose_frees_cached :
    ¬ ∀ (ops : Addr → VnodeOps Unit) (s t : VfsState Unit)
        (calls : List LifetimeCall),
      RefsKept ops →
        (∀ fs ∈ s.filesystems, FilesystemRefs fs) →
          LifetimeStarted s →
            Run (lifetimeStep ops) s calls t → FreedOk t := by
  intro hAll
  have hOpen : openedVfs.files.map VfsFile.ptr = [0x2004C0#64] := by
    decide +kernel
  have hRun :
      Run (lifetimeStep countedOps) countedVfs
        (openCalls ++ [.closeFile (some 0x2004C0#64)])
        (vfsClose countedOps openedVfs (some 0x2004C0#64)).2 := by
    refine .cons ⟨trivial, rfl⟩ (.cons ⟨trivial, rfl⟩
      (.cons ⟨?_, rfl⟩ (.nil _)))
    have hMem : 0x2004C0#64 ∈ openedVfs.files.map VfsFile.ptr := by
      rw [hOpen]
      exact List.mem_singleton_self _
    exact List.mem_map.mp hMem
  have hOk := hAll countedOps countedVfs _ _ countedOps_kept
    countedVfs_filesystems countedVfs_started hRun
  revert hOk
  decide +kernel

end FeatherOS
