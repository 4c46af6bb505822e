import FeatherOS.Library.Run
import FeatherOS.Vfs.Model

/-
  What the dentry cache answers, and what a walk would.

  A path is looked up in the cache whole, but entered under
  what is left of it behind the mount, cut to 255
  characters. So an entry may answer for a path whose walk
  begins elsewhere or takes other steps.

  Key definitions include:
    * `VfsWalk`
    * `resolveWalk`
    * `Transparent`
    * `SameWalk`

  Key theorems include:
    * `lookupUncached_resolves`
    * `vfsRun_transparent`
-/

namespace FeatherOS

--------------------
-- Walks
--------------------

/- Where a walk begins, and the names it looks up. -/
structure VfsWalk where
  start : Option Addr
  names : List (List U8)
deriving DecidableEq

section Vfs

variable {W : Type}
variable (ops : Addr → VnodeOps W)
variable (answers : Addr → List U8 → Int × Option Addr)

/- The answer of a lookup is a function of vnode and name. -/
def LookupFunction : Prop :=
  ∀ v lookup, (ops v).lookup = some lookup →
    ∀ name kernel,
      ((lookup v name kernel).1, (lookup v name kernel).2.1) =
        answers v name

/- The status and the vnode that names lead to. -/
def resolveNames :
    List (List U8) → Addr → Int × Option Addr
  | [], v => (0, some v)
  | name :: rest, v =>
      match (ops v).lookup with
      | none => (-1, none)
      | some _ =>
          match answers v name with
          | (ret, next) =>
              if ret ≠ 0 then
                (ret, none)
              else
                match next with
                | none => (-1, none)
                | some next => resolveNames rest next

def resolveWalk (walk : VfsWalk) : Int × Option Addr :=
  match walk.start with
  | none => (-1, none)
  | some v => resolveNames ops answers walk.names v

/- The walk that a path takes now. -/
def walkOf
    (s : VfsState W)
    (path : List U8) :
    VfsWalk where
  start := (walkStart s path).1
  names :=
    (pathComponents [] (walkStart s path).2).filter fun name =>
      !isDots name

--------------------
-- The Property
--------------------

/- The status and the vnode are those of an empty cache. -/
def Transparent
    (s : VfsState W)
    (path : Option CString) : Prop :=
  (pathLookup ops s path).1 =
      (pathLookup ops { s with dentries := [], dentryCount := 0 }
        path).1 ∧
    (pathLookup ops s path).2.1 =
      (pathLookup ops { s with dentries := [], dentryCount := 0 }
        path).2.1

/- A session remembers which walk made each dentry. -/
structure VfsSession (W : Type) extends VfsState W where
  walks : List VfsWalk

inductive VfsCall where
  | mount
      (source target fsType : Option CString)
      (data : Option Addr)
  | unmount (target : Option CString)
  | lookup (path : Option CString)

def vfsNext
    (s : VfsSession W) :
    VfsCall → VfsSession W
  | .mount source target fsType data =>
      { s with
        toVfsState :=
          (vfsMount s.toVfsState source target fsType data).2 }
  | .unmount target =>
      { s with toVfsState := (vfsUnmount s.toVfsState target).2 }
  | .lookup none => s
  | .lookup (some path) =>
      let s' := (pathLookup ops s.toVfsState (some path)).2.2
      { toVfsState := s'
        walks :=
          if s'.dentries.length = s.dentries.length then
            s.walks
          else
            walkOf s.toVfsState path.bytes :: s.walks }

def vfsStep
    (s : VfsSession W)
    (call : VfsCall)
    (s' : VfsSession W) : Prop :=
  s' = vfsNext ops s call

/- After a `vfs_init` that succeeds. -/
def VfsStarted (s : VfsSession W) : Prop :=
  (∃ s₀ : VfsState W, vfsInit s₀ = (0, s.toVfsState)) ∧
    s.walks = [⟨s.rootVnode, []⟩]

/- The walk that made the entry the cache answers with. -/
def hitWalk
    (s : VfsSession W)
    (path : List U8) :
    Option VfsWalk :=
  ((s.dentries.zip s.walks).find? fun entry =>
    entry.1.isHit path).map Prod.snd

/-
  The entry that answers for a path, if there is one, was made
  by a walk from the same vnode along the same names.
-/
def SameWalk
    (s : VfsSession W) :
    Option CString → Prop
  | none => True
  | some path =>
      ∀ walk, hitWalk s path.bytes = some walk →
        walk = walkOf s.toVfsState path.bytes

--------------------
-- Uncached Lookups
--------------------

variable {ops answers}

/- The state up to the vnodes, the heap and the world. -/
structure SameTables (s s' : VfsState W) : Prop where
  filesystems : s'.filesystems = s.filesystems
  mounts : s'.mounts = s.mounts
  dentries : s'.dentries = s.dentries
  dentryCount : s'.dentryCount = s.dentryCount
  rootVnode : s'.rootVnode = s.rootVnode
  files : s'.files = s.files

theorem SameTables.refl
    (s : VfsState W) :
    SameTables s s :=
  ⟨rfl, rfl, rfl, rfl, rfl, rfl⟩

theorem SameTables.trans
    {s s' s'' : VfsState W}
    (hFirst : SameTables s s')
    (hSecond : SameTables s' s'') :
    SameTables s s'' where
  filesystems := by rw [hSecond.filesystems, hFirst.filesystems]
  mounts := by rw [hSecond.mounts, hFirst.mounts]
  dentries := by rw [hSecond.dentries, hFirst.dentries]
  dentryCount := by rw [hSecond.dentryCount, hFirst.dentryCount]
  rootVnode := by rw [hSecond.rootVnode, hFirst.rootVnode]
  files := by rw [hSecond.files, hFirst.files]

theorem vnodePut_tables
    (s : VfsState W)
    (v : Addr) :
    SameTables s (vnodePut s v) := by
  simp only [vnodePut]
  split
  · exact ⟨rfl, rfl, rfl, rfl, rfl, rfl⟩
  · exact ⟨rfl, rfl, rfl, rfl, rfl, rfl⟩

theorem walkPath_tables
    (names : List (List U8))
    (v : Addr)
    (s : VfsState W) :
    SameTables s (walkPath ops names v s).2.2 := by
  induction names generalizing v s with
  | nil => exact SameTables.refl s
  | cons name rest ih =>
      simp only [walkPath]
      split
      · exact ih v s
      · split
        · exact vnodePut_tables s v
        next lookup _ =>
          have hPut :=
            vnodePut_tables
              { s with kernel := (lookup v name s.kernel).2.2 } v
          have hStep : SameTables s
              (vnodePut
                { s with kernel := (lookup v name s.kernel).2.2 }
                v) :=
            ⟨hPut.filesystems, hPut.mounts, hPut.dentries,
              hPut.dentryCount, hPut.rootVnode, hPut.files⟩
          split
          · exact hStep
          · split
            · exact hStep
            · exact hStep.trans (ih _ _)

/- A walk answers what its names lead to. -/
theorem walkPath_resolves
    (hLookup : LookupFunction ops answers)
    (names : List (List U8))
    (v : Addr)
    (s : VfsState W) :
    ((walkPath ops names v s).1, (walkPath ops names v s).2.1) =
      resolveNames ops answers
        (names.filter fun name => !isDots name) v := by
  induction names generalizing v s with
  | nil => rfl
  | cons name rest ih =>
      by_cases hDots : isDots name
      · simp only [walkPath, hDots, if_true, List.filter_cons,
          Bool.not_true, Bool.false_eq_true, if_false]
        exact ih v s
      · simp only [walkPath, hDots, if_false, List.filter_cons,
          Bool.not_false, if_true, resolveNames,
          Bool.false_eq_true]
        cases hOps : (ops v).lookup with
        | none => rfl
        | some lookup =>
            have hAnswer := hLookup v lookup hOps name s.kernel
            simp only [← hAnswer]
            by_cases hRet : (lookup v name s.kernel).1 = 0
            · simp only [hRet, ne_eq, not_true_eq_false, if_false]
              cases hNext : (lookup v name s.kernel).2.1 with
              | none => rfl
              | some next => exact ih _ _
            · simp only [hRet, ne_eq, not_false_eq_true, if_true]

variable {s : VfsState W}

/- A walk that finds a vnode returns 0. -/
theorem walkPath_ret
    {names : List (List U8)}
    {v v' : Addr}
    (hFound : (walkPath ops names v s).2.1 = some v') :
    (walkPath ops names v s).1 = 0 := by
  induction names generalizing v s with
  | nil => rfl
  | cons name rest ih =>
      simp only [walkPath] at hFound ⊢
      by_cases hDots : isDots name
      · simp only [hDots, if_true] at hFound ⊢
        exact ih hFound
      · simp only [hDots, if_false, Bool.false_eq_true]
          at hFound ⊢
        cases hOps : (ops v).lookup with
        | none => simp [hOps] at hFound
        | some lookup =>
            simp only [hOps] at hFound ⊢
            by_cases hRet : (lookup v name s.kernel).1 = 0
            · simp only [hRet, ne_eq, not_true_eq_false, if_false]
                at hFound ⊢
              cases hNext : (lookup v name s.kernel).2.1 with
              | none => simp [hNext] at hFound
              | some next =>
                  simp only [hNext] at hFound ⊢
                  exact ih hFound
            · simp [hRet] at hFound

/- What is left of a path has no NUL either. -/
theorem walkStart_no_nul
    (s : VfsState W)
    (path : CString) :
    0#8 ∉ (walkStart s path.bytes).2 := by
  unfold walkStart
  split
  · intro hNul
    have hDrop := (List.dropWhile_suffix _).subset hNul
    exact path.no_nul (List.mem_of_mem_drop hDrop)
  · exact path.no_nul

/- The root paths have no components. -/
theorem pathComponents_root
    {rest : List U8}
    (hNul : 0#8 ∉ rest)
    (hRoot : strcmp rest [slash] = 0 ∨ strcmp rest [] = 0) :
    pathComponents [] rest = [] := by
  rcases hRoot with hSlash | hEmpty
  · rw [(strcmp_eq_zero hNul (by decide)).mp hSlash]
    rfl
  · rw [(strcmp_eq_zero hNul (by decide)).mp hEmpty]
    rfl

/- Without the cache the answer is that of the walk. -/
theorem lookupUncached_resolves
    (hLookup : LookupFunction ops answers)
    (s : VfsState W)
    (path : CString) :
    ((lookupUncached ops s path.bytes).1,
        (lookupUncached ops s path.bytes).2.1) =
      resolveWalk ops answers (walkOf s path.bytes) := by
  have hNul := walkStart_no_nul s path
  unfold lookupUncached resolveWalk walkOf
  cases hStart : walkStart s path.bytes with
  | mk start rest =>
      rw [hStart] at hNul
      cases start with
      | none => rfl
      | some start =>
          simp only
          split
          next hRoot =>
            rw [pathComponents_root hNul hRoot]
            rfl
          next hRoot =>
            have hWalk :=
              walkPath_resolves hLookup (pathComponents [] rest)
                start (vnodeGet s start)
            rw [← hWalk]
            split
            next hFound => rw [hFound]
            next hFound => rw [hFound]

--------------------
-- The Cache
--------------------

/- The walk of an entry leads to the vnode of the entry. -/
structure Made
    (ops : Addr → VnodeOps W)
    (answers : Addr → List U8 → Int × Option Addr)
    (d : Dentry)
    (walk : VfsWalk) : Prop where
  used : 0 < d.refcount
  found : d.vnode ≠ none
  leads : resolveWalk ops answers walk = (0, d.vnode)

/- Each entry has the walk that made it. -/
def CacheMade
    (ops : Addr → VnodeOps W)
    (answers : Addr → List U8 → Int × Option Addr)
    (dentries : List Dentry)
    (walks : List VfsWalk) : Prop :=
  List.Forall₂ (Made ops answers) dentries walks

section Cache

variable {d : Dentry}
variable {dentries : List Dentry}
variable {walks : List VfsWalk}
variable {path : List U8}

variable (path) in
/- The entry that answers, with its walk. -/
theorem CacheMade.hit
    (hMade : CacheMade ops answers dentries walks) :
    ((dentryLookup path dentries).1 = none ∧
        (dentries.zip walks).find?
          (fun entry => entry.1.isHit path) = none) ∨
      ∃ d walk, (dentryLookup path dentries).1 = some d ∧
        Made ops answers d walk ∧
        ((dentries.zip walks).find?
          fun entry => entry.1.isHit path).map Prod.snd =
            some walk := by
  induction hMade with
  | nil => exact .inl ⟨rfl, rfl⟩
  | @cons d walk ds walks hFirst _ ih =>
      simp only [dentryLookup, List.zip_cons_cons, List.find?_cons]
      by_cases hHit : d.isHit path
      · have hUsed := hFirst.used
        simp only [hHit, if_true]
        exact .inr ⟨_, walk, rfl,
          ⟨by simp only; omega, hFirst.found, hFirst.leads⟩, rfl⟩
      · simp only [hHit, if_false, Bool.false_eq_true]
        exact ih

/- A hit gives the entry one more reference. -/
theorem CacheMade.lookup
    (hMade : CacheMade ops answers dentries walks) :
    CacheMade ops answers (dentryLookup path dentries).2
      walks := by
  induction hMade with
  | nil => exact .nil
  | cons hFirst hRest ih =>
      simp only [dentryLookup]
      split
      · have hUsed := hFirst.used
        exact .cons ⟨by simp only; omega, hFirst.found, hFirst.leads⟩
          hRest
      · exact .cons hFirst ih

/- An entry in use is never pruned. -/
theorem dentryPrune_used
    (hUsed : ∀ d ∈ dentries, 0 < d.refcount)
    (count : Int) :
    dentryPrune dentries count = (dentries, count) := by
  induction dentries with
  | nil => rfl
  | cons d ds ih =>
      have hFirst := hUsed d List.mem_cons_self
      have hRest := ih fun e he =>
        hUsed e (List.mem_cons_of_mem d he)
      simp only [dentryPrune, hRest]
      split
      · rfl
      · rw [if_neg (by omega)]

theorem length_dentryLookup
    (path : List U8)
    (dentries : List Dentry) :
    (dentryLookup path dentries).2.length = dentries.length := by
  induction dentries with
  | nil => rfl
  | cons d ds ih =>
      simp only [dentryLookup]
      split
      · rfl
      · simp only [List.length_cons, ih]

/- What entering a vnode under a name does to the cache. -/
theorem dentryAdd_dentries
    (hUsed : ∀ d ∈ s.dentries, 0 < d.refcount)
    (name : List U8)
    (v : Option Addr) :
    (dentryAdd s name v).dentries = s.dentries ∨
      (dentryAdd s name v).dentries =
        ⟨name.take maxFilename, v, 0#32, 1⟩ :: s.dentries := by
  unfold dentryAdd
  split
  · exact .inl rfl
  · split
    · exact .inl rfl
    · right
      have hAll : ∀ d ∈
          (⟨name.take maxFilename, v, 0#32, 1⟩ : Dentry) ::
            s.dentries, 0 < d.refcount := by
        intro d hd
        rcases List.mem_cons.mp hd with rfl | hd
        · exact Int.one_pos
        · exact hUsed d hd
      simp only [dentryPrune_used hAll]
      split
      · rfl
      · rfl

theorem CacheMade.used
    (hMade : CacheMade ops answers dentries walks) :
    ∀ d ∈ dentries, 0 < d.refcount := by
  induction hMade with
  | nil => simp
  | cons hFirst _ ih =>
      intro d hd
      rcases List.mem_cons.mp hd with rfl | hd
      · exact hFirst.used
      · exact ih d hd

/- An uncached lookup may enter its own walk. -/
theorem lookupUncached_dentries
    (hLookup : LookupFunction ops answers)
    (hMade : CacheMade ops answers s.dentries walks)
    (path : CString) :
    (lookupUncached ops s path.bytes).2.2.dentries = s.dentries ∨
      ∃ d, (lookupUncached ops s path.bytes).2.2.dentries =
          d :: s.dentries ∧
        Made ops answers d (walkOf s path.bytes) := by
  have hLeads := lookupUncached_resolves hLookup s path
  unfold lookupUncached at hLeads ⊢
  cases hStart : walkStart s path.bytes with
  | mk start rest =>
      cases start with
      | none => exact .inl rfl
      | some start =>
          simp only [hStart] at hLeads ⊢
          split at hLeads
          next hRoot =>
            rw [if_pos hRoot]
            exact .inl rfl
          next hRoot =>
            rw [if_neg hRoot]
            have hTables := @walkPath_tables W ops
              (pathComponents [] rest) start (vnodeGet s start)
            have hRet : ∀ v,
                (walkPath ops (pathComponents [] rest) start
                  (vnodeGet s start)).2.1 = some v →
                (walkPath ops (pathComponents [] rest) start
                  (vnodeGet s start)).1 = 0 :=
              fun _ => walkPath_ret
            revert hLeads hTables hRet
            generalize walkPath ops (pathComponents [] rest) start
              (vnodeGet s start) = answer
            rcases answer with ⟨ret, found, s'⟩
            intro hLeads hTables hRet
            have hSame : s'.dentries = s.dentries :=
              hTables.dentries
            cases found with
            | none => exact .inl hSame
            | some v =>
                have hUsed : ∀ d ∈ s'.dentries, 0 < d.refcount := by
                  rw [hSame]
                  exact hMade.used
                rcases dentryAdd_dentries hUsed rest (some v) with
                  hOld | hNew
                · left
                  simp only [hOld, hSame]
                · right
                  rw [hSame] at hNew
                  refine ⟨_, hNew, ?_⟩
                  have hZero := hRet v rfl
                  simp only at hZero hLeads
                  refine ⟨Int.one_pos, by simp, ?_⟩
                  rw [← hLeads, hZero]

end Cache

--------------------
-- Lookups
--------------------

/- The state in which a lookup has asked the cache. -/
def afterCache
    (s : VfsState W)
    (path : List U8) :
    VfsState W :=
  { s with
    dentries := (dentryLookup path s.dentries).2
    lookups := s.lookups + 1#64
    operations := s.operations + 1#64 }

theorem pathLookup_eq
    (s : VfsState W)
    (path : CString) :
    pathLookup ops s (some path) =
      match (dentryLookup path.bytes s.dentries).1.bind
          Dentry.vnode with
      | some v =>
          (0, some v,
            vnodeGet
              { afterCache s path.bytes with
                cacheHits := s.cacheHits + 1#64 } v)
      | none =>
          lookupUncached ops (afterCache s path.bytes)
            path.bytes := rfl

variable {s : VfsSession W}

/- What a lookup answers, by the cache or by a walk. -/
theorem pathLookup_cases
    (hLookup : LookupFunction ops answers)
    (hMade : CacheMade ops answers s.dentries s.walks)
    (path : CString) :
    ∃ walk,
      (hitWalk s path.bytes = some walk ∨
        hitWalk s path.bytes = none ∧
          walk = walkOf s.toVfsState path.bytes) ∧
      ((pathLookup ops s.toVfsState (some path)).1,
          (pathLookup ops s.toVfsState (some path)).2.1) =
        resolveWalk ops answers walk := by
  rw [pathLookup_eq]
  rcases hMade.hit path.bytes with
    ⟨hNone, hNoWalk⟩ | ⟨d, walk, hHit, hEntry, hWalk⟩
  · refine ⟨_, .inr ⟨?_, rfl⟩, ?_⟩
    · rw [hitWalk, hNoWalk]
      rfl
    · rw [hNone]
      exact lookupUncached_resolves hLookup
        (afterCache s.toVfsState path.bytes) path
  · refine ⟨walk, .inl hWalk, ?_⟩
    rw [hHit, Option.bind_some, hEntry.leads]
    cases hFound : d.vnode with
    | none => exact absurd hFound hEntry.found
    | some v => rfl

theorem pathLookup_made
    (hLookup : LookupFunction ops answers)
    (hMade : CacheMade ops answers s.dentries s.walks)
    (path : Option CString) :
    CacheMade ops answers (vfsNext ops s (.lookup path)).dentries
      (vfsNext ops s (.lookup path)).walks := by
  cases path with
  | none => exact hMade
  | some path =>
      have hSame : CacheMade ops answers
          (afterCache s.toVfsState path.bytes).dentries s.walks :=
        hMade.lookup
      have hLength :
          (afterCache s.toVfsState path.bytes).dentries.length =
            s.dentries.length :=
        length_dentryLookup path.bytes s.dentries
      simp only [vfsNext]
      rw [pathLookup_eq]
      split
      · simp only [vnodeGet, VfsState.addRef, VfsState.setVnode,
          hLength, if_true]
        exact hSame
      · rcases lookupUncached_dentries hLookup hSame path with
          hOld | ⟨d, hNew, hEntry⟩
        · rw [hOld, if_pos hLength]
          exact hSame
        · have hLonger :
              (d :: (afterCache s.toVfsState
                path.bytes).dentries).length ≠
                s.dentries.length := by
            rw [List.length_cons, hLength]
            omega
          rw [hNew, if_neg hLonger]
          exact .cons hEntry hSame

/- Mounting and unmounting leave the cache as it is. -/
theorem addMount_dentries
    (s : VfsState W)
    (target : CString)
    (sb : Superblock W) :
    (addMount s target sb).2.dentries = s.dentries := by
  unfold addMount
  simp only
  split
  · unfold unmountFs
    split
    · rfl
    · rfl
  · rfl

theorem vfsMount_dentries
    (s : VfsState W)
    (source target fsType : Option CString)
    (data : Option Addr) :
    (vfsMount s source target fsType data).2.dentries =
      s.dentries := by
  unfold vfsMount
  split
  · split
    · rfl
    · split
      · rfl
      · split
        · rfl
        · unfold mountFs
          simp only
          split
          · rfl
          · split
            · exact addMount_dentries _ _ _
            · split
              · exact addMount_dentries _ _ _
              · unfold unmountFs
                split
                · rfl
                · rfl
  · rfl

theorem vfsUnmount_dentries
    (s : VfsState W)
    (target : Option CString) :
    (vfsUnmount s target).2.dentries = s.dentries := by
  unfold vfsUnmount
  split
  · rfl
  · split
    · rfl
    · unfold unmountFs
      simp only
      split
      · rfl
      · rfl

--------------------
-- Runs
--------------------

theorem vfsInit_made
    (answers : Addr → List U8 → Int × Option Addr)
    (hStart : VfsStarted s) :
    CacheMade ops answers s.dentries s.walks := by
  rcases hStart with ⟨⟨s₀, hInit⟩, hWalks⟩
  rw [hWalks]
  unfold vfsInit at hInit
  simp only at hInit
  split at hInit
  · simp at hInit
  · split at hInit
    · simp at hInit
    · simp only [Prod.mk.injEq, true_and] at hInit
      rw [← hInit]
      exact .cons ⟨Int.one_pos, by simp, rfl⟩ .nil

theorem vfsStep_made
    (hLookup : LookupFunction ops answers)
    {s s' : VfsSession W}
    {call : VfsCall}
    (hMade : CacheMade ops answers s.dentries s.walks)
    (hStep : vfsStep ops s call s') :
    CacheMade ops answers s'.dentries s'.walks := by
  rw [vfsStep] at hStep
  subst hStep
  cases call with
  | mount source target fsType data =>
      simp only [vfsNext, vfsMount_dentries]
      exact hMade
  | unmount target =>
      simp only [vfsNext, vfsUnmount_dentries]
      exact hMade
  | lookup path => exact pathLookup_made hLookup hMade path

/- The two walks for a path lead to the same result. -/
def LeadsAlike
    (ops : Addr → VnodeOps W)
    (answers : Addr → List U8 → Int × Option Addr)
    (s : VfsSession W) :
    Option CString → Prop
  | none => True
  | some path =>
      ∀ walk, hitWalk s path.bytes = some walk →
        resolveWalk ops answers walk =
          resolveWalk ops answers
            (walkOf s.toVfsState path.bytes)

theorem transparent_iff
    (hLookup : LookupFunction ops answers)
    (hMade : CacheMade ops answers s.dentries s.walks)
    (path : Option CString) :
    Transparent ops s.toVfsState path ↔
      LeadsAlike ops answers s path := by
  cases path with
  | none => exact ⟨fun _ => trivial, fun _ => ⟨rfl, rfl⟩⟩
  | some path =>
      rcases pathLookup_cases hLookup hMade path with
        ⟨walk, hWalk, hAnswer⟩
      have hEmpty :
          ((pathLookup ops
                { s.toVfsState with
                  dentries := [], dentryCount := 0 }
                (some path)).1,
              (pathLookup ops
                { s.toVfsState with
                  dentries := [], dentryCount := 0 }
                (some path)).2.1) =
            resolveWalk ops answers
              (walkOf s.toVfsState path.bytes) :=
        lookupUncached_resolves hLookup
          (afterCache
            { s.toVfsState with dentries := [], dentryCount := 0 }
            path.bytes) path
      have hPair :
          Transparent ops s.toVfsState (some path) ↔
            resolveWalk ops answers walk =
              resolveWalk ops answers
                (walkOf s.toVfsState path.bytes) := by
        rw [← hAnswer, ← hEmpty, Prod.mk.injEq]
        rfl
      rw [hPair]
      rcases hWalk with hHit | ⟨hNone, hNow⟩
      · simp only [LeadsAlike, hHit, Option.some.injEq,
          forall_eq']
      · simp [LeadsAlike, hNone, hNow]

/-
  After any run a lookup is as without the cache if and only
  if the walk of the entry that answers leads to what the walk
  of now leads to; so it is where they are the same walk.
-/
theorem vfsRun_transparent
    {s₀ s : VfsSession W}
    {calls : List VfsCall}
    (hLookup : LookupFunction ops answers)
    (hStart : VfsStarted s₀)
    (hRun : Run (vfsStep ops) s₀ calls s)
    (path : Option CString) :
    (SameWalk s path → Transparent ops s.toVfsState path) ∧
      (Transparent ops s.toVfsState path ↔
        LeadsAlike ops answers s path) := by
  have hMade : CacheMade ops answers s.dentries s.walks := by
    apply hRun.invariant fun s =>
      CacheMade ops answers s.dentries s.walks
    · intro t call t' hMade hStep
      exact vfsStep_made hLookup hMade hStep
    · exact vfsInit_made answers hStart
  have hIff := transparent_iff hLookup hMade path
  refine ⟨?_, hIff⟩
  intro hSame
  rw [hIff]
  cases path with
  | none => trivial
  | some path =>
      intro walk hHit
      rw [hSame walk hHit]

end Vfs

--------------------
-- Two Sessions
--------------------

/- A filesystem whose root has one file, "x". -/
def tinyOps (v : Addr) : VnodeOps Unit where
  lookup :=
    if v = 0x5000#64 then
      some fun _ name kernel =>
        if name = [0x78#8] then (0, some 0x6000#64, kernel)
        else (-1, none, kernel)
    else
      none
  openFile := none
  closeFile := none

def tinyFs : Filesystem Unit where
  name := ⟨[0x74#8], by decide⟩
  mount := fun _ _ _ kernel => (0, some 0x5000#64, kernel)
  unmount := none
  root := fun _ kernel => (none, kernel)

def tinyAnswers
    (v : Addr)
    (name : List U8) :
    Int × Option Addr :=
  if v = 0x5000#64 then
    if name = [0x78#8] then (0, some 0x6000#64) else (-1, none)
  else
    (0, none)

theorem tinyOps_function :
    LookupFunction tinyOps tinyAnswers := by
  intro v lookup hOps name kernel
  unfold tinyOps at hOps
  unfold tinyAnswers
  split at hOps
  next hv =>
    simp only [Option.some.injEq] at hOps
    rw [← hOps, if_pos hv]
    simp only
    split
    · rfl
    · rfl
  next => cases hOps

def bootedVfs : VfsState Unit where
  filesystems := [tinyFs]
  mounts := []
  mountCount := 0
  dentries := []
  dentryCount := 0
  rootVnode := none
  files := []
  kernel := ⟨fun _ => ⟨0#32, none, 0⟩, Heap.initial, ()⟩
  freed := []
  lookups := 0#64
  cacheHits := 0#64
  operations := 0#64

def startedVfs : VfsSession Unit where
  toVfsState := (vfsInit bootedVfs).2
  walks := [⟨some 0x200000#64, []⟩]

theorem startedVfs_started : VfsStarted startedVfs := by
  refine ⟨⟨bootedVfs, ?_⟩, ?_⟩
  · exact Prod.ext (by decide +kernel) rfl
  · decide +kernel

/- The filesystem is mounted at "/a" and "/a/x" is looked up. -/
def tinyCalls : List VfsCall :=
  [.mount none (some ⟨[0x2F#8, 0x61#8], by decide⟩)
      (some ⟨[0x74#8], by decide⟩) none,
    .lookup
      (some ⟨[0x2F#8, 0x61#8, 0x2F#8, 0x78#8], by decide⟩)]

def tinySession : VfsSession Unit :=
  tinyCalls.foldl (vfsNext tinyOps) startedVfs

theorem tinySession_run :
    Run (vfsStep tinyOps) startedVfs tinyCalls tinySession :=
  .cons rfl (.cons rfl (.nil _))

/- The root is answered by the entry of `vfs_init`. -/
theorem vfsRun_transparent_root :
    Transparent tinyOps tinySession.toVfsState
      (some ⟨[slash], by decide⟩) := by
  apply (vfsRun_transparent tinyOps_function startedVfs_started
    tinySession_run _).1
  intro walk hHit
  have hRoot :
      hitWalk tinySession [slash] =
        some (walkOf tinySession.toVfsState [slash]) := by
    decide +kernel
  rw [hRoot] at hHit
  injection hHit with hHit
  exact hHit.symm

/-
  The entry for "/a/x" has the name "x", and answers for it;
  without it there is no file of that name.
-/
theorem pathLookup_answers_for_other :
    ¬ ∀ (s₀ s : VfsSession Unit) (calls : List VfsCall)
        (path : Option CString),
      VfsStarted s₀ → Run (vfsStep tinyOps) s₀ calls s →
        Transparent tinyOps s.toVfsState path := by
  intro hAll
  have hSame := (hAll startedVfs tinySession tinyCalls
    (some ⟨[0x78#8], by decide⟩) startedVfs_started
    tinySession_run).1
  revert hSame
  decide +kernel

end FeatherOS
