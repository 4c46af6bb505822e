import FeatherOS.Vfs.Transparency

/-
  The size of the dentry cache.

  A new entry holds a reference to itself, and an entry is
  removed when it loses its last one, so that a full cache
  holds nothing that could be pruned.

  Key definitions include:
    * `dentryRelease`
    * `CacheCall`
    * `CacheBounded`
    * `CacheCallOk`

  Key theorems include:
    * `dentryAdd_counted`
    * `cacheCall_counted`
    * `cacheCall_bounded_iff`
    * `cacheRun_bounded_iff`
-/

namespace FeatherOS

variable {W : Type}

--------------------
-- Calls
--------------------

/- The entry is named by its place in the cache. -/
def dentryRelease
    (s : VfsState W)
    (i : Nat) :
    VfsState W :=
  match s.dentries[i]? with
  | none => s
  | some d =>
      if d.refcount - 1 ≤ 0 then
        let s :=
          { s with
            dentries := s.dentries.eraseIdx i
            dentryCount := s.dentryCount - 1 }
        match d.vnode with
        | none => s
        | some v => vnodePut s v
      else
        { s with
          dentries :=
            s.dentries.set i
              { d with refcount := d.refcount - 1 } }

/- What `dentry_cache_init` leaves -/
def dentryCacheInit (s : VfsState W) : VfsState W :=
  { s with dentries := [], dentryCount := 0 }

inductive CacheCall where
  | pathLookup (path : Option CString)
  | dentryAdd (name : Option CString) (vnode : Option Addr)
  | dentryLookup (path : Option CString)
  | dentryRelease (i : Nat)

variable (ops : Addr → VnodeOps W)

def cacheCall
    (s : VfsState W) :
    CacheCall → VfsState W
  | .pathLookup path => (pathLookup ops s path).2.2
  | .dentryAdd none _ => s
  | .dentryAdd (some name) vnode => dentryAdd s name.bytes vnode
  | .dentryLookup none => s
  | .dentryLookup (some path) =>
      { s with
        dentries := (dentryLookup path.bytes s.dentries).2 }
  | .dentryRelease i => dentryRelease s i

/- A lookup counts no dentry beyond INT_MAX. -/
def CacheCallInRange
    (s : VfsState W) :
    CacheCall → Prop
  | .pathLookup (some path) | .dentryLookup (some path) =>
      ∀ d ∈ s.dentries, d.isHit path.bytes = true →
        d.refcount < intMax
  | _ => True

def cacheStep
    (s : VfsState W)
    (call : CacheCall)
    (t : VfsState W) : Prop :=
  CacheCallInRange s call ∧ t = cacheCall ops s call

/- The count is that of the list, and within the limit. -/
structure CacheBounded (s : VfsState W) : Prop where
  count : s.dentryCount = s.dentries.length
  limit : s.dentryCount ≤ maxDentryCache

/- `dentry_add` finds no such name, and has memory for one. -/
def NewDentry
    (s : VfsState W)
    (name : List U8) : Prop :=
  (∀ d ∈ s.dentries, strcmp d.name name ≠ 0) ∧
    (kmalloc s.kernel.heap sizeofDentry).1 ≠ none

def RoomFor
    (s : VfsState W)
    (name : List U8) : Prop :=
  NewDentry s name → s.dentries.length < maxDentryCache

/- The state after `path_lookup` has searched the cache -/
def looked
    (s : VfsState W)
    (path : List U8) :
    VfsState W :=
  { s with
    dentries := (dentryLookup path s.dentries).2
    lookups := s.lookups + 1#64
    operations := s.operations + 1#64 }

/-
  The state and the name with which `path_lookup` comes to
  `dentry_add`, if the path is not cached and leads to a
  vnode.
-/
def lookupAdds
    (s : VfsState W)
    (path : CString) :
    Option (VfsState W × List U8) :=
  if ((dentryLookup path.bytes s.dentries).1.bind
      Dentry.vnode).isSome then
    none
  else
    match walkStart (looked s path.bytes) path.bytes with
    | (none, _) => none
    | (some start, rest) =>
        if strcmp rest [slash] = 0 ∨ strcmp rest [] = 0 then
          none
        else
          match
            walkPath ops (pathComponents [] rest) start
              (vnodeGet (looked s path.bytes) start) with
          | (_, none, _) => none
          | (_, some _, s) => some (s, rest)

/- A name that is new has room in the cache. -/
def CacheCallOk
    (s : VfsState W) :
    CacheCall → Prop
  | .pathLookup (some path) =>
      ∀ t name, lookupAdds ops s path = some (t, name) →
        RoomFor t name
  | .dentryAdd (some name) _ => RoomFor s name.bytes
  | _ => True

--------------------
-- The Count
--------------------

/- The count is right, and every entry is in use. -/
structure CacheCounted (s : VfsState W) : Prop where
  count : s.dentryCount = s.dentries.length
  used : ∀ d ∈ s.dentries, 0 < d.refcount

section Counted

variable {ops}
variable {s t : VfsState W}

theorem CacheCounted.of_tables
    (hCounted : CacheCounted s)
    (hTables : SameTables s t) :
    CacheCounted t where
  count := by
    rw [hTables.dentryCount, hTables.dentries]
    exact hCounted.count
  used := by
    rw [hTables.dentries]
    exact hCounted.used

theorem any_name_iff
    {dentries : List Dentry}
    {name : List U8} :
    dentries.any (fun d => strcmp d.name name = 0) = true ↔
      ¬ ∀ d ∈ dentries, strcmp d.name name ≠ 0 := by
  simp

/- A name that is new makes the cache longer by one. -/
theorem dentryAdd_counted
    (hCounted : CacheCounted s)
    (name : List U8)
    (v : Option Addr) :
    CacheCounted (dentryAdd s name v) ∧
      (NewDentry s name →
        (dentryAdd s name v).dentries.length =
          s.dentries.length + 1) ∧
      (¬ NewDentry s name →
        (dentryAdd s name v).dentries = s.dentries) := by
  by_cases hKnown :
      s.dentries.any (fun d => strcmp d.name name = 0) = true
  · have hAdd : dentryAdd s name v = s := if_pos hKnown
    rw [hAdd]
    exact ⟨hCounted,
      fun hNew => absurd hNew.1 (any_name_iff.mp hKnown),
      fun _ => rfl⟩
  · simp only [dentryAdd, if_neg hKnown]
    cases hHeap : kmalloc s.kernel.heap sizeofDentry with
    | mk p heap =>
        cases p with
        | none =>
            refine ⟨⟨hCounted.count, hCounted.used⟩, ?_, fun _ => rfl⟩
            intro hNew
            exact absurd (congrArg Prod.fst hHeap) hNew.2
        | some p =>
            have hAll : ∀ d ∈
                (⟨name.take maxFilename, v, 0#32, 1⟩ : Dentry) ::
                  s.dentries, 0 < d.refcount := by
              rintro d (_ | ⟨_, hMem⟩)
              · exact Int.one_pos
              · exact hCounted.used d hMem
            have hNew : NewDentry s name := by
              refine ⟨not_not.mp (mt any_name_iff.mpr hKnown), ?_⟩
              rw [hHeap]
              exact Option.some_ne_none p
            simp only [dentryPrune_used hAll, ite_self]
            refine ⟨⟨?_, hAll⟩, fun _ => rfl,
              fun hOld => absurd hNew hOld⟩
            simp only [List.length_cons, hCounted.count]
            exact (Int.natCast_succ _).symm

theorem dentryLookup_used
    (path : List U8)
    {dentries : List Dentry}
    (hUsed : ∀ d ∈ dentries, 0 < d.refcount) :
    ∀ d ∈ (dentryLookup path dentries).2, 0 < d.refcount := by
  induction dentries with
  | nil => exact hUsed
  | cons d ds ih =>
      have hFirst := hUsed d List.mem_cons_self
      have hRest := fun e hMem =>
        hUsed e (List.mem_cons_of_mem d hMem)
      simp only [dentryLookup]
      split
      · rintro e (_ | ⟨_, hMem⟩)
        · exact Int.lt_add_one_of_le hFirst.le
        · exact hRest e hMem
      · rintro e (_ | ⟨_, hMem⟩)
        · exact hFirst
        · exact ih hRest e hMem

theorem CacheCounted.looked
    (hCounted : CacheCounted s)
    (path : List U8) :
    CacheCounted (looked s path) where
  count := by
    simp only [FeatherOS.looked, length_dentryLookup]
    exact hCounted.count
  used := dentryLookup_used path hCounted.used

/- A lookup that adds nothing, and one that does -/
theorem pathLookup_adds
    (s : VfsState W)
    (path : CString) :
    (lookupAdds ops s path = none ∧
        SameTables (looked s path.bytes)
          (pathLookup ops s (some path)).2.2) ∨
      ∃ t name v, lookupAdds ops s path = some (t, name) ∧
        SameTables (looked s path.bytes) t ∧
          (pathLookup ops s (some path)).2.2 =
            dentryAdd t name (some v) := by
  cases hHit :
      (dentryLookup path.bytes s.dentries).1.bind
        Dentry.vnode with
  | some v =>
      simp only [pathLookup, lookupAdds, hHit]
      exact .inl ⟨rfl, rfl, rfl, rfl, rfl, rfl, rfl⟩
  | none =>
      have hCall :
          pathLookup ops s (some path) =
            lookupUncached ops (looked s path.bytes)
              path.bytes := by
        simp only [pathLookup, hHit]
        rfl
      simp only [hCall, lookupAdds, hHit, Option.isSome_none,
        Bool.false_eq_true, if_false, lookupUncached]
      cases hStart :
          walkStart (looked s path.bytes) path.bytes with
      | mk start rest =>
          cases start with
          | none => exact .inl ⟨rfl, SameTables.refl _⟩
          | some start =>
              simp only
              split
              next => exact .inl ⟨rfl, rfl, rfl, rfl, rfl, rfl, rfl⟩
              next =>
                have hTables := @walkPath_tables W ops
                  (pathComponents [] rest) start
                  (vnodeGet (looked s path.bytes) start)
                revert hTables
                generalize
                  walkPath ops (pathComponents [] rest) start
                    (vnodeGet (looked s path.bytes) start) =
                  answer
                rcases answer with ⟨ret, found, t⟩
                intro hTables
                have hSame : SameTables (looked s path.bytes) t :=
                  ⟨hTables.filesystems, hTables.mounts,
                    hTables.dentries, hTables.dentryCount,
                    hTables.rootVnode, hTables.files⟩
                cases found with
                | none => exact .inl ⟨rfl, hSame⟩
                | some v =>
                    exact .inr ⟨t, rest, v, rfl, hSame, rfl⟩

theorem length_looked
    (s : VfsState W)
    (path : List U8) :
    (looked s path).dentries.length = s.dentries.length :=
  length_dentryLookup path s.dentries

/- An entry that keeps a reference stays, another one goes. -/
theorem dentryRelease_counted
    (hCounted : CacheCounted s)
    (i : Nat) :
    CacheCounted (dentryRelease s i) ∧
      (dentryRelease s i).dentries.length ≤
        s.dentries.length := by
  simp only [dentryRelease]
  cases hEntry : s.dentries[i]? with
  | none => exact ⟨hCounted, Nat.le_refl _⟩
  | some d =>
      have hi := (List.getElem?_eq_some_iff.mp hEntry).1
      simp only
      split
      next hLast =>
        have hRemoved :
            CacheCounted
              { s with
                dentries := s.dentries.eraseIdx i
                dentryCount := s.dentryCount - 1 } := by
          constructor
          · simp only [List.length_eraseIdx_of_lt hi,
              hCounted.count]
            omega
          · intro e hMem
            exact hCounted.used e (List.mem_of_mem_eraseIdx hMem)
        have hShorter :
            (s.dentries.eraseIdx i).length ≤ s.dentries.length :=
          List.length_eraseIdx_le ..
        cases d.vnode with
        | none => exact ⟨hRemoved, hShorter⟩
        | some v =>
            have hTables := vnodePut_tables
              { s with
                dentries := s.dentries.eraseIdx i
                dentryCount := s.dentryCount - 1 } v
            refine ⟨hRemoved.of_tables hTables, ?_⟩
            rw [hTables.dentries]
            exact hShorter
      next hMore =>
        refine ⟨⟨?_, ?_⟩, ?_⟩
        · simp only [List.length_set, hCounted.count]
        · intro e hMem
          rcases List.mem_or_eq_of_mem_set hMem with hMem | rfl
          · exact hCounted.used e hMem
          · exact Int.not_le.mp hMore
        · simp only [List.length_set, Nat.le_refl]

theorem CacheCounted.bounded_iff
    (hCounted : CacheCounted s) :
    CacheBounded s ↔ s.dentries.length ≤ maxDentryCache := by
  constructor
  · intro hBounded
    have hLimit := hBounded.limit
    rw [hBounded.count] at hLimit
    exact Int.ofNat_le.mp hLimit
  · intro hLength
    refine ⟨hCounted.count, ?_⟩
    rw [hCounted.count]
    exact Int.ofNat_le.mpr hLength

/- A cache within the limit stays so if a new name has room. -/
theorem dentryAdd_bounded_iff
    (hCounted : CacheCounted s)
    (hLimit : s.dentries.length ≤ maxDentryCache)
    (name : List U8)
    (v : Option Addr) :
    CacheBounded (dentryAdd s name v) ↔ RoomFor s name := by
  rcases dentryAdd_counted hCounted name v with
    ⟨hAfter, hNew, hOld⟩
  rw [hAfter.bounded_iff]
  by_cases hName : NewDentry s name
  · rw [hNew hName]
    exact ⟨fun hLe _ => hLe, fun hRoom => hRoom hName⟩
  · rw [hOld hName]
    exact iff_of_true hLimit fun h => absurd h hName

/- Every call keeps the count. -/
theorem cacheCall_counted
    (hCounted : CacheCounted s)
    (call : CacheCall) :
    CacheCounted (cacheCall ops s call) := by
  cases call with
  | pathLookup path =>
      cases path with
      | none => exact hCounted
      | some path =>
          have hLooked := hCounted.looked path.bytes
          rcases pathLookup_adds s path with
            ⟨_, hTables⟩ | ⟨t, name, v, _, hTables, hCall⟩
          · exact hLooked.of_tables hTables
          · rw [cacheCall, hCall]
            exact (dentryAdd_counted (hLooked.of_tables hTables)
              name (some v)).1
  | dentryAdd name v =>
      cases name with
      | none => exact hCounted
      | some name => exact (dentryAdd_counted hCounted _ v).1
  | dentryLookup path =>
      cases path with
      | none => exact hCounted
      | some path =>
          constructor
          · simp only [cacheCall, length_dentryLookup]
            exact hCounted.count
          · exact dentryLookup_used _ hCounted.used
  | dentryRelease i => exact (dentryRelease_counted hCounted i).1

/- A call keeps the limit if and only if a new name has room. -/
theorem cacheCall_bounded_iff
    (hCounted : CacheCounted s)
    (hBounded : CacheBounded s)
    (call : CacheCall) :
    CacheBounded (cacheCall ops s call) ↔
      CacheCallOk ops s call := by
  have hLimit := hCounted.bounded_iff.mp hBounded
  have hAfter := @cacheCall_counted W ops s hCounted call
  cases call with
  | pathLookup path =>
      cases path with
      | none => exact iff_of_true hBounded trivial
      | some path =>
          have hLooked := hCounted.looked path.bytes
          have hLength := length_looked s path.bytes
          rcases pathLookup_adds s path with
            ⟨hNone, hTables⟩ | ⟨t, name, v, hSome, hTables, hCall⟩
          · refine iff_of_true (hAfter.bounded_iff.mpr ?_) ?_
            · rw [cacheCall, hTables.dentries, hLength]
              exact hLimit
            · intro t name hSome
              rw [hNone] at hSome
              cases hSome
          · rw [cacheCall, hCall,
              dentryAdd_bounded_iff (hLooked.of_tables hTables)
                (by rw [hTables.dentries, hLength]; exact hLimit)]
            constructor
            · rintro hRoom t' name' hAdds
              rw [hSome] at hAdds
              cases hAdds
              exact hRoom
            · exact fun hOk => hOk t name hSome
  | dentryAdd name v =>
      cases name with
      | none => exact iff_of_true hBounded trivial
      | some name =>
          exact dentryAdd_bounded_iff hCounted hLimit _ v
  | dentryLookup path =>
      refine iff_of_true (hAfter.bounded_iff.mpr ?_) trivial
      cases path with
      | none => exact hLimit
      | some path =>
          simp only [cacheCall, length_dentryLookup]
          exact hLimit
  | dentryRelease i =>
      exact iff_of_true
        (hAfter.bounded_iff.mpr
          ((dentryRelease_counted hCounted i).2.trans hLimit))
        trivial

end Counted

/- The cache as it is initialised, or as `vfs_init` leaves it -/
inductive CacheBooted : VfsState W → Prop where
  | empty (s : VfsState W) : CacheBooted (dentryCacheInit s)
  | vfs (s : VfsState W) : CacheBooted (vfsInit s).2

variable {s : VfsState W}

theorem CacheBooted.counted
    (hBooted : CacheBooted s) :
    CacheCounted s ∧ CacheBounded s := by
  have hEmpty : ∀ s : VfsState W, s.dentries = [] →
      s.dentryCount = 0 → CacheCounted s ∧ CacheBounded s := by
    intro s hDentries hCount
    refine ⟨⟨?_, ?_⟩, ⟨?_, ?_⟩⟩
    · rw [hDentries, hCount]
      rfl
    · rw [hDentries]
      intro d hMem
      cases hMem
    · rw [hDentries, hCount]
      rfl
    · rw [hCount]
      decide
  cases hBooted with
  | empty s => exact hEmpty _ rfl rfl
  | vfs s =>
      simp only [vfsInit]
      split
      next => exact hEmpty _ rfl rfl
      next =>
        split
        next => exact hEmpty _ rfl rfl
        next =>
          have hOne : (1 : Int) ≤ maxDentryCache := by decide
          refine ⟨⟨rfl, ?_⟩, ⟨rfl, hOne⟩⟩
          intro d hMem
          rw [List.mem_singleton.mp hMem]
          exact Int.one_pos

/-
  The cache is within its limit after every call of a run if
  and only if no call adds a new name to a full cache.
-/
theorem cacheRun_bounded_iff
    {ops : Addr → VnodeOps W}
    {s t : VfsState W}
    {calls : List CacheCall}
    (hBooted : CacheBooted s) :
    Run (fun s call t => cacheStep ops s call t ∧ CacheBounded t)
        s calls t ↔
      Run (Guarded (CacheCallOk ops) (cacheStep ops)) s calls
        t := by
  apply Run.guarded_iff (fun s => CacheCounted s ∧ CacheBounded s)
  · rintro s call t ⟨hCounted, hBounded⟩ hOk ⟨_, rfl⟩
    exact ⟨cacheCall_counted hCounted call,
      (cacheCall_bounded_iff hCounted hBounded call).mpr hOk⟩
  · rintro s call t ⟨hCounted, hBounded⟩ ⟨_, rfl⟩
    exact cacheCall_bounded_iff hCounted hBounded call
  · exact hBooted.counted

theorem run_adds
    (ops : Addr → VnodeOps W)
    (s : VfsState W)
    (names : List CString) :
    Run (cacheStep ops) s
      (names.map fun name => .dentryAdd (some name) none)
      ((names.map fun name => .dentryAdd (some name) none).foldl
        (cacheCall ops) s) := by
  induction names generalizing s with
  | nil => exact .nil s
  | cons name names ih => exact .cons ⟨trivial, rfl⟩ (ih _)

/- Two names, the first one twice, a lookup and a release -/
def fewCacheCalls : List CacheCall :=
  [.dentryAdd (some ⟨[0x78#8], by decide⟩) none,
    .dentryAdd (some ⟨[0x79#8], by decide⟩) none,
    .dentryAdd (some ⟨[0x78#8], by decide⟩) none,
    .dentryLookup (some ⟨[0x78#8], by decide⟩),
    .dentryRelease 0]

theorem cacheRun_bounded_few :
    Run (fun s call t =>
        cacheStep tinyOps s call t ∧ CacheBounded t)
      (dentryCacheInit bootedVfs) fewCacheCalls
      (fewCacheCalls.foldl (cacheCall tinyOps)
        (dentryCacheInit bootedVfs)) :=
  (cacheRun_bounded_iff (.empty bootedVfs)).mpr
    (.cons ⟨fun _ => by decide, trivial, rfl⟩
      (.cons ⟨fun _ => by decide, trivial, rfl⟩
        (.cons ⟨fun _ => by decide, trivial, rfl⟩
          (.cons ⟨trivial, by unfold CacheCallInRange; decide, rfl⟩
            (.cons ⟨trivial, trivial, rfl⟩ (.nil _))))))

/- A new name takes an entry and the memory for it. -/
theorem dentryAdd_new
    (hCounted : CacheCounted s)
    {name : List U8}
    (hName : ∀ d ∈ s.dentries, strcmp d.name name ≠ 0)
    (hMemory : sizeofDentry.toNat ≤ s.kernel.heap.heapLeft.toNat)
    (v : Option Addr) :
    CacheCounted (dentryAdd s name v) ∧
      (dentryAdd s name v).dentries =
        ⟨name.take maxFilename, v, 0#32, 1⟩ :: s.dentries ∧
      (dentryAdd s name v).kernel.heap.heapLeft.toNat =
        s.kernel.heap.heapLeft.toNat - sizeofDentry.toNat := by
  rcases @kmalloc_record s.kernel.heap sizeofDentry (by decide)
    (by decide) with ⟨hFull, _⟩ | ⟨_, heap, hCall, hLeft, _⟩
  · omega
  · rcases dentryAdd_counted hCounted name v with
      ⟨hAfter, hLength, _⟩
    have hNew : NewDentry s name := by
      refine ⟨hName, ?_⟩
      rw [hCall]
      exact Option.some_ne_none _
    refine ⟨hAfter, ?_, ?_⟩
    · rcases dentryAdd_dentries hCounted.used name v with
        hSame | hMore
      · have hLonger := hLength hNew
        rw [hSame] at hLonger
        omega
      · exact hMore
    · have hUnknown :
          ¬ s.dentries.any (fun d => strcmp d.name name = 0) =
            true :=
        fun hKnown => any_name_iff.mp hKnown hName
      simp only [dentryAdd, if_neg hUnknown, hCall]
      exact hLeft

/- Different names are all kept, while there is memory. -/
theorem adds_length
    (ops : Addr → VnodeOps W)
    {names : List CString}
    (hCounted : CacheCounted s)
    (hShort : ∀ name ∈ names, name.bytes.length ≤ maxFilename)
    (hDistinct : names.Nodup)
    (hName : ∀ name ∈ names, ∀ d ∈ s.dentries,
      strcmp d.name name.bytes ≠ 0)
    (hMemory : sizeofDentry.toNat * names.length ≤
      s.kernel.heap.heapLeft.toNat) :
    ((names.map fun name =>
        CacheCall.dentryAdd (some name) none).foldl
          (cacheCall ops) s).dentries.length =
      s.dentries.length + names.length := by
  induction names generalizing s with
  | nil => rfl
  | cons name names ih =>
      rw [List.length_cons, Nat.mul_succ] at hMemory
      rcases dentryAdd_new hCounted (hName name List.mem_cons_self)
        (by omega) none with ⟨hAfter, hDentries, hLeft⟩
      rcases List.nodup_cons.mp hDistinct with ⟨hOther, hRest⟩
      have hOne := hShort name List.mem_cons_self
      rw [List.map_cons, List.foldl_cons]
      have hCall :
          cacheCall ops s (.dentryAdd (some name) none) =
            dentryAdd s name.bytes none := rfl
      rw [hCall, ih hAfter
        (fun other hMem => hShort other (.tail _ hMem)) hRest
        ?_ (by omega), hDentries, List.length_cons,
        List.length_cons]
      · omega
      · intro other hMem d hd
        rw [hDentries] at hd
        rcases List.mem_cons.mp hd with rfl | hd
        · simp only [List.take_of_length_le hOne]
          rw [ne_eq, strcmp_eq_zero name.no_nul other.no_nul]
          intro hSame
          rcases name with ⟨bytes, hNul⟩
          rcases other with ⟨bytes', hNul'⟩
          cases hSame
          exact hOther hMem
        · exact hName other (.tail _ hMem) d hd

/- One of two letters, and up to 199 times another -/
def numberedName (i : Nat) : CString where
  bytes := (if i < 200 then 0x61#8 else 0x62#8) ::
    List.replicate (i % 200) 0x78#8
  no_nul := by
    intro hMem
    rcases List.mem_cons.mp hMem with hHead | hTail
    · split at hHead
      next => cases hHead
      next => cases hHead
    · cases List.eq_of_mem_replicate hTail

theorem numberedName_injective
    {i j : Nat}
    (hi : i < 400)
    (hj : j < 400)
    (hSame : numberedName i = numberedName j) :
    i = j := by
  have hBytes := congrArg CString.bytes hSame
  rcases List.cons.inj hBytes with ⟨hHead, hTail⟩
  have hLength := congrArg List.length hTail
  rw [List.length_replicate, List.length_replicate] at hLength
  split at hHead
  next hLow =>
    split at hHead
    next => omega
    next => cases hHead
  next hHigh =>
    split at hHead
    next => cases hHead
    next => omega

def manyNames : List CString :=
  (List.range 257).map numberedName

theorem manyNames_nodup :
    manyNames.Nodup := by
  refine List.Nodup.map_on ?_ List.nodup_range
  intro i hi j hj hSame
  rw [List.mem_range] at hi hj
  exact numberedName_injective (by omega) (by omega) hSame

/- All of 257 names are kept. -/
theorem cacheRun_grows :
    ¬ ∀ (s t : VfsState Unit) (calls : List CacheCall),
      CacheBooted s → Run (cacheStep tinyOps) s calls t →
        CacheBounded t := by
  intro hAll
  have hBooted : CacheBooted (dentryCacheInit bootedVfs) :=
    .empty bootedVfs
  have hBounded := hAll _ _ _ hBooted (run_adds tinyOps _ manyNames)
  have hMany : manyNames.length = 257 := by
    rw [manyNames, List.length_map, List.length_range]
  have hHeap :
      bootedVfs.kernel.heap.heapLeft.toNat = 1048576 := rfl
  have hDentry : sizeofDentry.toNat = 320 := rfl
  have hLength := adds_length tinyOps hBooted.counted.1
    (fun name hMem => by
      rcases List.mem_map.mp hMem with ⟨i, _, rfl⟩
      have hLt := Nat.mod_lt i (show 200 > 0 by omega)
      simp only [numberedName, List.length_cons,
        List.length_replicate, maxFilename]
      omega)
    manyNames_nodup (fun _ _ d hMem => by cases hMem)
    (by
      rw [hMany, hDentry]
      exact (by decide : 320 * 257 ≤ 1048576).trans hHeap.ge)
  have hLimit := hBounded.limit
  have hEmpty : (dentryCacheInit bootedVfs).dentries.length = 0 :=
    rfl
  have hLargest : (maxDentryCache : Int) = 256 := rfl
  rw [hBounded.count, hLength, hMany, hEmpty, hLargest] at hLimit
  omega

end FeatherOS
