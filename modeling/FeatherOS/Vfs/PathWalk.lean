import FeatherOS.Library.NamedTree
import FeatherOS.Vfs.Transparency

/-
  What a path leads to.

  `path_lookup` goes on from component to component by the
  lookups of the directories. It passes over `..` as it does
  over `.`, and reads a name of more than 255 characters as
  several names.

  Key definitions include:
    * `splitPath`
    * `DirTree`
    * `DirTree.target`
    * `PathWalkRight`
    * `PathWalkOk`

  Key theorems include:
    * `pathComponents_splitPath`
    * `pathLookup_leads`
    * `pathLookup_walk_iff`
-/

namespace FeatherOS

open NamedTree (descend walk Climbs IsTree)

variable {W : Type}

--------------------
-- Directories
--------------------

/- The pieces of a path between runs of slashes -/
def splitPath (path : List U8) : List (List U8) :=
  (path.splitOn slash).filter fun part => part ≠ []

def dotName : List U8 := [0x2E#8]

def dotDotName : List U8 := [0x2E#8, 0x2E#8]

/- To stay, to go up, or to go down to the child of a name -/
def movesOf
    (parts : List (List U8)) :
    List (Option (List U8)) :=
  (parts.filter fun part => part ≠ dotName).map fun part =>
    if part = dotDotName then none else some part

/-
  A tree of directories, which the lookups of its vnodes know
  the children of.
-/
structure DirTree (ops : Addr → VnodeOps W) where
  child : Addr → List U8 → Option Addr
  parent : Addr → Addr
  root : Addr
  tree : IsTree child parent root
  finds : ∀ names v name w, descend child names root = some v →
    child v name = some w →
      ∃ lookup, (ops v).lookup = some lookup ∧
        ∀ kernel, (lookup v name kernel).1 = 0 ∧
          (lookup v name kernel).2.1 = some w
  misses : ∀ names v name lookup,
    descend child names root = some v → child v name = none →
      (ops v).lookup = some lookup →
        ∀ kernel, (lookup v name kernel).1 ≠ 0 ∨
          (lookup v name kernel).2.1 = none

/- The vnode that a path from the root should lead to -/
def DirTree.target
    {ops : Addr → VnodeOps W}
    (t : DirTree ops)
    (path : List U8) :
    Option Addr :=
  if ∃ part ∈ splitPath path, maxFilename < part.length then
    none
  else
    walk t.child t.parent (movesOf (splitPath path)) t.root

/- A lookup succeeds with the vnode, or fails without one. -/
structure Leads
    (answer : Int × Option Addr × VfsState W)
    (goal : Option Addr) : Prop where
  found : ∀ v, goal = some v →
    answer.1 = 0 ∧ answer.2.1 = some v
  fails : goal = none → answer.1 ≠ 0 ∧ answer.2.1 = none

/- `rest` is what follows the target of the mount. -/
def PathWalkRight
    {ops : Addr → VnodeOps W}
    (t : DirTree ops)
    (s : VfsState W)
    (path : CString)
    (rest : List U8) : Prop :=
  Leads (pathLookup ops s (some path)) (t.target rest)

/- The pieces of a name, after the characters of one -/
def cutName
    (acc : List U8) :
    List U8 → List (List U8)
  | [] => if acc = [] then [] else [acc]
  | c :: name =>
      if acc.length = maxFilename then
        acc :: cutName [c] name
      else
        cutName (acc ++ [c]) name

/- The parts of a path in pieces, without `.` and `..` -/
def plainNames (path : List U8) : List (List U8) :=
  ((splitPath path).flatMap (cutName [])).filter fun name =>
    name ≠ dotName ∧ name ≠ dotDotName

/-
  A path that leads to a vnode never goes up from another
  directory than the root. The names of one that leads
  nowhere, cut and without dots, lead nowhere either.
-/
structure PathWalkOk
    {ops : Addr → VnodeOps W}
    (t : DirTree ops)
    (rest : List U8) : Prop where
  leads : t.target rest ≠ none →
    ¬ Climbs t.child t.parent t.root
      (movesOf (splitPath rest)) t.root
  leadsNowhere : t.target rest = none →
    descend t.child (plainNames rest) t.root = none

--------------------
-- Splitting
--------------------

/- The scan of a path splits it, and cuts what it splits. -/
theorem pathComponents_cut
    {acc path first : List U8}
    {others : List (List U8)}
    (hSplit : path.splitOn slash = first :: others) :
    pathComponents acc path =
      cutName acc first ++ others.flatMap (cutName []) := by
  induction path generalizing acc first others with
  | nil =>
      rw [List.splitOn_nil] at hSplit
      cases hSplit
      rw [List.flatMap_nil, List.append_nil]
      rfl
  | cons c path ih =>
      rw [List.splitOn_cons_eq_if_modifyHead] at hSplit
      cases hRest : path.splitOn slash with
      | nil => exact absurd hRest (List.splitOn_ne_nil _ _)
      | cons next more =>
          rw [hRest] at hSplit
          rw [pathComponents]
          by_cases hSlash : c = slash
          · subst hSlash
            simp only [beq_self_eq_true, if_true] at hSplit ⊢
            cases hSplit
            rw [ih hRest, List.flatMap_cons, cutName]
            by_cases hEmpty : acc = []
            · rw [if_pos hEmpty, if_pos hEmpty]
              rfl
            · rw [if_neg hEmpty, if_neg hEmpty]
              rfl
          · have hOther : (c == slash) = false :=
              beq_eq_false_iff_ne.mpr hSlash
            simp only [hOther, hSlash, Bool.false_eq_true,
              if_false, List.modifyHead_cons] at hSplit ⊢
            cases hSplit
            rw [cutName]
            by_cases hFull : acc.length = maxFilename
            · rw [if_pos hFull, if_pos hFull, ih hRest]
              rfl
            · rw [if_neg hFull, if_neg hFull, ih hRest]

/- Empty parts have no pieces. -/
theorem flatMap_cutName
    (parts : List (List U8)) :
    (parts.filter fun part => part ≠ []).flatMap (cutName []) =
      parts.flatMap (cutName []) := by
  induction parts with
  | nil => rfl
  | cons part parts ih =>
      rw [List.flatMap_cons, List.filter_cons]
      by_cases hEmpty : part = []
      · simp only [hEmpty, ne_eq, not_true_eq_false,
          decide_false, Bool.false_eq_true, if_false]
        exact ih
      · simp only [hEmpty, ne_eq, not_false_eq_true,
          decide_true, if_true]
        rw [List.flatMap_cons, ← ih]

theorem pathComponents_splitPath
    (path : List U8) :
    pathComponents [] path =
      (splitPath path).flatMap (cutName []) := by
  rw [splitPath, flatMap_cutName]
  cases hSplit : path.splitOn slash with
  | nil => exact absurd hSplit (List.splitOn_ne_nil _ _)
  | cons first others =>
      rw [pathComponents_cut hSplit, List.flatMap_cons]

/- Slashes at the start have no components. -/
theorem pathComponents_dropWhile
    (path : List U8) :
    pathComponents [] (path.dropWhile fun c => c = slash) =
      pathComponents [] path := by
  induction path with
  | nil => rfl
  | cons c path ih =>
      rw [List.dropWhile_cons, pathComponents]
      by_cases hSlash : c = slash
      · simp only [hSlash, decide_true, if_true]
        exact ih
      · simp only [hSlash, decide_false, Bool.false_eq_true,
          if_false]
        rw [pathComponents, if_neg hSlash]

/- The characters of the components are those of the path. -/
theorem pathComponents_chars
    {acc path name : List U8}
    (hName : name ∈ pathComponents acc path)
    {c : U8}
    (hMem : c ∈ name) :
    c ∈ acc ∨ c ∈ path := by
  induction path generalizing acc with
  | nil =>
      rw [pathComponents] at hName
      split at hName
      next => cases hName
      next =>
        rw [List.mem_singleton.mp hName] at hMem
        exact .inl hMem
  | cons d path ih =>
      have hHere : name ∈ pathComponents [d] path →
          c ∈ acc ∨ c ∈ d :: path := fun hLater => by
        rcases ih hLater with hd | hPath
        · exact .inr (List.mem_singleton.mp hd ▸ .head _)
        · exact .inr (.tail _ hPath)
      rw [pathComponents] at hName
      split at hName
      next =>
        have hLater : name ∈ pathComponents [] path →
            c ∈ acc ∨ c ∈ d :: path := fun hLater =>
          .inr (.tail _ ((ih hLater).resolve_left
            List.not_mem_nil))
        split at hName
        next => exact hLater hName
        next =>
          rcases List.mem_cons.mp hName with rfl | hName
          · exact .inl hMem
          · exact hLater hName
      next =>
        split at hName
        next =>
          rcases List.mem_cons.mp hName with rfl | hName
          · exact .inl hMem
          · exact hHere hName
        next =>
          rcases ih hName with hAcc | hPath
          · rcases List.mem_append.mp hAcc with hAcc | hd
            · exact .inl hAcc
            · exact .inr (List.mem_singleton.mp hd ▸ .head _)
          · exact .inr (.tail _ hPath)

theorem isDots_iff
    {name : List U8}
    (hNul : 0#8 ∉ name) :
    isDots name = true ↔ name = dotName ∨ name = dotDotName := by
  rw [isDots, decide_eq_true_iff,
    strcmp_eq_zero hNul (by decide),
    strcmp_eq_zero hNul (by decide)]
  rfl

/- The loop looks up the names without dots. -/
theorem filter_isDots
    {path : List U8}
    (hNul : 0#8 ∉ path) :
    ((pathComponents [] path).filter fun name => !isDots name) =
      plainNames path := by
  rw [plainNames, ← pathComponents_splitPath]
  refine List.filter_congr fun name hName => ?_
  have hClean : 0#8 ∉ name := fun hMem =>
    hNul ((pathComponents_chars hName hMem).resolve_left
      List.not_mem_nil)
  rw [Bool.eq_iff_iff, Bool.not_eq_true', ← Bool.not_eq_true,
    isDots_iff hClean, decide_eq_true_iff, not_or]

/- A short name is one piece. -/
theorem cutName_short
    {acc name : List U8}
    (hSome : acc ++ name ≠ [])
    (hShort : (acc ++ name).length ≤ maxFilename) :
    cutName acc name = [acc ++ name] := by
  induction name generalizing acc with
  | nil =>
      rw [List.append_nil] at hSome ⊢
      rw [cutName, if_neg hSome]
  | cons c name ih =>
      have hRoom : acc.length ≠ maxFilename := by
        rw [List.length_append, List.length_cons] at hShort
        omega
      have hSame : acc ++ c :: name = (acc ++ [c]) ++ name := by
        rw [List.append_assoc, List.singleton_append]
      rw [hSame] at hSome hShort ⊢
      rw [cutName, if_neg hRoom, ih hSome hShort]

/- Without long parts the names are those of the moves down. -/
theorem plainNames_moves
    {path : List U8}
    (hShort : ¬ ∃ part ∈ splitPath path,
      maxFilename < part.length) :
    plainNames path =
      (movesOf (splitPath path)).reduceOption := by
  have hParts : ∀ part ∈ splitPath path,
      part ≠ [] ∧ part.length ≤ maxFilename := by
    intro part hPart
    refine ⟨of_decide_eq_true (List.mem_filter.mp hPart).2, ?_⟩
    by_contra hLong
    exact hShort ⟨part, hPart, Nat.lt_of_not_le hLong⟩
  rw [plainNames]
  generalize splitPath path = parts at hParts
  clear hShort
  induction parts with
  | nil => rfl
  | cons part parts ih =>
      rcases hParts part List.mem_cons_self with ⟨hSome, hLe⟩
      have hRest := ih fun other hMem => hParts other (.tail _ hMem)
      rw [List.flatMap_cons, @cutName_short [] part hSome hLe,
        List.nil_append, List.filter_append, hRest, movesOf,
        List.filter_cons]
      by_cases hDot : part = dotName
      · simp [hDot, movesOf]
      · by_cases hUp : part = dotDotName
        · simp [hUp, movesOf, dotDotName, dotName,
            List.reduceOption_cons_of_none]
        · simp [hDot, hUp, movesOf,
            List.reduceOption_cons_of_some]

--------------------
-- Walking
--------------------

variable {answer : Int × Option Addr × VfsState W}

/- A lookup leads to one goal at most. -/
theorem Leads.unique
    {goal goal' : Option Addr}
    (hLeads : Leads answer goal)
    (hLeads' : Leads answer goal') :
    goal = goal' := by
  cases goal with
  | none =>
      cases goal' with
      | none => rfl
      | some v =>
          exact absurd (hLeads'.found v rfl).1
            (hLeads.fails rfl).1
  | some v =>
      have hVnode := (hLeads.found v rfl).2
      cases goal' with
      | none =>
          exact absurd (hLeads.found v rfl).1
            (hLeads'.fails rfl).1
      | some w => rw [← hVnode, (hLeads'.found w rfl).2]

theorem Leads.failed
    (hRet : answer.1 ≠ 0)
    (hVnode : answer.2.1 = none) :
    Leads answer none where
  found := fun _ hGoal => nomatch hGoal
  fails := fun _ => ⟨hRet, hVnode⟩

theorem Leads.reached
    {v : Addr}
    (hRet : answer.1 = 0)
    (hVnode : answer.2.1 = some v) :
    Leads answer (some v) where
  found := by
    intro w hGoal
    cases hGoal
    exact ⟨hRet, hVnode⟩
  fails := fun hGoal => nomatch hGoal

section Walk

variable {ops : Addr → VnodeOps W}

/- The loop goes down by the names without dots. -/
theorem walkPath_leads
    (t : DirTree ops)
    {names above : List (List U8)}
    {v : Addr}
    {s : VfsState W}
    (hNode : descend t.child above t.root = some v) :
    Leads (walkPath ops names v s)
      (descend t.child (names.filter fun name => !isDots name)
        v) := by
  induction names generalizing above v s with
  | nil => exact .reached rfl rfl
  | cons name names ih =>
      rw [walkPath, List.filter_cons]
      by_cases hDots : isDots name = true
      · simp only [hDots, if_true, Bool.not_true,
          Bool.false_eq_true, if_false]
        exact ih hNode
      · simp only [hDots, Bool.false_eq_true, if_false,
          Bool.not_false, if_true]
        rw [descend]
        cases hChild : t.child v name with
        | none =>
            rw [Option.bind_none]
            cases hOps : (ops v).lookup with
            | none => exact .failed (by simp) rfl
            | some lookup =>
                simp only
                split
                next hRet => exact .failed hRet rfl
                next hRet =>
                  rcases t.misses above v name lookup hNode hChild
                    hOps s.kernel with hNe | hNone
                  · exact absurd hNe hRet
                  · rw [hNone]
                    exact .failed (by simp) rfl
        | some w =>
            rcases t.finds above v name w hNode hChild with
              ⟨lookup, hOps, hAnswer⟩
            rcases hAnswer s.kernel with ⟨hRet, hNext⟩
            rw [Option.bind_some, hOps]
            simp only [hRet, ne_eq, not_true_eq_false, if_false,
              hNext]
            exact ih (NamedTree.descend_concat.mpr
              ⟨v, hNode, hChild⟩)

/- Where the names without dots lead, a lookup leads. -/
theorem pathLookup_leads
    (t : DirTree ops)
    {s : VfsState W}
    {path : CString}
    {m : Mount W}
    (hCache : s.dentries = [])
    (hFound : vfsFindMount s.mounts path.bytes = some m)
    (hRoot : m.sb.sRoot = t.root) :
    Leads (pathLookup ops s (some path))
      (descend t.child
        (plainNames (path.bytes.drop m.target.length))
        t.root) := by
  have hNode : descend t.child [] t.root = some t.root := rfl
  have hNul : 0#8 ∉ path.bytes.drop m.target.length :=
    fun hMem => path.no_nul (List.mem_of_mem_drop hMem)
  rw [← filter_isDots hNul, ← pathComponents_dropWhile]
  simp only [pathLookup, hCache, dentryLookup, Option.bind_none,
    lookupUncached, walkStart, hFound, hRoot]
  generalize hRest : (path.bytes.drop m.target.length).dropWhile
    (fun c => c = slash) = rest
  have hRestNul : 0#8 ∉ rest := by
    rw [← hRest]
    exact fun hMem => hNul ((List.dropWhile_suffix _).subset hMem)
  split
  next hStart =>
    rw [pathComponents_root hRestNul hStart]
    exact .reached rfl rfl
  next =>
    generalize vnodeGet _ _ = s'
    have hLeads := @walkPath_leads W ops t
      (pathComponents [] rest) [] t.root s' hNode
    generalize walkPath ops (pathComponents [] rest) t.root s' =
      answer at hLeads ⊢
    rcases answer with ⟨ret, _ | v, s''⟩
    · exact ⟨hLeads.found, hLeads.fails⟩
    · exact ⟨hLeads.found, hLeads.fails⟩

end Walk

/-
  A lookup leads to the right vnode, or fails as it should, if
  and only if the path goes up nowhere but at the root and,
  when it leads nowhere, its names cut and without dots lead
  nowhere as well.
-/
theorem pathLookup_walk_iff
    {ops : Addr → VnodeOps W}
    (t : DirTree ops)
    {s : VfsState W}
    {path : CString}
    {m : Mount W}
    (hCache : s.dentries = [])
    (hFound : vfsFindMount s.mounts path.bytes = some m)
    (hRoot : m.sb.sRoot = t.root) :
    PathWalkRight t s path (path.bytes.drop m.target.length) ↔
      PathWalkOk t (path.bytes.drop m.target.length) := by
  have hLeads := pathLookup_leads t hCache hFound hRoot
  generalize path.bytes.drop m.target.length = rest at hLeads ⊢
  have hSame : PathWalkRight t s path rest ↔
      descend t.child (plainNames rest) t.root =
        t.target rest := by
    constructor
    · exact hLeads.unique
    · intro hGoal
      rw [PathWalkRight, ← hGoal]
      exact hLeads
  rw [hSame]
  cases hTarget : t.target rest with
  | none =>
      constructor
      · exact fun hNone =>
          ⟨fun hSome => absurd hTarget hSome, fun _ => hNone⟩
      · exact fun hOk => hOk.leadsNowhere hTarget
  | some v =>
      have hWalk := hTarget
      rw [DirTree.target] at hWalk
      split at hWalk
      next => cases hWalk
      next hShort =>
        rw [plainNames_moves hShort,
          t.tree.descend_iff_not_climbs hWalk]
        constructor
        · intro hNot
          refine ⟨fun _ => hNot, fun hNone => ?_⟩
          rw [hTarget] at hNone
          cases hNone
        · intro hOk
          refine hOk.leads ?_
          rw [hTarget]
          exact Option.some_ne_none v

/- The tree of the root with one file, "x" -/
def tinyTree : DirTree tinyOps where
  child := fun v name =>
    if v = 0x5000#64 ∧ name = [0x78#8] then some 0x6000#64
    else none
  parent := fun _ => 0x5000#64
  root := 0x5000#64
  tree := by
    constructor
    · rfl
    · intro _ v k w _ hChild
      split at hChild
      next hHere => exact hHere.1.symm
      next => cases hChild
    · intro _ v k _ hChild
      split at hChild
      next => exact absurd hChild (by decide)
      next => cases hChild
  finds := by
    intro _ v name w _ hChild
    split at hChild
    next hHere =>
      refine ⟨_, if_pos hHere.1, fun kernel => ?_⟩
      simp only [hHere.2, if_true]
      exact ⟨trivial, hChild⟩
    next => cases hChild
  misses := by
    intro _ v name lookup _ hChild hOps kernel
    split at hChild
    next => cases hChild
    next hNot =>
      unfold tinyOps at hOps
      split at hOps
      next hv =>
        have hName : name ≠ [0x78#8] := fun hName =>
          hNot ⟨hv, hName⟩
        cases hOps
        simp only [hName, if_false]
        exact .inr trivial
      next => cases hOps

/- It is mounted at "/". -/
def tinyMounted : VfsState Unit :=
  { bootedVfs with
    mounts := [⟨[slash], ⟨0x1000#64, tinyFs, 0x5000#64⟩⟩]
    mountCount := 1 }

/- "/./../x" is the file. -/
def dottedPath : CString :=
  ⟨[slash, 0x2E#8, slash, 0x2E#8, 0x2E#8, slash, 0x78#8],
    by decide⟩

theorem pathLookup_walk_dots :
    PathWalkRight tinyTree tinyMounted dottedPath
      (dottedPath.bytes.drop 1) := by
  refine (@pathLookup_walk_iff Unit tinyOps tinyTree tinyMounted
    dottedPath _ rfl rfl rfl).mpr ⟨?_, ?_⟩
  · rintro _ (hUp | ⟨_, _, hNo⟩)
    · exact hUp rfl
    · exact hNo
  · intro hNone
    have hTarget :
        tinyTree.target (dottedPath.bytes.drop 1) =
          some 0x6000#64 :=
      rfl
    exact absurd (hTarget.symm.trans hNone)
      (Option.some_ne_none _)

/- "/x/.." is the file as well, and not the root. -/
theorem pathLookup_parent_ignored :
    ¬ ∀ (ops : Addr → VnodeOps Unit) (t : DirTree ops)
        (s : VfsState Unit) (path : CString) (m : Mount Unit),
      s.dentries = [] →
        vfsFindMount s.mounts path.bytes = some m →
          m.sb.sRoot = t.root →
            PathWalkRight t s path
              (path.bytes.drop m.target.length) := by
  intro hAll
  have hRight := hAll tinyOps tinyTree tinyMounted
    ⟨[slash, 0x78#8, slash, 0x2E#8, 0x2E#8], by decide⟩ _
    rfl rfl rfl
  have hFound := (hRight.found 0x5000#64 rfl).2
  have hFile :
      (pathLookup tinyOps tinyMounted
        (some ⟨[slash, 0x78#8, slash, 0x2E#8, 0x2E#8],
          by decide⟩)).2.1 = some 0x6000#64 := rfl
  rw [hFile] at hFound
  revert hFound
  decide

end FeatherOS
