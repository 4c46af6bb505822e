import FeatherOS.Library.DoublyLinked
import FeatherOS.Library.Run
import FeatherOS.Vfs.Model

/-
  The links and counts of the dentry cache.

  Dentries lie on the heap and are linked both ways. A dentry
  leaves the list when it is removed or when its last
  reference is released; so every dentry of the list has a
  reference, and pruning takes none out. Searching and adding
  are those of the list of dentries in `VfsState`.

  Key definitions include:
    * `DentryCache`
    * `DentryCache.add`
    * `DentryCache.release`
    * `DentryCache.prune`
    * `DentryStep`
    * `DentryGood`

  Key theorems include:
    * `prune_cases`
    * `dentryStep_holds`
    * `cacheLookup_refines`
    * `DentryCells.add_refines`
    * `dentryRun_good`
-/

namespace FeatherOS

--------------------
-- State
--------------------

/-
  The fields of all dentries, with the globals of the cache,
  the heap, and the vnodes that were put
-/
structure DentryCache where
  name : Addr → List U8
  vnode : Addr → Option Addr
  parent : Addr → Option Addr
  next : Addr → Option Addr
  prev : Addr → Option Addr
  flags : Addr → U32
  refcount : Addr → Int
  cache : Option Addr
  count : Int
  heap : Heap
  puts : List Addr

namespace DentryCache

def init (s : DentryCache) : DentryCache :=
  { s with
    cache := none
    count := 0 }

--------------------
-- Calls
--------------------

/- The test in the loop of `dentry_lookup` -/
def isHit
    (s : DentryCache)
    (path : List U8)
    (d : Addr) : Bool :=
  strcmp (s.name d) path = 0 &&
    s.flags d &&& dentryNegative = 0#32

/- The result of `dentry_lookup`; loops have bounds. -/
def lookup
    (fuel : Nat)
    (s : DentryCache)
    (path : List U8) :
    Option (Option Addr × DentryCache) :=
  match Chain.find (s.isHit path) s.next fuel s.cache with
  | none => none
  | some none => some (none, s)
  | some (some d) =>
      if s.refcount d < intMax then
        some (some d,
          { s with
            refcount := Function.update s.refcount d
              (s.refcount d + 1) })
      else
        none

/- `*p`, where `p` is the head or the link of a dentry -/
def link
    (s : DentryCache) :
    Option Addr → Option Addr
  | none => s.cache
  | some a => s.next a

/- `*p = d` -/
def setLink
    (s : DentryCache)
    (p d : Option Addr) :
    DentryCache :=
  match p with
  | none => { s with cache := d }
  | some a => { s with next := Function.update s.next a d }

/- The loop of `dentry_prune` -/
def pruneFrom :
    Nat → DentryCache → Option Addr → Option DentryCache
  | 0, _, _ => none
  | fuel + 1, s, p =>
      match s.link p with
      | none => some s
      | some d =>
          if s.count ≤ (maxDentryCache / 2 : Nat) then
            some s
          else if s.refcount d ≤ 0 then
            let t := s.setLink p (s.next d)
            pruneFrom fuel
              { t with
                prev := writeIf t.prev (t.next d) none
                count := t.count - 1 }
              p
          else
            pruneFrom fuel s (some d)

def prune
    (fuel : Nat)
    (s : DentryCache) :
    Option DentryCache :=
  pruneFrom fuel s none

/- A cleared dentry with its name, in front of the others -/
def insert
    (s : DentryCache)
    (d : Addr)
    (parent : Option Addr)
    (name : List U8)
    (vnode : Option Addr) :
    DentryCache :=
  { s with
    name := Function.update s.name d (name.take maxFilename)
    vnode := Function.update s.vnode d vnode
    parent := Function.update s.parent d parent
    flags := Function.update s.flags d 0#32
    refcount := Function.update s.refcount d 1
    next := Function.update s.next d s.cache
    prev := writeIf (Function.update s.prev d none) s.cache
      (some d)
    cache := some d
    count := s.count + 1 }

def add
    (fuel : Nat)
    (s : DentryCache)
    (parent : Option Addr)
    (name : List U8)
    (vnode : Option Addr) :
    Option (Int × DentryCache) :=
  let same := fun d => decide (strcmp (s.name d) name = 0)
  match Chain.find same s.next fuel s.cache with
  | none => none
  | some (some _) => some (-1, s)
  | some none =>
      match kmalloc s.heap sizeofDentry with
      | (none, heap) => some (-1, { s with heap := heap })
      | (some d, heap) =>
          let s := { s with heap := heap }
          let s := s.insert d parent name vnode
          if (maxDentryCache : Int) < s.count then
            (s.prune fuel).map fun s => (0, s)
          else
            some (0, s)

/- A dentry is taken off the list. -/
def unlink
    (s : DentryCache)
    (d : Addr) :
    DentryCache :=
  let s : DentryCache :=
    match s.prev d with
    | some q =>
        { s with next := Function.update s.next q (s.next d) }
    | none => { s with cache := s.next d }
  { s with
    prev := writeIf s.prev (s.next d) (s.prev d)
    count := s.count - 1 }

def remove
    (s : DentryCache)
    (d : Addr) :
    DentryCache :=
  s.unlink d

def release
    (s : DentryCache)
    (d : Addr) :
    DentryCache :=
  let s : DentryCache :=
    { s with
      refcount := Function.update s.refcount d
        (s.refcount d - 1) }
  if s.refcount d ≤ 0 then
    let s := s.unlink d
    { s with puts := s.puts ++ (s.vnode d).toList }
  else
    s

end DentryCache

--------------------
-- Runs
--------------------

/- A cache with the references that its callers hold -/
structure DentrySys where
  cache : DentryCache
  held : Addr → Nat

inductive DentryCall where
  | add (parent : Option Addr) (name : CString)
      (vnode : Option Addr)
  | lookup (path : CString)
  | release (d : Addr)
  | remove (d : Addr)

/- The initial reference of a new dentry -/
def heldAfterAdd
    (sys : DentrySys)
    (ret : Int) :
    Addr → Nat :=
  if ret = 0 then
    Function.update sys.held sys.cache.heap.heapPtr 1
  else
    sys.held

/- The reference that a lookup returns -/
def heldAfterLookup
    (sys : DentrySys)
    (r : Option Addr) :
    Addr → Nat :=
  match r with
  | none => sys.held
  | some d => Function.update sys.held d (sys.held d + 1)

/-
  Only references that are held are released, and only a
  dentry with one reference is removed.
-/
inductive DentryStep :
    DentrySys → DentryCall → DentrySys → Prop
| add
    {sys : DentrySys}
    {t : DentryCache}
    {parent vnode : Option Addr}
    {name : CString}
    {fuel : Nat}
    {ret : Int}
    (hName : name.bytes.length ≤ maxFilename)
    (hCall : sys.cache.add fuel parent name.bytes vnode =
      some (ret, t)) :
    DentryStep sys (.add parent name vnode)
      ⟨t, heldAfterAdd sys ret⟩
| lookup
    {sys : DentrySys}
    {t : DentryCache}
    {path : CString}
    {fuel : Nat}
    {r : Option Addr}
    (hCall : sys.cache.lookup fuel path.bytes = some (r, t)) :
    DentryStep sys (.lookup path) ⟨t, heldAfterLookup sys r⟩
| release
    {sys : DentrySys}
    {d : Addr}
    (hHeld : 0 < sys.held d) :
    DentryStep sys (.release d)
      ⟨sys.cache.release d,
        Function.update sys.held d (sys.held d - 1)⟩
| remove
    {sys : DentrySys}
    {d : Addr}
    (hHeld : sys.held d = 1) :
    DentryStep sys (.remove d)
      ⟨sys.cache.remove d, Function.update sys.held d 0⟩

def dentryBooted (memory : DentryCache) : DentrySys :=
  ⟨memory.init, fun _ => 0⟩

/-
  The list, its links, names, length and counts, and what a
  lookup returns
-/
structure DentryGood
    (s : DentryCache)
    (cells : List Addr) : Prop where
  linked : ∃ last,
    Segment s.next s.prev none s.cache cells last none
  nodup : cells.Nodup
  names : (cells.map s.name).Nodup
  count_eq : s.count = cells.length
  counted : ∀ d ∈ cells, 1 ≤ s.refcount d
  found : ∀ fuel (path : CString) r t,
    s.lookup fuel path.bytes = some (r, t) →
    ∀ d, r = some d ↔ d ∈ cells ∧ s.name d = path.bytes
  returns : ∀ fuel (path : CString), cells.length < fuel →
    (∀ d ∈ cells, s.refcount d < intMax) →
    (s.lookup fuel path.bytes).isSome

/- What every run from `dentry_cache_init` keeps -/
structure DentryCells
    (sys : DentrySys)
    (cells : List Addr) : Prop where
  linked : ∃ last,
    Segment sys.cache.next sys.cache.prev none sys.cache.cache
      cells last none
  nodup : cells.Nodup
  names : (cells.map sys.cache.name).Nodup
  no_nul : ∀ d ∈ cells, 0#8 ∉ sys.cache.name d
  flags : ∀ d ∈ cells, sys.cache.flags d = 0#32
  count_eq : sys.cache.count = cells.length
  refcount_eq : ∀ d ∈ cells, sys.cache.refcount d = sys.held d
  held_iff : ∀ d, 0 < sys.held d ↔ d ∈ cells
  old : ∀ d ∈ cells, d.toNat < sys.cache.heap.heapPtr.toNat

--------------------
-- Searches
--------------------

variable {path : List U8}
variable {cells : List Addr}

/- The dentry of a name in the list -/
theorem find?_eq_some_iff_name
    {name : Addr → List U8}
    {hit : Addr → Bool}
    (hHit : ∀ d ∈ cells, hit d = true ↔ name d = path)
    (hNames : (cells.map name).Nodup)
    (d : Addr) :
    cells.find? hit = some d ↔ d ∈ cells ∧ name d = path := by
  constructor
  · intro hFind
    have hMem := List.mem_of_find?_eq_some hFind
    exact ⟨hMem, (hHit d hMem).mp (List.find?_some hFind)⟩
  · rintro ⟨hMem, hName⟩
    have hSome : (cells.find? hit).isSome :=
      List.find?_isSome.mpr ⟨d, hMem, (hHit d hMem).mpr hName⟩
    rcases Option.isSome_iff_exists.mp hSome with ⟨e, hFind⟩
    have hMemE := List.mem_of_find?_eq_some hFind
    have hNameE := (hHit e hMemE).mp (List.find?_some hFind)
    have hSame := List.inj_on_of_nodup_map hNames hMemE hMem
      (hNameE.trans hName.symm)
    rw [hFind, hSame]

variable {r parent vnode : Option Addr}
variable {fuel : Nat}
variable {s t : DentryCache}

section Searches

variable {sys : DentrySys}
variable {cells : List Addr}

theorem DentryCells.chain
    (hCells : DentryCells sys cells) :
    Chain sys.cache.next sys.cache.cache cells := by
  rcases hCells.linked with ⟨last, hList⟩
  exact hList.chain

/- The test of `dentry_lookup` -/
theorem DentryCells.hit_iff
    (hCells : DentryCells sys cells)
    (path : CString)
    {d : Addr}
    (hd : d ∈ cells) :
    sys.cache.isHit path.bytes d = true ↔
      sys.cache.name d = path.bytes := by
  have hClear : sys.cache.flags d &&& dentryNegative = 0#32 := by
    rw [hCells.flags d hd]
    rfl
  simp only [DentryCache.isHit, hClear, decide_true, Bool.and_true,
    decide_eq_true_eq]
  exact strcmp_eq_zero (hCells.no_nul d hd) path.no_nul

/- A lookup that returns changes a count at most. -/
theorem cacheLookup_cases
    (hCall : s.lookup fuel path = some (r, t)) :
    Chain.find (s.isHit path) s.next fuel s.cache = some r ∧
      ((r = none ∧ t = s) ∨
        ∃ d, r = some d ∧
          t = { s with
            refcount := Function.update s.refcount d
              (s.refcount d + 1) }) := by
  unfold DentryCache.lookup at hCall
  cases hFind : Chain.find (s.isHit path) s.next fuel s.cache with
  | none =>
      simp only [hFind] at hCall
      cases hCall
  | some found =>
      simp only [hFind] at hCall
      cases found with
      | none =>
          cases hCall
          exact ⟨rfl, .inl ⟨rfl, rfl⟩⟩
      | some d =>
          dsimp only at hCall
          by_cases hMax : s.refcount d < intMax
          · rw [if_pos hMax] at hCall
            cases hCall
            exact ⟨rfl, .inr ⟨d, rfl, rfl⟩⟩
          · rw [if_neg hMax] at hCall
            cases hCall

/- It returns unless a count would get too large. -/
theorem cacheLookup_returns
    (hChain : Chain s.next s.cache cells)
    (hFuel : cells.length < fuel)
    (hMax : ∀ d ∈ cells, s.isHit path d = true →
      s.refcount d < intMax) :
    (s.lookup fuel path).isSome := by
  have hFind := @Chain.find_eq _ _ _ _ (s.isHit path) fuel hFuel
    hChain
  unfold DentryCache.lookup
  simp only [hFind]
  cases hFound : cells.find? (s.isHit path) with
  | none => rfl
  | some d =>
      have hLess := hMax d (List.mem_of_find?_eq_some hFound)
        (List.find?_some hFound)
      simp only [hLess, if_true, Option.isSome_some]

theorem DentryCells.found
    (hCells : DentryCells sys cells)
    {path : CString}
    (hCall : sys.cache.lookup fuel path.bytes = some (r, t))
    (d : Addr) :
    r = some d ↔ d ∈ cells ∧ sys.cache.name d = path.bytes := by
  have hFind := Chain.eq_of_find hCells.chain
    (cacheLookup_cases hCall).1
  rw [hFind]
  exact find?_eq_some_iff_name
    (fun d hd => hCells.hit_iff path hd) hCells.names d

theorem DentryCells.good
    (hCells : DentryCells sys cells) :
    DentryGood sys.cache cells where
  linked := hCells.linked
  nodup := hCells.nodup
  names := hCells.names
  count_eq := hCells.count_eq
  counted d hd := by
    have hHeld := (hCells.held_iff d).mpr hd
    rw [hCells.refcount_eq d hd]
    omega
  found _ _ _ _ hCall := hCells.found hCall
  returns _ _ hFuel hMax :=
    cacheLookup_returns hCells.chain hFuel fun d hd _ => hMax d hd

end Searches

--------------------
-- Taking A Dentry Off
--------------------

section Unlink

variable (s : DentryCache)
variable (d : Addr)

@[simp] theorem unlink_next :
    (s.unlink d).next = writeIf s.next (s.prev d) (s.next d) := by
  unfold DentryCache.unlink
  cases s.prev d <;> rfl

@[simp] theorem unlink_prev :
    (s.unlink d).prev = writeIf s.prev (s.next d) (s.prev d) := by
  unfold DentryCache.unlink
  cases hPrev : s.prev d with
  | none => simp [hPrev]
  | some q =>
      by_cases hEq : d = q
      · subst hEq
        simp [hPrev]
      · simp [hPrev, Function.update_of_ne hEq]

@[simp] theorem unlink_cache :
    (s.unlink d).cache =
      if s.prev d = none then s.next d else s.cache := by
  unfold DentryCache.unlink
  cases s.prev d <;> rfl

@[simp] theorem unlink_count :
    (s.unlink d).count = s.count - 1 := by
  unfold DentryCache.unlink
  cases s.prev d <;> rfl

@[simp] theorem unlink_name :
    (s.unlink d).name = s.name := by
  unfold DentryCache.unlink
  cases s.prev d <;> rfl

@[simp] theorem unlink_flags :
    (s.unlink d).flags = s.flags := by
  unfold DentryCache.unlink
  cases s.prev d <;> rfl

@[simp] theorem unlink_refcount :
    (s.unlink d).refcount = s.refcount := by
  unfold DentryCache.unlink
  cases s.prev d <;> rfl

@[simp] theorem unlink_heap :
    (s.unlink d).heap = s.heap := by
  unfold DentryCache.unlink
  cases s.prev d <;> rfl

end Unlink

--------------------
-- Steps
--------------------

variable {ret : Int}
variable {name : CString}

section Steps

variable {sys : DentrySys}
variable {cells : List Addr}
variable {t : DentryCache}
variable {d : Addr}

/- A hit adds to the count and to the references held. -/
theorem DentryCells.looked
    (hCells : DentryCells sys cells)
    {path : CString}
    (hCall : sys.cache.lookup fuel path.bytes = some (r, t)) :
    DentryCells ⟨t, heldAfterLookup sys r⟩ cells := by
  rcases (cacheLookup_cases hCall).2 with
    ⟨rfl, rfl⟩ | ⟨d, rfl, rfl⟩
  · exact hCells
  · have hd := ((hCells.found hCall d).mp rfl).1
    refine ⟨hCells.linked, hCells.nodup, hCells.names,
      hCells.no_nul, hCells.flags, hCells.count_eq, ?_, ?_,
      hCells.old⟩
    · intro e he
      have hRef := hCells.refcount_eq e he
      simp only [heldAfterLookup, Function.update_apply]
      by_cases hEq : e = d
      · subst hEq
        rw [if_pos rfl, if_pos rfl, hRef]
        rfl
      · rw [if_neg hEq, if_neg hEq, hRef]
    · intro e
      simp only [heldAfterLookup, Function.update_apply]
      by_cases hEq : e = d
      · subst hEq
        rw [if_pos rfl]
        exact iff_of_true (Nat.succ_pos _) hd
      · rw [if_neg hEq]
        exact hCells.held_iff e

/- A dentry is taken off, with all its references. -/
theorem DentryCells.unlinked
    (hCells : DentryCells sys cells)
    (hd : d ∈ cells)
    {refcount : Addr → Int}
    (hOther : ∀ e, e ≠ d → refcount e = sys.cache.refcount e)
    (puts : List Addr) :
    ∃ rest, DentryCells
      ⟨{ { sys.cache with refcount := refcount }.unlink d with
          puts := puts },
        Function.update sys.held d 0⟩ rest := by
  rcases List.append_of_mem hd with ⟨front, back, rfl⟩
  rcases hCells.linked with ⟨last, hList⟩
  have hMiddle := List.nodup_middle.mp hCells.nodup
  have hOut := (List.nodup_cons.mp hMiddle).1
  have hSub : (front ++ back).Sublist (front ++ d :: back) :=
    (List.sublist_cons_self d back).append_left front
  have hMem : ∀ e ∈ front ++ back, e ∈ front ++ d :: back :=
    fun e he => hSub.subset he
  have hNe : ∀ e ∈ front ++ back, e ≠ d := by
    rintro e he rfl
    exact hOut he
  refine ⟨front ++ back, ?_, hCells.nodup.sublist hSub, ?_, ?_,
    ?_, ?_, ?_, ?_, ?_⟩
  · simp only [unlink_next, unlink_prev, unlink_cache]
    exact ⟨_, hList.remove hCells.nodup
      (fun b _ => writeIf_apply _ _ _ b)
      (fun b _ => writeIf_apply _ _ _ b)⟩
  · simp only [unlink_name]
    exact hCells.names.sublist (hSub.map _)
  · intro e he
    simp only [unlink_name]
    exact hCells.no_nul e (hMem e he)
  · intro e he
    simp only [unlink_flags]
    exact hCells.flags e (hMem e he)
  · simp only [unlink_count]
    rw [hCells.count_eq]
    simp only [List.length_append, List.length_cons]
    omega
  · intro e he
    simp only [unlink_refcount]
    rw [hOther e (hNe e he), Function.update_of_ne (hNe e he)]
    exact hCells.refcount_eq e (hMem e he)
  · intro e
    have hHeld := hCells.held_iff e
    by_cases hEq : e = d
    · subst hEq
      simp only [Function.update_self]
      exact iff_of_false (Nat.lt_irrefl 0) hOut
    · simp only [Function.update_of_ne hEq]
      rw [hHeld]
      simp [hEq]
  · intro e he
    simp only [unlink_heap]
    exact hCells.old e (hMem e he)

theorem DentryCells.removed
    (hCells : DentryCells sys cells)
    (hHeld : sys.held d = 1) :
    ∃ rest, DentryCells
      ⟨sys.cache.remove d, Function.update sys.held d 0⟩ rest := by
  have hd : d ∈ cells :=
    (hCells.held_iff d).mp (by rw [hHeld]; exact Nat.one_pos)
  rcases hCells.unlinked hd (fun _ _ => rfl)
      (sys.cache.unlink d).puts with ⟨rest, hRest⟩
  exact ⟨rest, hRest⟩

theorem DentryCells.released
    (hCells : DentryCells sys cells)
    (hHeld : 0 < sys.held d) :
    ∃ rest, DentryCells
      ⟨sys.cache.release d,
        Function.update sys.held d (sys.held d - 1)⟩ rest := by
  have hd := (hCells.held_iff d).mp hHeld
  have hRef := hCells.refcount_eq d hd
  have hOther : ∀ e, e ≠ d →
      Function.update sys.cache.refcount d
          (sys.cache.refcount d - 1) e =
        sys.cache.refcount e :=
    fun e he => Function.update_of_ne he _ _
  unfold DentryCache.release
  simp only [Function.update_self]
  by_cases hLast : sys.held d = 1
  · have hZero : sys.cache.refcount d - 1 ≤ 0 := by
      rw [hRef, hLast]
      decide
    rw [if_pos hZero, hLast]
    exact hCells.unlinked hd hOther _
  · have hMore : ¬ sys.cache.refcount d - 1 ≤ 0 := by
      rw [hRef]
      omega
    rw [if_neg hMore]
    refine ⟨cells, hCells.linked, hCells.nodup, hCells.names,
      hCells.no_nul, hCells.flags, hCells.count_eq, ?_, ?_,
      hCells.old⟩
    · intro e he
      simp only [Function.update_apply]
      by_cases hEq : e = d
      · subst hEq
        rw [if_pos rfl, if_pos rfl, hRef]
        omega
      · rw [if_neg hEq, if_neg hEq]
        exact hCells.refcount_eq e he
    · intro e
      simp only [Function.update_apply]
      by_cases hEq : e = d
      · subst hEq
        rw [if_pos rfl]
        exact iff_of_true (by omega) hd
      · rw [if_neg hEq]
        exact hCells.held_iff e

/-
  No dentry with a reference is pruned, and with a turn for
  every dentry the walk ends.
-/
theorem prune_cases
    {p : Option Addr}
    (hChain : Chain s.next (s.link p) cells)
    (hCounted : ∀ d ∈ cells, 1 ≤ s.refcount d) :
    s.pruneFrom fuel p = some s ∨
      s.pruneFrom fuel p = none ∧ fuel ≤ cells.length := by
  induction fuel generalizing p cells with
  | zero => exact .inr ⟨rfl, Nat.zero_le _⟩
  | succ fuel ih =>
      unfold DentryCache.pruneFrom
      cases cells with
      | nil =>
          rw [Chain.nil_iff.mp hChain]
          exact .inl rfl
      | cons d cells =>
          rcases hChain with ⟨hLink, hRest⟩
          rw [hLink]
          dsimp only
          have hOne := hCounted d List.mem_cons_self
          rw [if_neg (show ¬ s.refcount d ≤ 0 by omega)]
          by_cases hFew : s.count ≤ (maxDentryCache / 2 : Nat)
          · rw [if_pos hFew]
            exact .inl rfl
          · rw [if_neg hFew]
            rcases ih (p := some d) hRest fun e he =>
                hCounted e (List.mem_cons_of_mem d he) with
              hSame | ⟨hNone, hFuel⟩
            · exact .inl hSame
            · exact .inr ⟨hNone, Nat.succ_le_succ hFuel⟩

/- A new dentry in front, with its initial reference -/
theorem DentryCells.inserted
    (hCells : DentryCells sys cells)
    (hName : name.bytes.length ≤ maxFilename)
    (hNew : ∀ d ∈ cells, sys.cache.name d ≠ name.bytes)
    {heap : Heap}
    (hHeap : sys.cache.heap.heapPtr.toNat <
      heap.heapPtr.toNat)
    (parent vnode : Option Addr) :
    DentryCells
      ⟨{ sys.cache with heap := heap }.insert
          sys.cache.heap.heapPtr parent name.bytes vnode,
        Function.update sys.held sys.cache.heap.heapPtr 1⟩
      (sys.cache.heap.heapPtr :: cells) := by
  generalize hD : sys.cache.heap.heapPtr = d at hHeap ⊢
  have hOut : d ∉ cells := by
    intro hMem
    have hOld := hCells.old d hMem
    rw [hD] at hOld
    omega
  have hNe : ∀ e ∈ cells, e ≠ d := by
    rintro e he rfl
    exact hOut he
  have hTake : name.bytes.take maxFilename = name.bytes :=
    List.take_of_length_le hName
  rcases hCells.linked with ⟨last, hList⟩
  have hHead : sys.cache.cache ≠ some d := by
    rw [hList.chain.head_eq]
    exact fun h => hOut (List.mem_of_mem_head? h)
  have hKept : cells.map (Function.update sys.cache.name d
        name.bytes) =
      cells.map sys.cache.name :=
    List.map_congr_left
      fun e he => Function.update_of_ne (hNe e he) _ _
  unfold DentryCache.insert
  rw [hTake]
  refine ⟨?_, List.nodup_cons.mpr ⟨hOut, hCells.nodup⟩, ?_, ?_,
    ?_, ?_, ?_, ?_, ?_⟩
  · refine hList.push hOut hCells.nodup ?_ ?_ ?_ ?_
    · exact Function.update_self _ _ _
    · simp only [writeIf_apply, if_neg hHead,
        Function.update_self]
    · intro b hb
      exact Function.update_of_ne hb _ _
    · intro b hb
      simp only [writeIf_apply, Function.update_of_ne hb]
  · simp only [List.map_cons, Function.update_self, hKept]
    refine List.nodup_cons.mpr ⟨?_, hCells.names⟩
    intro hMem
    rcases List.mem_map.mp hMem with ⟨e, he, hSame⟩
    exact hNew e he hSame
  · intro e he
    rcases List.mem_cons.mp he with rfl | he
    · simp only [Function.update_self]
      exact name.no_nul
    · simp only [Function.update_of_ne (hNe e he)]
      exact hCells.no_nul e he
  · intro e he
    rcases List.mem_cons.mp he with rfl | he
    · exact Function.update_self _ _ _
    · simp only [Function.update_of_ne (hNe e he)]
      exact hCells.flags e he
  · simp only [List.length_cons, hCells.count_eq]
    rfl
  · intro e he
    rcases List.mem_cons.mp he with rfl | he
    · simp only [Function.update_self]
      rfl
    · simp only [Function.update_of_ne (hNe e he)]
      exact hCells.refcount_eq e he
  · intro e
    by_cases hEq : e = d
    · subst hEq
      simp
    · simp only [Function.update_of_ne hEq, hCells.held_iff e,
        List.mem_cons, hEq, false_or]
  · intro e he
    rcases List.mem_cons.mp he with rfl | he
    · exact hHeap
    · have hOld := hCells.old e he
      rw [hD] at hOld
      exact Nat.lt_trans hOld hHeap

/- The end of `dentry_add`: nothing is pruned. -/
theorem DentryCells.add_end
    {c : DentryCache}
    {held : Addr → Nat}
    {res : Option (Int × DentryCache)}
    (hCells : DentryCells ⟨c, held⟩ cells)
    (hRes : res =
      if (maxDentryCache : Int) < c.count then
        (c.prune fuel).map fun c => (0, c)
      else some (0, c)) :
    res = some (0, c) ∨ res = none ∧ fuel ≤ cells.length := by
  rw [hRes]
  by_cases hMany : (maxDentryCache : Int) < c.count
  · rw [if_pos hMany, DentryCache.prune]
    rcases prune_cases (p := none) hCells.chain
        hCells.good.counted with
      hSame | ⟨hNone, hFuel⟩
    · rw [hSame]
      exact .inl rfl
    · rw [hNone]
      exact .inr ⟨rfl, hFuel⟩
  · rw [if_neg hMany]
    exact .inl rfl

/-
  The name is there, memory is short, or a dentry is added. A
  call with a turn for every dentry returns.
-/
theorem DentryCells.add_cases
    (hCells : DentryCells sys cells)
    (hName : name.bytes.length ≤ maxFilename) :
    (sys.cache.add fuel parent name.bytes vnode = none ∧
        fuel ≤ cells.length + 1) ∨
      ∃ ret t,
        sys.cache.add fuel parent name.bytes vnode =
          some (ret, t) ∧
        ((∃ d ∈ cells, sys.cache.name d = name.bytes) ∧
            ret = -1 ∧ t = sys.cache ∨
          (∀ d ∈ cells, sys.cache.name d ≠ name.bytes) ∧
            (kmalloc sys.cache.heap sizeofDentry =
                  (none, sys.cache.heap) ∧
                ret = -1 ∧ t = sys.cache ∨
              ∃ heap,
                kmalloc sys.cache.heap sizeofDentry =
                  (some sys.cache.heap.heapPtr, heap) ∧
                ret = 0 ∧
                t = { sys.cache with heap := heap }.insert
                  sys.cache.heap.heapPtr parent name.bytes
                  vnode ∧
                DentryCells ⟨t, heldAfterAdd sys ret⟩
                  (sys.cache.heap.heapPtr :: cells))) := by
  have hSame {d : Addr} (hd : d ∈ cells) :
      strcmp (sys.cache.name d) name.bytes = 0 ↔
        sys.cache.name d = name.bytes :=
    strcmp_eq_zero (hCells.no_nul d hd) name.no_nul
  unfold DentryCache.add
  generalize hHit : (fun d =>
    decide (strcmp (sys.cache.name d) name.bytes = 0)) = hit
  cases hFind : Chain.find hit sys.cache.next fuel
      sys.cache.cache with
  | none =>
      refine .inl ⟨by simp only [hFind], ?_⟩
      by_contra hMore
      rw [Chain.find_eq (by omega) hCells.chain] at hFind
      cases hFind
  | some found =>
      have hFound := Chain.eq_of_find hCells.chain hFind
      subst hHit
      simp only [hFind]
      cases found with
      | some d =>
          have hMem := List.mem_of_find?_eq_some hFound.symm
          have hEq := List.find?_some hFound.symm
          exact .inr ⟨_, _, rfl, .inl ⟨⟨d, hMem,
            (hSame hMem).mp (of_decide_eq_true hEq)⟩, rfl, rfl⟩⟩
      | none =>
          have hNew : ∀ d ∈ cells,
              sys.cache.name d ≠ name.bytes := by
            intro d hd hEq
            have hMiss := List.find?_eq_none.mp hFound.symm d hd
            exact hMiss (decide_eq_true ((hSame hd).mpr hEq))
          dsimp only
          cases hAlloc : kmalloc sys.cache.heap sizeofDentry with
          | mk p heap =>
              cases p with
              | none =>
                  rw [kmalloc_none hAlloc]
                  exact .inr ⟨_, _, rfl,
                    .inr ⟨hNew, .inl ⟨rfl, rfl, rfl⟩⟩⟩
              | some d =>
                  rcases kmalloc_some hAlloc with
                    ⟨rfl, _, _, hPtr⟩
                  have hGrows : sys.cache.heap.heapPtr.toNat <
                      heap.heapPtr.toNat := by
                    rw [hPtr]
                    exact Nat.lt_add_of_pos_right (by decide)
                  have hAfter := hCells.inserted hName hNew
                    hGrows parent vnode
                  rcases hAfter.add_end rfl with
                    hEnd | ⟨hEnd, hFuel⟩
                  · exact .inr ⟨_, _, hEnd, .inr ⟨hNew, .inr
                      ⟨heap, rfl, rfl, rfl, hAfter⟩⟩⟩
                  · exact .inl ⟨hEnd, hFuel⟩

theorem DentryCells.added
    (hCells : DentryCells sys cells)
    (hName : name.bytes.length ≤ maxFilename)
    (hCall : sys.cache.add fuel parent name.bytes vnode =
      some (ret, t)) :
    ∃ more, DentryCells ⟨t, heldAfterAdd sys ret⟩ more := by
  rcases hCells.add_cases hName with
    ⟨hNone, _⟩ | ⟨ret', t', hSome, hCases⟩
  · rw [hNone] at hCall
    cases hCall
  rw [hSome] at hCall
  cases hCall
  rcases hCases with
    ⟨_, rfl, rfl⟩ |
      ⟨_, ⟨_, rfl, rfl⟩ | ⟨_, _, _, _, hAfter⟩⟩
  · exact ⟨cells, hCells⟩
  · exact ⟨cells, hCells⟩
  · exact ⟨_, hAfter⟩

theorem dentryStep_holds
    {call : DentryCall}
    {sys' : DentrySys}
    (hHolds : ∃ cells, DentryCells sys cells)
    (hStep : DentryStep sys call sys') :
    ∃ cells, DentryCells sys' cells := by
  rcases hHolds with ⟨cells, hCells⟩
  cases hStep with
  | add hName hCall => exact hCells.added hName hCall
  | lookup hCall => exact ⟨cells, hCells.looked hCall⟩
  | release hHeld => exact hCells.released hHeld
  | remove hHeld => exact hCells.removed hHeld

end Steps

--------------------
-- The List Of Dentries
--------------------

/- What `VfsState` keeps of a dentry -/
def DentryCache.entry
    (s : DentryCache)
    (d : Addr) :
    Dentry :=
  ⟨s.name d, s.vnode d, s.flags d, s.refcount d⟩

theorem isHit_entry
    (s : DentryCache)
    (path : List U8)
    (d : Addr) :
    (s.entry d).isHit path = s.isHit path d := by
  rw [Bool.eq_iff_iff, DentryCache.isHit, Bool.and_eq_true,
    decide_eq_true_eq, decide_eq_true_eq]
  exact decide_eq_true_iff

/- Dentries that are no hit are passed. -/
theorem dentryLookup_append
    {before : List Dentry}
    (hMiss : ∀ d ∈ before, d.isHit path = false)
    (after : List Dentry) :
    dentryLookup path (before ++ after) =
      ((dentryLookup path after).1,
        before ++ (dentryLookup path after).2) := by
  induction before with
  | nil => rfl
  | cons d before ih =>
      have hRest := ih fun e he =>
        hMiss e (List.mem_cons_of_mem d he)
      have hNot : ¬ d.isHit path = true := by
        rw [hMiss d List.mem_cons_self]
        exact Bool.false_ne_true
      rw [List.cons_append]
      simp only [dentryLookup, if_neg hNot, hRest,
        List.cons_append]

/- A search in the links that ends is the one in the list. -/
theorem cacheLookup_entries
    (hChain : Chain s.next s.cache cells)
    (hNodup : cells.Nodup)
    (hCall : s.lookup fuel path = some (r, t)) :
    dentryLookup path (cells.map s.entry) =
      (r.map t.entry, cells.map t.entry) := by
  rcases cacheLookup_cases hCall with ⟨hFind, hAfter⟩
  have hFound := Chain.eq_of_find hChain hFind
  rcases hAfter with ⟨rfl, rfl⟩ | ⟨d, rfl, rfl⟩
  · have hMiss : ∀ e ∈ cells.map t.entry,
        e.isHit path = false := by
      intro e he
      rcases List.mem_map.mp he with ⟨a, ha, rfl⟩
      rw [isHit_entry]
      exact Bool.eq_false_iff.mpr
        (List.find?_eq_none.mp hFound.symm a ha)
    have hAll := dentryLookup_append hMiss []
    rw [List.append_nil] at hAll
    rw [hAll]
    simp [dentryLookup]
  · rcases List.find?_eq_some_iff_append.mp hFound.symm with
      ⟨hHit, before, after, rfl, hBefore⟩
    have hMiss : ∀ e ∈ before.map s.entry,
        e.isHit path = false := by
      intro e he
      rcases List.mem_map.mp he with ⟨a, ha, rfl⟩
      rw [isHit_entry]
      simpa using hBefore a ha
    have hApart := List.nodup_middle.mp hNodup
    have hOut := (List.nodup_cons.mp hApart).1
    -- only the count of the dentry that was found is another
    have hKeep (ds : List Addr) (hds : ds ⊆ before ++ after) :
        ds.map (DentryCache.entry
            { s with
              refcount := Function.update s.refcount d
                (s.refcount d + 1) }) =
          ds.map s.entry := by
      refine List.map_congr_left fun e he => ?_
      have hNe : e ≠ d := by
        rintro rfl
        exact hOut (hds he)
      simp only [DentryCache.entry, Function.update_of_ne hNe]
    rw [List.map_append, dentryLookup_append hMiss, List.map_cons]
    unfold dentryLookup
    rw [isHit_entry, if_pos hHit, List.map_append,
      List.map_cons, hKeep before (List.subset_append_left _ _),
      hKeep after (List.subset_append_right _ _)]
    simp [DentryCache.entry]

/-
  The search in the links ends and is the one in the list,
  while the dentry of that name can still be counted.
-/
theorem cacheLookup_refines
    {s : DentryCache}
    {cells : List Addr}
    {fuel : Nat}
    {path : List U8}
    (hChain : Chain s.next s.cache cells)
    (hNodup : cells.Nodup)
    (hFuel : cells.length < fuel)
    (hMax : ∀ d ∈ cells, s.isHit path d = true →
      s.refcount d < intMax) :
    ∃ r t, s.lookup fuel path = some (r, t) ∧
      dentryLookup path (cells.map s.entry) =
        (r.map t.entry, cells.map t.entry) := by
  rcases Option.isSome_iff_exists.mp
      (cacheLookup_returns hChain hFuel hMax) with
    ⟨⟨r, t⟩, hCall⟩
  exact ⟨r, t, hCall, cacheLookup_entries hChain hNodup hCall⟩

/- A list of dentries with references is not pruned. -/
theorem dentryPrune_eq
    {dentries : List Dentry}
    (hCounted : ∀ d ∈ dentries, 1 ≤ d.refcount)
    (count : Int) :
    dentryPrune dentries count = (dentries, count) := by
  induction dentries with
  | nil => rfl
  | cons d ds ih =>
      have hOne := hCounted d List.mem_cons_self
      have hRest := ih fun e he =>
        hCounted e (List.mem_cons_of_mem d he)
      have hUsed : ¬ d.refcount ≤ 0 := by omega
      simp only [dentryPrune, if_neg hUsed, hRest, ite_self]

/- The call returns, and the list is that of the links. -/
theorem DentryCells.add_refines
    {sys : DentrySys}
    {cells : List Addr}
    (hCells : DentryCells sys cells)
    {W : Type}
    {s : VfsState W}
    {fuel : Nat}
    {parent vnode : Option Addr}
    {name : CString}
    (hName : name.bytes.length ≤ maxFilename)
    (hFuel : cells.length + 1 < fuel)
    (hList : s.dentries = cells.map sys.cache.entry)
    (hCount : s.dentryCount = sys.cache.count)
    (hHeap : s.kernel.heap = sys.cache.heap) :
    let s' := dentryAdd s name.bytes vnode
    ∃ ret t more,
      sys.cache.add fuel parent name.bytes vnode =
        some (ret, t) ∧
      DentryCells ⟨t, heldAfterAdd sys ret⟩ more ∧
      s'.dentries = more.map t.entry ∧
      s'.dentryCount = t.count ∧ s'.kernel.heap = t.heap := by
  dsimp only
  have hAny : (s.dentries.any fun d =>
        decide (strcmp d.name name.bytes = 0)) = true ↔
      ∃ d ∈ cells, sys.cache.name d = name.bytes := by
    rw [hList, List.any_map, List.any_eq_true]
    refine exists_congr fun d => and_congr_right fun hd => ?_
    rw [Function.comp_apply, decide_eq_true_eq]
    exact strcmp_eq_zero (hCells.no_nul d hd) name.no_nul
  unfold dentryAdd
  rw [hHeap]
  have hOutcome :
      (sys.cache.add fuel parent name.bytes vnode = none ∧ _) ∨
        _ :=
    hCells.add_cases hName
  rcases hOutcome with ⟨_, hFew⟩ | ⟨ret, t, hCall, hCases⟩
  · omega
  refine ⟨ret, t, ?_⟩
  rcases hCases with
    ⟨hSame, rfl, rfl⟩ |
      ⟨hNew, ⟨hAlloc, rfl, rfl⟩ |
        ⟨heap, hAlloc, rfl, rfl, hAfter⟩⟩
  · rw [if_pos (hAny.mpr hSame)]
    exact ⟨cells, hCall, hCells, hList, hCount, hHeap⟩
  · have hNone : ¬ ∃ d ∈ cells, sys.cache.name d = name.bytes :=
      fun ⟨d, hd, hEq⟩ => hNew d hd hEq
    rw [if_neg (mt hAny.mp hNone), hAlloc]
    exact ⟨cells, hCall, hCells, hList, hCount, rfl⟩
  · have hNone : ¬ ∃ d ∈ cells, sys.cache.name d = name.bytes :=
      fun ⟨d, hd, hEq⟩ => hNew d hd hEq
    rw [if_neg (mt hAny.mp hNone), hAlloc]
    generalize hd : sys.cache.heap.heapPtr = d at hCall hAfter
    have hOut := (List.nodup_cons.mp hAfter.nodup).1
    let t := { sys.cache with heap := heap }.insert d parent
      name.bytes vnode
    have hOld : cells.map sys.cache.entry =
        cells.map t.entry := by
      refine List.map_congr_left fun e he => ?_
      have hNe : e ≠ d := by
        rintro rfl
        exact hOut he
      simp [t, DentryCache.entry, DentryCache.insert, hNe]
    have hEntries :
        { name := name.bytes.take maxFilename
          vnode := vnode
          flags := 0#32
          refcount := 1 } :: s.dentries =
          (d :: cells).map t.entry := by
      rw [hList, hOld]
      simp [t, DentryCache.entry, DentryCache.insert]
    have hCounted : ∀ e ∈ (d :: cells).map t.entry,
        1 ≤ e.refcount := by
      intro e he
      rcases List.mem_map.mp he with ⟨a, ha, rfl⟩
      exact hAfter.good.counted a ha
    dsimp only
    rw [hEntries, dentryPrune_eq hCounted, ite_self, hCount]
    exact ⟨_, hCall, hAfter, rfl, rfl, rfl⟩

--------------------
-- Runs From Boot
--------------------

theorem dentryBooted_holds
    (memory : DentryCache) :
    ∃ cells, DentryCells (dentryBooted memory) cells := by
  refine ⟨[], ⟨none, rfl, rfl⟩, List.nodup_nil, List.nodup_nil,
    nofun, nofun, rfl, nofun, ?_, nofun⟩
  intro d
  exact iff_of_false (Nat.lt_irrefl 0) nofun

/-
  After every run from `dentry_cache_init` the cache is a
  list in good order, and lookups find what is in it.
-/
theorem dentryRun_good
    {memory : DentryCache}
    {calls : List DentryCall}
    {sys : DentrySys}
    (hRun : Run DentryStep (dentryBooted memory) calls sys) :
    ∃ cells, DentryGood sys.cache cells := by
  have hHolds := hRun.invariant
    (fun sys => ∃ cells, DentryCells sys cells)
    (fun _ _ _ hHolds hStep => dentryStep_holds hHolds hStep)
    (dentryBooted_holds memory)
  rcases hHolds with ⟨cells, hCells⟩
  exact ⟨cells, hCells.good⟩

/- Memory before anything is cached -/
def blankDentries : DentryCache where
  name := fun _ => []
  vnode := fun _ => none
  parent := fun _ => none
  next := fun _ => none
  prev := fun _ => none
  flags := fun _ => 0#32
  refcount := fun _ => 0
  cache := none
  count := 0
  heap := Heap.initial
  puts := []

theorem fewNames_noNul :
    0#8 ∉ [0x61#8] ∧ 0#8 ∉ [0x62#8] := by
  decide

/- Two names are added, one is found, the other let go. -/
def fewDentryCalls : List DentryCall :=
  [.add none ⟨[0x61#8], fewNames_noNul.1⟩ none,
    .add none ⟨[0x62#8], fewNames_noNul.2⟩ (some 0x9000#64),
    .lookup ⟨[0x61#8], fewNames_noNul.1⟩,
    .release 0x200140#64]

theorem dentryRun_good_few :
    ∃ sys cells,
      Run DentryStep (dentryBooted blankDentries)
        fewDentryCalls sys ∧
      sys.cache.puts = [0x9000#64] ∧
      DentryGood sys.cache cells := by
  have hRun :
      Run DentryStep (dentryBooted blankDentries)
        fewDentryCalls _ :=
    .cons (@DentryStep.add _ _ _ _ _ 3 0 (by decide) rfl)
      (.cons (@DentryStep.add _ _ _ _ _ 3 0 (by decide) rfl)
        (.cons (@DentryStep.lookup _ _ _ 3 _ rfl)
          (.cons (.release (by decide)) (.nil _))))
  rcases dentryRun_good hRun with ⟨cells, hGood⟩
  exact ⟨_, cells, hRun, rfl, hGood⟩

/- The cache with two names, the second in front -/
def twoDentries : DentryCache :=
  (blankDentries.insert 0x1000#64 none [0x61#8] none).insert
    0x2000#64 none [0x62#8] none

/- The name behind the first dentry is found. -/
theorem cacheLookup_refines_second :
    ∃ r t,
      twoDentries.lookup 3 [0x61#8] = some (r, t) ∧
      dentryLookup [0x61#8]
          ([0x2000#64, 0x1000#64].map twoDentries.entry) =
        (r.map t.entry,
          [0x2000#64, 0x1000#64].map t.entry) := by
  refine cacheLookup_refines ⟨rfl, rfl, rfl⟩ (by decide)
    (by decide) ?_
  intro d hd _
  have hOne : twoDentries.refcount d = 1 := by
    rcases List.mem_pair.mp hd with rfl | rfl
    · rfl
    · rfl
  rw [hOne]
  decide

/- A third name, in the links and in the list -/
theorem add_refines_third :
    ∃ (sys : DentrySys) (s : VfsState Unit) (ret : Int)
      (t : DentryCache) (more : List Addr),
      Run DentryStep (dentryBooted blankDentries)
        fewDentryCalls.dropLast sys ∧
      sys.cache.add 4 none [0x63#8] none = some (ret, t) ∧
      (dentryAdd s [0x63#8] none).dentries =
        more.map t.entry := by
  have hRun :
      Run DentryStep (dentryBooted blankDentries)
        fewDentryCalls.dropLast _ :=
    .cons (@DentryStep.add _ _ _ _ _ 3 0 (by decide) rfl)
      (.cons (@DentryStep.add _ _ _ _ _ 3 0 (by decide) rfl)
        (.cons (@DentryStep.lookup _ _ _ 3 _ rfl) (.nil _)))
  generalize hSys : DentrySys.mk _ _ = sys at hRun
  rcases hRun.invariant (fun sys => ∃ cells, DentryCells sys cells)
      (fun _ _ _ hHolds hStep => dentryStep_holds hHolds hStep)
      (dentryBooted_holds blankDentries) with
    ⟨cells, hCells⟩
  have hLength : cells.length = 2 := by
    have hCount := hCells.count_eq
    rw [← hSys] at hCount
    exact Int.ofNat_inj.mp (hCount.symm.trans rfl)
  let s : VfsState Unit :=
    ⟨[], [], 0, cells.map sys.cache.entry, sys.cache.count,
      none, [],
      ⟨fun _ => ⟨0#32, none, 0⟩, sys.cache.heap, ()⟩, [], 0#64,
      0#64, 0#64⟩
  rcases @DentryCells.add_refines sys cells hCells _ s 4 none none
      ⟨[0x63#8], by decide⟩ (by decide) (by omega) rfl rfl rfl with
    ⟨ret, t, more, hCall, _, hSame, _⟩
  exact ⟨sys, s, ret, t, more, hRun, hCall, hSame⟩

end FeatherOS
