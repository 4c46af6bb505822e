import Mathlib.Data.List.Basic
import Mathlib.Logic.Function.Basic

/-
  Radix tables in a mutable memory.

  A memory maps a frame and an index to an entry, and `next`
  tells which frame an entry leads to, if any. A path is a
  list of indices; walking it from a root frame ends in a
  table or nowhere. In a separated memory no frame serves as
  a table on two paths, so a write to one table can change
  only the walks that pass through that very entry.

  Key definitions include:
    * `RadixTable.walk`
    * `RadixTable.IsTable`
    * `RadixTable.Separated`
    * `RadixTable.lookup`
    * `RadixTable.Links`

  Key rules include:
    * `RadixTable.walk_congr`
    * `RadixTable.lookup_fill`
    * `RadixTable.Separated.walk_write`
    * `RadixTable.Separated.lookup_write_leaf`
    * `RadixTable.Links.lookup_after`
-/

namespace RadixTable

variable {F I E : Type}
variable [DecidableEq F] [DecidableEq I]

--------------------
-- Writes
--------------------

/- Writing one entry. -/
def write
    (mem : F → I → E)
    (f : F)
    (i : I)
    (e : E) :
    F → I → E :=
  Function.update mem f (Function.update (mem f) i e)

/- Filling a whole frame. -/
def fill
    (mem : F → I → E)
    (f : F)
    (e : E) :
    F → I → E :=
  Function.update mem f (fun _ => e)

theorem write_here
    (mem : F → I → E)
    (f : F)
    (i : I)
    (e : E) :
    write mem f i e f i = e := by
  simp [write]

variable {mem : F → I → E}

theorem write_other
    {f g : F}
    {i j : I}
    {e : E}
    (hNe : ¬ (g = f ∧ j = i)) :
    write mem f i e g j = mem g j := by
  unfold write
  by_cases hg : g = f
  · subst hg
    have hj : j ≠ i := fun h => hNe ⟨rfl, h⟩
    simp [hj]
  · simp [hg]

omit [DecidableEq I] in
theorem fill_here
    (mem : F → I → E)
    (f : F)
    (e : E)
    (i : I) :
    fill mem f e f i = e := by
  simp [fill]

omit [DecidableEq I] in
theorem fill_other
    {f g : F}
    {e : E}
    (hNe : g ≠ f)
    (i : I) :
    fill mem f e g i = mem g i := by
  simp [fill, hNe]

--------------------
-- Walks
--------------------

variable (next : E → Option F)

/- The table at the end of a path. -/
def walk
    (mem : F → I → E) :
    F → List I → Option F
  | f, [] => some f
  | f, i :: path =>
      match next (mem f i) with
      | none => none
      | some g => walk mem g path

omit [DecidableEq F] [DecidableEq I] in
theorem walk_append
    (mem : F → I → E)
    (f : F)
    (p q : List I) :
    walk next mem f (p ++ q) =
      (walk next mem f p).bind
        (fun g => walk next mem g q) := by
  induction p generalizing f with
  | nil => rfl
  | cons i p ih =>
      simp only [List.cons_append, walk]
      cases next (mem f i) with
      | none => rfl
      | some g => exact ih g

/- The first step from a table where all links are known -/
variable {path : List I}

omit [DecidableEq F] [DecidableEq I] in
theorem walk_first
    {f frame : F}
    {p : I → Prop}
    [DecidablePred p]
    {g : I → F}
    (hNext : ∀ i,
      next (mem f i) = if p i then some (g i) else none)
    (hWalk : walk next mem f path = some frame) :
    (path = [] ∧ frame = f) ∨
      ∃ i rest, path = i :: rest ∧ p i ∧
        walk next mem (g i) rest = some frame := by
  cases path with
  | nil => exact .inl ⟨rfl, (Option.some.inj hWalk).symm⟩
  | cons i rest =>
      rw [walk, hNext] at hWalk
      by_cases hHere : p i
      · rw [if_pos hHere] at hWalk
        exact .inr ⟨i, rest, rfl, hHere, hWalk⟩
      · rw [if_neg hHere] at hWalk
        cases hWalk

/- The last step of a walk -/
omit [DecidableEq F] [DecidableEq I] in
theorem walk_snoc
    {root f : F}
    (hAt : walk next mem root path = some f)
    (i : I) :
    walk next mem root (path ++ [i]) = next (mem f i) := by
  rw [walk_append, hAt, Option.bind_some]
  simp only [walk]
  cases next (mem f i) with
  | none => rfl
  | some g => rfl

/-
  A walk reads one entry of every table it passes; memories
  that agree there agree on the walk.
-/
omit [DecidableEq F] [DecidableEq I] in
theorem walk_congr
    {mem mem' : F → I → E}
    {root : F}
    (hAgree : ∀ p i q f, path = p ++ i :: q →
      walk next mem root p = some f → mem' f i = mem f i) :
    walk next mem' root path = walk next mem root path := by
  induction path generalizing root with
  | nil => rfl
  | cons i path ih =>
      have hHead : mem' root i = mem root i :=
        hAgree [] i path root rfl rfl
      simp only [walk, hHead]
      cases hNext : next (mem root i) with
      | none => rfl
      | some g =>
          apply ih
          intro p j q f hPath hWalk
          apply hAgree (i :: p) j q f
          · rw [hPath, List.cons_append]
          · simpa [walk, hNext] using hWalk

/- The frames that are tables at most `depth` steps down. -/
def IsTable
    (mem : F → I → E)
    (root : F)
    (depth : Nat)
    (f : F) : Prop :=
  ∃ p, p.length ≤ depth ∧ walk next mem root p = some f

/- No frame is a table on two paths. -/
def Separated
    (mem : F → I → E)
    (root : F)
    (depth : Nat) : Prop :=
  ∀ p q f, p.length ≤ depth → q.length ≤ depth →
    walk next mem root p = some f →
    walk next mem root q = some f → p = q

/-
  The entry that a path and a last index select, where the
  walk gets there and the entry is present.
-/
def lookup
    (present : E → Bool)
    (mem : F → I → E)
    (root : F)
    (path : List I)
    (i : I) : Option E :=
  match walk next mem root path with
  | none => none
  | some f => if present (mem f i) then some (mem f i) else none

section Updates

variable {next}
variable {present : E → Bool}
variable {mem : F → I → E}
variable {root f g : F}
variable {depth : Nat}
variable {p : List I}
variable {i : I}
variable {e z : E}

--------------------
-- Filling A Frame That Is No Table
--------------------

variable {q : List I}

omit [DecidableEq I] in
theorem walk_fill
    (hFresh : ¬ IsTable next mem root depth g)
    (hLen : q.length ≤ depth) :
    walk next (fill mem g z) root q = walk next mem root q := by
  apply walk_congr
  intro p j r f hPath hWalk
  apply fill_other
  intro hEq
  apply hFresh
  refine ⟨p, ?_, hEq ▸ hWalk⟩
  rw [hPath, List.length_append] at hLen
  omega

omit [DecidableEq I] in
theorem isTable_fill_iff
    (hFresh : ¬ IsTable next mem root depth g)
    (f : F) :
    IsTable next (fill mem g z) root depth f ↔
      IsTable next mem root depth f := by
  constructor
  · intro h
    rcases h with ⟨q, hLen, hWalk⟩
    exact ⟨q, hLen, (walk_fill hFresh hLen) ▸ hWalk⟩
  · intro h
    rcases h with ⟨q, hLen, hWalk⟩
    exact ⟨q, hLen, (walk_fill hFresh hLen).trans hWalk⟩

omit [DecidableEq I] in
theorem Separated.fill
    (hSep : Separated next mem root depth)
    (hFresh : ¬ IsTable next mem root depth g) :
    Separated next (fill mem g z) root depth := by
  intro q r f hq hr hWalkQ hWalkR
  rw [walk_fill hFresh hq] at hWalkQ
  rw [walk_fill hFresh hr] at hWalkR
  exact hSep q r f hq hr hWalkQ hWalkR

omit [DecidableEq I] in
theorem lookup_fill
    (hFresh : ¬ IsTable next mem root depth g)
    (hLen : q.length ≤ depth)
    (j : I) :
    lookup next present (fill mem g z) root q j =
      lookup next present mem root q j := by
  unfold lookup
  rw [walk_fill hFresh hLen]
  cases hWalk : walk next mem root q with
  | none => rfl
  | some f =>
      have hNe : f ≠ g := by
        intro hEq
        exact hFresh ⟨q, hLen, hEq ▸ hWalk⟩
      simp only [fill_other hNe]

--------------------
-- Writing One Entry Of A Table
--------------------

/- Walks that do not pass through the entry are unchanged. -/
theorem Separated.walk_write
    (hSep : Separated next mem root depth)
    (hAt : walk next mem root p = some f)
    (hp : p.length ≤ depth)
    (hq : q.length ≤ depth)
    (hOff : ∀ r, q ≠ p ++ i :: r) :
    walk next (write mem f i e) root q =
      walk next mem root q := by
  apply walk_congr
  intro a j r h hPath hWalk
  apply write_other
  intro hEq
  rcases hEq with ⟨rfl, rfl⟩
  have hLen : a.length ≤ depth := by
    rw [hPath, List.length_append] at hq
    omega
  have hSame := hSep a p h hLen hp hWalk hAt
  exact hOff r (hSame ▸ hPath)

/- Walks through the entry go on from where it leads now. -/
theorem Separated.walk_write_through
    (hSep : Separated next mem root depth)
    (hAt : walk next mem root p = some f)
    (hp : p.length ≤ depth)
    (r : List I) :
    walk next (write mem f i e) root (p ++ i :: r) =
      match next e with
      | none => none
      | some g => walk next (write mem f i e) g r := by
  have hHere :
      walk next (write mem f i e) root p = some f := by
    rw [hSep.walk_write hAt hp hp, hAt]
    intro r hEq
    have hLen := congrArg List.length hEq
    simp at hLen
  rw [walk_append, hHere]
  simp only [Option.bind_some, walk, write_here]

/- At the last level no walk passes through the entry. -/
theorem Separated.walk_write_leaf
    (hSep : Separated next mem root depth)
    (hAt : walk next mem root p = some f)
    (hp : p.length = depth)
    (hq : q.length ≤ depth) :
    walk next (write mem f i e) root q =
      walk next mem root q := by
  apply hSep.walk_write hAt (by omega) hq
  intro r hEq
  have hLen := congrArg List.length hEq
  simp at hLen
  omega

theorem Separated.write_leaf
    (hSep : Separated next mem root depth)
    (hAt : walk next mem root p = some f)
    (hp : p.length = depth) :
    Separated next (write mem f i e) root depth := by
  intro q r h hq hr hWalkQ hWalkR
  rw [hSep.walk_write_leaf hAt hp hq] at hWalkQ
  rw [hSep.walk_write_leaf hAt hp hr] at hWalkR
  exact hSep q r h hq hr hWalkQ hWalkR

/- A write at the last level changes one selection. -/
theorem Separated.lookup_write_leaf
    (hSep : Separated next mem root depth)
    (hAt : walk next mem root p = some f)
    (hp : p.length = depth)
    (hq : q.length ≤ depth)
    (j : I) :
    lookup next present (write mem f i e) root q j =
      if q = p ∧ j = i then
        if present e then some e else none
      else
        lookup next present mem root q j := by
  unfold lookup
  rw [hSep.walk_write_leaf hAt hp hq]
  by_cases hHere : q = p ∧ j = i
  · rcases hHere with ⟨rfl, rfl⟩
    simp [hAt, write_here]
  · rw [if_neg hHere]
    cases hWalk : walk next mem root q with
    | none => rfl
    | some h =>
        have hOther : ¬ (h = f ∧ j = i) := by
          intro hEq
          rcases hEq with ⟨rfl, rfl⟩
          exact hHere
            ⟨hSep q p h hq (by omega) hWalk hAt, rfl⟩
        simp only [write_other hOther]

--------------------
-- Linking An Empty Frame
--------------------

/-
  `f` is the table at `p`, its entry `i` leads nowhere, `g`
  is no table and holds only `z`, and `e` leads to `g`.
-/
structure Links
    (next : E → Option F)
    (mem : F → I → E)
    (root : F)
    (depth : Nat)
    (p : List I)
    (f : F)
    (i : I)
    (e : E)
    (g : F)
    (z : E) : Prop where
  separated : Separated next mem root depth
  at_path : walk next mem root p = some f
  length_lt : p.length < depth
  empty : next (mem f i) = none
  fresh : ¬ IsTable next mem root depth g
  blank : ∀ j, mem g j = z
  next_z : next z = none
  next_e : next e = some g

namespace Links

variable (hLinks : Links next mem root depth p f i e g z)

include hLinks

omit [DecidableEq F] [DecidableEq I] in
theorem ne : g ≠ f := by
  intro hEq
  exact hLinks.fresh
    ⟨p, Nat.le_of_lt hLinks.length_lt, hEq ▸ hLinks.at_path⟩

/- Walks before the new link. -/
theorem walk_off
    (hq : q.length ≤ depth)
    (hOff : q ≠ p ++ [i]) :
    walk next (write mem f i e) root q =
      walk next mem root q := by
  by_cases hThrough : ∃ r, q = p ++ i :: r
  · rcases hThrough with ⟨r, rfl⟩
    cases r with
    | nil => exact absurd rfl hOff
    | cons j r =>
        have hBlank : write mem f i e g j = z := by
          rw [write_other, hLinks.blank]
          intro hEq
          exact hLinks.ne hEq.1
        rw [hLinks.separated.walk_write_through
          hLinks.at_path (Nat.le_of_lt hLinks.length_lt),
          hLinks.next_e, walk_append, hLinks.at_path]
        simp [walk, hBlank, hLinks.next_z, hLinks.empty]
  · apply hLinks.separated.walk_write hLinks.at_path
      (Nat.le_of_lt hLinks.length_lt) hq
    intro r hEq
    exact hThrough ⟨r, hEq⟩

/- The new link itself. -/
theorem walk_new :
    walk next (write mem f i e) root (p ++ [i]) = some g := by
  rw [hLinks.separated.walk_write_through hLinks.at_path
    (Nat.le_of_lt hLinks.length_lt), hLinks.next_e]
  rfl

theorem separated_after :
    Separated next (write mem f i e) root depth := by
  have hOld :
      ∀ q, q.length ≤ depth → q ≠ p ++ [i] →
        walk next (write mem f i e) root q ≠ some g := by
    intro q hq hOff hWalk
    rw [hLinks.walk_off hq hOff] at hWalk
    exact hLinks.fresh ⟨q, hq, hWalk⟩
  intro q r h hq hr hWalkQ hWalkR
  by_cases hNewQ : q = p ++ [i]
  · by_cases hNewR : r = p ++ [i]
    · rw [hNewQ, hNewR]
    · rw [hNewQ, hLinks.walk_new] at hWalkQ
      cases hWalkQ
      exact absurd hWalkR (hOld r hr hNewR)
  · by_cases hNewR : r = p ++ [i]
    · rw [hNewR, hLinks.walk_new] at hWalkR
      cases hWalkR
      exact absurd hWalkQ (hOld q hq hNewQ)
    · rw [hLinks.walk_off hq hNewQ] at hWalkQ
      rw [hLinks.walk_off hr hNewR] at hWalkR
      exact hLinks.separated q r h hq hr hWalkQ hWalkR

/- The link makes one more frame a table. -/
theorem isTable_after
    {h : F}
    (hTable : IsTable next (write mem f i e) root depth h) :
    IsTable next mem root depth h ∨ h = g := by
  rcases hTable with ⟨q, hq, hWalk⟩
  by_cases hNew : q = p ++ [i]
  · rw [hNew, hLinks.walk_new] at hWalk
    exact Or.inr (Option.some.inj hWalk).symm
  · rw [hLinks.walk_off hq hNew] at hWalk
    exact Or.inl ⟨q, hq, hWalk⟩

/- No selection changes: behind the link all is blank. -/
theorem lookup_after
    (hAbsent : present z = false)
    (hq : q.length = depth)
    (j : I) :
    lookup next present (write mem f i e) root q j =
      lookup next present mem root q j := by
  unfold lookup
  by_cases hNew : q = p ++ [i]
  · have hBlank : write mem f i e g j = z := by
      rw [write_other, hLinks.blank]
      intro hEq
      exact hLinks.ne hEq.1
    rw [hNew, hLinks.walk_new, walk_append, hLinks.at_path]
    simp [walk, hLinks.empty, hBlank, hAbsent]
  · rw [hLinks.walk_off (Nat.le_of_eq hq) hNew]
    cases hWalk : walk next mem root q with
    | none => rfl
    | some h =>
        have hOther : ¬ (h = f ∧ j = i) := by
          intro hEq
          have hSame :=
            hLinks.separated q p f (Nat.le_of_eq hq)
              (Nat.le_of_lt hLinks.length_lt) (hEq.1 ▸ hWalk)
              hLinks.at_path
          have hLt := hLinks.length_lt
          rw [← hSame, hq] at hLt
          omega
        simp only [write_other hOther]

end Links

end Updates

end RadixTable
