import FeatherOS.Library.LinkedTree
import Mathlib.Logic.Relation

/-
  Putting nodes into linked trees and taking them out.

  A node with at most one child is spliced out; a node with
  two is replaced by another cell that takes over its links.
  A set of cells is closed when no pointer leads out of it;
  a stored tree lies in every closed set that has its root.

  Key definitions include:
    * `LinkedTree.Within`
    * `LinkedTree.IsChild`
    * `LinkedTree.Closed`
    * `LinkedTree.Leftmost`

  Key rules include:
    * `Stored.promote`
    * `Stored.splice`
    * `Stored.replaceNode`
    * `Stored.takeOver`
    * `Stored.acyclic`
-/

namespace LinkedTree

variable {P D : Type}
variable {h h' : P → Cell P D}
variable {root root' : Option P}
variable {c c' : Ctx P D}
variable {l r s t : Tree P D}
variable {p q x : P}
variable {d d' : D}

--------------------
-- Contexts In Contexts
--------------------

/- The root of a filled context that is not empty. -/
theorem Ctx.mem_nodes_of_rootPtr
    {f : Frame P D}
    (hRoot : (Ctx.plug (f :: c) t).rootPtr = some p) :
    p ∈ Ctx.nodes (f :: c) := by
  induction c generalizing f t with
  | nil =>
      have hEq : f.ptr = p := by simpa using hRoot
      rw [(Ctx.nodes_cons_perm f []).mem_iff, hEq]
      simp
  | cons g c ih =>
      have hMem := ih (t := f.fill t) hRoot
      rw [(Ctx.nodes_cons_perm f (g :: c)).mem_iff]
      simp [hMem]

theorem Ctx.size_le_plug
    (c : Ctx P D)
    (t : Tree P D) :
    t.size ≤ (c.plug t).size := by
  rw [Ctx.size_plug]
  exact Nat.le_add_left _ _

/- The nodes around a hole, in order. -/
theorem Ctx.nodes_plug
    (c : Ctx P D)
    (t : Tree P D) :
    (c.plug t).nodes =
      c.before.map Prod.fst ++ t.nodes ++
        c.after.map Prod.fst := by
  simp [Tree.nodes, Ctx.entries_plug]

/- Leaving out the root of a subtree. -/
theorem Ctx.filter_nodes_plug
    [DecidableEq P]
    (hNodup : (c.plug (.node l p d r)).nodes.Nodup) :
    (c.plug (.node l p d r)).nodes.filter (fun q => q ≠ p) =
      c.before.map Prod.fst ++ (l.nodes ++ r.nodes) ++
        c.after.map Prod.fst := by
  rw [Ctx.nodes_plug, Tree.nodes_node] at hNodup ⊢
  simp only [List.nodup_append, List.nodup_cons,
    List.mem_append, List.mem_cons] at hNodup
  have hKeep : ∀ xs : List P, p ∉ xs →
      xs.filter (fun q => q ≠ p) = xs := by
    intro xs hOut
    rw [List.filter_eq_self]
    intro q hq
    simpa using fun h : q = p => hOut (h ▸ hq)
  rw [List.filter_append, List.filter_append,
    List.filter_append, List.filter_cons]
  simp only [ne_eq, not_true, decide_false, Bool.false_eq_true,
    if_false]
  have hBefore : p ∉ c.before.map Prod.fst := fun hp =>
    hNodup.1.2.2 p hp p (Or.inr (Or.inl rfl)) rfl
  have hLeft : p ∉ l.nodes := fun hp =>
    hNodup.1.2.1.2.2 p hp p (Or.inl rfl) rfl
  have hRight : p ∉ r.nodes := hNodup.1.2.1.2.1.1
  have hAfter : p ∉ c.after.map Prod.fst := fun hp =>
    hNodup.2.2 p (Or.inr (Or.inr (Or.inl rfl))) p hp rfl
  have hBefore' := hKeep _ hBefore
  have hLeft' := hKeep _ hLeft
  have hRight' := hKeep _ hRight
  have hAfter' := hKeep _ hAfter
  simp only [ne_eq] at hBefore' hLeft' hRight' hAfter'
  rw [hBefore', hLeft', hRight', hAfter']

/- The frames of a way down to the left. -/
def Leftmost (c : Ctx P D) : Prop :=
  ∀ f ∈ c, ∃ q d r, f = Frame.left q d r

/- Nothing comes before the end of a way to the left. -/
theorem Leftmost.before_eq
    (hLeft : Leftmost c) :
    Ctx.before c = [] := by
  induction c with
  | nil => rfl
  | cons f c ih =>
      rcases hLeft f (by simp) with ⟨q, d, r, rfl⟩
      exact ih fun g hg => hLeft g (by simp [hg])

/- A way to the left starts with a left child. -/
theorem Leftmost.left_ne_nil
    {f : Frame P D}
    (hLeft : Leftmost (f :: c))
    (ht : t ≠ .nil) :
    ∃ l p d r, Ctx.plug (f :: c) t = .node l p d r ∧
      l ≠ .nil := by
  induction c generalizing f t with
  | nil =>
      rcases hLeft f (by simp) with ⟨q, d, r, rfl⟩
      exact ⟨t, q, d, r, rfl, ht⟩
  | cons g c ih =>
      refine ih (t := f.fill t)
        (fun k hk => hLeft k (by simp [hk])) ?_
      cases f <;> simp [Frame.fill]

--------------------
-- Putting A Leaf In
--------------------

/- A cell outside the tree becomes a leaf. -/
theorem Stored.attach
    (hStored : Stored h root (c.plug .nil))
    (hFresh : x ∉ (c.plug .nil : Tree P D).nodes)
    (hx : h' x =
      { left := none, right := none
        parent := c.parentPtr, data := d })
    (hTop : ∀ f rest, c = f :: rest →
      h' f.ptr = f.cell (some x) (h f.ptr).parent)
    (hRest : ∀ q, q ≠ x → c.parentPtr ≠ some q → h' q = h q)
    (hRoot : c = [] → root' = some x)
    (hKeep : c ≠ [] → root' = root) :
    Stored h' root' (c.plug (.node .nil x d .nil)) := by
  have hOut : x ∉ c.nodes := by
    intro hMem
    apply hFresh
    rw [(Ctx.nodes_plug_perm c .nil).mem_iff]
    simp [hMem]
  have hOld := (Ctx.nodup_plug_iff c .nil).mp hStored.nodup
  apply hStored.replace _ hRoot hKeep _ _ hTop
  · rw [Ctx.nodup_plug_iff]
    refine ⟨hOld.1, by simp, ?_⟩
    intro q hq hMem
    have hEq : q = x := by simpa using hMem
    exact hOut (hEq ▸ hq)
  · exact ⟨hx, trivial, trivial⟩
  · intro q hq hPar
    apply hRest q _ hPar
    rintro rfl
    exact hOut hq

--------------------
-- Splicing A Node Out
--------------------

/- A child takes the place of a node; another is dropped. -/
theorem Stored.promote
    (hStored : Stored h root (c.plug (.node l p d r)))
    (hChild : s = l ∨ s = r)
    (hs : ∀ q, s.rootPtr = some q →
      h' q = { h q with parent := c.parentPtr })
    (hTop : ∀ f rest, c = f :: rest →
      h' f.ptr = f.cell s.rootPtr (h f.ptr).parent)
    (hRest : ∀ q, q ≠ p → s.rootPtr ≠ some q →
      c.parentPtr ≠ some q → h' q = h q)
    (hRoot : c = [] → root' = s.rootPtr)
    (hKeep : c ≠ [] → root' = root) :
    Stored h' root' (c.plug s) := by
  have hNodup := hStored.nodup
  rw [Ctx.nodup_plug_iff] at hNodup
  rcases hNodup with ⟨hCtx, hInner, hOuter⟩
  rcases ((rep_plug_iff c _).mp hStored.rep).2 with
    ⟨_, hRepL, hRepR⟩
  have hPart :
      Rep h (some p) s ∧ s.nodes.Nodup ∧
        ∀ q ∈ s.nodes, q ≠ p ∧
          q ∈ (Tree.node l p d r).nodes := by
    simp only [Tree.nodes_node, List.nodup_append,
      List.nodup_cons, List.mem_cons] at hInner
    rcases hChild with rfl | rfl
    · refine ⟨hRepL, hInner.1, fun q hq => ⟨?_, by simp [hq]⟩⟩
      exact hInner.2.2 q hq p (Or.inl rfl)
    · refine ⟨hRepR, hInner.2.1.2,
        fun q hq => ⟨?_, by simp [hq]⟩⟩
      rintro rfl
      exact hInner.2.1.1 hq
  rcases hPart with ⟨hRep, hNodupS, hMem⟩
  apply hStored.replace _ hRoot hKeep _ _ hTop
  · rw [Ctx.nodup_plug_iff]
    refine ⟨hCtx, hNodupS, ?_⟩
    intro q hq hqs
    exact hOuter q hq (hMem q hqs).2
  · refine hRep.reparent hNodupS ?_ hs
    intro q hq hNotRoot
    refine hRest q (hMem q hq).1 hNotRoot ?_
    exact hStored.parentPtr_ne (hMem q hq).2
  · intro q hq hPar
    refine hRest q ?_ ?_ hPar
    · rintro rfl
      exact hOuter q hq (by simp)
    · intro hqs
      have hIn := Tree.mem_nodes_of_rootPtr hqs
      exact hOuter q hq (hMem q hIn).2

/- A node with at most one child gives its place to that. -/
theorem Stored.splice
    (hStored : Stored h root (c.plug (.node l p d r)))
    (hChild : s = l ∧ r = .nil ∨ s = r ∧ l = .nil)
    (hs : ∀ q, s.rootPtr = some q →
      h' q = { h q with parent := c.parentPtr })
    (hTop : ∀ f rest, c = f :: rest →
      h' f.ptr = f.cell s.rootPtr (h f.ptr).parent)
    (hRest : ∀ q, q ≠ p → s.rootPtr ≠ some q →
      c.parentPtr ≠ some q → h' q = h q)
    (hRoot : c = [] → root' = s.rootPtr)
    (hKeep : c ≠ [] → root' = root) :
    Stored h' root' (c.plug s) :=
  hStored.promote (hChild.imp And.left And.left) hs hTop hRest
    hRoot hKeep

--------------------
-- Another Cell In The Place Of A Node
--------------------

/- A cell outside the tree takes over the links of a node. -/
theorem Stored.replaceNode
    (hStored : Stored h root (c.plug (.node l p d r)))
    (hFresh : x ∉ (c.plug (.node l p d r)).nodes)
    (hx : h' x =
      { left := l.rootPtr, right := r.rootPtr
        parent := c.parentPtr, data := d' })
    (hChild : ∀ q, l.rootPtr = some q ∨ r.rootPtr = some q →
      h' q = { h q with parent := some x })
    (hTop : ∀ f rest, c = f :: rest →
      h' f.ptr = f.cell (some x) (h f.ptr).parent)
    (hRest : ∀ q, q ≠ x → q ≠ p → l.rootPtr ≠ some q →
      r.rootPtr ≠ some q → c.parentPtr ≠ some q → h' q = h q)
    (hRoot : c = [] → root' = some x)
    (hKeep : c ≠ [] → root' = root) :
    Stored h' root' (c.plug (.node l x d' r)) := by
  have hNodup := hStored.nodup
  rw [Ctx.nodup_plug_iff] at hNodup
  rcases hNodup with ⟨hCtx, hInner, hOuter⟩
  rw [(Ctx.nodes_plug_perm c _).mem_iff] at hFresh
  simp only [Tree.nodes_node, List.mem_append, List.mem_cons,
    not_or] at hFresh
  rcases hFresh with ⟨hxc, hxl, hxp, hxr⟩
  simp only [Tree.nodes_node, List.nodup_append,
    List.nodup_cons, List.mem_cons] at hInner
  rcases hInner with ⟨hNodupL, ⟨hpr, hNodupR⟩, hCross⟩
  rcases ((rep_plug_iff c _).mp hStored.rep).2 with
    ⟨_, hRepL, hRepR⟩
  have hpl : p ∉ l.nodes := fun hp => hCross p hp p (by simp) rfl
  have hlr : ∀ q ∈ l.nodes, q ∉ r.nodes := fun q hl hr =>
    hCross q hl q (Or.inr hr) rfl
  have hIn : ∀ {s : Tree P D} {q : P}, s.rootPtr = some q →
      q ∈ s.nodes :=
    fun hq => Tree.mem_nodes_of_rootPtr hq
  apply hStored.replace _ hRoot hKeep _ _ hTop
  · rw [Ctx.nodup_plug_iff]
    refine ⟨hCtx, ?_, ?_⟩
    · simp only [Tree.nodes_node, List.nodup_append,
        List.nodup_cons, List.mem_cons]
      refine ⟨hNodupL, ⟨hxr, hNodupR⟩, ?_⟩
      rintro q hq q' (rfl | hq')
      · rintro rfl
        exact hxl hq
      · exact hCross q hq q' (Or.inr hq')
    · intro q hq hMem
      simp only [Tree.nodes_node, List.mem_append,
        List.mem_cons] at hMem
      rcases hMem with hl | rfl | hr
      · exact hOuter q hq (by simp [hl])
      · exact hxc hq
      · exact hOuter q hq (by simp [hr])
  · refine ⟨hx, ?_, ?_⟩
    · refine hRepL.reparent hNodupL ?_
        fun q hq => hChild q (Or.inl hq)
      intro q hq hNotRoot
      refine hRest q ?_ ?_ hNotRoot ?_
        (hStored.parentPtr_ne (by simp [hq]))
      · rintro rfl
        exact hxl hq
      · rintro rfl
        exact hpl hq
      · exact fun hqr => hlr q hq (hIn hqr)
    · refine hRepR.reparent hNodupR ?_
        fun q hq => hChild q (Or.inr hq)
      intro q hq hNotRoot
      refine hRest q ?_ ?_ ?_ hNotRoot
        (hStored.parentPtr_ne (by simp [hq]))
      · rintro rfl
        exact hxr hq
      · rintro rfl
        exact hpr hq
      · exact fun hql => hlr q (hIn hql) hq
  · intro q hq hPar
    refine hRest q ?_ ?_ ?_ ?_ hPar
    · rintro rfl
      exact hxc hq
    · rintro rfl
      exact hOuter q hq (by simp)
    · exact fun hql => hOuter q hq (by simp [hIn hql])
    · exact fun hqr => hOuter q hq (by simp [hIn hqr])

/-
  The leftmost node of the right subtree takes the place of
  its ancestor. In the store `h₁` it has been spliced out of
  its own place.
-/
theorem Stored.takeOver
    {h₁ : P → Cell P D}
    {e : Tree P D}
    {dx : D}
    (hStored : Stored h root
      (c.plug (.node l p d (c'.plug (.node .nil x dx e)))))
    (hChild₁ : ∀ q, e.rootPtr = some q →
      h₁ q =
        { h q with
          parent := Ctx.parentPtr (c' ++ [.right l p d]) })
    (hTop₁ : ∀ f rest, c' ++ [.right l p d] = f :: rest →
      h₁ f.ptr = f.cell e.rootPtr (h f.ptr).parent)
    (hRest₁ : ∀ q, e.rootPtr ≠ some q →
      Ctx.parentPtr (c' ++ [.right l p d]) ≠ some q →
      h₁ q = h q)
    (hx : h' x =
      { left := l.rootPtr, right := (c'.plug e).rootPtr
        parent := c.parentPtr, data := d' })
    (hChild : ∀ q,
      l.rootPtr = some q ∨ (c'.plug e).rootPtr = some q →
        h' q = { h₁ q with parent := some x })
    (hTop : ∀ f rest, c = f :: rest →
      h' f.ptr = f.cell (some x) (h f.ptr).parent)
    (hRest : ∀ q, q ≠ x → q ≠ p → l.rootPtr ≠ some q →
      (c'.plug e).rootPtr ≠ some q → c.parentPtr ≠ some q →
      h' q = h₁ q)
    (hRoot : c = [] → root' = some x)
    (hKeep : c ≠ [] → root' = root) :
    Stored h' root' (c.plug (.node l x d' (c'.plug e))) := by
  have hWhole : ∀ s : Tree P D,
      Ctx.plug (c' ++ .right l p d :: c) s =
        c.plug (.node l p d (c'.plug s)) :=
    fun s => Ctx.plug_append _ _ _
  have hPar :
      Ctx.parentPtr (c' ++ .right l p d :: c) =
        Ctx.parentPtr (c' ++ [.right l p d]) := by
    cases c' <;> rfl
  have hUpper : Ctx.parentPtr (c' ++ [.right l p d]) ≠ none := by
    cases c' <;> simp
  have hNe : c' ++ .right l p d :: c ≠ [] := by simp
  have hStored' :
      Stored h root
        (Ctx.plug (c' ++ .right l p d :: c)
          (.node .nil x dx e)) :=
    (hWhole _).symm ▸ hStored
  have hSpliced :
      Stored h₁ root (c.plug (.node l p d (c'.plug e))) := by
    rw [← hWhole]
    refine hStored'.splice (Or.inr ⟨rfl, rfl⟩) ?_ ?_ ?_ ?_ ?_
    · intro q hq
      rw [hPar]
      exact hChild₁ q hq
    · intro f rest hc
      cases c' with
      | nil =>
          refine hTop₁ f [] ?_
          cases hc
          rfl
      | cons g c' =>
          refine hTop₁ f (c' ++ [.right l p d]) ?_
          cases hc
          rfl
    · intro q _ hqe hqc
      rw [hPar] at hqc
      exact hRest₁ q hqe hqc
    · exact fun hc => absurd hc hNe
    · exact fun _ => rfl
  have hxOut :
      x ∉ (c.plug (.node l p d (c'.plug e))).nodes := by
    have hNodup := hStored'.nodup
    rw [Ctx.nodup_plug_iff] at hNodup
    rw [← hWhole, Ctx.mem_plug_iff, not_or]
    refine ⟨fun hc => hNodup.2.2 x hc (by simp), ?_⟩
    have hInner := hNodup.2.1
    simp only [Tree.nodes_node, Tree.nodes_nil, List.nil_append,
      List.nodup_cons] at hInner
    exact hInner.1
  refine hSpliced.replaceNode hxOut hx hChild ?_ hRest hRoot
    hKeep
  intro f rest hc
  have hf : c.parentPtr = some f.ptr := by
    rw [hc]
    rfl
  have hInner : ∀ q ∈ (Tree.node l p d
      (c'.plug (.node .nil x dx e))).nodes, q ≠ f.ptr := by
    intro q hq hEq
    exact hStored.parentPtr_ne hq (hEq ▸ hf)
  have hKept : h₁ f.ptr = h f.ptr := by
    refine hRest₁ f.ptr ?_ ?_
    · intro hq
      refine hInner f.ptr ?_ rfl
      have hMem := Tree.mem_nodes_of_rootPtr hq
      simp only [Tree.nodes_node, List.mem_append,
        List.mem_cons, Ctx.mem_plug_iff]
      simp [hMem]
    · intro hq
      refine hInner f.ptr ?_ rfl
      cases c' with
      | nil =>
          have hEq : p = f.ptr := by simpa using hq
          simp [hEq]
      | cons g c' =>
          have hEq : g.ptr = f.ptr := by simpa using hq
          rw [← hEq]
          simp only [Tree.nodes_node, List.mem_append,
            List.mem_cons, Ctx.mem_plug_iff,
            (Ctx.nodes_cons_perm _ _).mem_iff]
          simp
  rw [hTop f rest hc, hKept]

--------------------
-- Closed Sets
--------------------

/- A pointer is NULL or leads into the set. -/
def Within
    (N : P → Prop)
    (v : Option P) : Prop :=
  ∀ p, v = some p → N p

/- No pointer of a cell in the set leads out of it. -/
structure Closed
    (h : P → Cell P D)
    (root : Option P)
    (N : P → Prop) : Prop where
  root_in : Within N root
  left_in : ∀ p, N p → Within N (h p).left
  right_in : ∀ p, N p → Within N (h p).right
  parent_in : ∀ p, N p → Within N (h p).parent

theorem within_none
    {N : P → Prop} :
    Within N none := by
  intro p hp
  cases hp

theorem within_some
    {N : P → Prop} :
    Within N (some p) ↔ N p := by
  constructor
  · exact fun hWithin => hWithin p rfl
  · intro hp q hq
    cases hq
    exact hp

/- The nodes below a pointer into a closed set. -/
theorem Closed.mem_of_rep
    {N : P → Prop}
    {par : Option P}
    (hClosed : Closed h root N)
    (hRep : Rep h par t)
    (hTop : Within N t.rootPtr) :
    ∀ p ∈ t.nodes, N p := by
  induction t generalizing par with
  | nil => simp
  | node l p d r ihl ihr =>
      rcases hRep with ⟨hCell, hRepL, hRepR⟩
      have hp : N p := hTop p rfl
      have hLeft := hClosed.left_in p hp
      have hRight := hClosed.right_in p hp
      rw [hCell] at hLeft hRight
      intro q hq
      simp only [Tree.nodes_node, List.mem_append,
        List.mem_cons] at hq
      rcases hq with hq | rfl | hq
      · exact ihl hRepL hLeft q hq
      · exact hp
      · exact ihr hRepR hRight q hq

theorem Closed.mem_of_stored
    {N : P → Prop}
    (hClosed : Closed h root N)
    (hStored : Stored h root t) :
    ∀ p ∈ t.nodes, N p :=
  hClosed.mem_of_rep hStored.rep
    (hStored.root_eq ▸ hClosed.root_in)

/- The nodes of a stored tree are closed. -/
theorem Stored.closed
    (hStored : Stored h root t) :
    Closed h root fun p => p ∈ t.nodes := by
  have hAll : ∀ p ∈ t.nodes,
      Within (fun q => q ∈ t.nodes) (h p).left ∧
        Within (fun q => q ∈ t.nodes) (h p).right ∧
        Within (fun q => q ∈ t.nodes) (h p).parent := by
    intro p hp
    rcases Tree.exists_plug_of_mem hp with ⟨c, l, d, r, rfl⟩
    have hMem := Ctx.nodes_plug_perm c (.node l p d r)
    rw [hStored.cell_eq]
    refine ⟨?_, ?_, ?_⟩
    · intro q hq
      rw [hMem.mem_iff]
      simp [Tree.mem_nodes_of_rootPtr hq]
    · intro q hq
      rw [hMem.mem_iff]
      simp [Tree.mem_nodes_of_rootPtr hq]
    · intro q hq
      rw [hMem.mem_iff]
      cases c with
      | nil => cases hq
      | cons f c =>
          cases hq
          refine List.mem_append_left _ ?_
          rw [(Ctx.nodes_cons_perm f c).mem_iff]
          simp
  refine ⟨?_, fun p hp => (hAll p hp).1,
    fun p hp => (hAll p hp).2.1, fun p hp => (hAll p hp).2.2⟩
  intro p hp
  rw [hStored.root_eq] at hp
  exact Tree.mem_nodes_of_rootPtr hp

/- No node of a stored tree is its own right child. -/
theorem Stored.not_loop
    (hStored : Stored h root t)
    (hp : p ∈ t.nodes) :
    (h p).right ≠ some p := by
  rcases Tree.exists_plug_of_mem hp with ⟨c, l, d, r, rfl⟩
  rw [hStored.cell_eq]
  intro hLoop
  have hIn := Tree.mem_nodes_of_rootPtr hLoop
  have hNodup := hStored.nodup
  rw [Ctx.nodup_plug_iff] at hNodup
  have hInner := hNodup.2.1
  simp only [Tree.nodes_node, List.nodup_append,
    List.nodup_cons] at hInner
  exact hInner.2.1.1 hIn

/- One cell is a child of another. -/
def IsChild
    (h : P → Cell P D)
    (p q : P) : Prop :=
  (h p).left = some q ∨ (h p).right = some q

/- Children of nodes are nodes. -/
theorem Rep.child_mem
    {par : Option P}
    (hRep : Rep h par t)
    (hp : p ∈ t.nodes)
    (hChild : IsChild h p q) :
    q ∈ t.nodes := by
  induction t generalizing par with
  | nil => simp at hp
  | node l x d r ihl ihr =>
      rcases hRep with ⟨hCell, hRepL, hRepR⟩
      simp only [Tree.nodes_node, List.mem_append,
        List.mem_cons] at hp ⊢
      rcases hp with hp | rfl | hp
      · exact Or.inl (ihl hRepL hp)
      · unfold IsChild at hChild
        rw [hCell] at hChild
        rcases hChild with hLeft | hRight
        · exact Or.inl (Tree.mem_nodes_of_rootPtr hLeft)
        · exact Or.inr
            (Or.inr (Tree.mem_nodes_of_rootPtr hRight))
      · exact Or.inr (Or.inr (ihr hRepR hp))

/- Child links lead down and never back to a node. -/
theorem Stored.acyclic
    (hStored : Stored h root t)
    (hp : p ∈ t.nodes) :
    ¬ Relation.TransGen (IsChild h) p p := by
  rcases Tree.exists_plug_of_mem hp with ⟨c, l, d, r, rfl⟩
  rcases ((rep_plug_iff c _).mp hStored.rep).2 with
    ⟨hCell, hRepL, hRepR⟩
  have hBelow : ∀ q, Relation.TransGen (IsChild h) p q →
      q ∈ l.nodes ∨ q ∈ r.nodes := by
    intro q hPath
    induction hPath with
    | single hChild =>
        unfold IsChild at hChild
        rw [hCell] at hChild
        exact hChild.imp Tree.mem_nodes_of_rootPtr
          Tree.mem_nodes_of_rootPtr
    | tail _ hChild ih =>
        exact ih.imp (hRepL.child_mem · hChild)
          (hRepR.child_mem · hChild)
  intro hCycle
  have hNodup := hStored.nodup
  rw [Ctx.nodup_plug_iff] at hNodup
  have hInner := hNodup.2.1
  simp only [Tree.nodes_node, List.nodup_append,
    List.nodup_cons] at hInner
  rcases hBelow p hCycle with hLeft | hRight
  · exact hInner.2.2 p hLeft p (by simp) rfl
  · exact hInner.2.1.1 hRight

/- What hangs in a represented context is below its root. -/
theorem Stored.mem_of_repCtx
    (hCtx : RepCtx h (some x) c)
    (hRoot : root =
      (c.plug (.node .nil x d .nil)).rootPtr)
    (hStored : Stored h root t) :
    x ∈ t.nodes := by
  have hClosed := hStored.closed
  suffices hUp : ∀ {y : P} {d : D} {c : Ctx P D},
      RepCtx h (some y) c →
        root = (c.plug (.node .nil y d .nil)).rootPtr →
        y ∈ t.nodes from hUp hCtx hRoot
  intro y d c
  induction c generalizing y d with
  | nil =>
      intro _ hTop
      exact hClosed.root_in y hTop
  | cons f c ih =>
      intro hRep hTop
      rcases hRep with ⟨hCell, _, hRest⟩
      have hf : f.ptr ∈ t.nodes := by
        refine ih (d := d) hRest (hTop.trans ?_)
        exact Ctx.rootPtr_plug_congr c (by simp)
      cases f with
      | left q dq r =>
          have hLeft := hClosed.left_in _ hf
          rw [hCell] at hLeft
          exact hLeft y rfl
      | right l q dq =>
          have hRight := hClosed.right_in _ hf
          rw [hCell] at hRight
          exact hRight y rfl

end LinkedTree
