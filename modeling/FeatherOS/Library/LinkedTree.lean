import Mathlib.Algebra.GroupWithZero.Nat
import Mathlib.Data.List.Nodup
import Mathlib.Data.List.Perm.Basic

/-
  Binary trees kept in linked cells with parent pointers.

  A cell holds two child pointers, a parent pointer and some
  data. `Rep h par t` says that the store `h` holds the tree
  `t` below the parent `par`; since every cell occurs at
  most once in a tree with distinct nodes, a represented
  tree is acyclic. A context is a tree with one subtree cut
  out, and lets a change made deep inside a tree be stated
  where it happens.

  Key definitions include:
    * `Tree`
    * `Rep`
    * `Frame`
    * `Ctx.plug`
    * `RepCtx`

  Key rules include:
    * `rep_plug_iff`
    * `Rep.unique`
    * `RepCtx.replaceHole`
    * `Stored.replace`
    * `Stored.rotateLeft`
    * `Stored.rotateRight`
-/

namespace LinkedTree

--------------------
-- Cells And Trees
--------------------

/- A tree cell as it is stored in memory. -/
structure Cell (P D : Type) where
  left : Option P
  right : Option P
  parent : Option P
  data : D
deriving DecidableEq, Repr

/- The tree a collection of cells stands for. -/
inductive Tree (P D : Type) where
| nil : Tree P D
| node
    (left : Tree P D)
    (ptr : P)
    (data : D)
    (right : Tree P D) : Tree P D
deriving DecidableEq, Repr

namespace Tree

variable {P D : Type}

/- The pointer to the root cell. -/
def rootPtr : Tree P D → Option P
| nil => none
| node _ p _ _ => some p

/- Pointers and data in symmetric order. -/
def entries : Tree P D → List (P × D)
| nil => []
| node l p d r => l.entries ++ (p, d) :: r.entries

/- Pointers in symmetric order. -/
def nodes (t : Tree P D) : List P :=
  t.entries.map Prod.fst

/- Data in symmetric order. -/
def values (t : Tree P D) : List D :=
  t.entries.map Prod.snd

/- Number of cells. -/
def size (t : Tree P D) : Nat :=
  t.entries.length

@[simp] theorem rootPtr_nil :
    (nil : Tree P D).rootPtr = none := rfl

@[simp] theorem rootPtr_node
    (l r : Tree P D)
    (p : P)
    (d : D) :
    (node l p d r).rootPtr = some p := rfl

@[simp] theorem entries_nil :
    (nil : Tree P D).entries = [] := rfl

@[simp] theorem entries_node
    (l r : Tree P D)
    (p : P)
    (d : D) :
    (node l p d r).entries =
      l.entries ++ (p, d) :: r.entries := rfl

@[simp] theorem nodes_nil :
    (nil : Tree P D).nodes = [] := rfl

@[simp] theorem nodes_node
    (l r : Tree P D)
    (p : P)
    (d : D) :
    (node l p d r).nodes = l.nodes ++ p :: r.nodes := by
  simp [nodes]

@[simp] theorem values_nil :
    (nil : Tree P D).values = [] := rfl

@[simp] theorem values_node
    (l r : Tree P D)
    (p : P)
    (d : D) :
    (node l p d r).values = l.values ++ d :: r.values := by
  simp [values]

theorem size_node
    (l r : Tree P D)
    (p : P)
    (d : D) :
    (node l p d r).size = l.size + r.size + 1 := by
  simp only [size, entries, List.length_append,
    List.length_cons]
  omega

theorem length_nodes
    (t : Tree P D) :
    t.nodes.length = t.size := by
  simp [nodes, size]

/- The root is one of the nodes. -/
theorem mem_nodes_of_rootPtr
    {t : Tree P D}
    {p : P}
    (hRoot : t.rootPtr = some p) :
    p ∈ t.nodes := by
  cases t with
  | nil => cases hRoot
  | node l q d r =>
      cases hRoot
      simp

/- Only the empty tree has no root. -/
theorem eq_nil_of_rootPtr
    {t : Tree P D}
    (hRoot : t.rootPtr = none) :
    t = nil := by
  cases t with
  | nil => rfl
  | node l p d r => cases hRoot

/- A tree with a root is a node. -/
theorem eq_node_of_rootPtr
    {t : Tree P D}
    {p : P}
    (hRoot : t.rootPtr = some p) :
    ∃ l d r, t = node l p d r := by
  cases t with
  | nil => cases hRoot
  | node l q d r =>
      cases hRoot
      exact ⟨l, d, r, rfl⟩

end Tree

--------------------
-- Representation
--------------------

variable {P D : Type}

/-
  The store holds `t`, whose root has parent `par`. The
  pointer to the root itself is kept by the caller.
-/
def Rep
    (h : P → Cell P D)
    (par : Option P) :
    Tree P D → Prop
| .nil => True
| .node l p d r =>
    h p =
      { left := l.rootPtr
        right := r.rootPtr
        parent := par
        data := d } ∧
    Rep h (some p) l ∧
    Rep h (some p) r

variable {h : P → Cell P D}

/- A represented tree is determined by its root and store. -/
theorem Rep.unique
    {par par' : Option P}
    {t t' : Tree P D}
    (hRep : Rep h par t)
    (hRep' : Rep h par' t')
    (hRoot : t.rootPtr = t'.rootPtr) :
    t = t' := by
  induction t generalizing par par' t' with
  | nil =>
      exact (Tree.eq_nil_of_rootPtr hRoot.symm).symm
  | node l p d r ihl ihr =>
      rcases Tree.eq_node_of_rootPtr hRoot.symm with
        ⟨l', d', r', rfl⟩
      rcases hRep with ⟨hCell, hl, hr⟩
      rcases hRep' with ⟨hCell', hl', hr'⟩
      rw [hCell] at hCell'
      injection hCell' with hLeft hRight _ hData
      rw [ihl hl hl' hLeft, ihr hr hr' hRight, hData]

variable {par : Option P}

/- The data of a tree are those of its cells. -/
theorem Rep.data_of_mem
    {t : Tree P D}
    {e : P × D}
    (hRep : Rep h par t)
    (he : e ∈ t.entries) :
    (h e.1).data = e.2 := by
  induction t generalizing par with
  | nil => cases he
  | node l p d r ihl ihr =>
      rcases hRep with ⟨hCell, hl, hr⟩
      rw [Tree.entries_node, List.mem_append, List.mem_cons]
        at he
      rcases he with he | rfl | he
      · exact ihl hl he
      · exact congrArg Cell.data hCell
      · exact ihr hr he

/- Representation reads only the cells of the tree. -/
theorem Rep.congr
    {h h' : P → Cell P D}
    {t : Tree P D}
    (hRep : Rep h par t)
    (hAgree : ∀ p ∈ t.nodes, h' p = h p) :
    Rep h' par t := by
  induction t generalizing par with
  | nil => trivial
  | node l p d r ihl ihr =>
      rcases hRep with ⟨hCell, hl, hr⟩
      refine ⟨?_, ?_, ?_⟩
      · rw [hAgree p (by simp), hCell]
      · exact ihl hl fun q hq => hAgree q (by simp [hq])
      · exact ihr hr fun q hq => hAgree q (by simp [hq])

/-
  A subtree moves below another parent when only its root
  cell changes, and there only in the parent pointer.
-/
theorem Rep.reparent
    {h h' : P → Cell P D}
    {par par' : Option P}
    {t : Tree P D}
    (hRep : Rep h par t)
    (hNodup : t.nodes.Nodup)
    (hAgree :
      ∀ p ∈ t.nodes, t.rootPtr ≠ some p → h' p = h p)
    (hRoot :
      ∀ p, t.rootPtr = some p →
        h' p = { h p with parent := par' }) :
    Rep h' par' t := by
  cases t with
  | nil => trivial
  | node l p d r =>
      rcases hRep with ⟨hCell, hl, hr⟩
      rw [Tree.nodes_node, List.nodup_append] at hNodup
      rcases hNodup with ⟨_, hNodupR, hDisj⟩
      have hpr : p ∉ r.nodes :=
        (List.nodup_cons.mp hNodupR).1
      refine ⟨?_, ?_, ?_⟩
      · rw [hRoot p rfl, hCell]
      · refine hl.congr fun q hq => ?_
        have hqp : q ≠ p := hDisj q hq p (by simp)
        exact hAgree q (by simp [hq])
          (by simpa using Ne.symm hqp)
      · refine hr.congr fun q hq => ?_
        have hqp : q ≠ p := by
          rintro rfl
          exact hpr hq
        exact hAgree q (by simp [hq])
          (by simpa using Ne.symm hqp)

--------------------
-- Contexts
--------------------

/-
  One step of the way from a subtree up to the root: the
  subtree hangs on the left or on the right of `ptr`.
-/
inductive Frame (P D : Type) where
| left (ptr : P) (data : D) (right : Tree P D) : Frame P D
| right (left : Tree P D) (ptr : P) (data : D) : Frame P D
deriving DecidableEq, Repr

/- The frames from the hole up to the root. -/
abbrev Ctx (P D : Type) :=
  List (Frame P D)

namespace Frame

/- The cell the hole hangs on. -/
def ptr : Frame P D → P
| left p _ _ => p
| right _ p _ => p

/- The data of that cell. -/
def data : Frame P D → D
| left _ d _ => d
| right _ _ d => d

/- The subtree on the other side of that cell. -/
def sibling : Frame P D → Tree P D
| left _ _ r => r
| right l _ _ => l

/- Fill the hole of one frame. -/
def fill (t : Tree P D) : Frame P D → Tree P D
| left p d r => .node t p d r
| right l p d => .node l p d t

/- The cell of a frame whose hole holds `hole`. -/
def cell (hole par : Option P) : Frame P D → Cell P D
| left _ d r =>
    { left := hole, right := r.rootPtr
      parent := par, data := d }
| right l _ d =>
    { left := l.rootPtr, right := hole
      parent := par, data := d }

@[simp] theorem ptr_left (p : P) (d : D) (r : Tree P D) :
    (left p d r).ptr = p := rfl

@[simp] theorem ptr_right (l : Tree P D) (p : P) (d : D) :
    (right l p d).ptr = p := rfl

@[simp] theorem parent_cell
    (f : Frame P D)
    (hole par : Option P) :
    (f.cell hole par).parent = par := by
  cases f <;> rfl

@[simp] theorem rootPtr_fill
    (t : Tree P D)
    (f : Frame P D) :
    (f.fill t).rootPtr = some f.ptr := by
  cases f <;> rfl

end Frame

variable {c : Ctx P D}
variable {f : Frame P D}

namespace Ctx

/- Fill the hole. -/
def plug : Ctx P D → Tree P D → Tree P D
| [], t => t
| f :: c, t => plug c (f.fill t)

/- The parent of the hole. -/
def parentPtr (c : Ctx P D) : Option P :=
  c.head?.map Frame.ptr

/- What precedes the hole in symmetric order. -/
def before : Ctx P D → List (P × D)
| [] => []
| .left _ _ _ :: c => before c
| .right l p d :: c => before c ++ l.entries ++ [(p, d)]

/- What follows the hole in symmetric order. -/
def after : Ctx P D → List (P × D)
| [] => []
| .left p d r :: c => (p, d) :: r.entries ++ after c
| .right _ _ _ :: c => after c

/- All cells of the context. -/
def nodes (c : Ctx P D) : List P :=
  (c.before ++ c.after).map Prod.fst

@[simp] theorem plug_nil (t : Tree P D) :
    plug [] t = t := rfl

@[simp] theorem plug_cons
    (f : Frame P D)
    (c : Ctx P D)
    (t : Tree P D) :
    plug (f :: c) t = plug c (f.fill t) := rfl

/- A context in the hole of a context. -/
theorem plug_append
    (c c' : Ctx P D)
    (t : Tree P D) :
    plug (c' ++ c) t = plug c (plug c' t) := by
  induction c' generalizing t with
  | nil => rfl
  | cons f c' ih => exact ih (f.fill t)

@[simp] theorem parentPtr_nil :
    parentPtr ([] : Ctx P D) = none := rfl

@[simp] theorem parentPtr_cons
    (f : Frame P D)
    (c : Ctx P D) :
    parentPtr (f :: c) = some f.ptr := rfl

/- Filling keeps what lies around the hole. -/
theorem entries_plug
    (c : Ctx P D)
    (t : Tree P D) :
    (c.plug t).entries =
      c.before ++ t.entries ++ c.after := by
  induction c generalizing t with
  | nil => simp [before, after]
  | cons f c ih =>
      cases f with
      | left p d r =>
          simp [ih, Frame.fill, before, after]
      | right l p d =>
          simp [ih, Frame.fill, before, after]

/- The nodes of a filled context, up to order. -/
theorem nodes_plug_perm
    (c : Ctx P D)
    (t : Tree P D) :
    (c.plug t).nodes.Perm (c.nodes ++ t.nodes) := by
  have hSwap :
      (c.before ++ t.entries ++ c.after).Perm
        (c.before ++ c.after ++ t.entries) := by
    rw [List.append_assoc, List.append_assoc]
    exact (List.perm_append_comm).append_left _
  simpa [Tree.nodes, nodes, entries_plug] using
    hSwap.map Prod.fst

theorem mem_plug_iff
    {t : Tree P D}
    {p : P} :
    p ∈ (c.plug t).nodes ↔ p ∈ c.nodes ∨ p ∈ t.nodes := by
  rw [(nodes_plug_perm c t).mem_iff, List.mem_append]

/- The node in the hole is one of the tree. -/
theorem mem_plug_node
    (c : Ctx P D)
    (l r : Tree P D)
    (p : P)
    (d : D) :
    p ∈ (c.plug (.node l p d r)).nodes := by
  simp [mem_plug_iff]

/- The nodes of a longer context. -/
theorem nodes_cons_perm
    (f : Frame P D)
    (c : Ctx P D) :
    (nodes (f :: c)).Perm
      (f.ptr :: (f.sibling.nodes ++ nodes c)) := by
  cases f with
  | left p d r =>
      have hSwap :
          (c.before ++ (r.entries ++ c.after)).Perm
            (r.entries ++ (c.before ++ c.after)) := by
        rw [← List.append_assoc, ← List.append_assoc]
        exact (List.perm_append_comm).append_right _
      have hFront :
          (c.before ++ (p, d) :: (r.entries ++ c.after)).Perm
            ((p, d) :: (c.before ++ (r.entries ++ c.after))) :=
        List.perm_middle
      have hAll :=
        (hFront.trans (hSwap.cons (p, d))).map Prod.fst
      simpa [nodes, before, after, Frame.sibling,
        Tree.nodes] using hAll
  | right l p d =>
      have hSwap :
          (c.before ++ (l.entries ++ c.after)).Perm
            (l.entries ++ (c.before ++ c.after)) := by
        rw [← List.append_assoc, ← List.append_assoc]
        exact (List.perm_append_comm).append_right _
      have hFront :
          (c.before ++ (l.entries ++ ((p, d) :: c.after))).Perm
            ((p, d) :: (c.before ++ (l.entries ++ c.after))) := by
        rw [← List.append_assoc, ← List.append_assoc]
        exact List.perm_middle
      have hAll :=
        (hFront.trans (hSwap.cons (p, d))).map Prod.fst
      simpa [nodes, before, after, Frame.sibling,
        Tree.nodes] using hAll

theorem size_plug
    (c : Ctx P D)
    (t : Tree P D) :
    (c.plug t).size = c.nodes.length + t.size := by
  have hPerm := (nodes_plug_perm c t).length_eq
  simpa [Tree.length_nodes] using hPerm

/- The cell of a frame is a node of the context. -/
theorem ptr_mem_nodes
    (hf : f ∈ c) :
    f.ptr ∈ c.nodes := by
  induction c with
  | nil => simp at hf
  | cons g c ih =>
      rw [(nodes_cons_perm g c).mem_iff]
      rcases List.mem_cons.mp hf with rfl | hf
      · simp
      · simp [ih hf]

theorem ptr_ne_of_not_mem
    {t : Tree P D}
    {p : P}
    (hOut : p ∉ (c.plug t).nodes)
    (hf : f ∈ c) :
    f.ptr ≠ p := by
  rintro rfl
  apply hOut
  rw [(nodes_plug_perm c t).mem_iff]
  exact List.mem_append_left _ (ptr_mem_nodes hf)

/- Distinctness splits between a subtree and its context. -/
theorem nodup_plug_iff
    (c : Ctx P D)
    (t : Tree P D) :
    (c.plug t).nodes.Nodup ↔
      c.nodes.Nodup ∧ t.nodes.Nodup ∧
        ∀ p ∈ c.nodes, p ∉ t.nodes := by
  rw [(nodes_plug_perm c t).nodup_iff, List.nodup_append]
  constructor
  · rintro ⟨hc, ht, hDisj⟩
    exact ⟨hc, ht, fun p hp hpt => hDisj p hp p hpt rfl⟩
  · rintro ⟨hc, ht, hDisj⟩
    refine ⟨hc, ht, ?_⟩
    rintro p hp q hq rfl
    exact hDisj p hp hq

/- Distinctness of a longer context. -/
theorem nodup_cons_iff
    (f : Frame P D)
    (c : Ctx P D) :
    (nodes (f :: c)).Nodup ↔
      f.ptr ∉ f.sibling.nodes ∧ f.ptr ∉ nodes c ∧
        f.sibling.nodes.Nodup ∧ (nodes c).Nodup ∧
        ∀ p ∈ f.sibling.nodes, p ∉ nodes c := by
  rw [(nodes_cons_perm f c).nodup_iff, List.nodup_cons,
    List.nodup_append, List.mem_append, not_or]
  constructor
  · rintro ⟨⟨hs, hc⟩, hSib, hCtx, hDisj⟩
    exact ⟨hs, hc, hSib, hCtx,
      fun p hp hpc => hDisj p hp p hpc rfl⟩
  · rintro ⟨hs, hc, hSib, hCtx, hDisj⟩
    refine ⟨⟨hs, hc⟩, hSib, hCtx, ?_⟩
    rintro p hp q hq rfl
    exact hDisj p hp hq

/- Every frame of a context is a node of the whole tree. -/
theorem length_le_size_plug
    (c : Ctx P D)
    (t : Tree P D) :
    c.length ≤ (c.plug t).size := by
  suffices hOut :
      c.length ≤ c.before.length + c.after.length by
    rw [Tree.size, entries_plug, List.length_append,
      List.length_append]
    omega
  induction c with
  | nil => simp
  | cons f c ih =>
      cases f with
      | left p d r =>
          simp only [before, after, List.length_cons,
            List.length_append]
          omega
      | right l p d =>
          simp only [before, after, List.length_cons,
            List.length_append, List.length_nil]
          omega

/- The root pointer of a filled context. -/
theorem rootPtr_plug_congr
    (c : Ctx P D)
    {t t' : Tree P D}
    (hRoot : t.rootPtr = t'.rootPtr) :
    (c.plug t).rootPtr = (c.plug t').rootPtr := by
  induction c generalizing t t' with
  | nil => exact hRoot
  | cons f c ih =>
      exact ih (by simp)

end Ctx

/- Every node of a tree can be focused. -/
theorem Tree.exists_plug_of_mem
    {t : Tree P D}
    {p : P}
    (hMem : p ∈ t.nodes) :
    ∃ (c : Ctx P D) (l : Tree P D) (d : D) (r : Tree P D),
      t = c.plug (.node l p d r) := by
  suffices hGen : ∀ (c : Ctx P D) (t : Tree P D),
      p ∈ t.nodes →
        ∃ (c' : Ctx P D) (l : Tree P D) (d : D)
          (r : Tree P D),
          c.plug t = c'.plug (.node l p d r) by
    simpa using hGen [] t hMem
  intro c t
  induction t generalizing c with
  | nil =>
      intro hMem
      simp at hMem
  | node l q d r ihl ihr =>
      intro hMem
      simp only [Tree.nodes_node, List.mem_append,
        List.mem_cons] at hMem
      rcases hMem with hl | rfl | hr
      · exact ihl (.left q d r :: c) hl
      · exact ⟨c, l, d, r, rfl⟩
      · exact ihr (.right l q d :: c) hr

--------------------
-- Representation Of Contexts
--------------------

/- The store holds the context around the pointer `hole`. -/
def RepCtx
    (h : P → Cell P D) :
    Option P → Ctx P D → Prop
| _, [] => True
| hole, f :: c =>
    h f.ptr = f.cell hole (Ctx.parentPtr c) ∧
    Rep h (some f.ptr) f.sibling ∧
    RepCtx h (some f.ptr) c

/- A filled context is held exactly when both parts are. -/
theorem rep_plug_iff
    (c : Ctx P D)
    (t : Tree P D) :
    Rep h none (c.plug t) ↔
      RepCtx h t.rootPtr c ∧ Rep h c.parentPtr t := by
  induction c generalizing t with
  | nil => simp [RepCtx]
  | cons f c ih =>
      rw [Ctx.plug_cons, ih]
      cases f with
      | left p d r =>
          simp only [Frame.fill, RepCtx, Frame.ptr_left,
            Tree.rootPtr_node, Rep, Frame.cell,
            Frame.sibling, Ctx.parentPtr_cons]
          tauto
      | right l p d =>
          simp only [Frame.fill, RepCtx, Frame.ptr_right,
            Tree.rootPtr_node, Rep, Frame.cell,
            Frame.sibling, Ctx.parentPtr_cons]
          tauto

variable {hole : Option P}

/- A represented context reads only its own cells. -/
theorem RepCtx.congr
    {h h' : P → Cell P D}
    (hRep : RepCtx h hole c)
    (hAgree : ∀ p ∈ c.nodes, h' p = h p) :
    RepCtx h' hole c := by
  induction c generalizing hole with
  | nil => trivial
  | cons f c ih =>
      have hMem :
          ∀ p,
            p ∈ f.ptr :: (f.sibling.nodes ++ Ctx.nodes c) →
              h' p = h p := by
        intro p hp
        exact hAgree p
          ((Ctx.nodes_cons_perm f c).mem_iff.mpr hp)
      rcases hRep with ⟨hCell, hSib, hCtx⟩
      refine ⟨?_, ?_, ?_⟩
      · rw [hMem f.ptr (by simp), hCell]
      · exact hSib.congr fun p hp => hMem p (by simp [hp])
      · exact ih hCtx fun p hp => hMem p (by simp [hp])

/-
  Replacing the pointer in the hole changes only the cell
  the hole hangs on.
-/
theorem RepCtx.replaceHole
    {h h' : P → Cell P D}
    {hole hole' : Option P}
    (hRep : RepCtx h hole c)
    (hNodup : c.nodes.Nodup)
    (hAgree :
      ∀ p ∈ c.nodes, c.parentPtr ≠ some p → h' p = h p)
    (hTop :
      ∀ f rest, c = f :: rest →
        h' f.ptr = f.cell hole' (h f.ptr).parent) :
    RepCtx h' hole' c := by
  cases c with
  | nil => trivial
  | cons f c =>
      rcases hRep with ⟨hCell, hSib, hCtx⟩
      rw [Ctx.nodup_cons_iff] at hNodup
      rcases hNodup with ⟨hfs, hfc, _, _, _⟩
      have hMem :
          ∀ p, p ∈ f.sibling.nodes ++ Ctx.nodes c →
            h' p = h p := by
        intro p hp
        refine hAgree p
          ((Ctx.nodes_cons_perm f c).mem_iff.mpr
            (List.mem_cons_of_mem _ hp)) ?_
        rintro hTopEq
        have hpf : f.ptr = p := by simpa using hTopEq
        subst hpf
        rcases List.mem_append.mp hp with hp | hp
        · exact hfs hp
        · exact hfc hp
      refine ⟨?_, ?_, ?_⟩
      · have hPar : (h f.ptr).parent = Ctx.parentPtr c := by
          rw [hCell, Frame.parent_cell]
        rw [hTop f c rfl, hPar]
      · exact hSib.congr fun p hp => hMem p (by simp [hp])
      · exact hCtx.congr fun p hp => hMem p (by simp [hp])

/- The cell a focused subtree hangs on. -/
theorem RepCtx.top
    (hRep : RepCtx h hole (f :: c)) :
    h f.ptr = f.cell hole (Ctx.parentPtr c) :=
  hRep.1

--------------------
-- Stored Trees
--------------------

/- A root pointer and a store that together hold a tree. -/
structure Stored
    (h : P → Cell P D)
    (root : Option P)
    (t : Tree P D) : Prop where
  rep : Rep h none t
  root_eq : root = t.rootPtr
  nodup : t.nodes.Nodup

variable {root : Option P}

/- A store and a root determine the tree. -/
theorem Stored.unique
    {t t' : Tree P D}
    (hStored : Stored h root t)
    (hOther : Stored h root t') :
    t = t' :=
  hStored.rep.unique hOther.rep
    (hStored.root_eq.symm.trans hOther.root_eq)

/- The cell of a focused node. -/
theorem Stored.cell_eq
    {l r : Tree P D}
    {p : P}
    {d : D}
    (hStored : Stored h root (c.plug (.node l p d r))) :
    h p =
      { left := l.rootPtr
        right := r.rootPtr
        parent := c.parentPtr
        data := d } :=
  ((rep_plug_iff c _).mp hStored.rep).2.1

/- A subtree is replaced inside its context. -/
theorem Stored.replace
    {h h' : P → Cell P D}
    {root root' : Option P}
    {t t' : Tree P D}
    (hStored : Stored h root (c.plug t))
    (hNodup : (c.plug t').nodes.Nodup)
    (hRoot : c = [] → root' = t'.rootPtr)
    (hKeep : c ≠ [] → root' = root)
    (hNew : Rep h' c.parentPtr t')
    (hAgree :
      ∀ p ∈ c.nodes, c.parentPtr ≠ some p → h' p = h p)
    (hTop :
      ∀ f rest, c = f :: rest →
        h' f.ptr = f.cell t'.rootPtr (h f.ptr).parent) :
    Stored h' root' (c.plug t') := by
  have hCtx := ((rep_plug_iff c t).mp hStored.rep).1
  have hNodupC := ((Ctx.nodup_plug_iff c t').mp hNodup).1
  refine ⟨?_, ?_, hNodup⟩
  · exact (rep_plug_iff c t').mpr
      ⟨hCtx.replaceHole hNodupC hAgree hTop, hNew⟩
  · cases c with
    | nil => exact hRoot rfl
    | cons f c =>
        rw [hKeep (by simp), hStored.root_eq]
        exact Ctx.rootPtr_plug_congr c (by simp)

/- Distinctness inside a stored tree, read off its context. -/
theorem Stored.parentPtr_ne
    {t : Tree P D}
    (hStored : Stored h root (c.plug t))
    {p : P}
    (hp : p ∈ t.nodes) :
    c.parentPtr ≠ some p := by
  intro hPar
  have hNodup := hStored.nodup
  rw [Ctx.nodup_plug_iff] at hNodup
  cases c with
  | nil => cases hPar
  | cons f c =>
      have hpf : f.ptr = p := by simpa using hPar
      refine hNodup.2.2 p ?_ hp
      rw [(Ctx.nodes_cons_perm f c).mem_iff, hpf]
      simp

/- The other child of the cell above is a different one. -/
theorem Stored.sibling_ne
    {h : P → Cell P D}
    {root : Option P}
    {f : Frame P D}
    {c : Ctx P D}
    {t : Tree P D}
    (hStored : Stored h root (Ctx.plug (f :: c) t))
    {p : P}
    (hp : t.rootPtr = some p) :
    f.sibling.rootPtr ≠ some p := by
  intro hSib
  have hNodup := hStored.nodup
  rw [Ctx.nodup_plug_iff] at hNodup
  refine hNodup.2.2 p ?_ (Tree.mem_nodes_of_rootPtr hp)
  rw [(Ctx.nodes_cons_perm f c).mem_iff]
  simp [Tree.mem_nodes_of_rootPtr hSib]

/- A subtree with the same nodes keeps them distinct. -/
theorem Stored.nodup_of_perm
    {t t' : Tree P D}
    (hStored : Stored h root (c.plug t))
    (hPerm : t'.nodes.Perm t.nodes) :
    (c.plug t').nodes.Nodup := by
  have hAll :
      (c.plug t').nodes.Perm (c.plug t).nodes :=
    (Ctx.nodes_plug_perm c t').trans
      ((hPerm.append_left _).trans
        (Ctx.nodes_plug_perm c t).symm)
  exact hAll.nodup_iff.mpr hStored.nodup

/- Changing the data of one node. -/
theorem Stored.setData
    {h h' : P → Cell P D}
    {l r : Tree P D}
    {p : P}
    {d d' : D}
    (hStored : Stored h root (c.plug (.node l p d r)))
    (hp : h' p = { h p with data := d' })
    (hRest : ∀ q, q ≠ p → h' q = h q) :
    Stored h' root (c.plug (.node l p d' r)) := by
  have hNodup := hStored.nodup
  rw [Ctx.nodup_plug_iff] at hNodup
  rcases hNodup with ⟨_, hInner, hOuter⟩
  simp only [Tree.nodes_node, List.nodup_append,
    List.nodup_cons, List.mem_cons] at hInner
  have hCell := hStored.cell_eq
  rcases ((rep_plug_iff c _).mp hStored.rep).2 with
    ⟨_, hRepL, hRepR⟩
  apply hStored.replace
  · exact hStored.nodup_of_perm (by simp)
  · intro hc
    rw [hStored.root_eq, hc]
    rfl
  · intro _
    rfl
  · refine ⟨by rw [hp, hCell], ?_, ?_⟩
    · apply hRepL.congr
      intro q hq
      exact hRest q (hInner.2.2 q hq p (Or.inl rfl))
    · apply hRepR.congr
      intro q hq
      apply hRest q
      intro hqp
      exact hInner.2.1.1 (hqp ▸ hq)
  · intro q hq _
    apply hRest q
    intro hqp
    exact hOuter q hq (by simp [hqp])
  · intro f rest hc
    subst hc
    have hTop := (((rep_plug_iff _ _).mp hStored.rep).1).top
    have hfp : f.ptr ≠ p := by
      have hPar := hStored.parentPtr_ne (p := p) (by simp)
      simpa using hPar
    rw [hRest f.ptr hfp, hTop, Frame.parent_cell]
    rfl

--------------------
-- Rotations
--------------------

/-
  Which cells of `node a x _ (node b y _ e)` differ. The
  same facts hold for the rotated tree, since they only
  depend on the nodes.
-/
theorem Stored.rotation_distinct
    {a b e t : Tree P D}
    {x y : P}
    (hStored : Stored h root (c.plug t))
    (hNodes :
      t.nodes = a.nodes ++ x :: (b.nodes ++ y :: e.nodes)) :
    x ≠ y ∧ b.rootPtr ≠ some x ∧ b.rootPtr ≠ some y ∧
      c.parentPtr ≠ some x ∧ c.parentPtr ≠ some y ∧
      (∀ p, b.rootPtr = some p → c.parentPtr ≠ some p) := by
  have hNodup := hStored.nodup
  rw [Ctx.nodup_plug_iff, hNodes] at hNodup
  have hInner := hNodup.2.1
  simp only [List.nodup_append, List.nodup_cons,
    List.mem_append, List.mem_cons] at hInner
  have hMem :
      ∀ p, b.rootPtr = some p → p ∈ b.nodes :=
    fun p hp => Tree.mem_nodes_of_rootPtr hp
  refine ⟨?_, ?_, ?_, ?_, ?_, ?_⟩
  · intro hxy
    exact hInner.2.1.1 (Or.inr (Or.inl hxy))
  · intro hx
    exact hInner.2.1.1 (Or.inl (hMem x hx))
  · intro hy
    exact hInner.2.1.2.2.2 y (hMem y hy) y
      (Or.inl rfl) rfl
  · exact hStored.parentPtr_ne (by simp [hNodes])
  · exact hStored.parentPtr_ne (by simp [hNodes])
  · intro p hp
    exact hStored.parentPtr_ne (by simp [hNodes, hMem p hp])

section Rotation

variable {h h' : P → Cell P D}
variable {root root' : Option P}
variable {c : Ctx P D}
variable {a b e : Tree P D}
variable {x y : P}
variable {dx dy : D}

/-
  A rotation keeps the nodes in order. It writes `x`, `y`, the
  root of the subtree between them and the parent.
-/
theorem Stored.rotation_frame
    {t : Tree P D}
    (hStored : Stored h root (c.plug t))
    (hNodes : t.nodes = a.nodes ++ x :: (b.nodes ++ y :: e.nodes))
    (hRest :
      ∀ p, p ≠ x → p ≠ y → b.rootPtr ≠ some p →
        c.parentPtr ≠ some p → h' p = h p) :
    b.nodes.Nodup ∧
      (∀ p ∈ a.nodes ++ e.nodes, h' p = h p) ∧
      (∀ p ∈ b.nodes, b.rootPtr ≠ some p → h' p = h p) ∧
      ∀ p ∈ c.nodes, c.parentPtr ≠ some p → h' p = h p := by
  have hNodup := hStored.nodup
  rw [Ctx.nodup_plug_iff] at hNodup
  have hInner := hNodup.2.1
  have hOuter := hNodup.2.2
  rw [hNodes] at hInner hOuter
  simp only [List.nodup_append, List.nodup_cons,
    List.mem_append, List.mem_cons] at hInner hOuter
  have hMem :
      ∀ p, b.rootPtr = some p → p ∈ b.nodes :=
    fun p hp => Tree.mem_nodes_of_rootPtr hp
  refine ⟨by tauto, ?_, ?_, ?_⟩
  · intro p hp
    simp only [List.mem_append] at hp
    apply hRest p
    · grind
    · grind
    · intro hpb
      have hpb' := hMem p hpb
      grind
    · exact hStored.parentPtr_ne (by simp [hNodes]; tauto)
  · intro p hp hpb
    apply hRest p _ _ hpb
    · exact hStored.parentPtr_ne (by simp [hNodes, hp])
    · grind
    · grind
  · intro p hp hPar
    have hpOut := hOuter p hp
    apply hRest p (by tauto) (by tauto) _ hPar
    intro hpb
    exact hpOut (by simp [hMem p hpb])

/- The three subtrees stay, the middle one below `par`. -/
theorem Stored.rotation_subtrees
    {t : Tree P D}
    (hStored : Stored h root (c.plug t))
    (hNodes : t.nodes = a.nodes ++ x :: (b.nodes ++ y :: e.nodes))
    (hb :
      ∀ p, b.rootPtr = some p →
        h' p = { h p with parent := par })
    (hRest :
      ∀ p, p ≠ x → p ≠ y → b.rootPtr ≠ some p →
        c.parentPtr ≠ some p → h' p = h p) :
    (∀ {up}, Rep h up a → Rep h' up a) ∧
      (∀ {up}, Rep h up b → Rep h' par b) ∧
      (∀ {up}, Rep h up e → Rep h' up e) ∧
      ∀ p ∈ c.nodes, c.parentPtr ≠ some p → h' p = h p := by
  rcases hStored.rotation_frame hNodes hRest with
    ⟨hNodupB, hApart, hMiddle, hAbove⟩
  refine ⟨?_, ?_, ?_, hAbove⟩
  · intro up hRepA
    apply hRepA.congr
    intro p hp
    exact hApart p (List.mem_append_left _ hp)
  · intro up hRepB
    exact hRepB.reparent hNodupB hMiddle hb
  · intro up hRepE
    apply hRepE.congr
    intro p hp
    exact hApart p (List.mem_append_right _ hp)

/- Turning the right child `y` of `x` into its parent. -/
theorem Stored.rotateLeft
    (hStored :
      Stored h root
        (c.plug (.node a x dx (.node b y dy e))))
    (hx :
      h' x =
        { left := a.rootPtr, right := b.rootPtr
          parent := some y, data := dx })
    (hy :
      h' y =
        { left := some x, right := e.rootPtr
          parent := c.parentPtr, data := dy })
    (hb :
      ∀ p, b.rootPtr = some p →
        h' p = { h p with parent := some x })
    (hTop :
      ∀ f rest, c = f :: rest →
        h' f.ptr = f.cell (some y) (h f.ptr).parent)
    (hRest :
      ∀ p, p ≠ x → p ≠ y → b.rootPtr ≠ some p →
        c.parentPtr ≠ some p → h' p = h p)
    (hRoot : c = [] → root' = some y)
    (hKeep : c ≠ [] → root' = root) :
    Stored h' root'
      (c.plug (.node (.node a x dx b) y dy e)) := by
  have hNodes :
      (Tree.node a x dx (.node b y dy e)).nodes =
        a.nodes ++ x :: (b.nodes ++ y :: e.nodes) := by
    simp
  rcases hStored.rotation_subtrees hNodes hb hRest with
    ⟨hA, hB, hE, hAbove⟩
  rcases ((rep_plug_iff c _).mp hStored.rep).2 with
    ⟨_, hRepA, _, hRepB, hRepE⟩
  apply hStored.replace _ hRoot hKeep _ _ hTop
  · exact hStored.nodup_of_perm (by simp)
  · exact ⟨hy, ⟨hx, hA hRepA, hB hRepB⟩, hE hRepE⟩
  · exact hAbove

/- Turning the left child `x` of `y` into its parent. -/
theorem Stored.rotateRight
    (hStored :
      Stored h root
        (c.plug (.node (.node a x dx b) y dy e)))
    (hx :
      h' x =
        { left := a.rootPtr, right := some y
          parent := c.parentPtr, data := dx })
    (hy :
      h' y =
        { left := b.rootPtr, right := e.rootPtr
          parent := some x, data := dy })
    (hb :
      ∀ p, b.rootPtr = some p →
        h' p = { h p with parent := some y })
    (hTop :
      ∀ f rest, c = f :: rest →
        h' f.ptr = f.cell (some x) (h f.ptr).parent)
    (hRest :
      ∀ p, p ≠ x → p ≠ y → b.rootPtr ≠ some p →
        c.parentPtr ≠ some p → h' p = h p)
    (hRoot : c = [] → root' = some x)
    (hKeep : c ≠ [] → root' = root) :
    Stored h' root'
      (c.plug (.node a x dx (.node b y dy e))) := by
  have hNodes :
      (Tree.node (.node a x dx b) y dy e).nodes =
        a.nodes ++ x :: (b.nodes ++ y :: e.nodes) := by
    simp
  rcases hStored.rotation_subtrees hNodes hb hRest with
    ⟨hA, hB, hE, hAbove⟩
  rcases ((rep_plug_iff c _).mp hStored.rep).2 with
    ⟨_, ⟨_, hRepA, hRepB⟩, hRepE⟩
  apply hStored.replace _ hRoot hKeep _ _ hTop
  · exact hStored.nodup_of_perm (by simp)
  · exact ⟨hx, hA hRepA, hy, hB hRepB, hE hRepE⟩
  · exact hAbove

end Rotation

end LinkedTree
