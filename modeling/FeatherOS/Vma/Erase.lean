import FeatherOS.Library.TreeRemoval
import FeatherOS.Vma.Insert
import FeatherOS.Vma.Munmap

/-
  `vma_rb_erase` on a stored tree.

  A node with at most one child is spliced out. A node with
  two children gives its place to the leftmost node of its
  right subtree; where that node is the right child itself,
  the code makes it its own right child and its own parent,
  and what was below it is lost.

  Main declarations:
    * `vmaRbSplice_blackens`
    * `vmaRbTakeOver_holds`
    * `vmaRbTakeOver_loop`
-/

namespace FeatherOS

open LinkedTree

--------------------
-- Cells
--------------------

variable {m : VmaRbTree}
variable {c : AreaCtx}

namespace VmaRbTree

/- What relinking the parent of a node's place changes. -/
structure Relinked
    (c : AreaCtx)
    (hole : Option Addr)
    (m m' : VmaRbTree) : Prop where
  rest : ∀ q, c.parentPtr ≠ some q → m'.cell q = m.cell q
  top : ∀ f rest, c = f :: rest →
    m'.cell f.ptr = f.cell hole (m.cell f.ptr).parent
  root_nil : c = [] → m'.root = hole
  root_cons : c ≠ [] → m'.root = m.root

theorem relinkChild_relinked
    {x : Addr}
    (hole : Option Addr)
    (hTop : ∀ f rest, c = f :: rest →
      m.cell f.ptr =
          f.cell (some x) (m.cell f.ptr).parent ∧
        f.sibling.rootPtr ≠ some x) :
    Relinked c hole m (m.relinkChild c.parentPtr x hole) := by
  cases c with
  | nil =>
      refine ⟨fun q _ => rfl, ?_, fun _ => rfl, ?_⟩
      · intro f rest hc
        cases hc
      · intro hc
        exact absurd rfl hc
  | cons f c =>
      rcases hTop f c rfl with ⟨hCell, hSib⟩
      have hRoot :
          (m.relinkChild (some f.ptr) x hole).root =
            m.root := by
        unfold relinkChild
        by_cases hSide : (m.nodes f.ptr).left = some x
        · simp [hSide]
        · simp [hSide]
      refine ⟨?_, ?_, ?_, fun _ => hRoot⟩
      · intro q hq
        have hqf : q ≠ f.ptr := fun h => hq (by simp [h])
        simp only [Ctx.parentPtr_cons, relinkChild]
        by_cases hSide : (m.nodes f.ptr).left = some x
        · simp [hSide, hqf]
        · simp [hSide, hqf]
      · intro f' rest hc
        cases hc
        simp only [Ctx.parentPtr_cons, relinkChild,
          left_eq_cell]
        generalize (m.cell f.ptr).parent = par at hCell ⊢
        cases f with
        | left p d r =>
            have hCell' : m.cell p = _ := hCell
            simp [hCell', Frame.cell]
        | right l p d =>
            have hCell' : m.cell p = _ := hCell
            have hl : l.rootPtr ≠ some x := hSib
            simp [hCell', Frame.cell, hl]
      · intro hc
        cases hc

/- The cell above a node's place is none of these. -/
theorem replace_none
    {f : Frame Addr (Color × Vma)}
    {par hole : Option Addr}
    {old : Addr}
    (hCell : m.cell f.ptr = f.cell hole par)
    (hHole : hole ≠ some old)
    (hSib : f.sibling.rootPtr ≠ some old)
    (v : Option Addr) :
    m.replaceLeft (some f.ptr) old v = m ∧
      m.replaceRight (some f.ptr) old v = m := by
  simp only [replaceLeft, replaceRight, left_eq_cell,
    right_eq_cell, hCell]
  cases f with
  | left p d r =>
      have hr : r.rootPtr ≠ some old := hSib
      simp [Frame.cell, hHole, hr]
  | right l p d =>
      have hl : l.rootPtr ≠ some old := hSib
      simp [Frame.cell, hHole, hl]

theorem parent_replaceLeft
    (m : VmaRbTree)
    (q : Option Addr)
    (old p : Addr)
    (v : Option Addr) :
    ((m.replaceLeft q old v).cell p).parent =
      (m.cell p).parent := by
  cases q with
  | none => rfl
  | some q =>
      unfold replaceLeft
      by_cases hSide : (m.nodes q).left = some old
      · by_cases hpq : p = q
        · subst hpq
          simp [hSide]
        · simp [hSide, hpq]
      · simp [hSide]

end VmaRbTree

/- The frame above a stored subtree. -/
theorem VmaRbTree.Holds.frame
    {l r : AreaTree}
    {p : Addr}
    {d : Color × Vma}
    (hHolds : m.Holds (c.plug (.node l p d r))) :
    ∀ f rest, c = f :: rest →
      m.cell f.ptr =
          f.cell (some p) (m.cell f.ptr).parent ∧
        f.sibling.rootPtr ≠ some p := by
  rintro f rest rfl
  have hTop := (((rep_plug_iff _ _).mp hHolds.rep).1).top
  refine ⟨?_, hHolds.sibling_ne rfl⟩
  rw [hTop, Frame.parent_cell]
  rfl

--------------------
-- Splicing
--------------------

/- The tree with its root turned black -/
def blackenRoot : AreaTree → AreaTree
  | .nil => .nil
  | .node l p d r => .node l p (.black, d.2) r

@[simp] theorem areas_blackenRoot
    (t : AreaTree) :
    areas (blackenRoot t) = areas t := by
  cases t with
  | nil => rfl
  | node => simp [blackenRoot, areas]

/- The only child takes the place of the node, in black. -/
theorem vmaRbSplice_blackens
    {l r s : AreaTree}
    {p : Addr}
    {d : Color × Vma}
    (hHolds : m.Holds (c.plug (.node l p d r)))
    (hChild : s = l ∧ r = .nil ∨ s = r ∧ l = .nil) :
    (vmaRbSplice m p).Holds (c.plug (blackenRoot s)) := by
  have hCell := hHolds.cell_eq
  have hs :
      (if l.rootPtr.isSome then l.rootPtr else r.rootPtr) =
        s.rootPtr := by
    rcases hChild with ⟨rfl, rfl⟩ | ⟨rfl, rfl⟩
    · cases s with
      | nil => rfl
      | node => rfl
    · rfl
  have hIn : ∀ q, s.rootPtr = some q →
      q ∈ (LinkedTree.Tree.node l p d r).nodes := by
    intro q hq
    have hMem := Tree.mem_nodes_of_rootPtr hq
    rcases hChild with ⟨rfl, _⟩ | ⟨rfl, _⟩
    · simp [hMem]
    · simp [hMem]
  have hPar : ∀ q, s.rootPtr = some q →
      c.parentPtr ≠ some q :=
    fun q hq => hHolds.parentPtr_ne (hIn q hq)
  have hRelink :
      VmaRbTree.Relinked c s.rootPtr
        (m.setParentIf s.rootPtr c.parentPtr)
        ((m.setParentIf s.rootPtr c.parentPtr).relinkChild
          c.parentPtr p s.rootPtr) := by
    apply VmaRbTree.relinkChild_relinked
    rintro f rest hc
    have hNe : s.rootPtr ≠ some f.ptr := by
      intro hq
      exact hPar _ hq (by simp [hc])
    rcases hHolds.frame f rest hc with ⟨hTop, hSib⟩
    simp only [VmaRbTree.cell_setParentIf, hNe, if_false]
    exact ⟨hTop, hSib⟩
  have hMid :
      ((m.setParentIf s.rootPtr c.parentPtr).relinkChild
          c.parentPtr p s.rootPtr).Holds (c.plug s) := by
    apply hHolds.splice hChild
    · intro q hq
      rw [hRelink.rest q (hPar q hq)]
      simp [hq]
    · intro f rest hc
      have hNe : s.rootPtr ≠ some f.ptr := by
        intro hq
        exact hPar _ hq (by simp [hc])
      rw [hRelink.top f rest hc]
      simp [hNe]
    · intro q _ hqs hqc
      rw [hRelink.rest q hqc]
      simp [hqs]
    · exact hRelink.root_nil
    · intro hc
      rw [hRelink.root_cons hc, VmaRbTree.root_setParentIf]
  have hEq :
      vmaRbSplice m p =
        ((m.setParentIf s.rootPtr c.parentPtr).relinkChild
          c.parentPtr p s.rootPtr).setColorIf s.rootPtr
            .black := by
    unfold vmaRbSplice
    simp only [VmaRbTree.left_eq_cell, VmaRbTree.right_eq_cell,
      VmaRbTree.parent_eq_cell, hCell, hs]
  rw [hEq]
  cases s with
  | nil => exact hMid
  | node sl q dq sr => exact hMid.setColor .black

--------------------
-- Taking Over
--------------------

section TakeOver

variable {m : VmaRbTree}
variable {c : AreaCtx}
variable {old node q : Addr}
variable {d dn : Color × Vma}
variable {L R E : Option Addr}

/- The links of `old` are copied; nothing leads to it then. -/
theorem vmaRbInstall_eq
    (hOld : m.cell old =
      { left := L, right := R
        parent := c.parentPtr, data := d })
    (hne : old ≠ node)
    (hL : L ≠ some old)
    (hR : R ≠ some old)
    (hTop : ∀ f rest, c = f :: rest →
      m.cell f.ptr =
          f.cell (some node) (m.cell f.ptr).parent ∧
        f.sibling.rootPtr ≠ some old ∧ f.ptr ≠ node ∧
        L ≠ some f.ptr ∧ R ≠ some f.ptr) :
    vmaRbInstall m old node =
      (((((m.setParent node c.parentPtr).setLeft node
          L).setRight node R).setColor node d.1).setParentIf L
            (some node)).setParentIf R (some node) := by
  simp only [vmaRbInstall, VmaRbTree.left_eq_cell,
    VmaRbTree.right_eq_cell, VmaRbTree.parent_eq_cell,
    VmaRbTree.color_eq_cell, VmaRbTree.cell_setParent,
    VmaRbTree.cell_setLeft, VmaRbTree.cell_setRight,
    VmaRbTree.cell_setColor, VmaRbTree.cell_setParentIf,
    VmaRbTree.parent_replaceLeft, hne, if_false, hL, hR, hOld]
  cases c with
  | nil => rfl
  | cons f c =>
      rcases hTop f c rfl with ⟨hCell, hSib, hfn, hLf, hRf⟩
      have hHole : some node ≠ some old := by
        simpa using hne.symm
      simp only [Ctx.parentPtr_cons]
      generalize hFinal :
        ((((((m.setParent node (some f.ptr)).setLeft node
          L).setRight node R).setColor node d.1).setParentIf L
            (some node)).setParentIf R (some node)) = m'
      have hCell' :
          m'.cell f.ptr =
            f.cell (some node) (m.cell f.ptr).parent := by
        rw [← hFinal, ← hCell]
        simp [hfn, hLf, hRf]
      rcases VmaRbTree.replace_none hCell' hHole hSib
          (some node) with
        ⟨hLeft, hRight⟩
      rw [hLeft]
      exact hRight

/- The node is the right child of `old`. -/
theorem vmaRbUnhook_child
    (hNode : m.cell node =
      { left := none, right := E
        parent := some old, data := dn })
    (hOldPar : (m.cell old).parent = c.parentPtr)
    (hPar : c.parentPtr ≠ some node)
    (hE : E ≠ some node)
    (hTop : ∀ f rest, c = f :: rest →
      m.cell f.ptr =
          f.cell (some old) (m.cell f.ptr).parent ∧
        f.sibling.rootPtr ≠ some old) :
    vmaRbUnhook m old node =
      (m.relinkChild c.parentPtr old (some node)).setParentIf E
        (some node) := by
  have hRelink :=
    VmaRbTree.relinkChild_relinked (some node) hTop
  have hNode' := (hRelink.rest node hPar).trans hNode
  simp only [vmaRbUnhook, VmaRbTree.parent_eq_cell,
    VmaRbTree.right_eq_cell, hOldPar, hNode, hNode', if_true]
  have hKept :
      ((m.relinkChild c.parentPtr old
        (some node)).setParentIf E (some node)).cell node =
          { left := none, right := E
            parent := some old, data := dn } := by
    simp [hE, hNode']
  simp [VmaRbTree.replaceLeft, VmaRbTree.replaceRight,
    VmaRbTree.left_eq_cell, VmaRbTree.right_eq_cell, hKept, hE]

/- The node is the left child of another cell `q`. -/
theorem vmaRbUnhook_deep
    (hNode : m.cell node =
      { left := none, right := E
        parent := some q, data := dn })
    (hq : (m.cell q).left = some node)
    (hqr : (m.cell q).right ≠ some node)
    (hqo : q ≠ old)
    (hOldPar : (m.cell old).parent = c.parentPtr)
    (hPar : c.parentPtr ≠ some node)
    (hParq : c.parentPtr ≠ some q)
    (hEq : E ≠ some q)
    (hTop : ∀ f rest, c = f :: rest →
      m.cell f.ptr =
          f.cell (some old) (m.cell f.ptr).parent ∧
        f.sibling.rootPtr ≠ some old) :
    vmaRbUnhook m old node =
      ((m.relinkChild c.parentPtr old
        (some node)).setParentIf E (some q)).setLeft q E := by
  have hRelink :=
    VmaRbTree.relinkChild_relinked (some node) hTop
  have hNode' := (hRelink.rest node hPar).trans hNode
  have hCell' := hRelink.rest q hParq
  have hqo' : some q ≠ some old := by simpa using hqo
  simp only [vmaRbUnhook, VmaRbTree.parent_eq_cell,
    VmaRbTree.right_eq_cell, hOldPar, hNode, hNode', hqo',
    if_false]
  generalize hMid :
    (m.relinkChild c.parentPtr old
      (some node)).setParentIf E (some q) = m'
  have hMidq : m'.cell q = m.cell q := by
    rw [← hMid]
    simp [hEq, hCell']
  simp [VmaRbTree.replaceLeft, VmaRbTree.replaceRight,
    VmaRbTree.left_eq_cell, VmaRbTree.right_eq_cell, hMidq, hq,
    hqr]

variable {c' : AreaCtx}
variable {l e rq : AreaTree}
variable {p x : Addr}
variable {dx dq : Color × Vma}

/-
  The right child itself: but for its own right and parent
  pointer the memory holds the tree without `old`.
-/
theorem vmaRbTakeOver_loop
    (hHolds : m.Holds
      (c.plug (.node l p d (.node .nil x dx e)))) :
    (((vmaRbTakeOver m p x).setRight x e.rootPtr).setParent x
        c.parentPtr).Holds
          (c.plug (.node l x (d.1, dx.2) e)) ∧
      ((vmaRbTakeOver m p x).cell x).right = some x ∧
      ((vmaRbTakeOver m p x).cell x).parent = some x := by
  have hp := hHolds.cell_eq
  have hx :
      m.cell x =
        { left := none, right := e.rootPtr
          parent := some p, data := dx } :=
    ((rep_plug_iff c _).mp hHolds.rep).2.2.2.1
  have hNodup := hHolds.nodup
  rw [Ctx.nodup_plug_iff] at hNodup
  have hInner := hNodup.2.1
  simp only [Tree.nodes_node, Tree.nodes_nil, List.nil_append,
    List.nodup_append, List.nodup_cons, List.mem_cons]
    at hInner
  have hMem : ∀ {s : AreaTree} {z : Addr},
      s.rootPtr = some z → z ∈ s.nodes :=
    fun hz => Tree.mem_nodes_of_rootPtr hz
  have hpx : p ≠ x := by grind
  have hlp : l.rootPtr ≠ some p := by grind
  have hlx : l.rootPtr ≠ some x := by grind
  have hep : e.rootPtr ≠ some p := by grind
  have hex : e.rootPtr ≠ some x := by grind
  have hxp' : some x ≠ some p := by simpa using hpx.symm
  have hle : ∀ z, l.rootPtr = some z → e.rootPtr ≠ some z := by
    grind
  have hPar : ∀ z ∈ (LinkedTree.Tree.node l p d
      (.node .nil x dx e)).nodes, c.parentPtr ≠ some z :=
    fun z hz => hHolds.parentPtr_ne hz
  have hParx : c.parentPtr ≠ some x := hPar x (by simp)
  have hParp : c.parentPtr ≠ some p := hPar p (by simp)
  have hFrame := hHolds.frame
  have hRelink :=
    VmaRbTree.relinkChild_relinked (some x) hFrame
  have hUnhook :=
    vmaRbUnhook_child (c := c) hx (by rw [hp]) hParx hex hFrame
  have hp' :
      (vmaRbUnhook m p x).cell p =
        { left := l.rootPtr, right := some x
          parent := c.parentPtr, data := d } := by
    rw [hUnhook, VmaRbTree.cell_setParentIf, if_neg hep,
      hRelink.rest p hParp, hp]
    rfl
  have hTop' : ∀ f rest, c = f :: rest →
      (vmaRbUnhook m p x).cell f.ptr =
          f.cell (some x)
            ((vmaRbUnhook m p x).cell f.ptr).parent ∧
        f.sibling.rootPtr ≠ some p ∧ f.ptr ≠ x ∧
        l.rootPtr ≠ some f.ptr ∧ some x ≠ some f.ptr := by
    intro f rest hc
    have hOut : ∀ z ∈ (LinkedTree.Tree.node l p d
        (.node .nil x dx e)).nodes, z ≠ f.ptr := by
      rintro z hz rfl
      exact hPar _ hz (by simp [hc])
    have hxf := hOut x (by simp)
    have hef : e.rootPtr ≠ some f.ptr := fun hz =>
      hOut _ (by simp [hMem hz]) rfl
    have hlf : l.rootPtr ≠ some f.ptr := fun hz =>
      hOut _ (by simp [hMem hz]) rfl
    refine ⟨?_, (hFrame f rest hc).2, hxf.symm, hlf, ?_⟩
    · rw [hUnhook, VmaRbTree.cell_setParentIf, if_neg hef,
        hRelink.top f rest hc, Frame.parent_cell]
    · simpa using hxf
  have hInstall :=
    vmaRbInstall_eq hp' hpx hlp hxp' hTop'
  unfold vmaRbTakeOver
  rw [hInstall, hUnhook]
  have hRoot := hRelink.root_nil
  have hKeep := hRelink.root_cons
  have hRest := hRelink.rest
  have hTop := hRelink.top
  generalize m.relinkChild c.parentPtr p (some x) = m₁ at *
  refine ⟨?_, by simp [hlx], by simp⟩
  refine @Stored.takeOver _ _ m.cell _ m.root _ c [] l p x d
    (d.1, dx.2)
    (fun z =>
      if e.rootPtr = some z then
        { m.cell z with parent := some p }
      else if z = p then
        { m.cell z with right := e.rootPtr }
      else
        m.cell z)
    e dx hHolds ?_ ?_ ?_ ?_ ?_ ?_ ?_ ?_ ?_
  · intro z hz
    simp [hz]
  · rintro f rest hc
    cases hc
    simp [hep, hp, Frame.cell]
  · intro z hz hzp
    have hzp' : z ≠ p := by
      rintro rfl
      exact hzp rfl
    simp [hz, hzp']
  · simp [hlx, hex, hRest x hParx, hx]
  · intro z hz
    have hzx : z ≠ x := by
      rcases hz with hz | hz
      · exact fun hEq => hlx (hEq ▸ hz)
      · exact fun hEq => hex (hEq ▸ hz)
    have hzp : z ≠ p := by
      rcases hz with hz | hz
      · exact fun hEq => hlp (hEq ▸ hz)
      · exact fun hEq => hep (hEq ▸ hz)
    have hzc : c.parentPtr ≠ some z := by
      refine hPar z ?_
      rcases hz with hz | hz
      · simp [hMem hz]
      · have hz' : e.rootPtr = some z := hz
        simp [hMem hz']
    rcases hz with hz | hz
    · simp [hzx, hz, hle z hz, hzp, hRest z hzc]
    · have hz' : e.rootPtr = some z := hz
      have hlz : l.rootPtr ≠ some z := fun h => hle z h hz'
      simp [hzx, hz', hlz, hRest z hzc]
  · intro f rest hc
    rcases hTop' f rest hc with ⟨_, _, hfx, hlf, hxf⟩
    have hef : e.rootPtr ≠ some f.ptr := by
      intro hz
      exact hPar f.ptr (by simp [hMem hz]) (by simp [hc])
    simp [hfx, hlf, hxf, hef, hTop f rest hc]
  · intro z hzx hzp hlz hez hzc
    have hez' : e.rootPtr ≠ some z := hez
    simp [hzx, hzx.symm, hlz, hez', hzp, hRest z hzc]
  · intro hc
    simp [hRoot hc]
  · intro hc
    simp [hKeep hc]

/- The nodes of a right subtree with a left child further down -/
theorem mem_deep_iff
    {t : AreaTree}
    {z : Addr} :
    z ∈ (Ctx.plug (.left q dq rq :: c') t).nodes ↔
      (z = q ∨ z ∈ rq.nodes ∨ z ∈ c'.nodes) ∨ z ∈ t.nodes := by
  rw [Ctx.mem_plug_iff, (Ctx.nodes_cons_perm _ _).mem_iff]
  simp [Frame.sibling]

theorem mem_deep_of_top
    {z : Addr}
    (hTop :
      (Ctx.plug (.left q dq rq :: c') e).rootPtr = some z) :
    z = q ∨ z ∈ rq.nodes ∨ z ∈ c'.nodes := by
  have hIn := Ctx.mem_nodes_of_rootPtr hTop
  simpa [(Ctx.nodes_cons_perm _ _).mem_iff, Frame.sibling] using
    hIn

/- The pointers around a node further down are different. -/
structure DeepApart
    (l e rq : AreaTree)
    (p q x : Addr)
    (top : Option Addr) : Prop where
  old_ne : p ≠ x
  parent_ne : q ≠ x
  parent_ne_old : q ≠ p
  left_old : l.rootPtr ≠ some p
  left_node : l.rootPtr ≠ some x
  left_parent : l.rootPtr ≠ some q
  right_old : e.rootPtr ≠ some p
  right_node : e.rootPtr ≠ some x
  right_parent : e.rootPtr ≠ some q
  sibling_node : rq.rootPtr ≠ some x
  top_old : top ≠ some p
  top_node : top ≠ some x
  left_right : ∀ z, l.rootPtr = some z → e.rootPtr ≠ some z
  left_top : ∀ z, l.rootPtr = some z → top ≠ some z
  top_right : ∀ z, top = some z → e.rootPtr ≠ some z

theorem deepApart
    (hNodup :
      (LinkedTree.Tree.node l p d
        (Ctx.plug (.left q dq rq :: c')
          (.node .nil x dx e))).nodes.Nodup) :
    DeepApart l e rq p q x
      (Ctx.plug (.left q dq rq :: c') e).rootPtr := by
  simp only [Tree.nodes_node, List.nodup_append,
    List.nodup_cons, List.mem_cons, mem_deep_iff] at hNodup
  rcases hNodup with ⟨_, ⟨hpr, hNodupR⟩, hCross⟩
  rw [Ctx.nodup_plug_iff, Ctx.nodup_cons_iff] at hNodupR
  rcases hNodupR with ⟨⟨hqs, _, _, _, _⟩, hNodupX, hApart⟩
  simp only [Tree.nodes_node, Tree.nodes_nil, List.nil_append,
    List.nodup_cons, List.mem_cons, not_or,
    (Ctx.nodes_cons_perm _ _).mem_iff, Frame.ptr_left,
    Frame.sibling, List.mem_append] at hNodupX hApart hqs hpr hCross
  have hMem : ∀ {s : AreaTree} {z : Addr},
      s.rootPtr = some z → z ∈ s.nodes :=
    fun hz => Tree.mem_nodes_of_rootPtr hz
  have hTopMem : ∀ z,
      (Ctx.plug (.left q dq rq :: c') e).rootPtr = some z →
        z = q ∨ z ∈ rq.nodes ∨ z ∈ c'.nodes :=
    fun z hz => mem_deep_of_top hz
  generalize (Ctx.plug (.left q dq rq :: c') e).rootPtr = top
    at *
  constructor <;> grind

/-
  A node further down: the memory holds the tree with it in
  the place of `old`.
-/
theorem vmaRbTakeOver_holds
    (hHolds : m.Holds
      (c.plug (.node l p d
        (Ctx.plug (.left q dq rq :: c')
          (.node .nil x dx e))))) :
    (vmaRbTakeOver m p x).Holds
      (c.plug (.node l x (d.1, dx.2)
        (Ctx.plug (.left q dq rq :: c') e))) := by
  have hp := hHolds.cell_eq
  have hWhole :
      m.Holds
        (Ctx.plug ((.left q dq rq :: c') ++ .right l p d :: c)
          (.node .nil x dx e)) :=
    (Ctx.plug_append _ _ _).symm ▸ hHolds
  have hx :
      m.cell x =
        { left := none, right := e.rootPtr
          parent := some q, data := dx } :=
    hWhole.cell_eq
  have hq :
      m.cell q =
        { left := some x, right := rq.rootPtr
          parent := Ctx.parentPtr (c' ++ .right l p d :: c)
          data := dq } :=
    (((rep_plug_iff _ _).mp hWhole.rep).1).top
  have hNodup := hHolds.nodup
  rw [Ctx.nodup_plug_iff] at hNodup
  have hSame :
      (Ctx.plug (.left q dq rq :: c')
          (.node .nil x dx e)).rootPtr =
        (Ctx.plug (.left q dq rq :: c') e).rootPtr :=
    Ctx.rootPtr_plug_congr c' (by simp)
  rw [hSame] at hp
  have hTopMem : ∀ z,
      (Ctx.plug (.left q dq rq :: c') e).rootPtr = some z →
        z = q ∨ z ∈ rq.nodes ∨ z ∈ c'.nodes :=
    fun z hz => mem_deep_of_top hz
  rcases deepApart hNodup.2.1 with
    ⟨hpx, hqx, hqp, hlp, hlx, hlq, hep, hex, heq, hrx, htp, htx,
      hle, hlt, hte⟩
  generalize hTopPtr :
    (Ctx.plug (.left q dq rq :: c') e).rootPtr = top at *
  have hPar : ∀ z,
      z ∈ l.nodes ∨ z = p ∨
          (z = q ∨ z ∈ rq.nodes ∨ z ∈ c'.nodes) ∨
            z = x ∨ z ∈ e.nodes →
        c.parentPtr ≠ some z := by
    intro z hz
    refine hHolds.parentPtr_ne ?_
    rw [Tree.nodes_node, List.mem_append, List.mem_cons,
      mem_deep_iff, Tree.nodes_node]
    simpa using hz
  have hParx : c.parentPtr ≠ some x := hPar x (by tauto)
  have hParp : c.parentPtr ≠ some p := hPar p (by tauto)
  have hParq : c.parentPtr ≠ some q := hPar q (by tauto)
  have hFrame := hHolds.frame
  have hRelink :=
    VmaRbTree.relinkChild_relinked (some x) hFrame
  have hUnhook :=
    vmaRbUnhook_deep (c := c) hx (by rw [hq])
      (by rw [hq]; exact hrx) hqp (by rw [hp]) hParx hParq heq
      hFrame
  have hRest := hRelink.rest
  have hTop := hRelink.top
  have hRoot := hRelink.root_nil
  have hKeep := hRelink.root_cons
  unfold vmaRbTakeOver
  rw [hUnhook]
  generalize m.relinkChild c.parentPtr p (some x) = m₁ at *
  have hOut : ∀ f rest, c = f :: rest →
      f.ptr ≠ x ∧ f.ptr ≠ q ∧ e.rootPtr ≠ some f.ptr ∧
        l.rootPtr ≠ some f.ptr ∧ top ≠ some f.ptr := by
    intro f rest hc
    have hParf : c.parentPtr = some f.ptr := by rw [hc]; rfl
    refine ⟨?_, ?_, ?_, ?_, ?_⟩
    · exact fun h => hParx (h ▸ hParf)
    · exact fun h => hParq (h ▸ hParf)
    · exact fun h =>
        hPar _ (by simp [Tree.mem_nodes_of_rootPtr h]) hParf
    · exact fun h =>
        hPar _ (by simp [Tree.mem_nodes_of_rootPtr h]) hParf
    · exact fun h => hPar _ (by simp [hTopMem _ h]) hParf
  rw [@vmaRbInstall_eq _ c p x d l.rootPtr top
    (by simp [hqp.symm, hep, hRest p hParp, hp]) hpx hlp htp
    (by
      intro f rest hc
      rcases hOut f rest hc with ⟨hfx, hfq, hef, hlf, htf⟩
      refine ⟨?_, (hFrame f rest hc).2, hfx, hlf, htf⟩
      simp [hfq, hef, hTop f rest hc, Frame.parent_cell])]
  refine @Stored.takeOver _ _ m.cell _ m.root _ c
    (.left q dq rq :: c') l p x d (d.1, dx.2)
    (fun z =>
      if e.rootPtr = some z then
        { m.cell z with parent := some q }
      else if z = q then
        { m.cell z with left := e.rootPtr }
      else
        m.cell z)
    e dx hHolds ?_ ?_ ?_ ?_ ?_ ?_ ?_ ?_ ?_
  · intro z hz
    simp [hz]
  · rintro f rest hc
    cases hc
    simp [heq, hq, Frame.cell]
  · intro z hz hzq
    have hzq' : z ≠ q := by
      rintro rfl
      exact hzq rfl
    simp [hz, hzq']
  · rw [hTopPtr]
    simp [hlx, htx, hex, hqx.symm, hRest x hParx, hx]
  · intro z hz
    rw [hTopPtr] at hz
    have hzx : z ≠ x := by
      rcases hz with hz | hz
      · exact fun hEq => hlx (hEq ▸ hz)
      · exact fun hEq => htx (hEq ▸ hz)
    have hzc : c.parentPtr ≠ some z := by
      refine hPar z ?_
      rcases hz with hz | hz
      · exact Or.inl (Tree.mem_nodes_of_rootPtr hz)
      · exact Or.inr (Or.inr (Or.inl (hTopMem z hz)))
    have hez : e.rootPtr ≠ some z := by
      rcases hz with hz | hz
      · exact hle z hz
      · exact hte z hz
    rcases hz with hz | hz
    · have hzq : z ≠ q := fun h => hlq (h ▸ hz)
      simp [hzx, hez, hRest z hzc, hz, hzq]
    · have hlz : l.rootPtr ≠ some z := fun h => hlt z h hz
      by_cases hzq : z = q
      · subst hzq
        simp [hzx, hez, hRest z hzc, hz, hlz]
      · simp [hzx, hez, hRest z hzc, hz, hlz, hzq]
  · intro f rest hc
    rcases hOut f rest hc with ⟨hfx, hfq, hef, hlf, htf⟩
    simp [hfx, hfq, hef, hlf, htf, hTop f rest hc]
  · intro z hzx hzp hlz htz hzc
    rw [hTopPtr] at htz
    by_cases hez : e.rootPtr = some z
    · have hzq : z ≠ q := fun h => heq (h ▸ hez)
      simp [hzx, hlz, htz, hez, hzq, hRest z hzc]
    · by_cases hzq : z = q
      · subst hzq
        simp [hzx, hlz, htz, hez, hRest z hzc]
      · simp [hzx, hlz, htz, hez, hzq, hRest z hzc]
  · intro hc
    simp [hRoot hc]
  · intro hc
    simp [hKeep hc]

end TakeOver

end FeatherOS
