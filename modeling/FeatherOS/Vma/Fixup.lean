import FeatherOS.Vma.Model

/-
  Rotations and the fixup loop of the area tree.

  Each function of the source is followed on the tree that
  the memory holds. The fixup loop is described by a subtree
  with a red root inside a balanced context: one turn moves
  it two levels up or puts a black cell above it.

  Main declarations:
    * `VmaRbTree.Holds`
    * `vmaRbRotateLeft_holds`
    * `vmaRbRotateRight_holds`
    * `FixupInv`
    * `fixupTurn_inv`
    * `vmaRbInsertFixup_holds`
-/

namespace FeatherOS

open LinkedTree

/- Trees of areas with their colours. -/
abbrev AreaTree := Tree Addr (Color × Vma)

/- Contexts of such trees. -/
abbrev AreaCtx := Ctx Addr (Color × Vma)

/- The memory and root pointer of `m` hold the tree `t`. -/
abbrev VmaRbTree.Holds
    (m : VmaRbTree)
    (t : AreaTree) : Prop :=
  Stored m.cell m.root t

--------------------
-- Rotations
--------------------

variable {m : VmaRbTree}
variable {x y : Addr}
variable {par : Option Addr}
variable {f : Frame Addr (Color × Vma)}

namespace VmaRbTree

theorem left_eq_cell
    (m : VmaRbTree)
    (p : Addr) :
    (m.nodes p).left = (m.cell p).left := rfl

theorem right_eq_cell
    (m : VmaRbTree)
    (p : Addr) :
    (m.nodes p).right = (m.cell p).right := rfl

theorem parent_eq_cell
    (m : VmaRbTree)
    (p : Addr) :
    (m.nodes p).parent = (m.cell p).parent := rfl

theorem color_eq_cell
    (m : VmaRbTree)
    (p : Addr) :
    (m.nodes p).color = (m.cell p).data.1 := rfl

theorem vma_eq_cell
    (m : VmaRbTree)
    (p : Addr) :
    (m.nodes p).vma = (m.cell p).data.2 := rfl

/- Relinking below a frame changes that one cell. -/
theorem cell_relinkLeft
    (hCell : m.cell f.ptr = f.cell (some x) par)
    (hSib : f.sibling.rootPtr ≠ some x)
    (q : Addr) :
    (m.relinkLeft (some f.ptr) x y).cell q =
      if q = f.ptr then f.cell (some y) par
      else m.cell q := by
  simp only [relinkLeft, left_eq_cell, hCell]
  by_cases hq : q = f.ptr
  · subst hq
    cases f with
    | left p d r =>
        have hCell' : m.cell p = _ := hCell
        simp [hCell', Frame.cell]
    | right l p d =>
        have hCell' : m.cell p = _ := hCell
        have hl : l.rootPtr ≠ some x := hSib
        simp [hCell', Frame.cell, hl]
  · by_cases hSide : (f.cell (some x) par).left = some x
    · simp [hq, hSide]
    · simp [hq, hSide]

/- The mirror image of `cell_relinkLeft`. -/
theorem cell_relinkRight
    (hCell : m.cell f.ptr = f.cell (some x) par)
    (hSib : f.sibling.rootPtr ≠ some x)
    (q : Addr) :
    (m.relinkRight (some f.ptr) x y).cell q =
      if q = f.ptr then f.cell (some y) par
      else m.cell q := by
  simp only [relinkRight, right_eq_cell, hCell]
  by_cases hq : q = f.ptr
  · subst hq
    cases f with
    | left p d r =>
        have hCell' : m.cell p = _ := hCell
        have hr : r.rootPtr ≠ some x := hSib
        simp [hCell', Frame.cell, hr]
    | right l p d =>
        have hCell' : m.cell p = _ := hCell
        simp [hCell', Frame.cell]
  · by_cases hSide : (f.cell (some x) par).right = some x
    · simp [hq, hSide]
    · simp [hq, hSide]

@[simp] theorem relinkLeft_none
    (m : VmaRbTree)
    (x y : Addr) :
    m.relinkLeft none x y = { m with root := some y } := rfl

@[simp] theorem relinkRight_none
    (m : VmaRbTree)
    (x y : Addr) :
    m.relinkRight none x y = { m with root := some y } := rfl

@[simp] theorem root_relinkLeft
    (m : VmaRbTree)
    (q x y : Addr) :
    (m.relinkLeft (some q) x y).root = m.root := by
  unfold relinkLeft
  by_cases h : (m.nodes q).left = some x
  · simp [h]
  · simp [h]

@[simp] theorem root_relinkRight
    (m : VmaRbTree)
    (q x y : Addr) :
    (m.relinkRight (some q) x y).root = m.root := by
  unfold relinkRight
  by_cases h : (m.nodes q).right = some x
  · simp [h]
  · simp [h]

end VmaRbTree

variable {c : AreaCtx}
variable {dx dy : Color × Vma}
variable {a b e : AreaTree}

theorem vmaRbRotateLeft_holds
    (hHolds :
      m.Holds (c.plug (.node a x dx (.node b y dy e)))) :
    ∃ m', vmaRbRotateLeft m x = some m' ∧
      m'.Holds (c.plug (.node (.node a x dx b) y dy e)) := by
  have hx := hHolds.cell_eq
  have hy :
      m.cell y =
        { left := b.rootPtr, right := e.rootPtr
          parent := some x, data := dy } :=
    ((rep_plug_iff c _).mp hHolds.rep).2.2.2.1
  have hDistinct :=
    hHolds.rotation_distinct
      (show _ = a.nodes ++ x :: (b.nodes ++ y :: e.nodes)
        by simp)
  rcases hDistinct with ⟨hxy, hbx, hby, hcx, hcy, hcb⟩
  unfold vmaRbRotateLeft
  simp only [VmaRbTree.right_eq_cell,
    VmaRbTree.left_eq_cell, VmaRbTree.parent_eq_cell, hx, hy,
    Tree.rootPtr_node, Option.bind_eq_bind, Option.bind_some,
    VmaRbTree.cell_setRight, VmaRbTree.cell_setParentIf,
    VmaRbTree.cell_setParent, hxy, hxy.symm, if_false,
    if_true, hbx, hby]
  refine ⟨_, rfl, ?_⟩
  have hbp :
      ∀ p, b.rootPtr = some p → p ≠ x ∧ p ≠ y := by
    intro p hp
    rw [hp] at hbx hby
    exact ⟨by simpa using hbx, by simpa using hby⟩
  cases c with
  | nil =>
      apply hHolds.rotateLeft
      · simp [hxy, hx, hbx]
      · simp [hxy.symm, hy, hby]
      · intro p hp
        simp [hp, hbp p hp]
      · intro f rest hc
        cases hc
      · intro p hpx hpy hpb _
        simp [hpx, hpy, hpb]
      · simp
      · simp
  | cons f c =>
      have hfx : f.ptr ≠ x := by simpa using hcx
      have hfy : f.ptr ≠ y := by simpa using hcy
      have hfb : b.rootPtr ≠ some f.ptr := by
        intro hb
        exact hcb _ hb rfl
      have hTop := (((rep_plug_iff _ _).mp hHolds.rep).1).top
      have hSib := hHolds.sibling_ne (p := x) rfl
      have hMid :
          (((m.setRight x b.rootPtr).setParentIf b.rootPtr
            (some x)).setParent y (some f.ptr)).cell f.ptr =
              f.cell (some x) (Ctx.parentPtr c) := by
        simp [hfx, hfy, hfb, hTop]
      simp only [Ctx.parentPtr_cons]
      apply hHolds.rotateLeft
      · simp [VmaRbTree.cell_relinkLeft hMid hSib, hxy, hx,
          hbx, hfx.symm]
      · simp [VmaRbTree.cell_relinkLeft hMid hSib, hxy.symm,
          hy, hby, hfy.symm]
      · intro p hp
        have hpf : p ≠ f.ptr := by
          intro hpf
          exact hcb p hp (by simp [hpf])
        rcases hbp p hp with ⟨hpx, hpy⟩
        simp [VmaRbTree.cell_relinkLeft hMid hSib,
          if_pos hp, hpx, hpy, hpf]
      · intro f' rest hc
        cases hc
        simp [VmaRbTree.cell_relinkLeft hMid hSib, hfx, hfy,
          hTop, Frame.parent_cell]
      · intro p hpx hpy hpb hpf
        have hpf' : p ≠ f.ptr := by
          intro h
          exact hpf (by simp [h])
        simp [VmaRbTree.cell_relinkLeft hMid hSib, hpx, hpy,
          hpb, hpf']
      · simp
      · simp

theorem vmaRbRotateRight_holds
    (hHolds :
      m.Holds (c.plug (.node (.node a x dx b) y dy e))) :
    ∃ m', vmaRbRotateRight m y = some m' ∧
      m'.Holds (c.plug (.node a x dx (.node b y dy e))) := by
  have hy := hHolds.cell_eq
  have hx :
      m.cell x =
        { left := a.rootPtr, right := b.rootPtr
          parent := some y, data := dx } :=
    ((rep_plug_iff c _).mp hHolds.rep).2.2.1.1
  have hDistinct :=
    hHolds.rotation_distinct
      (show _ = a.nodes ++ x :: (b.nodes ++ y :: e.nodes)
        by simp)
  rcases hDistinct with ⟨hxy, hbx, hby, hcx, hcy, hcb⟩
  unfold vmaRbRotateRight
  simp only [VmaRbTree.right_eq_cell,
    VmaRbTree.left_eq_cell, VmaRbTree.parent_eq_cell, hx, hy,
    Tree.rootPtr_node, Option.bind_eq_bind, Option.bind_some,
    VmaRbTree.cell_setLeft, VmaRbTree.cell_setParentIf,
    VmaRbTree.cell_setParent, hxy, hxy.symm, if_false,
    if_true, hbx, hby]
  refine ⟨_, rfl, ?_⟩
  have hbp :
      ∀ p, b.rootPtr = some p → p ≠ x ∧ p ≠ y := by
    intro p hp
    rw [hp] at hbx hby
    exact ⟨by simpa using hbx, by simpa using hby⟩
  cases c with
  | nil =>
      apply hHolds.rotateRight
      · simp [hxy, hx, hbx]
      · simp [hxy.symm, hy, hby]
      · intro p hp
        simp [hp, hbp p hp]
      · intro f rest hc
        cases hc
      · intro p hpx hpy hpb _
        simp [hpx, hpy, hpb]
      · simp
      · simp
  | cons f c =>
      have hfx : f.ptr ≠ x := by simpa using hcx
      have hfy : f.ptr ≠ y := by simpa using hcy
      have hfb : b.rootPtr ≠ some f.ptr := by
        intro hb
        exact hcb _ hb rfl
      have hTop := (((rep_plug_iff _ _).mp hHolds.rep).1).top
      have hSib := hHolds.sibling_ne (p := y) rfl
      have hMid :
          (((m.setLeft y b.rootPtr).setParentIf b.rootPtr
            (some y)).setParent x (some f.ptr)).cell f.ptr =
              f.cell (some y) (Ctx.parentPtr c) := by
        simp [hfx, hfy, hfb, hTop]
      simp only [Ctx.parentPtr_cons]
      apply hHolds.rotateRight
      · simp [VmaRbTree.cell_relinkRight hMid hSib, hxy, hx,
          hbx, hfx.symm]
      · simp [VmaRbTree.cell_relinkRight hMid hSib, hxy.symm,
          hy, hby, hfy.symm]
      · intro p hp
        have hpf : p ≠ f.ptr := by
          intro hpf
          exact hcb p hp (by simp [hpf])
        rcases hbp p hp with ⟨hpx, hpy⟩
        simp [VmaRbTree.cell_relinkRight hMid hSib,
          if_pos hp, hpx, hpy, hpf]
      · intro f' rest hc
        cases hc
        simp [VmaRbTree.cell_relinkRight hMid hSib, hfx, hfy,
          hTop, Frame.parent_cell]
      · intro p hpx hpy hpb hpf
        have hpf' : p ≠ f.ptr := by
          intro h
          exact hpf (by simp [h])
        simp [VmaRbTree.cell_relinkRight hMid hSib, hpx, hpy,
          hpb, hpf']
      · simp
      · simp

--------------------
-- The Six Cases Of The Fixup Loop
--------------------

/- `setColor` on a node of the tree. -/
theorem VmaRbTree.Holds.setColor
    {l r : AreaTree}
    {p : Addr}
    {d : Color × Vma}
    (hHolds : m.Holds (c.plug (.node l p d r)))
    (v : Color) :
    (m.setColor p v).Holds
      (c.plug (.node l p (v, d.2) r)) := by
  have hCell := hHolds.cell_eq
  apply Stored.setData (d := d) hHolds
  · simp [hCell]
  · intro q hq
    simp [hq]

/- The colour test on a child pointer. -/
theorem VmaRbTree.isRed_rootPtr
    {u : AreaTree}
    (hRep : Rep m.cell par u) :
    m.isRed u.rootPtr =
      decide (u.rootColor Prod.fst = .red) := by
  cases u with
  | nil => rfl
  | node l p d r =>
      have hColor : (m.nodes p).color = d.1 := by
        rw [VmaRbTree.color_eq_cell, hRep.1]
      rw [Bool.eq_iff_iff, decide_eq_true_iff]
      simp [VmaRbTree.isRed, hColor, Tree.rootColor]

/- What a turn reads around a parent `p` on the left -/
structure LeftParent
    (m : VmaRbTree)
    (p q : Addr)
    (b u : AreaTree) : Prop where
  parent : (m.nodes p).parent = some q
  left : (m.nodes q).left = some p
  right : (m.nodes q).right = u.rootPtr
  inner : (m.nodes p).right = b.rootPtr
  uncle : m.isRed u.rootPtr =
    decide (u.rootColor Prod.fst = .red)

/- What a turn reads around a parent `p` on the right -/
structure RightParent
    (m : VmaRbTree)
    (p q : Addr)
    (a u : AreaTree) : Prop where
  parent : (m.nodes p).parent = some q
  left : (m.nodes q).left = u.rootPtr
  side : u.rootPtr ≠ some p
  inner : (m.nodes p).left = a.rootPtr
  uncle : m.isRed u.rootPtr =
    decide (u.rootColor Prod.fst = .red)

section Turn

variable {m : VmaRbTree}
variable {c : AreaCtx}
variable {a b s u tl tr ul ur : AreaTree}
variable {n p q pu : Addr}
variable {dn dp dq du : Color × Vma}

theorem leftParent_of_holds
    (hHolds : m.Holds
      (c.plug (.node (.node a p dp b) q dq u))) :
    LeftParent m p q b u := by
  have hq := hHolds.cell_eq
  rcases ((rep_plug_iff c _).mp hHolds.rep).2 with
    ⟨_, ⟨hp, _, _⟩, hRepU⟩
  refine ⟨?_, ?_, ?_, ?_, VmaRbTree.isRed_rootPtr hRepU⟩
  · rw [VmaRbTree.parent_eq_cell, hp]
  · rw [VmaRbTree.left_eq_cell, hq]
    rfl
  · rw [VmaRbTree.right_eq_cell, hq]
  · rw [VmaRbTree.right_eq_cell, hp]

theorem rightParent_of_holds
    (hHolds : m.Holds
      (c.plug (.node u q dq (.node a p dp b)))) :
    RightParent m p q a u := by
  have hq := hHolds.cell_eq
  rcases ((rep_plug_iff c _).mp hHolds.rep).2 with
    ⟨_, hRepU, hp, _, _⟩
  refine ⟨?_, ?_, ?_, ?_, VmaRbTree.isRed_rootPtr hRepU⟩
  · rw [VmaRbTree.parent_eq_cell, hp]
  · rw [VmaRbTree.left_eq_cell, hq]
  · exact Stored.sibling_ne
      (f := .right u q dq) (c := c) (t := .node a p dp b)
      hHolds (p := p) rfl
  · rw [VmaRbTree.left_eq_cell, hp]

/- A red uncle on the right: push the colour up. -/
theorem fixupTurn_recolor_left
    (hHolds :
      m.Holds
        (c.plug (.node (.node a p dp b) q dq
          (.node ul pu du ur))))
    (hRed : du.1 = .red) :
    ∃ m', vmaRbFixupTurn m n p = some (m', q) ∧
      m'.Holds
        (c.plug (.node (.node a p (.black, dp.2) b) q
          (.red, dq.2) (.node ul pu (.black, du.2) ur))) := by
  have hParent := leftParent_of_holds hHolds
  have hUncle : m.isRed (some pu) = true := by
    simpa [Tree.rootColor, hRed] using hParent.uncle
  have hRight : (m.nodes q).right = some pu := hParent.right
  have hU :
      (m.setColor pu .black).Holds
        (c.plug (.node (.node a p dp b) q dq
          (.node ul pu (.black, du.2) ur))) :=
    VmaRbTree.Holds.setColor
      (c := .right (.node a p dp b) q dq :: c) hHolds .black
  have hP :
      ((m.setColor pu .black).setColor p .black).Holds
        (c.plug (.node (.node a p (.black, dp.2) b) q dq
          (.node ul pu (.black, du.2) ur))) :=
    VmaRbTree.Holds.setColor
      (c := .left q dq (.node ul pu (.black, du.2) ur) :: c)
      hU .black
  refine ⟨_, ?_, hP.setColor .red⟩
  simp [vmaRbFixupTurn, hParent.parent, hParent.left, hRight,
    hUncle, vmaRbRecolor]

/- The mirror image of `fixupTurn_recolor_left`. -/
theorem fixupTurn_recolor_right
    (hHolds :
      m.Holds
        (c.plug (.node (.node ul pu du ur) q dq
          (.node a p dp b))))
    (hRed : du.1 = .red) :
    ∃ m', vmaRbFixupTurn m n p = some (m', q) ∧
      m'.Holds
        (c.plug (.node (.node ul pu (.black, du.2) ur) q
          (.red, dq.2) (.node a p (.black, dp.2) b))) := by
  have hParent := rightParent_of_holds hHolds
  have hUncle : m.isRed (some pu) = true := by
    simpa [Tree.rootColor, hRed] using hParent.uncle
  have hLeft : (m.nodes q).left = some pu := hParent.left
  have hpu : pu ≠ p := by
    simpa using hParent.side
  have hU :
      (m.setColor pu .black).Holds
        (c.plug (.node (.node ul pu (.black, du.2) ur) q dq
          (.node a p dp b))) :=
    VmaRbTree.Holds.setColor
      (c := .left q dq (.node a p dp b) :: c) hHolds .black
  have hP :
      ((m.setColor pu .black).setColor p .black).Holds
        (c.plug (.node (.node ul pu (.black, du.2) ur) q dq
          (.node a p (.black, dp.2) b))) :=
    VmaRbTree.Holds.setColor
      (c := .right (.node ul pu (.black, du.2) ur) q dq :: c)
      hU .black
  refine ⟨_, ?_, hP.setColor .red⟩
  simp [vmaRbFixupTurn, hParent.parent, hLeft, hUncle, hpu,
    vmaRbRecolor]

/- A black uncle on the right, the new node outside. -/
theorem fixupTurn_outer_left
    (hHolds :
      m.Holds
        (c.plug (.node (.node (.node tl n dn tr) p dp s)
          q dq u)))
    (hUncle : u.rootColor Prod.fst = .black) :
    ∃ m', vmaRbFixupTurn m n p = some (m', n) ∧
      m'.Holds
        (c.plug (.node (.node tl n dn tr) p (.black, dp.2)
          (.node s q (.red, dq.2) u))) := by
  have hParent := leftParent_of_holds hHolds
  have hNotRed : m.isRed u.rootPtr = false := by
    rw [hParent.uncle, hUncle]
    rfl
  have hOuter : (m.nodes p).right ≠ some n := by
    rw [hParent.inner]
    exact Stored.sibling_ne
      (f := .left p dp s) (c := .left q dq u :: c)
      (t := .node tl n dn tr) hHolds (p := n) rfl
  have hP :
      (m.setColor p .black).Holds
        (c.plug (.node (.node (.node tl n dn tr) p
          (.black, dp.2) s) q dq u)) :=
    VmaRbTree.Holds.setColor
      (c := .left q dq u :: c) hHolds .black
  rcases vmaRbRotateRight_holds (hP.setColor .red) with
    ⟨m', hRotate, hHolds'⟩
  refine ⟨m', ?_, hHolds'⟩
  simp [vmaRbFixupTurn, hParent.parent, hParent.left,
    hParent.right, hNotRed, hOuter, hRotate]

/- A black uncle on the right, the new node inside. -/
theorem fixupTurn_inner_left
    (hHolds :
      m.Holds
        (c.plug (.node (.node s p dp (.node tl n dn tr))
          q dq u)))
    (hUncle : u.rootColor Prod.fst = .black) :
    ∃ m', vmaRbFixupTurn m n p = some (m', p) ∧
      m'.Holds
        (c.plug (.node (.node s p dp tl) n (.black, dn.2)
          (.node tr q (.red, dq.2) u))) := by
  have hParent := leftParent_of_holds hHolds
  have hNotRed : m.isRed u.rootPtr = false := by
    rw [hParent.uncle, hUncle]
    rfl
  have hInner : (m.nodes p).right = some n := hParent.inner
  rcases vmaRbRotateLeft_holds
      (c := .left q dq u :: c) hHolds with
    ⟨m₁, hRotate₁, hHolds₁⟩
  have hN :
      (m₁.setColor n .black).Holds
        (c.plug (.node (.node (.node s p dp tl) n
          (.black, dn.2) tr) q dq u)) :=
    VmaRbTree.Holds.setColor
      (c := .left q dq u :: c) hHolds₁ .black
  rcases vmaRbRotateRight_holds (hN.setColor .red) with
    ⟨m', hRotate, hHolds'⟩
  refine ⟨m', ?_, hHolds'⟩
  simp [vmaRbFixupTurn, hParent.parent, hParent.left,
    hParent.right, hNotRed, hInner, hRotate₁, hRotate]

/- The mirror image of `fixupTurn_outer_left`. -/
theorem fixupTurn_outer_right
    (hHolds :
      m.Holds
        (c.plug (.node u q dq
          (.node s p dp (.node tl n dn tr)))))
    (hUncle : u.rootColor Prod.fst = .black) :
    ∃ m', vmaRbFixupTurn m n p = some (m', n) ∧
      m'.Holds
        (c.plug (.node (.node u q (.red, dq.2) s) p
          (.black, dp.2) (.node tl n dn tr))) := by
  have hParent := rightParent_of_holds hHolds
  have hNotRed : m.isRed u.rootPtr = false := by
    rw [hParent.uncle, hUncle]
    rfl
  have hOuter : (m.nodes p).left ≠ some n := by
    rw [hParent.inner]
    exact Stored.sibling_ne
      (f := .right s p dp) (c := .right u q dq :: c)
      (t := .node tl n dn tr) hHolds (p := n) rfl
  have hP :
      (m.setColor p .black).Holds
        (c.plug (.node u q dq (.node s p (.black, dp.2)
          (.node tl n dn tr)))) :=
    VmaRbTree.Holds.setColor
      (c := .right u q dq :: c) hHolds .black
  rcases vmaRbRotateLeft_holds (hP.setColor .red) with
    ⟨m', hRotate, hHolds'⟩
  refine ⟨m', ?_, hHolds'⟩
  simp [vmaRbFixupTurn, hParent.parent, hParent.left,
    hParent.side, hNotRed, hOuter, hRotate]

/- The mirror image of `fixupTurn_inner_left`. -/
theorem fixupTurn_inner_right
    (hHolds :
      m.Holds
        (c.plug (.node u q dq
          (.node (.node tl n dn tr) p dp s))))
    (hUncle : u.rootColor Prod.fst = .black) :
    ∃ m', vmaRbFixupTurn m n p = some (m', p) ∧
      m'.Holds
        (c.plug (.node (.node u q (.red, dq.2) tl) n
          (.black, dn.2) (.node tr p dp s))) := by
  have hParent := rightParent_of_holds hHolds
  have hNotRed : m.isRed u.rootPtr = false := by
    rw [hParent.uncle, hUncle]
    rfl
  have hInner : (m.nodes p).left = some n := hParent.inner
  rcases vmaRbRotateRight_holds
      (c := .right u q dq :: c) hHolds with
    ⟨m₁, hRotate₁, hHolds₁⟩
  have hN :
      (m₁.setColor n .black).Holds
        (c.plug (.node u q dq (.node tl n (.black, dn.2)
          (.node tr p dp s)))) :=
    VmaRbTree.Holds.setColor
      (c := .right u q dq :: c) hHolds₁ .black
  rcases vmaRbRotateLeft_holds (hN.setColor .red) with
    ⟨m', hRotate, hHolds'⟩
  refine ⟨m', ?_, hHolds'⟩
  simp [vmaRbFixupTurn, hParent.parent, hParent.left,
    hParent.side, hNotRed, hInner, hRotate₁, hRotate]

end Turn

--------------------
-- The Fixup Loop
--------------------

/- Addresses and areas in symmetric order, colours left out. -/
def areas (t : AreaTree) : List (Addr × Vma) :=
  t.entries.map fun e => (e.1, e.2.2)

/-
  What every turn of the fixup loop starts from: the tree is
  balanced but for a red node `n` that may hang below a red
  parent.
-/
structure FixupInv
    (m : VmaRbTree)
    (c : AreaCtx)
    (t : AreaTree)
    (n : Addr)
    (k : Nat) : Prop where
  holds : m.Holds (c.plug t)
  focus : t.rootPtr = some n
  red : t.Balanced Prod.fst .red k
  ctx : Ctx.Balanced Prod.fst c .black k

/- Trees that list the same areas do so in any context. -/
theorem areas_plug_congr
    (c : AreaCtx)
    {t t' : AreaTree}
    (hAreas : areas t = areas t') :
    areas (c.plug t) = areas (c.plug t') := by
  unfold areas at hAreas ⊢
  simp [Ctx.entries_plug, hAreas]

section Climbs

variable {m : VmaRbTree}
variable {c : AreaCtx}
variable {a b : AreaTree}
variable {g : Frame Addr (Color × Vma)}
variable {n p : Addr}
variable {dp : Color × Vma}
variable {ca cb : Color}
variable {k : Nat}

/- Below a red uncle the problem moves two levels up. -/
theorem fixupTurn_climbs
    (hHolds :
      m.Holds (Ctx.plug (g :: c) (.node a p dp b)))
    (ha : a.Balanced Prod.fst ca k)
    (hb : b.Balanced Prod.fst cb k)
    (hUnc : g.sibling.Balanced Prod.fst .red k)
    (hRest : Ctx.Balanced Prod.fst c .black (k + 1)) :
    ∃ m' t', vmaRbFixupTurn m n p = some (m', g.ptr) ∧
      FixupInv m' c t' g.ptr (k + 1) ∧
      areas (c.plug t') =
        areas (Ctx.plug (g :: c) (.node a p dp b)) := by
  cases g with
  | left q dq u =>
      cases hUnc with
      | red hu hul hur =>
          rcases fixupTurn_recolor_left (n := n) hHolds hu with
            ⟨m', hTurn, hHolds'⟩
          refine ⟨m', _, hTurn, ⟨hHolds', rfl, ?_, hRest⟩, ?_⟩
          · exact .red rfl (.black rfl ha hb)
              (.black rfl hul hur)
          · apply areas_plug_congr c
            simp [areas, Frame.fill]
  | right u q dq =>
      cases hUnc with
      | red hu hul hur =>
          rcases fixupTurn_recolor_right (n := n) hHolds hu with
            ⟨m', hTurn, hHolds'⟩
          refine ⟨m', _, hTurn, ⟨hHolds', rfl, ?_, hRest⟩, ?_⟩
          · exact .red rfl (.black rfl hul hur)
              (.black rfl ha hb)
          · apply areas_plug_congr c
            simp [areas, Frame.fill]

end Climbs

variable {t : AreaTree}
variable {k : Nat}
variable {n : Addr}

/-
  One turn below a red parent: either the problem moves two
  levels up, or the rotations put a black cell above it.
-/
theorem fixupTurn_inv
    (hInv : FixupInv m (f :: c) t n k)
    (hRed : f.data.1 = .red) :
    ∃ m' c' t' n' k',
      vmaRbFixupTurn m n f.ptr = some (m', n') ∧
      FixupInv m' c' t' n' k' ∧
      c'.length < (f :: c).length ∧
      areas (c'.plug t') = areas (Ctx.plug (f :: c) t) := by
  rcases hInv with ⟨hHolds, hFocus, hBal, hCtx⟩
  rcases hCtx.above_red hRed with
    ⟨hSib, g, rest, cu, rfl, hBlack, hUnc, hRest⟩
  rcases Tree.eq_node_of_rootPtr hFocus with
    ⟨tl, dn, tr, rfl⟩
  cases hBal with
  | red hn htl htr =>
    have hT := Tree.Balanced.red (p := n) hn htl htr
    cases cu with
    | red =>
        -- the uncle is red: recolour and climb
        have hUp : rest.length < (f :: g :: rest).length := by
          simp only [List.length_cons]
          omega
        cases f with
        | left p dp s =>
            rcases fixupTurn_climbs (c := rest) (g := g) (n := n)
                hHolds hT hSib hUnc hRest with
              ⟨m', t', hTurn, hInv, hAreas⟩
            exact ⟨m', rest, t', g.ptr, k + 1, hTurn, hInv, hUp,
              hAreas⟩
        | right s p dp =>
            rcases fixupTurn_climbs (c := rest) (g := g) (n := n)
                hHolds hSib hT hUnc hRest with
              ⟨m', t', hTurn, hInv, hAreas⟩
            exact ⟨m', rest, t', g.ptr, k + 1, hTurn, hInv, hUp,
              hAreas⟩
    | black =>
        have hUncle := hUnc.rootColor
        cases g with
        | left q dq u =>
            cases f with
            | left p dp s =>
                rcases fixupTurn_outer_left
                    (c := rest) hHolds hUncle with
                  ⟨m', hTurn, hHolds'⟩
                refine ⟨m', .left p (.black, dp.2)
                  (.node s q (.red, dq.2) u) :: rest, _, n, k,
                  hTurn, ⟨hHolds', rfl, hT, ?_⟩, ?_, ?_⟩
                · exact .black rfl (.red rfl hSib hUnc) hRest
                · simp
                · apply areas_plug_congr rest
                  simp [areas, Frame.fill]
            | right s p dp =>
                rcases fixupTurn_inner_left
                    (c := rest) hHolds hUncle with
                  ⟨m', hTurn, hHolds'⟩
                refine ⟨m', .left n (.black, dn.2)
                  (.node tr q (.red, dq.2) u) :: rest, _, p, k,
                  hTurn, ⟨hHolds', rfl, ?_, ?_⟩, ?_, ?_⟩
                · exact .red hRed hSib htl
                · exact .black rfl (.red rfl htr hUnc) hRest
                · simp
                · apply areas_plug_congr rest
                  simp [areas, Frame.fill]
        | right u q dq =>
            cases f with
            | left p dp s =>
                rcases fixupTurn_inner_right
                    (c := rest) hHolds hUncle with
                  ⟨m', hTurn, hHolds'⟩
                refine ⟨m', .right
                  (.node u q (.red, dq.2) tl) n (.black, dn.2)
                    :: rest, _, p, k,
                  hTurn, ⟨hHolds', rfl, ?_, ?_⟩, ?_, ?_⟩
                · exact .red hRed htr hSib
                · exact .black rfl (.red rfl hUnc htl) hRest
                · simp
                · apply areas_plug_congr rest
                  simp [areas, Frame.fill]
            | right s p dp =>
                rcases fixupTurn_outer_right
                    (c := rest) hHolds hUncle with
                  ⟨m', hTurn, hHolds'⟩
                refine ⟨m', .right
                  (.node u q (.red, dq.2) s) p (.black, dp.2)
                    :: rest, _, n, k,
                  hTurn, ⟨hHolds', rfl, hT, ?_⟩, ?_, ?_⟩
                · exact .black rfl (.red rfl hUnc hSib) hRest
                · simp
                · apply areas_plug_congr rest
                  simp [areas, Frame.fill]

/- Leaving the loop: the root of a balanced tree is black. -/
theorem blackenRoot_holds
    {ct : Color}
    (hHolds : m.Holds t)
    (hBal : t.Balanced Prod.fst ct k)
    (hNe : t ≠ .nil) :
    ∃ m' t' j, vmaRbBlackenRoot m = some m' ∧
      m'.Holds t' ∧ t'.Balanced Prod.fst .black j ∧
      areas t' = areas t := by
  cases t with
  | nil => exact absurd rfl hNe
  | node l p d r =>
      have hRoot : m.root = some p := hHolds.root_eq
      have hChildren :
          ∃ cl cr j, l.Balanced Prod.fst cl j ∧
            r.Balanced Prod.fst cr j := by
        cases hBal with
        | red _ hl hr => exact ⟨_, _, _, hl, hr⟩
        | black _ hl hr => exact ⟨_, _, _, hl, hr⟩
      rcases hChildren with ⟨cl, cr, j, hl, hr⟩
      refine ⟨m.setColor p .black,
        .node l p (.black, d.2) r, j + 1, ?_, ?_, ?_, ?_⟩
      · simp [vmaRbBlackenRoot, hRoot]
      · exact VmaRbTree.Holds.setColor (c := []) hHolds .black
      · exact .black rfl hl hr
      · simp [areas]

/- The loop ends in a red-black tree with the same areas. -/
theorem vmaRbInsertFixup_holds
    {fuel : Nat}
    (hInv : FixupInv m c t n k)
    (hFuel : c.length < fuel) :
    ∃ m' t' j, vmaRbInsertFixup fuel m n = some m' ∧
      m'.Holds t' ∧ t'.Balanced Prod.fst .black j ∧
      areas t' = areas (c.plug t) := by
  induction fuel generalizing m c t n k with
  | zero => omega
  | succ fuel ih =>
      rcases Tree.eq_node_of_rootPtr hInv.focus with
        ⟨tl, dn, tr, rfl⟩
      have hParent : (m.nodes n).parent = c.parentPtr := by
        rw [VmaRbTree.parent_eq_cell, hInv.holds.cell_eq]
      cases c with
      | nil =>
          have hNe : LinkedTree.Tree.node tl n dn tr ≠ .nil := by simp
          simpa [vmaRbInsertFixup, hParent] using
            blackenRoot_holds hInv.holds hInv.red hNe
      | cons f c =>
          have hTop :=
            (((rep_plug_iff _ _).mp hInv.holds.rep).1).top
          have hColor : (m.nodes f.ptr).color = f.data.1 := by
            rw [VmaRbTree.color_eq_cell, hTop]
            cases f <;> rfl
          by_cases hRed : f.data.1 = .red
          · rcases fixupTurn_inv hInv hRed with
              ⟨m₁, c₁, t₁, n₁, k₁, hTurn, hInv₁, hLen,
                hAreas⟩
            rcases ih hInv₁ (by omega) with
              ⟨m', t', j, hLoop, hHolds, hBal, hAreas'⟩
            refine ⟨m', t', j, ?_, hHolds, hBal, ?_⟩
            · simp [vmaRbInsertFixup, hParent, hColor, hRed,
                hTurn, hLoop]
            · rw [hAreas', hAreas]
          · have hBlack : f.data.1 = .black := by
              cases hCol : f.data.1 with
              | red => exact absurd hCol hRed
              | black => rfl
            rcases (hInv.ctx.recolor hBlack .red).plug
                hInv.red with
              ⟨j, hBal⟩
            have hNe :
                Ctx.plug (f :: c) (.node tl n dn tr) ≠
                  .nil := by
              intro hNil
              have hNodes :=
                (Ctx.nodes_plug_perm (f :: c)
                  (.node tl n dn tr)).length_eq
              rw [hNil] at hNodes
              simp at hNodes
            simpa [vmaRbInsertFixup, hParent, hColor, hRed]
              using blackenRoot_holds hInv.holds hBal hNe

end FeatherOS
