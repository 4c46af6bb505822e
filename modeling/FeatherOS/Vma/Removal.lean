import FeatherOS.Vma.Unmapped

/-
  What `vma_rb_erase` leaves of a search tree, and of its
  balance.

  A node is taken out cleanly unless it has two children and
  the right one has no left child: then that child becomes
  its own right child and its own parent.

  Nothing rebalances the tree afterwards. An only child is
  red and becomes black in the place of its parent, which
  keeps the number of black nodes. A leaf, or the node that
  moves up in the place of one with two children, is missing
  on the paths it was on, and that is seen if it was black.

  Key definitions include:
    * `HeirBeside`
    * `ErasesOne`
    * `ErasesRed`
    * `areaTreeStep`
    * `RedBlackAreas`

  Key theorems include:
    * `vmaRbErase_erasesOne_iff`
    * `vmaRbErase_tree`
    * `vmaRbErase_redBlack`
    * `vmaRbErase_redBlack_iff`
-/

namespace FeatherOS

open LinkedTree

--------------------
-- Taking One Node Out
--------------------

/- Two children, and the right one has no left child. -/
def HeirBeside
    (m : VmaRbTree)
    (a : Addr) : Prop :=
  (m.nodes a).left ≠ none ∧
    ∃ x, (m.nodes a).right = some x ∧ (m.nodes x).left = none

/-
  The call returns and leaves a search tree, its links
  consistent, with the nodes of the old one but for `a` in
  the same order.
-/
def ErasesOne
    (fuel : Nat)
    (m : VmaRbTree)
    (t : AreaTree)
    (a : Addr) : Prop :=
  ∃ m' t', vmaRbErase fuel m a = some m' ∧ m'.Holds t' ∧
    t'.Ordered startLt startLt ∧
    areas t' = (areas t).filter fun e => e.1 ≠ a

theorem heirBeside_iff
    {m : VmaRbTree}
    {c : AreaCtx}
    {l r : AreaTree}
    {a : Addr}
    {d : Color × Vma}
    (hHolds : m.Holds (c.plug (.node l a d r))) :
    HeirBeside m a ↔ DirectHeir l r := by
  have hRep := ((rep_plug_iff c _).mp hHolds.rep).2
  rcases rep_links hRep with ⟨hLeft, hRight, _, _⟩
  unfold HeirBeside DirectHeir
  rw [hLeft, hRight]
  constructor
  · rintro ⟨hl, x, hx, hNone⟩
    refine ⟨?_, ?_⟩
    · rintro rfl
      exact hl rfl
    · cases r with
      | nil => cases hx
      | node rl q dq rr =>
          cases hx
          rw [(rep_links hRep.2.2).1] at hNone
          exact ⟨x, dq, rr, by
            rw [Tree.eq_nil_of_rootPtr hNone]⟩
  · rintro ⟨hl, x, dx, e, rfl⟩
    refine ⟨?_, x, rfl, (rep_links hRep.2.2).1⟩
    intro hNone
    exact hl (Tree.eq_nil_of_rootPtr hNone)

variable {a : Addr}

/- Leaving a node out is filtering by its address. -/
theorem LeavesOut.areas_eq
    {t t' : AreaTree}
    (hNodup : t.nodes.Nodup)
    (hOut : LeavesOut t t' a) :
    areas t' = (areas t).filter fun e => e.1 ≠ a := by
  rcases hOut with ⟨xs, ys, v, hAreas, hAreas'⟩
  rw [← map_fst_areas, hAreas, List.map_append, List.map_cons,
    List.nodup_append, List.nodup_cons] at hNodup
  have hBefore : ∀ e ∈ xs, e.1 ≠ a := by
    intro e he hEq
    exact hNodup.2.2 e.1 (List.mem_map_of_mem he) a (by simp) hEq
  have hAfter : ∀ e ∈ ys, e.1 ≠ a := by
    intro e he hEq
    exact hNodup.2.1.1 (List.mem_map.mpr ⟨e, he, hEq⟩)
  rw [hAreas, hAreas', List.filter_append, List.filter_cons]
  simp only [ne_eq, not_true, decide_false, Bool.false_eq_true,
    if_false]
  rw [List.filter_eq_self.mpr (by simpa using hBefore),
    List.filter_eq_self.mpr (by simpa using hAfter)]

/-
  From a stored search tree, exactly one node is taken out if
  and only if its heir is not its right child.
-/
theorem vmaRbErase_erasesOne_iff
    {m : VmaRbTree}
    {t : AreaTree}
    {a : Addr}
    {fuel : Nat}
    (hHolds : m.Holds t)
    (hOrd : t.Ordered startLt startLt)
    (hMem : a ∈ t.nodes)
    (hFuel : t.size ≤ fuel) :
    ErasesOne fuel m t a ↔ ¬ HeirBeside m a := by
  rcases Tree.exists_plug_of_mem hMem with ⟨c, l, d, r, rfl⟩
  have hSize := Ctx.size_le_plug c (.node l a d r)
  rw [Tree.size_node] at hSize
  rcases @vmaRbErase_stored m c l r a d fuel hHolds (by omega)
    with
    ⟨m', hErase, _, hClean, hLoop⟩
  rw [heirBeside_iff hHolds]
  constructor
  · rintro ⟨m₁, t₁, hErase₁, hHolds₁, _⟩ hHeir
    rw [hErase] at hErase₁
    cases hErase₁
    exact hLoop hHeir t₁ hHolds₁
  · intro hNot
    rcases hClean hNot with ⟨t', hHolds', hOut⟩
    refine ⟨m', t', hErase, hHolds', ?_,
      hOut.areas_eq hHolds.nodup⟩
    rw [ordered_iff_areas] at hOrd ⊢
    exact hOrd.sublist hOut.sublist

/- Of four areas, the one at 0x3000 has no left child. -/
theorem vmaRbErase_erasesOne_iff_fourAreas :
    ErasesOne 4 VmaState.fourAreas.tree fourAreasTree
      0x2000C0#64 := by
  have hInv := VmaState.fourAreas_inv
  refine (vmaRbErase_erasesOne_iff hInv.holds hInv.ordered
    (by simp [fourAreasTree]) (by decide)).mpr ?_
  rw [@heirBeside_iff _ [.right _ 0x200000#64 _] .nil _ _ _
    hInv.holds]
  exact fun hHeir => hHeir.1 rfl

/- Areas inserted one after another, each at a new node -/
def insertAreas
    (fuel : Nat)
    (m : VmaRbTree) :
    List (Addr × Vma) → Option VmaRbTree
| [] => some m
| e :: es =>
    if m.root ≠ some e.1 ∧ (m.nodes e.1).parent = none then do
      let (_, m) ← vmaRbInsert fuel
        { m with
          nodes := Function.update m.nodes e.1
            (vmaNewNode e.2) } e.1
      insertAreas fuel m es
    else
      none

/- Four areas at their nodes, in an order that needs no turns -/
def fourAreas : List (Addr × Vma) :=
  [(0x200000, areaAt 0x2000), (0x200060, areaAt 0x1000),
    (0x2000C0, areaAt 0x3000), (0x200120, areaAt 0x4000)]

variable {m m' : VmaRbTree}

theorem cell_of_nodes
    {p : Addr}
    {n : VmaRbNode}
    (hNode : m.nodes p = n) :
    m.cell p = ⟨n.left, n.right, n.parent, (n.color, n.vma)⟩ :=
  hNode ▸ rfl

theorem exists_fourAreas :
    ∃ m, insertAreas 5 VmaState.boot.tree fourAreas = some m ∧
      m.Holds fourAreasTree := by
  have hNodes :
      (insertAreas 5 VmaState.boot.tree fourAreas).map
          (fun m => (m.root, m.nodes 0x200060,
            m.nodes 0x200000, m.nodes 0x2000C0,
            m.nodes 0x200120)) =
        some (some 0x200000,
          ⟨areaAt 0x1000, none, none, some 0x200000, .black⟩,
          ⟨areaAt 0x2000, some 0x200060, some 0x2000C0, none,
            .black⟩,
          ⟨areaAt 0x3000, none, some 0x200120, some 0x200000,
            .black⟩,
          ⟨areaAt 0x4000, none, none, some 0x2000C0, .red⟩) := by
    decide
  rcases Option.map_eq_some_iff.mp hNodes with ⟨m, hMake, hAt⟩
  simp only [Prod.mk.injEq] at hAt
  rcases hAt with ⟨hRoot, h1, h2, h3, h4⟩
  refine ⟨m, hMake, ?_, hRoot, by decide⟩
  exact ⟨cell_of_nodes h2, ⟨cell_of_nodes h1, trivial, trivial⟩,
    cell_of_nodes h3, trivial, cell_of_nodes h4, trivial, trivial⟩

/- Erasing the root makes its right child its own child. -/
theorem erased_root_not_erasesOne :
    ¬ ∀ (m : VmaRbTree) (t : AreaTree) (a : Addr),
      m.Holds t → t.Ordered startLt startLt → a ∈ t.nodes →
        ∃ fuel, ErasesOne fuel m t a := by
  intro hAll
  rcases exists_fourAreas with ⟨m, _, hHolds⟩
  rcases hAll m fourAreasTree 0x200000 hHolds
      VmaState.fourAreas_inv.ordered
      (by simp [fourAreasTree]) with
    ⟨fuel, m', t', hErase, hHolds', _⟩
  have hMore := vmaRbErase_mono hErase
    (Nat.le_max_left fuel 3)
  rcases @vmaRbErase_stored m [] _ _ 0x200000 _ _ hHolds
      (Nat.lt_of_lt_of_le (by decide)
        (Nat.le_max_right fuel 3)) with
    ⟨m₁, hErase₁, _, _, hLoop⟩
  rw [hMore] at hErase₁
  cases hErase₁
  exact hLoop ⟨by simp, _, _, _, rfl⟩ t' hHolds'

--------------------
-- The Tree That Is Left
--------------------

/- What erasing a node leaves in its place. -/
inductive Erased
    (c : AreaCtx)
    (l : AreaTree)
    (d : Color × Vma)
    (r : AreaTree) : AreaTree → Prop
| splice
    {s : AreaTree}
    (hChild : s = l ∧ r = .nil ∨ s = r ∧ l = .nil) :
    Erased c l d r (c.plug (blackenRoot s))
| takeOver
    {c' : AreaCtx}
    {q x : Addr}
    {dq dx : Color × Vma}
    {rq e : AreaTree}
    (hl : l ≠ .nil)
    (hr : r = Ctx.plug (.left q dq rq :: c') (.node .nil x dx e))
    (hLeft : Leftmost (.left q dq rq :: c')) :
    Erased c l d r
      (c.plug (.node l x (d.1, dx.2)
        (Ctx.plug (.left q dq rq :: c') e)))

variable {fuel : Nat}

/- A tree left in memory is one of these. -/
theorem vmaRbErase_tree
    {c : AreaCtx}
    {l r t' : AreaTree}
    {d : Color × Vma}
    (hHolds : m.Holds (c.plug (.node l a d r)))
    (hErase : vmaRbErase fuel m a = some m')
    (hHolds' : m'.Holds t') :
    Erased c l d r t' := by
  have hSame : ∀ {t : AreaTree}, m'.Holds t → t = t' :=
    fun hOther => Stored.unique hOther hHolds'
  have hErase' := vmaRbErase_mono hErase
    (Nat.le_max_left fuel (r.size + 1))
  have hRep := ((rep_plug_iff c _).mp hHolds.rep).2
  rcases rep_links hRep with ⟨hLeft, hRight, _, _⟩
  unfold vmaRbErase at hErase'
  rw [hLeft, hRight] at hErase'
  cases l with
  | nil =>
      cases hErase'
      have hSplice := vmaRbSplice_blackens hHolds
        (.inr ⟨rfl, rfl⟩)
      exact hSame hSplice ▸ .splice (.inr ⟨rfl, rfl⟩)
  | node ll lp ld lr =>
      cases r with
      | nil =>
          cases hErase'
          have hSplice := vmaRbSplice_blackens hHolds
            (.inl ⟨rfl, rfl⟩)
          exact hSame hSplice ▸ .splice (.inl ⟨rfl, rfl⟩)
      | node rl rp rd rr =>
          have hFuel : rl.size < max fuel
              ((LinkedTree.Tree.node rl rp rd rr).size + 1) := by
            rw [Tree.size_node]
            omega
          rcases vmaRbMin_spec hRep.2.2 hFuel with
            ⟨c', x, dx, e, hPlug, hLeftmost, hMin⟩
          simp only [Tree.rootPtr_node, hMin,
            Option.bind_eq_bind, Option.bind_some,
            Option.some.injEq] at hErase'
          subst hErase'
          cases c' with
          | nil =>
              -- the heir is the right child: no tree is left
              rw [hPlug] at hHolds
              rcases vmaRbTakeOver_loop hHolds with
                ⟨hFixed, hSelf, hUp⟩
              exact absurd hHolds'
                ((heir_stored hHolds hFixed hSelf hUp).2 t')
          | cons f c' =>
              rcases hLeftmost f (by simp) with
                ⟨q, dq, rq, rfl⟩
              rw [hPlug] at hHolds
              have hTaken := vmaRbTakeOver_holds hHolds
              exact hSame hTaken ▸
                .takeOver (by simp) hPlug hLeftmost

--------------------
-- Balance
--------------------

/-
  A leaf that goes is red or the root. With two children, the
  node that comes next in order, and moves up, is red. A node
  with one child may always go.
-/
structure ErasesRed
    (c : AreaCtx)
    (d : Color × Vma)
    (l r : AreaTree) : Prop where
  leaf : l = .nil → r = .nil → d.1 = .red ∨ c = []
  heir : l ≠ .nil → ∀ x dx,
    r.entries.head? = some (x, dx) → dx.1 = .red

section Balance

variable {c : AreaCtx}
variable {l r s t' : AreaTree}
variable {a : Addr}
variable {d : Color × Vma}
variable {k : Color}

/- A subtree of black height 0 is one red leaf or empty. -/
theorem balanced_zero
    (hBal : s.Balanced Prod.fst k 0)
    (hs : s ≠ .nil) :
    k = .red ∧ (blackenRoot s).Balanced Prod.fst .black 1 := by
  cases hBal with
  | nil => exact absurd rfl hs
  | red _ hl hr =>
      cases hl
      cases hr
      exact ⟨rfl, .black rfl .nil .nil⟩

/- An only child is a red leaf, and turns black. -/
theorem balanced_onlyChild
    {n : Nat}
    (hBal : LinkedTree.Tree.Balanced Prod.fst
      (.node l a d r : AreaTree) k n)
    (hChild : s = l ∧ r = .nil ∨ s = r ∧ l = .nil)
    (hs : s ≠ .nil) :
    k = .black ∧
      (blackenRoot s).Balanced Prod.fst .black n := by
  rcases hChild with ⟨rfl, rfl⟩ | ⟨rfl, rfl⟩
  · cases hBal with
    | red _ hl hr =>
        cases hr
        cases (balanced_zero hl hs).1
    | black _ hl hr =>
        cases hr
        exact ⟨rfl, (balanced_zero hl hs).2⟩
  · cases hBal with
    | red _ hl hr =>
        cases hl
        cases (balanced_zero hr hs).1
    | black _ hl hr =>
        cases hl
        exact ⟨rfl, (balanced_zero hr hs).2⟩

/- Without a leaf, only a red one or the root is not missed. -/
theorem redBlack_leaf_iff
    (hRedBlack :
      (c.plug (.node .nil a d .nil : AreaTree)).RedBlack Prod.fst) :
    (c.plug (.nil : AreaTree)).RedBlack Prod.fst ↔
      d.1 = .red ∨ c = [] := by
  rw [Tree.redBlack_iff_balanced] at hRedBlack ⊢
  rcases hRedBlack with ⟨n, hBal⟩
  rcases Ctx.balanced_of_plug hBal with ⟨k, j, hNode, hCtx⟩
  cases hNode with
  | red hCol hl _ =>
      cases hl
      simp only [hCol, true_or, iff_true]
      exact hCtx.of_red.plug .nil
  | black hCol hl _ =>
      cases hl
      simp only [hCol, reduceCtorEq, false_or]
      constructor
      · rintro ⟨n', hBal'⟩
        rcases Ctx.balanced_of_plug hBal' with
          ⟨k', j', hNil, hCtx'⟩
        cases hNil
        cases c with
        | nil => rfl
        | cons f c => cases hCtx.height_unique hCtx'
      · rintro rfl
        exact ⟨0, .nil⟩

/- The heir leaves its place, its right subtree moves there. -/
theorem redBlack_takeOver_iff
    {c' : AreaCtx}
    {q x : Addr}
    {dq dx : Color × Vma}
    {rq e : AreaTree}
    (hRedBlack :
      (c.plug (.node l a d
        (Ctx.plug (.left q dq rq :: c')
          (.node .nil x dx e)))).RedBlack Prod.fst) :
    (c.plug (.node l x (d.1, dx.2)
        (Ctx.plug (.left q dq rq :: c') e))).RedBlack Prod.fst ↔
      dx.1 = .red := by
  -- both trees as one way down to the place of the heir
  have hBefore : c.plug (.node l a d
      (Ctx.plug (.left q dq rq :: c') (.node .nil x dx e))) =
      Ctx.plug ((.left q dq rq :: c') ++ .right l a d :: c)
        (.node .nil x dx e) := by
    rw [Ctx.plug_append]
    rfl
  have hAfter : c.plug (.node l x (d.1, dx.2)
      (Ctx.plug (.left q dq rq :: c') e)) =
      Ctx.plug
        ((.left q dq rq :: c') ++ .right l x (d.1, dx.2) :: c) e := by
    rw [Ctx.plug_append]
    rfl
  rw [hBefore, Tree.redBlack_iff_balanced] at hRedBlack
  rw [hAfter, Tree.redBlack_iff_balanced]
  rcases hRedBlack with ⟨n, hBal⟩
  rcases Ctx.balanced_of_plug hBal with ⟨k, j, hNode, hCtx⟩
  have hMoved := @Ctx.Balanced.swap _ _ _ c _ _
    (.right l a d) (.right l x (d.1, dx.2))
    (.left q dq rq :: c') rfl rfl hCtx
  cases hNode with
  | red hCol hl hr =>
      cases hl
      simp only [hCol, iff_true]
      exact hMoved.of_red.plug hr
  | black hCol hl hr =>
      cases hl
      simp only [hCol, reduceCtorEq, iff_false]
      rintro ⟨n', hBal'⟩
      -- the place would have two black heights
      rcases Ctx.balanced_of_plug hBal' with
        ⟨k', j', hRest, hCtx'⟩
      cases hMoved.height_unique hCtx'
      cases hr.height_unique hRest

/-
  After a removal that leaves a search tree, the tree is
  red-black if and only if no black node is missing.
-/
theorem erased_redBlack_iff
    (hRedBlack : (c.plug (.node l a d r)).RedBlack Prod.fst)
    (hErased : Erased c l d r t') :
    t'.RedBlack Prod.fst ↔ ErasesRed c d l r := by
  cases hErased with
  | @splice s hChild =>
      by_cases hs : s = .nil
      · subst hs
        have hEmpty : l = .nil ∧ r = .nil := by
          rcases hChild with ⟨hl, hr⟩ | ⟨hr, hl⟩
          · exact ⟨hl.symm, hr⟩
          · exact ⟨hl, hr.symm⟩
        rcases hEmpty with ⟨rfl, rfl⟩
        rw [show blackenRoot (.nil : AreaTree) = .nil from rfl,
          redBlack_leaf_iff hRedBlack]
        constructor
        · intro hLeaf
          exact ⟨fun _ _ => hLeaf, fun hl => absurd rfl hl⟩
        · intro hRed
          exact hRed.leaf rfl rfl
      · rw [Tree.redBlack_iff_balanced] at hRedBlack ⊢
        rcases hRedBlack with ⟨n, hBal⟩
        rcases Ctx.balanced_of_plug hBal with
          ⟨k, j, hNode, hCtx⟩
        rcases balanced_onlyChild hNode hChild hs with
          ⟨rfl, hBlack⟩
        have hRed : ErasesRed c d l r := by
          rcases hChild with ⟨rfl, rfl⟩ | ⟨rfl, rfl⟩
          · exact ⟨fun hl => absurd hl hs, by simp⟩
          · exact ⟨fun _ hr => absurd hr hs, by simp⟩
        simp only [hRed, iff_true]
        exact hCtx.plug hBlack
  | @takeOver c' q x dq dx rq e hl hr hLeft =>
      subst hr
      have hHead : (Ctx.plug (.left q dq rq :: c')
          (.node .nil x dx e)).entries.head? = some (x, dx) := by
        rw [Ctx.entries_plug, hLeft.before_eq]
        rfl
      rw [redBlack_takeOver_iff hRedBlack]
      constructor
      · intro hRed
        refine ⟨fun hNil => absurd hNil hl, ?_⟩
        intro _ y dy hy
        cases hHead.symm.trans hy
        exact hRed
      · intro hRed
        exact hRed.heir hl x dx hHead

/- A removal that leaves a search tree, in memory. -/
theorem vmaRbErase_redBlack
    (hHolds : m.Holds (c.plug (.node l a d r)))
    (hRedBlack : (c.plug (.node l a d r)).RedBlack Prod.fst)
    (hErase : vmaRbErase fuel m a = some m')
    (hHolds' : m'.Holds t') :
    t'.RedBlack Prod.fst ↔ ErasesRed c d l r :=
  erased_redBlack_iff hRedBlack
    (vmaRbErase_tree hHolds hErase hHolds')

end Balance

--------------------
-- Insertions And Removals
--------------------

/-
  `vma_rb_insert` of a node that the caller has filled in, or
  `vma_rb_erase` of one.
-/
inductive AreaTreeCall where
| insert (node : Addr) (vma : Vma) : AreaTreeCall
| erase (node : Addr) : AreaTreeCall

/- The call returns and leaves the second tree. -/
def areaTreeStep
    (m : VmaRbTree) :
    AreaTreeCall → VmaRbTree → Prop
| .insert node vma, m' =>
    ∃ fuel result, vmaRbInsert fuel
      { m with
        nodes := Function.update m.nodes node
          (vmaNewNode vma) } node = some (result, m')
| .erase node, m' =>
    ∃ fuel, vmaRbErase fuel m node = some m'

/-
  A node that is inserted is not in the tree, and one that is
  erased is. It is not missed when it is gone.
-/
def AreaTreeFits
    (m : VmaRbTree) :
    AreaTreeCall → Prop
| .insert node _ => ∀ t, m.Holds t → node ∉ t.nodes
| .erase node => ∃ c l d r,
    m.Holds (c.plug (.node l node d r)) ∧
      ¬ DirectHeir l r ∧ ErasesRed c d l r

/- A red-black search tree is in memory. -/
structure RedBlackAreas
    (m : VmaRbTree)
    (t : AreaTree) : Prop where
  holds : m.Holds t
  ordered : t.Ordered startLt startLt
  redBlack : t.RedBlack Prod.fst

theorem redBlackAreas_empty
    (hEmpty : m.root = none) :
    RedBlackAreas m .nil :=
  ⟨⟨trivial, hEmpty, by simp⟩, trivial,
    Tree.redBlack_iff_balanced.mpr ⟨0, .nil⟩⟩

variable {t : AreaTree}
variable {node : Addr}

theorem redBlackAreas_insert
    {vma : Vma}
    (hAreas : RedBlackAreas m t)
    (hFresh : node ∉ t.nodes)
    (hStep : areaTreeStep m (.insert node vma) m') :
    ∃ t', RedBlackAreas m' t' := by
  rcases hStep with ⟨fuel, result, hInsert⟩
  rcases Tree.redBlack_iff_balanced.mp hAreas.redBlack with
    ⟨n, hBal⟩
  have hFilled := hAreas.holds.update_fresh hFresh
    (vmaNewNode vma)
  have hMore := vmaRbInsert_mono hInsert
    (Nat.le_max_left fuel (t.size + 1))
  rcases vmaRbInsert_spec hFilled hAreas.ordered hBal hFresh
      (Nat.lt_of_lt_of_le (Nat.lt_succ_self _)
        (Nat.le_max_right fuel (t.size + 1))) with
    ⟨hSpec, _⟩ | ⟨m₁, t₁, n₁, hSpec, hHolds, hOrd, hBal₁, _⟩
  · rw [hMore] at hSpec
    cases hSpec
    exact ⟨t, hFilled, hAreas.ordered, hAreas.redBlack⟩
  · rw [hMore] at hSpec
    cases hSpec
    exact ⟨t₁, hHolds, hOrd,
      Tree.redBlack_iff_balanced.mpr ⟨n₁, hBal₁⟩⟩

theorem redBlackAreas_erase
    (hAreas : RedBlackAreas m t)
    (hFits : AreaTreeFits m (.erase node))
    (hStep : areaTreeStep m (.erase node) m') :
    ∃ t', RedBlackAreas m' t' := by
  rcases hStep with ⟨fuel, hErase⟩
  rcases hFits with ⟨c, l, d, r, hHolds, hNot, hRed⟩
  have hSame := Stored.unique hAreas.holds hHolds
  subst hSame
  have hMore := vmaRbErase_mono hErase
    (Nat.le_max_left fuel (r.size + 1))
  rcases @vmaRbErase_stored m c l r node d _ hHolds
      (Nat.lt_of_lt_of_le (Nat.lt_succ_self _)
        (Nat.le_max_right fuel (r.size + 1))) with
    ⟨m₁, hErase₁, _, hClean, _⟩
  rw [hMore] at hErase₁
  cases hErase₁
  rcases hClean hNot with ⟨t', hHolds', hOut⟩
  refine ⟨t', hHolds', ?_, ?_⟩
  · have hOrd := hAreas.ordered
    rw [ordered_iff_areas] at hOrd ⊢
    exact hOrd.sublist hOut.sublist
  · exact (vmaRbErase_redBlack hHolds hAreas.redBlack hErase
      hHolds').mpr hRed

/- One call keeps the tree red-black. -/
theorem areaTreeStep_redBlack
    {call : AreaTreeCall}
    (hAreas : ∃ t, RedBlackAreas m t)
    (hStep : Guarded AreaTreeFits areaTreeStep m call m') :
    ∃ t, RedBlackAreas m' t := by
  rcases hAreas with ⟨t, hAreas⟩
  rcases hStep with ⟨hFits, hStep⟩
  cases call with
  | insert node vma =>
      exact redBlackAreas_insert hAreas
        (hFits t hAreas.holds) hStep
  | erase node => exact redBlackAreas_erase hAreas hFits hStep

/- The search goes down one path. -/
theorem vmaRbFind_returns
    {par found : Option Addr}
    {addr : U64}
    (hRep : Rep m.cell par t)
    (hFuel : t.depth < fuel) :
    ∃ result, vmaRbFind m addr fuel found t.rootPtr =
      some result := by
  induction t generalizing par found fuel with
  | nil =>
      cases fuel with
      | zero => omega
      | succ fuel => exact ⟨found, rfl⟩
  | node l p d r ihl ihr =>
      cases fuel with
      | zero => omega
      | succ fuel =>
          rcases rep_links hRep with ⟨hLeft, hRight, _, _⟩
          have hDepth : l.depth < fuel ∧ r.depth < fuel := by
            simp only [Tree.depth] at hFuel
            omega
          simp only [Tree.rootPtr_node, vmaRbFind, hLeft, hRight]
          split
          · exact ihl hRep.2.1 hDepth.1
          · split
            · exact ihl hRep.2.1 hDepth.1
            · exact ihr hRep.2.2 hDepth.2

/- Inserting areas in a row is a run. -/
/- A node that hangs nowhere is new. -/
theorem fits_of_unlinked
    (hRoot : m.root ≠ some node)
    (hParent : (m.nodes node).parent = none)
    (vma : Vma) :
    AreaTreeFits m (.insert node vma) := by
  intro t hHolds hMem
  rcases Tree.exists_plug_of_mem hMem with ⟨c, l, d, r, rfl⟩
  have hRep := ((rep_plug_iff c _).mp hHolds.rep).2
  have hAbove := (rep_links hRep).2.2.1
  rw [hParent] at hAbove
  cases c with
  | nil => exact hRoot hHolds.root_eq
  | cons f c => cases hAbove

theorem insertAreas_run
    {es : List (Addr × Vma)}
    (hMake : insertAreas fuel m es = some m') :
    Run (Guarded AreaTreeFits areaTreeStep) m
      (es.map fun e => .insert e.1 e.2) m' := by
  induction es generalizing m with
  | nil =>
      cases hMake
      exact .nil m'
  | cons e es ih =>
      unfold insertAreas at hMake
      by_cases hNew :
          m.root ≠ some e.1 ∧ (m.nodes e.1).parent = none
      · rw [if_pos hNew] at hMake
        rcases Option.bind_eq_some_iff.mp hMake with
          ⟨⟨result, m₁⟩, hInsert, hRest⟩
        exact .cons
          ⟨fits_of_unlinked hNew.1 hNew.2 e.2, fuel, result,
            hInsert⟩
          (ih hRest)
      · rw [if_neg hNew] at hMake
        cases hMake

/- Which removals from the tree leave a red-black one. -/
def EraseContract
    (m : VmaRbTree)
    (t : AreaTree) : Prop :=
  ∀ (c : AreaCtx) (l : AreaTree) (a : Addr) (d : Color × Vma)
    (r : AreaTree), t = c.plug (.node l a d r) →
    ∀ fuel m' t', vmaRbErase fuel m a = some m' → m'.Holds t' →
      (t'.RedBlack Prod.fst ↔ ErasesRed c d l r)

/-
  Whatever areas are inserted and erased, the tree stays
  red-black and a lookup takes logarithmically many turns, as
  long as each removal meets the condition. A removal from
  such a tree that leaves a search tree leaves a red-black
  one if and only if it takes no black node off a path.
-/
theorem vmaRbErase_redBlack_iff
    {m₀ m : VmaRbTree}
    {calls : List AreaTreeCall}
    (hEmpty : m₀.root = none)
    (hRun : Run (Guarded AreaTreeFits areaTreeStep) m₀ calls m) :
    ∃ t, RedBlackAreas m t ∧
      (∀ addr, ∃ found, vmaRbFind m addr
        (2 * (t.size + 1).log2 + 1) none m.root = some found) ∧
      EraseContract m t := by
  have hAreas := hRun.invariant
    (fun m => ∃ t, RedBlackAreas m t)
    (fun _ _ _ hInv hStep => areaTreeStep_redBlack hInv hStep)
    ⟨.nil, redBlackAreas_empty hEmpty⟩
  rcases hAreas with ⟨t, hAreas⟩
  refine ⟨t, hAreas, ?_, ?_⟩
  · intro addr
    rw [hAreas.holds.root_eq]
    exact vmaRbFind_returns hAreas.holds.rep
      (Nat.lt_succ_of_le hAreas.redBlack.depth_le)
  · rintro c l a d r rfl fuel m' t' hErase hHolds'
    exact vmaRbErase_redBlack hAreas.holds hAreas.redBlack
      hErase hHolds'

/- Four areas are inserted, and a red leaf is erased. -/
theorem vmaRbErase_redBlack_iff_fourAreas :
    ∃ m, Run (Guarded AreaTreeFits areaTreeStep)
        VmaState.boot.tree
        ((fourAreas.map fun e => .insert e.1 e.2) ++
          [.erase 0x200120]) m ∧
      ∃ t, RedBlackAreas m t ∧
        (∀ addr, ∃ found, vmaRbFind m addr
          (2 * (t.size + 1).log2 + 1) none m.root =
            some found) ∧
        EraseContract m t := by
  rcases exists_fourAreas with ⟨m, hMake, hHolds⟩
  let c : AreaCtx :=
    [.right .nil 0x2000C0 (.black, areaAt 0x3000),
      .right (.node .nil 0x200060 (.black, areaAt 0x1000) .nil)
        0x200000 (.black, areaAt 0x2000)]
  have hHere : m.Holds (c.plug
      (.node .nil 0x200120 (.red, areaAt 0x4000) .nil)) :=
    hHolds
  have hFits : AreaTreeFits m (.erase 0x200120) :=
    ⟨c, .nil, _, .nil, hHere, fun h => h.1 rfl,
      fun _ _ => .inl rfl, fun h => absurd rfl h⟩
  rcases @vmaRbErase_stored m c .nil .nil 0x200120 _ 1 hHere
      (by decide) with
    ⟨m', hErase, _⟩
  have hRun := (insertAreas_run hMake).snoc ⟨hFits, 1, hErase⟩
  exact ⟨m', hRun, vmaRbErase_redBlack_iff rfl hRun⟩

/-
  Erasing the area at 0x1000 leaves the path to the left of
  the root with a black node less.
-/
theorem erased_leaf_not_redBlack :
    ¬ ∀ (m₀ m m' : VmaRbTree) (es : List (Addr × Vma))
      (t t' : AreaTree) (a : Addr) (fuel : Nat),
      m₀.root = none → (es.map Prod.fst).Nodup →
        Run areaTreeStep m₀
          (es.map fun e => .insert e.1 e.2) m →
        RedBlackAreas m t → a ∈ t.nodes →
        vmaRbErase fuel m a = some m' → m'.Holds t' →
        t'.Ordered startLt startLt → t'.RedBlack Prod.fst := by
  intro hAll
  rcases exists_fourAreas with ⟨m, hMake, hHolds⟩
  have hInv := VmaState.fourAreas_inv
  have hRedBlack : fourAreasTree.RedBlack Prod.fst :=
    Tree.redBlack_iff_balanced.mpr hInv.balanced
  have hHere : m.Holds (Ctx.plug
      [.left 0x200000 (.black, areaAt 0x2000)
        (.node .nil 0x2000C0 (.black, areaAt 0x3000)
          (.node .nil 0x200120 (.red, areaAt 0x4000) .nil))]
      (.node .nil 0x200060 (.black, areaAt 0x1000) .nil)) :=
    hHolds
  have hErased := vmaRbSplice_blackens hHere (.inl ⟨rfl, rfl⟩)
  have hErase : vmaRbErase 1 m 0x200060#64 =
      some (vmaRbSplice m 0x200060#64) := by
    have hLeft := (rep_links hHolds.rep.2.1).1
    unfold vmaRbErase
    rw [hLeft]
    rfl
  have hAfter := hAll VmaState.boot.tree m _ fourAreas
    fourAreasTree _ 0x200060 1 rfl (by decide)
    (insertAreas_run hMake).of_guarded
    ⟨hHolds, hInv.ordered, hRedBlack⟩
    (by simp [fourAreasTree]) hErase hErased
    (by rw [ordered_iff_areas]; decide)
  rcases hAfter.samePaths with ⟨n, hPaths⟩
  have hShort := hPaths 1 (by decide)
  have hLong := hPaths 2 (by decide)
  omega

end FeatherOS
