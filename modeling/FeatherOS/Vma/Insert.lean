import FeatherOS.Vma.Fixup
import FeatherOS.Library.Run
import FeatherOS.Library.TreeRemoval

/-
  Insertion keeps the area tree a red-black search tree.

  Main declarations:
    * `vmaRbInsert_spec`
    * `VmaState.Inv`
    * `vmaInsert_spec`
    * `vmaInsert_run_redBlack`
-/

namespace FeatherOS

open LinkedTree

--------------------
-- The Descent
--------------------

/- Search order: strictly by start address. -/
def startLt (x y : Color × Vma) : Prop :=
  x.2.start < y.2.start

theorem startLt_trans
    (x y z : Color × Vma)
    (hxy : startLt x y)
    (hyz : startLt y z) :
    startLt x z := by
  unfold startLt at *
  exact BitVec.lt_trans hxy hyz

variable {fuel fuel' : Nat}
variable {m : VmaRbTree}
variable {t : AreaTree}
variable {c : AreaCtx}

/-
  From a subtree whose context has room for the new area,
  the descent finds either a node with that start or the
  empty place where the area belongs.
-/
theorem vmaRbDescend_spec
    {d : Color × Vma}
    (hHolds : m.Holds (c.plug t))
    (hAdmits : Ctx.Admits startLt startLt c d)
    (hFuel : t.size < fuel) :
    (vmaRbDescend m d.2.start fuel c.parentPtr t.rootPtr =
        some .duplicate ∧
      ∃ e ∈ areas (c.plug t), e.2.start = d.2.start) ∨
    ∃ c' : AreaCtx,
      vmaRbDescend m d.2.start fuel c.parentPtr t.rootPtr =
        some (.below c'.parentPtr) ∧
      c.plug t = c'.plug .nil ∧
      Ctx.Admits startLt startLt c' d := by
  induction t generalizing c fuel with
  | nil =>
      cases fuel with
      | zero => omega
      | succ fuel =>
          exact Or.inr ⟨c, rfl, rfl, hAdmits⟩
  | node l x dx r ihl ihr =>
      cases fuel with
      | zero => omega
      | succ fuel =>
          have hCell := hHolds.cell_eq
          have hStart : (m.nodes x).vma.start = dx.2.start := by
            rw [VmaRbTree.vma_eq_cell, hCell]
          have hLeft : (m.nodes x).left = l.rootPtr := by
            rw [VmaRbTree.left_eq_cell, hCell]
          have hRight : (m.nodes x).right = r.rootPtr := by
            rw [VmaRbTree.right_eq_cell, hCell]
          simp only [Tree.size, Tree.entries_node,
            List.length_append, List.length_cons] at hFuel
          by_cases hLt : d.2.start < dx.2.start
          · have hSize : l.size < fuel := by
              simp only [Tree.size]
              omega
            have hRec :=
              ihl (c := .left x dx r :: c) hHolds
                (by simp [hAdmits, Frame.Admits, startLt, hLt])
                hSize
            simpa [vmaRbDescend, hStart, hLt, hLeft,
              Frame.fill] using hRec
          · by_cases hGt : dx.2.start < d.2.start
            · have hSize : r.size < fuel := by
                simp only [Tree.size]
                omega
              have hRec :=
                ihr (c := .right l x dx :: c) hHolds
                  (by simp [hAdmits, Frame.Admits, startLt,
                    hGt])
                  hSize
              simpa [vmaRbDescend, hStart, hLt, hGt, hRight,
                Frame.fill] using hRec
            · left
              refine ⟨?_, (x, dx.2), ?_, ?_⟩
              · simp [vmaRbDescend, hStart, hLt, hGt]
              · simp [areas, Ctx.entries_plug]
              · apply BitVec.eq_of_toNat_eq
                rw [BitVec.lt_def] at hLt hGt
                change dx.2.start.toNat = d.2.start.toNat
                omega

--------------------
-- Attaching The Node
--------------------

variable {node : Addr}

/-
  The comparison with the node above agrees with the side on
  which the empty place hangs.
-/
theorem vmaRbAttach_eq
    {f : Frame Addr (Color × Vma)}
    {par : Option Addr}
    (hTop : m.cell f.ptr = f.cell none par)
    (hfn : f.ptr ≠ node)
    (hSide : f.Admits startLt startLt (m.cell node).data) :
    (vmaRbAttach m node (some f.ptr)).root = m.root ∧
      ∀ p, (vmaRbAttach m node (some f.ptr)).cell p =
        if p = f.ptr then f.cell (some node) par
        else if p = node then
          { left := none, right := none
            parent := some f.ptr
            data := (.red, (m.nodes node).vma) }
        else m.cell p := by
  simp only [vmaRbAttach, VmaRbTree.vma_eq_cell,
    VmaRbTree.cell_setColor, VmaRbTree.cell_setLeft,
    VmaRbTree.cell_setRight, VmaRbTree.cell_setParent,
    if_true, hfn, if_false]
  cases f with
  | left q d r =>
      have hCell : m.cell q = _ := hTop
      have hLt : (m.cell node).data.2.start < d.2.start := hSide
      simp only [Frame.ptr_left] at hfn ⊢
      simp only [hCell, Frame.cell, hLt, if_true]
      refine ⟨rfl, ?_⟩
      intro p
      by_cases hpq : p = q
      · subst hpq
        simp [hCell, hfn, Frame.cell]
      · by_cases hpn : p = node
        · subst hpn
          simp [hpq]
        · simp [hpq, hpn]
  | right l q d =>
      have hCell : m.cell q = _ := hTop
      have hNotLt :
          ¬ (m.cell node).data.2.start < d.2.start := by
        have hLt : d.2.start < (m.cell node).data.2.start :=
          hSide
        rw [BitVec.lt_def] at hLt ⊢
        omega
      simp only [Frame.ptr_right] at hfn ⊢
      simp only [hCell, Frame.cell, hNotLt, if_false]
      refine ⟨rfl, ?_⟩
      intro p
      by_cases hpq : p = q
      · subst hpq
        simp [hCell, hfn, Frame.cell]
      · by_cases hpn : p = node
        · subst hpn
          simp [hpq]
        · simp [hpq, hpn]

theorem vmaRbAttach_holds
    (hHolds : m.Holds (c.plug .nil))
    (hFresh : node ∉ (c.plug .nil : AreaTree).nodes)
    (hAdmits :
      Ctx.Admits startLt startLt c (m.cell node).data) :
    (vmaRbAttach m node c.parentPtr).Holds
      (c.plug (.node .nil node
        (.red, (m.nodes node).vma) .nil)) := by
  cases c with
  | nil =>
      apply hHolds.attach hFresh
      · simp [vmaRbAttach, VmaRbTree.vma_eq_cell]
      · intro f rest hc
        cases hc
      · intro p hpn _
        simp [vmaRbAttach, hpn]
      · intro _
        rfl
      · intro hc
        exact absurd rfl hc
  | cons f c =>
      have hfn : f.ptr ≠ node :=
        Ctx.ptr_ne_of_not_mem hFresh List.mem_cons_self
      have hTop := (((rep_plug_iff _ _).mp hHolds.rep).1).top
      rcases vmaRbAttach_eq hTop hfn (hAdmits f (by simp)) with
        ⟨hRoot, hCells⟩
      apply hHolds.attach hFresh
      · simp [hCells, hfn.symm]
      · intro f' rest hc
        cases hc
        simp [hCells, hTop]
      · intro p hpn hpf
        have hpf' : p ≠ f.ptr := by
          intro h
          exact hpf (by simp [h])
        simp [hCells, hpn, hpf']
      · intro hc
        cases hc
      · intro _
        exact hRoot

--------------------
-- One Insertion Into The Tree
--------------------

/- Search order only looks at the areas. -/
theorem ordered_iff_areas
    (t : AreaTree) :
    t.Ordered startLt startLt ↔
      (areas t).Pairwise
        fun x y => x.2.start < y.2.start := by
  rw [ordered_iff_pairwise startLt startLt_trans]
  unfold areas Tree.values
  rw [List.pairwise_map, List.pairwise_map]
  rfl

/- A search tree holds each start once. -/
theorem start_ne_of_ordered
    {c : AreaCtx}
    {node : Addr}
    {d : Color × Vma}
    (hOrd :
      (c.plug (.node .nil node d .nil)).Ordered
        startLt startLt) :
    ∀ e ∈ areas (c.plug .nil), e.2.start ≠ d.2.start := by
  rw [ordered_iff_areas] at hOrd
  intro e he hEq
  simp only [areas, Ctx.entries_plug, Tree.entries_node,
    Tree.entries_nil, List.nil_append, List.append_nil,
    List.map_append, List.map_cons, List.append_assoc,
    List.singleton_append, List.pairwise_append,
    List.pairwise_cons,
    List.mem_append, List.mem_cons] at hOrd he
  rcases he with he | he
  · have hLt := hOrd.2.2 e he _ (Or.inl rfl)
    rw [hEq] at hLt
    exact BitVec.lt_irrefl _ hLt
  · have hLt := hOrd.2.1.1 e he
    rw [hEq] at hLt
    exact BitVec.lt_irrefl _ hLt

/-
  On a red-black tree, `vma_rb_insert` either finds the
  start and changes nothing or adds the area.
-/
theorem vmaRbInsert_spec
    {fuel j : Nat}
    (hHolds : m.Holds t)
    (hOrd : t.Ordered startLt startLt)
    (hBal : t.Balanced Prod.fst .black j)
    (hFresh : node ∉ t.nodes)
    (hFuel : t.size < fuel) :
    (vmaRbInsert fuel m node = some (-1, m) ∧
      ∃ e ∈ areas t,
        e.2.start = (m.nodes node).vma.start) ∨
    ∃ m' t' j',
      vmaRbInsert fuel m node = some (0, m') ∧
      m'.Holds t' ∧
      t'.Ordered startLt startLt ∧
      t'.Balanced Prod.fst .black j' ∧
      (areas t').Perm
        ((node, (m.nodes node).vma) :: areas t) ∧
      ∀ e ∈ areas t,
        e.2.start ≠ (m.nodes node).vma.start := by
  have hRoot : m.root = t.rootPtr := hHolds.root_eq
  rcases vmaRbDescend_spec (c := []) (d := (m.cell node).data)
      hHolds (by simp) hFuel with
    ⟨hDescend, hDup⟩ | ⟨c, hDescend, hPlug, hAdmits⟩
  · left
    refine ⟨?_, hDup⟩
    simp only [Ctx.parentPtr_nil, ← hRoot] at hDescend
    simp [vmaRbInsert, VmaRbTree.vma_eq_cell, hDescend]
  · right
    have hPlug' : t = c.plug .nil := hPlug
    subst hPlug'
    simp only [Ctx.parentPtr_nil, ← hRoot] at hDescend
    have hAttach := vmaRbAttach_holds hHolds hFresh hAdmits
    have hOrd' :
        (c.plug (.node .nil node
          (.red, (m.nodes node).vma) .nil)).Ordered
            startLt startLt := by
      rw [ordered_plug_iff] at hOrd ⊢
      refine ⟨hOrd.1, ?_, ?_⟩
      · simp [Tree.Ordered]
      · intro x hx
        have hEq : x = (.red, (m.nodes node).vma) := by
          simpa using hx
        subst hEq
        exact hAdmits
    rcases Ctx.balanced_of_plug hBal with
      ⟨ct, k, hNil, hCtx⟩
    cases hNil with
    | nil =>
        have hInv :
            FixupInv (vmaRbAttach m node c.parentPtr) c
              (.node .nil node
                (.red, (m.nodes node).vma) .nil) node 0 :=
          ⟨hAttach, rfl, .red rfl .nil .nil, hCtx⟩
        have hLen : c.length < fuel := by
          have hSize := Ctx.length_le_size_plug c
            (.nil : AreaTree)
          omega
        rcases vmaRbInsertFixup_holds hInv hLen with
          ⟨m', t', j', hFix, hHolds', hBal', hAreas⟩
        refine ⟨m', t', j', ?_, hHolds', ?_, hBal', ?_,
          start_ne_of_ordered hOrd'⟩
        · simp [vmaRbInsert, VmaRbTree.vma_eq_cell, hDescend,
            hFix]
        · rw [ordered_iff_areas, hAreas, ← ordered_iff_areas]
          exact hOrd'
        · rw [hAreas]
          simp [areas, Ctx.entries_plug]

--------------------
-- More Turns Change Nothing
--------------------

theorem vmaRbDescend_mono
    {start : U64}
    {y x : Option Addr}
    {slot : VmaSlot}
    (hSome : vmaRbDescend m start fuel y x = some slot)
    (hLe : fuel ≤ fuel') :
    vmaRbDescend m start fuel' y x = some slot := by
  induction fuel generalizing fuel' y x with
  | zero => simp [vmaRbDescend] at hSome
  | succ fuel ih =>
      cases fuel' with
      | zero => omega
      | succ fuel' =>
          have hLe' : fuel ≤ fuel' := by omega
          cases x with
          | none => exact hSome
          | some x =>
              simp only [vmaRbDescend] at hSome ⊢
              by_cases hLt : start < (m.nodes x).vma.start
              · simp only [hLt, if_true] at hSome ⊢
                exact ih hSome hLe'
              · by_cases hGt : (m.nodes x).vma.start < start
                · simp only [hLt, if_false, hGt, if_true]
                    at hSome ⊢
                  exact ih hSome hLe'
                · simpa only [hLt, if_false, hGt] using hSome

variable {m m' : VmaRbTree}

theorem vmaRbInsertFixup_mono
    (hSome : vmaRbInsertFixup fuel m node = some m')
    (hLe : fuel ≤ fuel') :
    vmaRbInsertFixup fuel' m node = some m' := by
  induction fuel generalizing fuel' m node with
  | zero => simp [vmaRbInsertFixup] at hSome
  | succ fuel ih =>
      cases fuel' with
      | zero => omega
      | succ fuel' =>
          have hLe' : fuel ≤ fuel' := by omega
          simp only [vmaRbInsertFixup] at hSome ⊢
          cases hPar : (m.nodes node).parent with
          | none => simpa [hPar] using hSome
          | some parent =>
              simp only [hPar] at hSome ⊢
              by_cases hRed : (m.nodes parent).color = .red
              · simp only [hRed, if_true] at hSome ⊢
                cases hTurn : vmaRbFixupTurn m node parent with
                | none => simp [hTurn] at hSome
                | some next =>
                    simp only [hTurn, Option.bind_eq_bind,
                      Option.bind_some] at hSome ⊢
                    exact ih hSome hLe'
              · simpa only [hRed, if_false] using hSome

variable {r : Int}

theorem vmaRbInsert_mono
    (hSome : vmaRbInsert fuel m node = some (r, m'))
    (hLe : fuel ≤ fuel') :
    vmaRbInsert fuel' m node = some (r, m') := by
  unfold vmaRbInsert at hSome ⊢
  cases hDescend : vmaRbDescend m (m.nodes node).vma.start
      fuel none m.root with
  | none => simp [hDescend] at hSome
  | some slot =>
      have hMore := vmaRbDescend_mono hDescend hLe
      simp only [hDescend, hMore, Option.bind_eq_bind,
        Option.bind_some] at hSome ⊢
      cases slot with
      | duplicate => exact hSome
      | below y =>
          simp only at hSome ⊢
          cases hFix : vmaRbInsertFixup fuel
              (vmaRbAttach m node y) node with
          | none => simp [hFix] at hSome
          | some m₁ =>
              have hMoreFix := vmaRbInsertFixup_mono hFix hLe
              simpa [hFix, hMoreFix] using hSome

--------------------
-- The Manager's Invariant
--------------------

/-
  The tree `t` that the manager holds. Its nodes lie below
  the heap pointer, so a fresh block is none of them, and
  they fit into the heap, so the counter cannot wrap.
-/
structure VmaState.Inv
    (s : VmaState)
    (t : AreaTree) : Prop where
  holds : s.tree.Holds t
  ordered : t.Ordered startLt startLt
  balanced : ∃ j, t.Balanced Prod.fst .black j
  count_eq : s.count.toNat = t.size
  below :
    ∀ p ∈ t.nodes, p.toNat < s.heap.heapPtr.toNat
  room : 96 * t.size ≤ s.heap.heapPtr.toNat

/- A refused or granted block of one node. -/
theorem kmalloc_node_heapPtr
    {h h' : Heap}
    {p : Addr}
    (hCall : kmalloc h sizeofVmaRbNode = (some p, h')) :
    p = h.heapPtr ∧
      h'.heapPtr.toNat = h.heapPtr.toNat + 96 := by
  rcases kmalloc_some hCall with ⟨hp, _, _, hPtr⟩
  have hSize : (alignUp8 sizeofVmaRbNode).toNat = 96 := by
    decide
  rw [hSize] at hPtr
  exact ⟨hp, hPtr⟩

/- Writing a block outside the tree leaves the tree alone. -/
theorem VmaRbTree.Holds.update_fresh
    (hHolds : m.Holds t)
    (hFresh : node ∉ t.nodes)
    (v : VmaRbNode) :
    ({ m with nodes := Function.update m.nodes node v } :
      VmaRbTree).Holds t := by
  refine ⟨?_, hHolds.root_eq, hHolds.nodup⟩
  apply hHolds.rep.congr
  intro p hp
  have hpn : p ≠ node := by
    intro hpn
    exact hFresh (hpn ▸ hp)
  simp [VmaRbTree.cell, hpn]

variable {s s' : VmaState}

/-
  What a call with a manager and an area does when it is
  given enough turns.
-/
theorem vmaInsert_spec
    (hInv : s.Inv t)
    (manager : Addr)
    (vma : Vma)
    (hFuel : t.size < fuel) :
    (∃ s', vmaInsert fuel s (some manager) (some vma) =
        some (-1, s') ∧
      s'.Inv t ∧ s'.numVmas = s.numVmas ∧
      s'.count = s.count ∧
      ((kmalloc s.heap sizeofVmaRbNode).1 = none ∨
        ∃ e ∈ areas t, e.2.start = vma.start)) ∨
    ∃ s' t' node,
      vmaInsert fuel s (some manager) (some vma) =
        some (0, s') ∧
      s'.Inv t' ∧
      (areas t').Perm ((node, vma) :: areas t) ∧
      (kmalloc s.heap sizeofVmaRbNode).1 ≠ none ∧
      ∀ e ∈ areas t, e.2.start ≠ vma.start := by
  rcases hInv with
    ⟨hHolds, hOrd, ⟨j, hBal⟩, hCount, hBelow, hRoom⟩
  cases hCall : kmalloc s.heap sizeofVmaRbNode with
  | mk block heap =>
    cases block with
    | none =>
        left
        have hHeap := kmalloc_none hCall
        refine ⟨s, ?_, ⟨hHolds, hOrd, ⟨j, hBal⟩, hCount,
          hBelow, hRoom⟩, rfl, rfl, Or.inl rfl⟩
        simp [vmaInsert, hCall, hHeap]
    | some node =>
        rcases kmalloc_node_heapPtr hCall with ⟨hNode, hPtr⟩
        have hFresh : node ∉ t.nodes := by
          intro hMem
          have hLt := hBelow node hMem
          rw [hNode] at hLt
          omega
        have hHolds' :=
          hHolds.update_fresh hFresh (vmaNewNode vma)
        have hVma :
            ((Function.update s.tree.nodes node
              (vmaNewNode vma)) node).vma = vma := by
          simp [vmaNewNode]
        rcases vmaRbInsert_spec hHolds' hOrd hBal hFresh
            hFuel with
          ⟨hInsert, hDup⟩ |
          ⟨m', t', j', hInsert, hHoldsT, hOrdT, hBalT,
            hPerm, hNew⟩
        · left
          let s' : VmaState :=
            { s with
              tree :=
                { s.tree with
                  nodes := Function.update s.tree.nodes node
                    (vmaNewNode vma) }
              heap := heap }
          refine ⟨s', ?_, ⟨hHolds', hOrd, ⟨j, hBal⟩, hCount,
            ?_, ?_⟩, rfl, rfl, Or.inr ?_⟩
          · simp [vmaInsert, hCall, hInsert, s']
          · intro p hp
            have hLt := hBelow p hp
            change p.toNat < heap.heapPtr.toNat
            omega
          · change 96 * t.size ≤ heap.heapPtr.toNat
            omega
          · rw [hVma] at hDup
            exact hDup
        · right
          simp only [hVma] at hPerm hNew
          have hSize : t'.size = t.size + 1 := by
            have hLen := hPerm.length_eq
            simpa [areas, Tree.size] using hLen
          have hTop := heap.heapPtr_le
          have hBound : heapStart + heapSize < 2 ^ 32 := by
            decide
          let s' : VmaState :=
            { s with
              tree := m'
              heap := heap
              count := s.count + 1
              numVmas := Function.update s.numVmas manager
                (s.numVmas manager + 1) }
          refine ⟨s', t', node, ?_,
            ⟨hHoldsT, hOrdT, ⟨j', hBalT⟩, ?_, ?_, ?_⟩,
            hPerm, by simp, hNew⟩
          · simp [vmaInsert, hCall, hInsert, s']
          · change (s.count + 1).toNat = t'.size
            rw [BitVec.toNat_add, hCount, hSize]
            change (t.size + 1) % 2 ^ 32 = t.size + 1
            omega
          · intro p hp
            change p.toNat < heap.heapPtr.toNat
            have hMem : p ∈ node :: t.nodes := by
              have hMap := hPerm.map Prod.fst
              simp only [areas, List.map_map, List.map_cons]
                at hMap
              exact hMap.mem_iff.mp hp
            rcases List.mem_cons.mp hMem with hpn | hp
            · rw [hpn, hNode]
              omega
            · have hLt := hBelow p hp
              omega
          · change 96 * t'.size ≤ heap.heapPtr.toNat
            omega

variable {manager : Option Addr}

theorem vmaInsert_mono
    {vma : Option Vma}
    (hSome : vmaInsert fuel s manager vma = some (r, s'))
    (hLe : fuel ≤ fuel') :
    vmaInsert fuel' s manager vma = some (r, s') := by
  cases manager with
  | none => exact hSome
  | some manager =>
      cases vma with
      | none => exact hSome
      | some vma =>
          simp only [vmaInsert] at hSome ⊢
          cases hCall : kmalloc s.heap sizeofVmaRbNode with
          | mk block heap =>
              cases block with
              | none => simpa [hCall] using hSome
              | some node =>
                  simp only [hCall] at hSome ⊢
                  cases hInsert : vmaRbInsert fuel
                      { s.tree with
                        nodes :=
                          Function.update s.tree.nodes node
                            (vmaNewNode vma) } node with
                  | none => simp [hInsert] at hSome
                  | some result =>
                      have hMore :=
                        vmaRbInsert_mono hInsert hLe
                      simpa [hInsert, hMore] using hSome

--------------------
-- Runs Of The Manager
--------------------

/-
  A call of `vma_insert`, or of `kmalloc` by other kernel
  code between two such calls.
-/
inductive VmaCall where
| insert (manager : Option Addr) (vma : Option Vma) : VmaCall
| kmalloc (size : U64) : VmaCall

/- The call returns and leaves the second state. -/
def vmaStep
    (s : VmaState) :
    VmaCall → VmaState → Prop
| .insert manager vma, s' =>
    ∃ fuel r, vmaInsert fuel s manager vma = some (r, s')
| .kmalloc size, s' =>
    s' = { s with heap := (kmalloc s.heap size).2 }

/- `vma_tree` as it is before the first call. -/
def VmaState.Empty (s : VmaState) : Prop :=
  s.tree.root = none ∧ s.count = 0

theorem VmaState.inv_of_empty
    (hEmpty : s.Empty) :
    s.Inv .nil := by
  refine ⟨⟨trivial, hEmpty.1, by simp⟩, trivial,
    ⟨0, .nil⟩, ?_, by simp, by simp [Tree.size]⟩
  rw [hEmpty.2]
  rfl

/- Whatever `vma_insert` returns, the invariant survives. -/
theorem vmaInsert_result
    {manager : Addr}
    {vma : Vma}
    (hInv : s.Inv t)
    (hCall :
      vmaInsert fuel s (some manager) (some vma) =
        some (r, s')) :
    (r = -1 ∧ s'.Inv t ∧ s'.numVmas = s.numVmas ∧
      s'.count = s.count ∧
      ((kmalloc s.heap sizeofVmaRbNode).1 = none ∨
        ∃ e ∈ areas t, e.2.start = vma.start)) ∨
    ∃ t' node, r = 0 ∧ s'.Inv t' ∧
      (areas t').Perm ((node, vma) :: areas t) ∧
      (kmalloc s.heap sizeofVmaRbNode).1 ≠ none ∧
      ∀ e ∈ areas t, e.2.start ≠ vma.start := by
  have hMore :=
    vmaInsert_mono hCall (Nat.le_max_left fuel (t.size + 1))
  have hEnough : t.size < max fuel (t.size + 1) := by omega
  rcases vmaInsert_spec hInv manager vma hEnough with
    ⟨s₁, hSpec, hRest⟩ | ⟨s₁, t', node, hSpec, hRest⟩
  · rw [hMore] at hSpec
    cases hSpec
    exact Or.inl ⟨rfl, hRest⟩
  · rw [hMore] at hSpec
    cases hSpec
    exact Or.inr ⟨t', node, rfl, hRest⟩

/- One call keeps the invariant. -/
theorem vmaStep_inv
    {call : VmaCall}
    (hInv : ∃ t, s.Inv t)
    (hStep : vmaStep s call s') :
    ∃ t, s'.Inv t := by
  rcases hInv with ⟨t, hInv⟩
  cases call with
  | insert manager vma =>
      rcases hStep with ⟨fuel, r, hCall⟩
      cases manager with
      | none =>
          cases hCall
          exact ⟨t, hInv⟩
      | some manager =>
          cases vma with
          | none =>
              cases hCall
              exact ⟨t, hInv⟩
          | some vma =>
              rcases vmaInsert_result hInv hCall with
                ⟨_, hInv', _⟩ | ⟨t', _, _, hInv', _⟩
              · exact ⟨t, hInv'⟩
              · exact ⟨t', hInv'⟩
  | kmalloc size =>
      cases hStep
      have hLe := kmalloc_heapPtr_le s.heap size
      refine ⟨t, hInv.holds, hInv.ordered, hInv.balanced,
        hInv.count_eq, ?_, ?_⟩
      · intro p hp
        have hLt := hInv.below p hp
        simp only
        omega
      · have hRoom := hInv.room
        simp only
        omega

/-
  `vma_tree` is a red-black search tree on the start
  addresses. That the memory holds `t` says that every child
  names its parent, that the root has none and that no node
  is reached twice.
-/
structure VmaState.RedBlack
    (s : VmaState)
    (t : AreaTree) : Prop where
  holds : s.tree.Holds t
  search : t.Ordered startLt startLt
  rootBlack : t.rootColor Prod.fst = .black
  noRedRed : t.NoRedRed Prod.fst
  samePaths :
    ∃ n, ∀ k ∈ t.pathBlacks Prod.fst, k = n
  count_eq : s.count.toNat = t.size

/-
  What one call does in a state that holds `t`: it returns,
  it is refused exactly for a start that is present or a
  block that is denied, a refused call leaves the tree and
  both counts alone, and an accepted one adds the area.
-/
def VmaState.InsertContract
    (s : VmaState)
    (t : AreaTree) : Prop :=
  ∀ (manager : Addr) (vma : Vma),
    (∃ fuel r s',
      vmaInsert fuel s (some manager) (some vma) =
        some (r, s')) ∧
    ∀ fuel r s',
      vmaInsert fuel s (some manager) (some vma) =
          some (r, s') →
        (r = -1 ↔
          (∃ e ∈ areas t, e.2.start = vma.start) ∨
            (kmalloc s.heap sizeofVmaRbNode).1 = none) ∧
        (r = -1 →
          s'.tree.Holds t ∧ s'.count = s.count ∧
            s'.numVmas = s.numVmas) ∧
        (r ≠ -1 →
          r = 0 ∧ ∃ t' node, s'.tree.Holds t' ∧
            (areas t').Perm ((node, vma) :: areas t))

theorem VmaState.Inv.insertContract
    (hInv : s.Inv t) :
    s.InsertContract t := by
  intro manager vma
  constructor
  · rcases vmaInsert_spec hInv manager vma
        (Nat.lt_succ_self t.size) with
      ⟨s', hSpec, _⟩ | ⟨s', _, _, hSpec, _⟩
    · exact ⟨_, _, _, hSpec⟩
    · exact ⟨_, _, _, hSpec⟩
  · intro fuel r s' hCall
    rcases vmaInsert_result hInv hCall with
      ⟨rfl, hInv', hNum, hCount, hWhy⟩ |
      ⟨t', node, rfl, hInv', hPerm, hBlock, hNew⟩
    · refine ⟨?_, ?_, ?_⟩
      · simp only [true_iff]
        exact hWhy.symm
      · intro _
        exact ⟨hInv'.holds, hCount, hNum⟩
      · intro hNe
        exact absurd rfl hNe
    · refine ⟨?_, ?_, ?_⟩
      · constructor
        · intro hEq
          simp at hEq
        · rintro (⟨e, he, hStart⟩ | hNone)
          · exact absurd hStart (hNew e he)
          · exact absurd hNone hBlock
      · intro hEq
        simp at hEq
      · intro _
        exact ⟨rfl, t', node, hInv'.holds, hPerm⟩

/- Every sequence of insertions from the empty tree. -/
theorem vmaInsert_run_redBlack
    {s₀ s : VmaState}
    {calls : List VmaCall}
    (hEmpty : s₀.Empty)
    (hRun : Run vmaStep s₀ calls s) :
    ∃ t, s.RedBlack t ∧ s.InsertContract t := by
  have hInv :=
    hRun.invariant (fun s => ∃ t, s.Inv t)
      (fun _ _ _ hInv hStep => vmaStep_inv hInv hStep)
      ⟨.nil, VmaState.inv_of_empty hEmpty⟩
  rcases hInv with ⟨t, hInv⟩
  rcases hInv.balanced with ⟨j, hBal⟩
  exact ⟨t,
    ⟨hInv.holds, hInv.ordered, hBal.rootColor,
      hBal.noRedRed, ⟨j, hBal.pathBlacks_eq⟩, hInv.count_eq⟩,
    hInv.insertContract⟩

/- An area that starts at `start`. -/
def areaAt (start : U64) : Vma where
  start := start
  endAddr := start + 4096
  offset := 0
  flags := 0
  id := 0
  refCount := 1
  inode := 0
  name := none

/- The state before the first call, with zeroed memory. -/
def VmaState.boot : VmaState where
  tree :=
    { nodes := fun _ => vmaNewNode (areaAt 0)
      root := none }
  count := 0
  numVmas := fun _ => 0
  idCounter := 0
  heap := Heap.initial

/- Areas inserted one after another -/
def VmaState.insertAll
    (fuel : Nat)
    (s : VmaState)
    (manager : Option Addr) :
    List Vma → Option VmaState
| [] => some s
| vma :: vmas => do
    let (_, s) ← vmaInsert fuel s manager (some vma)
    insertAll fuel s manager vmas

theorem insertAll_run
    {vmas : List Vma}
    (hCall : s.insertAll fuel manager vmas = some s') :
    Run vmaStep s
      (vmas.map fun vma => .insert manager (some vma)) s' := by
  induction vmas generalizing s with
  | nil =>
      cases hCall
      exact .nil s'
  | cons vma vmas ih =>
      rcases Option.bind_eq_some_iff.mp hCall with
        ⟨⟨r, s₁⟩, hInsert, hRest⟩
      exact .cons ⟨fuel, r, hInsert⟩ (ih hRest)

/- In ascending order, so that the tree is rotated -/
def ascendingAreas : List Vma :=
  [areaAt 0x1000, areaAt 0x2000, areaAt 0x3000, areaAt 0x4000]

theorem vmaInsert_run_redBlack_ascending :
    ∃ s, Run vmaStep VmaState.boot
        (ascendingAreas.map fun vma =>
          .insert (some 0x1000#64) (some vma)) s ∧
      s.tree.root = some 0x200060#64 ∧
      ∃ t, s.RedBlack t ∧ s.InsertContract t := by
  have hRoot :
      (VmaState.boot.insertAll 5 (some 0x1000#64)
          ascendingAreas).map (fun s => s.tree.root) =
        some (some 0x200060#64) := by
    decide
  rcases Option.map_eq_some_iff.mp hRoot with ⟨s, hCall, hAt⟩
  have hRun := insertAll_run hCall
  exact ⟨s, hRun, hAt, vmaInsert_run_redBlack ⟨rfl, rfl⟩ hRun⟩

/-
  Four areas in memory: the one at 0x2000 above those at
  0x1000 and 0x3000, and the one at 0x4000 below 0x3000.
-/
def VmaState.fourAreas : VmaState where
  tree :=
    { nodes := fun p =>
        if p = 0x200060#64 then
          ⟨areaAt 0x1000, none, none, some 0x200000#64, .black⟩
        else if p = 0x2000C0#64 then
          ⟨areaAt 0x3000, none, some 0x200120#64,
            some 0x200000#64, .black⟩
        else if p = 0x200120#64 then
          ⟨areaAt 0x4000, none, none, some 0x2000C0#64, .red⟩
        else
          ⟨areaAt 0x2000, some 0x200060#64, some 0x2000C0#64,
            none, .black⟩
      root := some 0x200000#64 }
  count := 4
  numVmas := fun _ => 4
  idCounter := 4
  heap := ⟨0x200180#64, 0xFFE80#64, by decide⟩

/- Their tree -/
def fourAreasTree : AreaTree :=
  .node
    (.node .nil 0x200060#64 (.black, areaAt 0x1000) .nil)
    0x200000#64 (.black, areaAt 0x2000)
    (.node .nil 0x2000C0#64 (.black, areaAt 0x3000)
      (.node .nil 0x200120#64 (.red, areaAt 0x4000) .nil))

theorem VmaState.fourAreas_inv :
    VmaState.fourAreas.Inv fourAreasTree where
  holds :=
    { rep := ⟨rfl, ⟨rfl, trivial, trivial⟩, rfl, trivial, rfl,
        trivial, trivial⟩
      root_eq := rfl
      nodup := by decide }
  ordered := by
    simp [fourAreasTree, Tree.Ordered, startLt, areaAt]
  balanced :=
    ⟨2, .black rfl (.black rfl .nil .nil)
      (.black rfl .nil (.red rfl .nil .nil))⟩
  count_eq := rfl
  below := by
    intro p hp
    simp only [fourAreasTree, Tree.nodes_node, Tree.nodes_nil,
      List.nil_append, List.cons_append, List.mem_cons,
      List.not_mem_nil, or_false] at hp
    rcases hp with rfl | rfl | rfl | rfl
    all_goals decide
  room := by decide

end FeatherOS
