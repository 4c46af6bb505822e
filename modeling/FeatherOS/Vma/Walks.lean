import FeatherOS.Vma.Erase
import FeatherOS.Vma.Placement

/-
  The walks of `vma_munmap` through a stored tree.

  Main declarations:
    * `Sequential`
    * `vmaRbFind_spec`
    * `vmaRbMin_spec`
    * `vmaRbClimb_spec`
    * `vmaRbErase_within`
-/

namespace FeatherOS

open LinkedTree

--------------------
-- Areas In Sequence
--------------------

/- Every area ends before the next one starts. -/
structure Sequential (t : AreaTree) : Prop where
  interval : ∀ e ∈ areas t, e.2.start ≤ e.2.endAddr
  apart : (areas t).Pairwise fun a b =>
    a.2.endAddr.toNat ≤ b.2.start.toNat

@[simp] theorem areas_nil :
    areas .nil = [] := rfl

@[simp] theorem areas_node
    (l r : AreaTree)
    (p : Addr)
    (d : Color × Vma) :
    areas (.node l p d r) =
      areas l ++ (p, d.2) :: areas r := by
  simp [areas]

theorem map_fst_areas
    (t : AreaTree) :
    (areas t).map Prod.fst = t.nodes := by
  simp [areas, Tree.nodes]

theorem length_areas
    (t : AreaTree) :
    (areas t).length = t.size := by
  simp [areas, Tree.size]

theorem areas_plug
    (c : AreaCtx)
    (t : AreaTree) :
    areas (c.plug t) =
      c.before.map (fun e => (e.1, e.2.2)) ++ areas t ++
        c.after.map (fun e => (e.1, e.2.2)) := by
  simp [areas, Ctx.entries_plug]

variable {t : AreaTree}
variable {c : AreaCtx}
variable {e : Addr × Vma}

theorem mem_areas_plug
    (he : e ∈ areas t) :
    e ∈ areas (c.plug t) := by
  rw [areas_plug]
  exact List.mem_append_left _ (List.mem_append_right _ he)

theorem AreasDisjoint.sequential
    (hAreas : AreasDisjoint t)
    (hOrd : t.Ordered startLt startLt) :
    Sequential t where
  interval := by
    intro e he
    simp only [areas, List.mem_map] at he
    rcases he with ⟨⟨p, d⟩, hMem, rfl⟩
    exact hAreas.interval d (List.mem_map.mpr ⟨(p, d), hMem, rfl⟩)
  apart := by
    have hSeq := hAreas.inSequence hOrd
    unfold InSequence Tree.values at hSeq
    unfold areas
    rw [List.pairwise_map] at hSeq ⊢
    exact hSeq

variable {t t' : AreaTree}

theorem Sequential.of_sublist
    (hSeq : Sequential t)
    (hSub : (areas t').Sublist (areas t)) :
    Sequential t' where
  interval e he := hSeq.interval e (hSub.subset he)
  apart := hSeq.apart.sublist hSub

theorem Sequential.focus
    (hSeq : Sequential (c.plug t)) :
    Sequential t := by
  refine hSeq.of_sublist ?_
  rw [areas_plug, List.append_assoc]
  exact (List.sublist_append_left _ _).trans
    (List.sublist_append_right _ _)

variable {p : Addr}

/- Around a node: what is before ends below, what is after
   starts above. -/
theorem Sequential.node
    {l r : AreaTree}
    {d : Color × Vma}
    (hSeq : Sequential (.node l p d r)) :
    Sequential l ∧ Sequential r ∧
      d.2.start.toNat ≤ d.2.endAddr.toNat ∧
      (∀ e ∈ areas l, e.2.endAddr.toNat ≤ d.2.start.toNat) ∧
      ∀ e ∈ areas r, d.2.endAddr.toNat ≤ e.2.start.toNat := by
  have hApart := hSeq.apart
  simp only [areas_node, List.pairwise_append,
    List.pairwise_cons, List.mem_cons] at hApart
  refine ⟨hSeq.of_sublist ?_, hSeq.of_sublist ?_, ?_, ?_, ?_⟩
  · rw [areas_node]
    exact List.sublist_append_left _ _
  · rw [areas_node]
    exact (List.sublist_cons_self _ _).trans
      (List.sublist_append_right _ _)
  · exact BitVec.le_def.mp
      (hSeq.interval (p, d.2) (by simp))
  · intro e he
    exact hApart.2.2 e he (p, d.2) (Or.inl rfl)
  · intro e he
    exact hApart.2.1.1 e he

variable {v : Vma}

theorem Vma.covers_iff
    {addr : U64} :
    v.covers addr = true ↔
      v.start.toNat ≤ addr.toNat ∧
        addr.toNat < v.endAddr.toNat := by
  simp [Vma.covers, BitVec.le_def, BitVec.lt_def]

theorem Vma.covers_eq_false
    {addr : U64} :
    v.covers addr = false ↔
      addr.toNat < v.start.toNat ∨
        v.endAddr.toNat ≤ addr.toNat := by
  rw [← Bool.not_eq_true, Vma.covers_iff]
  omega

variable {addr : U64}

/- Two areas of a sequence that cover one address. -/
theorem Sequential.eq_of_covers
    {e e' : Addr × Vma}
    (hSeq : Sequential t)
    (he : e ∈ areas t)
    (he' : e' ∈ areas t)
    (hCovers : e.2.covers addr = true)
    (hCovers' : e'.2.covers addr = true) :
    e = e' := by
  by_contra hNe
  rw [Vma.covers_iff] at hCovers hCovers'
  rcases List.mem_iff_getElem.mp he with ⟨i, hi, rfl⟩
  rcases List.mem_iff_getElem.mp he' with ⟨j, hj, rfl⟩
  have hPair := List.pairwise_iff_getElem.mp hSeq.apart
  rcases Nat.lt_trichotomy i j with hLt | rfl | hLt
  · have hEnd := hPair i j hi hj hLt
    omega
  · exact hNe rfl
  · have hEnd := hPair j i hj hi hLt
    omega

--------------------
-- Walks On Stored Trees
--------------------

section Walks

variable {m : VmaRbTree}
variable {c : AreaCtx}
variable {t l r : AreaTree}
variable {par : Option Addr}
variable {p : Addr}
variable {d : Color × Vma}
variable {addr : U64}
variable {fuel : Nat}

/- The links of a represented node. -/
theorem rep_links
    (hRep : Rep m.cell par (.node l p d r)) :
    (m.nodes p).left = l.rootPtr ∧
      (m.nodes p).right = r.rootPtr ∧
      (m.nodes p).parent = par ∧ (m.nodes p).vma = d.2 := by
  have hCell := hRep.1
  refine ⟨?_, ?_, ?_, ?_⟩
  · rw [VmaRbTree.left_eq_cell, hCell]
  · rw [VmaRbTree.right_eq_cell, hCell]
  · rw [VmaRbTree.parent_eq_cell, hCell]
  · rw [VmaRbTree.vma_eq_cell, hCell]

/- The search finds the area that covers the address. -/
theorem vmaRbFind_spec
    (found : Option Addr)
    (hRep : Rep m.cell par t)
    (hSeq : Sequential t)
    (hFuel : t.size < fuel) :
    (∃ e ∈ areas t, e.2.covers addr = true ∧
        vmaRbFind m addr fuel found t.rootPtr =
          some (some e.1)) ∨
      (∀ e ∈ areas t, e.2.covers addr = false) ∧
        vmaRbFind m addr fuel found t.rootPtr =
          some found := by
  induction t generalizing par fuel found with
  | nil =>
      cases fuel with
      | zero => omega
      | succ fuel => exact Or.inr ⟨by simp, rfl⟩
  | node l p d r ihl ihr =>
      cases fuel with
      | zero => omega
      | succ fuel =>
          rcases rep_links hRep with ⟨hLeft, hRight, _, hVma⟩
          rcases hSeq.node with ⟨hL, hR, hSelf, hBelow, hAbove⟩
          have hSize : l.size < fuel ∧ r.size < fuel := by
            simp only [Tree.size, Tree.entries_node,
              List.length_append, List.length_cons] at hFuel ⊢
            omega
          simp only [Tree.rootPtr_node, vmaRbFind, hVma, hLeft,
            hRight, areas_node, List.mem_append, List.mem_cons]
          by_cases hCovers : d.2.covers addr = true
          · rw [if_pos hCovers]
            have hIn := Vma.covers_iff.mp hCovers
            rcases ihl (some p) hRep.2.1 hL hSize.1 with
              ⟨e, he, hOther, _⟩ | ⟨_, hFind⟩
            · have hEnd := hBelow e he
              have hOther := Vma.covers_iff.mp hOther
              omega
            · exact Or.inl ⟨(p, d.2), Or.inr (Or.inl rfl),
                hCovers, hFind⟩
          · rw [if_neg hCovers]
            rw [Bool.not_eq_true] at hCovers
            have hOut := Vma.covers_eq_false.mp hCovers
            by_cases hLt : addr < d.2.start
            · rw [if_pos hLt]
              rw [BitVec.lt_def] at hLt
              rcases ihl found hRep.2.1 hL hSize.1 with
                ⟨e, he, hFound⟩ | ⟨hNone, hFind⟩
              · exact Or.inl ⟨e, Or.inl he, hFound⟩
              · refine Or.inr ⟨?_, hFind⟩
                rintro e (he | rfl | he)
                · exact hNone e he
                · exact hCovers
                · have hStart := hAbove e he
                  exact Vma.covers_eq_false.mpr (by omega)
            · rw [if_neg hLt]
              rw [BitVec.lt_def] at hLt
              rcases ihr found hRep.2.2 hR hSize.2 with
                ⟨e, he, hFound⟩ | ⟨hNone, hFind⟩
              · exact Or.inl ⟨e, Or.inr (Or.inr he), hFound⟩
              · refine Or.inr ⟨?_, hFind⟩
                rintro e (he | rfl | he)
                · have hEnd := hBelow e he
                  exact Vma.covers_eq_false.mpr (by omega)
                · exact hCovers
                · exact hNone e he

/- The way down to the left ends at the leftmost node. -/
theorem vmaRbMin_spec
    (hRep : Rep m.cell par (.node l p d r))
    (hFuel : l.size < fuel) :
    ∃ (c : AreaCtx) (x : Addr) (dx : Color × Vma)
      (e : AreaTree),
      LinkedTree.Tree.node l p d r = c.plug (.node .nil x dx e) ∧
        Leftmost c ∧ vmaRbMin m fuel p = some x := by
  induction l generalizing par p d r fuel with
  | nil =>
      cases fuel with
      | zero => omega
      | succ fuel =>
          refine ⟨[], p, d, r, rfl, by simp [Leftmost], ?_⟩
          simp [vmaRbMin, (rep_links hRep).1]
  | node ll q dq lr ihl _ =>
      cases fuel with
      | zero => omega
      | succ fuel =>
          have hSize : ll.size < fuel := by
            simp only [Tree.size, Tree.entries_node,
              List.length_append, List.length_cons] at hFuel ⊢
            omega
          rcases ihl hRep.2.1 hSize with
            ⟨c, x, dx, e, hPlug, hLeft, hMin⟩
          refine ⟨c ++ [.left p d r], x, dx, e, ?_, ?_, ?_⟩
          · rw [Ctx.plug_append, ← hPlug]
            rfl
          · intro f hf
            rcases List.mem_append.mp hf with hOld | hNew
            · exact hLeft f hOld
            · exact ⟨p, d, r, by simpa using hNew⟩
          · simpa [vmaRbMin, (rep_links hRep).1] using hMin

/-
  The way up over right children ends at the node itself or
  at a node with all that was below in its right subtree.
-/
theorem vmaRbClimb_spec
    (hHolds : m.Holds (c.plug (.node l p d r)))
    (hFuel : c.length < fuel) :
    ∃ (c₂ : AreaCtx) (la : AreaTree) (a : Addr)
      (da : Color × Vma) (ra : AreaTree),
      c.plug (.node l p d r) = c₂.plug (.node la a da ra) ∧
        vmaRbClimb m fuel p c.parentPtr =
          some (a, c₂.parentPtr) ∧
        (c₂ = c ∧ a = p ∧ ra = r ∧
            (∀ l' q d' rest, c ≠ .right l' q d' :: rest) ∨
          (∃ l' q d' rest, c = .right l' q d' :: rest) ∧
            ∀ z ∈ (LinkedTree.Tree.node l p d r).nodes,
              z ∈ ra.nodes) := by
  induction c generalizing l p d r fuel with
  | nil =>
      cases fuel with
      | zero => omega
      | succ fuel =>
          exact ⟨[], l, p, d, r, rfl, rfl,
            Or.inl ⟨rfl, rfl, rfl, by simp⟩⟩
  | cons f c ih =>
      cases fuel with
      | zero => omega
      | succ fuel =>
          have hTop := (((rep_plug_iff _ _).mp hHolds.rep).1).top
          cases f with
          | left q dq rq =>
              have hSib :=
                @Stored.sibling_ne _ _ _ _ (.left q dq rq) c
                  (.node l p d r) hHolds p rfl
              have hRight :
                  (m.nodes q).right ≠ some p := by
                have hCell : m.cell q = _ := hTop
                rw [VmaRbTree.right_eq_cell, hCell]
                exact hSib
              refine ⟨.left q dq rq :: c, l, p, d, r, rfl, ?_,
                Or.inl ⟨rfl, rfl, rfl, by simp⟩⟩
              simp [vmaRbClimb, hRight]
          | right lq q dq =>
              have hCell : m.cell q = _ := hTop
              have hRight : (m.nodes q).right = some p := by
                rw [VmaRbTree.right_eq_cell, hCell]
                rfl
              have hUp :
                  (m.nodes q).parent = Ctx.parentPtr c := by
                rw [VmaRbTree.parent_eq_cell, hCell]
                rfl
              have hFuel' : c.length < fuel := by
                simp only [List.length_cons] at hFuel
                omega
              rcases ih (l := lq) (p := q) (d := dq)
                  (r := .node l p d r) hHolds hFuel' with
                ⟨c₂, la, a, da, ra, hPlug, hClimb, hWhere⟩
              refine ⟨c₂, la, a, da, ra, hPlug, ?_, Or.inr
                ⟨⟨lq, q, dq, c, rfl⟩, ?_⟩⟩
              · simp only [Ctx.parentPtr_cons, Frame.ptr_right,
                  vmaRbClimb, hRight, hUp, if_true]
                exact hClimb
              · intro z hz
                rcases hWhere with ⟨_, _, rfl, _⟩ | ⟨_, hAll⟩
                · exact hz
                · refine hAll z ?_
                  rw [Tree.nodes_node]
                  exact List.mem_append_right _
                    (List.mem_cons_of_mem _ hz)

end Walks

--------------------
-- More Turns Change Nothing
--------------------

variable {res : Addr × Option Addr}

section Mono

variable {m : VmaRbTree}
variable {fuel fuel' : Nat}

theorem vmaRbFind_mono
    {found node res : Option Addr}
    (hSome : vmaRbFind m addr fuel found node = some res)
    (hLe : fuel ≤ fuel') :
    vmaRbFind m addr fuel' found node = some res := by
  induction fuel generalizing fuel' found node with
  | zero => simp [vmaRbFind] at hSome
  | succ fuel ih =>
      cases fuel' with
      | zero => omega
      | succ fuel' =>
          have hLe' : fuel ≤ fuel' := by omega
          cases node with
          | none => exact hSome
          | some node =>
              simp only [vmaRbFind] at hSome ⊢
              split
              · rw [if_pos ‹_›] at hSome
                exact ih hSome hLe'
              · rw [if_neg ‹_›] at hSome
                split
                · rw [if_pos ‹_›] at hSome
                  exact ih hSome hLe'
                · rw [if_neg ‹_›] at hSome
                  exact ih hSome hLe'

theorem vmaRbMin_mono
    {node res : Addr}
    (hSome : vmaRbMin m fuel node = some res)
    (hLe : fuel ≤ fuel') :
    vmaRbMin m fuel' node = some res := by
  induction fuel generalizing fuel' node with
  | zero => simp [vmaRbMin] at hSome
  | succ fuel ih =>
      cases fuel' with
      | zero => omega
      | succ fuel' =>
          have hLe' : fuel ≤ fuel' := by omega
          simp only [vmaRbMin] at hSome ⊢
          cases hLeft : (m.nodes node).left with
          | none => simpa [hLeft] using hSome
          | some left =>
              simp only [hLeft] at hSome ⊢
              exact ih hSome hLe'

theorem vmaRbClimb_mono
    {node : Addr}
    {p : Option Addr}
    (hSome : vmaRbClimb m fuel node p = some res)
    (hLe : fuel ≤ fuel') :
    vmaRbClimb m fuel' node p = some res := by
  induction fuel generalizing fuel' node p with
  | zero => simp [vmaRbClimb] at hSome
  | succ fuel ih =>
      cases fuel' with
      | zero => omega
      | succ fuel' =>
          have hLe' : fuel ≤ fuel' := by omega
          cases p with
          | none => exact hSome
          | some p =>
              simp only [vmaRbClimb] at hSome ⊢
              split
              · rw [if_pos ‹_›] at hSome
                exact ih hSome hLe'
              · rwa [if_neg ‹_›] at hSome

end Mono

--------------------
-- Pointers That Stay In A Set
--------------------

/- The pointers of the memory stay in the set. -/
abbrev VmaRbTree.In
    (m : VmaRbTree)
    (N : Addr → Prop) : Prop :=
  Closed m.cell m.root N

section Inside

variable {m m' : VmaRbTree}
variable {N : Addr → Prop}
variable {p : Addr}
variable {v : Option Addr}
variable {fuel : Nat}

theorem VmaRbTree.In.links
    (hIn : m.In N)
    (hp : N p) :
    Within N (m.nodes p).left ∧ Within N (m.nodes p).right ∧
      Within N (m.nodes p).parent :=
  ⟨hIn.left_in p hp, hIn.right_in p hp, hIn.parent_in p hp⟩

/- A change of cells by pointers into the set. -/
theorem VmaRbTree.In.of_cells
    (hRoot : Within N m'.root)
    (hCells : ∀ q, N q →
      Within N (m'.cell q).left ∧ Within N (m'.cell q).right ∧
        Within N (m'.cell q).parent) :
    m'.In N :=
  ⟨hRoot, fun q hq => (hCells q hq).1,
    fun q hq => (hCells q hq).2.1,
    fun q hq => (hCells q hq).2.2⟩

theorem VmaRbTree.In.setLeft
    (hIn : m.In N)
    (hv : Within N v) :
    (m.setLeft p v).In N := by
  refine VmaRbTree.In.of_cells hIn.root_in fun q hq => ?_
  have hLinks := hIn.links hq
  rw [VmaRbTree.cell_setLeft]
  split
  · rename_i hqp
    subst hqp
    exact ⟨hv, hLinks.2.1, hLinks.2.2⟩
  · exact hLinks

theorem VmaRbTree.In.setRight
    (hIn : m.In N)
    (hv : Within N v) :
    (m.setRight p v).In N := by
  refine VmaRbTree.In.of_cells hIn.root_in fun q hq => ?_
  have hLinks := hIn.links hq
  rw [VmaRbTree.cell_setRight]
  split
  · rename_i hqp
    subst hqp
    exact ⟨hLinks.1, hv, hLinks.2.2⟩
  · exact hLinks

theorem VmaRbTree.In.setParent
    (hIn : m.In N)
    (hv : Within N v) :
    (m.setParent p v).In N := by
  refine VmaRbTree.In.of_cells hIn.root_in fun q hq => ?_
  have hLinks := hIn.links hq
  rw [VmaRbTree.cell_setParent]
  split
  · rename_i hqp
    subst hqp
    exact ⟨hLinks.1, hLinks.2.1, hv⟩
  · exact hLinks

theorem VmaRbTree.In.setColor
    (hIn : m.In N)
    (k : Color) :
    (m.setColor p k).In N := by
  refine VmaRbTree.In.of_cells hIn.root_in fun q hq => ?_
  have hLinks := hIn.links hq
  rw [VmaRbTree.cell_setColor]
  split
  · rename_i hqp
    subst hqp
    exact hLinks
  · exact hLinks

theorem VmaRbTree.In.setRoot
    (hIn : m.In N)
    (hv : Within N v) :
    ({ m with root := v } : VmaRbTree).In N :=
  ⟨hv, hIn.left_in, hIn.right_in, hIn.parent_in⟩

variable {q : Option Addr}

theorem VmaRbTree.In.setParentIf
    (hIn : m.In N)
    (hv : Within N v) :
    (m.setParentIf q v).In N := by
  cases q with
  | none => exact hIn
  | some q => exact hIn.setParent hv

theorem VmaRbTree.In.setColorIf
    (hIn : m.In N)
    (k : Color) :
    (m.setColorIf q k).In N := by
  cases q with
  | none => exact hIn
  | some q => exact hIn.setColor k

theorem VmaRbTree.In.relinkChild
    (hIn : m.In N)
    (hv : Within N v) :
    (m.relinkChild q p v).In N := by
  cases q with
  | none => exact hIn.setRoot hv
  | some q =>
      unfold VmaRbTree.relinkChild
      simp only
      split
      · exact hIn.setLeft hv
      · exact hIn.setRight hv

theorem VmaRbTree.In.replaceLeft
    (hIn : m.In N)
    (hv : Within N v) :
    (m.replaceLeft q p v).In N := by
  cases q with
  | none => exact hIn
  | some q =>
      unfold VmaRbTree.replaceLeft
      simp only
      split
      · exact hIn.setLeft hv
      · exact hIn

theorem VmaRbTree.In.replaceRight
    (hIn : m.In N)
    (hv : Within N v) :
    (m.replaceRight q p v).In N := by
  cases q with
  | none => exact hIn
  | some q =>
      unfold VmaRbTree.replaceRight
      simp only
      split
      · exact hIn.setRight hv
      · exact hIn

theorem vmaRbMin_within
    {x : Addr}
    (hIn : m.In N)
    (hp : N p)
    (hMin : vmaRbMin m fuel p = some x) :
    N x := by
  induction fuel generalizing p with
  | zero => simp [vmaRbMin] at hMin
  | succ fuel ih =>
      simp only [vmaRbMin] at hMin
      cases hLeft : (m.nodes p).left with
      | none =>
          simp only [hLeft, Option.some.injEq] at hMin
          exact hMin ▸ hp
      | some q =>
          simp only [hLeft] at hMin
          exact ih ((hIn.links hp).1 q hLeft) hMin

theorem vmaRbFind_within
    {found node res : Option Addr}
    (hIn : m.In N)
    (hFound : Within N found)
    (hNode : Within N node)
    (hFind : vmaRbFind m addr fuel found node = some res) :
    Within N res := by
  induction fuel generalizing found node with
  | zero => simp [vmaRbFind] at hFind
  | succ fuel ih =>
      cases node with
      | none =>
          simp only [vmaRbFind, Option.some.injEq] at hFind
          exact hFind ▸ hFound
      | some p =>
          have hLinks := hIn.links (hNode p rfl)
          simp only [vmaRbFind] at hFind
          split at hFind
          · exact ih hNode hLinks.1 hFind
          · split at hFind
            · exact ih hFound hLinks.1 hFind
            · exact ih hFound hLinks.2.1 hFind

theorem vmaRbClimb_within
    (hIn : m.In N)
    (hp : N p)
    (hq : Within N q)
    (hClimb : vmaRbClimb m fuel p q = some res) :
    N res.1 ∧ Within N res.2 := by
  induction fuel generalizing p q with
  | zero => simp [vmaRbClimb] at hClimb
  | succ fuel ih =>
      cases q with
      | none =>
          simp only [vmaRbClimb, Option.some.injEq] at hClimb
          exact hClimb ▸ ⟨hp, within_none⟩
      | some q =>
          have hqIn := hq q rfl
          simp only [vmaRbClimb] at hClimb
          split at hClimb
          · exact ih hqIn (hIn.links hqIn).2.2 hClimb
          · cases hClimb
            exact ⟨hp, hq⟩

theorem vmaRbNext_within
    (hIn : m.In N)
    (hp : N p)
    (hNext : vmaRbNext fuel m p = some res) :
    N res.1 ∧ Within N res.2 := by
  unfold vmaRbNext at hNext
  cases hRight : (m.nodes p).right with
  | none =>
      simp only [hRight] at hNext
      exact vmaRbClimb_within hIn hp (hIn.links hp).2.2 hNext
  | some q =>
      simp only [hRight] at hNext
      rcases Option.bind_eq_some_iff.mp hNext with
        ⟨x, hMin, hRes⟩
      cases hRes
      exact ⟨hp, within_some.mpr
        (vmaRbMin_within hIn ((hIn.links hp).2.1 q hRight)
          hMin)⟩

/- Erasing a node of the set leaves the set closed. -/
theorem vmaRbErase_within
    (hIn : m.In N)
    (hp : N p)
    (hErase : vmaRbErase fuel m p = some m') :
    m'.In N := by
  have hLinks := hIn.links hp
  have hSplice : (vmaRbSplice m p).In N := by
    unfold vmaRbSplice
    have hChild : Within N
        (if (m.nodes p).left.isSome then (m.nodes p).left
          else (m.nodes p).right) := by
      split
      · exact hLinks.1
      · exact hLinks.2.1
    exact ((hIn.setParentIf hLinks.2.2).relinkChild
      hChild).setColorIf _
  unfold vmaRbErase at hErase
  split at hErase
  · rename_i a b hLeft hRight
    rcases Option.bind_eq_some_iff.mp hErase with
      ⟨x, hMin, hRes⟩
    cases hRes
    have hx : N x :=
      vmaRbMin_within hIn (hLinks.2.1 b hRight) hMin
    have hxIn : Within N (some x) := within_some.mpr hx
    have hUnhook : (vmaRbUnhook m p x).In N := by
      unfold vmaRbUnhook
      have hxLinks := hIn.links hx
      have hBase := hIn.relinkChild (p := p)
        (q := (m.nodes p).parent) hxIn
      have hPar : Within N
          (if ((m.relinkChild (m.nodes p).parent p
              (some x)).nodes x).parent = some p then
            some x
          else
            (m.nodes x).parent) := by
        split
        · exact hxIn
        · exact hxLinks.2.2
      exact (((hBase.setParentIf hPar).replaceLeft
        hxLinks.2.1).replaceRight hxLinks.2.1)
    unfold vmaRbTakeOver vmaRbInstall
    have h₁ := hUnhook.setParent (p := x)
      (hUnhook.links hp).2.2
    have h₂ := h₁.setLeft (p := x) (h₁.links hp).1
    have h₃ := h₂.setRight (p := x) (h₂.links hp).2.1
    exact ((((h₃.setColor _).setParentIf hxIn).setParentIf
      hxIn).replaceLeft hxIn).replaceRight hxIn
  · cases hErase
    exact hSplice

end Inside

--------------------
-- Areas Do Not Change
--------------------

namespace VmaRbTree

@[simp] theorem vma_setLeft
    (m : VmaRbTree)
    (p : Addr)
    (v : Option Addr)
    (z : Addr) :
    ((m.setLeft p v).nodes z).vma = (m.nodes z).vma := by
  unfold setLeft
  by_cases hz : z = p
  · simp [hz]
  · simp [hz]

@[simp] theorem vma_setRight
    (m : VmaRbTree)
    (p : Addr)
    (v : Option Addr)
    (z : Addr) :
    ((m.setRight p v).nodes z).vma = (m.nodes z).vma := by
  unfold setRight
  by_cases hz : z = p
  · simp [hz]
  · simp [hz]

@[simp] theorem vma_setParent
    (m : VmaRbTree)
    (p : Addr)
    (v : Option Addr)
    (z : Addr) :
    ((m.setParent p v).nodes z).vma = (m.nodes z).vma := by
  unfold setParent
  by_cases hz : z = p
  · simp [hz]
  · simp [hz]

@[simp] theorem vma_setColor
    (m : VmaRbTree)
    (p : Addr)
    (v : Color)
    (z : Addr) :
    ((m.setColor p v).nodes z).vma = (m.nodes z).vma := by
  unfold setColor
  by_cases hz : z = p
  · simp [hz]
  · simp [hz]

@[simp] theorem vma_setParentIf
    (m : VmaRbTree)
    (p v : Option Addr)
    (z : Addr) :
    ((m.setParentIf p v).nodes z).vma = (m.nodes z).vma := by
  cases p with
  | none => rfl
  | some p => exact vma_setParent m p v z

@[simp] theorem vma_setColorIf
    (m : VmaRbTree)
    (p : Option Addr)
    (v : Color)
    (z : Addr) :
    ((m.setColorIf p v).nodes z).vma = (m.nodes z).vma := by
  cases p with
  | none => rfl
  | some p => exact vma_setColor m p v z

@[simp] theorem vma_relinkChild
    (m : VmaRbTree)
    (q : Option Addr)
    (p : Addr)
    (v : Option Addr)
    (z : Addr) :
    ((m.relinkChild q p v).nodes z).vma = (m.nodes z).vma := by
  cases q with
  | none => rfl
  | some q =>
      unfold relinkChild
      simp only
      split
      · exact vma_setLeft m q v z
      · exact vma_setRight m q v z

@[simp] theorem vma_replaceLeft
    (m : VmaRbTree)
    (q : Option Addr)
    (p : Addr)
    (v : Option Addr)
    (z : Addr) :
    ((m.replaceLeft q p v).nodes z).vma = (m.nodes z).vma := by
  cases q with
  | none => rfl
  | some q =>
      unfold replaceLeft
      simp only
      split
      · exact vma_setLeft m q v z
      · rfl

@[simp] theorem vma_replaceRight
    (m : VmaRbTree)
    (q : Option Addr)
    (p : Addr)
    (v : Option Addr)
    (z : Addr) :
    ((m.replaceRight q p v).nodes z).vma = (m.nodes z).vma := by
  cases q with
  | none => rfl
  | some q =>
      unfold replaceRight
      simp only
      split
      · exact vma_setRight m q v z
      · rfl

end VmaRbTree

theorem vmaRbErase_vma
    {m m' : VmaRbTree}
    {fuel : Nat}
    (hErase : vmaRbErase fuel m p = some m')
    (z : Addr) :
    (m'.nodes z).vma = (m.nodes z).vma := by
  unfold vmaRbErase at hErase
  split at hErase
  · rcases Option.bind_eq_some_iff.mp hErase with
      ⟨x, _, hRes⟩
    cases hRes
    simp [vmaRbTakeOver, vmaRbInstall, vmaRbUnhook]
  · cases hErase
    simp [vmaRbSplice]

variable {m : VmaRbTree}

/- The area of a node of a stored tree is in its memory. -/
theorem mem_areas_iff
    (hHolds : m.Holds t) :
    e ∈ areas t ↔ e.1 ∈ t.nodes ∧ (m.nodes e.1).vma = e.2 := by
  constructor
  · intro he
    have hMem : e.1 ∈ t.nodes := by
      rw [← map_fst_areas]
      exact List.mem_map_of_mem he
    refine ⟨hMem, ?_⟩
    simp only [areas, List.mem_map] at he
    rcases he with ⟨e, hIn, rfl⟩
    rw [VmaRbTree.vma_eq_cell, hHolds.rep.data_of_mem hIn]
  · rintro ⟨hMem, hVma⟩
    rcases Tree.exists_plug_of_mem hMem with
      ⟨c, l, d, r, rfl⟩
    rw [VmaRbTree.vma_eq_cell, hHolds.cell_eq] at hVma
    rw [areas_plug, areas_node]
    have hEq : e = (e.1, d.2) := by rw [hVma]
    rw [hEq]
    simp

/- Two trees in one memory have the same areas. -/
theorem VmaRbTree.Holds.areas_iff
    (hHolds : m.Holds t)
    (hHolds' : m.Holds t')
    (e : Addr × Vma) :
    e ∈ areas t' ↔ e ∈ areas t := by
  have hClosed : m.In fun z => z ∈ t.nodes := hHolds.closed
  have hClosed' : m.In fun z => z ∈ t'.nodes := hHolds'.closed
  rw [mem_areas_iff hHolds, mem_areas_iff hHolds']
  constructor
  · rintro ⟨hMem, hVma⟩
    exact ⟨hClosed.mem_of_stored hHolds' _ hMem, hVma⟩
  · rintro ⟨hMem, hVma⟩
    exact ⟨hClosed'.mem_of_stored hHolds _ hMem, hVma⟩

theorem areas_nodup
    (hNodup : t.nodes.Nodup) :
    (areas t).Nodup := by
  rw [← map_fst_areas] at hNodup
  exact List.Nodup.of_map _ hNodup

end FeatherOS
