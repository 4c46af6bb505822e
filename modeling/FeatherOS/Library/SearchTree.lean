import FeatherOS.Library.LinkedTree
import Mathlib.Data.List.Induction

/-
  Search order on linked trees.

  `Ordered lo hi t` relates the data of every node to the
  data on its left by `lo` and to the data on its right by
  `hi`. A strict search tree uses one relation twice; a tree
  that sends equal keys to the right uses `<` and `≤`.

  Key definitions include:
    * `Tree.Ordered`
    * `Ctx.Admits`
    * `Ctx.Ordered`

  Key rules include:
    * `ordered_plug_iff`
    * `ordered_iff_pairwise`
    * `Tree.Ordered.attach`
    * `Tree.Ordered.splice`
    * `Tree.Ordered.setData`
    * `Ctx.Ordered.around`
    * `Ctx.exists_append_of_admits`
-/

namespace LinkedTree

variable {P D : Type}
variable {lo hi : D → D → Prop}

--------------------
-- Ordered Trees
--------------------

/- Search order at every node. -/
def Tree.Ordered
    (lo hi : D → D → Prop) :
    Tree P D → Prop
| .nil => True
| .node l _ d r =>
    (∀ x ∈ l.values, lo x d) ∧
    (∀ x ∈ r.values, hi d x) ∧
    l.Ordered lo hi ∧
    r.Ordered lo hi

/- A frame leaves room for `x` in its hole. -/
def Frame.Admits
    (lo hi : D → D → Prop)
    (x : D) :
    Frame P D → Prop
| .left _ d _ => lo x d
| .right _ _ d => hi d x

/- Every frame on the way up leaves room for `x`. -/
def Ctx.Admits
    (lo hi : D → D → Prop)
    (c : Ctx P D)
    (x : D) : Prop :=
  ∀ f ∈ c, f.Admits lo hi x

/- The part of a frame outside its hole is ordered. -/
def Frame.Ordered
    (lo hi : D → D → Prop) :
    Frame P D → Prop
| .left _ d r =>
    (∀ x ∈ r.values, hi d x) ∧ r.Ordered lo hi
| .right l _ d =>
    (∀ x ∈ l.values, lo x d) ∧ l.Ordered lo hi

/- The part of a context outside its hole is ordered. -/
def Ctx.Ordered
    (lo hi : D → D → Prop) :
    Ctx P D → Prop
| [] => True
| f :: c =>
    f.Ordered lo hi ∧
    (∀ x ∈ f.data :: f.sibling.values,
      Ctx.Admits lo hi c x) ∧
    Ctx.Ordered lo hi c

@[simp] theorem Ctx.admits_nil (x : D) :
    Ctx.Admits lo hi ([] : Ctx P D) x := by
  simp [Ctx.Admits]

@[simp] theorem Ctx.admits_cons
    (f : Frame P D)
    (c : Ctx P D)
    (x : D) :
    Ctx.Admits lo hi (f :: c) x ↔
      f.Admits lo hi x ∧ Ctx.Admits lo hi c x := by
  simp [Ctx.Admits]

/-
  A filled context is ordered exactly when the context is,
  the subtree is, and the context has room for all of it.
-/
theorem ordered_plug_iff
    (c : Ctx P D)
    (t : Tree P D) :
    (c.plug t).Ordered lo hi ↔
      Ctx.Ordered lo hi c ∧ t.Ordered lo hi ∧
        ∀ x ∈ t.values, Ctx.Admits lo hi c x := by
  induction c generalizing t with
  | nil => simp [Ctx.Ordered]
  | cons f c ih =>
      rw [Ctx.plug_cons, ih]
      cases f with
      | left p d r =>
          simp only [Frame.fill, Tree.Ordered, Ctx.Ordered,
            Frame.Ordered, Tree.values_node, Frame.data,
            Frame.sibling, Ctx.admits_cons, Frame.Admits,
            List.mem_append, List.mem_cons]
          grind
      | right l p d =>
          simp only [Frame.fill, Tree.Ordered, Ctx.Ordered,
            Frame.Ordered, Tree.values_node, Frame.data,
            Frame.sibling, Ctx.admits_cons, Frame.Admits,
            List.mem_append, List.mem_cons]
          grind

/- Strict search order is sortedness in symmetric order. -/
theorem ordered_iff_pairwise
    (lo : D → D → Prop)
    (hTrans : ∀ x y z, lo x y → lo y z → lo x z)
    (t : Tree P D) :
    t.Ordered lo lo ↔ t.values.Pairwise lo := by
  induction t with
  | nil => simp [Tree.Ordered]
  | node l p d r ihl ihr =>
      simp only [Tree.Ordered, Tree.values_node,
        List.pairwise_append, List.pairwise_cons,
        List.mem_cons, ihl, ihr]
      constructor
      · rintro ⟨hl, hr, hOrdL, hOrdR⟩
        refine ⟨hOrdL, ⟨hr, hOrdR⟩, ?_⟩
        rintro x hx y (rfl | hy)
        · exact hl x hx
        · exact hTrans x d y (hl x hx) (hr y hy)
      · rintro ⟨hOrdL, ⟨hr, hOrdR⟩, hCross⟩
        exact ⟨fun x hx => hCross x hx d (Or.inl rfl),
          hr, hOrdL, hOrdR⟩

--------------------
-- Changes That Keep The Order
--------------------

section Changes

variable {c : Ctx P D}
variable {l r s : Tree P D}
variable {p : P}
variable {d d' : D}

/- A leaf is put where there is room for it. -/
theorem Tree.Ordered.attach
    (hOrd : (c.plug .nil).Ordered lo hi)
    (hRoom : Ctx.Admits lo hi c d) :
    (c.plug (.node .nil p d .nil)).Ordered lo hi := by
  rw [ordered_plug_iff] at hOrd ⊢
  refine ⟨hOrd.1, by simp [Tree.Ordered], ?_⟩
  intro x hx
  have hEq : x = d := by simpa using hx
  rw [hEq]
  exact hRoom

/- A node gives its place to one of its subtrees. -/
theorem Tree.Ordered.splice
    (hOrd : (c.plug (.node l p d r)).Ordered lo hi)
    (hChild : s = l ∨ s = r) :
    (c.plug s).Ordered lo hi := by
  rw [ordered_plug_iff] at hOrd ⊢
  rcases hOrd with ⟨hCtx, ⟨_, _, hl, hr⟩, hRoom⟩
  rcases hChild with rfl | rfl
  · exact ⟨hCtx, hl, fun x hx => hRoom x (by simp [hx])⟩
  · exact ⟨hCtx, hr, fun x hx => hRoom x (by simp [hx])⟩

/- A node takes other data that fit its place. -/
theorem Tree.Ordered.setData
    (hOrd : (c.plug (.node l p d r)).Ordered lo hi)
    (hRoom : Ctx.Admits lo hi c d')
    (hLeft : ∀ x ∈ l.values, lo x d')
    (hRight : ∀ x ∈ r.values, hi d' x) :
    (c.plug (.node l p d' r)).Ordered lo hi := by
  rw [ordered_plug_iff] at hOrd ⊢
  rcases hOrd with ⟨hCtx, ⟨_, _, hl, hr⟩, hAll⟩
  refine ⟨hCtx, ⟨hLeft, hRight, hl, hr⟩, ?_⟩
  intro x hx
  simp only [Tree.values_node, List.mem_append, List.mem_cons]
    at hx hAll
  rcases hx with hx | rfl | hx
  · exact hAll x (Or.inl hx)
  · exact hRoom
  · exact hAll x (Or.inr (Or.inr hx))

/-
  What stands before a place with room for a value goes to
  its left, what stands after it to its right.
-/
theorem Ctx.Ordered.around
    {x : D}
    (hLo : ∀ a b c, lo a b → hi b c → lo a c)
    (hHi : ∀ a b c, lo a b → hi b c → hi a c)
    (hOrd : Ctx.Ordered lo hi c)
    (hRoom : Ctx.Admits lo hi c x) :
    (∀ e ∈ c.before, hi e.2 x) ∧ ∀ e ∈ c.after, lo x e.2 := by
  induction c with
  | nil => simp [Ctx.before, Ctx.after]
  | cons f c ih =>
      rcases hOrd with ⟨hFrame, _, hOuter⟩
      rw [Ctx.admits_cons] at hRoom
      rcases ih hOuter hRoom.2 with ⟨hBefore, hAfter⟩
      cases f with
      | left p d r =>
          refine ⟨hBefore, ?_⟩
          intro e he
          simp only [Ctx.after, List.cons_append, List.mem_cons,
            List.mem_append] at he
          rcases he with rfl | he | he
          · exact hRoom.1
          · exact hLo _ _ _ hRoom.1
              (hFrame.1 e.2 (List.mem_map_of_mem he))
          · exact hAfter e he
      | right l p d =>
          refine ⟨?_, hAfter⟩
          intro e he
          simp only [Ctx.before, List.mem_append,
            List.mem_singleton] at he
          rcases he with (he | he) | rfl
          · exact hBefore e he
          · exact hHi _ _ _
              (hFrame.1 e.2 (List.mem_map_of_mem he)) hRoom.1
          · exact hRoom.1

/-
  Two places with room for one value lie on one way down;
  the induction goes down the first of them.
-/
theorem Ctx.exists_append_of_admits
    {c' : Ctx P D}
    {t : Tree P D}
    {x : D}
    (hSides : ∀ d, lo x d → ¬ hi d x)
    (hEq : c.plug t = c'.plug .nil)
    (hRoom : Ctx.Admits lo hi c x)
    (hRoom' : Ctx.Admits lo hi c' x) :
    ∃ c₁ : Ctx P D, c' = c₁ ++ c ∧ t = c₁.plug .nil := by
  induction c using List.reverseRecOn generalizing c' with
  | nil => exact ⟨c', (List.append_nil c').symm, hEq⟩
  | append_singleton c f ih =>
      have hOuter : f.fill (Ctx.plug c t) = Ctx.plug c' .nil :=
        (Ctx.plug_append [f] c t).symm.trans hEq
      cases c' using List.reverseRecOn with
      | nil =>
          have hRoot := congrArg Tree.rootPtr hOuter
          simp at hRoot
      | append_singleton c' g =>
          have hBoth :
              f.fill (Ctx.plug c t) =
                g.fill (Ctx.plug c' .nil) :=
            hOuter.trans (Ctx.plug_append [g] c' .nil)
          have hf := hRoom f (by simp)
          have hg := hRoom' g (by simp)
          have hSame : f = g ∧
              Ctx.plug c t = Ctx.plug c' .nil := by
            cases f with
            | left p d r =>
                cases g with
                | left p' d' r' =>
                    injection hBoth with hl hp hd hr
                    exact ⟨by rw [hp, hd, hr], hl⟩
                | right l' p' d' =>
                    injection hBoth with hl hp hd hr
                    exact absurd (hd ▸ hg) (hSides d hf)
            | right l p d =>
                cases g with
                | left p' d' r' =>
                    injection hBoth with hl hp hd hr
                    exact absurd (hd ▸ hf) (hSides d' hg)
                | right l' p' d' =>
                    injection hBoth with hl hp hd hr
                    exact ⟨by rw [hl, hp, hd], hr⟩
          rcases ih hSame.2 (fun h hh => hRoom h (by simp [hh]))
              (fun h hh => hRoom' h (by simp [hh])) with
            ⟨c₁, hc, ht⟩
          refine ⟨c₁, ?_, ht⟩
          rw [hc, hSame.1, List.append_assoc]

end Changes

end LinkedTree
