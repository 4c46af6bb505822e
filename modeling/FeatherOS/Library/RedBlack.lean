import FeatherOS.Library.LinkedTree

/-
  Red-black balance of linked trees.

  The colour is read off the data of a node. `Balanced t c n`
  says that `t` has root colour `c` (an empty tree is black),
  that no red node has a red child, and that every path from
  the root to an empty subtree meets `n` black nodes.
  `Ctx.Balanced` is the same for a tree with a hole, and is
  what climbing from a leaf to the root keeps.

  Key definitions include:
    * `Color`
    * `Tree.Balanced`
    * `Tree.NoRedRed`
    * `Tree.RedBlack`
    * `Ctx.Balanced`

  Key rules include:
    * `Tree.redBlack_iff_balanced`
    * `Tree.RedBlack.depth_le`
    * `Ctx.Balanced.plug`
    * `Ctx.balanced_of_plug`
    * `Ctx.Balanced.above_red`
-/

namespace LinkedTree

inductive Color where
| red : Color
| black : Color
deriving DecidableEq, Repr

variable {P D : Type}
variable {col : D → Color}

--------------------
-- Balance Of Trees
--------------------

/- Root colour and black height of a balanced tree. -/
inductive Tree.Balanced
    (col : D → Color) :
    Tree P D → Color → Nat → Prop
| nil : Tree.Balanced col .nil .black 0
| red
    {l r : Tree P D}
    {p : P}
    {d : D}
    {n : Nat}
    (hCol : col d = .red)
    (hl : Tree.Balanced col l .black n)
    (hr : Tree.Balanced col r .black n) :
    Tree.Balanced col (.node l p d r) .red n
| black
    {l r : Tree P D}
    {p : P}
    {d : D}
    {cl cr : Color}
    {n : Nat}
    (hCol : col d = .black)
    (hl : Tree.Balanced col l cl n)
    (hr : Tree.Balanced col r cr n) :
    Tree.Balanced col (.node l p d r) .black (n + 1)

/- The colour of the root; an empty tree counts as black. -/
def Tree.rootColor
    (col : D → Color) :
    Tree P D → Color
| .nil => .black
| .node _ _ d _ => col d

/- No red node has a red child. -/
def Tree.NoRedRed
    (col : D → Color) :
    Tree P D → Prop
| .nil => True
| .node l _ d r =>
    (col d = .red →
      l.rootColor col = .black ∧ r.rootColor col = .black) ∧
    l.NoRedRed col ∧
    r.NoRedRed col

/-
  The number of black nodes on each path from the root down
  to an empty subtree, one entry a path.
-/
def Tree.pathBlacks
    (col : D → Color) :
    Tree P D → List Nat
| .nil => [0]
| .node l _ d r =>
    (l.pathBlacks col ++ r.pathBlacks col).map
      fun n => if col d = .black then n + 1 else n

namespace Tree.Balanced

variable {t : Tree P D}
variable {c : Color}
variable {n : Nat}

theorem rootColor
    (h : Tree.Balanced col t c n) :
    t.rootColor col = c := by
  cases h with
  | nil => rfl
  | red hCol _ _ => exact hCol
  | black hCol _ _ => exact hCol

theorem noRedRed
    (h : Tree.Balanced col t c n) :
    t.NoRedRed col := by
  induction h with
  | nil => trivial
  | red hCol hl hr ihl ihr =>
      exact
        ⟨fun _ => ⟨hl.rootColor, hr.rootColor⟩, ihl, ihr⟩
  | black hCol _ _ ihl ihr =>
      refine ⟨?_, ihl, ihr⟩
      intro hRed
      rw [hCol] at hRed
      cases hRed

/- All paths meet the same number of black nodes. -/
theorem pathBlacks_eq
    (h : Tree.Balanced col t c n) :
    ∀ k ∈ t.pathBlacks col, k = n := by
  induction h with
  | nil => simp [Tree.pathBlacks]
  | red hCol _ _ ihl ihr =>
      intro k hk
      simp only [Tree.pathBlacks, hCol, reduceCtorEq,
        if_false, List.map_id', List.mem_append] at hk
      rcases hk with hk | hk
      · exact ihl k hk
      · exact ihr k hk
  | black hCol _ _ ihl ihr =>
      intro k hk
      simp only [Tree.pathBlacks, hCol, if_true,
        List.mem_map, List.mem_append] at hk
      rcases hk with ⟨m, hm | hm, rfl⟩
      · rw [ihl m hm]
      · rw [ihr m hm]

theorem height_unique
    {c' : Color}
    {n' : Nat}
    (h : Tree.Balanced col t c n)
    (h' : Tree.Balanced col t c' n') :
    n = n' := by
  induction h generalizing c' n' with
  | nil =>
      cases h'
      rfl
  | red hCol _ _ ihl _ =>
      cases h' with
      | red _ hl' _ => exact ihl hl'
      | black hBlack _ _ =>
          rw [hCol] at hBlack
          cases hBlack
  | black hCol _ _ ihl _ =>
      cases h' with
      | red hRed _ _ =>
          rw [hCol] at hRed
          cases hRed
      | black _ hl' _ => rw [ihl hl']

end Tree.Balanced

theorem Tree.pathBlacks_ne_nil
    (t : Tree P D) :
    t.pathBlacks col ≠ [] := by
  induction t with
  | nil => simp [Tree.pathBlacks]
  | node l p d r ihl _ => simp [Tree.pathBlacks, ihl]

variable {t : Tree P D}
variable {n : Nat}

/- No red pair and equal paths make a balanced tree. -/
theorem Tree.balanced_of_parts
    (hRed : t.NoRedRed col)
    (hPaths : ∀ k ∈ t.pathBlacks col, k = n) :
    t.Balanced col (t.rootColor col) n := by
  induction t generalizing n with
  | nil =>
      have hZero := hPaths 0 (by simp [Tree.pathBlacks])
      exact hZero ▸ .nil
  | node l p d r ihl ihr =>
      rcases hRed with ⟨hHere, hl, hr⟩
      cases hCol : col d with
      | red =>
          simp only [Tree.pathBlacks, hCol, reduceCtorEq,
            if_false, List.map_id', List.mem_append] at hPaths
          have hBalL := ihl hl fun k hk => hPaths k (.inl hk)
          have hBalR := ihr hr fun k hk => hPaths k (.inr hk)
          rw [(hHere hCol).1] at hBalL
          rw [(hHere hCol).2] at hBalR
          have hNode := Tree.Balanced.red (p := p) hCol hBalL hBalR
          simpa [Tree.rootColor, hCol] using hNode
      | black =>
          simp only [Tree.pathBlacks, hCol, if_true,
            List.mem_map, List.mem_append] at hPaths
          rcases List.exists_mem_of_ne_nil _
              (@Tree.pathBlacks_ne_nil _ _ col l) with
            ⟨k, hk⟩
          have hSucc := hPaths (k + 1) ⟨k, .inl hk, rfl⟩
          subst hSucc
          have hBalL := ihl hl fun j hj => Nat.succ.inj
            (hPaths (j + 1) ⟨j, .inl hj, rfl⟩)
          have hBalR := ihr hr fun j hj => Nat.succ.inj
            (hPaths (j + 1) ⟨j, .inr hj, rfl⟩)
          have hNode := Tree.Balanced.black (p := p) hCol hBalL hBalR
          simpa [Tree.rootColor, hCol] using hNode

/-
  Red-black trees: a black root, no red node with a red
  child, and as many black nodes on every path.
-/
structure Tree.RedBlack
    (col : D → Color)
    (t : Tree P D) : Prop where
  rootBlack : t.rootColor col = .black
  noRedRed : t.NoRedRed col
  samePaths : ∃ n, ∀ k ∈ t.pathBlacks col, k = n

theorem Tree.redBlack_iff_balanced
    {t : Tree P D} :
    t.RedBlack col ↔ ∃ n, t.Balanced col .black n := by
  constructor
  · rintro ⟨hRoot, hRed, n, hPaths⟩
    exact ⟨n, hRoot ▸ Tree.balanced_of_parts hRed hPaths⟩
  · rintro ⟨n, hBal⟩
    exact ⟨hBal.rootColor, hBal.noRedRed, n, hBal.pathBlacks_eq⟩

/- The number of nodes on the longest path. -/
def Tree.depth : Tree P D → Nat
| .nil => 0
| .node l _ _ r => max l.depth r.depth + 1

/- At most every other node of a path is red. -/
theorem Tree.Balanced.depth_le
    {c : Color}
    (h : Tree.Balanced col t c n) :
    t.depth ≤ 2 * n + if c = .red then 1 else 0 := by
  induction h with
  | nil => simp [Tree.depth]
  | red _ _ _ ihl ihr =>
      simp only [reduceCtorEq, if_false] at ihl ihr
      simp only [Tree.depth, if_true]
      omega
  | @black _ _ _ _ cl cr n _ _ _ ihl ihr =>
      have hOne : ∀ k : Color, (if k = .red then 1 else 0) ≤ 1 := by
        intro k
        split <;> omega
      have hl := hOne cl
      have hr := hOne cr
      simp only [Tree.depth, reduceCtorEq, if_false]
      omega

/- A balanced tree is full down to its black height. -/
theorem Tree.Balanced.pow_le
    {c : Color}
    (h : Tree.Balanced col t c n) :
    2 ^ n ≤ t.size + 1 := by
  induction h with
  | nil => simp
  | red _ _ _ ihl ihr =>
      rw [Tree.size_node]
      omega
  | black _ _ _ ihl ihr =>
      rw [Tree.size_node, Nat.pow_succ]
      omega

/- The depth of a red-black tree is logarithmic in its size. -/
theorem Tree.RedBlack.depth_le
    (h : t.RedBlack col) :
    t.depth ≤ 2 * (t.size + 1).log2 := by
  rcases Tree.redBlack_iff_balanced.mp h with ⟨n, hBal⟩
  have hDepth := hBal.depth_le
  have hLog : n ≤ (t.size + 1).log2 :=
    (Nat.le_log2 (by omega)).mpr hBal.pow_le
  simp only [reduceCtorEq, if_false] at hDepth
  omega

--------------------
-- Balance Of Contexts
--------------------

/-
  The context is balanced around a subtree with root colour
  `ct` and black height `n`. The root of a balanced tree is
  black, so a red cell always has a black cell above it.
-/
inductive Ctx.Balanced
    (col : D → Color) :
    Ctx P D → Color → Nat → Prop
| nil (n : Nat) : Ctx.Balanced col [] .black n
| red
    {f : Frame P D}
    {c : Ctx P D}
    {n : Nat}
    (hCol : col f.data = .red)
    (hSib : f.sibling.Balanced col .black n)
    (hCtx : Ctx.Balanced col c .red n) :
    Ctx.Balanced col (f :: c) .black n
| black
    {f : Frame P D}
    {c : Ctx P D}
    {n : Nat}
    {cs ct : Color}
    (hCol : col f.data = .black)
    (hSib : f.sibling.Balanced col cs n)
    (hCtx : Ctx.Balanced col c .black (n + 1)) :
    Ctx.Balanced col (f :: c) ct n

namespace Ctx

variable {c : Ctx P D}
variable {t : Tree P D}
variable {ct : Color}
variable {n : Nat}

/- Filling a balanced context gives a balanced tree. -/
theorem Balanced.plug
    (hc : Ctx.Balanced col c ct n)
    (ht : t.Balanced col ct n) :
    ∃ m, (c.plug t).Balanced col .black m := by
  induction hc generalizing t with
  | nil n => exact ⟨n, ht⟩
  | @red f c n hCol hSib _ ih =>
      apply ih
      cases f with
      | left p d r => exact .red hCol ht hSib
      | right l p d => exact .red hCol hSib ht
  | @black f c n cs ct hCol hSib _ ih =>
      apply ih
      cases f with
      | left p d r => exact .black hCol ht hSib
      | right l p d => exact .black hCol hSib ht

/- Taking a subtree out of a balanced tree. -/
theorem balanced_of_plug
    (h : (c.plug t).Balanced col .black n) :
    ∃ ct m, t.Balanced col ct m ∧ Ctx.Balanced col c ct m := by
  induction c generalizing t with
  | nil => exact ⟨.black, n, h, .nil n⟩
  | cons f c ih =>
      rcases ih h with ⟨ct, m, ht, hc⟩
      cases f with
      | left p d r =>
          cases ht with
          | red hCol hl hr =>
              exact ⟨_, _, hl, .red hCol hr hc⟩
          | black hCol hl hr =>
              exact ⟨_, _, hl, .black hCol hr hc⟩
      | right l p d =>
          cases ht with
          | red hCol hl hr =>
              exact ⟨_, _, hr, .red hCol hl hc⟩
          | black hCol hl hr =>
              exact ⟨_, _, hr, .black hCol hl hc⟩

variable {f : Frame P D}

/- A hole below a black cell takes a subtree of any colour. -/
theorem Balanced.recolor
    (hc : Ctx.Balanced col (f :: c) ct n)
    (hCol : col f.data = .black)
    (ct' : Color) :
    Ctx.Balanced col (f :: c) ct' n := by
  cases hc with
  | red hRed _ _ =>
      rw [hCol] at hRed
      cases hRed
  | black hBlack hSib hCtx =>
      exact .black hBlack hSib hCtx

/- Where a red subtree fits, a black one of its height does. -/
theorem Balanced.of_red
    (hc : Ctx.Balanced col c .red n) :
    Ctx.Balanced col c .black n := by
  cases hc with
  | black hCol hSib hCtx => exact .black hCol hSib hCtx

/- The cell above a hole fixes the height of the hole. -/
theorem Balanced.height_unique
    {ct' : Color}
    {n' : Nat}
    (hc : Ctx.Balanced col (f :: c) ct n)
    (hc' : Ctx.Balanced col (f :: c) ct' n') :
    n = n' := by
  cases hc with
  | red _ hSib _ =>
      cases hc' with
      | red _ hSib' _ => exact hSib.height_unique hSib'
      | black _ hSib' _ => exact hSib.height_unique hSib'
  | black _ hSib _ =>
      cases hc' with
      | red _ hSib' _ => exact hSib.height_unique hSib'
      | black _ hSib' _ => exact hSib.height_unique hSib'

/- Balance sees a cell's colour and sibling only. -/
theorem Balanced.swap
    {f g : Frame P D}
    {inner : Ctx P D}
    (hCol : col f.data = col g.data)
    (hSib : f.sibling = g.sibling)
    (hc : Ctx.Balanced col (inner ++ f :: c) ct n) :
    Ctx.Balanced col (inner ++ g :: c) ct n := by
  induction inner generalizing ct n with
  | nil =>
      cases hc with
      | red hRed hTree hCtx =>
          exact .red (hCol ▸ hRed) (hSib ▸ hTree) hCtx
      | black hBlack hTree hCtx =>
          exact .black (hCol ▸ hBlack) (hSib ▸ hTree) hCtx
  | cons e inner ih =>
      cases hc with
      | red hRed hTree hCtx => exact .red hRed hTree (ih hCtx)
      | black hBlack hTree hCtx =>
          exact .black hBlack hTree (ih hCtx)

/-
  A red cell above the hole has a black cell above it, and
  both siblings have the height of the hole.
-/
theorem Balanced.above_red
    (hc : Ctx.Balanced col (f :: c) ct n)
    (hCol : col f.data = .red) :
    f.sibling.Balanced col .black n ∧
      ∃ g rest cu, c = g :: rest ∧ col g.data = .black ∧
        g.sibling.Balanced col cu n ∧
        Ctx.Balanced col rest .black (n + 1) := by
  cases hc with
  | black hBlack _ _ =>
      rw [hCol] at hBlack
      cases hBlack
  | red _ hSib hCtx =>
      refine ⟨hSib, ?_⟩
      cases hCtx with
      | black hBlack hSib' hRest =>
          exact ⟨_, _, _, rfl, hBlack, hSib', hRest⟩

end Ctx

end LinkedTree
