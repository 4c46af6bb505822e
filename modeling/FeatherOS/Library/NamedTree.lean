import Mathlib.Data.List.Induction
import Mathlib.Data.List.ReduceOption

/-
  Trees whose children have names.

  A walk goes down to a child by its name or up to the parent,
  and stays where it is above the root. If it ever goes up
  from another node than the root, it ends higher than the
  names that it went down by would lead.

  Key definitions include:
    * `NamedTree.descend`
    * `NamedTree.walk`
    * `NamedTree.Climbs`
    * `NamedTree.IsTree`

  Key rules include:
    * `NamedTree.IsTree.depth_unique`
    * `NamedTree.walk_of_not_climbs`
    * `NamedTree.IsTree.descend_iff_not_climbs`
-/

namespace NamedTree

variable {ν κ : Type}
variable (child : ν → κ → Option ν)
variable (parent : ν → ν)
variable (root : ν)

/- Down by names -/
def descend : List κ → ν → Option ν
  | [], v => some v
  | k :: ks, v => (child v k).bind (descend ks)

/- Down by a name, or up -/
def walk : List (Option κ) → ν → Option ν
  | [], v => some v
  | none :: moves, v => walk moves (parent v)
  | some k :: moves, v => (child v k).bind (walk moves)

/- The walk comes to a node other than the root and goes up. -/
def Climbs : List (Option κ) → ν → Prop
  | [], _ => False
  | none :: moves, v => v ≠ root ∨ Climbs moves (parent v)
  | some k :: moves, v =>
      ∃ w, child v k = some w ∧ Climbs moves w

/- The nodes below the root have one parent each. -/
structure IsTree : Prop where
  parent_root : parent root = root
  parent_child : ∀ ks v k w, descend child ks root = some v →
    child v k = some w → parent w = v
  child_ne_root : ∀ ks v k, descend child ks root = some v →
    child v k ≠ some root

variable {child parent root}

theorem descend_append
    (ks ls : List κ)
    (v : ν) :
    descend child (ks ++ ls) v =
      (descend child ks v).bind (descend child ls) := by
  induction ks generalizing v with
  | nil => rfl
  | cons k ks ih =>
      rw [List.cons_append, descend, descend]
      cases child v k with
      | none => rfl
      | some w => exact ih w

/- The last name leads from some node. -/
theorem descend_concat
    {ks : List κ}
    {k : κ}
    {v w : ν} :
    descend child (ks ++ [k]) v = some w ↔
      ∃ u, descend child ks v = some u ∧ child u k = some w := by
  rw [descend_append, Option.bind_eq_some_iff]
  refine exists_congr fun u => and_congr_right fun _ => ?_
  rw [descend]
  cases child u k with
  | none => rfl
  | some x => rfl

/- A walk that never climbs only goes down. -/
theorem walk_of_not_climbs
    (hRoot : parent root = root)
    {moves : List (Option κ)}
    {v : ν}
    (hNot : ¬ Climbs child parent root moves v) :
    walk child parent moves v =
      descend child moves.reduceOption v := by
  induction moves generalizing v with
  | nil => rfl
  | cons move moves ih =>
      cases move with
      | none =>
          simp only [Climbs, not_or, not_not] at hNot
          rcases hNot with ⟨rfl, hRest⟩
          rw [walk, List.reduceOption_cons_of_none, ih hRest,
            hRoot]
      | some k =>
          rw [walk, List.reduceOption_cons_of_some, descend]
          cases hChild : child v k with
          | none => rfl
          | some w =>
              exact ih fun hClimbs => hNot ⟨w, hChild, hClimbs⟩

namespace IsTree

/- All names that lead to a node from the root are as many. -/
theorem depth_unique
    (hTree : IsTree child parent root)
    {ks ls : List κ}
    {v : ν}
    (hFirst : descend child ks root = some v)
    (hSecond : descend child ls root = some v) :
    ks.length = ls.length := by
  induction ks using List.reverseRecOn generalizing ls v with
  | nil =>
      cases hFirst
      rcases List.eq_nil_or_concat' ls with rfl | ⟨ls, l, rfl⟩
      · rfl
      · rcases descend_concat.mp hSecond with ⟨u, hu, hChild⟩
        exact absurd hChild (hTree.child_ne_root ls u l hu)
  | append_singleton ks k ih =>
      rcases descend_concat.mp hFirst with ⟨u, hu, hChild⟩
      rcases List.eq_nil_or_concat' ls with rfl | ⟨ls, l, rfl⟩
      · cases hSecond
        exact absurd hChild (hTree.child_ne_root ks u k hu)
      · rcases descend_concat.mp hSecond with ⟨x, hx, hOther⟩
        have hSame : u = x := by
          rw [← hTree.parent_child ks u k v hu hChild,
            hTree.parent_child ls x l v hx hOther]
        subst hSame
        rw [List.length_append, List.length_append, ih hu hx]
        rfl

/- The parent of a node is one name less deep. -/
theorem parent_depth
    (hTree : IsTree child parent root)
    {ks : List κ}
    {v : ν}
    (hNode : descend child ks root = some v) :
    (v = root ∧ ks = []) ∨
      ∃ ls, ls.length + 1 = ks.length ∧
        descend child ls root = some (parent v) := by
  rcases List.eq_nil_or_concat' ks with rfl | ⟨ks, k, rfl⟩
  · cases hNode
    exact .inl ⟨rfl, rfl⟩
  · rcases descend_concat.mp hNode with ⟨u, hu, hChild⟩
    refine .inr ⟨ks, by simp, ?_⟩
    rw [hTree.parent_child ks u k v hu hChild]
    exact hu

/- A walk ends no deeper than it goes down, less if it climbs. -/
theorem walk_depth
    (hTree : IsTree child parent root)
    {moves : List (Option κ)}
    {ks : List κ}
    {v w : ν}
    (hNode : descend child ks root = some v)
    (hWalk : walk child parent moves v = some w) :
    ∃ ls, descend child ls root = some w ∧
      ls.length ≤ ks.length + moves.reduceOption.length ∧
        (Climbs child parent root moves v →
          ls.length < ks.length + moves.reduceOption.length) := by
  induction moves generalizing ks v with
  | nil =>
      cases hWalk
      exact ⟨ks, hNode, Nat.le_refl _, False.elim⟩
  | cons move moves ih =>
      cases move with
      | none =>
          rw [List.reduceOption_cons_of_none]
          rcases hTree.parent_depth hNode with
            ⟨rfl, rfl⟩ | ⟨up, hUp, hParent⟩
          · rw [walk, hTree.parent_root] at hWalk
            rcases ih hNode hWalk with ⟨ls, hls, hLe, hLt⟩
            refine ⟨ls, hls, hLe, ?_⟩
            rintro (hAway | hClimbs)
            · exact absurd rfl hAway
            · rw [hTree.parent_root] at hClimbs
              exact hLt hClimbs
          · rcases ih hParent hWalk with ⟨ls, hls, hLe, _⟩
            exact ⟨ls, hls, by omega, fun _ => by omega⟩
      | some k =>
          rcases Option.bind_eq_some_iff.mp hWalk with
            ⟨u, hChild, hRest⟩
          have hDeeper := descend_concat.mpr ⟨v, hNode, hChild⟩
          rcases ih hDeeper hRest with ⟨ls, hls, hLe, hLt⟩
          rw [List.length_append, List.length_singleton]
            at hLe hLt
          rw [List.reduceOption_cons_of_some, List.length_cons]
          refine ⟨ls, hls, by omega, ?_⟩
          rintro ⟨x, hx, hClimbs⟩
          rw [hChild] at hx
          cases hx
          have hLess := hLt hClimbs
          omega

/-
  Where a walk from the root ends, its names alone lead there
  if and only if it never climbs.
-/
theorem descend_iff_not_climbs
    (hTree : IsTree child parent root)
    {moves : List (Option κ)}
    {w : ν}
    (hWalk : walk child parent moves root = some w) :
    descend child moves.reduceOption root = some w ↔
      ¬ Climbs child parent root moves root := by
  constructor
  · intro hDown hClimbs
    have hRoot : descend child [] root = some root := rfl
    rcases hTree.walk_depth hRoot hWalk with ⟨ls, hls, _, hLt⟩
    have hLess := hLt hClimbs
    have hSame := hTree.depth_unique hls hDown
    rw [List.length_nil] at hLess
    omega
  · intro hNot
    rw [← walk_of_not_climbs hTree.parent_root hNot]
    exact hWalk

end IsTree

end NamedTree
