import Mathlib.Algebra.GroupWithZero.Nat
import Mathlib.Data.List.Perm.Subperm
import Mathlib.Data.List.Nodup
import Mathlib.Logic.Function.Basic

/-
  Blocks of memory that lie apart below a top.

  An allocator that only moves its top up gives every owner a
  block above all of the blocks given before. An owner may
  give its block up, and may get a new one.

  Key definitions include:
    * `Extent`
    * `Extents.Placed`

  Key rules include:
    * `Extents.Placed.place`
    * `Extents.Placed.mono`
    * `Extents.Placed.within`
    * `Extents.sum_size_le`
-/

/- The bytes from `start` on. -/
structure Extent where
  start : Nat
  size : Nat
deriving DecidableEq

namespace Extent

def Apart (p q : Extent) : Prop :=
  p.start + p.size ≤ q.start ∨ q.start + q.size ≤ p.start

instance
    (p q : Extent) :
    Decidable (p.Apart q) :=
  inferInstanceAs (Decidable (_ ∨ _))

theorem Apart.symm
    {p q : Extent}
    (hApart : p.Apart q) :
    q.Apart p :=
  Or.symm hApart

/- A part of a block is apart from what the block is. -/
theorem Apart.part
    {p q part : Extent}
    (hApart : p.Apart q)
    (hStart : p.start ≤ part.start)
    (hEnd : part.start + part.size ≤ p.start + p.size) :
    part.Apart q := by
  unfold Apart at hApart ⊢
  omega

/- So are fewer bytes from the same start. -/
theorem Apart.shorter
    {start size less : Nat}
    {q : Extent}
    (hApart : Apart ⟨start, size⟩ q)
    (hLe : less ≤ size) :
    Apart ⟨start, less⟩ q :=
  hApart.part (Nat.le_refl _) (Nat.add_le_add_left hLe start)

/- The byte lies in the block. -/
def Has
    (p : Extent)
    (b : Nat) : Prop :=
  p.start ≤ b ∧ b < p.start + p.size

instance
    (p : Extent)
    (b : Nat) :
    Decidable (p.Has b) :=
  inferInstanceAs (Decidable (_ ∧ _))

/- No byte lies in both; an empty block may lie in another. -/
def Disjoint (p q : Extent) : Prop :=
  ∀ b, ¬ (p.Has b ∧ q.Has b)

theorem Apart.disjoint
    {p q : Extent}
    (hApart : p.Apart q) :
    p.Disjoint q := by
  intro b hBoth
  unfold Apart at hApart
  unfold Has at hBoth
  omega

theorem mem_range'_iff_has
    (p : Extent)
    (b : Nat) :
    b ∈ List.range' p.start p.size ↔ p.Has b := by
  rw [List.mem_range'_1]
  exact Iff.rfl

end Extent

namespace Extents

/- Disjoint blocks are no larger than where they all lie. -/
theorem sum_size_le
    {blocks : List Extent}
    {top : Nat}
    (hDisjoint : blocks.Pairwise Extent.Disjoint)
    (hBelow : ∀ p ∈ blocks, p.start + p.size ≤ top) :
    (blocks.map Extent.size).sum ≤ top := by
  let bytes := blocks.flatMap fun p => List.range' p.start p.size
  have hLength : bytes.length = (blocks.map Extent.size).sum := by
    rw [List.length_flatMap]
    simp
  have hNodup : bytes.Nodup := by
    rw [List.nodup_flatMap]
    refine ⟨fun p _ => List.nodup_range', hDisjoint.imp ?_⟩
    intro p q hApart b hp hq
    rw [Extent.mem_range'_iff_has] at hp hq
    exact hApart b ⟨hp, hq⟩
  have hSub : bytes ⊆ List.range top := by
    intro b hb
    rcases List.mem_flatMap.mp hb with ⟨p, hp, hIn⟩
    rw [Extent.mem_range'_iff_has] at hIn
    have hTop := hBelow p hp
    unfold Extent.Has at hIn
    exact List.mem_range.mpr (by omega)
  have hLe := (List.subperm_of_subset hNodup hSub).length_le
  rwa [hLength, List.length_range] at hLe

/- What the owners have lies apart and below the top. -/
structure Placed
    {ι : Type}
    (extent : ι → Option Extent)
    (top : Nat) : Prop where
  below : ∀ i p, extent i = some p → p.start + p.size ≤ top
  apart : ∀ i j p q, i ≠ j →
    extent i = some p → extent j = some q → p.Apart q

namespace Placed

variable {ι : Type}
variable {extent extent' : ι → Option Extent}
variable {top top' : Nat}

theorem mono
    (hTop : top ≤ top')
    (hKept : ∀ i p, extent' i = some p → extent i = some p)
    (hPlaced : Placed extent top) :
    Placed extent' top' where
  below i p hp :=
    Nat.le_trans (hPlaced.below i p (hKept i p hp)) hTop
  apart i j p q hNe hp hq :=
    hPlaced.apart i j p q hNe (hKept i p hp) (hKept j q hq)

/- An owner gets a block above all others. -/
theorem place
    {i : ι}
    {start size : Nat}
    (hStart : top ≤ start)
    (hEnd : start + size ≤ top')
    (hNew : extent' i = some ⟨start, size⟩)
    (hKept : ∀ j p, j ≠ i → extent' j = some p → extent j = some p)
    (hPlaced : Placed extent top) :
    Placed extent' top' := by
  have hAbove : ∀ j p, j ≠ i → extent' j = some p →
      p.start + p.size ≤ start := by
    intro j p hj hp
    exact Nat.le_trans (hPlaced.below j p (hKept j p hj hp)) hStart
  constructor
  · intro j p hp
    by_cases hj : j = i
    · subst hj
      rw [hNew] at hp
      cases hp
      exact hEnd
    · have hBelow := hAbove j p hj hp
      omega
  · intro j k p q hNe hp hq
    by_cases hj : j = i
    · subst hj
      rw [hNew] at hp
      cases hp
      exact .inr (hAbove k q (Ne.symm hNe) hq)
    · by_cases hk : k = i
      · subst hk
        rw [hNew] at hq
        cases hq
        exact .inl (hAbove j p hj hp)
      · exact hPlaced.apart j k p q hNe (hKept j p hj hp)
          (hKept k q hk hq)

/- A part of an owner's block is apart from the others'. -/
theorem within
    {i j : ι}
    {p q part : Extent}
    (hPlaced : Placed extent top)
    (hNe : i ≠ j)
    (hp : extent i = some p)
    (hq : extent j = some q)
    (hStart : p.start ≤ part.start)
    (hEnd : part.start + part.size ≤ p.start + p.size) :
    part.Apart q :=
  (hPlaced.apart i j p q hNe hp hq).part hStart hEnd

end Placed

end Extents
