import Mathlib.Data.List.Sort

/-
  Stable sorting by a key.

  A list is the stable sort of another when its keys ascend
  and the elements of each key come in the order of the
  other list. There is one such list, and `List.mergeSort`
  computes it. Putting an element behind all whose key is not
  greater sorts a list that is longer by this element.

  Key definitions include:
    * `StableSort`

  Key rules include:
    * `StableSort.concat`
    * `StableSort.unique`
    * `StableSort.eq_mergeSort`
-/

variable {α κ : Type}
variable [LinearOrder κ]

/- `m` holds the elements of `l`, sorted, equal keys in order. -/
structure StableSort
    (key : α → κ)
    (l m : List α) : Prop where
  sorted : m.Pairwise fun x y => key x ≤ key y
  sameKeys : ∀ k,
    m.filter (fun x => key x = k) =
      l.filter (fun x => key x = k)

namespace StableSort

variable {key : α → κ}
variable {l m m' : List α}
variable {x : α}

theorem nil (key : α → κ) :
    StableSort key [] [] :=
  ⟨.nil, fun _ => rfl⟩

theorem mem_iff
    (h : StableSort key l m) :
    x ∈ m ↔ x ∈ l := by
  have hIn : ∀ xs : List α,
      x ∈ xs ↔ x ∈ xs.filter (fun y => key y = key x) := by
    intro xs
    simp
  rw [hIn m, hIn l, h.sameKeys]

/-
  A last element goes behind all elements of its key and of
  smaller ones, and before the greater ones.
-/
theorem concat
    {before after : List α}
    (h : StableSort key l (before ++ after))
    (hBefore : ∀ y ∈ before, key y ≤ key x)
    (hAfter : ∀ y ∈ after, key x < key y) :
    StableSort key (l ++ [x]) (before ++ x :: after) := by
  constructor
  · have hSorted := h.sorted
    rw [List.pairwise_append] at hSorted ⊢
    rcases hSorted with ⟨hFirst, hLast, hCross⟩
    refine ⟨hFirst, ?_, ?_⟩
    · rw [List.pairwise_cons]
      exact ⟨fun y hy => (hAfter y hy).le, hLast⟩
    · intro y hy z hz
      rcases List.mem_cons.mp hz with rfl | hz
      · exact hBefore y hy
      · exact hCross y hy z hz
  · intro k
    have hKeys := h.sameKeys k
    rw [List.filter_append] at hKeys ⊢
    rw [List.filter_append, ← hKeys, List.filter_cons,
      List.filter_singleton]
    by_cases hk : key x = k
    · -- no later element has this key
      have hNone : after.filter (fun y => key y = k) = [] := by
        rw [List.filter_eq_nil_iff]
        intro y hy hEq
        have hLt := hAfter y hy
        rw [hk, ← of_decide_eq_true hEq] at hLt
        exact lt_irrefl _ hLt
      simp [hk, hNone]
    · simp [hk]

/- The head of a sorted list has the least key of all. -/
theorem head_le
    (h : StableSort key l (x :: m)) :
    ∀ y ∈ l, key x ≤ key y := by
  intro y hy
  rcases List.mem_cons.mp (h.mem_iff.mpr hy) with rfl | hTail
  · exact le_refl _
  · exact (List.pairwise_cons.mp h.sorted).1 y hTail

/- A list has one stable sort. -/
theorem unique
    (h : StableSort key l m)
    (h' : StableSort key l m') :
    m = m' := by
  have hSame : ∀ k,
      m.filter (fun x => key x = k) =
        m'.filter (fun x => key x = k) :=
    fun k => (h.sameKeys k).trans (h'.sameKeys k).symm
  have hSorted := h.sorted
  have hSorted' := h'.sorted
  clear h h'
  induction m generalizing m' with
  | nil =>
      cases m' with
      | nil => rfl
      | cons y m' => simpa using (hSame (key y)).symm
  | cons x m ih =>
      cases m' with
      | nil => simpa using hSame (key x)
      | cons y m' =>
          have hLe : StableSort key (y :: m') (x :: m) :=
            ⟨hSorted, hSame⟩
          have hLe' : StableSort key (x :: m) (y :: m') :=
            ⟨hSorted', fun k => (hSame k).symm⟩
          have hKey : key y = key x :=
            le_antisymm (hLe'.head_le x (by simp))
              (hLe.head_le y (by simp))
          have hHeads := hSame (key x)
          simp only [List.filter_cons, decide_true, if_true,
            hKey, List.cons.injEq] at hHeads
          rcases hHeads with ⟨rfl, _⟩
          rw [List.pairwise_cons] at hSorted hSorted'
          refine congrArg (x :: ·)
            (ih ?_ hSorted.2 hSorted'.2)
          intro k
          have hAll := hSame k
          by_cases hk : key x = k
          · simpa [List.filter_cons, hk] using hAll
          · simpa [List.filter_cons, hk] using hAll

/- Merge sort is stable. -/
theorem of_mergeSort
    (key : α → κ)
    (l : List α) :
    StableSort key l
      (l.mergeSort fun x y => decide (key x ≤ key y)) := by
  have hTrans : ∀ x y z : α,
      decide (key x ≤ key y) = true →
        decide (key y ≤ key z) = true →
          decide (key x ≤ key z) = true := by
    simp only [decide_eq_true_eq]
    exact fun x y z => le_trans
  have hTotal : ∀ x y : α,
      (decide (key x ≤ key y) || decide (key y ≤ key x)) =
        true := by
    simp [le_total]
  constructor
  · simpa using List.pairwise_mergeSort hTrans hTotal l
  · intro k
    -- the elements of one key are a sorted part of the list
    have hPart : (l.filter fun x => key x = k).Pairwise
        fun x y => decide (key x ≤ key y) = true := by
      rw [List.pairwise_filter]
      refine List.pairwise_of_forall ?_
      intro x y hx hy
      rw [of_decide_eq_true hx, of_decide_eq_true hy]
      simp
    have hKept := List.sublist_mergeSort hTrans hTotal hPart
      List.filter_sublist
    have hSub := hKept.filter fun x => key x = k
    rw [List.filter_filter] at hSub
    simp only [Bool.and_self] at hSub
    refine (hSub.eq_of_length ?_).symm
    exact ((List.mergeSort_perm l _).filter _).length_eq.symm

theorem eq_mergeSort
    (h : StableSort key l m) :
    m = l.mergeSort fun x y => decide (key x ≤ key y) :=
  h.unique (of_mergeSort key l)

theorem perm
    (h : StableSort key l m) :
    m.Perm l :=
  h.eq_mergeSort ▸ List.mergeSort_perm l _

end StableSort
