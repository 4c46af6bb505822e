import Mathlib.Data.List.Basic

/-
  The first match of a list.

  Which element a search finds depends on the order only
  through what stands ahead of what.

  Key definitions include:
    * `Ahead`

  Key rules include:
    * `Ahead.absorb`
    * `Ahead.find?_all_iff`
    * `Ahead.find?_exists_iff`
-/

variable {α : Type}

/- Every `Q` has a `P` somewhere ahead of it. -/
def Ahead
    (P Q : α → Prop)
    (l : List α) : Prop :=
  ∀ front x back, l = front ++ x :: back → Q x →
    ∃ y ∈ front, P y

namespace Ahead

variable {P P' Q Q' R : α → Prop}
variable {l : List α}

theorem mono
    (hAhead : Ahead P Q l)
    (hP : ∀ x ∈ l, P x → P' x)
    (hQ : ∀ x ∈ l, Q' x → Q x) :
    Ahead P' Q' l := by
  rintro front x back rfl hx
  rcases hAhead front x back rfl (hQ x (by simp) hx) with
    ⟨y, hy, hPy⟩
  exact ⟨y, hy, hP y (List.mem_append_left _ hy) hPy⟩

/- If `P` is ahead of `Q`, then `Q` adds nothing to `P`. -/
theorem absorb
    (hAhead : Ahead P Q l)
    (hRest : Ahead (fun x => P x ∨ Q x) R l) :
    Ahead P R l := by
  rintro front x back rfl hx
  rcases hRest front x back rfl hx with ⟨y, hy, hPy | hQy⟩
  · exact ⟨y, hy, hPy⟩
  · rcases List.append_of_mem hy with ⟨before, after, rfl⟩
    have hSplit :
        before ++ y :: after ++ x :: back =
          before ++ y :: (after ++ x :: back) := by
      simp
    rcases hAhead before y _ hSplit hQy with ⟨z, hz, hPz⟩
    exact ⟨z, List.mem_append_left _ hz, hPz⟩

theorem or
    (hQ : Ahead P Q l)
    (hR : Ahead P R l) :
    Ahead P (fun x => Q x ∨ R x) l := by
  intro front x back hSplit hx
  rcases hx with hx | hx
  · exact hQ front x back hSplit hx
  · exact hR front x back hSplit hx

/- What is found is in the list and matches. -/
theorem found
    {M : α → Prop}
    [DecidablePred M]
    {x : α}
    (hFind : l.find? (fun x => M x) = some x) :
    x ∈ l ∧ M x := by
  have hMatch := List.find?_some hFind
  exact ⟨List.mem_of_find?_eq_some hFind, of_decide_eq_true hMatch⟩

/- What is found has `P` if and only if a `P` is first. -/
theorem find?_all_iff
    {M : α → Prop}
    [DecidablePred M] :
    (∀ x, l.find? (fun x => M x) = some x → P x) ↔
      Ahead (fun x => M x ∧ P x) (fun x => M x ∧ ¬ P x) l := by
  constructor
  · rintro hAll front x back rfl ⟨hMx, hPx⟩
    cases hFind : front.find? (fun x => M x) with
    | none =>
        refine absurd (hAll x ?_) hPx
        rw [List.find?_append, hFind, Option.none_or]
        exact List.find?_cons_of_pos (decide_eq_true hMx)
    | some y =>
        rcases found hFind with ⟨hMem, hMy⟩
        refine ⟨y, hMem, hMy, hAll y ?_⟩
        rw [List.find?_append, hFind, Option.some_or]
  · intro hAhead x hFind
    rcases List.find?_eq_some_iff_append.mp hFind with
      ⟨hMx, front, back, rfl, hFront⟩
    by_contra hPx
    rcases hAhead front x back rfl
      ⟨of_decide_eq_true hMx, hPx⟩ with ⟨y, hy, hMy, _⟩
    have hNot := hFront y hy
    rw [decide_eq_true hMy] at hNot
    cases hNot

/- Something with `P` is found. -/
theorem find?_exists_iff
    {M : α → Prop}
    [DecidablePred M] :
    (∃ x, l.find? (fun x => M x) = some x ∧ P x) ↔
      (∃ x ∈ l, M x ∧ P x) ∧
        Ahead (fun x => M x ∧ P x) (fun x => M x ∧ ¬ P x) l := by
  rw [← find?_all_iff]
  constructor
  · rintro ⟨x, hFind, hPx⟩
    rcases found hFind with ⟨hMem, hMx⟩
    refine ⟨⟨x, hMem, hMx, hPx⟩, fun y hy => ?_⟩
    rw [hFind] at hy
    cases hy
    exact hPx
  · rintro ⟨⟨x, hMem, hMx, _⟩, hAll⟩
    cases hFind : l.find? (fun x => M x) with
    | none =>
        have hNone := List.find?_eq_none.mp hFind x hMem
        exact absurd (decide_eq_true hMx) hNone
    | some y => exact ⟨y, rfl, hAll y hFind⟩

end Ahead
