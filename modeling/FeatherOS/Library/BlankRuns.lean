import Mathlib.Data.List.Basic

/-
  Words of a text.

  A scan that stores a word when a blank follows finds every
  maximal run of other characters, except for one at the end
  of the text.

  Key definitions include:
    * `BlankRuns.runs`
    * `BlankRuns.ended`
    * `BlankRuns.EndsBlank`

  Key rules include:
    * `BlankRuns.runs_append_blank`
    * `BlankRuns.runs_ended`
-/

namespace BlankRuns

variable {α : Type}

/- The maximal runs of characters that are not blank -/
def runs
    (blank : α → Bool)
    (s : List α) : List (List α) :=
  (s.splitOnP blank).filter fun run => run ≠ []

/- Those with a blank behind them, the first with `cur` in front -/
def ended
    (blank : α → Bool) :
    List α → List α → List (List α)
  | _, [] => []
  | cur, c :: s =>
      if blank c then
        if cur = [] then
          ended blank [] s
        else
          cur :: ended blank [] s
      else
        ended blank (cur ++ [c]) s

def EndsBlank
    (blank : α → Bool)
    (s : List α) : Prop :=
  ∀ c ∈ s.getLast?, blank c = true

variable {blank : α → Bool}
variable {cur s : List α}
variable {c : α}

theorem runs_single
    (hCur : ∀ x ∈ cur, blank x = false)
    (hSome : cur ≠ []) :
    runs blank cur = [cur] := by
  rw [runs, List.splitOnP_eq_singleton hCur]
  simp [hSome]

theorem runs_append_blank
    (hCur : ∀ x ∈ cur, blank x = false)
    (hBlank : blank c = true) :
    runs blank (cur ++ c :: s) =
      if cur = [] then runs blank s else cur :: runs blank s := by
  rw [runs, List.splitOnP_append_cons_of_forall_mem hCur c hBlank,
    List.filter_cons]
  by_cases hNone : cur = []
  · simp [hNone, runs]
  · simp [hNone, runs]

theorem endsBlank_append_blank
    (hBlank : blank c = true) :
    EndsBlank blank (cur ++ c :: s) ↔ EndsBlank blank s := by
  unfold EndsBlank
  rw [List.getLast?_append, List.getLast?_cons]
  cases hLast : s.getLast? with
  | none => simp [hBlank]
  | some x => simp

theorem not_endsBlank
    (hCur : ∀ x ∈ cur, blank x = false)
    (hSome : cur ≠ []) :
    ¬ EndsBlank blank cur := by
  intro hEnds
  have hLast := List.getLast?_eq_some_getLast hSome
  have hBlank := hEnds _ hLast
  rw [hCur _ (List.getLast_mem hSome)] at hBlank
  cases hBlank

/- A character of a run, and a blank behind one or behind none -/
theorem ended_word
    (hWord : blank c = false) :
    ended blank cur (c :: s) = ended blank (cur ++ [c]) s := by
  rw [ended, if_neg (by simp [hWord])]

theorem ended_skip
    (hBlank : blank c = true) :
    ended blank [] (c :: s) = ended blank [] s := by
  rw [ended, if_pos hBlank, if_pos rfl]

theorem ended_store
    (hBlank : blank c = true)
    (hSome : cur ≠ []) :
    ended blank cur (c :: s) = cur :: ended blank [] s := by
  rw [ended, if_pos hBlank, if_neg hSome]

/- Only a run at the end has no blank behind it. -/
theorem runs_ended
    (hCur : ∀ x ∈ cur, blank x = false) :
    (EndsBlank blank (cur ++ s) ∧
        runs blank (cur ++ s) = ended blank cur s) ∨
      ¬ EndsBlank blank (cur ++ s) ∧
        ∃ run, runs blank (cur ++ s) = ended blank cur s ++ [run] := by
  induction s generalizing cur with
  | nil =>
      rw [List.append_nil]
      by_cases hNone : cur = []
      · subst hNone
        left
        constructor
        · intro c hMem
          cases hMem
        · simp [runs, ended]
      · right
        refine ⟨not_endsBlank hCur hNone, cur, ?_⟩
        rw [runs_single hCur hNone]
        rfl
  | cons c s ih =>
      cases hBlank : blank c with
      | true =>
          have hRest := @ih [] (by simp)
          rw [List.nil_append] at hRest
          rw [endsBlank_append_blank hBlank,
            runs_append_blank hCur hBlank]
          by_cases hNone : cur = []
          · subst hNone
            rw [if_pos rfl, ended_skip hBlank]
            exact hRest
          · rw [if_neg hNone, ended_store hBlank hNone]
            rcases hRest with ⟨hEnds, hRuns⟩ | ⟨hOpen, run, hRuns⟩
            · exact .inl ⟨hEnds, by rw [hRuns]⟩
            · exact .inr ⟨hOpen, run, by rw [hRuns]; rfl⟩
      | false =>
          have hMore : ∀ x ∈ cur ++ [c], blank x = false := by
            intro x hMem
            rcases List.mem_append.mp hMem with hMem | hMem
            · exact hCur x hMem
            · rcases List.mem_singleton.mp hMem with rfl
              exact hBlank
          have hRest := ih hMore
          rw [List.append_assoc, List.singleton_append] at hRest
          rw [ended_word hBlank]
          exact hRest

end BlankRuns
