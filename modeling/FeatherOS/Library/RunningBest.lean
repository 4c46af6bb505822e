import Mathlib.Data.Int.Order.Basic
import Mathlib.Data.List.Induction

/-
  The running best of a list.

  A loop that keeps the best candidate so far, and replaces it
  by a strictly better one only, ends with the first of the
  best candidates.

  Key definitions include:
    * `RunningBest.scan`
    * `RunningBest.FirstBest`

  Key rules include:
    * `RunningBest.scan_none`
    * `RunningBest.scan_some`
-/

namespace RunningBest

variable {α : Type}

/- A candidate has a score, which must be above the best one. -/
def step
    (score : α → Option Int)
    (best : Option α × Int)
    (x : α) :
    Option α × Int :=
  match score x with
  | some s => if best.2 < s then (some x, s) else best
  | none => best

def scan
    (score : α → Option Int)
    (low : Int)
    (xs : List α) :
    Option α × Int :=
  xs.foldl (step score) (none, low)

/- `x` has the score `s`, and is the first with a score so high. -/
structure FirstBest
    (score : α → Option Int)
    (xs : List α)
    (x : α)
    (s : Int) : Prop where
  scores : score x = some s
  first : ∃ front back, xs = front ++ x :: back ∧
    (∀ y ∈ front, ∀ t ∈ score y, t < s) ∧
      ∀ y ∈ back, ∀ t ∈ score y, t ≤ s

variable {score : α → Option Int}
variable {low : Int}
variable {s : Int}

theorem FirstBest.mem
    {xs : List α}
    {x : α}
    (hBest : FirstBest score xs x s) :
    x ∈ xs := by
  rcases hBest.first with ⟨front, back, rfl, _⟩
  simp

/- No score of the list is higher. -/
theorem FirstBest.highest
    {xs : List α}
    {x y : α}
    {s t : Int}
    (hBest : FirstBest score xs x s)
    (hMem : y ∈ xs)
    (hScore : score y = some t) :
    t ≤ s := by
  rcases hBest.first with ⟨front, back, rfl, hFront, hBack⟩
  rcases List.mem_append.mp hMem with hMem | hMem
  · exact le_of_lt (hFront y hMem t hScore)
  · rcases List.mem_cons.mp hMem with rfl | hMem
    · rw [hBest.scores] at hScore
      exact le_of_eq (Option.some.inj hScore).symm
    · exact hBack y hMem t hScore

/- One more candidate does not beat the best. -/
theorem FirstBest.concat
    {xs : List α}
    {x y : α}
    (hBest : FirstBest score xs x s)
    (hLess : ∀ t ∈ score y, t ≤ s) :
    FirstBest score (xs ++ [y]) x s := by
  rcases hBest.first with ⟨front, back, rfl, hFront, hBack⟩
  refine ⟨hBest.scores, front, back ++ [y], by simp, hFront, ?_⟩
  intro z hMem t hScore
  rcases List.mem_append.mp hMem with hMem | hMem
  · exact hBack z hMem t hScore
  · rcases List.mem_singleton.mp hMem with rfl
    exact hLess t hScore

/- One more candidate beats every other. -/
theorem FirstBest.of_concat
    {xs : List α}
    {x : α}
    (hScore : score x = some s)
    (hBelow : ∀ y ∈ xs, ∀ t ∈ score y, t < s) :
    FirstBest score (xs ++ [x]) x s :=
  ⟨hScore, xs, [], rfl, hBelow, fun y hMem => by cases hMem⟩

theorem scan_concat
    (xs : List α)
    (x : α) :
    scan score low (xs ++ [x]) =
      step score (scan score low xs) x := by
  rw [scan, scan, List.foldl_append]
  rfl

/- What the loop holds after the candidates of a list -/
theorem scan_holds
    (xs : List α) :
    ((scan score low xs).1 = none → (scan score low xs).2 = low ∧
        ∀ x ∈ xs, ∀ t ∈ score x, t ≤ low) ∧
      ∀ x, (scan score low xs).1 = some x →
        low < (scan score low xs).2 ∧
          FirstBest score xs x (scan score low xs).2 := by
  induction xs using List.reverseRecOn with
  | nil =>
      refine ⟨fun _ => ⟨rfl, fun x hMem => by cases hMem⟩, ?_⟩
      intro x hSome
      cases hSome
  | append_singleton xs y ih =>
      rcases ih with ⟨hNone, hSome⟩
      rw [scan_concat, step]
      cases hScore : score y with
      | none =>
          refine ⟨fun h => ⟨(hNone h).1, ?_⟩, ?_⟩
          · intro x hMem t ht
            rcases List.mem_append.mp hMem with hMem | hMem
            · exact (hNone h).2 x hMem t ht
            · rcases List.mem_singleton.mp hMem with rfl
              rw [hScore] at ht
              cases ht
          · intro x h
            refine ⟨(hSome x h).1, (hSome x h).2.concat ?_⟩
            intro t ht
            rw [hScore] at ht
            cases ht
      | some s =>
          by_cases hBeats : (scan score low xs).2 < s
          · simp only [if_pos hBeats]
            refine ⟨fun h => (by cases h), ?_⟩
            intro x h
            cases h
            cases hBest : (scan score low xs).1 with
            | none =>
                rcases hNone hBest with ⟨hLow, hAll⟩
                rw [hLow] at hBeats
                refine ⟨hBeats, .of_concat hScore ?_⟩
                intro z hMem t ht
                exact lt_of_le_of_lt (hAll z hMem t ht) hBeats
            | some best =>
                rcases hSome best hBest with ⟨hLow, hFirst⟩
                refine ⟨lt_trans hLow hBeats, .of_concat hScore ?_⟩
                intro z hMem t ht
                exact lt_of_le_of_lt (hFirst.highest hMem ht) hBeats
          · simp only [if_neg hBeats]
            have hLess : ∀ t ∈ score y,
                t ≤ (scan score low xs).2 := by
              intro t ht
              rw [hScore] at ht
              cases ht
              exact not_lt.mp hBeats
            refine ⟨fun h => ⟨(hNone h).1, ?_⟩, ?_⟩
            · intro x hMem t ht
              rcases List.mem_append.mp hMem with hMem | hMem
              · exact (hNone h).2 x hMem t ht
              · rcases List.mem_singleton.mp hMem with rfl
                rw [← (hNone h).1]
                exact hLess t ht
            · intro x h
              exact ⟨(hSome x h).1, (hSome x h).2.concat hLess⟩

/- Nothing is found if and only if no score is above the bound. -/
theorem scan_none
    (xs : List α) :
    (scan score low xs).1 = none ↔
      ∀ x ∈ xs, ∀ t ∈ score x, t ≤ low := by
  refine ⟨fun h => ((scan_holds xs).1 h).2, fun hAll => ?_⟩
  cases hBest : (scan score low xs).1 with
  | none => rfl
  | some x =>
      rcases (scan_holds xs).2 x hBest with ⟨hLow, hFirst⟩
      have hLe := hAll x hFirst.mem _ hFirst.scores
      exact absurd hLow (not_lt.mpr hLe)

/- What is found is the first of the best. -/
theorem scan_some
    {xs : List α}
    {x : α}
    (hBest : (scan score low xs).1 = some x) :
    FirstBest score xs x (scan score low xs).2 :=
  ((scan_holds xs).2 x hBest).2

end RunningBest
