import Mathlib.Data.List.Basic

/-
  Runs of a labelled transition relation.

  A program that is called again and again is a relation
  `step s op t`: the call `op` made in state `s` returns and
  leaves state `t`. A call that faults or never returns is
  related to no state. A run is a finite sequence of calls.

  Key definitions include:
    * `Run`
    * `Guarded`

  Key rules include:
    * `Run.invariant`
    * `Run.weaken`
    * `Run.split`
    * `Run.of_guarded`
    * `Run.guarded_iff`
    * `Run.simulate`
-/

--------------------
-- Runs
--------------------

/- `Run step s ops t`: the calls `ops` lead from `s` to `t`. -/
inductive Run
    {σ ι : Type}
    (step : σ → ι → σ → Prop) :
    σ → List ι → σ → Prop
| nil (s : σ) : Run step s [] s
| cons
    {s t u : σ}
    {op : ι}
    {ops : List ι}
    (hStep : step s op t)
    (hRest : Run step t ops u) :
    Run step s (op :: ops) u

/-
  Steps restricted to those calls that meet a condition on
  the state before them.
-/
def Guarded
    {σ ι : Type}
    (ok : σ → ι → Prop)
    (step : σ → ι → σ → Prop) :
    σ → ι → σ → Prop :=
  fun s op t => ok s op ∧ step s op t

namespace Run

variable {σ ι : Type}
variable {step : σ → ι → σ → Prop}
variable {s t u : σ}
variable {ops rest : List ι}

/- A predicate kept by every step is kept by every run. -/
theorem invariant
    (I : σ → Prop)
    (hKeep : ∀ s op t, I s → step s op t → I t)
    (hRun : Run step s ops t)
    (hStart : I s) :
    I t := by
  induction hRun with
  | nil => exact hStart
  | cons hStep _ ih =>
      exact ih (hKeep _ _ _ hStart hStep)

/- Steps from states with an invariant may be weakened. -/
theorem weaken
    {weak : σ → ι → σ → Prop}
    (I : σ → Prop)
    (hKeep : ∀ s op t, I s → step s op t → I t)
    (hWeak : ∀ s op t, I s → step s op t → weak s op t)
    (hRun : Run step s ops t)
    (hStart : I s) :
    Run weak s ops t := by
  induction hRun with
  | nil s => exact .nil s
  | cons hStep _ ih =>
      exact .cons (hWeak _ _ _ hStart hStep)
        (ih (hKeep _ _ _ hStart hStep))

/- A run over an appended list passes through a middle state. -/
theorem split
    (hRun : Run step s (ops ++ rest) u) :
    ∃ t, Run step s ops t ∧ Run step t rest u := by
  induction ops generalizing s with
  | nil => exact ⟨s, .nil s, hRun⟩
  | cons op ops ih =>
      cases hRun with
      | cons hStep hRest =>
          rcases ih hRest with ⟨t, hOps, hTail⟩
          exact ⟨t, .cons hStep hOps, hTail⟩

/- One run after another. -/
theorem append
    (hFirst : Run step s ops t)
    (hRest : Run step t rest u) :
    Run step s (ops ++ rest) u := by
  induction hFirst with
  | nil => exact hRest
  | cons hStep _ ih => exact .cons hStep (ih hRest)

/- One more call at the end. -/
theorem snoc
    {op : ι}
    (hRun : Run step s ops t)
    (hStep : step t op u) :
    Run step s (ops ++ [op]) u := by
  induction hRun with
  | nil s => exact .cons hStep (.nil u)
  | cons hFirst _ ih => exact .cons hFirst (ih hStep)

/- Forgetting the guard leaves a run of the plain relation. -/
theorem of_guarded
    {ok : σ → ι → Prop}
    (hRun : Run (Guarded ok step) s ops t) :
    Run step s ops t := by
  induction hRun with
  | nil s => exact .nil s
  | cons hStep _ ih => exact .cons hStep.2 ih

/-
  Where a condition on a call decides whether its step has a
  property, the runs of steps with the property are those
  whose calls meet the condition.
-/
theorem guarded_iff
    {ok : σ → ι → Prop}
    {good : σ → ι → σ → Prop}
    (I : σ → Prop)
    (hKeep : ∀ s op t, I s → ok s op → step s op t → I t)
    (hGood : ∀ s op t, I s → step s op t →
      (good s op t ↔ ok s op))
    (hStart : I s) :
    Run (fun s op t => step s op t ∧ good s op t) s ops t ↔
      Run (Guarded ok step) s ops t := by
  induction ops generalizing s with
  | nil =>
      constructor
      · rintro ⟨⟩
        exact .nil _
      · rintro ⟨⟩
        exact .nil _
  | cons op ops ih =>
      constructor
      · intro hRun
        cases hRun with
        | cons hStep hRest =>
            have hOk := (hGood _ _ _ hStart hStep.1).mp hStep.2
            have hNext := hKeep _ _ _ hStart hOk hStep.1
            exact .cons ⟨hOk, hStep.1⟩ ((ih hNext).mp hRest)
      · intro hRun
        cases hRun with
        | cons hStep hRest =>
            have hNext := hKeep _ _ _ hStart hStep.1 hStep.2
            have hProp := (hGood _ _ _ hStart hStep.2).mpr hStep.1
            exact .cons ⟨hStep.2, hProp⟩ ((ih hNext).mpr hRest)

/-
  A program that is simulated step by step by another one is
  simulated over whole runs.
-/
theorem simulate
    {α : Type}
    {spec : α → ι → α → Prop}
    {a : α}
    (R : σ → α → Prop)
    (hStep : ∀ s a op t, R s a → step s op t →
      ∃ b, spec a op b ∧ R t b)
    (hRun : Run step s ops t)
    (hStart : R s a) :
    ∃ b, Run spec a ops b ∧ R t b := by
  induction hRun generalizing a with
  | nil => exact ⟨a, .nil a, hStart⟩
  | cons hFirst _ ih =>
      rcases hStep _ _ _ _ hStart hFirst with ⟨b, hSpec, hRel⟩
      rcases ih hRel with ⟨c, hRest, hEnd⟩
      exact ⟨c, .cons hSpec hRest, hEnd⟩

end Run
