import FeatherOS.Library.Run
import Mathlib.Logic.Basic

/-
  Calls that answer like calls of a simpler component.

  A component is called again and again and may give up; the
  one that it is compared with never does. Where one call
  keeps a relation between the two states and answers alike,
  so does every sequence of calls.

  Key definitions include:
    * `Replay.replay`
    * `Replay.answers`
    * `Replay.Agrees`
    * `Replay.StopsAt`

  Key rules include:
    * `Replay.agrees_replay`
    * `Replay.run_answers`
-/

namespace Replay

variable {σ α ι ρ ε : Type}

/- The results of a sequence of calls that may give up -/
def replay
    (step : σ → ι → Except ε (ρ × σ)) :
    σ → List ι → Except ε (List ρ × σ)
  | s, [] => .ok ([], s)
  | s, op :: ops => do
      let (result, s) ← step s op
      let (results, s) ← replay step s ops
      .ok (result :: results, s)

/- The results of a sequence of calls -/
def answers
    (spec : α → ι → ρ × α) :
    α → List ι → List ρ × α
  | a, [] => ([], a)
  | a, op :: ops =>
      let first := spec a op
      let rest := answers spec first.2 ops
      (first.1 :: rest.1, rest.2)

/-
  The call gives up for a reason that is allowed, or it
  answers alike and leaves related states.
-/
def Agrees
    (allowed : ε → Prop)
    (R : σ → α → Prop)
    (res : Except ε (ρ × σ))
    (answer : ρ × α) : Prop :=
  match res with
  | .error reason => allowed reason
  | .ok (result, s) => result = answer.1 ∧ R s answer.2

/- The first calls are answered, and the next one is refused. -/
def StopsAt
    (step : σ → ι → Except ε (ρ × σ))
    (refused : σ → ι → ε → Prop)
    (s : σ)
    (ops : List ι)
    (reason : ε) : Prop :=
  ∃ before op after results t,
    ops = before ++ op :: after ∧
      replay step s before = .ok (results, t) ∧
      refused t op reason

@[simp] theorem ok_bind
    {β : Type}
    (x : α)
    (f : α → Except ε β) :
    (Except.ok x >>= f) = f x :=
  rfl

@[simp] theorem error_bind
    {β : Type}
    (reason : ε)
    (f : α → Except ε β) :
    (Except.error reason >>= f) = .error reason :=
  rfl

section Rules

variable {allowed : ε → Prop}
variable {R : σ → α → Prop}

/- A relation that follows may take the place of another. -/
theorem Agrees.mono
    {R' : σ → α → Prop}
    {res : Except ε (ρ × σ)}
    {answer : ρ × α}
    (hWeaker : ∀ s a, R s a → R' s a)
    (hAgrees : Agrees allowed R res answer) :
    Agrees allowed R' res answer := by
  cases res with
  | error reason => exact hAgrees
  | ok result => exact ⟨hAgrees.1, hWeaker _ _ hAgrees.2⟩

/- Other reasons may be allowed as well. -/
theorem Agrees.allow
    {allowed' : ε → Prop}
    {res : Except ε (ρ × σ)}
    {answer : ρ × α}
    (hAgrees : Agrees allowed R res answer)
    (hMore : ∀ reason, allowed reason → allowed' reason) :
    Agrees allowed' R res answer := by
  cases res with
  | error reason => exact hMore reason hAgrees
  | ok result => exact hAgrees

/- Where a sequence of calls stops, a call of it is refused. -/
theorem agrees_replay
    {step : σ → ι → Except ε (ρ × σ)}
    {spec : α → ι → ρ × α}
    {refused : σ → ι → ε → Prop}
    {s : σ}
    {a : α}
    (hCall : ∀ s a op, R s a →
      Agrees (refused s op) R (step s op) (spec a op))
    (hStart : R s a)
    (ops : List ι) :
    Agrees (StopsAt step refused s ops) R (replay step s ops)
      (answers spec a ops) := by
  induction ops generalizing s a with
  | nil => exact ⟨rfl, hStart⟩
  | cons op ops ih =>
      have hFirst := hCall s a op hStart
      unfold replay
      cases hStep : step s op with
      | error reason =>
          rw [hStep] at hFirst
          exact ⟨[], op, ops, [], s, rfl, rfl, hFirst⟩
      | ok answer =>
          rcases answer with ⟨result, t⟩
          rw [hStep] at hFirst
          rcases hFirst with ⟨rfl, hNext⟩
          have hRest := ih hNext
          cases hReplay : replay step t ops with
          | error reason =>
              rw [hReplay] at hRest
              rcases hRest with
                ⟨before, last, after, results, u, rfl, hBefore,
                  hRefused⟩
              simp only [ok_bind, hReplay, error_bind]
              refine ⟨op :: before, last, after,
                (spec a op).1 :: results, u, rfl, ?_, hRefused⟩
              simp only [replay, hStep, ok_bind, hBefore]
          | ok answer =>
              rw [hReplay] at hRest
              rcases answer with ⟨results, u⟩
              rcases hRest with ⟨rfl, hLast⟩
              simp only [ok_bind, hReplay]
              exact ⟨rfl, hLast⟩

end Rules

/- Every sequence of calls of a function is a run. -/
theorem run_answers
    (step : σ → ι → ρ × σ)
    (s : σ)
    (ops : List ι) :
    Run (fun s op t => t = (step s op).2) s ops
      (answers step s ops).2 := by
  induction ops generalizing s with
  | nil => exact .nil s
  | cons op ops ih => exact .cons rfl (ih _)

end Replay
