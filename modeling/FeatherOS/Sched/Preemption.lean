import FeatherOS.Sched.Invariant

/-
  Preemption by the timer tick.

  A tick charges the current task first, and the charge sets
  its start time to the clock. The elapsed time the tick then
  looks at is zero, so that it never calls `schedule`.

  Key definitions include:
    * `TickSchedules`
    * `SchedState.SwitchedTo`
    * `SchedState.Preempts`

  Key theorems include:
    * `ticks_return`
    * `ticks_never_preempt`
-/

namespace FeatherOS

--------------------
-- The Property
--------------------

/- A tick in this state gets to its call of `schedule`. -/
def TickSchedules (s : SchedState) : Prop :=
  ∃ p s₁ slice,
    s.current = some p ∧
    ((updateSchedClock s).task p).state = .running ∧
    updateCurrCfs (updateSchedClock s) thisCpu p = some s₁ ∧
    schedSlice s₁ = some slice ∧
    slice ≤ s₁.clock - (s₁.task p).cfs.execStart

/- What a switch to the task leaves. -/
structure SchedState.SwitchedTo
    (s : SchedState)
    (p : Addr) : Prop where
  current : s.current = some p
  running : (s.task p).state = .running
  started : (s.task p).cfs.execStart = s.clock

/- `schedule` is called in the first `slice` ticks. -/
def SchedState.Preempts
    (s : SchedState)
    (slice : U64) : Prop :=
  ∃ n s', n < slice.toNat ∧
    Run schedStep s (List.replicate n .tick) s' ∧
    TickSchedules s'

--------------------
-- One Tick
--------------------

section Tick

variable {s s' : SchedState}
variable {p : Addr}
variable {slice : U64}

/- A charge leaves the queue a slice is computed from. -/
theorem updateCurrCfs_slice
    (hCall : updateCurrCfs s thisCpu p = some s') :
    schedSlice s' = schedSlice s := by
  have hLoad := (updateCurrCfs_step hCall).2
  simp only [updateCurrCfs, hLoad, if_false, Option.some.injEq]
    at hCall
  subst hCall
  simp [schedSlice]

/- After the charge no time has elapsed. -/
theorem not_tickSchedules
    (s : SchedState) :
    ¬ TickSchedules s := by
  rintro ⟨p, s₁, slice, _, _, hCharge, hSlice, hElapsed⟩
  rcases updateCurrCfs_step hCharge with ⟨hStep, _⟩
  rw [hStep.elapsed] at hElapsed
  exact schedSlice_pos hSlice hElapsed

/- What a tick of a task that can be charged needs and keeps. -/
structure SchedState.Ticking
    (s : SchedState)
    (p : Addr)
    (slice : U64) : Prop where
  current : s.current = some p
  running : (s.task p).state = .running
  weight : (s.task p).cfs.loadWeight ≠ 0#64
  slice : schedSlice s = some slice

theorem SchedState.Ticking.step
    (hTicking : s.Ticking p slice) :
    ∃ s', schedStep s .tick s' ∧ s'.Ticking p slice := by
  have hRun : ((updateSchedClock s).task p).state = .running :=
    hTicking.running
  have hWeight :
      ((updateSchedClock s).task p).cfs.loadWeight ≠ 0#64 :=
    hTicking.weight
  rcases updateCurrCfs_returns hWeight with ⟨s₁, hCharge⟩
  rcases updateCurrCfs_step hCharge with ⟨hStep, _⟩
  have hSlice : schedSlice s₁ = some slice :=
    (updateCurrCfs_slice hCharge).trans hTicking.slice
  have hTick := tickCurrent_some 0 hRun hCharge hSlice
  refine ⟨s₁.countTick p,
    ⟨0, schedTick_some hTicking.current hTick⟩, ?_⟩
  constructor
  · exact hStep.current.trans hTicking.current
  · simp [hStep.state, hRun]
  · simpa [hStep.self] using hWeight
  · exact hSlice

/- Any number of ticks returns. -/
theorem ticks_return
    (hTicking : s.Ticking p slice)
    (n : Nat) :
    ∃ s', Run schedStep s (List.replicate n .tick) s' ∧
      s'.Ticking p slice := by
  induction n generalizing s with
  | zero => exact ⟨s, .nil s, hTicking⟩
  | succ n ih =>
      rcases hTicking.step with ⟨s₁, hStep, hNext⟩
      rcases ih hNext with ⟨s', hRun, hEnd⟩
      exact ⟨s', .cons hStep hRun, hEnd⟩

end Tick

--------------------
-- Runs Of Ticks
--------------------

/- From no state and after no number of ticks. -/
theorem ticks_never_preempt
    (s : SchedState)
    (slice : U64) :
    ¬ s.Preempts slice := by
  rintro ⟨n, s', _, _, hSchedules⟩
  exact not_tickSchedules s' hSchedules

/-
  A forked task is switched to; it then runs for a whole
  slice of ticks, and none of them calls `schedule`.
-/
theorem ticks_outlast_slice :
    ¬ ∀ (s₀ s s' : SchedState)
        (ops : List (Option Addr × SchedCall))
        (p : Addr) (slice : U64),
      s₀.Started → Run schedStepAs s₀ ops s →
        (s.withCurrent (some p)).SwitchedTo p →
        schedSlice (s.withCurrent (some p)) = some slice →
        Run schedStep (s.withCurrent (some p))
          (List.replicate slice.toNat .tick) s' →
        (s.withCurrent (some p)).Preempts slice := by
  intro hAll
  have hEnd :
      (schedCalls 2 SchedState.ready
        [(none, .fork (some taskA)), (none, .schedule)]).map
        (fun s => ((s.task taskA).state,
          (s.task taskA).cfs.execStart, s.clock,
          (s.task taskA).cfs.loadWeight, schedSlice s)) =
      some (.running, 1#64, 1#64, 1024#64,
        some 60000000#64) := by
    decide +kernel
  rcases Option.map_eq_some_iff.mp hEnd with
    ⟨s, hCalls, hFacts⟩
  simp only [Prod.mk.injEq] at hFacts
  rcases hFacts with ⟨hState, hStart, hClock, hWeight, hSlice⟩
  have hTicking :
      (s.withCurrent (some taskA)).Ticking taskA
        60000000#64 := by
    refine ⟨rfl, hState, ?_, hSlice⟩
    change (s.task taskA).cfs.loadWeight ≠ 0#64
    rw [hWeight]
    decide
  rcases ticks_return hTicking 60000000 with ⟨s', hRun, _⟩
  have hPreempts :=
    hAll SchedState.ready s s' _ taskA 60000000#64
      SchedState.ready_started (run_of_schedCalls hCalls)
      ⟨rfl, hState, hStart.trans hClock.symm⟩ hSlice hRun
  rcases hPreempts with ⟨n, s'', _, _, hSchedules⟩
  exact not_tickSchedules s'' hSchedules

end FeatherOS
