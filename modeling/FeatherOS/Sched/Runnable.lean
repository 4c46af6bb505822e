import FeatherOS.Sched.Invariant
import Mathlib.Logic.Relation

/-
  Task states against the run queue.

  A task that can run has to be in the tree and one that
  waits must not be. The state of a task and its place in
  the queue are written by different functions; each call
  keeps them together under a condition of its own.

  Key definitions include:
    * `SchedState.InTree`
    * `SchedState.NoneLost`
    * `StatesOk`
    * `tracedStep`

  Key theorems include:
    * `schedCall_places`
    * `schedRun_noneLost`
-/

namespace FeatherOS

open LinkedTree

--------------------
-- The Property
--------------------

/- What the child links reach from the root of the queue. -/
inductive SchedState.InTree (s : SchedState) : Addr → Prop
| root
    {p : Addr}
    (hRoot : s.thisRq.root = some p) : InTree s p
| left
    {p q : Addr}
    (hTop : InTree s p)
    (hLeft : (s.task p).cfs.left = some q) : InTree s q
| right
    {p q : Addr}
    (hTop : InTree s p)
    (hRight : (s.task p).cfs.right = some q) : InTree s q

/-
  Ready tasks that came in are in the tree and waiting ones
  are not.
-/
structure SchedState.NoneLost
    (s : SchedState)
    (admitted : Addr → Prop) : Prop where
  ready : ∀ p, admitted p → (s.task p).state = .ready →
    s.InTree p
  waiting : ∀ p, (s.task p).state.Waits → ¬ s.InTree p

/- The calls that wake tasks up. -/
def SchedCall.Wakes : SchedCall → Prop
  | .wakeUpProcess _ => True
  | .wakeUp _ => True
  | _ => False

/- The tasks forked or woken, with those of one more call. -/
def admittedBy
    (s : SchedState)
    (call : SchedCall)
    (s' : SchedState)
    (admitted : Addr → Prop)
    (p : Addr) : Prop :=
  admitted p ∨ call = .fork (some p) ∨
    (call.Wakes ∧ (s.task p).state.Waits ∧
      (s'.task p).state = .ready)

/- A call, with a record of the tasks forked or woken. -/
def tracedStep
    (x : SchedState × (Addr → Prop))
    (op : Option Addr × SchedCall)
    (x' : SchedState × (Addr → Prop)) : Prop :=
  schedStepAs x.1 op x'.1 ∧
    x'.2 = admittedBy x.1 op.2 x'.1 x.2

--------------------
-- Conditions On A Call
--------------------

/- One entry of a wait queue leads to the next. -/
def SchedState.WaitLink
    (s : SchedState)
    (node entry : Addr) : Prop :=
  (s.waitNode node).next = some entry

/- The state a call gives to a task goes with its place. -/
def StatesOk
    (s : SchedState)
    (admitted : Addr → Prop) :
    SchedCall → Prop
  | .fork task =>
      ∀ p, task = some p → ¬ (s.task p).state.Waits
  | .schedule =>
      ∀ p, s.current = some p → (s.task p).state = .running →
        (s.task p).flags &&& tfZombie ≠ 0#32 → admitted p →
          (s.task p).cfs.myQ = some thisCpu
  | .setTaskState task state =>
      ∀ p, task = some p →
        (state = .ready → admitted p →
          (s.task p).state ≠ .running ∧
            (s.task p).cfs.myQ = some thisCpu) ∧
        (state.Waits → (s.task p).state ≠ .running →
          (s.task p).cfs.myQ = none)
  | .exit task =>
      ∀ p, task = some p → admitted p →
        (s.task p).state ≠ .ready
  | .addToWaitQueue wq task =>
      wq ≠ none → ∀ p, task = some p →
        (kmalloc s.heap sizeofWaitQueue).1 ≠ none →
          (s.task p).cfs.myQ = none
  | .wakeUp wq =>
      ∀ w entry p, wq = some w →
        Relation.TransGen s.WaitLink w entry →
          (s.waitNode entry).task = some p →
            ¬ (s.task p).state.Waits
  | _ => True

--------------------
-- States And Places
--------------------

/- Ready tasks that came in name the queue, no waiting does. -/
structure SchedState.Places
    (s : SchedState)
    (admitted : Addr → Prop) : Prop where
  ready : ∀ p, admitted p → (s.task p).state = .ready →
    (s.task p).cfs.myQ = some thisCpu
  waiting : ∀ p, (s.task p).state.Waits →
    (s.task p).cfs.myQ = none

section Places

variable {s s₁ s' : SchedState}
variable {admitted admitted' : Addr → Prop}
variable {p : Addr}
variable {fuel : Nat}

/- One task changes; the others keep state and place. -/
theorem SchedState.Places.at
    (hPlaces : s.Places admitted)
    (p : Addr)
    (hAdmitted : ∀ q, q ≠ p → admitted' q → admitted q)
    (hState : ∀ q, q ≠ p →
      (s'.task q).state = (s.task q).state)
    (hQ : ∀ q, q ≠ p →
      (s'.task q).cfs.myQ = (s.task q).cfs.myQ)
    (hReady : admitted' p → (s'.task p).state = .ready →
      (s'.task p).cfs.myQ = some thisCpu)
    (hWaits : (s'.task p).state.Waits →
      (s'.task p).cfs.myQ = none) :
    s'.Places admitted' where
  ready q hIn hRun := by
    by_cases hq : q = p
    · subst hq
      exact hReady hIn hRun
    · rw [hState q hq] at hRun
      rw [hQ q hq]
      exact hPlaces.ready q (hAdmitted q hq hIn) hRun
  waiting q hWait := by
    by_cases hq : q = p
    · subst hq
      exact hWaits hWait
    · rw [hState q hq] at hWait
      rw [hQ q hq]
      exact hPlaces.waiting q hWait

/- No task changes its state or its place. -/
theorem SchedState.Places.congr
    (hPlaces : s.Places admitted)
    (hState : ∀ q, (s'.task q).state = (s.task q).state)
    (hQ : ∀ q, (s'.task q).cfs.myQ = (s.task q).cfs.myQ) :
    s'.Places admitted where
  ready q hIn hRun := by
    rw [hState] at hRun
    rw [hQ]
    exact hPlaces.ready q hIn hRun
  waiting q hWait := by
    rw [hState] at hWait
    rw [hQ]
    exact hPlaces.waiting q hWait

theorem SwitchStep.places
    (hStep : SwitchStep s s')
    (hPlaces : s.Places admitted) :
    s'.Places admitted where
  ready q hIn hRun := by
    rw [hStep.myQ]
    rcases hStep.state q with hSame | hRunning
    · exact hPlaces.ready q hIn (hSame ▸ hRun)
    · rw [hRunning] at hRun
      cases hRun
  waiting q hWait := by
    rw [hStep.myQ]
    rcases hStep.state q with hSame | hRunning
    · exact hPlaces.waiting q (hSame ▸ hWait)
    · rw [hRunning] at hWait
      simp [TaskState.Waits] at hWait

theorem putPrev_places
    (hPlaces : s.Places admitted)
    (hZombie : (s.task p).state = .running →
      (s.task p).flags &&& tfZombie ≠ 0#32 → admitted p →
        (s.task p).cfs.myQ = some thisCpu)
    (hCall : putPrev fuel s (some p) = some s') :
    s'.Places admitted := by
  rcases putPrev_split hCall with ⟨hBack, hRequeue⟩ | ⟨hBack, rfl⟩
  · have hStep := cfsRequeue_step hRequeue
    rw [markReady_eq] at hStep
    apply hPlaces.at p (fun _ _ h => h)
    · intro q hq
      rw [hStep.state]
      simp [hq]
    · intro q hq
      rw [hStep.other q hq]
      simp [hq]
    · intro _ _
      exact hStep.self
    · intro hWait
      rw [hStep.state] at hWait
      rcases hBack.1 with hState | hState
      · simp [hState, TaskState.afterRunning, TaskState.Waits]
          at hWait
      · simp [hState, TaskState.afterRunning, TaskState.Waits]
          at hWait
  · rw [markReady_eq]
    apply hPlaces.at p (fun _ _ h => h)
    · intro q hq
      simp [hq]
    · intro q hq
      simp [hq]
    · intro hIn hRun
      simp only [SchedState.task_setState, if_true] at hRun ⊢
      by_cases hWas : (s.task p).state = .running
      · apply hZombie hWas _ hIn
        intro hFlags
        exact hBack ⟨Or.inr hWas, hFlags⟩
      · simp only [TaskState.afterRunning, hWas, if_false]
          at hRun
        exact hPlaces.ready p hIn hRun
    · intro hWait
      simp only [SchedState.task_setState, if_true] at hWait ⊢
      by_cases hWas : (s.task p).state = .running
      · simp [TaskState.afterRunning, hWas, TaskState.Waits]
          at hWait
      · simp only [TaskState.afterRunning, hWas, if_false]
          at hWait
        exact hPlaces.waiting p hWait

theorem schedule_places
    (hPlaces : s.Places admitted)
    (hOk : StatesOk s admitted .schedule)
    (hCall : schedule fuel s = some s') :
    s'.Places admitted := by
  rcases schedule_split hCall with ⟨s₁, hPut, hNext⟩
  have hClock : (updateSchedClock s).Places admitted :=
    hPlaces.congr (fun _ => rfl) fun _ => rfl
  apply (pickAndSwitch_step hNext).places
  cases hCur : s.current with
  | none =>
      rw [hCur] at hPut
      cases hPut
      exact hClock
  | some p =>
      rw [hCur] at hPut
      exact putPrev_places hClock (hOk p hCur) hPut

theorem yield_places
    (hPlaces : s.Places admitted)
    (hCall : yield fuel s = some s') :
    s'.Places admitted := by
  rcases yield_split hCall with
    ⟨_, rfl⟩ | ⟨p, s₁, hCur, hRequeue, hSchedule⟩
  · exact hPlaces
  · have hStep := cfsRequeue_step hRequeue
    have hReady : (s₁.setState p .ready).Places admitted := by
      apply hPlaces.at p (fun _ _ h => h)
      · intro q hq
        simp [hq, hStep.state]
      · intro q hq
        simp [hq, hStep.other q hq]
      · intro _ _
        simp [hStep.self]
      · intro hWait
        simp [TaskState.Waits] at hWait
    apply schedule_places hReady _ hSchedule
    intro q hq hRunning
    have hCur' : (s₁.setState p .ready).current = some p :=
      hStep.current.trans hCur
    rw [hCur'] at hq
    cases hq
    simp at hRunning

theorem schedTick_places
    (hPlaces : s.Places admitted)
    (hCall : schedTick fuel s = some s') :
    s'.Places admitted ∧
      ∀ q, (s'.task q).state = (s.task q).state := by
  suffices hSame : ∀ q,
      (s'.task q).state = (s.task q).state ∧
        (s'.task q).cfs.myQ = (s.task q).cfs.myQ by
    exact ⟨hPlaces.congr (fun q => (hSame q).1)
      fun q => (hSame q).2, fun q => (hSame q).1⟩
  intro q
  rcases schedTick_split hCall with
    ⟨_, rfl⟩ | ⟨p, s₁, _, rfl, hCase⟩
  · exact ⟨rfl, rfl⟩
  · have hMid :
        (s₁.task q).state = (s.task q).state ∧
          (s₁.task q).cfs.myQ = (s.task q).cfs.myQ := by
      rcases hCase with ⟨_, hCharge⟩ | ⟨_, rfl⟩
      · rcases updateCurrCfs_step hCharge with ⟨hStep, _⟩
        exact ⟨hStep.state q, hStep.myQ q⟩
      · exact ⟨rfl, rfl⟩
    have hTime :
        ((s₁.countTick p).task q).state = (s₁.task q).state ∧
          ((s₁.countTick p).task q).cfs.myQ =
            (s₁.task q).cfs.myQ := by
      by_cases hq : q = p
      · simp [hq]
      · simp [hq]
    exact ⟨hTime.1.trans hMid.1, hTime.2.trans hMid.2⟩

theorem scheduleTimeout_places
    {ns : U64}
    (hPlaces : s.Places admitted)
    (hCall : scheduleTimeout fuel s ns = some s') :
    s'.Places admitted := by
  rcases scheduleTimeout_split hCall with
    ⟨_, rfl⟩ | ⟨p, s₁, hCur, hLeave, hState, hSchedule⟩
  · exact hPlaces
  · have hStep := cfsDequeue_step hLeave
    have hAsleep : (s₁.task p).state = .sleeping :=
      hState p (hStep.current.trans hCur)
    have hMid : s₁.Places admitted := by
      apply hPlaces.at p (fun _ _ h => h)
      · intro q hq
        rw [hStep.state]
        simp [hq]
      · intro q hq
        rw [hStep.other q hq]
        simp [hq]
      · intro _ hRun
        rw [hAsleep] at hRun
        cases hRun
      · intro _
        exact hStep.self
    apply schedule_places hMid _ hSchedule
    intro q hq hRunning
    rw [hState q hq] at hRunning
    cases hRunning

theorem setTaskState_places
    {state : TaskState}
    (hPlaces : s.Places admitted)
    (hOk : StatesOk s admitted (.setTaskState (some p) state))
    (hCall : setTaskState fuel s (some p) state = some s') :
    s'.Places admitted := by
  rcases hOk p rfl with ⟨hReady, hWaits⟩
  rcases setTaskState_split hCall with
    ⟨rfl, hEnter⟩ | ⟨_, s₁, rfl, hCase⟩
  · have hStep := cfsEnqueue_step hEnter
    have hNow : (s'.task p).state = .running := by
      rw [hStep.state]
      simp
    apply hPlaces.at p (fun _ _ h => h)
    · intro q hq
      rw [hStep.state]
      simp [hq]
    · intro q hq
      rw [hStep.other q hq]
      simp [hq]
    · intro _ hRun
      rw [hNow] at hRun
      cases hRun
    · intro hWait
      rw [hNow] at hWait
      simp [TaskState.Waits] at hWait
  · rcases hCase with ⟨hWas, hLeave⟩ | ⟨hWas, rfl⟩
    · have hStep := cfsDequeue_step hLeave
      apply hPlaces.at p (fun _ _ h => h)
      · intro q hq
        simp [hq, hStep.state]
      · intro q hq
        simp [hq, hStep.other q hq]
      · intro hIn hRun
        have hNew : state = .ready := by simpa using hRun
        exact absurd hWas (hReady hNew hIn).1
      · intro _
        simp [hStep.self]
    · apply hPlaces.at p (fun _ _ h => h)
      · intro q hq
        simp [hq]
      · intro q hq
        simp [hq]
      · intro hIn hRun
        have hNew : state = .ready := by simpa using hRun
        simp [(hReady hNew hIn).2]
      · intro hWait
        have hNew : state.Waits := by simpa using hWait
        simp [hWaits hNew hWas]

/- `wake_up` on a queue in which no task waits. -/
theorem wakeUpLoop_eq
    {curr : Addr}
    (hNone : ∀ entry p,
      Relation.TransGen s.WaitLink curr entry →
        (s.waitNode entry).task = some p →
          ¬ (s.task p).state.Waits)
    (hCall : wakeUpLoop fuel s curr = some s') :
    s' = s := by
  induction fuel generalizing curr with
  | zero => simp [wakeUpLoop] at hCall
  | succ fuel ih =>
      simp only [wakeUpLoop] at hCall
      cases hNext : (s.waitNode curr).next with
      | none =>
          simp only [hNext, Option.some.injEq] at hCall
          exact hCall.symm
      | some entry =>
          have hLink : s.WaitLink curr entry := hNext
          have hRest : ∀ e p,
              Relation.TransGen s.WaitLink entry e →
                (s.waitNode e).task = some p →
                  ¬ (s.task p).state.Waits :=
            fun e p hPath =>
              hNone e p (Relation.TransGen.head hLink hPath)
          simp only [hNext] at hCall
          cases hTask : (s.waitNode entry).task with
          | none =>
              simp only [hTask] at hCall
              exact ih hRest hCall
          | some p =>
              have hAwake :=
                hNone entry p (.single hLink) hTask
              simp only [hTask, hAwake, if_false] at hCall
              exact ih hRest hCall

theorem addToWaitQueue_places
    {wq task : Option Addr}
    (hPlaces : s.Places admitted)
    (hOk : StatesOk s admitted (.addToWaitQueue wq task)) :
    (addToWaitQueue s wq task).Places admitted := by
  cases wq with
  | none => exact hPlaces
  | some wq =>
      cases task with
      | none => exact hPlaces
      | some p =>
          have hOut := hOk (by simp) p rfl
          simp only [addToWaitQueue]
          cases hAlloc : kmalloc s.heap sizeofWaitQueue with
          | mk block heap =>
              cases block with
              | none => exact hPlaces
              | some entry =>
                  rw [hAlloc] at hOut
                  have hFree := hOut (by simp)
                  simp only
                  apply hPlaces.at p (fun _ _ h => h)
                  · intro q hq
                    simp only [SchedState.task_modifyTask, hq,
                      if_false]
                    rfl
                  · intro q hq
                    simp only [SchedState.task_modifyTask, hq,
                      if_false]
                    rfl
                  · intro _ hRun
                    simp at hRun
                  · intro _
                    simp only [SchedState.task_modifyTask,
                      if_true]
                    exact hFree

theorem schedFork_step
    (hCall : schedFork fuel s (some p) = some s') :
    (∀ q, (s'.task q).state = (s.task q).state) ∧
      (s'.task p).cfs.myQ = some thisCpu ∧
      ∀ q, q ≠ p →
        (s'.task q).cfs.myQ = (s.task q).cfs.myQ := by
  simp only [schedFork] at hCall
  have hStep := cfsEnqueue_step hCall
  refine ⟨?_, hStep.self, ?_⟩
  · intro q
    rw [hStep.state]
    by_cases hq : q = p
    · simp [placeEntity, forkEntity, hq]
    · simp [placeEntity, hq]
  · intro q hq
    rw [hStep.other q hq]
    simp [placeEntity, hq]

theorem sysNice_same
    (s : SchedState)
    (increment : Int)
    (q : Addr) :
    ((sysNice s increment).2.task q).state =
        (s.task q).state ∧
      ((sysNice s increment).2.task q).cfs.myQ =
        (s.task q).cfs.myQ := by
  unfold sysNice
  cases s.current with
  | none => exact ⟨rfl, rfl⟩
  | some p =>
      by_cases hq : q = p
      · simp [hq]
      · simp [hq]

/- Fewer tasks may have come in. -/
theorem SchedState.Places.mono
    (hPlaces : s.Places admitted)
    (hFewer : ∀ q, admitted' q → admitted q) :
    s.Places admitted' :=
  ⟨fun q hIn => hPlaces.ready q (hFewer q hIn),
    hPlaces.waiting⟩

variable {call : SchedCall}
variable {q : Addr}

/- Who keeps its state was not woken. -/
theorem admitted_of_same
    (hIn : admittedBy s call s' admitted q)
    (hFork : call ≠ .fork (some q))
    (hSame : (s'.task q).state = (s.task q).state) :
    admitted q := by
  rcases hIn with hOld | hNew | ⟨_, hWait, hRun⟩
  · exact hOld
  · exact absurd hNew hFork
  · rw [← hSame, hRun] at hWait
    simp [TaskState.Waits] at hWait

/- Calls that wake no one admit no one but by a fork. -/
theorem admitted_of_quiet
    (hIn : admittedBy s call s' admitted q)
    (hFork : call ≠ .fork (some q))
    (hQuiet : ¬ call.Wakes) :
    admitted q := by
  rcases hIn with hOld | hNew | ⟨hWakes, _⟩
  · exact hOld
  · exact absurd hNew hFork
  · exact absurd hWakes hQuiet

/- One call keeps states and places together. -/
theorem schedCall_places
    (hPlaces : s.Places admitted)
    (hOk : StatesOk s admitted call)
    (hStep : schedStep s call s') :
    s'.Places (admittedBy s call s' admitted) := by
  rcases hStep with ⟨fuel, hCall⟩
  cases call with
  | fork task =>
      cases task with
      | none =>
          cases hCall
          exact hPlaces.mono fun q hIn =>
            admitted_of_quiet hIn (by simp) id
      | some p =>
          rcases schedFork_step hCall with ⟨hState, hSelf, hQ⟩
          apply hPlaces.at p _ (fun q _ => hState q) hQ
          · intro _ _
            exact hSelf
          · intro hWait
            rw [hState] at hWait
            exact absurd hWait (hOk p rfl)
          · intro q hq hIn
            refine admitted_of_quiet hIn ?_ id
            simpa using fun hEq => hq hEq.symm
  | schedule =>
      exact (schedule_places hPlaces hOk hCall).mono fun q hIn =>
        admitted_of_quiet hIn (by simp) id
  | tick =>
      exact (schedTick_places hPlaces hCall).1.mono
        fun q hIn => admitted_of_quiet hIn (by simp) id
  | yield =>
      exact (yield_places hPlaces hCall).mono fun q hIn =>
        admitted_of_quiet hIn (by simp) id
  | wakeUpProcess task =>
      simp only [schedCall, Option.map_eq_some_iff, Prod.exists,
        exists_eq_right] at hCall
      rcases hCall with ⟨r, hCall⟩
      cases task with
      | none =>
          cases hCall
          exact hPlaces.mono fun q hIn =>
            admitted_of_same hIn (by simp) rfl
      | some p =>
          rcases wakeUpProcess_split hCall with
            ⟨_, hEnter⟩ | ⟨_, rfl⟩
          · have hStep := cfsEnqueue_step hEnter
            have hState : ∀ q, q ≠ p →
                (s'.task q).state = (s.task q).state := by
              intro q hq
              rw [hStep.state]
              simp [hq]
            apply hPlaces.at p _ hState
            · intro q hq
              rw [hStep.other q hq]
              simp [hq]
            · intro _ _
              exact hStep.self
            · intro hWait
              rw [hStep.state] at hWait
              simp [TaskState.Waits] at hWait
            · intro q hq hIn
              exact admitted_of_same hIn (by simp) (hState q hq)
          · exact hPlaces.mono fun q hIn =>
              admitted_of_same hIn (by simp) rfl
  | scheduleTimeout ns =>
      exact (scheduleTimeout_places hPlaces hCall).mono
        fun q hIn => admitted_of_quiet hIn (by simp) id
  | setTaskState task state =>
      cases task with
      | none =>
          cases hCall
          exact hPlaces.mono fun q hIn =>
            admitted_of_quiet hIn (by simp) id
      | some p =>
          exact (setTaskState_places hPlaces hOk hCall).mono
            fun q hIn => admitted_of_quiet hIn (by simp) id
  | nice increment =>
      cases hCall
      have hSame := sysNice_same s increment
      exact (hPlaces.congr (fun q => (hSame q).1)
        fun q => (hSame q).2).mono fun q hIn =>
          admitted_of_quiet hIn (by simp) id
  | exit task =>
      cases task with
      | none =>
          cases hCall
          exact hPlaces.mono fun q hIn =>
            admitted_of_quiet hIn (by simp) id
      | some p =>
          have hStep := cfsDequeue_step hCall
          have hGone : s'.Places admitted := by
            apply hPlaces.at p (fun _ _ h => h)
              (fun q _ => hStep.state q) hStep.other
            · intro hIn hRun
              rw [hStep.state] at hRun
              exact absurd hRun (hOk p rfl hIn)
            · intro _
              exact hStep.self
          exact hGone.mono fun q hIn =>
            admitted_of_quiet hIn (by simp) id
  | addToWaitQueue wq task =>
      cases hCall
      exact (addToWaitQueue_places hPlaces hOk).mono
        fun q hIn => admitted_of_quiet hIn (by simp) id
  | wakeUp wq =>
      have hSame : s' = s := by
        cases wq with
        | none =>
            cases hCall
            rfl
        | some wq =>
            exact wakeUpLoop_eq (fun entry p => hOk wq entry p rfl)
              hCall
      subst hSame
      exact hPlaces.mono fun q hIn =>
        admitted_of_same hIn (by simp) rfl

end Places

--------------------
-- The Tree And What Its Links Reach
--------------------

section Reach

variable {s : SchedState}
variable {t : TaskTree}

theorem mem_of_inTree
    (hStored : Stored s.cell s.thisRq.root t)
    {p : Addr}
    (hIn : s.InTree p) :
    p ∈ t.nodes := by
  have hClosed := hStored.closed
  induction hIn with
  | root hRoot => exact hClosed.root_in _ hRoot
  | left _ hLeft ih => exact hClosed.left_in _ ih _ hLeft
  | right _ hRight ih => exact hClosed.right_in _ ih _ hRight

theorem inTree_of_rep
    {par : Option Addr}
    (hRep : Rep s.cell par t)
    (hTop : ∀ p, t.rootPtr = some p → s.InTree p) :
    ∀ p ∈ t.nodes, s.InTree p := by
  induction t generalizing par with
  | nil => simp
  | node l q d r ihl ihr =>
      rcases hRep with ⟨hCell, hRepL, hRepR⟩
      have hq : s.InTree q := hTop q rfl
      have hLeft : (s.task q).cfs.left = l.rootPtr :=
        congrArg Cell.left hCell
      have hRight : (s.task q).cfs.right = r.rootPtr :=
        congrArg Cell.right hCell
      intro p hp
      simp only [Tree.nodes_node, List.mem_append, List.mem_cons]
        at hp
      rcases hp with hp | rfl | hp
      · apply ihl hRepL _ p hp
        intro x hx
        exact .left hq (hLeft.trans hx)
      · exact hq
      · apply ihr hRepR _ p hp
        intro x hx
        exact .right hq (hRight.trans hx)

/- The links reach exactly the nodes of the tree. -/
theorem inTree_iff
    (hStored : Stored s.cell s.thisRq.root t)
    (p : Addr) :
    s.InTree p ↔ p ∈ t.nodes := by
  constructor
  · exact mem_of_inTree hStored
  · apply inTree_of_rep hStored.rep
    intro q hq
    exact .root (hStored.root_eq.trans hq)

/- These are the tasks that name the queue. -/
theorem SchedState.Linked.inTree_iff
    (hLinked : s.Linked t)
    (p : Addr) :
    s.InTree p ↔ (s.task p).cfs.myQ = some thisCpu :=
  (FeatherOS.inTree_iff hLinked.stored p).trans
    (hLinked.members p)

theorem SchedState.Linked.noneLost
    {admitted : Addr → Prop}
    (hLinked : s.Linked t)
    (hPlaces : s.Places admitted) :
    s.NoneLost admitted where
  ready p hIn hRun := by
    rw [hLinked.inTree_iff]
    exact hPlaces.ready p hIn hRun
  waiting p hWait := by
    rw [hLinked.inTree_iff, hPlaces.waiting p hWait]
    simp

end Reach

--------------------
-- Runs
--------------------

/- The condition on a call made as some current task. -/
def RunnableOk
    (x : SchedState × (Addr → Prop))
    (op : Option Addr × SchedCall) : Prop :=
  LinksOk (x.1.withCurrent op.1) op.2 ∧
    StatesOk (x.1.withCurrent op.1) x.2 op.2

/- Every run whose calls meet the condition. -/
theorem schedRun_noneLost
    {s₀ s : SchedState}
    {admitted : Addr → Prop}
    {ops : List (Option Addr × SchedCall)}
    (hStart : s₀.Started)
    (hRun :
      Run (Guarded RunnableOk tracedStep)
        (s₀, fun _ => False) ops (s, admitted)) :
    s.NoneLost admitted := by
  have hAll :=
    hRun.invariant
      (fun x => (∃ t, x.1.Queue False t) ∧ x.1.Places x.2)
      (by
        rintro x op x' ⟨⟨t, hQueue⟩, hPlaces⟩
          ⟨⟨hLinks, hStates⟩, hStep, hAdmitted⟩
        constructor
        · exact schedCall_queue ⟨t, hQueue.withCurrent op.1⟩
            hLinks (fun h => h.elim) (fun h => h.elim) hStep
        · have hHere : (x.1.withCurrent op.1).Places x.2 :=
            hPlaces.congr (fun _ => rfl) fun _ => rfl
          rw [hAdmitted]
          have hDone := schedCall_places hHere hStates hStep
          exact hDone)
      ⟨⟨.nil, hStart.queue⟩, by
        rcases hStart with ⟨proc, waitNode, heap, hQ, rfl⟩
        exact ⟨fun p hIn => hIn.elim, fun p _ => hQ p⟩⟩
  rcases hAll with ⟨⟨t, hQueue⟩, hPlaces⟩
  exact hQueue.linked.noneLost hPlaces

variable {ops : List (Option Addr × SchedCall)}
variable {s s' : SchedState}

/- Calls that meet the condition whatever came in before -/
theorem exists_guardedRun
    (hRun :
      Run
        (Guarded
          (fun s op => ∀ admitted, RunnableOk (s, admitted) op)
          schedStepAs)
        s ops s')
    (admitted : Addr → Prop) :
    ∃ admitted',
      Run (Guarded RunnableOk tracedStep) (s, admitted) ops
        (s', admitted') := by
  induction hRun generalizing admitted with
  | nil s => exact ⟨admitted, .nil _⟩
  | cons hStep _ ih =>
      rcases hStep with ⟨hOk, hCall⟩
      rcases ih (admittedBy _ _ _ admitted) with
        ⟨admitted', hRest⟩
      exact ⟨admitted',
        .cons ⟨hOk admitted, hCall, rfl⟩ hRest⟩

theorem schedRun_noneLost_sleep :
    ∃ s admitted,
      Run (Guarded RunnableOk tracedStep)
        (SchedState.ready, fun _ => False) sleepCalls
        (s, admitted) ∧
      s.NoneLost admitted := by
  have hRun :
      Run
        (Guarded
          (fun s op => ∀ admitted, RunnableOk (s, admitted) op)
          schedStepAs)
        SchedState.ready sleepCalls (sleepState 6) := by
    refine sleepRun_guarded fun n op hOp admitted => ?_
    rcases sleepState_queue hOp with ⟨t, hQueue⟩
    refine ⟨(sleepState_queueOk hOp hQueue).1, ?_⟩
    match n, hOp with
    | 0, rfl =>
        have hAwake :
            ¬ (((sleepState 0).withCurrent none).task
              taskA).state.Waits := by
          decide +kernel
        rintro p ⟨⟩
        exact hAwake
    | 1, rfl =>
        have hAwake :
            ¬ (((sleepState 1).withCurrent none).task
              taskB).state.Waits := by
          decide +kernel
        rintro p ⟨⟩
        exact hAwake
    | 2, rfl =>
        intro p hCur
        cases hCur
    | 3, rfl => trivial
    | 4, rfl => trivial
    | 5, rfl =>
        have hAlive :
            (((sleepState 5).withCurrent (some taskB)).task
              taskB).flags &&& tfZombie = 0#32 := by
          decide +kernel
        rintro p ⟨⟩ _ hZombie
        exact absurd hAlive hZombie
  rcases exists_guardedRun hRun fun _ => False with
    ⟨admitted, hTraced⟩
  exact ⟨_, admitted, hTraced,
    schedRun_noneLost SchedState.ready_started hTraced⟩

/- Every run has a record of the tasks that came in. -/
theorem exists_tracedRun
    (hRun : Run schedStepAs s ops s')
    (admitted : Addr → Prop) :
    ∃ admitted',
      Run tracedStep (s, admitted) ops (s', admitted') := by
  induction hRun generalizing admitted with
  | nil s => exact ⟨admitted, .nil _⟩
  | cons hStep _ ih =>
      rcases ih (admittedBy _ _ _ admitted) with
        ⟨admitted', hRest⟩
      exact ⟨admitted', .cons ⟨hStep, rfl⟩ hRest⟩

/- A task that is put to wait stays in the tree. -/
theorem addToWaitQueue_keeps_queued :
    ∃ s admitted,
      Run tracedStep (SchedState.ready, fun _ => False)
        [(none, .fork (some taskA)),
          (none, .addToWaitQueue (some 0x3000) (some taskA))]
        (s, admitted) ∧
      ¬ s.NoneLost admitted := by
  have hEnd :
      (schedCalls 2 SchedState.ready
        [(none, .fork (some taskA)),
          (none, .addToWaitQueue (some 0x3000)
            (some taskA))]).map
        (fun s => (s.thisRq.root, (s.task taskA).state)) =
      some (some taskA, .blocked) := by
    decide +kernel
  rcases Option.map_eq_some_iff.mp hEnd with
    ⟨s, hCalls, hFacts⟩
  simp only [Prod.mk.injEq] at hFacts
  rcases hFacts with ⟨hRoot, hState⟩
  rcases exists_tracedRun (run_of_schedCalls hCalls)
      fun _ => False with
    ⟨admitted, hRun⟩
  refine ⟨s, admitted, hRun, ?_⟩
  intro hLost
  apply hLost.waiting taskA _ (.root hRoot)
  rw [hState]
  exact Or.inl rfl

end FeatherOS
