import FeatherOS.Sched.Invariant

/-
  Nice values and load weights.

  The nice value of a task and its load weight are written
  by `sched_fork` and `sys_nice` only; all other calls leave
  them as they are.

  Key definitions include:
    * `SchedState.weighing`
    * `weighingAfter`
    * `weighedStep`

  Key theorems include:
    * `schedCall_weighing`
    * `weighedRun_load`
-/

namespace FeatherOS

/- The nice value and the load weight of a task. -/
structure Weighing where
  priority : Int
  loadWeight : U64

def Task.weighing (t : Task) : Weighing :=
  ⟨t.priority, t.cfs.loadWeight⟩

def SchedState.weighing
    (s : SchedState)
    (p : Addr) :
    Weighing :=
  (s.task p).weighing

/- The weight `sched_fork` gives. -/
def forkLoad (priority : Int) : U64 :=
  if priority = 0 then nice0Load else niceToLoad priority

/- What a call makes of the nice value and the weight. -/
def weighingAfter
    (s : SchedState)
    (call : SchedCall)
    (p : Addr) :
    Weighing :=
  let w := s.weighing p
  match call with
  | .fork task =>
      if task = some p then
        ⟨w.priority, forkLoad w.priority⟩
      else w
  | .nice increment =>
      if s.current = some p then
        ⟨addNice w.priority increment,
          niceToLoad (addNice w.priority increment)⟩
      else w
  | _ => w

section Frame

variable {s s' : SchedState}
variable {p : Addr}
variable {fuel : Nat}

theorem QueueStep.weighing
    {myQ : Option (Fin nrCpus)}
    (hStep : QueueStep p myQ s s')
    (q : Addr) :
    s'.weighing q = s.weighing q := by
  have hEq := congrArg Task.weighing (hStep.unlinked q)
  exact hEq

theorem ChargeStep.weighing
    (hStep : ChargeStep p s s')
    (q : Addr) :
    s'.weighing q = s.weighing q := by
  unfold SchedState.weighing
  by_cases hq : q = p
  · rw [hq, hStep.self]
    rfl
  · rw [hStep.other q hq]

/- A record is changed elsewhere. -/
theorem SchedState.weighing_modifyTask
    (s : SchedState)
    (p q : Addr)
    (f : Task → Task)
    (hKeep : (f (s.task p)).weighing = (s.task p).weighing) :
    (s.modifyTask p f).weighing q = s.weighing q := by
  unfold SchedState.weighing
  rw [SchedState.task_modifyTask]
  by_cases hq : q = p
  · rw [if_pos hq, hKeep, hq]
  · rw [if_neg hq]

theorem cfsRequeue_weighing
    (hCall : cfsRequeue fuel s thisCpu p = some s')
    (q : Addr) :
    s'.weighing q = s.weighing q := by
  rcases cfsRequeue_split hCall with
    ⟨s₁, s₂, hCharge, hOut, hIn⟩
  rw [(cfsEnqueue_step hIn).weighing,
    (cfsDequeue_step hOut).weighing,
    (updateCurrCfs_step hCharge).1.weighing]

theorem markReady_weighing
    (s : SchedState)
    (p q : Addr) :
    (markReady s p).weighing q = s.weighing q := by
  rw [markReady_eq]
  exact s.weighing_modifyTask p q _ rfl

theorem putPrev_weighing
    {prev : Option Addr}
    (hCall : putPrev fuel s prev = some s')
    (q : Addr) :
    s'.weighing q = s.weighing q := by
  cases prev with
  | none =>
      cases hCall
      rfl
  | some p =>
      rcases putPrev_split hCall with ⟨_, hBack⟩ | ⟨_, rfl⟩
      · rw [cfsRequeue_weighing hBack, markReady_weighing]
      · exact markReady_weighing s p q

theorem switchNext_weighing
    (s : SchedState)
    (prev next : Option Addr)
    (q : Addr) :
    (switchNext s prev next).weighing q = s.weighing q := by
  unfold switchNext
  by_cases hSame : next = prev
  · simp only [hSame, if_true]
  · simp only [hSame, if_false]
    cases next with
    | none => rfl
    | some next =>
        have hStart :=
          SchedState.weighing_modifyTask
            { s with totalSwitches := s.totalSwitches + 1#64 }
            next q
            (fun t =>
              { t with
                cfs := { t.cfs with execStart := s.clock }
                state := .running })
            rfl
        cases prev with
        | none => exact hStart
        | some prev => exact hStart

theorem schedule_weighing
    (hCall : schedule fuel s = some s')
    (q : Addr) :
    s'.weighing q = s.weighing q := by
  rcases schedule_split hCall with ⟨s₁, hPut, hNext⟩
  have hPrev : s₁.weighing q = s.weighing q :=
    putPrev_weighing hPut q
  simp only [pickAndSwitch, Option.bind_eq_bind,
    Option.bind_eq_some_iff] at hNext
  rcases hNext with ⟨next, _, hNext⟩
  cases next with
  | some next =>
      simp only [Option.some.injEq] at hNext
      rw [← hNext, switchNext_weighing, hPrev]
  | none =>
      simp only [Option.some.injEq] at hNext
      rw [← hNext, switchNext_weighing]
      exact hPrev

theorem schedTick_weighing
    (hCall : schedTick fuel s = some s')
    (q : Addr) :
    s'.weighing q = s.weighing q := by
  rcases schedTick_split hCall with
    ⟨_, rfl⟩ | ⟨p, s₁, _, rfl, hCase⟩
  · rfl
  · have hTime := s₁.weighing_modifyTask p q
      (fun t => { t with utime := t.utime + 1#64 }) rfl
    apply hTime.trans
    rcases hCase with ⟨_, hCharge⟩ | ⟨_, rfl⟩
    · exact (updateCurrCfs_step hCharge).1.weighing q
    · rfl

theorem yield_weighing
    (hCall : yield fuel s = some s')
    (q : Addr) :
    s'.weighing q = s.weighing q := by
  rcases yield_split hCall with
    ⟨_, rfl⟩ | ⟨p, s₁, _, hRequeue, hSchedule⟩
  · rfl
  · rw [schedule_weighing hSchedule]
    exact (s₁.weighing_modifyTask p q _ rfl).trans
      (cfsRequeue_weighing hRequeue q)

theorem scheduleTimeout_weighing
    {ns : U64}
    (hCall : scheduleTimeout fuel s ns = some s')
    (q : Addr) :
    s'.weighing q = s.weighing q := by
  rcases scheduleTimeout_split hCall with
    ⟨_, rfl⟩ | ⟨p, s₁, _, hLeave, _, hSchedule⟩
  · rfl
  · rw [schedule_weighing hSchedule,
      (cfsDequeue_step hLeave).weighing]
    exact s.weighing_modifyTask p q _ rfl

theorem setTaskState_weighing
    {state : TaskState}
    (hCall : setTaskState fuel s (some p) state = some s')
    (q : Addr) :
    s'.weighing q = s.weighing q := by
  rcases setTaskState_split hCall with
    ⟨_, hEnter⟩ | ⟨_, s₁, rfl, hCase⟩
  · rw [(cfsEnqueue_step hEnter).weighing]
    exact s.weighing_modifyTask p q _ rfl
  · have hState : (s₁.setState p state).weighing q =
        s₁.weighing q :=
      s₁.weighing_modifyTask p q _ rfl
    rw [hState]
    rcases hCase with ⟨_, hLeave⟩ | ⟨_, rfl⟩
    · exact (cfsDequeue_step hLeave).weighing q
    · rfl

theorem wakeUpProcess_weighing
    {r : Int}
    (hCall : wakeUpProcess fuel s (some p) = some (r, s'))
    (q : Addr) :
    s'.weighing q = s.weighing q := by
  rcases wakeUpProcess_split hCall with
    ⟨_, hEnter⟩ | ⟨_, rfl⟩
  · rw [(cfsEnqueue_step hEnter).weighing]
    exact s.weighing_modifyTask p q _ rfl
  · rfl

theorem wakeUpLoop_weighing
    {curr : Addr}
    (hCall : wakeUpLoop fuel s curr = some s')
    (q : Addr) :
    s'.weighing q = s.weighing q := by
  induction fuel generalizing s curr with
  | zero => simp [wakeUpLoop] at hCall
  | succ fuel ih =>
      simp only [wakeUpLoop] at hCall
      split at hCall
      · rw [Option.some.inj hCall]
      · split at hCall
        · exact ih hCall
        · split at hCall
          · rw [ih hCall]
            exact s.weighing_modifyTask _ q
              (fun t => { t with state := .ready }) rfl
          · exact ih hCall

theorem addToWaitQueue_weighing
    (s : SchedState)
    (wq task : Option Addr)
    (q : Addr) :
    (addToWaitQueue s wq task).weighing q = s.weighing q := by
  unfold addToWaitQueue
  split
  · split
    · rfl
    · exact SchedState.weighing_modifyTask _ _ q _ rfl
  · rfl

theorem schedFork_weighing
    (hCall : schedFork fuel s (some p) = some s')
    (q : Addr) :
    s'.weighing q = weighingAfter s (.fork (some p)) q := by
  rw [schedFork] at hCall
  rw [(cfsEnqueue_step hCall).weighing]
  unfold placeEntity
  rw [SchedState.weighing_modifyTask _ _ _ _ rfl]
  unfold SchedState.weighing weighingAfter
  by_cases hq : p = q
  · subst hq
    simp only [SchedState.task_modifyTask, if_true]
    rfl
  · have hNe : ¬ q = p := fun h => hq h.symm
    simp only [SchedState.task_modifyTask, hNe,
      Option.some.injEq, hq, if_false]
    rfl

theorem sysNice_weighing
    (s : SchedState)
    (increment : Int)
    (q : Addr) :
    (sysNice s increment).2.weighing q =
      weighingAfter s (.nice increment) q := by
  unfold sysNice weighingAfter
  cases hCur : s.current with
  | none => rfl
  | some p =>
      unfold SchedState.weighing
      by_cases hq : p = q
      · subst hq
        simp only [SchedState.task_modifyTask, if_true]
        rfl
      · have hNe : ¬ q = p := fun h => hq h.symm
        simp only [SchedState.task_modifyTask, hNe,
          Option.some.injEq, hq, if_false]

/- Only forks and `sys_nice` change a nice value or a weight. -/
theorem schedCall_weighing
    {call : SchedCall}
    (hStep : schedStep s call s')
    (q : Addr) :
    s'.weighing q = weighingAfter s call q := by
  rcases hStep with ⟨fuel, hCall⟩
  cases call with
  | fork task =>
      cases task with
      | none =>
          cases hCall
          rfl
      | some p => exact schedFork_weighing hCall q
  | schedule => exact schedule_weighing hCall q
  | tick => exact schedTick_weighing hCall q
  | yield => exact yield_weighing hCall q
  | wakeUpProcess task =>
      rcases Option.map_eq_some_iff.mp hCall with
        ⟨⟨r, s₁⟩, hWake, rfl⟩
      cases task with
      | none =>
          cases hWake
          rfl
      | some p => exact wakeUpProcess_weighing hWake q
  | scheduleTimeout ns => exact scheduleTimeout_weighing hCall q
  | setTaskState task state =>
      cases task with
      | none =>
          cases hCall
          rfl
      | some p => exact setTaskState_weighing hCall q
  | nice increment =>
      cases hCall
      exact sysNice_weighing s increment q
  | exit task =>
      cases task with
      | none =>
          cases hCall
          rfl
      | some p => exact (cfsDequeue_step hCall).weighing q
  | addToWaitQueue wq task =>
      cases hCall
      exact addToWaitQueue_weighing s wq task q
  | wakeUp wq =>
      cases wq with
      | none =>
          cases hCall
          rfl
      | some wq => exact wakeUpLoop_weighing hCall q

end Frame

--------------------
-- Histories Of A Weight
--------------------

/- The call a task has its weight from. -/
inductive WeightSource where
  | fork
  | nice
  deriving DecidableEq

/- The weight it gives for a nice value. -/
def WeightSource.load : WeightSource → Int → U64
  | .fork, priority => forkLoad priority
  | .nice, priority => niceToLoad priority

def sourceAfter
    (p : Addr)
    (source : Option WeightSource)
    (op : Option Addr × SchedCall) :
    Option WeightSource :=
  match op.2 with
  | .fork task => if task = some p then some .fork else source
  | .nice _ => if op.1 = some p then some .nice else source
  | _ => source

/- A call, with a record of where the weights come from. -/
def weighedStep
    (x : SchedState × (Addr → Option WeightSource))
    (op : Option Addr × SchedCall)
    (x' : SchedState × (Addr → Option WeightSource)) : Prop :=
  schedStepAs x.1 op x'.1 ∧
    x'.2 = fun p => sourceAfter p (x.2 p) op

/- The weights are those of the recorded sources. -/
def WeighedBySource
    (x : SchedState × (Addr → Option WeightSource)) : Prop :=
  ∀ p source, x.2 p = some source →
    (x.1.weighing p).loadWeight =
      source.load (x.1.weighing p).priority

theorem WeighedBySource.step
    {x x' : SchedState × (Addr → Option WeightSource)}
    {op : Option Addr × SchedCall}
    (hWeighed : WeighedBySource x)
    (hStep : weighedStep x op x') :
    WeighedBySource x' := by
  rcases hStep with ⟨hCall, hSource⟩
  rcases op with ⟨current, call⟩
  have hOld : WeighedBySource (x.1.withCurrent current, x.2) :=
    hWeighed
  have hCurrent : (x.1.withCurrent current).current = current :=
    rfl
  intro p source hp
  rw [hSource] at hp
  rw [schedCall_weighing hCall p]
  cases call with
  | fork task =>
      simp only [sourceAfter, weighingAfter] at hp ⊢
      by_cases hTask : task = some p
      · simp only [hTask, if_true, Option.some.injEq] at hp ⊢
        rw [← hp]
        rfl
      · simp only [hTask, if_false] at hp ⊢
        exact hOld p source hp
  | nice increment =>
      simp only [sourceAfter, weighingAfter, hCurrent] at hp ⊢
      by_cases hCur : current = some p
      · simp only [hCur, if_true, Option.some.injEq] at hp ⊢
        rw [← hp]
        rfl
      · simp only [hCur, if_false] at hp ⊢
        exact hOld p source hp
  | _ => exact hOld p source hp

/- After every run, from any state without a record. -/
theorem weighedRun_load
    {s₀ s : SchedState}
    {source : Addr → Option WeightSource}
    {ops : List (Option Addr × SchedCall)}
    (hRun : Run weighedStep (s₀, fun _ => none) ops (s, source))
    {p : Addr}
    {last : WeightSource}
    (hLast : source p = some last) :
    (s.task p).cfs.loadWeight =
      last.load (s.task p).priority := by
  have hWeighed := hRun.invariant WeighedBySource
    (fun _ _ _ hWeighed hStep => hWeighed.step hStep)
    (fun _ _ hNone => by cases hNone)
  exact hWeighed p last hLast

/- The record of calls that return is that of their list. -/
theorem weighedRun_of_schedCalls
    {s s' : SchedState}
    {ops : List (Option Addr × SchedCall)}
    {fuel : Nat}
    (source : Addr → Option WeightSource)
    (hCalls : schedCalls fuel s ops = some s') :
    Run weighedStep (s, source) ops
      (s', fun p => ops.foldl (sourceAfter p) (source p)) := by
  induction ops generalizing s source with
  | nil =>
      have hEq : s = s' := Option.some.inj hCalls
      subst hEq
      exact .nil _
  | cons op ops ih =>
      simp only [schedCalls, Option.bind_eq_some_iff] at hCalls
      rcases hCalls with ⟨s₁, hCall, hRest⟩
      exact .cons ⟨⟨fuel, hCall⟩, rfl⟩ (ih _ hRest)

end FeatherOS
