import FeatherOS.Sched.Minimum

/-
  The counters of the run queue.

  An insertion adds one task and its load weight, a removal
  takes both away. The weight is read from the record each
  time; between the two it may have been changed.

  Key definitions include:
    * `SchedState.counters`
    * `PutBack`

  Key theorems include:
    * `cfsEnqueue_counters`
    * `cfsDequeue_counters`
    * `schedule_putBack`
    * `yield_putBack`
-/

namespace FeatherOS

/- `nr_running` and `load_weight` -/
structure Counters where
  nrRunning : U32
  loadWeight : U64

/- One more task of this weight. -/
def Counters.add
    (c : Counters)
    (w : U64) :
    Counters :=
  ⟨c.nrRunning + 1#32, c.loadWeight + w⟩

/- One task less. -/
def Counters.sub
    (c : Counters)
    (w : U64) :
    Counters :=
  ⟨c.nrRunning - 1#32, c.loadWeight - w⟩

@[simp] theorem Counters.add_sub
    (c : Counters)
    (w : U64) :
    (c.sub w).add w = c := by
  simp only [Counters.add, Counters.sub, BitVec.sub_add_cancel]

def CfsRq.counters (q : CfsRq) : Counters :=
  ⟨q.nrRunning, q.loadWeight⟩

def SchedState.counters (s : SchedState) : Counters :=
  s.thisRq.counters

section Counters

variable {s s' : SchedState}
variable {p : Addr}
variable {fuel : Nat}

theorem cfsEnqueue_counters
    (hCall : cfsEnqueue fuel s thisCpu p = some s') :
    s'.counters =
      s.counters.add (s.task p).cfs.loadWeight := by
  have hCount := congrArg CfsRq.counters (cfsEnqueue_rq hCall)
  exact hCount

/- A task that names no queue is not taken out. -/
theorem cfsDequeue_counters
    (hCall : cfsDequeue fuel s thisCpu p = some s') :
    s'.counters =
      if (s.task p).cfs.myQ = none then s.counters
      else s.counters.sub (s.task p).cfs.loadWeight := by
  have hCount := congrArg CfsRq.counters (cfsDequeue_rq hCall)
  split at hCount
  next hOut =>
    rw [if_pos hOut]
    exact hCount
  next hIn =>
    rw [if_neg hIn]
    exact hCount

theorem updateCurrCfs_counters
    (hCall : updateCurrCfs s thisCpu p = some s') :
    s'.counters = s.counters := by
  have hLoad := (updateCurrCfs_step hCall).2
  simp only [updateCurrCfs, hLoad, if_false, Option.some.injEq]
    at hCall
  subst hCall
  simp [SchedState.counters, CfsRq.counters, SchedState.thisRq]

/- Only a task that was in no queue is counted. -/
theorem cfsRequeue_counters
    (hCall : cfsRequeue fuel s thisCpu p = some s') :
    s'.counters =
      if (s.task p).cfs.myQ = none then
        s.counters.add (s.task p).cfs.loadWeight
      else s.counters := by
  rcases cfsRequeue_split hCall with
    ⟨s₁, s₂, hCharge, hOut, hIn⟩
  have hStep := (updateCurrCfs_step hCharge).1
  have hLoad : (s₁.task p).cfs.loadWeight =
      (s.task p).cfs.loadWeight := by
    rw [hStep.self]
  rw [cfsEnqueue_counters hIn, cfsDequeue_counters hOut,
    (cfsDequeue_step hOut).loadWeight, hStep.myQ, hLoad,
    updateCurrCfs_counters hCharge]
  split
  · rfl
  · rw [Counters.add_sub]

theorem switchNext_counters
    (s : SchedState)
    (prev next : Option Addr) :
    (switchNext s prev next).counters = s.counters := by
  unfold switchNext
  split
  · rfl
  · cases next with
    | none => rfl
    | some next =>
        cases prev with
        | none => rfl
        | some prev => rfl

theorem pickAndSwitch_counters
    {prev : Option Addr}
    (hCall : pickAndSwitch fuel s prev = some s') :
    s'.counters = s.counters := by
  rcases pickAndSwitch_split hCall with
    ⟨_, rfl⟩ | ⟨r, n, _, _, rfl⟩
  · exact switchNext_counters _ _ _
  · exact switchNext_counters _ _ _

/-
  One task is in the queue afterwards; it is counted if it
  was in none before.
-/
structure PutBack
    (p : Addr)
    (s s' : SchedState) : Prop where
  self : (s'.task p).cfs.myQ = some thisCpu
  other : ∀ q, q ≠ p →
    (s'.task q).cfs.myQ = (s.task q).cfs.myQ
  count : s'.counters =
    if (s.task p).cfs.myQ = none then
      s.counters.add (s.task p).cfs.loadWeight
    else s.counters

/- Queue and counters are as before. -/
structure SameQueue (s s' : SchedState) : Prop where
  myQ : ∀ q, (s'.task q).cfs.myQ = (s.task q).cfs.myQ
  count : s'.counters = s.counters

theorem SameQueue.trans
    {s₁ : SchedState}
    (hFirst : SameQueue s s₁)
    (hSecond : SameQueue s₁ s') :
    SameQueue s s' where
  myQ q := (hSecond.myQ q).trans (hFirst.myQ q)
  count := hSecond.count.trans hFirst.count

theorem PutBack.andThen
    {s₁ : SchedState}
    (hFirst : PutBack p s s₁)
    (hSecond : SameQueue s₁ s') :
    PutBack p s s' where
  self := (hSecond.myQ p).trans hFirst.self
  other q hq := (hSecond.myQ q).trans (hFirst.other q hq)
  count := hSecond.count.trans hFirst.count

/- Putting back a task that is in the queue. -/
theorem PutBack.same
    (hPut : PutBack p s s')
    (hIn : (s.task p).cfs.myQ = some thisCpu) :
    SameQueue s s' where
  myQ q := by
    by_cases hq : q = p
    · rw [hq, hPut.self, hIn]
    · exact hPut.other q hq
  count := by
    have hQ : ¬ (s.task p).cfs.myQ = none := by simp [hIn]
    rw [hPut.count, if_neg hQ]

theorem cfsRequeue_putBack
    (hCall : cfsRequeue fuel s thisCpu p = some s') :
    PutBack p s s' where
  self := (cfsRequeue_step hCall).self
  other := (cfsRequeue_step hCall).other
  count := cfsRequeue_counters hCall

/- A record changes, but for the queue it names. -/
theorem modifyTask_same
    (s : SchedState)
    (p : Addr)
    (f : Task → Task)
    (hQ : (f (s.task p)).cfs.myQ = (s.task p).cfs.myQ) :
    SameQueue s (s.modifyTask p f) where
  myQ q := by
    by_cases hq : q = p
    · simp [hq, hQ]
    · simp [hq]
  count := rfl

theorem setState_same
    (s : SchedState)
    (p : Addr)
    (state : TaskState) :
    SameQueue s (s.setState p state) :=
  modifyTask_same s p _ rfl

/- `schedule` puts at most its current task back. -/
theorem schedule_putBack
    (hCall : schedule fuel s = some s') :
    SameQueue s s' ∨
      ∃ p, s.current = some p ∧ s.Requeues p ∧
        PutBack p s s' := by
  rcases schedule_split hCall with ⟨s₁, hPut, hNext⟩
  have hSwitch : SameQueue s₁ s' :=
    ⟨(pickAndSwitch_step hNext).myQ, pickAndSwitch_counters hNext⟩
  have hClock : SameQueue s (updateSchedClock s) :=
    ⟨fun _ => rfl, rfl⟩
  cases hCur : s.current with
  | none =>
      rw [hCur] at hPut
      cases hPut
      exact Or.inl (hClock.trans hSwitch)
  | some p =>
      rw [hCur] at hPut
      rcases putPrev_split hPut with ⟨hBack, hRequeue⟩ | ⟨_, rfl⟩
      · right
        refine ⟨p, rfl, hBack, ?_⟩
        have hPutBack := cfsRequeue_putBack hRequeue
        rw [markReady_eq] at hPutBack
        have hTask :
            ((updateSchedClock s).setState p
              ((updateSchedClock s).task
                p).state.afterRunning).task p =
            { s.task p with
              state := (s.task p).state.afterRunning } := by
          rw [SchedState.task_setState, if_pos rfl]
          rfl
        have hMark := hClock.trans
          (setState_same (updateSchedClock s) p
            ((updateSchedClock s).task p).state.afterRunning)
        have hHere : PutBack p s s₁ := by
          refine ⟨hPutBack.self, ?_, ?_⟩
          · intro q hq
            rw [hPutBack.other q hq, hMark.myQ]
          · rw [hPutBack.count, hTask]
            rfl
        exact hHere.andThen hSwitch
      · rw [markReady_eq] at hSwitch
        exact Or.inl ((hClock.trans
          (setState_same _ p _)).trans hSwitch)

theorem schedTick_same
    (hCall : schedTick fuel s = some s') :
    SameQueue s s' := by
  have hClock : SameQueue s (updateSchedClock s) :=
    ⟨fun _ => rfl, rfl⟩
  rcases schedTick_split hCall with
    ⟨_, rfl⟩ | ⟨p, s₁, _, rfl, hCase⟩
  · exact hClock
  · have hMid : SameQueue s s₁ := by
      rcases hCase with ⟨_, hCharge⟩ | ⟨_, rfl⟩
      · exact hClock.trans
          ⟨(updateCurrCfs_step hCharge).1.myQ,
            updateCurrCfs_counters hCharge⟩
      · exact hClock
    have hTime := hMid.trans
      (modifyTask_same s₁ p
        (fun t => { t with utime := t.utime + 1#64 }) rfl)
    exact ⟨hTime.myQ, hTime.count⟩

theorem sysNice_sameQueue
    (s : SchedState)
    (increment : Int) :
    SameQueue s (sysNice s increment).2 := by
  unfold sysNice
  cases s.current with
  | none => exact ⟨fun _ => rfl, rfl⟩
  | some p => exact modifyTask_same s p _ rfl

/- `yield` puts its current task back. -/
theorem yield_putBack
    (hCall : yield fuel s = some s') :
    (s.current = none ∧ s' = s) ∨
      ∃ p, s.current = some p ∧ PutBack p s s' := by
  rcases yield_split hCall with
    hNone | ⟨p, s₁, hCur, hRequeue, hSchedule⟩
  · exact Or.inl hNone
  · right
    refine ⟨p, hCur, ?_⟩
    have hStep := cfsRequeue_step hRequeue
    have hReady := setState_same s₁ p .ready
    have hLast : SameQueue (s₁.setState p .ready) s' := by
      rcases schedule_putBack hSchedule with
        hSame | ⟨q, hq, _, hPut⟩
      · exact hSame
      · have hCur' : (s₁.setState p .ready).current = some p :=
          hStep.current.trans hCur
        rw [hCur'] at hq
        cases hq
        apply hPut.same
        rw [hReady.myQ, hStep.self]
    exact (cfsRequeue_putBack hRequeue).andThen
      (hReady.trans hLast)

theorem schedFork_counters
    (hCall : schedFork fuel s (some p) = some s') :
    s'.counters =
      s.counters.add (forkEntity (s.task p)).cfs.loadWeight := by
  rw [schedFork] at hCall
  rw [cfsEnqueue_counters hCall]
  simp [placeEntity]
  rfl

end Counters

end FeatherOS
