import FeatherOS.Sched.Reach

/-
  The cached minimum of the run queue.

  `min_vruntime` falls on every insertion and charge that
  finds a smaller key, but the value 0 counts as unset. A
  task that is put back while it is 0 sets it to its own
  key, whatever the keys in the tree are.

  Key definitions include:
    * `SchedState.MinOk`
    * `LeastOk`

  Key theorems include:
    * `cfsRequeue_minOk`
    * `schedRun_minOk`
-/

namespace FeatherOS

--------------------
-- The Property
--------------------

/- No task in the tree has a key below the minimum. -/
def SchedState.MinOk (s : SchedState) : Prop :=
  ∀ q, s.InTree q → s.thisRq.minVruntime ≤ (s.task q).vruntime

/- No other task in the tree has a key below this one. -/
def SchedState.LeastKey
    (s : SchedState)
    (p : Addr)
    (key : U64) : Prop :=
  ∀ q, s.InTree q → q ≠ p → key ≤ (s.task q).vruntime

/-
  A task that is put back while the minimum is 0 gets the
  smallest key. In the second half of `yield` the minimum is
  0 when the first charge has given the key 0.
-/
def LeastOk
    (s : SchedState) :
    SchedCall → Prop
  | .fork _ => True
  | .tick => True
  | .exit _ => True
  | .schedule =>
      ∀ p, s.current = some p → s.Requeues p →
        s.thisRq.minVruntime = 0#64 →
          s.LeastKey p
            (chargedVruntime (s.clock + 1#64) (s.task p))
  | .yield =>
      ∀ p, s.current = some p →
        (s.thisRq.minVruntime = 0#64 →
          s.LeastKey p (chargedVruntime s.clock (s.task p))) ∧
        ((s.task p).flags &&& tfZombie = 0#32 →
          chargedVruntime s.clock (s.task p) = 0#64 →
            s.LeastKey p
              (chargedVruntime (s.clock + 1#64)
                ((s.task p).charged s.clock)))
  | _ => False

--------------------
-- Keeping The Minimum
--------------------

/- What an insertion makes of the minimum. -/
def minEnqueued (least key : U64) : U64 :=
  if least = 0#64 ∨ key < least then key else least

/- What a charge makes of the minimum. -/
def minCharged (least key : U64) : U64 :=
  if key < least then key else least

section Minimum

variable {s s' : SchedState}
variable {p : Addr}
variable {fuel : Nat}

theorem minEnqueued_le
    (least key : U64) :
    minEnqueued least key ≤ key := by
  unfold minEnqueued
  split
  · exact BitVec.le_refl _
  next hNot =>
    exact BitVec.not_lt.mp fun h => hNot (Or.inr h)

theorem minCharged_le_key
    (least key : U64) :
    minCharged least key ≤ key := by
  unfold minCharged
  split
  · exact BitVec.le_refl _
  next hNot => exact BitVec.not_lt.mp hNot

theorem minCharged_le
    (least key : U64) :
    minCharged least key ≤ least := by
  unfold minCharged
  split
  next hLt => exact BitVec.le_of_lt hLt
  · exact BitVec.le_refl _

theorem minEnqueued_le_least
    {least key : U64}
    (hSet : least ≠ 0#64) :
    minEnqueued least key ≤ least := by
  unfold minEnqueued
  split
  next hOr =>
    rcases hOr with hZero | hLt
    · exact absurd hZero hSet
    · exact BitVec.le_of_lt hLt
  · exact BitVec.le_refl _

/- A charge and an insertion with one key. -/
theorem minRequeued_le
    {least key other : U64}
    (hOther : least ≤ other)
    (hZero : least = 0#64 → key ≤ other) :
    minEnqueued (minCharged least key) key ≤ other := by
  by_cases hSet : minCharged least key = 0#64
  · have hKey : minEnqueued (minCharged least key) key = key := by
      simp [minEnqueued, hSet]
    rw [hKey]
    by_cases hLeast : least = 0#64
    · exact hZero hLeast
    · have hSmall : key = 0#64 := by
        unfold minCharged at hSet
        split at hSet
        · exact hSet
        · exact absurd hSet hLeast
      rw [hSmall, BitVec.le_def]
      exact Nat.zero_le _
  · exact BitVec.le_trans (minEnqueued_le_least hSet)
      (BitVec.le_trans (minCharged_le least key) hOther)

/- The minimum is unset afterwards only for the key 0. -/
theorem minRequeued_zero
    {least key : U64}
    (hZero : minEnqueued (minCharged least key) key = 0#64) :
    key = 0#64 := by
  unfold minEnqueued at hZero
  split at hZero
  · exact hZero
  next hNot => exact absurd (Or.inl hZero) hNot

theorem cfsEnqueue_min
    (hCall : cfsEnqueue fuel s thisCpu p = some s') :
    s'.thisRq.minVruntime =
      minEnqueued s.thisRq.minVruntime (s.task p).vruntime := by
  have hLeast :=
    congrArg CfsRq.minVruntime (cfsEnqueue_rq hCall)
  exact hLeast

theorem cfsDequeue_min
    (hCall : cfsDequeue fuel s thisCpu p = some s') :
    s'.thisRq.minVruntime = s.thisRq.minVruntime := by
  have hLeast :=
    congrArg CfsRq.minVruntime (cfsDequeue_rq hCall)
  split at hLeast
  next => exact hLeast
  next => exact hLeast

theorem updateCurrCfs_min
    (hCall : updateCurrCfs s thisCpu p = some s') :
    s'.thisRq.minVruntime =
      minCharged s.thisRq.minVruntime
        (chargedVruntime s.clock (s.task p)) := by
  have hLoad := (updateCurrCfs_step hCall).2
  simp only [updateCurrCfs, hLoad, if_false, Option.some.injEq]
    at hCall
  subst hCall
  simp only [SchedState.thisRq_modifyRq,
    SchedState.task_modifyTask, if_true]
  rfl

theorem cfsRequeue_min
    (hCall : cfsRequeue fuel s thisCpu p = some s') :
    s'.thisRq.minVruntime =
      minEnqueued
        (minCharged s.thisRq.minVruntime
          (chargedVruntime s.clock (s.task p)))
        (chargedVruntime s.clock (s.task p)) := by
  rcases cfsRequeue_split hCall with
    ⟨s₁, s₂, hCharge, hOut, hIn⟩
  rw [cfsEnqueue_min hIn, cfsDequeue_min hOut,
    updateCurrCfs_min hCharge, (cfsDequeue_step hOut).vruntime,
    (updateCurrCfs_step hCharge).1.self]

--------------------
-- One Call
--------------------

/- Only keys, links and the minimum matter. -/
theorem SchedState.MinOk.congr
    (hMin : s.MinOk)
    (hLink : ∀ x, s'.link x = s.link x)
    (hKey : ∀ q, (s'.task q).vruntime = (s.task q).vruntime)
    (hLeast : s'.thisRq.minVruntime = s.thisRq.minVruntime) :
    s'.MinOk := by
  intro q hIn
  rw [hLeast, hKey]
  exact hMin q (hIn.congr hLink)

theorem SchedState.MinOk.setState
    (hMin : s.MinOk)
    (p : Addr)
    (state : TaskState) :
    (s.setState p state).MinOk := by
  apply hMin.congr
  · exact s.link_modifyTask p _ rfl rfl
  · intro q
    by_cases hq : q = p
    · simp [hq]
    · simp [hq]
  · rfl

theorem cfsRequeue_minOk
    (hMin : s.MinOk)
    (hLeast : s.thisRq.minVruntime = 0#64 →
      s.LeastKey p (chargedVruntime s.clock (s.task p)))
    (hCall : cfsRequeue fuel s thisCpu p = some s') :
    s'.MinOk := by
  have hStep := cfsRequeue_step hCall
  intro q hIn
  rw [cfsRequeue_min hCall]
  by_cases hq : q = p
  · subst hq
    rw [hStep.key]
    exact minEnqueued_le _ _
  · rw [hStep.otherKey q hq]
    rcases cfsRequeue_inTree hCall hIn with hOld | hEq
    · exact minRequeued_le (hMin q hOld)
        fun hZero => hLeast hZero q hOld hq
    · exact absurd hEq hq

theorem putPrev_minOk
    (hMin : s.MinOk)
    (hLeast : s.Requeues p → s.thisRq.minVruntime = 0#64 →
      s.LeastKey p (chargedVruntime s.clock (s.task p)))
    (hCall : putPrev fuel s (some p) = some s') :
    s'.MinOk := by
  rcases putPrev_split hCall with ⟨hBack, hRequeue⟩ | ⟨_, rfl⟩
  · rw [markReady_eq] at hRequeue
    apply cfsRequeue_minOk (hMin.setState p _) _ hRequeue
    intro hZero q hIn hq
    have hOld : s.InTree q :=
      hIn.congr (s.link_modifyTask p _ rfl rfl)
    have hKey := hLeast hBack hZero q hOld hq
    rw [SchedState.task_setState, SchedState.task_setState,
      if_pos rfl, if_neg hq]
    exact hKey
  · rw [markReady_eq]
    exact hMin.setState p _

theorem SwitchStep.minOk
    (hStep : SwitchStep s s')
    (hLeast : s'.thisRq.minVruntime = s.thisRq.minVruntime)
    (hMin : s.MinOk) :
    s'.MinOk :=
  hMin.congr (link_congr hStep.cell hStep.root)
    (fun q => congrArg LinkedTree.Cell.data (hStep.cell q)) hLeast

theorem switchNext_min
    (s : SchedState)
    (prev next : Option Addr) :
    (switchNext s prev next).thisRq.minVruntime =
      s.thisRq.minVruntime := by
  unfold switchNext
  split
  · rfl
  · cases next with
    | none => rfl
    | some next =>
        cases prev with
        | none => rfl
        | some prev => rfl

theorem pickAndSwitch_min
    {prev : Option Addr}
    (hCall : pickAndSwitch fuel s prev = some s') :
    s'.thisRq.minVruntime = s.thisRq.minVruntime := by
  rcases pickAndSwitch_split hCall with
    ⟨_, rfl⟩ | ⟨r, n, _, _, rfl⟩
  · exact switchNext_min _ _ _
  · exact switchNext_min _ _ _

theorem schedule_minOk
    (hMin : s.MinOk)
    (hLeast : LeastOk s .schedule)
    (hCall : schedule fuel s = some s') :
    s'.MinOk := by
  rcases schedule_split hCall with ⟨s₁, hPut, hNext⟩
  have hClock : (updateSchedClock s).MinOk :=
    hMin.congr (fun x => by cases x <;> rfl) (fun _ => rfl) rfl
  apply (pickAndSwitch_step hNext).minOk (pickAndSwitch_min hNext)
  cases hCur : s.current with
  | none =>
      rw [hCur] at hPut
      cases hPut
      exact hClock
  | some p =>
      rw [hCur] at hPut
      apply putPrev_minOk hClock _ hPut
      intro hBack hZero q hIn hq
      apply hLeast p hCur hBack hZero q _ hq
      exact hIn.congr fun x => by cases x <;> rfl

theorem schedFork_minOk
    (hMin : s.MinOk)
    (hCall : schedFork fuel s (some p) = some s') :
    s'.MinOk ∧
      ∀ q, s.InTree q →
        (s'.task p).vruntime ≤ (s.task q).vruntime := by
  rcases schedFork_eq hCall with
    ⟨s₁, hEnter, hOther, _, hKey, hLink, hRq, _, _⟩
  have hLeast : s₁.thisRq.minVruntime = s.thisRq.minVruntime := by
    simp only [SchedState.thisRq, hRq]
  have hCut : ∀ q, s₁.InTree q → s.InTree q := by
    intro q hIn
    have hLeads : s₁.Leads s.InTree := by
      intro x r hFrom hx
      rw [hLink] at hx
      split at hx
      · cases hx
      · exact s.leads_inTree x r hFrom hx
    exact hLeads.of_inTree hIn
  have hNew : s'.thisRq.minVruntime = s.thisRq.minVruntime := by
    rw [cfsEnqueue_min hEnter, hLeast, hKey]
    simp [minEnqueued]
  have hOwn : (s'.task p).vruntime = s.thisRq.minVruntime := by
    rw [(cfsEnqueue_step hEnter).vruntime, hKey]
  constructor
  · intro q hIn
    rw [hNew]
    by_cases hq : q = p
    · rw [hq, hOwn]
      exact BitVec.le_refl _
    · rw [(cfsEnqueue_step hEnter).vruntime, hOther q hq]
      rcases cfsEnqueue_inTree hEnter hIn with hOld | hEq
      · exact hMin q (hCut q hOld)
      · exact absurd hEq hq
  · intro q hIn
    rw [hOwn]
    exact hMin q hIn

theorem schedTick_minOk
    (hMin : s.MinOk)
    (hCall : schedTick fuel s = some s') :
    s'.MinOk := by
  have hClock : (updateSchedClock s).MinOk :=
    hMin.congr (fun x => by cases x <;> rfl) (fun _ => rfl) rfl
  rcases schedTick_split hCall with
    ⟨_, rfl⟩ | ⟨p, s₁, _, rfl, hCase⟩
  · exact hClock
  · suffices hMid : s₁.MinOk by
      apply hMid.congr
      · exact link_congr
          (s₁.cell_modifyTask p
            (fun t => { t with utime := t.utime + 1#64 })
            rfl rfl rfl rfl) rfl
      · intro q
        by_cases hq : q = p
        · simp [hq]
        · simp [hq]
      · rfl
    rcases hCase with ⟨_, hCharge⟩ | ⟨_, rfl⟩
    · rcases updateCurrCfs_step hCharge with ⟨hStep, _⟩
      intro q hIn
      rw [updateCurrCfs_min hCharge]
      by_cases hq : q = p
      · rw [hq, hStep.self]
        exact minCharged_le_key _ _
      · rw [hStep.other q hq]
        exact BitVec.le_trans (minCharged_le _ _)
          (hClock q (hIn.congr (updateCurrCfs_link hCharge)))
    · exact hClock

theorem yield_minOk
    (hMin : s.MinOk)
    (hLeast : LeastOk s .yield)
    (hCall : yield fuel s = some s') :
    s'.MinOk := by
  rcases yield_split hCall with
    ⟨_, rfl⟩ | ⟨p, s₁, hCur, hRequeue, hSchedule⟩
  · exact hMin
  · rcases hLeast p hCur with ⟨hFirst, hSecond⟩
    have hStep := cfsRequeue_step hRequeue
    have hMid := cfsRequeue_minOk hMin hFirst hRequeue
    apply schedule_minOk (hMid.setState p .ready) _ hSchedule
    intro r hr hBack hZero q hIn hq
    have hCur' : (s₁.setState p .ready).current = some p :=
      hStep.current.trans hCur
    rw [hCur'] at hr
    cases hr
    have hFlags : (s.task p).flags &&& tfZombie = 0#32 := by
      have hMark := hBack.2
      simpa [hStep.flags] using hMark
    have hKeyZero :
        chargedVruntime s.clock (s.task p) = 0#64 := by
      have hUnset : s₁.thisRq.minVruntime = 0#64 := hZero
      rw [cfsRequeue_min hRequeue] at hUnset
      exact minRequeued_zero hUnset
    have hOld : s.InTree q := by
      have hMidIn : s₁.InTree q :=
        hIn.congr (s₁.link_modifyTask p _ rfl rfl)
      rcases cfsRequeue_inTree hRequeue hMidIn with hOld | hEq
      · exact hOld
      · exact absurd hEq hq
    have hLe := hSecond hFlags hKeyZero q hOld hq
    rw [hStep.nextKey]
    simpa [hq, hStep.otherKey q hq] using hLe

theorem schedCall_minOk
    {call : SchedCall}
    (hMin : s.MinOk)
    (hLeast : LeastOk s call)
    (hStep : schedStep s call s') :
    s'.MinOk := by
  rcases hStep with ⟨fuel, hCall⟩
  cases call with
  | fork task =>
      cases task with
      | none =>
          cases hCall
          exact hMin
      | some p => exact (schedFork_minOk hMin hCall).1
  | schedule => exact schedule_minOk hMin hLeast hCall
  | tick => exact schedTick_minOk hMin hCall
  | yield => exact yield_minOk hMin hLeast hCall
  | exit task =>
      cases task with
      | none =>
          cases hCall
          exact hMin
      | some p =>
          intro q hIn
          rw [cfsDequeue_min hCall,
            (cfsDequeue_step hCall).vruntime]
          exact hMin q (cfsDequeue_inTree hCall hIn)
  | _ => exact hLeast.elim

end Minimum

--------------------
-- Runs
--------------------

variable {s : SchedState}

theorem SchedState.Started.minOk
    (hStart : s.Started) :
    s.MinOk := by
  intro q hIn
  have hQueue : s.Queue False .nil := hStart.queue
  have hMem := mem_of_inTree hQueue.linked.stored hIn
  simp at hMem

/- Any task may be made the current one. -/
theorem SchedState.MinOk.withCurrent
    (hMin : s.MinOk)
    (current : Option Addr) :
    (s.withCurrent current).MinOk :=
  hMin.congr (fun x => by cases x <;> rfl) (fun _ => rfl) rfl

/-
  Every run whose calls meet the condition; a fork made next
  puts the new task in front of all tasks in the tree.
-/
theorem schedRun_minOk
    {s₀ s : SchedState}
    {ops : List (Option Addr × SchedCall)}
    (hStart : s₀.Started)
    (hRun :
      Run
        (Guarded
          (fun s op => LeastOk (s.withCurrent op.1) op.2)
          schedStepAs)
        s₀ ops s) :
    s.MinOk ∧
      ∀ current p s',
        schedStepAs s (current, .fork (some p)) s' →
          ∀ q, s.InTree q →
            (s'.task p).vruntime ≤ (s.task q).vruntime := by
  have hMin := hRun.invariant SchedState.MinOk
    (fun s op s' hMin hStep =>
      schedCall_minOk (hMin.withCurrent op.1) hStep.1 hStep.2)
    hStart.minOk
  refine ⟨hMin, ?_⟩
  rintro current p s' ⟨fuel, hCall⟩ q hIn
  apply (schedFork_minOk (hMin.withCurrent current) hCall).2 q
  exact hIn.congr fun x => by cases x <;> rfl

/- Only the root is in a tree without a second task. -/
theorem inTree_alone
    {p q : Addr}
    (hRoot : s.thisRq.root = some p)
    (hLeft : (s.task p).cfs.left = none)
    (hRight : (s.task p).cfs.right = none)
    (hIn : s.InTree q) :
    q = p := by
  induction hIn with
  | root hTop =>
      rw [hRoot] at hTop
      exact (Option.some.inj hTop).symm
  | left _ hLink ih =>
      rw [ih, hLeft] at hLink
      cases hLink
  | right _ hLink ih =>
      rw [ih, hRight] at hLink
      cases hLink

/-
  A task runs for a tick and is put back; another one is
  forked, and the first exits.
-/
theorem schedRun_minOk_requeue :
    ∃ s, Run schedStepAs SchedState.ready
        [(none, .fork (some taskA)), (none, .schedule),
          (some taskA, .tick), (some taskA, .schedule),
          (some taskA, .fork (some taskB)),
          (some taskB, .exit (some taskA))] s ∧
      s.MinOk := by
  have hFront :
      (schedCalls 3 SchedState.ready
        [(none, .fork (some taskA)), (none, .schedule),
          (some taskA, .tick)]).map
        (fun s => (s.thisRq.root, s.cell taskA)) =
      some
        (some taskA,
          { left := none, right := none
            parent := none, data := 1#64 }) := by
    decide +kernel
  have hAll :
      (schedCalls 3 SchedState.ready
        ([(none, .fork (some taskA)), (none, .schedule),
            (some taskA, .tick)] ++
          [(some taskA, .schedule),
            (some taskA, .fork (some taskB)),
            (some taskB, .exit (some taskA))])).isSome = true := by
    decide +kernel
  rcases Option.map_eq_some_iff.mp hFront with
    ⟨s₃, hThree, hFacts⟩
  simp only [Prod.mk.injEq] at hFacts
  rcases hFacts with ⟨hRoot, hCell⟩
  rcases Option.isSome_iff_exists.mp hAll with ⟨s, hCalls⟩
  rw [schedCalls_append, hThree] at hCalls
  simp only [schedCalls, Option.bind_eq_some_iff,
    Option.some.injEq] at hThree hCalls
  rcases hThree with ⟨s₁, hFork, s₂, hSchedule, s₃, hTick, rfl⟩
  rcases hCalls with ⟨_, rfl, s₄, hBack, s₅, hSecond, s₆, hExit, rfl⟩
  have hLeast : LeastOk (s₃.withCurrent (some taskA))
      .schedule := by
    rintro p ⟨⟩ _ _ q hIn hq
    exact absurd (inTree_alone
      (s := s₃.withCurrent (some taskA)) hRoot
      (congrArg (fun c => c.left) hCell) (congrArg (fun c => c.right) hCell)
      hIn) hq
  have hRun :
      Run
        (Guarded
          (fun s op => LeastOk (s.withCurrent op.1) op.2)
          schedStepAs)
        SchedState.ready
        [(none, .fork (some taskA)), (none, .schedule),
          (some taskA, .tick), (some taskA, .schedule),
          (some taskA, .fork (some taskB)),
          (some taskB, .exit (some taskA))] s₆ := by
    refine .cons ⟨trivial, 3, hFork⟩
      (.cons ⟨?_, 3, hSchedule⟩
        (.cons ⟨trivial, 3, hTick⟩
          (.cons ⟨hLeast, 3, hBack⟩
            (.cons ⟨trivial, 3, hSecond⟩
              (.cons ⟨trivial, 3, hExit⟩ (.nil s₆))))))
    intro p hCur
    cases hCur
  exact ⟨s₆, hRun.of_guarded,
    (schedRun_minOk SchedState.ready_started hRun).1⟩

/-
  Two forked tasks with key 0; the first is switched to and
  put back with a larger key, which becomes the minimum.
-/
theorem schedule_loses_minimum :
    ∃ s, Run schedStepAs SchedState.ready
        [(none, .fork (some taskA)), (none, .fork (some taskB)),
          (none, .schedule), (some taskA, .schedule)] s ∧
      ¬ s.MinOk := by
  have hEnd :
      (schedCalls 4 SchedState.ready
        [(none, .fork (some taskA)), (none, .fork (some taskB)),
          (none, .schedule), (some taskA, .schedule)]).map
        (fun s => (s.thisRq.root, s.thisRq.minVruntime,
          (s.task taskB).vruntime)) =
      some (some taskB, 1#64, 0#64) := by
    decide +kernel
  rcases Option.map_eq_some_iff.mp hEnd with
    ⟨s, hCalls, hFacts⟩
  simp only [Prod.mk.injEq] at hFacts
  rcases hFacts with ⟨hRoot, hLeast, hKey⟩
  refine ⟨s, run_of_schedCalls hCalls, ?_⟩
  intro hMin
  have hLe := hMin taskB (.root hRoot)
  rw [hLeast, hKey] at hLe
  revert hLe
  decide

end FeatherOS
