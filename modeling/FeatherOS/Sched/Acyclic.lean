import FeatherOS.Sched.Descents
import FeatherOS.Sched.Divisors

/-
  The loops of the queue operations end.

  A task that is inserted while it is in the tree gets a
  second place, and where the way to it leads past the first
  one the links form a circle. As long as every task that is
  inserted is outside, or is taken out first, the links hold
  a tree, whatever becomes of the keys and of `my_q`.

  Key definitions include:
    * `SchedState.DescentsEnd`
    * `InsertOk`

  Key theorems include:
    * `schedCall_rooted`
    * `schedCall_returns`
    * `schedRun_descentsEnd`
-/

namespace FeatherOS

open LinkedTree

--------------------
-- Links That Lead In No Circle
--------------------

/- One task is a child of another. -/
def SchedState.Child
    (s : SchedState)
    (p q : Addr) : Prop :=
  (s.task p).cfs.left = some q ∨ (s.task p).cfs.right = some q

/-
  No task in the tree is below itself, and the loops of
  `cfs_enqueue`, `cfs_dequeue` and `pick_next_cfs` end.
-/
structure SchedState.DescentsEnd (s : SchedState) : Prop where
  acyclic : ∀ p, s.InTree p →
    ¬ Relation.TransGen s.Child p p
  enqueue : ∀ p, ∃ fuel s',
    cfsEnqueue fuel s thisCpu p = some s'
  dequeue : ∀ p, ∃ fuel s',
    cfsDequeue fuel s thisCpu p = some s'
  pick : ∃ fuel next,
    pickNextCfs fuel s thisCpu = some next

variable {s : SchedState}

theorem SchedState.Rooted.descentsEnd
    {t : TaskTree}
    (hRooted : s.Rooted t) :
    s.DescentsEnd := by
  have hFuel : t.size < t.size + 1 := Nat.lt_succ_self _
  constructor
  · intro p hIn
    rw [inTree_iff hRooted] at hIn
    exact Stored.acyclic hRooted hIn
  · intro p
    exact ⟨_, cfsEnqueue_returns p hRooted hFuel⟩
  · intro p
    exact ⟨_, cfsDequeue_returns p hRooted hFuel⟩
  · exact ⟨_, pickNextCfs_returns hRooted hFuel⟩

--------------------
-- Conditions On A Call
--------------------

/-
  `yield` charges twice; on the way to the place of the first
  key no task tells the two keys apart.
-/
def SchedState.SameWay
    (s : SchedState)
    (p : Addr) : Prop :=
  ∀ q, q ≠ p →
    s.Meets p (chargedVruntime s.clock (s.task p)) q →
      (chargedVruntime s.clock (s.task p) <
          (s.task q).vruntime ↔
        chargedVruntime (s.clock + 1#64)
            ((s.task p).charged s.clock) <
          (s.task q).vruntime)

/- No call inserts a task that stays in the tree. -/
def InsertOk
    (s : SchedState) :
    SchedCall → Prop
  | .fork task => ∀ p, task = some p → ¬ s.InTree p
  | .schedule =>
      ∀ p, s.current = some p → s.Requeues p →
        s.Again p
          (chargedVruntime (s.clock + 1#64) (s.task p))
  | .tick => True
  | .yield =>
      ∀ p, s.current = some p →
        s.Again p (chargedVruntime s.clock (s.task p)) ∧
          ((s.task p).flags &&& tfZombie = 0#32 →
            s.SameWay p)
  | .wakeUpProcess task =>
      ∀ p, task = some p → (s.task p).state.Waits →
        ¬ s.InTree p
  | .scheduleTimeout _ => True
  | .setTaskState task state =>
      ∀ p, task = some p → state = .running → ¬ s.InTree p
  | _ => False

--------------------
-- Schedule
--------------------

section Calls

variable {s s' : SchedState}
variable {t : TaskTree}
variable {p : Addr}
variable {key : U64}
variable {fuel : Nat}

theorem SchedState.Again.congr
    (hAgain : s.Again p key)
    (hCell : ∀ q, s'.cell q = s.cell q)
    (hRoot : s'.thisRq.root = s.thisRq.root)
    (hQ : (s'.task p).cfs.myQ = (s.task p).cfs.myQ) :
    s'.Again p key := by
  rcases hAgain with hOut | ⟨hIn, hMeets⟩
  · left
    intro hIn
    exact hOut (hIn.congr (link_congr hCell hRoot))
  · exact Or.inr ⟨hQ.trans hIn, hMeets.congr hCell hRoot⟩

/- What `schedule` makes of the previous task at first. -/
theorem markReady_rooted
    (hRooted : s.Rooted t) :
    (markReady (updateSchedClock s) p).Rooted t := by
  rw [markReady_eq]
  apply hRooted.congr
  · exact (updateSchedClock s).cell_setState p _
  · rfl

theorem SchedState.Again.marked
    (hAgain : s.Again p
      (chargedVruntime (s.clock + 1#64) (s.task p))) :
    (markReady (updateSchedClock s) p).Again p
      (chargedVruntime (markReady (updateSchedClock s) p).clock
        ((markReady (updateSchedClock s) p).task p)) := by
  rw [markReady_eq]
  have hTask := (updateSchedClock s).task_setState p p
    ((updateSchedClock s).task p).state.afterRunning
  rw [if_pos rfl] at hTask
  generalize ((updateSchedClock s).task p).state.afterRunning =
    state at hTask ⊢
  rw [hTask]
  apply hAgain.congr
  · exact (updateSchedClock s).cell_setState p state
  · rfl
  · rw [hTask]
    rfl

/- The previous task adds at most itself to the tree. -/
theorem putPrev_rooted
    (hRooted : s.Rooted t)
    (hOk : InsertOk s .schedule)
    (hCall :
      putPrev fuel (updateSchedClock s) s.current = some s') :
    ∃ u : TaskTree, s'.Rooted u ∧ u.size ≤ t.size + 1 := by
  cases hCur : s.current with
  | none =>
      rw [hCur] at hCall
      cases hCall
      exact ⟨t, hRooted, Nat.le_succ _⟩
  | some p =>
      rw [hCur] at hCall
      have hMarked := markReady_rooted (p := p) hRooted
      rcases putPrev_split hCall with
        ⟨hBack, hRequeue⟩ | ⟨_, rfl⟩
      · have hAgain := (hOk p hCur hBack).marked
        rcases cfsRequeue_rooted hMarked hAgain hRequeue with
          ⟨c, hIn, _, _, hSize⟩
        exact ⟨_, hIn, hSize⟩
      · exact ⟨t, hMarked, Nat.le_succ _⟩

theorem putPrev_returns
    (hRooted : s.Rooted t)
    (hOk : InsertOk s .schedule)
    (hDivide : 0#64 ∉ scheduleDivisors s)
    (hFuel : t.size < fuel) :
    ∃ s', putPrev fuel (updateSchedClock s) s.current =
      some s' := by
  cases hCur : s.current with
  | none => exact ⟨_, rfl⟩
  | some p =>
      simp only [putPrev]
      split
      next hReady =>
        have hBack : s.Requeues p :=
          (markReady_requeues (updateSchedClock s) p).mp hReady
        have hLoad : (s.task p).cfs.loadWeight ≠ 0#64 := by
          intro hZero
          exact hDivide (mem_scheduleDivisors.mpr
            ⟨p, hCur, hBack, hZero.symm⟩)
        apply cfsRequeue_returns (markReady_rooted hRooted)
          (hOk p hCur hBack).marked _ hFuel
        rw [markReady_eq, SchedState.task_setState, if_pos rfl]
        exact hLoad
      next => exact ⟨_, rfl⟩

theorem schedule_rooted
    (hRooted : s.Rooted t)
    (hOk : InsertOk s .schedule)
    (hCall : schedule fuel s = some s') :
    ∃ u : TaskTree, s'.Rooted u := by
  rcases schedule_split hCall with ⟨s₁, hPut, hNext⟩
  rcases putPrev_rooted hRooted hOk hPut with ⟨u, hMid, _⟩
  have hSwitch := pickAndSwitch_step hNext
  exact ⟨u, hMid.congr hSwitch.cell hSwitch.root⟩

theorem schedule_returns
    (hRooted : s.Rooted t)
    (hOk : InsertOk s .schedule)
    (hDivide : 0#64 ∉ scheduleDivisors s)
    (hFuel : t.size + 1 < fuel) :
    ∃ s', schedule fuel s = some s' := by
  rcases putPrev_returns hRooted hOk hDivide
      (Nat.lt_of_succ_lt hFuel) with
    ⟨s₁, hPut⟩
  rcases putPrev_rooted hRooted hOk hPut with ⟨u, hMid, hSize⟩
  rcases pickNextCfs_returns hMid
      (Nat.lt_of_le_of_lt hSize hFuel) with
    ⟨next, hPick⟩
  simp only [schedule, hPut, pickAndSwitch, hPick,
    Option.bind_eq_bind, Option.bind_some]
  cases next with
  | none => exact ⟨_, rfl⟩
  | some n => exact ⟨_, rfl⟩

--------------------
-- The Other Calls
--------------------

/- A task outside the tree is changed in any way. -/
theorem SchedState.Rooted.congr_out
    (hRooted : s.Rooted t)
    (hOut : p ∉ t.nodes)
    (hTask : ∀ q, q ≠ p → s'.task q = s.task q)
    (hRoot : s'.thisRq.root = s.thisRq.root) :
    s'.Rooted t := by
  refine ⟨hRooted.rep.congr ?_, hRoot.trans hRooted.root_eq,
    hRooted.nodup⟩
  intro q hq
  have hNe : q ≠ p := by
    rintro rfl
    exact hOut hq
  simp only [SchedState.cell, hTask q hNe]

/- The fields of a new task are set before it is inserted. -/
theorem fork_rooted
    (hRooted : s.Rooted t)
    (hOut : p ∉ t.nodes) :
    (placeEntity (s.modifyTask p forkEntity) thisCpu p
      0#64).Rooted t := by
  apply hRooted.congr_out hOut
  · intro q hq
    simp [placeEntity, hq]
  · rfl

theorem ChargeStep.rooted
    (hStep : ChargeStep p s s')
    (hRooted : s.Rooted t) :
    ∃ u : TaskTree, s'.Rooted u := by
  by_cases hIn : p ∈ t.nodes
  · rcases Tree.exists_plug_of_mem hIn with ⟨c, l, d, r, rfl⟩
    exact ⟨_, hStep.stored hRooted⟩
  · exact ⟨t, hStep.stored_out hRooted hIn⟩

theorem schedTick_rooted
    (hRooted : s.Rooted t)
    (hCall : schedTick fuel s = some s') :
    ∃ u : TaskTree, s'.Rooted u := by
  have hClock : (updateSchedClock s).Rooted t := hRooted
  rcases schedTick_split hCall with
    ⟨_, rfl⟩ | ⟨p, s₁, _, rfl, hCase⟩
  · exact ⟨t, hClock⟩
  · have hMid : ∃ u : TaskTree, s₁.Rooted u := by
      rcases hCase with ⟨_, hCharge⟩ | ⟨_, rfl⟩
      · exact (updateCurrCfs_step hCharge).1.rooted hClock
      · exact ⟨t, hClock⟩
    rcases hMid with ⟨u, hMid⟩
    refine ⟨u, hMid.congr ?_ rfl⟩
    exact s₁.cell_modifyTask p
      (fun t => { t with utime := t.utime + 1#64 })
      rfl rfl rfl rfl

theorem schedTick_returns
    (hDivide : 0#64 ∉ tickDivisors s) :
    ∃ s', schedTick fuel s = some s' := by
  cases hCur : s.current with
  | none =>
      have hSame : (updateSchedClock s).current = none := hCur
      simp [schedTick, hSame]
  | some p =>
      suffices hCharge : ∃ s₁,
          tickCurrent fuel (updateSchedClock s) p = some s₁ by
        rcases hCharge with ⟨s₁, hCharge⟩
        exact ⟨_, schedTick_some hCur hCharge⟩
      by_cases hRun :
          ((updateSchedClock s).task p).state = .running
      · have hLoad :
            ((updateSchedClock s).task p).cfs.loadWeight ≠
              0#64 := by
          intro hZero
          exact hDivide (mem_tickDivisors.mpr
            ⟨p, hCur, hRun, Or.inl hZero.symm⟩)
        rcases updateCurrCfs_returns hLoad with ⟨s₁, hUpdate⟩
        have hClock : (updateSchedClock s).counters =
            s.counters := rfl
        have hCount := (updateCurrCfs_counters hUpdate).trans
          hClock
        have hNr : s₁.thisRq.nrRunning = s.thisRq.nrRunning :=
          congrArg Counters.nrRunning hCount
        have hSum : s₁.thisRq.loadWeight =
            s.thisRq.loadWeight :=
          congrArg Counters.loadWeight hCount
        have hSlice : schedSlice s₁ ≠ none := by
          rw [ne_eq, schedSlice_eq_none_iff, hNr, hSum]
          rintro ⟨hSome, hZero⟩
          exact hDivide (mem_tickDivisors.mpr
            ⟨p, hCur, hRun,
              Or.inr ⟨hLoad, hSome, hZero.symm⟩⟩)
        rcases Option.ne_none_iff_exists'.mp hSlice with
          ⟨slice, hSlice⟩
        exact ⟨s₁, tickCurrent_some fuel hRun hUpdate hSlice⟩
      · unfold tickCurrent
        rw [if_neg hRun]
        exact ⟨_, rfl⟩

/- The second half of `yield` puts in again what is found. -/
theorem yield_middle
    (hRooted : s.Rooted t)
    (hOk : InsertOk s .yield)
    (hCur : s.current = some p)
    (hCall : cfsRequeue fuel s thisCpu p = some s') :
    ∃ u : TaskTree, (s'.setState p .ready).Rooted u ∧
      u.size ≤ t.size + 1 ∧
      InsertOk (s'.setState p .ready) .schedule := by
  rcases hOk p hCur with ⟨hAgain, hWay⟩
  have hStep := cfsRequeue_step hCall
  rcases cfsRequeue_rooted hRooted hAgain hCall with
    ⟨c, hIn, hRoom, hMeets, hSize⟩
  have hReady : (s'.setState p .ready).Rooted _ :=
    hIn.congr (s'.cell_setState p .ready) rfl
  refine ⟨_, hReady, hSize, ?_⟩
  intro q hq hBack
  have hNow : (s'.setState p .ready).current = some p :=
    hStep.current.trans hCur
  rw [hNow] at hq
  cases hq
  have hFlags : (s.task p).flags &&& tfZombie = 0#32 := by
    have hMark := hBack.2
    simpa [hStep.flags] using hMark
  have hOut : ∀ f ∈ c, f.ptr ≠ p :=
    fun f hf => (SchedState.frame_key hIn hf).2 p (by simp)
  have hPlace := hStep.admits hIn (by simp)
    (fun f hf => hWay hFlags f.ptr (hOut f hf) (hMeets f hf))
    hRoom
  right
  refine ⟨by simp [hStep.self], ?_⟩
  rw [hStep.nextKey]
  exact (SchedState.Meets.around hReady hPlace hOut).2 p rfl

theorem yield_rooted
    (hRooted : s.Rooted t)
    (hOk : InsertOk s .yield)
    (hCall : yield fuel s = some s') :
    ∃ u : TaskTree, s'.Rooted u := by
  rcases yield_split hCall with
    ⟨_, rfl⟩ | ⟨p, s₁, hCur, hRequeue, hSchedule⟩
  · exact ⟨t, hRooted⟩
  · rcases yield_middle hRooted hOk hCur hRequeue with
      ⟨u, hReady, _, hNext⟩
    exact schedule_rooted hReady hNext hSchedule

theorem yield_returns
    (hRooted : s.Rooted t)
    (hOk : InsertOk s .yield)
    (hDivide : 0#64 ∉ yieldDivisors fuel s)
    (hFuel : t.size + 2 < fuel) :
    ∃ s', yield fuel s = some s' := by
  unfold yield
  unfold yieldDivisors at hDivide
  cases hCur : s.current with
  | none => exact ⟨_, rfl⟩
  | some p =>
      simp only [hCur, List.mem_cons, not_or] at hDivide ⊢
      rcases hDivide with ⟨hLoad, hLater⟩
      rcases cfsRequeue_returns hRooted (hOk p hCur).1
          (Ne.symm hLoad) (Nat.lt_of_add_right_lt hFuel) with
        ⟨s₁, hRequeue⟩
      simp only [hRequeue] at hLater ⊢
      rcases yield_middle hRooted hOk hCur hRequeue with
        ⟨u, hReady, hSize, hNext⟩
      exact schedule_returns hReady hNext hLater (by omega)

/- A task that is set running has not been dequeued. -/
theorem leaveRunning_running
    (fuel : Nat)
    (s : SchedState)
    (p : Addr) :
    leaveRunning fuel s p .running = some s := by
  simp [leaveRunning]

variable {task : Option Addr}

theorem setTaskState_rooted
    {state : TaskState}
    (hRooted : s.Rooted t)
    (hOk : InsertOk s (.setTaskState task state))
    (hCall : setTaskState fuel s task state = some s') :
    ∃ u : TaskTree, s'.Rooted u := by
  cases task with
  | none =>
      cases hCall
      exact ⟨t, hRooted⟩
  | some p =>
      rcases setTaskState_split hCall with
        ⟨hRun, hEnter⟩ | ⟨_, s₁, rfl, hCase⟩
      · have hOut := hOk p rfl hRun
        rw [inTree_iff hRooted] at hOut
        have hMarked : (s.setState p .running).Rooted t :=
          hRooted.congr (s.cell_setState p .running) rfl
        rcases cfsEnqueue_stored hMarked hOut hEnter with
          ⟨c, _, _, hIn⟩
        exact ⟨_, hIn⟩
      · rcases hCase with ⟨_, hLeave⟩ | ⟨_, rfl⟩
        · rcases cfsDequeue_rooted hRooted hLeave with ⟨u, hu, _⟩
          exact ⟨u, hu.congr (s₁.cell_setState p state) rfl⟩
        · exact ⟨t,
            hRooted.congr (s₁.cell_setState p state) rfl⟩

theorem setTaskState_returns
    (task : Option Addr)
    (state : TaskState)
    (hRooted : s.Rooted t)
    (hFuel : t.size < fuel) :
    ∃ s', setTaskState fuel s task state = some s' := by
  cases task with
  | none => exact ⟨s, rfl⟩
  | some p =>
      simp only [setTaskState]
      by_cases hRun : state = .running
      · subst hRun
        have hMarked : (s.setState p .running).Rooted t :=
          hRooted.congr (s.cell_setState p .running) rfl
        simp only [leaveRunning_running, Option.bind_eq_bind,
          Option.bind_some, if_true]
        exact cfsEnqueue_returns p hMarked hFuel
      · have hLeave : ∃ s₁,
            leaveRunning fuel s p state = some s₁ := by
          unfold leaveRunning
          split
          · exact cfsDequeue_returns p hRooted hFuel
          · exact ⟨s, rfl⟩
        rcases hLeave with ⟨s₁, hLeave⟩
        simp [hLeave, hRun]

theorem wakeUpProcess_rooted
    {r : Int}
    (hRooted : s.Rooted t)
    (hOk : InsertOk s (.wakeUpProcess task))
    (hCall : wakeUpProcess fuel s task = some (r, s')) :
    ∃ u : TaskTree, s'.Rooted u := by
  cases task with
  | none =>
      cases hCall
      exact ⟨t, hRooted⟩
  | some p =>
      rcases wakeUpProcess_split hCall with
        ⟨hWaits, hEnter⟩ | ⟨_, rfl⟩
      · have hOut := hOk p rfl hWaits
        rw [inTree_iff hRooted] at hOut
        have hMarked : (s.setState p .ready).Rooted t :=
          hRooted.congr (s.cell_setState p .ready) rfl
        rcases cfsEnqueue_stored hMarked hOut hEnter with
          ⟨c, _, _, hIn⟩
        exact ⟨_, hIn⟩
      · exact ⟨t, hRooted⟩

theorem wakeUpProcess_returns
    (task : Option Addr)
    (hRooted : s.Rooted t)
    (hFuel : t.size < fuel) :
    ∃ r, wakeUpProcess fuel s task = some r := by
  cases task with
  | none => exact ⟨_, rfl⟩
  | some p =>
      simp only [wakeUpProcess]
      split
      · have hMarked : (s.setState p .ready).Rooted t :=
          hRooted.congr (s.cell_setState p .ready) rfl
        rcases cfsEnqueue_returns p hMarked hFuel with
          ⟨s₁, hEnter⟩
        simp [hEnter]
      · exact ⟨_, rfl⟩

/- A task that sleeps is not put in again. -/
theorem sleeping_insertOk
    (hState : ∀ q, s.current = some q →
      (s.task q).state = .sleeping) :
    InsertOk s .schedule := by
  intro q hq hBack
  exact absurd hBack
    (SchedState.not_requeues_of_sleeping (hState q hq))

theorem asleep_rooted
    (hRooted : s.Rooted t)
    (p : Addr)
    (deadline : U64) :
    (s.asleep p deadline).Rooted t :=
  hRooted.congr (s.cell_modifyTask p _ rfl rfl rfl rfl) rfl

theorem scheduleTimeout_rooted
    {ns : U64}
    (hRooted : s.Rooted t)
    (hCall : scheduleTimeout fuel s ns = some s') :
    ∃ u : TaskTree, s'.Rooted u := by
  rcases scheduleTimeout_split hCall with
    ⟨_, rfl⟩ | ⟨p, s₁, _, hLeave, hState, hSchedule⟩
  · exact ⟨t, hRooted⟩
  · rcases cfsDequeue_rooted (asleep_rooted hRooted p _)
        hLeave with
      ⟨u, hu, _⟩
    exact schedule_rooted hu (sleeping_insertOk hState)
      hSchedule

theorem scheduleTimeout_returns
    (ns : U64)
    (hRooted : s.Rooted t)
    (hFuel : t.size + 1 < fuel) :
    ∃ s', scheduleTimeout fuel s ns = some s' := by
  unfold scheduleTimeout
  cases hCur : s.current with
  | none => exact ⟨_, rfl⟩
  | some p =>
      have hAsleep :=
        asleep_rooted hRooted p (s.clock + ns / 1000000#64)
      rcases cfsDequeue_returns p hAsleep
          (Nat.lt_of_succ_lt hFuel) with
        ⟨s₁, hLeave⟩
      have hState := cfsDequeue_asleep hCur hLeave
      rcases cfsDequeue_rooted hAsleep hLeave with
        ⟨u, hu, hSize⟩
      have hLess : u.size + 1 < fuel := by omega
      unfold SchedState.asleep at hLeave
      simp only [hLeave, Option.bind_eq_bind, Option.bind_some]
      apply schedule_returns hu (sleeping_insertOk hState) _
        hLess
      intro hZero
      rcases mem_scheduleDivisors.mp hZero with
        ⟨q, hq, hBack, _⟩
      exact SchedState.not_requeues_of_sleeping (hState q hq)
        hBack

variable {call : SchedCall}

/- One call that meets the condition leaves a tree. -/
theorem schedCall_rooted
    (hRooted : s.Rooted t)
    (hOk : InsertOk s call)
    (hCall : schedCall fuel s call = some s') :
    ∃ u : TaskTree, s'.Rooted u := by
  cases call with
  | fork task =>
      cases task with
      | none =>
          cases hCall
          exact ⟨t, hRooted⟩
      | some p =>
          have hOut := hOk p rfl
          rw [inTree_iff hRooted] at hOut
          rcases cfsEnqueue_stored (fork_rooted hRooted hOut)
              hOut hCall with
            ⟨c, _, _, hIn⟩
          exact ⟨_, hIn⟩
  | schedule => exact schedule_rooted hRooted hOk hCall
  | tick => exact schedTick_rooted hRooted hCall
  | yield => exact yield_rooted hRooted hOk hCall
  | wakeUpProcess task =>
      simp only [schedCall, Option.map_eq_some_iff, Prod.exists,
        exists_eq_right] at hCall
      rcases hCall with ⟨r, hCall⟩
      exact wakeUpProcess_rooted hRooted hOk hCall
  | scheduleTimeout ns =>
      exact scheduleTimeout_rooted hRooted hCall
  | setTaskState task state =>
      exact setTaskState_rooted hRooted hOk hCall
  | _ => exact hOk.elim

/- It returns unless it divides by zero. -/
theorem schedCall_returns
    (hRooted : s.Rooted t)
    (hOk : InsertOk s call)
    (hDivide : ∀ fuel, 0#64 ∉ schedDivisors fuel s call) :
    ∃ s', schedStep s call s' := by
  have hFuel : t.size + 2 < t.size + 3 := Nat.lt_succ_self _
  have hMore : t.size + 1 < t.size + 3 := by omega
  have hLess : t.size < t.size + 3 := by omega
  suffices hCall : ∃ s',
      schedCall (t.size + 3) s call = some s' by
    rcases hCall with ⟨s', hCall⟩
    exact ⟨s', t.size + 3, hCall⟩
  have hNow := hDivide (t.size + 3)
  cases call with
  | fork task =>
      cases task with
      | none => exact ⟨s, rfl⟩
      | some p =>
          have hOut := hOk p rfl
          rw [inTree_iff hRooted] at hOut
          exact cfsEnqueue_returns p (fork_rooted hRooted hOut)
            hLess
  | schedule => exact schedule_returns hRooted hOk hNow hMore
  | tick => exact schedTick_returns hNow
  | yield => exact yield_returns hRooted hOk hNow hFuel
  | wakeUpProcess task =>
      rcases wakeUpProcess_returns task hRooted hLess with
        ⟨r, hCall⟩
      simp [schedCall, hCall]
  | scheduleTimeout ns =>
      exact scheduleTimeout_returns ns hRooted hMore
  | setTaskState task state =>
      exact setTaskState_returns task state hRooted hLess
  | _ => exact hOk.elim

end Calls

--------------------
-- Runs
--------------------

theorem SchedState.Started.rooted
    (hStart : s.Started) :
    s.Rooted .nil := by
  have hQueue : s.Queue False .nil := hStart.queue
  exact hQueue.linked.stored

/-
  Every run whose calls meet the condition: the loops end in
  the state reached, and a further call that meets it returns
  unless it divides by zero.
-/
theorem schedRun_descentsEnd
    {s₀ s : SchedState}
    {ops : List (Option Addr × SchedCall)}
    (hStart : s₀.Started)
    (hRun :
      Run
        (Guarded
          (fun s op => InsertOk (s.withCurrent op.1) op.2)
          schedStepAs)
        s₀ ops s) :
    s.DescentsEnd ∧
      ∀ op : Option Addr × SchedCall,
        InsertOk (s.withCurrent op.1) op.2 →
          (∀ fuel,
            0#64 ∉ schedDivisors fuel
              (s.withCurrent op.1) op.2) →
            ∃ s', schedStepAs s op s' := by
  have hRooted :=
    hRun.invariant (fun s => ∃ t : TaskTree, s.Rooted t)
      (by
        rintro s op s' ⟨t, hRooted⟩ ⟨hOk, fuel, hCall⟩
        have hHere : (s.withCurrent op.1).Rooted t := hRooted
        exact schedCall_rooted hHere hOk hCall)
      ⟨.nil, hStart.rooted⟩
  rcases hRooted with ⟨t, hRooted⟩
  refine ⟨hRooted.descentsEnd, ?_⟩
  intro op hOk hDivide
  have hHere : (s.withCurrent op.1).Rooted t := hRooted
  exact schedCall_returns hHere hOk hDivide

theorem schedRun_descentsEnd_sleep :
    ∃ s, Run schedStepAs SchedState.ready sleepCalls s ∧
      s.DescentsEnd := by
  have hRun :
      Run
        (Guarded
          (fun s op => InsertOk (s.withCurrent op.1) op.2)
          schedStepAs)
        SchedState.ready sleepCalls (sleepState 6) := by
    refine sleepRun_guarded fun n op hOp => ?_
    rcases sleepState_queue hOp with ⟨t, hQueue⟩
    have hLinked := (hQueue.withCurrent op.1).linked
    match n, hOp with
    | 0, rfl =>
        rintro p ⟨⟩
        rw [hLinked.inTree_iff]
        decide +kernel
    | 1, rfl =>
        rintro p ⟨⟩
        rw [hLinked.inTree_iff]
        decide +kernel
    | 2, rfl =>
        intro p hCur
        cases hCur
    | 3, rfl => trivial
    | 4, rfl =>
        rintro p ⟨⟩ _
        rw [hLinked.inTree_iff]
        decide +kernel
    | 5, rfl =>
        rintro p ⟨⟩ _
        exact .inr ⟨by decide +kernel,
          .root (by decide +kernel)⟩
  exact ⟨_, hRun.of_guarded,
    (schedRun_descentsEnd SchedState.ready_started hRun).1⟩

/-
  A forked task is in the tree; when it is set running it is
  inserted again and becomes its own right child.
-/
theorem setTaskState_closes_circle :
    ∃ s, Run schedStepAs SchedState.ready
        [(none, .fork (some taskA)),
          (none, .setTaskState (some taskA) .running)] s ∧
      ¬ s.DescentsEnd := by
  have hEnd :
      (schedCalls 2 SchedState.ready
        [(none, .fork (some taskA)),
          (none, .setTaskState (some taskA) .running)]).map
        (fun s => (s.thisRq.root, (s.task taskA).cfs.right)) =
      some (some taskA, some taskA) := by
    decide +kernel
  rcases Option.map_eq_some_iff.mp hEnd with
    ⟨s, hCalls, hFacts⟩
  simp only [Prod.mk.injEq] at hFacts
  rcases hFacts with ⟨hRoot, hRight⟩
  refine ⟨s, run_of_schedCalls hCalls, ?_⟩
  intro hDescents
  exact hDescents.acyclic taskA (.root hRoot)
    (.single (Or.inr hRight))

end FeatherOS
