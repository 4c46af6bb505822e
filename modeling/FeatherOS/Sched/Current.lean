import FeatherOS.Sched.Invariant

/-
  The current task over whole runs from boot.

  `process_init` makes the idle task the current one, and
  nothing changes that pointer afterwards. The idle task has
  no load weight, so that a charge of it faults; it can only
  be switched away from once it sleeps, and then the pointer
  still names it.

  Key definitions include:
    * `SchedState.CurrentOk`
    * `NoSwitch`
    * `IdleCurrent`
    * `NoCurrent`

  Key theorems include:
    * `schedStep_idle`
    * `schedStep_noCurrent`
    * `schedRun_currentOk_iff`
-/

namespace FeatherOS

open LinkedTree

--------------------
-- The Property
--------------------

/-
  At most one task is marked as running, and the current
  task is the one that was switched to last.
-/
structure SchedState.CurrentOk (s : SchedState) : Prop where
  one : ∀ p q, (s.task p).state = .running →
    (s.task q).state = .running → p = q
  last : ∀ prev next rest, s.switches = (prev, next) :: rest →
    s.current = some next

/- The calls that processes and the timer make. -/
def SchedCall.Plain : SchedCall → Prop
  | .fork _ => True
  | .schedule => True
  | .tick => True
  | .yield => True
  | .scheduleTimeout _ => True
  | _ => False

/- `schedule` finds no task that it could switch to. -/
def NoSwitch
    (s : SchedState) :
    SchedCall → Prop
  | .schedule => s.current = none ∨ s.thisRq.root = none
  | .scheduleTimeout _ =>
      s.current = none ∨ s.thisRq.root = none
  | _ => True

/- `process_init`, then `sched_init`; `block` is the idle task. -/
def SchedState.atBoot
    (task : Addr → Task)
    (block : Option Addr)
    (waitNode : Addr → WaitNode)
    (heap : Heap) :
    SchedState :=
  schedInit
    (SchedState.boot
      (processInit (ProcState.boot task) block).2 waitNode heap)

--------------------
-- Links
--------------------

/- The links of the queue and those out of a set of tasks. -/
def CfsLink.From (forked : Addr → Prop) : CfsLink → Prop
  | .root _ => True
  | .left p => forked p
  | .right p => forked p

/- These links lead to tasks of the set. -/
def SchedState.Leads
    (s : SchedState)
    (forked : Addr → Prop) : Prop :=
  ∀ l q, CfsLink.From forked l → s.link l = some q → forked q

section Links

variable {s s' : SchedState}
variable {forked : Addr → Prop}
variable {p : Addr}
variable {fuel : Nat}

/- One link is written. -/
theorem link_setLink
    (s : SchedState)
    (v : Option Addr)
    (l x : CfsLink) :
    (s.setLink v l).link x = if x = l then v else s.link x := by
  have hOne : Subsingleton (Fin nrCpus) :=
    inferInstanceAs (Subsingleton (Fin 1))
  cases l with
  | root rq =>
      cases x with
      | root rq' =>
          have hEq := Subsingleton.elim rq' rq
          simp [SchedState.setLink, SchedState.link, hEq]
      | left p => rfl
      | right p => rfl
  | left q | right q =>
      cases x with
      | root rq => rfl
      | left p | right p =>
          by_cases hp : p = q
          · simp [SchedState.setLink, SchedState.link, hp]
          · simp [SchedState.setLink, SchedState.link, hp]

/- Links are what cells and the root say. -/
theorem link_congr
    (hCell : ∀ q, s'.cell q = s.cell q)
    (hRoot : s'.thisRq.root = s.thisRq.root)
    (x : CfsLink) :
    s'.link x = s.link x := by
  cases x with
  | root rq =>
      have hOne : Subsingleton (Fin nrCpus) :=
        inferInstanceAs (Subsingleton (Fin 1))
      rw [Subsingleton.elim rq thisCpu]
      exact hRoot
  | left q => exact congrArg Cell.left (hCell q)
  | right q => exact congrArg Cell.right (hCell q)

theorem cfsJoin_link
    (s : SchedState)
    (p : Addr)
    (x : CfsLink) :
    (cfsJoin s thisCpu p).link x = s.link x := by
  rcases s.myQ_eq p with hQ | hQ
  · simp only [cfsJoin, hQ]
    refine link_congr ?_ ?_ x
    · intro q
      by_cases hq : q = p
      · simp [SchedState.cell, hq]
      · simp [SchedState.cell, hq]
    · rfl
  · simp [cfsJoin, hQ]

/-
  The descent ends at an empty link of the queue. Where no key
  is larger, it never turns to the left.
-/
theorem cfsDescend_end
    {m l : CfsLink}
    {par₀ par : Option Addr}
    (hLeads : s.Leads forked)
    (hFrom : m.From forked)
    (hCall : cfsDescend s p fuel m par₀ = some (l, par)) :
    l.From forked ∧ s.link l = none ∧
      ((∀ q, forked q →
        ¬ (s.task p).vruntime < (s.task q).vruntime) →
          (∀ q, m ≠ .left q) → ∀ q, l ≠ .left q) := by
  induction fuel generalizing m par₀ with
  | zero => simp [cfsDescend] at hCall
  | succ fuel ih =>
      simp only [cfsDescend] at hCall
      cases hLink : s.link m with
      | none =>
          simp only [hLink, Option.some.injEq, Prod.mk.injEq]
            at hCall
          rcases hCall with ⟨rfl, _⟩
          exact ⟨hFrom, hLink, fun _ hStart => hStart⟩
      | some q =>
          have hq : forked q := hLeads m q hFrom hLink
          simp only [hLink] at hCall
          by_cases hLt : (s.task p).vruntime < (s.task q).vruntime
          · simp only [hLt, if_true] at hCall
            rcases ih (m := .left q) hq hCall with
              ⟨hEnd, hEmpty, _⟩
            exact ⟨hEnd, hEmpty,
              fun hKeys => absurd hLt (hKeys q hq)⟩
          · simp only [hLt, if_false] at hCall
            rcases ih (m := .right q) hq hCall with
              ⟨hEnd, hEmpty, hRight⟩
            exact ⟨hEnd, hEmpty,
              fun hKeys _ => hRight hKeys (by simp)⟩

/-
  The links after an insertion: the task hangs on a link
  that was empty and has no children.
-/
theorem cfsEnqueue_link
    (hLeads : s.Leads forked)
    (hCall : cfsEnqueue fuel s thisCpu p = some s') :
    ∃ l : CfsLink, l.From forked ∧ s.link l = none ∧
      ((∀ q, forked q →
        ¬ (s.task p).vruntime < (s.task q).vruntime) →
          ∀ q, l ≠ .left q) ∧
      ∀ x, s'.link x =
        if x = l then some p
        else if x = .left p ∨ x = .right p then none
        else s.link x := by
  simp only [cfsEnqueue, Option.bind_eq_bind,
    Option.bind_eq_some_iff, Option.some.injEq, Prod.exists]
    at hCall
  rcases hCall with ⟨l, par, hDescend, rfl⟩
  have hJoin := cfsJoin_link s p
  have hKey : ∀ q, ((cfsJoin s thisCpu p).task q).vruntime =
      (s.task q).vruntime :=
    (cfsJoin_step s p).vruntime
  have hLeads₁ : (cfsJoin s thisCpu p).Leads forked := by
    intro x q hFrom hLink
    rw [hJoin] at hLink
    exact hLeads x q hFrom hLink
  have hRoot : (CfsLink.root thisCpu).From forked := trivial
  rcases cfsDescend_end hLeads₁ hRoot hDescend with
    ⟨hFrom, hEmpty, hRight⟩
  rw [hJoin] at hEmpty
  refine ⟨l, hFrom, hEmpty, ?_, ?_⟩
  · intro hKeys
    refine hRight (fun q hq => ?_) (by simp)
    rw [hKey, hKey]
    exact hKeys q hq
  · intro x
    have hCount : ∀ s₁ : SchedState,
        (cfsAccount s₁ thisCpu p).link x = s₁.link x := by
      intro s₁
      cases x with
      | root rq => simp [cfsAccount, SchedState.link]
      | left q => rfl
      | right q => rfl
    rw [hCount]
    unfold cfsAttach
    rw [link_setLink, ← hJoin]
    by_cases hl : x = l
    · simp [hl]
    · simp only [hl, if_false]
      cases x with
      | root rq => simp [SchedState.link]
      | left q =>
          by_cases hq : q = p
          · simp [SchedState.link, hq]
          · simp [SchedState.link, hq]
      | right q =>
          by_cases hq : q = p
          · simp [SchedState.link, hq]
          · simp [SchedState.link, hq]

/- What `sched_fork` leaves of a task before it is queued. -/
theorem schedFork_eq
    (hCall : schedFork fuel s (some p) = some s') :
    ∃ s₁, cfsEnqueue fuel s₁ thisCpu p = some s' ∧
      (∀ q, q ≠ p → s₁.task q = s.task q) ∧
      (s₁.task p).state = (s.task p).state ∧
      (s₁.task p).vruntime = s.thisRq.minVruntime ∧
      (∀ x, s₁.link x =
        if x = .left p ∨ x = .right p then none
        else s.link x) ∧
      s₁.runQueues = s.runQueues ∧ s₁.current = s.current ∧
      s₁.switches = s.switches := by
  simp only [schedFork] at hCall
  refine ⟨_, hCall, ?_, ?_, ?_, ?_, rfl, rfl, rfl⟩
  · intro q hq
    simp [placeEntity, hq]
  · simp [placeEntity, forkEntity]
  · simp [placeEntity, SchedState.thisRq]
  · intro x
    cases x with
    | root rq => simp [SchedState.link, placeEntity]
    | left q =>
        by_cases hq : q = p
        · simp [SchedState.link, placeEntity, forkEntity, hq]
        · simp [SchedState.link, placeEntity, hq]
    | right q =>
        by_cases hq : q = p
        · simp [SchedState.link, placeEntity, forkEntity, hq]
        · simp [SchedState.link, placeEntity, hq]

/- The links of the queue after a fork. -/
theorem schedFork_leads
    (hLeads : s.Leads forked)
    (hCall : schedFork fuel s (some p) = some s') :
    s'.Leads fun q => q = p ∨ forked q := by
  rcases schedFork_eq hCall with
    ⟨s₁, hEnter, _, _, _, hLink₁, _⟩
  have hLeads₁ : s₁.Leads forked := by
    intro x q hFrom hLink
    rw [hLink₁] at hLink
    by_cases hx : x = .left p ∨ x = .right p
    · simp [hx] at hLink
    · rw [if_neg hx] at hLink
      exact hLeads x q hFrom hLink
  rcases cfsEnqueue_link hLeads₁ hEnter with
    ⟨l, _, _, _, hLink'⟩
  intro x q hFrom hLink
  rw [hLink'] at hLink
  by_cases hl : x = l
  · rw [if_pos hl] at hLink
    exact Or.inl (Option.some.inj hLink).symm
  · rw [if_neg hl] at hLink
    by_cases hx : x = .left p ∨ x = .right p
    · simp [hx] at hLink
    · rw [if_neg hx] at hLink
      right
      apply hLeads₁ x q _ hLink
      cases x with
      | root rq => trivial
      | left y =>
          rcases hFrom with rfl | hOld
          · exact absurd (Or.inl rfl) hx
          · exact hOld
      | right y =>
          rcases hFrom with rfl | hOld
          · exact absurd (Or.inr rfl) hx
          · exact hOld

/- The leftmost task is one of the queue. -/
theorem cfsLeftmost_mem
    {n : Addr}
    (hLeads : s.Leads forked)
    (hp : forked p)
    (hCall : cfsLeftmost s fuel p = some n) :
    forked n := by
  induction fuel generalizing p with
  | zero => simp [cfsLeftmost] at hCall
  | succ fuel ih =>
      simp only [cfsLeftmost] at hCall
      cases hLeft : (s.task p).cfs.left with
      | none =>
          simp only [hLeft, Option.some.injEq] at hCall
          exact hCall ▸ hp
      | some q =>
          simp only [hLeft] at hCall
          exact ih (hLeads (.left p) q hp hLeft) hCall

/- What `schedule` switches to. -/
theorem pickAndSwitch_split
    {prev : Option Addr}
    (hCall : pickAndSwitch fuel s prev = some s') :
    (s.thisRq.root = none ∧
      s' = switchNext { s with idleCalls := s.idleCalls + 1#64 }
        prev s.thisRq.idleTask) ∨
    ∃ r n, s.thisRq.root = some r ∧
      cfsLeftmost s fuel r = some n ∧
      s' = switchNext s prev (some n) := by
  simp only [pickAndSwitch, Option.bind_eq_bind,
    Option.bind_eq_some_iff] at hCall
  rcases hCall with ⟨next, hPick, hCall⟩
  unfold pickNextCfs at hPick
  have hRoot : (s.runQueues thisCpu).root = s.thisRq.root := rfl
  cases hTop : s.thisRq.root with
  | none =>
      rw [hRoot, hTop] at hPick
      cases hPick
      simp only [Option.some.injEq] at hCall
      exact Or.inl ⟨rfl, hCall.symm⟩
  | some r =>
      rw [hRoot, hTop] at hPick
      simp only [Option.map_eq_some_iff] at hPick
      rcases hPick with ⟨n, hLeft, rfl⟩
      simp only [Option.some.injEq] at hCall
      exact Or.inr ⟨r, n, rfl, hLeft, hCall.symm⟩

end Links

--------------------
-- The Idle Task As The Current One
--------------------

/- The idle task is current, weighs nothing and is not queued. -/
structure IdleCurrent
    (idle : Addr)
    (s : SchedState) : Prop where
  current : s.current = some idle
  load : (s.task idle).cfs.loadWeight = 0#64
  out : (s.task idle).cfs.myQ = none
  idleTask : s.thisRq.idleTask = none
  leads : ∃ forked, s.Leads forked ∧ ¬ forked idle

/- No switch, and the marks of all other tasks stay. -/
structure Unswitched
    (idle : Addr)
    (s s' : SchedState) : Prop where
  switches : s'.switches = s.switches
  state : ∀ q, q ≠ idle →
    (s'.task q).state = (s.task q).state

/- A switch away from the idle task. -/
def Switched
    (idle : Addr)
    (s s' : SchedState) : Prop :=
  ∃ next, next ≠ idle ∧
    s'.switches = (idle, next) :: s.switches

variable {call : SchedCall}

section Idle

variable {idle p : Addr}
variable {s s' : SchedState}
variable {fuel : Nat}

theorem IdleCurrent.congr
    (hIdle : IdleCurrent idle s)
    (hCurrent : s'.current = s.current)
    (hLoad : (s'.task idle).cfs.loadWeight =
      (s.task idle).cfs.loadWeight)
    (hQ : (s'.task idle).cfs.myQ = (s.task idle).cfs.myQ)
    (hTask : s'.thisRq.idleTask = s.thisRq.idleTask)
    (hLink : ∀ x, s'.link x = s.link x) :
    IdleCurrent idle s' where
  current := hCurrent.trans hIdle.current
  load := hLoad.trans hIdle.load
  out := hQ.trans hIdle.out
  idleTask := hTask.trans hIdle.idleTask
  leads := by
    rcases hIdle.leads with ⟨forked, hLeads, hOut⟩
    refine ⟨forked, ?_, hOut⟩
    intro l q hFrom hTo
    rw [hLink] at hTo
    exact hLeads l q hFrom hTo

/- A charge of the idle task divides by zero. -/
theorem IdleCurrent.not_requeue
    (hIdle : IdleCurrent idle s) :
    cfsRequeue fuel s thisCpu idle ≠ some s' := by
  intro hCall
  exact (cfsRequeue_step hCall).nonzero hIdle.load

/- Changing the idle task but for its place and its key. -/
theorem IdleCurrent.modifyTask
    (hIdle : IdleCurrent idle s)
    (f : Task → Task)
    (hKeep : ∀ t, (f t).cfs = t.cfs ∧
      (f t).vruntime = t.vruntime) :
    IdleCurrent idle (s.modifyTask idle f) ∧
      Unswitched idle s (s.modifyTask idle f) := by
  have hCurrent :
      (s.modifyTask idle f).current = s.current := rfl
  constructor
  · refine hIdle.congr hCurrent ?_ ?_ rfl ?_
    · simp [(hKeep _).1]
    · simp [(hKeep _).1]
    · intro x
      have hRoot :
          (s.modifyTask idle f).thisRq.root = s.thisRq.root := rfl
      refine link_congr ?_ hRoot x
      intro q
      by_cases hq : q = idle
      · simp [SchedState.cell, hq, hKeep]
      · simp [SchedState.cell, hq]
  · refine ⟨rfl, ?_⟩
    intro q hq
    simp [hq]

theorem IdleCurrent.setState
    (hIdle : IdleCurrent idle s)
    (state : TaskState) :
    IdleCurrent idle (s.setState idle state) :=
  (hIdle.modifyTask (fun t => { t with state := state })
    fun _ => ⟨rfl, rfl⟩).1

theorem IdleCurrent.tick
    (hIdle : IdleCurrent idle s) :
    IdleCurrent idle (updateSchedClock s) :=
  hIdle.congr rfl rfl rfl rfl fun x =>
    link_congr (fun _ => rfl) rfl x

theorem pickAndSwitch_idle
    (hIdle : IdleCurrent idle s)
    (hCall : pickAndSwitch fuel s (some idle) = some s') :
    IdleCurrent idle s' ∧
      (s.thisRq.root = none ∧ Unswitched idle s s' ∨
        s.thisRq.root ≠ none ∧ Switched idle s s') := by
  have hStep := pickAndSwitch_step hCall
  have hLink := link_congr hStep.cell hStep.root
  rcases pickAndSwitch_split hCall with
    ⟨hRoot, hEq⟩ | ⟨r, n, hRoot, hLeft, hEq⟩
  · rw [hIdle.idleTask] at hEq
    simp only [switchNext, reduceCtorEq, if_false] at hEq
    subst hEq
    exact ⟨hIdle.congr rfl rfl rfl rfl hLink,
      Or.inl ⟨hRoot, rfl, fun _ _ => rfl⟩⟩
  · rcases hIdle.leads with ⟨forked, hLeads, hOut⟩
    have hn : forked n :=
      cfsLeftmost_mem hLeads
        (hLeads (.root thisCpu) r trivial hRoot) hLeft
    have hNe : n ≠ idle := by
      rintro rfl
      exact hOut hn
    have hSome : ¬ some n = some idle := by simpa using hNe
    simp only [switchNext, hSome, if_false] at hEq
    have hOwn : s'.task idle = s.task idle := by
      rw [hEq]
      have hTask := SchedState.task_modifyTask
        { s with totalSwitches := s.totalSwitches + 1#64 } n idle
        fun t =>
          { t with
            cfs := { t.cfs with execStart := s.clock }
            state := .running }
      rw [if_neg hNe.symm] at hTask
      exact hTask
    refine ⟨hIdle.congr hStep.current ?_ ?_ hStep.idleTask hLink,
      Or.inr ⟨by simp [hRoot], n, hNe, ?_⟩⟩
    · rw [hOwn]
    · rw [hOwn]
    · rw [hEq]
      rfl

theorem schedule_idle
    (hIdle : IdleCurrent idle s)
    (hCall : schedule fuel s = some s') :
    IdleCurrent idle s' ∧
      (s.thisRq.root = none ∧ Unswitched idle s s' ∨
        s.thisRq.root ≠ none ∧ Switched idle s s') := by
  rcases schedule_split hCall with ⟨s₁, hPut, hNext⟩
  have hClock := hIdle.tick
  rw [hIdle.current] at hPut hNext
  rcases putPrev_split hPut with ⟨_, hRequeue⟩ | ⟨_, rfl⟩
  · rw [markReady_eq] at hRequeue
    exact absurd hRequeue (hClock.setState _).not_requeue
  · rw [markReady_eq] at hNext
    rcases pickAndSwitch_idle (hClock.setState _) hNext with
      ⟨hIdle', hRest⟩
    refine ⟨hIdle', ?_⟩
    rcases hRest with ⟨hRoot, hStay⟩ | ⟨hRoot, hMove⟩
    · refine Or.inl ⟨hRoot, hStay.switches, ?_⟩
      intro q hq
      rw [hStay.state q hq]
      simp only [SchedState.task_setState, hq, if_false]
      rfl
    · exact Or.inr ⟨hRoot, hMove⟩

/- A running idle task cannot be charged; else only time goes. -/
theorem schedTick_idle
    (hIdle : IdleCurrent idle s)
    (hCall : schedTick fuel s = some s') :
    IdleCurrent idle s' ∧ Unswitched idle s s' := by
  rcases schedTick_split hCall with
    ⟨hNone, _⟩ | ⟨p, s₁, hCur, rfl, hCase⟩
  · rw [hIdle.current] at hNone
    cases hNone
  · rw [hIdle.current] at hCur
    cases hCur
    rcases hCase with ⟨_, hCharge⟩ | ⟨_, rfl⟩
    · exact absurd hIdle.load (updateCurrCfs_step hCharge).2
    · rcases hIdle.tick.modifyTask
          (fun t => { t with utime := t.utime + 1#64 })
          (fun _ => ⟨rfl, rfl⟩) with
        ⟨hIdle', hStay⟩
      refine ⟨⟨hIdle'.current, hIdle'.load, hIdle'.out,
        hIdle'.idleTask, hIdle'.leads⟩, hStay.switches, ?_⟩
      intro q hq
      exact hStay.state q hq

theorem scheduleTimeout_idle
    {ns : U64}
    (hIdle : IdleCurrent idle s)
    (hCall : scheduleTimeout fuel s ns = some s') :
    IdleCurrent idle s' ∧
      (s.thisRq.root = none ∧ Unswitched idle s s' ∨
        s.thisRq.root ≠ none ∧ Switched idle s s') := by
  rcases scheduleTimeout_split hCall with
    ⟨hNone, _⟩ | ⟨p, s₁, hCur, hLeave, _, hSchedule⟩
  · rw [hIdle.current] at hNone
    cases hNone
  · rw [hIdle.current] at hCur
    cases hCur
    rcases hIdle.modifyTask
        (fun t =>
          { t with
            sleepDeadline := s.clock + ns / 1000000#64
            state := .sleeping })
        (fun _ => ⟨rfl, rfl⟩) with
      ⟨hAsleep, hStay⟩
    have hEq := cfsDequeue_out hAsleep.out hLeave
    subst hEq
    rcases schedule_idle hAsleep hSchedule with
      ⟨hIdle', ⟨hRoot, hStay'⟩ | ⟨hRoot, hMove⟩⟩
    · refine ⟨hIdle', Or.inl ⟨hRoot, hStay'.switches, ?_⟩⟩
      intro q hq
      rw [hStay'.state q hq]
      exact hStay.state q hq
    · exact ⟨hIdle', Or.inr ⟨hRoot, hMove⟩⟩

/- A call of `schedule` switches unless the tree is empty. -/
theorem IdleCurrent.noSwitch_cases
    (hIdle : IdleCurrent idle s)
    (hAfter : IdleCurrent idle s' ∧
      (s.thisRq.root = none ∧ Unswitched idle s s' ∨
        s.thisRq.root ≠ none ∧ Switched idle s s')) :
    IdleCurrent idle s' ∧
      ((s.current = none ∨ s.thisRq.root = none) ∧
          Unswitched idle s s' ∨
        ¬ (s.current = none ∨ s.thisRq.root = none) ∧
          Switched idle s s') := by
  rcases hAfter with
    ⟨hIdle', ⟨hRoot, hStay⟩ | ⟨hRoot, hMove⟩⟩
  · exact ⟨hIdle', Or.inl ⟨Or.inr hRoot, hStay⟩⟩
  · refine ⟨hIdle', Or.inr ⟨?_, hMove⟩⟩
    rintro (hNone | hEmpty)
    · rw [hIdle.current] at hNone
      cases hNone
    · exact hRoot hEmpty

/- One call while the idle task is the current one. -/
theorem schedStep_idle
    (hIdle : IdleCurrent idle s)
    (hPlain : call.Plain)
    (hNew : ∀ p, call = .fork (some p) → p ≠ idle)
    (hStep : schedStep s call s') :
    IdleCurrent idle s' ∧
      (NoSwitch s call ∧ Unswitched idle s s' ∨
        ¬ NoSwitch s call ∧ Switched idle s s') := by
  rcases hStep with ⟨fuel, hCall⟩
  have hSame : Unswitched idle s s := ⟨rfl, fun _ _ => rfl⟩
  cases call with
  | fork task =>
      cases task with
      | none =>
          have hEq : s = s' := Option.some.inj hCall
          subst hEq
          exact ⟨hIdle, Or.inl ⟨trivial, hSame⟩⟩
      | some p =>
          have hNe := hNew p rfl
          rcases hIdle.leads with ⟨forked, hLeads, hOut⟩
          have hLeads' := schedFork_leads hLeads hCall
          rcases schedFork_eq hCall with
            ⟨s₁, hEnter, hOther, hState, _, _, hRq, hCur, hSw⟩
          have hStep := cfsEnqueue_step hEnter
          have hRq' : s₁.thisRq = s.thisRq :=
            congrFun hRq thisCpu
          refine ⟨⟨?_, ?_, ?_, ?_, _, hLeads', ?_⟩,
            Or.inl ⟨trivial, ?_, ?_⟩⟩
          · rw [hStep.current, hCur, hIdle.current]
          · rw [hStep.loadWeight, hOther idle hNe.symm,
              hIdle.load]
          · rw [hStep.other idle hNe.symm,
              hOther idle hNe.symm, hIdle.out]
          · rw [hStep.idleTask, hRq', hIdle.idleTask]
          · rintro (hEq | hOld)
            · exact hNe hEq.symm
            · exact hOut hOld
          · rw [hStep.switches, hSw]
          · intro q _
            rw [hStep.state]
            by_cases hq : q = p
            · rw [hq, hState]
            · rw [hOther q hq]
  | schedule =>
      exact hIdle.noSwitch_cases (schedule_idle hIdle hCall)
  | tick =>
      refine ⟨?_, Or.inl ⟨trivial, ?_⟩⟩
      · exact (schedTick_idle hIdle hCall).1
      · exact (schedTick_idle hIdle hCall).2
  | yield =>
      have hRun : yield fuel s = some s' := hCall
      rcases yield_split hRun with
        ⟨hNone, _⟩ | ⟨p, s₁, hCur, hRequeue, _⟩
      · rw [hIdle.current] at hNone
        cases hNone
      · rw [hIdle.current] at hCur
        cases hCur
        exact absurd hRequeue hIdle.not_requeue
  | scheduleTimeout ns =>
      exact hIdle.noSwitch_cases (scheduleTimeout_idle hIdle hCall)
  | wakeUpProcess task => exact hPlain.elim
  | setTaskState task state => exact hPlain.elim
  | nice increment => exact hPlain.elim
  | exit task => exact hPlain.elim
  | addToWaitQueue wq task => exact hPlain.elim
  | wakeUp wq => exact hPlain.elim

end Idle

--------------------
-- No Current Task
--------------------

/-
  Where `process_init` got no record there is no current
  task. Nothing is ever charged, all keys are zero and the
  root stays the leftmost task.
-/
structure NoCurrent (s : SchedState) : Prop where
  current : s.current = none
  switches : s.switches = []
  idleTask : s.thisRq.idleTask = none
  minimum : s.thisRq.minVruntime = 0#64
  leads : ∃ forked, s.Leads forked ∧
    ∀ q, forked q → (s.task q).vruntime = 0#64
  rootLeft : ∀ r, s.thisRq.root = some r →
    s.link (.left r) = none
  running : ∀ q, (s.task q).state = .running →
    s.thisRq.root = some q

variable {s s' : SchedState}

theorem NoCurrent.currentOk
    (hNone : NoCurrent s) :
    s.CurrentOk where
  one p q hp hq := by
    have hRoot := hNone.running p hp
    rw [hNone.running q hq] at hRoot
    exact (Option.some.inj hRoot).symm
  last prev next rest hSwitch := by
    rw [hNone.switches] at hSwitch
    cases hSwitch

variable {fuel : Nat}
variable {p : Addr}

/- A task with key zero leaves the minimum at zero. -/
theorem cfsEnqueue_minimum
    (hKey : (s.task p).vruntime = 0#64)
    (hMin : s.thisRq.minVruntime = 0#64)
    (hCall : cfsEnqueue fuel s thisCpu p = some s') :
    s'.thisRq.minVruntime = 0#64 := by
  have hLeast :=
    congrArg CfsRq.minVruntime (cfsEnqueue_rq hCall)
  apply hLeast.trans
  simp [CfsRq.entered, CfsRq.rootless, hMin, hKey]

theorem schedFork_noCurrent
    (hNone : NoCurrent s)
    (hCall : schedFork fuel s (some p) = some s') :
    NoCurrent s' := by
  rcases hNone.leads with ⟨forked, hLeads, hZero⟩
  have hLeads' := schedFork_leads hLeads hCall
  rcases schedFork_eq hCall with
    ⟨s₁, hEnter, hOther, hState, hKey, hLink₁, hRq, hCur, hSw⟩
  have hStep := cfsEnqueue_step hEnter
  have hRq' : s₁.thisRq = s.thisRq := congrFun hRq thisCpu
  have hKey' : (s₁.task p).vruntime = 0#64 :=
    hKey.trans hNone.minimum
  have hLeads₁ : s₁.Leads forked := by
    intro x q hFrom hTo
    rw [hLink₁] at hTo
    by_cases hx : x = .left p ∨ x = .right p
    · simp [hx] at hTo
    · rw [if_neg hx] at hTo
      exact hLeads x q hFrom hTo
  rcases cfsEnqueue_link hLeads₁ hEnter with
    ⟨l, _, hEmpty, hRight, hLink⟩
  have hNotLeft : ∀ q, l ≠ .left q := by
    apply hRight
    intro q hq
    have hKeyQ : (s₁.task q).vruntime = 0#64 := by
      by_cases hqp : q = p
      · rw [hqp, hKey']
      · rw [hOther q hqp, hZero q hq]
    rw [hKey', hKeyQ]
    exact BitVec.lt_irrefl _
  have hRoot : s'.thisRq.root =
      if CfsLink.root thisCpu = l then some p
      else s.thisRq.root := by
    have hTop := hLink (.root thisCpu)
    rw [hLink₁] at hTop
    simp only [reduceCtorEq, or_self, if_false] at hTop
    exact hTop
  have hState' : ∀ q,
      (s'.task q).state = (s.task q).state := by
    intro q
    rw [hStep.state]
    by_cases hq : q = p
    · rw [hq, hState]
    · rw [hOther q hq]
  refine ⟨?_, ?_, ?_, ?_, ⟨_, hLeads', ?_⟩, ?_, ?_⟩
  · rw [hStep.current, hCur, hNone.current]
  · rw [hStep.switches, hSw, hNone.switches]
  · rw [hStep.idleTask, hRq', hNone.idleTask]
  · apply cfsEnqueue_minimum hKey' _ hEnter
    rw [hRq', hNone.minimum]
  · intro q hq
    rw [hStep.vruntime]
    by_cases hqp : q = p
    · rw [hqp, hKey']
    · rw [hOther q hqp]
      rcases hq with hEq | hOld
      · exact absurd hEq hqp
      · exact hZero q hOld
  · intro r hr
    rw [hLink, if_neg (hNotLeft r).symm]
    by_cases hrp : r = p
    · simp [hrp]
    · simp only [CfsLink.left.injEq, hrp, reduceCtorEq, or_self,
        if_false, hLink₁]
      by_cases hl : CfsLink.root thisCpu = l
      · rw [hRoot, if_pos hl] at hr
        exact absurd (Option.some.inj hr).symm hrp
      · rw [hRoot, if_neg hl] at hr
        exact hNone.rootLeft r hr
  · intro q hq
    rw [hState'] at hq
    have hOld := hNone.running q hq
    rw [hRoot]
    by_cases hl : CfsLink.root thisCpu = l
    · rw [← hl, hLink₁] at hEmpty
      simp only [reduceCtorEq, or_self, if_false] at hEmpty
      have hFree : s.thisRq.root = none := hEmpty
      rw [hFree] at hOld
      cases hOld
    · rw [if_neg hl, hOld]

theorem schedule_noCurrent
    (hNone : NoCurrent s)
    (hCall : schedule fuel s = some s') :
    NoCurrent s' := by
  rcases schedule_split hCall with ⟨s₁, hPut, hNext⟩
  rw [hNone.current] at hPut hNext
  have hEq₁ : updateSchedClock s = s₁ := Option.some.inj hPut
  have hClock : NoCurrent s₁ := by
    subst hEq₁
    exact ⟨hNone.current, hNone.switches, hNone.idleTask,
      hNone.minimum, hNone.leads, hNone.rootLeft, hNone.running⟩
  have hStep := pickAndSwitch_step hNext
  have hLink := link_congr hStep.cell hStep.root
  rcases pickAndSwitch_split hNext with
    ⟨_, hEq⟩ | ⟨r, n, hRoot, hLeft, hEq⟩
  · rw [hClock.idleTask] at hEq
    simp only [switchNext, if_true] at hEq
    subst hEq
    exact ⟨hClock.current, hClock.switches, hClock.idleTask,
      hClock.minimum, hClock.leads, hClock.rootLeft,
      hClock.running⟩
  · have hrn : n = r := by
      have hEnd := hClock.rootLeft r hRoot
      cases fuel with
      | zero => simp [cfsLeftmost] at hLeft
      | succ fuel =>
          have hNoLeft : (s₁.task r).cfs.left = none := hEnd
          simp only [cfsLeftmost, hNoLeft, Option.some.injEq]
            at hLeft
          exact hLeft.symm
    subst hrn
    simp only [switchNext, reduceCtorEq, if_false] at hEq
    rcases hClock.leads with ⟨forked, hLeads, hZero⟩
    refine ⟨hStep.current.trans hClock.current, ?_,
      hStep.idleTask.trans hClock.idleTask, ?_,
      ⟨forked, ?_, ?_⟩, ?_, ?_⟩
    · rw [hEq]
      exact hClock.switches
    · rw [hEq]
      exact hClock.minimum
    · intro x q hFrom hTo
      rw [hLink] at hTo
      exact hLeads x q hFrom hTo
    · intro q hq
      have hKey := congrArg Cell.data (hStep.cell q)
      exact hKey.trans (hZero q hq)
    · intro q hq
      rw [hStep.root] at hq
      rw [hLink]
      exact hClock.rootLeft q hq
    · intro q hq
      rw [hStep.root]
      by_cases hqn : q = n
      · rw [hqn, hRoot]
      · apply hClock.running q
        have hTask := SchedState.task_modifyTask
          { s₁ with totalSwitches := s₁.totalSwitches + 1#64 } n
          q fun t =>
            { t with
              cfs := { t.cfs with execStart := s₁.clock }
              state := .running }
        rw [if_neg hqn] at hTask
        rw [hEq] at hq
        exact (congrArg Task.state hTask).symm.trans hq

/- One call while there is no current task. -/
theorem schedStep_noCurrent
    (hNone : NoCurrent s)
    (hPlain : call.Plain)
    (hStep : schedStep s call s') :
    NoCurrent s' := by
  rcases hStep with ⟨fuel, hCall⟩
  cases call with
  | fork task =>
      cases task with
      | none =>
          have hEq : s = s' := Option.some.inj hCall
          exact hEq ▸ hNone
      | some p => exact schedFork_noCurrent hNone hCall
  | schedule => exact schedule_noCurrent hNone hCall
  | tick =>
      have hTick : schedTick fuel s = some s' := hCall
      have hSame : (updateSchedClock s).current = none :=
        hNone.current
      simp only [schedTick, hSame, Option.some.injEq] at hTick
      subst hTick
      exact ⟨hNone.current, hNone.switches, hNone.idleTask,
        hNone.minimum, hNone.leads, hNone.rootLeft,
        hNone.running⟩
  | yield =>
      have hYield : yield fuel s = some s' := hCall
      simp only [yield, hNone.current, Option.some.injEq]
        at hYield
      exact hYield ▸ hNone
  | scheduleTimeout ns =>
      have hSleep : scheduleTimeout fuel s ns = some s' := hCall
      simp only [scheduleTimeout, hNone.current,
        Option.some.injEq] at hSleep
      exact hSleep ▸ hNone
  | wakeUpProcess task => exact hPlain.elim
  | setTaskState task state => exact hPlain.elim
  | nice increment => exact hPlain.elim
  | exit task => exact hPlain.elim
  | addToWaitQueue wq task => exact hPlain.elim
  | wakeUp wq => exact hPlain.elim

--------------------
-- Runs From Boot
--------------------

/- Nothing has been switched to, and only idle may run. -/
structure NotSwitched
    (idle : Addr)
    (s : SchedState) : Prop where
  current : IdleCurrent idle s
  switches : s.switches = []
  state : ∀ q, q ≠ idle → (s.task q).state ≠ .running

/- The current task is not the one that was switched to. -/
structure Misled
    (idle : Addr)
    (s : SchedState) : Prop where
  current : IdleCurrent idle s
  wrong : ∃ next rest, next ≠ idle ∧
    s.switches = (idle, next) :: rest

section Runs

variable {idle : Addr}
variable {s s' : SchedState}
variable {ops : List SchedCall}

theorem NotSwitched.currentOk
    (hNot : NotSwitched idle s) :
    s.CurrentOk where
  one p q hp hq := by
    have hOnly : ∀ x, (s.task x).state = .running → x = idle := by
      intro x hx
      by_contra hNe
      exact hNot.state x hNe hx
    rw [hOnly p hp, hOnly q hq]
  last prev next rest hSwitch := by
    rw [hNot.switches] at hSwitch
    cases hSwitch

theorem Misled.not_currentOk
    (hMisled : Misled idle s) :
    ¬ s.CurrentOk := by
  rcases hMisled.wrong with ⟨next, rest, hNe, hSwitch⟩
  intro hOk
  have hLast := hOk.last idle next rest hSwitch
  rw [hMisled.current.current] at hLast
  exact hNe (Option.some.inj hLast).symm

/- A switch away from idle is never mended. -/
theorem Misled.run
    (hMisled : Misled idle s)
    (hPlain : ∀ call ∈ ops, call.Plain)
    (hNew : ∀ p, .fork (some p) ∈ ops → p ≠ idle)
    (hRun : Run schedStep s ops s') :
    Misled idle s' := by
  induction hRun with
  | nil s => exact hMisled
  | @cons s t s' call ops hStep _ ih =>
      have hCall := schedStep_idle hMisled.current
        (hPlain call (by simp))
        (fun p hEq => hNew p (by simp [hEq])) hStep
      apply ih _ (fun c hc => hPlain c (by simp [hc]))
        (fun p hp => hNew p (by simp [hp]))
      refine ⟨hCall.1, ?_⟩
      rcases hCall.2 with ⟨_, hStay⟩ | ⟨_, next, hNe, hSwitch⟩
      · rw [hStay.switches]
        exact hMisled.wrong
      · exact ⟨next, s.switches, hNe, hSwitch⟩

/-
  From a state without a switch: the current task is right
  in the end exactly if no call could switch.
-/
theorem NotSwitched.run_iff
    (hNot : NotSwitched idle s)
    (hPlain : ∀ call ∈ ops, call.Plain)
    (hNew : ∀ p, .fork (some p) ∈ ops → p ≠ idle)
    (hRun : Run schedStep s ops s') :
    s'.CurrentOk ↔ Run (Guarded NoSwitch schedStep) s ops s' := by
  have hStay : ∀ {s t : SchedState} {call : SchedCall},
      NotSwitched idle s → Unswitched idle s t →
        IdleCurrent idle t → NotSwitched idle t := by
    intro s t call hNot hSame hIdle
    refine ⟨hIdle, hSame.switches.trans hNot.switches, ?_⟩
    intro q hq
    rw [hSame.state q hq]
    exact hNot.state q hq
  constructor
  · intro hOk
    induction hRun with
    | nil s => exact .nil s
    | @cons s t s' call ops hStep hRest ih =>
        have hCall := schedStep_idle hNot.current
          (hPlain call (by simp))
          (fun p hEq => hNew p (by simp [hEq])) hStep
        have hPlain' : ∀ c ∈ ops, c.Plain :=
          fun c hc => hPlain c (by simp [hc])
        have hNew' : ∀ p, .fork (some p) ∈ ops → p ≠ idle :=
          fun p hp => hNew p (by simp [hp])
        rcases hCall.2 with
          ⟨hQuiet, hSame⟩ | ⟨_, next, hNe, hSwitch⟩
        · have hNot' := @hStay s t call hNot hSame hCall.1
          exact .cons ⟨hQuiet, hStep⟩
            (ih hNot' hPlain' hNew' hOk)
        · have hMisled : Misled idle t :=
            ⟨hCall.1, next, s.switches, hNe, hSwitch⟩
          exact absurd hOk
            (hMisled.run hPlain' hNew' hRest).not_currentOk
  · intro hGuarded
    suffices hEnd : NotSwitched idle s' from hEnd.currentOk
    induction hGuarded with
    | nil s => exact hNot
    | @cons s t s' call ops hStep hRest ih =>
        have hCall := schedStep_idle hNot.current
          (hPlain call (by simp))
          (fun p hEq => hNew p (by simp [hEq])) hStep.2
        rcases hCall.2 with ⟨_, hSame⟩ | ⟨hNoisy, _⟩
        · exact ih (@hStay s t call hNot hSame hCall.1)
            (fun c hc => hPlain c (by simp [hc]))
            (fun p hp => hNew p (by simp [hp])) hRest.of_guarded
        · exact absurd hStep.1 hNoisy

/- Without a current task no call can switch. -/
theorem NoCurrent.run_iff
    (hNone : NoCurrent s)
    (hPlain : ∀ call ∈ ops, call.Plain)
    (hRun : Run schedStep s ops s') :
    s'.CurrentOk ↔ Run (Guarded NoSwitch schedStep) s ops s' := by
  have hQuiet : ∀ {s : SchedState} (call : SchedCall),
      NoCurrent s → NoSwitch s call := by
    intro s call hNone
    cases call with
    | schedule => exact Or.inl hNone.current
    | scheduleTimeout ns => exact Or.inl hNone.current
    | _ => trivial
  suffices hBoth : NoCurrent s' ∧
      Run (Guarded NoSwitch schedStep) s ops s' by
    exact ⟨fun _ => hBoth.2, fun _ => hBoth.1.currentOk⟩
  induction hRun with
  | nil s => exact ⟨hNone, .nil s⟩
  | @cons s t s' call ops hStep hRest ih =>
      have hNext :=
        schedStep_noCurrent hNone (hPlain call (by simp)) hStep
      have hIh := ih hNext fun c hc => hPlain c (by simp [hc])
      exact ⟨hIh.1, .cons ⟨hQuiet call hNone, hStep⟩ hIh.2⟩

variable {task : Addr → Task}

theorem atBoot_notSwitched
    (hQuiet : ∀ p, (task p).state ≠ .running)
    (idle : Addr)
    (waitNode : Addr → WaitNode)
    (heap : Heap) :
    NotSwitched idle
      (SchedState.atBoot task (some idle) waitNode heap) := by
  have hTask : ∀ q,
      (SchedState.atBoot task (some idle) waitNode heap).task q =
        if q = idle then
          { Task.zero with
            name := some "idle"
            state := .running
            flags := tfIdle ||| tfRunning }
        else task q := by
    intro q
    by_cases hq : q = idle
    · simp [SchedState.atBoot, SchedState.task, schedInit,
        SchedState.boot, processInit, allocateTask,
        ProcState.boot, ProcessTable.zero, ProcState.modifyTask,
        hq, Task.zero]
    · simp [SchedState.atBoot, SchedState.task, schedInit,
        SchedState.boot, processInit, allocateTask,
        ProcState.boot, ProcessTable.zero, ProcState.modifyTask,
        hq]
  refine ⟨⟨rfl, ?_, ?_, rfl, fun _ => False, ?_, id⟩, rfl, ?_⟩
  · simp [hTask, Task.zero]
  · simp [hTask, Task.zero]
  · intro l q hFrom hTo
    cases l with
    | root rq => cases hTo
    | left p => exact hFrom
    | right p => exact hFrom
  · intro q hq
    rw [hTask, if_neg hq]
    exact hQuiet q

theorem atBoot_noCurrent
    (hQuiet : ∀ p, (task p).state ≠ .running)
    (waitNode : Addr → WaitNode)
    (heap : Heap) :
    NoCurrent
      (SchedState.atBoot task none waitNode heap) := by
  refine ⟨rfl, rfl, rfl, rfl, ⟨fun _ => False, ?_, ?_⟩, ?_, ?_⟩
  · intro l q hFrom hTo
    cases l with
    | root rq => cases hTo
    | left p => exact hFrom
    | right p => exact hFrom
  · intro q hq
    exact hq.elim
  · intro r hr
    cases hr
  · intro q hq
    exact absurd hq (hQuiet q)

/-
  From boot, with new tasks forked and none of them the idle
  task: exactly the runs in which no call could switch.
-/
theorem schedRun_currentOk_iff
    {task : Addr → Task}
    {block : Option Addr}
    {waitNode : Addr → WaitNode}
    {heap : Heap}
    (hQuiet : ∀ p, (task p).state ≠ .running)
    (hPlain : ∀ call ∈ ops, call.Plain)
    (hNew : ∀ p, .fork (some p) ∈ ops → block ≠ some p)
    (hRun :
      Run schedStep
        (SchedState.atBoot task block waitNode heap) ops s) :
    s.CurrentOk ↔
      Run (Guarded NoSwitch schedStep)
        (SchedState.atBoot task block waitNode heap) ops s := by
  cases block with
  | none =>
      exact (atBoot_noCurrent hQuiet waitNode heap).run_iff
        hPlain hRun
  | some idle =>
      apply (atBoot_notSwitched hQuiet idle waitNode
        heap).run_iff hPlain _ hRun
      intro p hp hEq
      exact hNew p hp (by rw [hEq])

end Runs

/- Boot with zeroed records and the first block of the heap. -/
def SchedState.bootZero : SchedState :=
  SchedState.atBoot (fun _ => Task.zero) (some 0x200000)
    (fun _ => ⟨none, none⟩) Heap.initial

theorem schedRun_currentOk_iff_sleep :
    ∃ s, Run schedStep SchedState.bootZero
        [.scheduleTimeout 0#64, .fork (some taskA), .tick] s ∧
      (s.CurrentOk ↔
        Run (Guarded NoSwitch schedStep) SchedState.bootZero
          [.scheduleTimeout 0#64, .fork (some taskA), .tick]
          s) := by
  have hSome :
      ((schedCall 2 SchedState.bootZero
        (.scheduleTimeout 0#64)).bind fun s =>
          (schedCall 2 s (.fork (some taskA))).bind fun s =>
            schedCall 2 s .tick).isSome = true := by
    decide +kernel
  rcases Option.isSome_iff_exists.mp hSome with ⟨s, hCalls⟩
  simp only [Option.bind_eq_some_iff] at hCalls
  rcases hCalls with ⟨s₁, hSleep, s₂, hFork, hTick⟩
  have hRun : Run schedStep SchedState.bootZero
      [.scheduleTimeout 0#64, .fork (some taskA), .tick] s :=
    .cons ⟨2, hSleep⟩ (.cons ⟨2, hFork⟩
      (.cons ⟨2, hTick⟩ (.nil s)))
  refine ⟨s, hRun,
    schedRun_currentOk_iff (fun _ => ?_) ?_ ?_ hRun⟩
  · simp [Task.zero]
  · intro call hCall
    simp only [List.mem_cons, List.not_mem_nil, or_false] at hCall
    rcases hCall with rfl | rfl | rfl
    · trivial
    · trivial
    · trivial
  · intro p hFork hEq
    simp only [List.mem_cons, reduceCtorEq, SchedCall.fork.injEq,
      Option.some.injEq, List.not_mem_nil, or_false, false_or]
      at hFork
    rw [hFork] at hEq
    revert hEq
    decide

/- The idle task sleeps and stays the current task. -/
theorem scheduleTimeout_misleads :
    ∃ s, Run schedStep SchedState.bootZero
        [.fork (some taskA), .scheduleTimeout 0#64] s ∧
      ¬ s.CurrentOk := by
  have hEnd :
      ((schedCall 2 SchedState.bootZero
        (.fork (some taskA))).bind fun s =>
          schedCall 2 s (.scheduleTimeout 0#64)).map
        (fun s => (s.switches, s.current)) =
      some ([(0x200000, taskA)], some 0x200000) := by
    decide +kernel
  rcases Option.map_eq_some_iff.mp hEnd with
    ⟨s, hCalls, hFacts⟩
  simp only [Option.bind_eq_some_iff] at hCalls
  rcases hCalls with ⟨s₁, hFork, hSleep⟩
  simp only [Prod.mk.injEq] at hFacts
  rcases hFacts with ⟨hSwitches, hCurrent⟩
  refine ⟨s, .cons ⟨2, hFork⟩ (.cons ⟨2, hSleep⟩ (.nil s)), ?_⟩
  intro hOk
  have hLast := hOk.last _ _ _ hSwitches
  rw [hCurrent] at hLast
  revert hLast
  decide

end FeatherOS
