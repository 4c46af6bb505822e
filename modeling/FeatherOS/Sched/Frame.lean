import FeatherOS.Sched.Model

/-
  What the queue operations leave alone.

  Inserting and removing a task writes links, `my_q` of that
  task and the counters of the queue; a charge writes the
  key of one task. Nothing else changes. Each call of the
  scheduler is taken apart into these once.

  Key definitions include:
    * `QueueStep`
    * `LinkStep`
    * `ChargeStep`

  Key theorems include:
    * `cfsEnqueue_step`
    * `cfsDequeue_step`
    * `updateCurrCfs_step`
    * `schedule_split`
-/

namespace FeatherOS

--------------------
-- Reading Changed States
--------------------

namespace SchedState

variable {s : SchedState}
variable {p q : Addr}

@[simp] theorem task_modifyTask
    (s : SchedState)
    (p q : Addr)
    (f : Task → Task) :
    (s.modifyTask p f).task q =
      if q = p then f (s.task p) else s.task q := by
  simp [modifyTask, task, ProcState.modifyTask,
    Function.update_apply]

@[simp] theorem task_modifyCfs
    (s : SchedState)
    (p q : Addr)
    (f : CfsEntity → CfsEntity) :
    (s.modifyCfs p f).task q =
      if q = p then { s.task p with cfs := f (s.task p).cfs }
      else s.task q := by
  simp [modifyCfs]

@[simp] theorem task_setState
    (s : SchedState)
    (p q : Addr)
    (state : TaskState) :
    (s.setState p state).task q =
      if q = p then { s.task p with state := state }
      else s.task q := by
  simp [setState]

@[simp] theorem task_modifyRq
    (s : SchedState)
    (rq : Fin nrCpus)
    (f : CfsRq → CfsRq)
    (q : Addr) :
    (s.modifyRq rq f).task q = s.task q := rfl

@[simp] theorem runQueues_modifyTask
    (s : SchedState)
    (p : Addr)
    (f : Task → Task) :
    (s.modifyTask p f).runQueues = s.runQueues := rfl

@[simp] theorem runQueues_modifyCfs
    (s : SchedState)
    (p : Addr)
    (f : CfsEntity → CfsEntity) :
    (s.modifyCfs p f).runQueues = s.runQueues := rfl

@[simp] theorem runQueues_modifyRq
    (s : SchedState)
    (rq rq' : Fin nrCpus)
    (f : CfsRq → CfsRq) :
    (s.modifyRq rq f).runQueues rq' = f (s.runQueues rq') := by
  have hOne : Subsingleton (Fin nrCpus) :=
    inferInstanceAs (Subsingleton (Fin 1))
  rw [Subsingleton.elim rq' rq]
  simp [modifyRq]

/- The queue `this_rq` gives. -/
def thisRq (s : SchedState) : CfsRq :=
  s.runQueues thisCpu

@[simp] theorem thisRq_modifyRq
    (s : SchedState)
    (rq : Fin nrCpus)
    (f : CfsRq → CfsRq) :
    (s.modifyRq rq f).thisRq = f s.thisRq := by
  simp [thisRq]

@[simp] theorem thisRq_modifyCfs
    (s : SchedState)
    (p : Addr)
    (f : CfsEntity → CfsEntity) :
    (s.modifyCfs p f).thisRq = s.thisRq := rfl

/- A task is in no queue or in the only one. -/
theorem myQ_eq
    (s : SchedState)
    (p : Addr) :
    (s.task p).cfs.myQ = none ∨
      (s.task p).cfs.myQ = some thisCpu := by
  have hOne : Subsingleton (Fin nrCpus) :=
    inferInstanceAs (Subsingleton (Fin 1))
  cases hQ : (s.task p).cfs.myQ with
  | none => exact Or.inl rfl
  | some rq =>
      right
      rw [Subsingleton.elim rq thisCpu]

end SchedState

--------------------
-- What Queue Operations Leave Alone
--------------------

/- A task without its place in a queue. -/
def Task.unlinked (t : Task) : Task :=
  { t with
    cfs :=
      { t.cfs with
        myQ := none, parent := none, left := none, right := none
      } }

/-
  An operation on the place of one task leaves `myQ` of that
  task and changes nothing but links and queue counters.
-/
structure QueueStep
    (p : Addr)
    (myQ : Option (Fin nrCpus))
    (s s' : SchedState) : Prop where
  unlinked : ∀ q, (s'.task q).unlinked = (s.task q).unlinked
  self : (s'.task p).cfs.myQ = myQ
  other : ∀ q, q ≠ p →
    (s'.task q).cfs.myQ = (s.task q).cfs.myQ
  current : s'.current = s.current
  clock : s'.clock = s.clock
  switches : s'.switches = s.switches
  idleTask : s'.thisRq.idleTask = s.thisRq.idleTask

namespace QueueStep

variable {p : Addr}
variable {myQ : Option (Fin nrCpus)}
variable {s s' : SchedState}

theorem state
    (hStep : QueueStep p myQ s s')
    (q : Addr) :
    (s'.task q).state = (s.task q).state := by
  have hEq := congrArg Task.state (hStep.unlinked q)
  exact hEq

theorem flags
    (hStep : QueueStep p myQ s s')
    (q : Addr) :
    (s'.task q).flags = (s.task q).flags := by
  have hEq := congrArg Task.flags (hStep.unlinked q)
  exact hEq

theorem vruntime
    (hStep : QueueStep p myQ s s')
    (q : Addr) :
    (s'.task q).vruntime = (s.task q).vruntime := by
  have hEq := congrArg Task.vruntime (hStep.unlinked q)
  exact hEq

theorem loadWeight
    (hStep : QueueStep p myQ s s')
    (q : Addr) :
    (s'.task q).cfs.loadWeight = (s.task q).cfs.loadWeight :=
  congrArg (fun t => t.cfs.loadWeight) (hStep.unlinked q)

theorem execStart
    (hStep : QueueStep p myQ s s')
    (q : Addr) :
    (s'.task q).cfs.execStart = (s.task q).cfs.execStart :=
  congrArg (fun t => t.cfs.execStart) (hStep.unlinked q)

end QueueStep

/- A step that keeps every `myQ` as well. -/
structure LinkStep (s s' : SchedState) : Prop where
  unlinked : ∀ q, (s'.task q).unlinked = (s.task q).unlinked
  myQ : ∀ q, (s'.task q).cfs.myQ = (s.task q).cfs.myQ
  current : s'.current = s.current
  clock : s'.clock = s.clock
  switches : s'.switches = s.switches
  idleTask : s'.thisRq.idleTask = s.thisRq.idleTask

variable {p : Addr}
variable {s s' s₁ : SchedState}

theorem QueueStep.andThen
    {myQ : Option (Fin nrCpus)}
    (hFirst : QueueStep p myQ s s₁)
    (hSecond : LinkStep s₁ s') :
    QueueStep p myQ s s' where
  unlinked q := (hSecond.unlinked q).trans (hFirst.unlinked q)
  self := (hSecond.myQ p).trans hFirst.self
  other q hq := (hSecond.myQ q).trans (hFirst.other q hq)
  current := hSecond.current.trans hFirst.current
  clock := hSecond.clock.trans hFirst.clock
  switches := hSecond.switches.trans hFirst.switches
  idleTask := hSecond.idleTask.trans hFirst.idleTask

theorem LinkStep.before
    {myQ : Option (Fin nrCpus)}
    (hFirst : LinkStep s s₁)
    (hSecond : QueueStep p myQ s₁ s') :
    QueueStep p myQ s s' where
  unlinked q := (hSecond.unlinked q).trans (hFirst.unlinked q)
  self := hSecond.self
  other q hq := (hSecond.other q hq).trans (hFirst.myQ q)
  current := hSecond.current.trans hFirst.current
  clock := hSecond.clock.trans hFirst.clock
  switches := hSecond.switches.trans hFirst.switches
  idleTask := hSecond.idleTask.trans hFirst.idleTask

namespace LinkStep

variable {s s₁ s' : SchedState}

theorem refl (s : SchedState) : LinkStep s s :=
  ⟨fun _ => rfl, fun _ => rfl, rfl, rfl, rfl, rfl⟩

theorem trans
    (hFirst : LinkStep s s₁)
    (hSecond : LinkStep s₁ s') :
    LinkStep s s' where
  unlinked q := (hSecond.unlinked q).trans (hFirst.unlinked q)
  myQ q := (hSecond.myQ q).trans (hFirst.myQ q)
  current := hSecond.current.trans hFirst.current
  clock := hSecond.clock.trans hFirst.clock
  switches := hSecond.switches.trans hFirst.switches
  idleTask := hSecond.idleTask.trans hFirst.idleTask

/- A step that sets `myQ` to what it was. -/
theorem toQueueStep
    {myQ : Option (Fin nrCpus)}
    (hStep : LinkStep s s')
    (hQ : (s.task p).cfs.myQ = myQ) :
    QueueStep p myQ s s' where
  unlinked := hStep.unlinked
  self := (hStep.myQ p).trans hQ
  other q _ := hStep.myQ q
  current := hStep.current
  clock := hStep.clock
  switches := hStep.switches
  idleTask := hStep.idleTask

theorem modifyCfs
    (s : SchedState)
    (p : Addr)
    (f : CfsEntity → CfsEntity)
    (hLinks : ∀ t : Task,
      { t with cfs := f t.cfs }.unlinked = t.unlinked)
    (hQ : ∀ e, (f e).myQ = e.myQ) :
    LinkStep s (s.modifyCfs p f) where
  unlinked q := by
    by_cases hq : q = p
    · simp [hq, hLinks]
    · simp [hq]
  myQ q := by
    by_cases hq : q = p
    · simp [hq, hQ]
    · simp [hq]
  current := rfl
  clock := rfl
  switches := rfl
  idleTask := rfl

theorem modifyRq
    (s : SchedState)
    (rq : Fin nrCpus)
    (f : CfsRq → CfsRq)
    (hIdle : ∀ q, (f q).idleTask = q.idleTask) :
    LinkStep s (s.modifyRq rq f) where
  unlinked _ := rfl
  myQ _ := rfl
  current := rfl
  clock := rfl
  switches := rfl
  idleTask := by simp [SchedState.thisRq, hIdle]

theorem setLink
    (s : SchedState)
    (v : Option Addr)
    (l : CfsLink) :
    LinkStep s (s.setLink v l) := by
  cases l with
  | root rq =>
      exact modifyRq s rq (fun e => { e with root := v })
        fun _ => rfl
  | left q =>
      exact modifyCfs s q (fun e => { e with left := v })
        (fun _ => rfl) fun _ => rfl
  | right q =>
      exact modifyCfs s q (fun e => { e with right := v })
        (fun _ => rfl) fun _ => rfl

end LinkStep

/- `myQ` of one task is written. -/
theorem queueStep_myQ
    (s : SchedState)
    (p : Addr)
    (myQ : Option (Fin nrCpus)) :
    QueueStep p myQ s
      (s.modifyCfs p fun e => { e with myQ := myQ }) where
  unlinked q := by
    by_cases hq : q = p
    · simp [hq, Task.unlinked]
    · simp [hq]
  self := by simp
  other q hq := by simp [hq]
  current := rfl
  clock := rfl
  switches := rfl
  idleTask := rfl

theorem cfsJoin_step
    (s : SchedState)
    (p : Addr) :
    QueueStep p (some thisCpu) s (cfsJoin s thisCpu p) := by
  rcases s.myQ_eq p with hQ | hQ
  · simp only [cfsJoin, hQ]
    exact queueStep_myQ s p (some thisCpu)
  · simp only [cfsJoin, hQ, ne_eq, not_true, if_false]
    exact (LinkStep.refl s).toQueueStep hQ

theorem cfsAttach_step
    (s : SchedState)
    (p : Addr)
    (l : CfsLink)
    (par : Option Addr) :
    LinkStep s (cfsAttach s p l par) :=
  (LinkStep.modifyCfs s p
    (fun e => { e with parent := par, left := none, right := none })
    (fun _ => rfl) fun _ => rfl).trans
      (LinkStep.setLink _ (some p) l)

theorem cfsPassOn_step
    (s : SchedState)
    (p : Addr)
    (l : CfsLink) :
    LinkStep s (cfsPassOn s p l) := by
  unfold cfsPassOn
  cases (s.task p).cfs.parent with
  | none => exact LinkStep.setLink s _ l
  | some par =>
      by_cases hSide : (s.task par).cfs.left = some p
      · simp only [hSide, if_true]
        exact LinkStep.setLink s _ _
      · simp only [hSide, if_false]
        exact LinkStep.setLink s _ _

theorem cfsUnlink_step
    (s : SchedState)
    (p : Addr)
    (l : CfsLink) :
    LinkStep s (cfsUnlink s p l) := by
  have hPass := cfsPassOn_step s p l
  unfold cfsUnlink
  cases (s.task p).cfs.successor with
  | none => exact hPass
  | some q =>
      exact hPass.trans
        (LinkStep.modifyCfs _ q
          (fun f =>
            { f with
              parent := ((cfsPassOn s p l).task p).cfs.parent })
          (fun _ => rfl) fun _ => rfl)

--------------------
-- What Queue Operations Do To The Queue
--------------------

/- The record of a queue apart from its tree. -/
def CfsRq.rootless (q : CfsRq) : CfsRq :=
  { q with root := none }

theorem rootless_setLink
    (s : SchedState)
    (v : Option Addr)
    (l : CfsLink) :
    (s.setLink v l).thisRq.rootless = s.thisRq.rootless := by
  cases l with
  | root rq => simp [SchedState.setLink, CfsRq.rootless]
  | left q => rfl
  | right q => rfl

theorem rootless_cfsUnlink
    (s : SchedState)
    (p : Addr)
    (l : CfsLink) :
    (cfsUnlink s p l).thisRq.rootless = s.thisRq.rootless := by
  have hPass :
      (cfsPassOn s p l).thisRq.rootless =
        s.thisRq.rootless := by
    unfold cfsPassOn
    cases (s.task p).cfs.parent with
    | none => exact rootless_setLink s _ l
    | some par =>
        simp only
        split
        · exact rootless_setLink s _ _
        · exact rootless_setLink s _ _
  unfold cfsUnlink
  cases (s.task p).cfs.successor with
  | none => exact hPass
  | some q => exact hPass

theorem cfsJoin_rq
    (s : SchedState)
    (p : Addr) :
    (cfsJoin s thisCpu p).thisRq = s.thisRq := by
  rcases s.myQ_eq p with hQ | hQ
  · simp only [cfsJoin, hQ]
    rfl
  · simp [cfsJoin, hQ]

/- A queue with one more task of the weight and key. -/
def CfsRq.entered
    (q : CfsRq)
    (weight key : U64) :
    CfsRq :=
  { q with
    nrRunning := q.nrRunning + 1#32
    loadWeight := q.loadWeight + weight
    minVruntime :=
      if q.minVruntime = 0#64 ∨ key < q.minVruntime then key
      else q.minVruntime }

/- A queue with one task of the weight less. -/
def CfsRq.leftBy
    (q : CfsRq)
    (weight : U64) :
    CfsRq :=
  { q with
    nrRunning := q.nrRunning - 1#32
    loadWeight := q.loadWeight - weight }

variable {s s' : SchedState}
variable {fuel : Nat}

theorem cfsEnqueue_step
    (hCall : cfsEnqueue fuel s thisCpu p = some s') :
    QueueStep p (some thisCpu) s s' := by
  simp only [cfsEnqueue, Option.bind_eq_bind,
    Option.bind_eq_some_iff, Option.some.injEq, Prod.exists]
    at hCall
  rcases hCall with ⟨l, par, _, rfl⟩
  exact (cfsJoin_step s p).andThen
    ((cfsAttach_step _ p l par).trans
      (LinkStep.modifyRq _ _ _ fun _ => rfl))

theorem cfsEnqueue_rq
    (hCall : cfsEnqueue fuel s thisCpu p = some s') :
    s'.thisRq.rootless =
      s.thisRq.rootless.entered (s.task p).cfs.loadWeight
        (s.task p).vruntime := by
  have hStep := cfsEnqueue_step hCall
  have hLoad := hStep.loadWeight p
  have hKey := hStep.vruntime p
  simp only [cfsEnqueue, Option.bind_eq_bind,
    Option.bind_eq_some_iff, Option.some.injEq, Prod.exists]
    at hCall
  rcases hCall with ⟨l, par, _, rfl⟩
  have hAttach :
      (cfsAttach (cfsJoin s thisCpu p) p l
        par).thisRq.rootless = s.thisRq.rootless := by
    unfold cfsAttach
    rw [rootless_setLink, SchedState.thisRq_modifyCfs,
      cfsJoin_rq]
  generalize cfsAttach (cfsJoin s thisCpu p) p l par = s₁
    at hAttach hLoad hKey ⊢
  have hLoad' : (s₁.task p).cfs.loadWeight =
      (s.task p).cfs.loadWeight := hLoad
  have hKey' : (s₁.task p).vruntime = (s.task p).vruntime :=
    hKey
  rw [← hAttach, ← hLoad', ← hKey']
  simp only [cfsAccount, SchedState.thisRq_modifyRq]
  rfl

/- A task outside the queue stays outside. -/
theorem cfsDequeue_out
    (hOut : (s.task p).cfs.myQ = none)
    (hCall : cfsDequeue fuel s thisCpu p = some s') :
    s' = s := by
  simp only [cfsDequeue, hOut, Option.some.injEq] at hCall
  exact hCall.symm

/- The two ways through `cfs_dequeue`. -/
theorem cfsDequeue_split
    (hCall : cfsDequeue fuel s thisCpu p = some s') :
    ((s.task p).cfs.myQ = none ∧ s' = s) ∨
    (s.task p).cfs.myQ = some thisCpu ∧
      ∃ l, cfsFind s p fuel (.root thisCpu) = some l ∧
        s' = cfsLeave
          (if s.link l = some p then cfsUnlink s p l else s)
          thisCpu p := by
  rcases s.myQ_eq p with hQ | hQ
  · exact Or.inl ⟨hQ, cfsDequeue_out hQ hCall⟩
  · right
    unfold cfsDequeue at hCall
    simp only [hQ, Option.bind_eq_bind, Option.bind_eq_some_iff,
      Option.some.injEq] at hCall
    rcases hCall with ⟨l, hFind, hEq⟩
    exact ⟨hQ, l, hFind, hEq.symm⟩

theorem cfsDequeue_step
    (hCall : cfsDequeue fuel s thisCpu p = some s') :
    QueueStep p none s s' := by
  rcases cfsDequeue_split hCall with
    ⟨hQ, rfl⟩ | ⟨_, l, _, rfl⟩
  · exact (LinkStep.refl s').toQueueStep hQ
  · have hUnlink :
        LinkStep s
          (if s.link l = some p then cfsUnlink s p l
            else s) := by
      by_cases hFound : s.link l = some p
      · simp only [hFound, if_true]
        exact cfsUnlink_step s p l
      · simp only [hFound, if_false]
        exact LinkStep.refl s
    generalize
      (if s.link l = some p then cfsUnlink s p l else s) = s₁
        at hUnlink ⊢
    have hLeave :=
      (queueStep_myQ s₁ p none).andThen
        (LinkStep.modifyRq _ thisCpu
          (fun q =>
            { q with
              nrRunning := q.nrRunning - 1#32
              loadWeight :=
                q.loadWeight -
                  ((s₁.modifyCfs p fun e =>
                    { e with myQ := none }).task
                      p).cfs.loadWeight })
          fun _ => rfl)
    exact hUnlink.before hLeave

/- A task that names no queue is not taken out. -/
theorem cfsDequeue_rq
    (hCall : cfsDequeue fuel s thisCpu p = some s') :
    s'.thisRq.rootless =
      if (s.task p).cfs.myQ = none then s.thisRq.rootless
      else
        s.thisRq.rootless.leftBy
          (s.task p).cfs.loadWeight := by
  have hLoad := (cfsDequeue_step hCall).loadWeight p
  rcases cfsDequeue_split hCall with
    ⟨hOut, rfl⟩ | ⟨hIn, l, _, rfl⟩
  · rw [if_pos hOut]
  · have hQ : ¬ (s.task p).cfs.myQ = none := by simp [hIn]
    rw [if_neg hQ]
    have hUnlink :
        (if s.link l = some p then cfsUnlink s p l
          else s).thisRq.rootless = s.thisRq.rootless := by
      split
      · exact rootless_cfsUnlink s p l
      · rfl
    generalize
      (if s.link l = some p then cfsUnlink s p l else s) = s₁
        at hLoad hUnlink ⊢
    have hLoad' : (s₁.task p).cfs.loadWeight =
        (s.task p).cfs.loadWeight := by
      rw [← hLoad]
      simp [cfsLeave]
    rw [← hUnlink, ← hLoad']
    simp only [cfsLeave, SchedState.thisRq_modifyRq,
      SchedState.thisRq_modifyCfs, SchedState.task_modifyCfs,
      if_true]
    rfl

--------------------
-- Charging A Task
--------------------

/- A charge gives one task a new key and start time. -/
structure ChargeStep
    (p : Addr)
    (s s' : SchedState) : Prop where
  self :
    s'.task p =
      { s.task p with
        cfs := { (s.task p).cfs with execStart := s.clock }
        vruntime := chargedVruntime s.clock (s.task p) }
  other : ∀ q, q ≠ p → s'.task q = s.task q
  current : s'.current = s.current
  clock : s'.clock = s.clock
  switches : s'.switches = s.switches
  root : s'.thisRq.root = s.thisRq.root
  nrRunning : s'.thisRq.nrRunning = s.thisRq.nrRunning
  idleTask : s'.thisRq.idleTask = s.thisRq.idleTask

namespace ChargeStep

variable {s s' : SchedState}
variable {p : Addr}

theorem state
    (hStep : ChargeStep p s s')
    (q : Addr) :
    (s'.task q).state = (s.task q).state := by
  by_cases hq : q = p
  · rw [hq, hStep.self]
  · rw [hStep.other q hq]

theorem flags
    (hStep : ChargeStep p s s')
    (q : Addr) :
    (s'.task q).flags = (s.task q).flags := by
  by_cases hq : q = p
  · rw [hq, hStep.self]
  · rw [hStep.other q hq]

theorem myQ
    (hStep : ChargeStep p s s')
    (q : Addr) :
    (s'.task q).cfs.myQ = (s.task q).cfs.myQ := by
  by_cases hq : q = p
  · rw [hq, hStep.self]
  · rw [hStep.other q hq]

/- No time has passed since the charge. -/
theorem elapsed
    (hStep : ChargeStep p s s') :
    s'.clock - (s'.task p).cfs.execStart = 0#64 := by
  rw [hStep.self, hStep.clock]
  exact BitVec.sub_self _

end ChargeStep

theorem updateCurrCfs_returns
    (hLoad : (s.task p).cfs.loadWeight ≠ 0#64) :
    ∃ s', updateCurrCfs s thisCpu p = some s' := by
  unfold updateCurrCfs
  simp only [hLoad, if_false]
  exact ⟨_, rfl⟩

theorem updateCurrCfs_step
    (hCall : updateCurrCfs s thisCpu p = some s') :
    ChargeStep p s s' ∧ (s.task p).cfs.loadWeight ≠ 0#64 := by
  unfold updateCurrCfs at hCall
  by_cases hLoad : (s.task p).cfs.loadWeight = 0#64
  · simp [hLoad] at hCall
  · simp only [hLoad, if_false, Option.some.injEq] at hCall
    subst hCall
    refine ⟨?_, hLoad⟩
    exact {
      self := by simp
      other := fun q hq => by simp [hq]
      current := rfl
      clock := rfl
      switches := rfl
      root := by simp [SchedState.thisRq]
      nrRunning := by simp [SchedState.thisRq]
      idleTask := by simp [SchedState.thisRq] }

/- A charged task is in the queue with its new key. -/
structure RequeueStep
    (p : Addr)
    (s s' : SchedState) : Prop where
  state : ∀ q, (s'.task q).state = (s.task q).state
  flags : ∀ q, (s'.task q).flags = (s.task q).flags
  self : (s'.task p).cfs.myQ = some thisCpu
  other : ∀ q, q ≠ p →
    (s'.task q).cfs.myQ = (s.task q).cfs.myQ
  key : (s'.task p).vruntime =
    chargedVruntime s.clock (s.task p)
  otherKey : ∀ q, q ≠ p →
    (s'.task q).vruntime = (s.task q).vruntime
  execStart : (s'.task p).cfs.execStart = s.clock
  loadWeight :
    (s'.task p).cfs.loadWeight = (s.task p).cfs.loadWeight
  nonzero : (s.task p).cfs.loadWeight ≠ 0#64
  current : s'.current = s.current
  clock : s'.clock = s.clock
  switches : s'.switches = s.switches
  idleTask : s'.thisRq.idleTask = s.thisRq.idleTask

/- The three calls of `cfs_requeue`, one by one. -/
theorem cfsRequeue_split
    (hCall : cfsRequeue fuel s thisCpu p = some s') :
    ∃ s₁ s₂, updateCurrCfs s thisCpu p = some s₁ ∧
      cfsDequeue fuel s₁ thisCpu p = some s₂ ∧
      cfsEnqueue fuel s₂ thisCpu p = some s' := by
  simp only [cfsRequeue, Option.bind_eq_bind,
    Option.bind_eq_some_iff] at hCall
  rcases hCall with ⟨s₁, hCharge, s₂, hOut, hIn⟩
  exact ⟨s₁, s₂, hCharge, hOut, hIn⟩

theorem cfsRequeue_step
    (hCall : cfsRequeue fuel s thisCpu p = some s') :
    RequeueStep p s s' := by
  rcases cfsRequeue_split hCall with
    ⟨s₁, s₂, hCharge, hOut, hIn⟩
  rcases updateCurrCfs_step hCharge with ⟨h₁, hLoad⟩
  have h₂ := cfsDequeue_step hOut
  have h₃ := cfsEnqueue_step hIn
  exact {
    state := fun q =>
      (h₃.state q).trans ((h₂.state q).trans (h₁.state q))
    flags := fun q =>
      (h₃.flags q).trans ((h₂.flags q).trans (h₁.flags q))
    self := h₃.self
    other := fun q hq =>
      (h₃.other q hq).trans
        ((h₂.other q hq).trans (h₁.myQ q))
    key := by
      rw [h₃.vruntime, h₂.vruntime, h₁.self]
    otherKey := fun q hq => by
      rw [h₃.vruntime, h₂.vruntime, h₁.other q hq]
    execStart := by
      rw [h₃.execStart, h₂.execStart, h₁.self]
    loadWeight := by
      rw [h₃.loadWeight, h₂.loadWeight, h₁.self]
    nonzero := hLoad
    current :=
      h₃.current.trans (h₂.current.trans h₁.current)
    clock := h₃.clock.trans (h₂.clock.trans h₁.clock)
    switches :=
      h₃.switches.trans (h₂.switches.trans h₁.switches)
    idleTask :=
      h₃.idleTask.trans (h₂.idleTask.trans h₁.idleTask) }

--------------------
-- Putting The Previous Task Back
--------------------

/- `schedule` puts the task back into the queue. -/
def SchedState.Requeues
    (s : SchedState)
    (p : Addr) : Prop :=
  ((s.task p).state = .ready ∨ (s.task p).state = .running) ∧
    (s.task p).flags &&& tfZombie = 0#32

/- The state `schedule` leaves a task in before it chooses. -/
def TaskState.afterRunning (state : TaskState) : TaskState :=
  if state = .running then .ready else state

theorem markReady_eq
    (s : SchedState)
    (p : Addr) :
    markReady s p =
      s.setState p (s.task p).state.afterRunning := by
  unfold markReady TaskState.afterRunning
  by_cases hRun : (s.task p).state = .running
  · simp only [hRun, if_true]
  · have hSame : s.setState p (s.task p).state = s := by
      have hTask :
          Function.update s.proc.task p (s.proc.task p) =
            s.proc.task :=
        Function.update_eq_self p s.proc.task
      exact congrArg
        (fun task => { s with proc := { s.proc with task := task } })
        hTask
    simp only [hRun, if_false, hSame]

/- What `schedule` asks of the task it has marked. -/
theorem markReady_requeues
    (s : SchedState)
    (p : Addr) :
    (((markReady s p).task p).state = .ready ∧
        ((markReady s p).task p).flags &&& tfZombie = 0#32) ↔
      s.Requeues p := by
  rw [markReady_eq]
  unfold SchedState.Requeues TaskState.afterRunning
  by_cases hRun : (s.task p).state = .running
  · simp [hRun]
  · simp [hRun]

/- Either the task is charged and moved or only marked. -/
theorem putPrev_split
    (hCall : putPrev fuel s (some p) = some s') :
    (s.Requeues p ∧
      cfsRequeue fuel (markReady s p) thisCpu p = some s') ∨
    (¬ s.Requeues p ∧ s' = markReady s p) := by
  have hReady := markReady_requeues s p
  simp only [putPrev] at hCall
  by_cases hBack : s.Requeues p
  · rw [if_pos (hReady.mpr hBack)] at hCall
    exact Or.inl ⟨hBack, hCall⟩
  · rw [if_neg (fun h => hBack (hReady.mp h))] at hCall
    exact Or.inr ⟨hBack, (Option.some.inj hCall).symm⟩

/- `schedule` is a tick of the clock and two halves. -/
theorem schedule_split
    (hCall : schedule fuel s = some s') :
    ∃ s₁, putPrev fuel (updateSchedClock s) s.current = some s₁ ∧
      pickAndSwitch fuel s₁ s.current = some s' := by
  simp only [schedule, Option.bind_eq_bind,
    Option.bind_eq_some_iff] at hCall
  exact hCall

--------------------
-- A Tick
--------------------

/- The slice is divided by the load of a queue with tasks. -/
theorem schedSlice_eq_none_iff
    (s : SchedState) :
    schedSlice s = none ↔
      0#32 < s.thisRq.nrRunning ∧ s.thisRq.loadWeight = 0#64 := by
  unfold schedSlice
  change (if 0#32 < s.thisRq.nrRunning then _ else _) = _ ↔ _
  by_cases hSome : 0#32 < s.thisRq.nrRunning
  · by_cases hLoad : s.thisRq.loadWeight = 0#64
    · have hLoad' : (s.runQueues thisCpu).loadWeight = 0#64 :=
        hLoad
      simp [hSome, hLoad, hLoad']
    · have hLoad' : (s.runQueues thisCpu).loadWeight ≠ 0#64 :=
        hLoad
      simp only [hSome, if_true, hLoad', if_false, hLoad,
        and_false, iff_false]
      split
      · simp
      · simp
  · simp [hSome]

variable {slice : U64}

/- A time slice is never empty. -/
theorem schedSlice_pos
    (hSlice : schedSlice s = some slice) :
    ¬ slice ≤ 0#64 := by
  have hMin : ¬ cfsMinGranularityNs ≤ 0#64 := by decide
  unfold schedSlice at hSlice
  generalize s.runQueues thisCpu = q at hSlice
  by_cases hSome : 0#32 < q.nrRunning
  · by_cases hLoad : q.loadWeight = 0#64
    · simp [hSome, hLoad] at hSlice
    · simp only [hSome, if_true, hLoad, if_false] at hSlice
      generalize cfsLatencyNs * nice0Load / q.loadWeight = v
        at hSlice
      by_cases hSmall : v < cfsMinGranularityNs
      · simp only [hSmall, if_true, Option.some.injEq] at hSlice
        exact hSlice ▸ hMin
      · simp only [hSmall, if_false, Option.some.injEq]
          at hSlice
        subst hSlice
        rw [BitVec.not_lt, BitVec.le_def] at hSmall
        rw [BitVec.le_def] at hMin ⊢
        omega
  · simp only [hSome, if_false, Option.some.injEq] at hSlice
    exact hSlice ▸ hMin

/-
  The charge sets the start time to the clock, so that the
  slice is never used up and a tick only charges.
-/
theorem tickCurrent_eq
    (hRun : (s.task p).state = .running)
    (hCall : tickCurrent fuel s p = some s') :
    updateCurrCfs s thisCpu p = some s' := by
  simp only [tickCurrent, hRun, if_true, Option.bind_eq_bind,
    Option.bind_eq_some_iff] at hCall
  rcases hCall with ⟨s₁, hCharge, slice, hSlice, hRest⟩
  have hZero := (updateCurrCfs_step hCharge).1.elapsed
  simp only [hZero, schedSlice_pos hSlice, if_false,
    Option.some.injEq] at hRest
  rw [hCharge, hRest]

theorem tickCurrent_some
    (fuel : Nat)
    (hRun : (s.task p).state = .running)
    (hCharge : updateCurrCfs s thisCpu p = some s')
    (hSlice : schedSlice s' = some slice) :
    tickCurrent fuel s p = some s' := by
  have hZero := (updateCurrCfs_step hCharge).1.elapsed
  simp only [tickCurrent, hRun, if_true, hCharge, hSlice,
    hZero, schedSlice_pos hSlice, if_false,
    Option.bind_eq_bind, Option.bind_some]

theorem tickCurrent_idle
    (hRun : (s.task p).state ≠ .running)
    (hCall : tickCurrent fuel s p = some s') :
    s' = s := by
  simp only [tickCurrent, hRun, if_false, Option.some.injEq]
    at hCall
  exact hCall.symm

/- The times a tick counts for its task and in all. -/
def SchedState.countTick
    (s : SchedState)
    (p : Addr) :
    SchedState :=
  { s.modifyTask p fun t => { t with utime := t.utime + 1#64 }
    with
    busyTime := s.busyTime + 1#64 }

@[simp] theorem SchedState.task_countTick
    (s : SchedState)
    (p q : Addr) :
    (s.countTick p).task q =
      if q = p then
        { s.task p with utime := (s.task p).utime + 1#64 }
      else s.task q :=
  s.task_modifyTask p q
    fun t => { t with utime := t.utime + 1#64 }

theorem schedTick_some
    (hCur : s.current = some p)
    (hCharge : tickCurrent fuel (updateSchedClock s) p = some s') :
    schedTick fuel s = some (s'.countTick p) := by
  have hSame : (updateSchedClock s).current = some p := hCur
  simp only [schedTick, hSame, hCharge, Option.bind_eq_bind,
    Option.bind_some]
  rfl

/- A tick moves the clock and charges a running task. -/
theorem schedTick_split
    (hCall : schedTick fuel s = some s') :
    (s.current = none ∧ s' = updateSchedClock s) ∨
    ∃ p s₁, s.current = some p ∧ s' = s₁.countTick p ∧
      ((s.task p).state = .running ∧
          updateCurrCfs (updateSchedClock s) thisCpu p =
            some s₁ ∨
        (s.task p).state ≠ .running ∧
          s₁ = updateSchedClock s) := by
  unfold schedTick at hCall
  have hSame : (updateSchedClock s).current = s.current := rfl
  simp only [hSame] at hCall
  cases hCur : s.current with
  | none =>
      simp only [hCur, Option.some.injEq] at hCall
      exact Or.inl ⟨rfl, hCall.symm⟩
  | some p =>
      simp only [hCur, Option.bind_eq_bind,
        Option.bind_eq_some_iff, Option.some.injEq] at hCall
      rcases hCall with ⟨s₁, hCharge, rfl⟩
      refine Or.inr ⟨p, s₁, rfl, rfl, ?_⟩
      by_cases hRun : (s.task p).state = .running
      · exact Or.inl ⟨hRun, tickCurrent_eq hRun hCharge⟩
      · exact Or.inr ⟨hRun, tickCurrent_idle hRun hCharge⟩

--------------------
-- Yield, Sleep And Wakeup
--------------------

/- `yield` requeues twice, the second time in `schedule`. -/
theorem yield_split
    (hCall : yield fuel s = some s') :
    (s.current = none ∧ s' = s) ∨
    ∃ p s₁, s.current = some p ∧
      cfsRequeue fuel s thisCpu p = some s₁ ∧
      schedule fuel (s₁.setState p .ready) = some s' := by
  unfold yield at hCall
  cases hCur : s.current with
  | none =>
      simp only [hCur, Option.some.injEq] at hCall
      exact Or.inl ⟨rfl, hCall.symm⟩
  | some p =>
      simp only [hCur, Option.bind_eq_bind,
        Option.bind_eq_some_iff] at hCall
      rcases hCall with ⟨s₁, hRequeue, hSchedule⟩
      exact Or.inr ⟨p, s₁, rfl, hRequeue, hSchedule⟩

/- A task sleeps until a deadline. -/
def SchedState.asleep
    (s : SchedState)
    (p : Addr)
    (deadline : U64) :
    SchedState :=
  s.modifyTask p fun t =>
    { t with sleepDeadline := deadline, state := .sleeping }

@[simp] theorem SchedState.task_asleep
    (s : SchedState)
    (p q : Addr)
    (deadline : U64) :
    (s.asleep p deadline).task q =
      if q = p then
        { s.task p with
          sleepDeadline := deadline
          state := .sleeping }
      else s.task q :=
  s.task_modifyTask p q _

theorem SchedState.cfs_asleep
    (s : SchedState)
    (p q : Addr)
    (deadline : U64) :
    ((s.asleep p deadline).task q).cfs = (s.task q).cfs := by
  by_cases hq : q = p
  · simp [hq]
  · simp [hq]

theorem SchedState.vruntime_asleep
    (s : SchedState)
    (p q : Addr)
    (deadline : U64) :
    ((s.asleep p deadline).task q).vruntime =
      (s.task q).vruntime := by
  by_cases hq : q = p
  · simp [hq]
  · simp [hq]

/- A sleeping task is not put back by `schedule`. -/
theorem SchedState.not_requeues_of_sleeping
    (hState : (s.task p).state = .sleeping) :
    ¬ s.Requeues p := by
  rintro ⟨hReady | hRun, _⟩
  · rw [hState] at hReady
    cases hReady
  · rw [hState] at hRun
    cases hRun

theorem cfsDequeue_asleep
    {deadline : U64}
    (hCur : s.current = some p)
    (hCall :
      cfsDequeue fuel (s.asleep p deadline) thisCpu p =
        some s') :
    ∀ q, s'.current = some q →
      (s'.task q).state = .sleeping := by
  have hStep := cfsDequeue_step hCall
  intro q hq
  have hNow : s'.current = some p := hStep.current.trans hCur
  rw [hNow] at hq
  cases hq
  rw [hStep.state]
  simp

/-
  The current task falls asleep and leaves the queue before
  another one is chosen.
-/
theorem scheduleTimeout_split
    {ns : U64}
    (hCall : scheduleTimeout fuel s ns = some s') :
    (s.current = none ∧ s' = s) ∨
    ∃ p s₁, s.current = some p ∧
      cfsDequeue fuel
        (s.asleep p (s.clock + ns / 1000000#64)) thisCpu p =
          some s₁ ∧
      (∀ q, s₁.current = some q →
        (s₁.task q).state = .sleeping) ∧
      schedule fuel s₁ = some s' := by
  unfold scheduleTimeout at hCall
  cases hCur : s.current with
  | none =>
      simp only [hCur, Option.some.injEq] at hCall
      exact Or.inl ⟨rfl, hCall.symm⟩
  | some p =>
      simp only [hCur, Option.bind_eq_bind,
        Option.bind_eq_some_iff] at hCall
      rcases hCall with ⟨s₁, hLeave, hSchedule⟩
      have hSleep :
          cfsDequeue fuel
            (s.asleep p (s.clock + ns / 1000000#64))
            thisCpu p = some s₁ := hLeave
      have hState := cfsDequeue_asleep hCur hSleep
      exact Or.inr ⟨p, s₁, rfl, hSleep, hState, hSchedule⟩

/- What `set_task_state` does with the queue. -/
theorem setTaskState_split
    {state : TaskState}
    (hCall : setTaskState fuel s (some p) state = some s') :
    (state = .running ∧
      cfsEnqueue fuel (s.setState p .running) thisCpu p =
        some s') ∨
    (state ≠ .running ∧
      ∃ s₁, s' = s₁.setState p state ∧
        ((s.task p).state = .running ∧
            cfsDequeue fuel s thisCpu p = some s₁ ∨
          (s.task p).state ≠ .running ∧ s₁ = s)) := by
  simp only [setTaskState, Option.bind_eq_bind,
    Option.bind_eq_some_iff] at hCall
  rcases hCall with ⟨s₁, hLeave, hEnter⟩
  by_cases hRunning : state = .running
  · subst hRunning
    simp only [leaveRunning, ne_eq, not_true, and_false,
      if_false, Option.some.injEq] at hLeave
    subst hLeave
    exact Or.inl ⟨rfl, hEnter⟩
  · simp only [hRunning, if_false, Option.some.injEq] at hEnter
    refine Or.inr ⟨hRunning, s₁, hEnter.symm, ?_⟩
    by_cases hWas : (s.task p).state = .running
    · simp only [leaveRunning, hWas, hRunning, ne_eq,
        not_false_eq_true, and_self, if_true] at hLeave
      exact Or.inl ⟨hWas, hLeave⟩
    · simp only [leaveRunning, hWas, false_and, if_false,
        Option.some.injEq] at hLeave
      exact Or.inr ⟨hWas, hLeave.symm⟩

/- A waiting task becomes ready and is inserted. -/
theorem wakeUpProcess_split
    {r : Int}
    (hCall : wakeUpProcess fuel s (some p) = some (r, s')) :
    ((s.task p).state.Waits ∧
      cfsEnqueue fuel (s.setState p .ready) thisCpu p =
        some s') ∨
    (¬ (s.task p).state.Waits ∧ s' = s) := by
  simp only [wakeUpProcess] at hCall
  by_cases hWaits : (s.task p).state.Waits
  · simp only [hWaits, if_true, Option.bind_eq_bind,
      Option.bind_eq_some_iff, Option.some.injEq,
      Prod.mk.injEq] at hCall
    rcases hCall with ⟨s₁, hEnter, _, rfl⟩
    exact Or.inl ⟨hWaits, hEnter⟩
  · simp only [hWaits, if_false, Option.some.injEq,
      Prod.mk.injEq] at hCall
    exact Or.inr ⟨hWaits, hCall.2.symm⟩

end FeatherOS
