import FeatherOS.Sched.Weights
import FeatherOS.Sched.Counters
import Mathlib.Algebra.BigOperators.Group.List.Basic

/-
  The load of the run queue against its tree.

  The load is the sum of the weights that were added. It is
  the sum of the weights in the tree as long as every task
  is taken out with the weight it came in with; `sys_nice`
  changes the weight of a task that is in the tree.

  Key definitions include:
    * `SchedState.LoadSums`
    * `QueueChange`
    * `LoadOk`

  Key theorems include:
    * `QueueChange.treeLoad`
    * `schedRun_loadSums`
-/

namespace FeatherOS

open LinkedTree

--------------------
-- The Property
--------------------

/- The weights of the tasks in a tree. -/
def SchedState.treeLoad
    (s : SchedState)
    (t : TaskTree) : Nat :=
  (t.nodes.map fun p => (s.task p).cfs.loadWeight.toNat).sum

/- The load is the sum over the tree that the queue holds. -/
def SchedState.LoadSums (s : SchedState) : Prop :=
  ∃ t : TaskTree, Stored s.cell s.thisRq.root t ∧
    s.thisRq.loadWeight.toNat = s.treeLoad t

--------------------
-- Conditions On A Call
--------------------

/- The 64-bit load has room for the weight. -/
def SchedState.LoadRoom
    (s : SchedState)
    (w : U64) : Prop :=
  s.thisRq.loadWeight.toNat + w.toNat < 2 ^ 64

instance
    (s : SchedState)
    (w : U64) :
    Decidable (s.LoadRoom w) :=
  inferInstanceAs (Decidable (_ < _))

/-
  Tasks that come in have room, and a task in the queue is
  niced to a value of the weight it has.
-/
def LoadOk
    (s : SchedState) :
    SchedCall → Prop
  | .fork task =>
      ∀ p, task = some p →
        s.LoadRoom (forkLoad (s.task p).priority)
  | .schedule =>
      ∀ p, s.current = some p → s.Requeues p →
        (s.task p).cfs.myQ = none →
          s.LoadRoom (s.task p).cfs.loadWeight
  | .tick => True
  | .yield =>
      ∀ p, s.current = some p → (s.task p).cfs.myQ = none →
        s.LoadRoom (s.task p).cfs.loadWeight
  | .nice increment =>
      ∀ p, s.current = some p →
        (s.task p).cfs.myQ = some thisCpu →
          niceToLoad (addNice (s.task p).priority increment) =
            (s.task p).cfs.loadWeight
  | .wakeUpProcess task =>
      ∀ p, task = some p → (s.task p).state.Waits →
        s.LoadRoom (s.task p).cfs.loadWeight
  | .scheduleTimeout _ => True
  | .exit _ => True
  | _ => False

--------------------
-- Changes Of The Queue
--------------------

/- At most one task comes in or goes out, and is counted. -/
inductive QueueChange (s s' : SchedState) : Prop
| same
    (hQ : ∀ q, (s'.task q).cfs.myQ = (s.task q).cfs.myQ)
    (hCount : s'.counters = s.counters)
| enter
    {p : Addr}
    (hOut : (s.task p).cfs.myQ = none)
    (hIn : (s'.task p).cfs.myQ = some thisCpu)
    (hOther : ∀ q, q ≠ p →
      (s'.task q).cfs.myQ = (s.task q).cfs.myQ)
    (hCount :
      s'.counters =
        s.counters.add (s'.task p).cfs.loadWeight)
    (hRoom : s.LoadRoom (s'.task p).cfs.loadWeight)
| leave
    {p : Addr}
    (hIn : (s.task p).cfs.myQ = some thisCpu)
    (hOut : (s'.task p).cfs.myQ = none)
    (hOther : ∀ q, q ≠ p →
      (s'.task q).cfs.myQ = (s.task q).cfs.myQ)
    (hCount :
      s'.counters = s.counters.sub (s.task p).cfs.loadWeight)

section Change

variable {s s' : SchedState}
variable {t u : TaskTree}
variable {p : Addr}

/- Only the weights in the tree matter. -/
theorem treeLoad_congr
    (hWeight : ∀ q ∈ t.nodes,
      (s'.task q).cfs.loadWeight = (s.task q).cfs.loadWeight) :
    s'.treeLoad t = s.treeLoad t := by
  unfold SchedState.treeLoad
  congr 1
  apply List.map_congr_left
  intro q hq
  rw [hWeight q hq]

/- The order of the nodes does not matter. -/
theorem treeLoad_perm
    {cells : List Addr}
    (s : SchedState)
    (hPerm : t.nodes.Perm cells) :
    s.treeLoad t =
      (cells.map fun p =>
        (s.task p).cfs.loadWeight.toNat).sum :=
  (hPerm.map _).sum_eq

/- One task more in the tree. -/
theorem SchedState.Linked.perm_cons
    (hLinked : s.Linked t)
    (hLinked' : s'.Linked u)
    (hOut : (s.task p).cfs.myQ = none)
    (hIn : (s'.task p).cfs.myQ = some thisCpu)
    (hOther : ∀ q, q ≠ p →
      (s'.task q).cfs.myQ = (s.task q).cfs.myQ) :
    u.nodes.Perm (p :: t.nodes) := by
  rw [List.perm_ext_iff_of_nodup hLinked'.stored.nodup
    (List.nodup_cons.mpr
      ⟨hLinked.not_mem hOut, hLinked.stored.nodup⟩)]
  intro q
  rw [List.mem_cons, hLinked'.members]
  by_cases hq : q = p
  · simp [hq, hIn]
  · rw [hOther q hq, hLinked.members]
    simp [hq]

/- The same tasks in the tree. -/
theorem SchedState.Linked.perm
    (hLinked : s.Linked t)
    (hLinked' : s'.Linked u)
    (hQ : ∀ q, (s'.task q).cfs.myQ = (s.task q).cfs.myQ) :
    u.nodes.Perm t.nodes := by
  rw [List.perm_ext_iff_of_nodup hLinked'.stored.nodup
    hLinked.stored.nodup]
  intro q
  rw [hLinked'.members, hLinked.members, hQ]

/- The weight of a task in the tree is part of the sum. -/
theorem SchedState.Linked.weight_le
    (hLinked : s.Linked t)
    (hSum : s.thisRq.loadWeight.toNat = s.treeLoad t)
    (hIn : (s.task p).cfs.myQ = some thisCpu) :
    (s.task p).cfs.loadWeight.toNat ≤
      s.thisRq.loadWeight.toNat := by
  have hMem := (hLinked.members p).mpr hIn
  rw [hSum, treeLoad_perm s (List.perm_cons_erase hMem),
    List.map_cons, List.sum_cons]
  exact Nat.le_add_right _ _

/- The load stays the sum over the tree. -/
theorem QueueChange.treeLoad
    (hChange : QueueChange s s')
    (hLinked : s.Linked t)
    (hLinked' : s'.Linked u)
    (hWeight : ∀ q, (s.task q).cfs.myQ = some thisCpu →
      (s'.task q).cfs.loadWeight = (s.task q).cfs.loadWeight)
    (hSum : s.thisRq.loadWeight.toNat = s.treeLoad t) :
    s'.thisRq.loadWeight.toNat = s'.treeLoad u := by
  have hKeep : s'.treeLoad t = s.treeLoad t :=
    treeLoad_congr fun q hq =>
      hWeight q ((hLinked.members q).mp hq)
  cases hChange with
  | same hQ hCount =>
      have hLoad : s'.thisRq.loadWeight = s.thisRq.loadWeight :=
        congrArg Counters.loadWeight hCount
      rw [treeLoad_perm s' (hLinked.perm hLinked' hQ), hLoad,
        hSum, ← hKeep]
      rfl
  | @enter p hOut hIn hOther hCount hRoom =>
      have hLoad : s'.thisRq.loadWeight =
          s.thisRq.loadWeight + (s'.task p).cfs.loadWeight :=
        congrArg Counters.loadWeight hCount
      have hPerm :=
        hLinked.perm_cons hLinked' hOut hIn hOther
      rw [treeLoad_perm s' hPerm, List.map_cons, List.sum_cons,
        hLoad, BitVec.toNat_add, Nat.mod_eq_of_lt hRoom, hSum,
        ← hKeep, Nat.add_comm]
      rfl
  | @leave p hIn hOut hOther hCount =>
      have hLoad : s'.thisRq.loadWeight =
          s.thisRq.loadWeight - (s.task p).cfs.loadWeight :=
        congrArg Counters.loadWeight hCount
      have hLe := hLinked.weight_le hSum hIn
      have hPerm :=
        hLinked'.perm_cons hLinked hOut hIn
          fun q hq => (hOther q hq).symm
      have hParts : s'.treeLoad t =
          (s.task p).cfs.loadWeight.toNat + s'.treeLoad u := by
        rw [treeLoad_perm s' hPerm, List.map_cons, List.sum_cons,
          hWeight p hIn]
        rfl
      rw [hLoad, BitVec.toNat_sub_of_le (BitVec.le_def.mpr hLe),
        hSum, ← hKeep, hParts]
      omega

end Change

--------------------
-- What A Call Changes
--------------------

section Calls

variable {s s' : SchedState}
variable {p : Addr}
variable {fuel : Nat}

theorem SameQueue.change
    (hSame : SameQueue s s') :
    QueueChange s s' :=
  .same hSame.myQ hSame.count

theorem PutBack.change
    (hPut : PutBack p s s')
    (hWeight :
      (s'.task p).cfs.loadWeight = (s.task p).cfs.loadWeight)
    (hRoom : (s.task p).cfs.myQ = none →
      s.LoadRoom (s.task p).cfs.loadWeight) :
    QueueChange s s' := by
  rcases s.myQ_eq p with hQ | hQ
  · have hCount := hPut.count
    rw [if_pos hQ, ← hWeight] at hCount
    apply QueueChange.enter hQ hPut.self hPut.other hCount
    rw [hWeight]
    exact hRoom hQ
  · exact (hPut.same hQ).change

/- A task that was in no queue comes in. -/
theorem cfsEnqueue_change
    (hOut : (s.task p).cfs.myQ = none)
    (hRoom : s.LoadRoom (s.task p).cfs.loadWeight)
    (hCall : cfsEnqueue fuel s thisCpu p = some s') :
    QueueChange s s' := by
  have hStep := cfsEnqueue_step hCall
  have hCount := cfsEnqueue_counters hCall
  rw [← hStep.loadWeight] at hCount hRoom
  exact .enter hOut hStep.self hStep.other hCount hRoom

theorem cfsDequeue_change
    (hCall : cfsDequeue fuel s thisCpu p = some s') :
    QueueChange s s' := by
  have hStep := cfsDequeue_step hCall
  have hCount := cfsDequeue_counters hCall
  rcases s.myQ_eq p with hQ | hQ
  · rw [cfsDequeue_out hQ hCall]
    exact .same (fun _ => rfl) rfl
  · have hNe : ¬ (s.task p).cfs.myQ = none := by simp [hQ]
    rw [if_neg hNe] at hCount
    exact .leave hQ hStep.self hStep.other hCount

/- What is the same before a change. -/
theorem QueueChange.after
    {s₀ : SchedState}
    (hSame : SameQueue s₀ s)
    (hWeight : ∀ q,
      (s.task q).cfs.loadWeight = (s₀.task q).cfs.loadWeight)
    (hChange : QueueChange s s') :
    QueueChange s₀ s' := by
  have hLoad : s.thisRq.loadWeight = s₀.thisRq.loadWeight :=
    congrArg Counters.loadWeight hSame.count
  cases hChange with
  | same hQ hCount =>
      exact (hSame.trans ⟨hQ, hCount⟩).change
  | @enter p hOut hIn hOther hCount hRoom =>
      rw [hSame.myQ] at hOut
      rw [hSame.count] at hCount
      unfold SchedState.LoadRoom at hRoom
      rw [hLoad] at hRoom
      apply QueueChange.enter hOut hIn _ hCount hRoom
      intro q hq
      rw [hOther q hq, hSame.myQ]
  | @leave p hIn hOut hOther hCount =>
      rw [hSame.myQ] at hIn
      rw [hSame.count, hWeight] at hCount
      apply QueueChange.leave hIn hOut _ hCount
      intro q hq
      rw [hOther q hq, hSame.myQ]

/- What is the same after a change. -/
theorem QueueChange.before
    {s₁ : SchedState}
    (hChange : QueueChange s s₁)
    (hSame : SameQueue s₁ s')
    (hWeight : ∀ q,
      (s'.task q).cfs.loadWeight =
        (s₁.task q).cfs.loadWeight) :
    QueueChange s s' := by
  cases hChange with
  | same hQ hCount =>
      exact (SameQueue.trans ⟨hQ, hCount⟩ hSame).change
  | @enter p hOut hIn hOther hCount hRoom =>
      rw [← hSame.myQ] at hIn
      rw [← hSame.count, ← hWeight] at hCount
      rw [← hWeight] at hRoom
      apply QueueChange.enter hOut hIn _ hCount hRoom
      intro q hq
      rw [hSame.myQ, hOther q hq]
  | @leave p hIn hOut hOther hCount =>
      rw [← hSame.myQ] at hOut
      rw [← hSame.count] at hCount
      apply QueueChange.leave hIn hOut _ hCount
      intro q hq
      rw [hSame.myQ, hOther q hq]

/- A sleeping task is taken out and not put back. -/
theorem scheduleTimeout_change
    {ns : U64}
    (hCall : scheduleTimeout fuel s ns = some s') :
    QueueChange s s' := by
  have hWeights := scheduleTimeout_weighing hCall
  rcases scheduleTimeout_split hCall with
    ⟨_, rfl⟩ | ⟨p, s₁, _, hLeave, hState, hSchedule⟩
  · exact .same (fun _ => rfl) rfl
  · have hStep := cfsDequeue_step hLeave
    generalize s.clock + ns / 1000000#64 = deadline
      at hLeave hStep
    have hMark : SameQueue s (s.asleep p deadline) :=
      modifyTask_same s p _ rfl
    have hWeight : ∀ q,
        ((s.asleep p deadline).task q).cfs.loadWeight =
          (s.task q).cfs.loadWeight := by
      intro q
      rw [s.cfs_asleep]
    have hLast : SameQueue s₁ s' := by
      rcases schedule_putBack hSchedule with
        hSame | ⟨q, hq, hBack, _⟩
      · exact hSame
      · exact absurd hBack
          (SchedState.not_requeues_of_sleeping (hState q hq))
    have hGone :=
      (cfsDequeue_change hLeave).after hMark hWeight
    apply hGone.before hLast
    intro q
    have hAll := congrArg Weighing.loadWeight (hWeights q)
    exact hAll.trans
      ((hStep.loadWeight q).trans (hWeight q)).symm

theorem wakeUpProcess_change
    {r : Int}
    (hFree : (s.task p).state.Waits →
      (s.task p).cfs.myQ = none)
    (hRoom : (s.task p).state.Waits →
      s.LoadRoom (s.task p).cfs.loadWeight)
    (hCall : wakeUpProcess fuel s (some p) = some (r, s')) :
    QueueChange s s' := by
  rcases wakeUpProcess_split hCall with
    ⟨hWaits, hEnter⟩ | ⟨_, rfl⟩
  · have hMark := setState_same s p .ready
    have hWeight : ∀ q,
        ((s.setState p .ready).task q).cfs.loadWeight =
          (s.task q).cfs.loadWeight := by
      intro q
      by_cases hq : q = p
      · simp [hq]
      · simp [hq]
    have hOut :
        ((s.setState p .ready).task p).cfs.myQ = none := by
      rw [hMark.myQ, hFree hWaits]
    have hFit : (s.setState p .ready).LoadRoom
        ((s.setState p .ready).task p).cfs.loadWeight := by
      rw [hWeight]
      exact hRoom hWaits
    exact (cfsEnqueue_change hOut hFit hEnter).after hMark hWeight
  · exact .same (fun _ => rfl) rfl

theorem schedFork_change
    (hOut : (s.task p).cfs.myQ = none)
    (hRoom : s.LoadRoom (forkLoad (s.task p).priority))
    (hCall : schedFork fuel s (some p) = some s') :
    QueueChange s s' := by
  have hCount := schedFork_counters hCall
  have hNew := schedFork_weighing hCall p
  have hLoad : (s'.task p).cfs.loadWeight =
      forkLoad (s.task p).priority := by
    have hAfter := congrArg Weighing.loadWeight hNew
    simp only [weighingAfter, if_true] at hAfter
    exact hAfter
  rcases schedFork_eq hCall with
    ⟨s₁, hEnter, hOther, _⟩
  have hStep := cfsEnqueue_step hEnter
  apply QueueChange.enter hOut hStep.self
  · intro q hq
    rw [hStep.other q hq, hOther q hq]
  · rw [hCount, hLoad]
    rfl
  · rw [hLoad]
    exact hRoom

/- Every call changes the queue by one task at most. -/
theorem schedCall_change
    {call : SchedCall}
    (hLinks : LinksOk s call)
    (hLoad : LoadOk s call)
    (hStep : schedStep s call s') :
    QueueChange s s' := by
  have hWeighing := schedCall_weighing hStep
  rcases hStep with ⟨fuel, hCall⟩
  cases call with
  | fork task =>
      cases task with
      | none =>
          cases hCall
          exact .same (fun _ => rfl) rfl
      | some p =>
          exact schedFork_change (hLinks p rfl) (hLoad p rfl)
            hCall
  | schedule =>
      rcases schedule_putBack hCall with
        hSame | ⟨p, hCur, hBack, hPut⟩
      · exact hSame.change
      · exact hPut.change
          (congrArg Weighing.loadWeight (hWeighing p))
          (hLoad p hCur hBack)
  | tick =>
      have hKeep : SameQueue s s' := schedTick_same hCall
      exact hKeep.change
  | yield =>
      rcases yield_putBack hCall with
        ⟨_, hEq⟩ | ⟨p, hCur, hPut⟩
      · rw [hEq]
        exact .same (fun _ => rfl) rfl
      · exact hPut.change
          (congrArg Weighing.loadWeight (hWeighing p))
          (hLoad p hCur)
  | wakeUpProcess task =>
      rcases Option.map_eq_some_iff.mp hCall with
        ⟨⟨r, s₁⟩, hWake, rfl⟩
      cases task with
      | none =>
          cases hWake
          exact .same (fun _ => rfl) rfl
      | some p =>
          exact wakeUpProcess_change (hLinks p rfl) (hLoad p rfl)
            hWake
  | scheduleTimeout ns => exact scheduleTimeout_change hCall
  | nice increment =>
      cases hCall
      exact (sysNice_sameQueue s increment).change
  | exit task =>
      cases task with
      | none =>
          cases hCall
          exact .same (fun _ => rfl) rfl
      | some p => exact cfsDequeue_change hCall
  | _ => exact hLoad.elim

/- The weights of the tasks in the queue stay. -/
theorem schedCall_keeps_weight
    {call : SchedCall}
    (hLinks : LinksOk s call)
    (hLoad : LoadOk s call)
    (hStep : schedStep s call s')
    (hIn : (s.task p).cfs.myQ = some thisCpu) :
    (s'.task p).cfs.loadWeight = (s.task p).cfs.loadWeight := by
  have hNew :=
    congrArg Weighing.loadWeight (schedCall_weighing hStep p)
  refine Eq.trans hNew ?_
  cases call with
  | fork task =>
      simp only [weighingAfter]
      split
      next hTask =>
        have hOut := hLinks p hTask
        rw [hOut] at hIn
        cases hIn
      · rfl
  | nice increment =>
      simp only [weighingAfter]
      split
      next hCur => exact hLoad p hCur hIn
      · rfl
  | _ => rfl

end Calls

--------------------
-- Runs
--------------------

/- The condition on a call made as some current task. -/
def SumOk
    (s : SchedState)
    (op : Option Addr × SchedCall) : Prop :=
  LinksOk (s.withCurrent op.1) op.2 ∧
    LoadOk (s.withCurrent op.1) op.2

/- The tree is that of the queue, and the load its sum. -/
def SchedState.Summed (s : SchedState) : Prop :=
  ∃ t : TaskTree, s.Queue False t ∧
    s.thisRq.loadWeight.toNat = s.treeLoad t

theorem SchedState.Summed.step
    {s s' : SchedState}
    {op : Option Addr × SchedCall}
    (hSummed : s.Summed)
    (hOk : SumOk s op)
    (hStep : schedStepAs s op s') :
    s'.Summed := by
  rcases hSummed with ⟨t, hQueue, hSum⟩
  rcases hOk with ⟨hLinks, hLoad⟩
  have hHere := hQueue.withCurrent op.1
  rcases schedCall_queue ⟨t, hHere⟩ hLinks (fun h => h.elim)
      (fun h => h.elim) hStep with
    ⟨u, hQueue'⟩
  refine ⟨u, hQueue', ?_⟩
  have hChange := schedCall_change hLinks hLoad hStep
  apply hChange.treeLoad hHere.linked hQueue'.linked _ hSum
  intro q hIn
  exact schedCall_keeps_weight hLinks hLoad hStep hIn

/-
  Every run whose calls meet the condition; in its end state
  no task of the queue weighs more than the whole load, so
  that taking it out does not wrap.
-/
theorem schedRun_loadSums
    {s₀ s : SchedState}
    {ops : List (Option Addr × SchedCall)}
    (hStart : s₀.Started)
    (hRun : Run (Guarded SumOk schedStepAs) s₀ ops s) :
    s.LoadSums ∧
      ∀ p, (s.task p).cfs.myQ ≠ none →
        (s.task p).cfs.loadWeight ≤ s.thisRq.loadWeight := by
  have hSummed := hRun.invariant SchedState.Summed
    (fun _ _ _ hSummed hStep => hSummed.step hStep.1 hStep.2)
    ⟨.nil, hStart.queue, by
      rcases hStart with ⟨proc, waitNode, heap, _, rfl⟩
      rfl⟩
  rcases hSummed with ⟨t, hQueue, hSum⟩
  refine ⟨⟨t, hQueue.linked.stored, hSum⟩, ?_⟩
  intro p hIn
  rw [BitVec.le_def]
  apply hQueue.linked.weight_le hSum
  rcases s.myQ_eq p with hNone | hSome
  · exact absurd hNone hIn
  · exact hSome

theorem schedRun_loadSums_sleep :
    ∃ s, Run schedStepAs SchedState.ready sleepCalls s ∧
      s.LoadSums := by
  have hRun : Run (Guarded SumOk schedStepAs) SchedState.ready
      sleepCalls (sleepState 6) := by
    refine sleepRun_guarded fun n op hOp => ?_
    rcases sleepState_queue hOp with ⟨t, hQueue⟩
    refine ⟨(sleepState_queueOk hOp hQueue).1, ?_⟩
    match n, hOp with
    | 0, rfl =>
        rintro p ⟨⟩
        decide +kernel
    | 1, rfl =>
        rintro p ⟨⟩
        decide +kernel
    | 2, rfl =>
        intro p hCur
        cases hCur
    | 3, rfl => trivial
    | 4, rfl =>
        rintro p ⟨⟩ _
        decide +kernel
    | 5, rfl =>
        rintro p ⟨⟩ _ _
        decide +kernel
  exact ⟨_, hRun.of_guarded,
    (schedRun_loadSums SchedState.ready_started hRun).1⟩

/- A forked task is niced while it is in the tree. -/
theorem sysNice_breaks_sum :
    ∃ s, Run schedStepAs SchedState.ready
        [(none, .fork (some taskA)), (none, .schedule),
          (some taskA, .nice 5)] s ∧
      ¬ s.LoadSums := by
  have hEnd :
      (schedCalls 2 SchedState.ready
        [(none, .fork (some taskA)), (none, .schedule),
          (some taskA, .nice 5)]).map
        (fun s => (s.thisRq.root, s.cell taskA,
          (s.task taskA).cfs.loadWeight,
          s.thisRq.loadWeight)) =
      some
        (some taskA,
          { left := none, right := none
            parent := none, data := 0#64 },
          20#64, 1024#64) := by
    decide +kernel
  rcases Option.map_eq_some_iff.mp hEnd with
    ⟨s, hCalls, hFacts⟩
  simp only [Prod.mk.injEq] at hFacts
  rcases hFacts with ⟨hRoot, hCell, hWeight, hLoad⟩
  refine ⟨s, run_of_schedCalls hCalls, ?_⟩
  rintro ⟨t, hStored, hSum⟩
  have hTop := hStored.root_eq
  rw [hRoot] at hTop
  rcases Tree.eq_node_of_rootPtr hTop.symm with ⟨l, d, r, rfl⟩
  have hHere := hStored.rep.1
  rw [hCell] at hHere
  injection hHere with hLeft hRight _ _
  have hl := Tree.eq_nil_of_rootPtr hLeft.symm
  have hr := Tree.eq_nil_of_rootPtr hRight.symm
  subst hl hr
  rw [hLoad] at hSum
  simp [SchedState.treeLoad, hWeight] at hSum

end FeatherOS
