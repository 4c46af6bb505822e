import FeatherOS.Library.Run
import FeatherOS.Sched.Queue

/-
  The run queue over whole runs of the scheduler.

  A task is moved by its key, and a charge changes the key
  while the task is in the tree. Each call keeps the tree as
  long as the tasks it moves can be found and have at most
  one child.

  Key definitions include:
    * `LinksOk`
    * `RoomOk`
    * `TickOk`
    * `SchedState.RunQueue`

  Key theorems include:
    * `schedCall_queue`
    * `schedRun_runQueue`
-/

namespace FeatherOS

open LinkedTree

--------------------
-- Conditions On A Call
--------------------

/- The task can be put back by `schedule`. -/
def SchedState.PrevOk (s : SchedState) : Prop :=
  ∀ p, s.current = some p → s.Requeues p →
    s.Movable p (chargedVruntime (s.clock + 1#64) (s.task p))

/- A task that has been charged at the time `now`. -/
def Task.charged
    (now : U64)
    (t : Task) :
    Task :=
  { t with
    cfs := { t.cfs with execStart := now }
    vruntime := chargedVruntime now t }

/-
  `yield` charges twice, with one tick in between; no key of
  another queued task lies between the two results.
-/
def SchedState.SamePlace
    (s : SchedState)
    (p : Addr) : Prop :=
  ∀ q, q ≠ p → (s.task q).cfs.myQ = some thisCpu →
    (chargedVruntime s.clock (s.task p) < (s.task q).vruntime ↔
      chargedVruntime (s.clock + 1#64)
          ((s.task p).charged s.clock) <
        (s.task q).vruntime)

/- The tasks a call moves can be moved. -/
def LinksOk
    (s : SchedState) :
    SchedCall → Prop
  | .fork task =>
      ∀ p, task = some p → (s.task p).cfs.myQ = none
  | .schedule => s.PrevOk
  | .yield =>
      ∀ p, s.current = some p →
        s.Movable p (chargedVruntime s.clock (s.task p)) ∧
          ((s.task p).flags &&& tfZombie = 0#32 →
            s.SamePlace p)
  | .wakeUpProcess task =>
      ∀ p, task = some p → (s.task p).state.Waits →
        (s.task p).cfs.myQ = none
  | .scheduleTimeout _ =>
      ∀ p, s.current = some p →
        s.Movable p (s.task p).vruntime
  | .setTaskState task state =>
      ∀ p, task = some p →
        (state = .running → (s.task p).cfs.myQ = none) ∧
          ((s.task p).state = .running → state ≠ .running →
            s.Movable p (s.task p).vruntime)
  | .exit task =>
      ∀ p, task = some p → s.Movable p (s.task p).vruntime
  | _ => True

/- The queue can count a task the call inserts. -/
def RoomOk
    (s : SchedState) :
    SchedCall → Prop
  | .fork task => task ≠ none → s.Room
  | .schedule =>
      ∀ p, s.current = some p → s.Requeues p →
        (s.task p).cfs.myQ = none → s.Room
  | .yield =>
      ∀ p, s.current = some p →
        (s.task p).cfs.myQ = none → s.Room
  | .wakeUpProcess task =>
      ∀ p, task = some p → (s.task p).state.Waits → s.Room
  | .setTaskState task state =>
      task ≠ none → state = .running → s.Room
  | _ => True

/- The key a tick gives belongs to the place of the task. -/
def TickOk
    (s : SchedState) :
    SchedCall → Prop
  | .tick =>
      ∀ p, s.current = some p → (s.task p).state = .running →
        (s.task p).cfs.myQ = none ∨
        ∃ (c : TaskCtx) (l : TaskTree) (d : U64) (r : TaskTree),
          let key := chargedVruntime (s.clock + 1#64) (s.task p)
          s.Linked (c.plug (.node l p d r)) ∧
            Ctx.Admits keyLt keyLe c key ∧
            (∀ x ∈ l.values, x < key) ∧
            ∀ x ∈ r.values, key ≤ x
  | _ => True

--------------------
-- Choosing The Next Task
--------------------

/- Switching starts one task and moves none. -/
structure SwitchStep (s s' : SchedState) : Prop where
  cell : ∀ q, s'.cell q = s.cell q
  myQ : ∀ q, (s'.task q).cfs.myQ = (s.task q).cfs.myQ
  state : ∀ q, (s'.task q).state = (s.task q).state ∨
    (s'.task q).state = .running
  current : s'.current = s.current
  root : s'.thisRq.root = s.thisRq.root
  nrRunning : s'.thisRq.nrRunning = s.thisRq.nrRunning
  idleTask : s'.thisRq.idleTask = s.thisRq.idleTask

theorem switchNext_step
    (s : SchedState)
    (prev next : Option Addr) :
    SwitchStep s (switchNext s prev next) := by
  unfold switchNext
  by_cases hSame : next = prev
  · simp only [hSame, if_true]
    exact ⟨fun _ => rfl, fun _ => rfl, fun _ => Or.inl rfl, rfl,
      rfl, rfl, rfl⟩
  · simp only [hSame, if_false]
    cases next with
    | none =>
        exact ⟨fun _ => rfl, fun _ => rfl, fun _ => Or.inl rfl,
          rfl, rfl, rfl, rfl⟩
    | some next =>
        have hStart : SwitchStep s
            ({ s with
              totalSwitches := s.totalSwitches + 1#64
              }.modifyTask next fun t =>
                { t with
                  cfs := { t.cfs with execStart := s.clock }
                  state := .running }) := by
          refine ⟨?_, ?_, ?_, rfl, rfl, rfl, rfl⟩
          · intro q
            by_cases hq : q = next
            · simp only [SchedState.cell,
                SchedState.task_modifyTask, hq, if_true]
              rfl
            · simp only [SchedState.cell,
                SchedState.task_modifyTask, hq, if_false]
              rfl
          · intro q
            by_cases hq : q = next
            · simp only [SchedState.task_modifyTask, hq,
                if_true]
              rfl
            · simp only [SchedState.task_modifyTask, hq,
                if_false]
              rfl
          · intro q
            by_cases hq : q = next
            · right
              simp [hq]
            · left
              simp only [SchedState.task_modifyTask, hq,
                if_false]
              rfl
        cases prev with
        | none => exact hStart
        | some prev =>
            exact ⟨hStart.cell, hStart.myQ, hStart.state,
              hStart.current, hStart.root, hStart.nrRunning,
              hStart.idleTask⟩

variable {s s' : SchedState}
variable {fuel : Nat}

theorem pickAndSwitch_step
    {prev : Option Addr}
    (hCall : pickAndSwitch fuel s prev = some s') :
    SwitchStep s s' := by
  simp only [pickAndSwitch, Option.bind_eq_bind,
    Option.bind_eq_some_iff] at hCall
  rcases hCall with ⟨next, _, hCall⟩
  cases next with
  | some next =>
      simp only [Option.some.injEq] at hCall
      subst hCall
      exact switchNext_step s prev (some next)
  | none =>
      simp only [Option.some.injEq] at hCall
      subst hCall
      have hStep :=
        switchNext_step
          { s with idleCalls := s.idleCalls + 1#64 } prev
          s.thisRq.idleTask
      exact ⟨hStep.cell, hStep.myQ, hStep.state, hStep.current,
        hStep.root, hStep.nrRunning, hStep.idleTask⟩

variable {keyed : Prop}
variable {t : TaskTree}

theorem SwitchStep.queue
    (hStep : SwitchStep s s')
    (hQueue : s.Queue keyed t) :
    s'.Queue keyed t :=
  hQueue.congr hStep.cell hStep.root hStep.nrRunning hStep.myQ

--------------------
-- Changes Besides The Queue
--------------------

section Calls

variable {keyed : Prop}
variable {s s' : SchedState}
variable {t : TaskTree}
variable {p : Addr}
variable {fuel : Nat}

/- A change of a record that keeps links and key. -/
theorem SchedState.cell_modifyTask
    (s : SchedState)
    (p : Addr)
    (f : Task → Task)
    (hLeft : (f (s.task p)).cfs.left = (s.task p).cfs.left)
    (hRight : (f (s.task p)).cfs.right = (s.task p).cfs.right)
    (hPar : (f (s.task p)).cfs.parent = (s.task p).cfs.parent)
    (hKey : (f (s.task p)).vruntime = (s.task p).vruntime)
    (q : Addr) :
    (s.modifyTask p f).cell q = s.cell q := by
  by_cases hq : q = p
  · simp [SchedState.cell, hq, hLeft, hRight, hPar, hKey]
  · simp [SchedState.cell, hq]

theorem SchedState.cell_setState
    (s : SchedState)
    (p : Addr)
    (state : TaskState)
    (q : Addr) :
    (s.setState p state).cell q = s.cell q :=
  s.cell_modifyTask p _ rfl rfl rfl rfl q

theorem SchedState.Queue.modifyTask
    (hQueue : s.Queue keyed t)
    (p : Addr)
    (f : Task → Task)
    (hCell :
      (f (s.task p)).cfs.left = (s.task p).cfs.left ∧
      (f (s.task p)).cfs.right = (s.task p).cfs.right ∧
      (f (s.task p)).cfs.parent = (s.task p).cfs.parent ∧
      (f (s.task p)).cfs.myQ = (s.task p).cfs.myQ ∧
      (f (s.task p)).vruntime = (s.task p).vruntime) :
    (s.modifyTask p f).Queue keyed t := by
  rcases hCell with ⟨hLeft, hRight, hPar, hQ, hKey⟩
  refine hQueue.congr ?_ rfl rfl ?_
  · exact s.cell_modifyTask p f hLeft hRight hPar hKey
  · intro q
    by_cases hq : q = p
    · simp [hq, hQ]
    · simp [hq]

theorem SchedState.Queue.setState
    (hQueue : s.Queue keyed t)
    (p : Addr)
    (state : TaskState) :
    (s.setState p state).Queue keyed t :=
  hQueue.modifyTask p _ ⟨rfl, rfl, rfl, rfl, rfl⟩

theorem SchedState.Queue.countTick
    (hQueue : s.Queue keyed t)
    (p : Addr) :
    (s.countTick p).Queue keyed t :=
  (hQueue.modifyTask p
    (fun t => { t with utime := t.utime + 1#64 })
    ⟨rfl, rfl, rfl, rfl, rfl⟩).congr (fun _ => rfl) rfl rfl
      fun _ => rfl

theorem SchedState.Queue.tick
    (hQueue : s.Queue keyed t) :
    (updateSchedClock s).Queue keyed t :=
  hQueue.congr (fun _ => rfl) rfl rfl fun _ => rfl

/- Being movable depends on the queue and its tree. -/
theorem SchedState.Movable.congr
    {key : U64}
    (hMove : s.Movable p key)
    (hCell : ∀ q, s'.cell q = s.cell q)
    (hRoot : s'.thisRq.root = s.thisRq.root)
    (hQ : ∀ q, (s'.task q).cfs.myQ = (s.task q).cfs.myQ) :
    s'.Movable p key := by
  rcases hMove with hOut | ⟨c, l, d, r, hHere, hRest⟩
  · exact Or.inl ((hQ p).trans hOut)
  · exact Or.inr
      ⟨c, l, d, r, hHere.congr hCell hRoot hQ, hRest⟩

/- A task that waits for nothing can be dequeued. -/
theorem cfsDequeue_movable
    (hQueue : s.Queue keyed t)
    (hMove : s.Movable p (s.task p).vruntime)
    (hCall : cfsDequeue fuel s thisCpu p = some s') :
    ∃ u : TaskTree, s'.Queue keyed u := by
  rcases hMove with hOut | ⟨c, l, d, r, hHere, hPlace, hChild⟩
  · have hEq := cfsDequeue_out hOut hCall
    subst hEq
    exact ⟨t, hQueue⟩
  · have hTree := hQueue.linked.unique hHere
    subst hTree
    have hOrder : keyed →
        s.thisRq.nrRunning.toNat =
            (c.plug (.node l p d r)).size ∧
          ∃ d', (c.plug (.node l p d' r)).Ordered
            keyLt keyLe := by
      intro hKeyed
      rcases hQueue.keyed hKeyed with ⟨hOrd, hSize⟩
      exact ⟨hSize, d, hOrd⟩
    rcases cfsDequeue_queue hHere hOrder hPlace hChild hCall
      with ⟨e, hGone, _⟩
    exact ⟨_, hGone⟩

--------------------
-- Schedule, Tick And Yield
--------------------

theorem putPrev_queue
    (hQueue : s.Queue keyed t)
    (hMove : s.Requeues p →
      s.Movable p (chargedVruntime s.clock (s.task p)))
    (hRoom : keyed → s.Requeues p →
      (s.task p).cfs.myQ = none → s.Room)
    (hCall : putPrev fuel s (some p) = some s') :
    ∃ u : TaskTree, s'.Queue keyed u := by
  have hReady : (markReady s p).Queue keyed t := by
    rw [markReady_eq]
    exact hQueue.setState p _
  rcases putPrev_split hCall with ⟨hBack, hRequeue⟩ | ⟨_, rfl⟩
  · rw [markReady_eq] at hRequeue hReady
    generalize hState : (s.task p).state.afterRunning = state
      at hRequeue hReady
    have hTask : (s.setState p state).task p =
        { s.task p with state := state } := by simp
    have hCell := s.cell_setState p state
    have hQ : ∀ q, ((s.setState p state).task q).cfs.myQ =
        (s.task q).cfs.myQ := by
      intro q
      by_cases hq : q = p
      · simp [hq]
      · simp [hq]
    have hKey :
        chargedVruntime (s.setState p state).clock
            ((s.setState p state).task p) =
          chargedVruntime s.clock (s.task p) := by
      rw [hTask]
      rfl
    have hMove' := (hMove hBack).congr hCell rfl hQ
    rw [← hKey] at hMove'
    rcases cfsRequeue_queue hReady hMove'
        (fun h hOut => hRoom h hBack ((hQ p).symm.trans hOut))
        hRequeue with
      ⟨c, hDone, _⟩
    exact ⟨_, hDone⟩
  · exact ⟨t, hReady⟩

theorem schedule_queue
    (hQueue : s.Queue keyed t)
    (hMove : s.PrevOk)
    (hRoom : keyed → RoomOk s .schedule)
    (hCall : schedule fuel s = some s') :
    ∃ u : TaskTree, s'.Queue keyed u := by
  rcases schedule_split hCall with ⟨s₁, hPut, hNext⟩
  have hMid : ∃ u : TaskTree, s₁.Queue keyed u := by
    cases hCur : s.current with
    | none =>
        rw [hCur] at hPut
        cases hPut
        exact ⟨t, hQueue.tick⟩
    | some p =>
        rw [hCur] at hPut
        apply putPrev_queue hQueue.tick _ _ hPut
        · intro hBack
          exact (hMove p hCur hBack).congr (fun _ => rfl) rfl
            fun _ => rfl
        · intro hKeyed hBack hOut
          exact hRoom hKeyed p hCur hBack hOut
  rcases hMid with ⟨u, hMid⟩
  exact ⟨u, (pickAndSwitch_step hNext).queue hMid⟩

variable {u : TaskTree}
variable {c : TaskCtx}
variable {f : Frame Addr U64}

/- The key of every frame is the key of its task. -/
theorem SchedState.frame_key
    (hStored : Stored s.cell s.thisRq.root (c.plug u))
    (hf : f ∈ c) :
    (s.task f.ptr).vruntime = f.data ∧
      ∀ q ∈ u.nodes, f.ptr ≠ q := by
  constructor
  · rcases List.append_of_mem hf with ⟨c₁, c₂, rfl⟩
    rw [Ctx.plug_append] at hStored
    have hTop := (((rep_plug_iff _ _).mp hStored.rep).1).top
    have hData := congrArg Cell.data hTop
    cases f with
    | left q d r => exact hData
    | right l q d => exact hData
  · rintro q hq rfl
    have hNodup := hStored.nodup
    rw [Ctx.nodup_plug_iff] at hNodup
    exact hNodup.2.2 f.ptr (Ctx.ptr_mem_nodes hf) hq

/- It is a queued task. -/
theorem SchedState.Linked.frame_queued
    (hLinked : s.Linked (c.plug u))
    (hf : f ∈ c) :
    (s.task f.ptr).cfs.myQ = some thisCpu := by
  rw [← hLinked.members, Ctx.mem_plug_iff]
  exact Or.inl (Ctx.ptr_mem_nodes hf)

/- The second charge of `yield`, one tick after the first. -/
theorem RequeueStep.nextKey
    (hStep : RequeueStep p s s')
    (state : TaskState) :
    chargedVruntime
        ((s'.setState p state).clock + 1#64)
        ((s'.setState p state).task p) =
      chargedVruntime (s.clock + 1#64)
        ((s.task p).charged s.clock) := by
  have hClock : (s'.setState p state).clock = s.clock :=
    hStep.clock
  simp [chargedVruntime, Task.charged, hClock, hStep.key,
    hStep.execStart, hStep.loadWeight]

/-
  The place stays when the two keys compare alike with the
  keys around it.
-/
theorem RequeueStep.admits
    (hStep : RequeueStep p s s')
    (hStored : Stored s'.cell s'.thisRq.root (c.plug u))
    (hIn : p ∈ u.nodes)
    (hSame : ∀ f ∈ c,
      (chargedVruntime s.clock (s.task p) <
          (s.task f.ptr).vruntime ↔
        chargedVruntime (s.clock + 1#64)
            ((s.task p).charged s.clock) <
          (s.task f.ptr).vruntime))
    (hPlace : Ctx.Admits keyLt keyLe c
      (chargedVruntime s.clock (s.task p))) :
    Ctx.Admits keyLt keyLe c
      (chargedVruntime (s.clock + 1#64)
        ((s.task p).charged s.clock)) := by
  intro f hf
  rcases SchedState.frame_key hStored hf with ⟨hKey, hNe⟩
  rw [hStep.otherKey _ (hNe p hIn)] at hKey
  have hBoth := hSame f hf
  rw [hKey] at hBoth
  have hHere := hPlace f hf
  cases f with
  | left q d r => exact hBoth.mp hHere
  | right l q d =>
      apply BitVec.not_lt.mp
      intro hLt
      exact BitVec.not_lt.mpr hHere (hBoth.mpr hLt)

theorem yield_queue
    (hQueue : s.Queue keyed t)
    (hLinks : LinksOk s .yield)
    (hRoom : keyed → RoomOk s .yield)
    (hCall : yield fuel s = some s') :
    ∃ u : TaskTree, s'.Queue keyed u := by
  rcases yield_split hCall with
    ⟨_, rfl⟩ | ⟨p, s₁, hCur, hRequeue, hSchedule⟩
  · exact ⟨t, hQueue⟩
  · rcases hLinks p hCur with ⟨hMove, hSame⟩
    have hStep := cfsRequeue_step hRequeue
    rcases cfsRequeue_queue hQueue hMove
        (fun h => hRoom h p hCur) hRequeue with
      ⟨c, hMid, hPlace⟩
    have hReady := hMid.setState p .ready
    have hIn : ((s₁.setState p .ready).task p).cfs.myQ =
        some thisCpu := by
      simp [hStep.self]
    have hCur' : (s₁.setState p .ready).current = some p :=
      hStep.current.trans hCur
    apply schedule_queue hReady _ _ hSchedule
    · intro q hq hBack
      rw [hCur'] at hq
      cases hq
      right
      refine ⟨c, .nil, _, .nil, hReady.linked, ?_, Or.inl rfl⟩
      have hFlags : (s.task p).flags &&& tfZombie = 0#32 := by
        have hMark := hBack.2
        simpa [hStep.flags] using hMark
      rw [hStep.nextKey]
      apply hStep.admits hMid.linked.stored (by simp) _ hPlace
      intro f hf
      rcases SchedState.frame_key hMid.linked.stored hf with
        ⟨_, hNe⟩
      have hOther := hNe p (by simp)
      apply hSame hFlags f.ptr hOther
      rw [← hStep.other f.ptr hOther]
      exact hMid.linked.frame_queued hf
    · intro _ q hq _ hOut
      rw [hCur'] at hq
      cases hq
      rw [hIn] at hOut
      cases hOut

theorem schedTick_queue
    (hQueue : s.Queue keyed t)
    (hTick : keyed → TickOk s .tick)
    (hCall : schedTick fuel s = some s') :
    ∃ u : TaskTree, s'.Queue keyed u := by
  have hClock := hQueue.tick
  rcases schedTick_split hCall with
    ⟨_, rfl⟩ | ⟨p, s₁, hCur, rfl, hCase⟩
  · exact ⟨t, hClock⟩
  · suffices hMid : ∃ u : TaskTree, s₁.Queue keyed u by
      rcases hMid with ⟨u, hMid⟩
      exact ⟨u, hMid.countTick p⟩
    rcases hCase with ⟨hRun, hCharge⟩ | ⟨_, rfl⟩
    · rcases updateCurrCfs_step hCharge with ⟨hStep, _⟩
      cases hQ : (s.task p).cfs.myQ with
      | none => exact ⟨t, hStep.queue_out hClock hQ⟩
      | some rq =>
          by_cases hKeyed : keyed
          · rcases hTick hKeyed p hCur hRun with
              hOut | ⟨c, l, d, r, hHere, hPlace, hl, hr⟩
            · rw [hQ] at hOut
              cases hOut
            · have hTree := hQueue.linked.unique hHere
              subst hTree
              rcases hClock.keyed hKeyed with ⟨hOrd, hSize⟩
              refine ⟨_, hStep.linked hClock.linked, ?_⟩
              intro _
              refine ⟨hOrd.setData hPlace hl hr, ?_⟩
              rw [hStep.nrRunning, hSize]
              simp [Tree.size, Ctx.entries_plug]
          · have hIn : p ∈ t.nodes := by
              rw [hQueue.linked.members]
              rcases s.myQ_eq p with hNone | hSome
              · rw [hQ] at hNone
                cases hNone
              · exact hSome
            rcases Tree.exists_plug_of_mem hIn with
              ⟨c, l, d, r, rfl⟩
            exact ⟨_, hStep.linked hClock.linked,
              fun h => absurd h hKeyed⟩
    · exact ⟨t, hClock⟩

--------------------
-- Sleep And Wakeup
--------------------

theorem setTaskState_queue
    {state : TaskState}
    (hQueue : s.Queue keyed t)
    (hIn : state = .running → (s.task p).cfs.myQ = none)
    (hOut : (s.task p).state = .running → state ≠ .running →
      s.Movable p (s.task p).vruntime)
    (hRoom : keyed → state = .running → s.Room)
    (hCall : setTaskState fuel s (some p) state = some s') :
    ∃ u : TaskTree, s'.Queue keyed u := by
  rcases setTaskState_split hCall with
    ⟨hRun, hEnter⟩ | ⟨hNot, s₁, rfl, hCase⟩
  · have hState := hQueue.setState p .running
    have hFree :
        ((s.setState p .running).task p).cfs.myQ = none := by
      simp [hIn hRun]
    rcases cfsEnqueue_queue hState hFree
        (fun h => hRoom h hRun) hEnter with
      ⟨c, hDone, _⟩
    exact ⟨_, hDone⟩
  · suffices hMid : ∃ u : TaskTree, s₁.Queue keyed u by
      rcases hMid with ⟨u, hMid⟩
      exact ⟨u, hMid.setState p state⟩
    rcases hCase with ⟨hWas, hLeave⟩ | ⟨_, rfl⟩
    · exact cfsDequeue_movable hQueue (hOut hWas hNot) hLeave
    · exact ⟨t, hQueue⟩

theorem wakeUpProcess_queue
    {r : Int}
    (hQueue : s.Queue keyed t)
    (hFree : (s.task p).state.Waits →
      (s.task p).cfs.myQ = none)
    (hRoom : keyed → (s.task p).state.Waits → s.Room)
    (hCall : wakeUpProcess fuel s (some p) = some (r, s')) :
    ∃ u : TaskTree, s'.Queue keyed u := by
  rcases wakeUpProcess_split hCall with
    ⟨hWaits, hEnter⟩ | ⟨_, rfl⟩
  · have hOut :
        ((s.setState p .ready).task p).cfs.myQ = none := by
      simp [hFree hWaits]
    rcases cfsEnqueue_queue (hQueue.setState p .ready) hOut
        (fun h => hRoom h hWaits) hEnter with
      ⟨c, hDone, _⟩
    exact ⟨_, hDone⟩
  · exact ⟨t, hQueue⟩

theorem scheduleTimeout_queue
    {ns : U64}
    (hQueue : s.Queue keyed t)
    (hLinks : LinksOk s (.scheduleTimeout ns))
    (hCall : scheduleTimeout fuel s ns = some s') :
    ∃ u : TaskTree, s'.Queue keyed u := by
  rcases scheduleTimeout_split hCall with
    ⟨_, rfl⟩ | ⟨p, s₁, hCur, hLeave, hState, hSchedule⟩
  · exact ⟨t, hQueue⟩
  · generalize s.clock + ns / 1000000#64 = deadline at hLeave
    have hMid : (s.asleep p deadline).Queue keyed t :=
      hQueue.modifyTask p _ ⟨rfl, rfl, rfl, rfl, rfl⟩
    have hMove : (s.asleep p deadline).Movable p
        ((s.asleep p deadline).task p).vruntime := by
      rw [s.vruntime_asleep]
      apply (hLinks p hCur).congr
      · exact s.cell_modifyTask p _ rfl rfl rfl rfl
      · rfl
      · intro q
        rw [s.cfs_asleep]
    rcases cfsDequeue_movable hMid hMove hLeave with ⟨u, hGone⟩
    apply schedule_queue hGone _ _ hSchedule
    · intro q hq hBack
      exact absurd hBack
        (SchedState.not_requeues_of_sleeping (hState q hq))
    · intro _ q hq hBack
      exact absurd hBack
        (SchedState.not_requeues_of_sleeping (hState q hq))

/- Waking by `wake_up` moves no task. -/
theorem wakeUpLoop_queue
    {curr : Addr}
    (hQueue : s.Queue keyed t)
    (hCall : wakeUpLoop fuel s curr = some s') :
    s'.Queue keyed t := by
  induction fuel generalizing s curr with
  | zero => simp [wakeUpLoop] at hCall
  | succ fuel ih =>
      simp only [wakeUpLoop] at hCall
      cases hNext : (s.waitNode curr).next with
      | none =>
          simp only [hNext, Option.some.injEq] at hCall
          exact hCall ▸ hQueue
      | some entry =>
          simp only [hNext] at hCall
          cases hTask : (s.waitNode entry).task with
          | none =>
              simp only [hTask] at hCall
              exact ih hQueue hCall
          | some p =>
              simp only [hTask] at hCall
              by_cases hWaits : (s.task p).state.Waits
              · simp only [hWaits, if_true] at hCall
                refine ih ?_ hCall
                exact (hQueue.setState p .ready).congr
                  (fun _ => rfl) rfl rfl fun _ => rfl
              · simp only [hWaits, if_false] at hCall
                exact ih hQueue hCall

theorem addToWaitQueue_queue
    (hQueue : s.Queue keyed t)
    (wq task : Option Addr) :
    (addToWaitQueue s wq task).Queue keyed t := by
  cases wq with
  | none => exact hQueue
  | some wq =>
      cases task with
      | none => exact hQueue
      | some p =>
          simp only [addToWaitQueue]
          cases kmalloc s.heap sizeofWaitQueue with
          | mk block heap =>
              cases block with
              | none => exact hQueue
              | some entry =>
                  simp only
                  apply SchedState.Queue.modifyTask
                  · exact hQueue.congr (fun _ => rfl) rfl rfl
                      fun _ => rfl
                  · exact ⟨rfl, rfl, rfl, rfl, rfl⟩

--------------------
-- Nice And Fork
--------------------

theorem sysNice_queue
    (hQueue : s.Queue keyed t)
    (increment : Int) :
    (sysNice s increment).2.Queue keyed t := by
  unfold sysNice
  cases s.current with
  | none => exact hQueue
  | some p =>
      exact hQueue.modifyTask p _ ⟨rfl, rfl, rfl, rfl, rfl⟩

/- A task outside the queue can be changed in any way. -/
theorem SchedState.Queue.modify_out
    (hQueue : s.Queue keyed t)
    (hOut : (s.task p).cfs.myQ = none)
    (f : Task → Task)
    (hStill : (f (s.task p)).cfs.myQ = none) :
    (s.modifyTask p f).Queue keyed t := by
  have hNotMem := hQueue.linked.not_mem hOut
  refine ⟨⟨⟨hQueue.linked.stored.rep.congr ?_,
    hQueue.linked.stored.root_eq,
    hQueue.linked.stored.nodup⟩, ?_⟩, ?_⟩
  · intro q hq
    have hNe : q ≠ p := by
      rintro rfl
      exact hNotMem hq
    simp [SchedState.cell, hNe]
  · intro q
    by_cases hq : q = p
    · subst hq
      simp [hStill, hNotMem]
    · simpa [hq] using hQueue.linked.members q
  · intro hKeyed
    rcases hQueue.keyed hKeyed with ⟨hOrd, hSize⟩
    exact ⟨hOrd, hSize⟩

theorem schedFork_queue
    (hQueue : s.Queue keyed t)
    (hOut : (s.task p).cfs.myQ = none)
    (hRoom : keyed → s.Room)
    (hCall : schedFork fuel s (some p) = some s') :
    ∃ u : TaskTree, s'.Queue keyed u := by
  simp only [schedFork] at hCall
  have hNew := hQueue.modify_out hOut forkEntity rfl
  have hFree :
      ((s.modifyTask p forkEntity).task p).cfs.myQ = none := by
    simp [forkEntity]
  have hPlaced :
      (placeEntity (s.modifyTask p forkEntity) thisCpu p
        0#64).Queue keyed t :=
    hNew.modify_out hFree _ hFree
  have hStill :
      ((placeEntity (s.modifyTask p forkEntity) thisCpu p
        0#64).task p).cfs.myQ = none := by
    simp [placeEntity, forkEntity]
  rcases cfsEnqueue_queue hPlaced hStill hRoom hCall with
    ⟨c, hDone, _⟩
  exact ⟨_, hDone⟩

end Calls

--------------------
-- Runs
--------------------

/- One call keeps the queue. -/
theorem schedCall_queue
    {call : SchedCall}
    (hQueue : ∃ t, s.Queue keyed t)
    (hLinks : LinksOk s call)
    (hRoom : keyed → RoomOk s call)
    (hTick : keyed → TickOk s call)
    (hStep : schedStep s call s') :
    ∃ t, s'.Queue keyed t := by
  rcases hQueue with ⟨t, hQueue⟩
  rcases hStep with ⟨fuel, hCall⟩
  cases call with
  | fork task =>
      cases task with
      | none =>
          cases hCall
          exact ⟨t, hQueue⟩
      | some p =>
          exact schedFork_queue hQueue (hLinks p rfl)
            (fun h => hRoom h (by simp)) hCall
  | schedule => exact schedule_queue hQueue hLinks hRoom hCall
  | tick => exact schedTick_queue hQueue hTick hCall
  | yield => exact yield_queue hQueue hLinks hRoom hCall
  | wakeUpProcess task =>
      simp only [schedCall, Option.map_eq_some_iff, Prod.exists,
        exists_eq_right] at hCall
      rcases hCall with ⟨r, hCall⟩
      cases task with
      | none =>
          cases hCall
          exact ⟨t, hQueue⟩
      | some p =>
          exact wakeUpProcess_queue hQueue (hLinks p rfl)
            (fun h => hRoom h p rfl) hCall
  | scheduleTimeout ns =>
      exact scheduleTimeout_queue hQueue hLinks hCall
  | setTaskState task state =>
      cases task with
      | none =>
          cases hCall
          exact ⟨t, hQueue⟩
      | some p =>
          rcases hLinks p rfl with ⟨hIn, hOut⟩
          exact setTaskState_queue hQueue hIn hOut
            (fun h hRun => hRoom h (by simp) hRun) hCall
  | nice increment =>
      cases hCall
      exact ⟨t, sysNice_queue hQueue increment⟩
  | exit task =>
      cases task with
      | none =>
          cases hCall
          exact ⟨t, hQueue⟩
      | some p =>
          exact cfsDequeue_movable hQueue (hLinks p rfl) hCall
  | addToWaitQueue wq task =>
      cases hCall
      exact ⟨t, addToWaitQueue_queue hQueue wq task⟩
  | wakeUp wq =>
      cases wq with
      | none =>
          cases hCall
          exact ⟨t, hQueue⟩
      | some wq => exact ⟨t, wakeUpLoop_queue hQueue hCall⟩

variable {ops : List (Option Addr × SchedCall)}

theorem run_of_schedCalls
    (hCalls : schedCalls fuel s ops = some s') :
    Run schedStepAs s ops s' := by
  induction ops generalizing s with
  | nil =>
      have hEq : s = s' := Option.some.inj hCalls
      subst hEq
      exact .nil s
  | cons op ops ih =>
      simp only [schedCalls, Option.bind_eq_some_iff] at hCalls
      rcases hCalls with ⟨s₁, hCall, hRest⟩
      exact .cons ⟨fuel, hCall⟩ (ih hRest)

/-
  The tree below the root of the queue. That the records
  hold `t` says that every child names its parent, that the
  root has none and that no task is reached twice.
-/
structure SchedState.RunQueue
    (s : SchedState)
    (t : TaskTree) : Prop where
  held : Stored s.cell s.thisRq.root t
  search : t.Ordered keyLt keyLe
  members : ∀ p,
    p ∈ t.nodes ↔ (s.task p).cfs.myQ = some thisCpu
  counted : s.thisRq.nrRunning.toNat = t.size

/- What `sched_init` leaves while no task names a queue. -/
def SchedState.Started (s : SchedState) : Prop :=
  ∃ proc waitNode heap,
    (∀ p, (proc.task p).cfs.myQ = none) ∧
      s = schedInit (SchedState.boot proc waitNode heap)

theorem SchedState.Started.queue
    (hStart : s.Started) :
    s.Queue keyed .nil := by
  rcases hStart with ⟨proc, waitNode, heap, hQ, rfl⟩
  have hInit : ∀ p,
      ((schedInit (SchedState.boot proc waitNode heap)).task
        p).cfs.myQ = none := hQ
  refine ⟨⟨⟨trivial, rfl, by simp⟩, ?_⟩, ?_⟩
  · intro p
    rw [hInit]
    simp
  · intro _
    exact ⟨trivial, rfl⟩

/- The condition on a call made as some current task. -/
def QueueOk
    (s : SchedState)
    (op : Option Addr × SchedCall) : Prop :=
  LinksOk (s.withCurrent op.1) op.2 ∧
    RoomOk (s.withCurrent op.1) op.2 ∧
    TickOk (s.withCurrent op.1) op.2

/- Any task may be made the current one. -/
theorem SchedState.Queue.withCurrent
    (hQueue : s.Queue keyed t)
    (current : Option Addr) :
    (s.withCurrent current).Queue keyed t :=
  hQueue.congr (fun _ => rfl) rfl rfl fun _ => rfl

theorem schedRun_queue
    {s₀ s : SchedState}
    (hStart : s₀.Started)
    (hRun : Run (Guarded QueueOk schedStepAs) s₀ ops s) :
    ∃ t, s.Queue True t := by
  refine hRun.invariant (fun s => ∃ t, s.Queue True t) ?_
    ⟨.nil, hStart.queue⟩
  rintro s op s' ⟨t, hQueue⟩ ⟨hOk, hStep⟩
  rcases hOk with ⟨hLinks, hRoom, hTick⟩
  exact schedCall_queue ⟨t, hQueue.withCurrent op.1⟩
    hLinks (fun _ => hRoom) (fun _ => hTick) hStep

/- Every run whose calls meet the condition. -/
theorem schedRun_runQueue
    {s₀ s : SchedState}
    {ops : List (Option Addr × SchedCall)}
    (hStart : s₀.Started)
    (hRun : Run (Guarded QueueOk schedStepAs) s₀ ops s) :
    ∃ t, s.RunQueue t := by
  rcases schedRun_queue hStart hRun with ⟨t, hQueue⟩
  rcases hQueue.keyed trivial with ⟨hOrd, hCount⟩
  exact ⟨t, hQueue.linked.stored, hOrd, hQueue.linked.members,
    hCount⟩

--------------------
-- A Run With Two Tasks
--------------------

def taskA : Addr := 0x1000
def taskB : Addr := 0x2000

/- `sched_init` while every record is a new, ready task. -/
def SchedState.ready : SchedState :=
  schedInit
    (SchedState.boot
      (ProcState.boot fun _ => { Task.zero with state := .ready })
      (fun _ => ⟨none, none⟩) Heap.initial)

theorem SchedState.ready_started :
    SchedState.ready.Started :=
  ⟨_, _, _, fun _ => rfl, rfl⟩

/-
  Two tasks are forked and the first runs; it goes to sleep,
  the second wakes it up and is put back itself.
-/
def sleepCalls : List (Option Addr × SchedCall) :=
  [(none, .fork (some taskA)), (none, .fork (some taskB)),
    (none, .schedule), (some taskA, .scheduleTimeout 1000000),
    (some taskB, .wakeUpProcess (some taskA)),
    (some taskB, .schedule)]

/- The state after the first `n` calls -/
@[irreducible] def sleepState (n : Nat) : SchedState :=
  (schedCalls 3 SchedState.ready (sleepCalls.take n)).getD
    SchedState.ready

theorem schedCalls_append
    (fuel : Nat)
    (s : SchedState)
    (ops rest : List (Option Addr × SchedCall)) :
    schedCalls fuel s (ops ++ rest) =
      (schedCalls fuel s ops).bind fun s =>
        schedCalls fuel s rest := by
  induction ops generalizing s with
  | nil => rfl
  | cons op ops ih =>
      simp only [List.cons_append, schedCalls, ih,
        Option.bind_assoc]

variable {n : Nat}
variable {op : Option Addr × SchedCall}

theorem sleepState_step
    (hOp : sleepCalls[n]? = some op) :
    schedStepAs (sleepState n) op (sleepState (n + 1)) := by
  have hAll : ∀ n < 7, (schedCalls 3 SchedState.ready
      (sleepCalls.take n)).isSome = true := by
    decide +kernel
  have hn : n < 6 := (List.getElem?_eq_some_iff.mp hOp).1
  rcases Option.isSome_iff_exists.mp (hAll n (by omega)) with
    ⟨s, hCalls⟩
  rcases Option.isSome_iff_exists.mp
      (hAll (n + 1) (by omega)) with
    ⟨s', hMore⟩
  unfold sleepState
  rw [hMore, hCalls]
  rw [List.take_add_one, hOp, Option.toList_some,
    schedCalls_append, hCalls] at hMore
  simp only [schedCalls, Option.bind_some,
    Option.bind_fun_some] at hMore
  exact ⟨3, hMore⟩

theorem sleepState_zero :
    sleepState 0 = SchedState.ready := by
  unfold sleepState
  rfl

/- The calls meet the condition. -/
theorem sleepState_queueOk
    (hOp : sleepCalls[n]? = some op)
    (hQueue : (sleepState n).Queue True t) :
    QueueOk (sleepState n) op := by
  have hLinked := hQueue.linked
  match n, hOp with
  | 0, rfl =>
      refine ⟨?_, fun _ => by decide +kernel, trivial⟩
      rintro p ⟨⟩
      decide +kernel
  | 1, rfl =>
      refine ⟨?_, fun _ => by decide +kernel, trivial⟩
      rintro p ⟨⟩
      decide +kernel
  | 2, rfl =>
      refine ⟨?_, ?_, trivial⟩
      · intro p hCur
        cases hCur
      · intro p hCur
        cases hCur
  | 3, rfl =>
      refine ⟨?_, trivial, trivial⟩
      rintro p ⟨⟩
      exact (hQueue.withCurrent _).linked.movable_root
        (by decide +kernel) (by decide +kernel) _
  | 4, rfl =>
      refine ⟨?_, ?_, trivial⟩
      · rintro p ⟨⟩ _
        decide +kernel
      · rintro p ⟨⟩ _
        decide +kernel
  | 5, rfl =>
      refine ⟨?_, ?_, trivial⟩
      · rintro p ⟨⟩ _
        exact (hQueue.withCurrent _).linked.movable_root
          (by decide +kernel) (by decide +kernel) _
      · rintro p ⟨⟩ _ _
        decide +kernel

theorem sleepRun_queueOk
    (hn : n ≤ 6) :
    Run (Guarded QueueOk schedStepAs) SchedState.ready
      (sleepCalls.take n) (sleepState n) := by
  induction n with
  | zero =>
      rw [sleepState_zero]
      exact .nil _
  | succ n ih =>
      have hRun := ih (by omega)
      rcases schedRun_queue SchedState.ready_started hRun with
        ⟨t, hQueue⟩
      have hOp : sleepCalls[n]? =
          some (sleepCalls.get ⟨n, hn⟩) :=
        List.getElem?_eq_getElem hn
      rw [List.take_add_one, hOp]
      exact hRun.snoc
        ⟨sleepState_queueOk hOp hQueue, sleepState_step hOp⟩

theorem sleepState_queue
    (hOp : sleepCalls[n]? = some op) :
    ∃ t, (sleepState n).Queue True t := by
  have hn : n < 6 := (List.getElem?_eq_some_iff.mp hOp).1
  exact schedRun_queue SchedState.ready_started
    (sleepRun_queueOk (Nat.le_of_lt hn))

/- A run whose calls meet a condition one by one -/
theorem sleepRun_guarded
    {ok : SchedState → Option Addr × SchedCall → Prop}
    (hOk : ∀ n op, sleepCalls[n]? = some op →
      ok (sleepState n) op) :
    Run (Guarded ok schedStepAs) SchedState.ready sleepCalls
      (sleepState 6) := by
  have hPrefix : ∀ n ≤ 6, Run (Guarded ok schedStepAs)
      SchedState.ready (sleepCalls.take n) (sleepState n) := by
    intro n hn
    induction n with
    | zero =>
        rw [sleepState_zero]
        exact .nil _
    | succ n ih =>
        have hOp : sleepCalls[n]? =
            some (sleepCalls.get ⟨n, hn⟩) :=
          List.getElem?_eq_getElem hn
        rw [List.take_add_one, hOp]
        exact (ih (by omega)).snoc
          ⟨hOk n _ hOp, sleepState_step hOp⟩
  exact hPrefix 6 (Nat.le_refl 6)

theorem schedRun_runQueue_sleep :
    ∃ s, Run (Guarded QueueOk schedStepAs) SchedState.ready
        sleepCalls s ∧
      ∃ t, s.RunQueue t :=
  have hRun := sleepRun_queueOk (Nat.le_refl 6)
  ⟨_, hRun, schedRun_runQueue SchedState.ready_started hRun⟩

--------------------
-- A Tick That Breaks The Order
--------------------

/-
  Two forked tasks; the first has run, the second runs for
  two ticks and is charged at the root of the tree.
-/
theorem schedTick_breaks_order :
    ∃ s, Run schedStepAs SchedState.ready
        [(none, .fork (some taskA)), (none, .fork (some taskB)),
          (some taskA, .schedule), (some taskB, .tick),
          (some taskB, .tick)] s ∧
      ¬ ∃ t, s.RunQueue t := by
  have hEnd :
      (schedCalls 4 SchedState.ready
        [(none, .fork (some taskA)), (none, .fork (some taskB)),
          (some taskA, .schedule), (some taskB, .tick),
          (some taskB, .tick)]).map
        (fun s => (s.thisRq.root, s.cell taskB, s.cell taskA)) =
      some
        (some taskB,
          { left := none, right := some taskA
            parent := none, data := 2#64 },
          { left := none, right := none
            parent := some taskB, data := 1#64 }) := by
    decide +kernel
  rcases Option.map_eq_some_iff.mp hEnd with
    ⟨s, hCalls, hFacts⟩
  simp only [Prod.mk.injEq] at hFacts
  rcases hFacts with ⟨hRoot, hB, hA⟩
  refine ⟨s, run_of_schedCalls hCalls, ?_⟩
  rintro ⟨t, hQueue⟩
  have hTop := hQueue.held.root_eq
  rw [hRoot] at hTop
  rcases Tree.eq_node_of_rootPtr hTop.symm with ⟨l, d, r, rfl⟩
  rcases hQueue.held.rep with ⟨hCellB, _, hRepR⟩
  rw [hB] at hCellB
  injection hCellB with _ hRight _ hKeyB
  rcases Tree.eq_node_of_rootPtr hRight.symm with
    ⟨l', d', r', rfl⟩
  have hCellA := hRepR.1
  rw [hA] at hCellA
  injection hCellA with _ _ _ hKeyA
  have hOrder : d ≤ d' := hQueue.search.2.1 d' (by simp)
  rw [← hKeyB, ← hKeyA] at hOrder
  revert hOrder
  decide

end FeatherOS
