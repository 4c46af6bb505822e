import FeatherOS.Sched.Ageing
import FeatherOS.Sched.Counters

/-
  The divisions of the scheduler.

  A charge divides by the load weight of the current task
  and a tick by the load of the queue. The idle task starts
  without a weight and a nice value of 19 gives none.

  Key definitions include:
    * `schedDivisors`
    * `DivideOk`

  Key theorems include:
    * `schedRun_divisors`
-/

namespace FeatherOS

--------------------
-- The Divisors Of A Call
--------------------

/- The charge in `schedule`, if it is made. -/
def scheduleDivisors (s : SchedState) : List U64 :=
  match s.current with
  | none => []
  | some prev =>
      let s := markReady (updateSchedClock s) prev
      if (s.task prev).state = .ready ∧
          (s.task prev).flags &&& tfZombie = 0#32 then
        [(s.task prev).cfs.loadWeight]
      else
        []

/- The slice of a tick. -/
def sliceDivisors (s : SchedState) : List U64 :=
  let q := s.runQueues thisCpu
  if 0#32 < q.nrRunning then [q.loadWeight] else []

def tickDivisors (s : SchedState) : List U64 :=
  let s := updateSchedClock s
  match s.current with
  | none => []
  | some current =>
      if (s.task current).state = .running then
        (s.task current).cfs.loadWeight ::
          match updateCurrCfs s thisCpu current with
          | none => []
          | some s =>
              sliceDivisors s ++
                match schedSlice s with
                | none => []
                | some slice =>
                    if slice ≤
                        s.clock -
                          (s.task current).cfs.execStart then
                      scheduleDivisors (s.setState current .ready)
                    else
                      []
      else
        []

def yieldDivisors
    (fuel : Nat)
    (s : SchedState) :
    List U64 :=
  match s.current with
  | none => []
  | some current =>
      (s.task current).cfs.loadWeight ::
        match cfsRequeue fuel s thisCpu current with
        | none => []
        | some s => scheduleDivisors (s.setState current .ready)

/- What a call divides by, besides constants. -/
def schedDivisors
    (fuel : Nat)
    (s : SchedState) :
    SchedCall → List U64
  | .schedule => scheduleDivisors s
  | .tick => tickDivisors s
  | .yield => yieldDivisors fuel s
  | _ => []

/- The calls the divisions are looked at in. -/
def SchedCall.Divides : SchedCall → Prop
  | .fork _ => True
  | .schedule => True
  | .tick => True
  | .yield => True
  | .nice _ => True
  | _ => False

--------------------
-- Conditions On A Call
--------------------

/- The task was forked or niced, and not to 19. -/
def Weighed
    (x : SchedState × (Addr → Option WeightSource))
    (p : Addr) : Prop :=
  x.2 p ≠ none ∧ (x.1.task p).priority < 19

/- One more task of the weight leaves a load. -/
def SchedState.LoadAfter
    (s : SchedState)
    (w : U64) : Prop :=
  s.thisRq.loadWeight + w ≠ 0#64

/- A task that is new to the queue leaves a load. -/
def SchedState.Enters
    (s : SchedState)
    (p : Addr) : Prop :=
  (s.task p).cfs.myQ = none →
    s.LoadAfter (s.task p).cfs.loadWeight

/-
  The current task has been weighed where it is charged, and
  the 64-bit load is not 0 once a task has come in.
-/
def DivideOk
    (x : SchedState × (Addr → Option WeightSource))
    (op : Option Addr × SchedCall) : Prop :=
  let s := x.1.withCurrent op.1
  match op.2 with
  | .fork task =>
      ∀ p, task = some p →
        s.LoadAfter (forkLoad (s.task p).priority)
  | .schedule =>
      ∀ p, op.1 = some p → s.Requeues p →
        Weighed x p ∧ s.Enters p
  | .tick =>
      ∀ p, op.1 = some p → (s.task p).state = .running →
        Weighed x p
  | .yield =>
      ∀ p, op.1 = some p → Weighed x p ∧ s.Enters p
  | .nice _ => True
  | _ => False

--------------------
-- Calls That Return
--------------------

section Calls

variable {s s' : SchedState}
variable {p : Addr}
variable {fuel : Nat}

/- The charge is made for a task that is put back. -/
theorem mem_scheduleDivisors
    {w : U64} :
    w ∈ scheduleDivisors s ↔
      ∃ p, s.current = some p ∧ s.Requeues p ∧
        w = (s.task p).cfs.loadWeight := by
  unfold scheduleDivisors
  cases hCur : s.current with
  | none => simp
  | some p =>
      have hBack := markReady_requeues (updateSchedClock s) p
      have hLoad :
          ((markReady (updateSchedClock s) p).task
            p).cfs.loadWeight = (s.task p).cfs.loadWeight := by
        rw [markReady_eq, SchedState.task_setState, if_pos rfl]
        rfl
      simp only
      by_cases hYes : s.Requeues p
      · rw [if_pos (hBack.mpr hYes), hLoad]
        simp [hYes]
      · rw [if_neg fun h => hYes (hBack.mp h)]
        simp [hYes]

/- A tick never gets to the charge of `schedule`. -/
theorem mem_tickDivisors
    {w : U64} :
    w ∈ tickDivisors s ↔
      ∃ p, s.current = some p ∧ (s.task p).state = .running ∧
        (w = (s.task p).cfs.loadWeight ∨
          ((s.task p).cfs.loadWeight ≠ 0#64 ∧
            0#32 < s.thisRq.nrRunning ∧
            w = s.thisRq.loadWeight)) := by
  have hClock :
      (updateSchedClock s).current = s.current ∧
        (updateSchedClock s).task = s.task ∧
        (updateSchedClock s).counters = s.counters :=
    ⟨rfl, rfl, rfl⟩
  unfold tickDivisors
  simp only [hClock.1, hClock.2.1]
  cases hCur : s.current with
  | none => simp
  | some p =>
      by_cases hRun : (s.task p).state = .running
      · simp only [hRun, if_true, List.mem_cons,
          Option.some.injEq, exists_eq_left', true_and]
        apply or_congr Iff.rfl
        cases hCharge :
            updateCurrCfs (updateSchedClock s) thisCpu p with
        | none =>
            have hZero : (s.task p).cfs.loadWeight = 0#64 := by
              by_contra hLoad
              have hLoad' :
                  ((updateSchedClock s).task p).cfs.loadWeight ≠
                    0#64 := hLoad
              simp [updateCurrCfs, hLoad'] at hCharge
            simp [hZero]
        | some s₁ =>
            rcases updateCurrCfs_step hCharge with
              ⟨hStep, hLoad⟩
            have hLoad' : (s.task p).cfs.loadWeight ≠ 0#64 :=
              hLoad
            have hCount : s₁.counters = s.counters :=
              (updateCurrCfs_counters hCharge).trans hClock.2.2
            have hNr : (s₁.runQueues thisCpu).nrRunning =
                s.thisRq.nrRunning :=
              congrArg Counters.nrRunning hCount
            have hSum : (s₁.runQueues thisCpu).loadWeight =
                s.thisRq.loadWeight :=
              congrArg Counters.loadWeight hCount
            have hRest :
                (match schedSlice s₁ with
                  | none => []
                  | some slice =>
                      if slice ≤
                          s₁.clock -
                            (s₁.task p).cfs.execStart then
                        scheduleDivisors (s₁.setState p .ready)
                      else []) = [] := by
              have hZero := hStep.elapsed
              cases hSlice : schedSlice s₁ with
              | none => rfl
              | some slice =>
                  simp only [hZero, schedSlice_pos hSlice,
                    if_false]
            simp only [hRest, List.append_nil, sliceDivisors,
              hNr, hSum]
            by_cases hSome : 0#32 < s.thisRq.nrRunning
            · simp [hSome, hLoad']
            · simp [hSome]
      · simp [hRun]

end Calls

--------------------
-- Runs
--------------------

/- A task below 19 has a weight. -/
theorem WeightSource.load_ne_zero
    {a : Int}
    (last : WeightSource)
    (hBelow : a < 19) :
    last.load a ≠ 0#64 := by
  have hClamp : niceToLoad a = niceToLoad (clampNice a) := by
    have hSame : clampNice (clampNice a) = clampNice a := by
      unfold clampNice
      grind
    simp only [niceToLoad, niceToWeightVal, hSame]
  have hLow : -20 ≤ clampNice a := by
    unfold clampNice
    grind
  have hHigh : clampNice a ≤ 18 := by
    unfold clampNice
    grind
  rw [last.load_eq]
  split
  · decide
  · rw [hClamp, ne_eq, niceToLoad_eq_zero_iff hLow (by omega)]
    omega

/- Weights as recorded, and a load wherever a task is counted. -/
structure DivideInv
    (x : SchedState × (Addr → Option WeightSource)) : Prop where
  weighed : WeighedBySource x
  loaded : 0#32 < x.1.thisRq.nrRunning →
    x.1.thisRq.loadWeight ≠ 0#64

section Runs

variable {x x' : SchedState × (Addr → Option WeightSource)}
variable {op : Option Addr × SchedCall}

theorem DivideInv.weight_ne_zero
    (hInv : DivideInv x)
    {p : Addr}
    (hWeighed : Weighed x p) :
    (x.1.task p).cfs.loadWeight ≠ 0#64 := by
  rcases hWeighed with ⟨hSome, hBelow⟩
  rcases Option.ne_none_iff_exists'.mp hSome with ⟨last, hLast⟩
  have hLoad := hInv.weighed p last hLast
  change (x.1.task p).cfs.loadWeight = _ at hLoad
  rw [hLoad]
  exact last.load_ne_zero hBelow

/- The load of the queue after one call. -/
theorem DivideInv.step
    (hInv : DivideInv x)
    (hOk : DivideOk x op)
    (hStep : weighedStep x op x') :
    DivideInv x' := by
  refine ⟨hInv.weighed.step hStep, ?_⟩
  rcases hStep with ⟨⟨fuel, hCall⟩, _⟩
  rcases op with ⟨current, call⟩
  have hSame : ∀ {s : SchedState},
      s.counters = x.1.counters →
        0#32 < s.thisRq.nrRunning →
          s.thisRq.loadWeight ≠ 0#64 := by
    intro s hCount hSome
    have hNr : s.thisRq.nrRunning = x.1.thisRq.nrRunning :=
      congrArg Counters.nrRunning hCount
    have hSum : s.thisRq.loadWeight = x.1.thisRq.loadWeight :=
      congrArg Counters.loadWeight hCount
    rw [hNr] at hSome
    rw [hSum]
    exact hInv.loaded hSome
  have hAdd : ∀ {s : SchedState} {w : U64},
      s.counters = x.1.counters.add w →
        x.1.LoadAfter w → s.thisRq.loadWeight ≠ 0#64 := by
    intro s w hCount hLoad
    have hSum : s.thisRq.loadWeight =
        x.1.thisRq.loadWeight + w :=
      congrArg Counters.loadWeight hCount
    rw [hSum]
    exact hLoad
  have hPutBack : ∀ {p : Addr},
      PutBack p (x.1.withCurrent current) x'.1 →
        (x.1.withCurrent current).Enters p →
          0#32 < x'.1.thisRq.nrRunning →
            x'.1.thisRq.loadWeight ≠ 0#64 := by
    intro p hPut hEnters hSome
    have hCount := hPut.count
    split at hCount
    next hOut => exact hAdd hCount (hEnters hOut)
    next => exact hSame hCount hSome
  cases call with
  | fork task =>
      cases task with
      | none =>
          have hEq : x.1.withCurrent current = x'.1 :=
            Option.some.inj hCall
          rw [← hEq]
          exact hInv.loaded
      | some p =>
          have hFork :
              schedFork fuel (x.1.withCurrent current) (some p) =
                some x'.1 := hCall
          have hCount := schedFork_counters hFork
          intro _
          exact hAdd hCount (hOk p rfl)
  | schedule =>
      rcases schedule_putBack hCall with
        hKeep | ⟨p, hCur, hBack, hPut⟩
      · exact hSame hKeep.count
      · exact hPutBack hPut (hOk p hCur hBack).2
  | tick =>
      have hTick :
          schedTick fuel (x.1.withCurrent current) =
            some x'.1 := hCall
      have hKeep := schedTick_same hTick
      exact hSame hKeep.count
  | yield =>
      rcases yield_putBack hCall with
        ⟨_, hEq⟩ | ⟨p, hCur, hPut⟩
      · rw [hEq]
        exact hInv.loaded
      · exact hPutBack hPut (hOk p hCur).2
  | nice increment =>
      have hEq :
          (sysNice (x.1.withCurrent current) increment).2 =
            x'.1 := Option.some.inj hCall
      have hKeep :=
        sysNice_sameQueue (x.1.withCurrent current) increment
      rw [hEq] at hKeep
      exact hSame hKeep.count
  | _ => exact hOk.elim

/- No divisor of a call that meets the condition is zero. -/
theorem DivideInv.divisors
    (hInv : DivideInv x)
    (hOk : DivideOk x op)
    (fuel : Nat) :
    0#64 ∉ schedDivisors fuel (x.1.withCurrent op.1) op.2 := by
  rcases op with ⟨current, call⟩
  cases call with
  | schedule =>
      intro hZero
      rcases mem_scheduleDivisors.mp hZero with
        ⟨p, hCur, hBack, hLoad⟩
      exact hInv.weight_ne_zero (hOk p hCur hBack).1 hLoad.symm
  | tick =>
      intro hZero
      rcases mem_tickDivisors.mp hZero with ⟨p, hCur, hRun, hOr⟩
      rcases hOr with hLoad | ⟨_, hSome, hLoad⟩
      · exact hInv.weight_ne_zero (hOk p hCur hRun) hLoad.symm
      · exact hInv.loaded hSome hLoad.symm
  | yield =>
      change 0#64 ∉ yieldDivisors fuel (x.1.withCurrent current)
      unfold yieldDivisors
      cases hCur : (x.1.withCurrent current).current with
      | none => simp
      | some p =>
          have hLoad :
              ((x.1.withCurrent current).task
                p).cfs.loadWeight ≠ 0#64 :=
            hInv.weight_ne_zero (hOk p hCur).1
          simp only [List.mem_cons, not_or]
          refine ⟨fun h => hLoad h.symm, ?_⟩
          cases hRequeue :
              cfsRequeue fuel (x.1.withCurrent current) thisCpu
                p with
          | none => simp
          | some s₁ =>
              have hStep := cfsRequeue_step hRequeue
              intro hZero
              rcases mem_scheduleDivisors.mp hZero with
                ⟨q, hCur', _, hLast⟩
              have hNow : (s₁.setState p .ready).current =
                  some p := hStep.current.trans hCur
              rw [hNow] at hCur'
              injection hCur' with hEq
              subst hEq
              simp only [SchedState.task_setState, if_true,
                hStep.loadWeight] at hLast
              exact hLoad hLast.symm
  | fork task => simp [schedDivisors]
  | nice increment => simp [schedDivisors]
  | _ => exact hOk.elim

end Runs

/-
  From boot: after every run whose calls meet the condition,
  a call that meets it divides by no zero.
-/
theorem schedRun_divisors
    {task : Addr → Task}
    {block : Option Addr}
    {waitNode : Addr → WaitNode}
    {heap : Heap}
    {s : SchedState}
    {source : Addr → Option WeightSource}
    {ops : List (Option Addr × SchedCall)}
    {op : Option Addr × SchedCall}
    (hRun :
      Run (Guarded DivideOk weighedStep)
        (SchedState.atBoot task block waitNode heap,
          fun _ => none)
        ops (s, source))
    (hOk : DivideOk (s, source) op)
    (fuel : Nat) :
    0#64 ∉ schedDivisors fuel (s.withCurrent op.1) op.2 := by
  have hInv := hRun.invariant DivideInv
    (fun _ _ _ hInv hStep => hInv.step hStep.1 hStep.2)
    ⟨fun _ _ hNone => (nomatch hNone),
      fun hSome => absurd hSome (BitVec.lt_irrefl 0#32)⟩
  exact hInv.divisors hOk fuel

/- `process_init` has made this the idle task. -/
def idleBlock : Addr := 0x200000

/- The idle task is niced before its first tick. -/
theorem schedRun_divisors_nice :
    ∃ s, Run schedStepAs SchedState.bootZero
        [(some idleBlock, .nice 0)] s ∧
      0#64 ∉ schedDivisors 0 (s.withCurrent (some idleBlock))
        .tick := by
  have hEnd :
      (schedCalls 0 SchedState.bootZero
        [(some idleBlock, .nice 0)]).map
        (fun s => (s.task idleBlock).priority) =
      some 0 := by
    decide +kernel
  rcases Option.map_eq_some_iff.mp hEnd with ⟨s, hCalls, hNice⟩
  simp only [schedCalls, Option.bind_eq_some_iff,
    Option.some.injEq] at hCalls
  rcases hCalls with ⟨s, hCall, rfl⟩
  have hStep : schedStepAs SchedState.bootZero
      (some idleBlock, .nice 0) s := ⟨0, hCall⟩
  have hRun :
      Run (Guarded DivideOk weighedStep)
        (SchedState.bootZero, fun _ => none)
        [(some idleBlock, .nice 0)]
        (s, fun p => sourceAfter p none
          (some idleBlock, .nice 0)) :=
    .cons ⟨trivial, hStep, rfl⟩ (.nil _)
  have hOk :
      DivideOk
        (s, fun p => sourceAfter p none
          (some idleBlock, .nice 0))
        (some idleBlock, .tick) := by
    intro p hp _
    injection hp with hp
    subst hp
    constructor
    · exact Option.some_ne_none WeightSource.nice
    · change (s.task idleBlock).priority < 19
      rw [hNice]
      decide
  exact ⟨s, .cons hStep (.nil s), schedRun_divisors hRun hOk 0⟩

/- The first tick charges an idle task without a weight. -/
theorem firstTick_divides_by_zero :
    ¬ ∀ (task : Addr → Task) (block : Option Addr)
        (waitNode : Addr → WaitNode) (heap : Heap)
        (s : SchedState)
        (ops : List (Option Addr × SchedCall))
        (op : Option Addr × SchedCall),
      (∀ op' ∈ op :: ops, op'.2.Divides) →
        Run schedStepAs
          (SchedState.atBoot task block waitNode heap) ops s →
        ∀ fuel,
          0#64 ∉ schedDivisors fuel
            (s.withCurrent op.1) op.2 := by
  intro hAll
  have hNot := hAll (fun _ => Task.zero) (some idleBlock)
    (fun _ => ⟨none, none⟩) Heap.initial SchedState.bootZero []
    (some idleBlock, .tick)
    (fun op' hMem => by
      rw [List.mem_singleton] at hMem
      rw [hMem]
      trivial)
    (.nil _) 0
  revert hNot
  decide +kernel

end FeatherOS
