import FeatherOS.Process.Model

/-
  The scheduler of `kernel/sched/schedule.c` and the wait
  queues of `kernel/sched/task.c`.

  Run queues and wait queues are kept in maps next to the
  task records of `ProcState`. A loop gets a number of turns
  and gives `none` when they are used up; a call also gives
  `none` when it divides by zero. The registers that
  `switch_to` saves and loads are left out; the calls of it
  are kept as a list.

  Key definitions include:
    * `SchedState`
    * `cfsEnqueue`
    * `cfsDequeue`
    * `schedule`
    * `schedTick`
    * `yield`
    * `setTaskState`
    * `wakeUp`
    * `schedCall`
-/

namespace FeatherOS

--------------------
-- State
--------------------

/- cfs_rq_t -/
structure CfsRq where
  root : Option Addr
  idleTask : Option Addr
  nrRunning : U32
  minVruntime : U64
  execClock : U64
  loadWeight : U64

/- process_wait_queue_t -/
structure WaitNode where
  task : Option Addr
  next : Option Addr

/- The globals of both files and what their pointers reach. -/
structure SchedState where
  proc : ProcState
  runQueues : Fin nrCpus → CfsRq
  clock : U64
  totalSwitches : U64
  idleCalls : U64
  busyTime : U64
  idleTime : U64
  initialized : Bool
  waitNode : Addr → WaitNode
  heap : Heap
  /- the calls of `switch_to`, the last one first -/
  switches : List (Addr × Addr)

/- this_cpu -/
def thisCpu : Fin nrCpus :=
  ⟨0, by decide⟩

namespace SchedState

/- The zeroed globals of `schedule.c`. -/
def boot
    (proc : ProcState)
    (waitNode : Addr → WaitNode)
    (heap : Heap) :
    SchedState where
  proc := proc
  runQueues := fun _ => ⟨none, none, 0#32, 0#64, 0#64, 0#64⟩
  clock := 0#64
  totalSwitches := 0#64
  idleCalls := 0#64
  busyTime := 0#64
  idleTime := 0#64
  initialized := false
  waitNode := waitNode
  heap := heap
  switches := []

def task (s : SchedState) (p : Addr) : Task :=
  s.proc.task p

/- get_current_task -/
def current (s : SchedState) : Option Addr :=
  s.proc.currentTask

def modifyTask
    (s : SchedState)
    (p : Addr)
    (f : Task → Task) :
    SchedState :=
  { s with proc := s.proc.modifyTask p f }

def modifyCfs
    (s : SchedState)
    (p : Addr)
    (f : CfsEntity → CfsEntity) :
    SchedState :=
  s.modifyTask p fun t => { t with cfs := f t.cfs }

def setState
    (s : SchedState)
    (p : Addr)
    (state : TaskState) :
    SchedState :=
  s.modifyTask p fun t => { t with state := state }

def modifyRq
    (s : SchedState)
    (rq : Fin nrCpus)
    (f : CfsRq → CfsRq) :
    SchedState :=
  { s with
    runQueues :=
      Function.update s.runQueues rq (f (s.runQueues rq)) }

/- The kernel goes on in the context of another task. -/
def withCurrent
    (s : SchedState)
    (current : Option Addr) :
    SchedState :=
  { s with proc := { s.proc with currentTask := current } }

end SchedState

--------------------
-- Nice Values
--------------------

/- CFS_LOAD_SHIFT -/
def cfsLoadShift : Nat := 6

/- CFS_MIN_GRANULARITY_NS -/
def cfsMinGranularityNs : U64 := 1000000#64

/- CFS_LATENCY_NS -/
def cfsLatencyNs : U64 := 60000000#64

/- NICE_0_LOAD -/
def nice0Load : U64 := 1024#64

/- The weights for -20 to +19. -/
def niceToWeight : List U32 :=
  [88761#32, 71755#32, 56483#32, 46273#32, 36291#32,
    29154#32, 23254#32, 18705#32, 14949#32, 11916#32,
    9548#32, 7620#32, 6100#32, 4904#32, 3906#32,
    3121#32, 2501#32, 1991#32, 1586#32, 1277#32,
    1024#32, 820#32, 655#32, 526#32, 423#32,
    335#32, 272#32, 215#32, 172#32, 137#32,
    110#32, 87#32, 70#32, 56#32, 45#32,
    36#32, 29#32, 23#32, 18#32, 15#32]

/- The bounds `nice_to_weight_val` and `sys_nice` keep to. -/
def clampNice (nice : Int) : Int :=
  let nice := if nice < -20 then -20 else nice
  if 19 < nice then 19 else nice

/- The sum is a 32-bit number, which may wrap around. -/
def addNice (priority increment : Int) : Int :=
  clampNice (BitVec.ofInt 32 (priority + increment)).toInt

def niceToWeightVal (nice : Int) : U32 :=
  niceToWeight.getD (clampNice nice + 20).toNat 0#32

def niceToLoad (nice : Int) : U64 :=
  let w := niceToWeightVal nice
  (w.setWidth 64 <<< cfsLoadShift) / nice0Load

--------------------
-- Tree Operations
--------------------

/- The places a `task_t **` of the tree can point to. -/
inductive CfsLink where
  | root (rq : Fin nrCpus)
  | left (p : Addr)
  | right (p : Addr)
  deriving DecidableEq

namespace SchedState

/- `*p` -/
def link
    (s : SchedState) :
    CfsLink → Option Addr
  | .root rq => (s.runQueues rq).root
  | .left p => (s.task p).cfs.left
  | .right p => (s.task p).cfs.right

/- `*p = v` -/
def setLink
    (s : SchedState)
    (v : Option Addr) :
    CfsLink → SchedState
  | .root rq => s.modifyRq rq fun q => { q with root := v }
  | .left p => s.modifyCfs p fun e => { e with left := v }
  | .right p => s.modifyCfs p fun e => { e with right := v }

end SchedState

/- `my_q` before a task is inserted. -/
def cfsJoin
    (s : SchedState)
    (rq : Fin nrCpus)
    (task : Addr) :
    SchedState :=
  match (s.task task).cfs.myQ with
  | none => s.modifyCfs task fun e => { e with myQ := some rq }
  | some oldQ =>
      if oldQ ≠ rq then
        let s := s.modifyRq oldQ fun q =>
          { q with nrRunning := q.nrRunning - 1#32 }
        s.modifyCfs task fun e => { e with myQ := some rq }
      else
        s

/- The loop of `cfs_enqueue`; it ends at an empty link. -/
def cfsDescend
    (s : SchedState)
    (task : Addr) :
    Nat → CfsLink → Option Addr → Option (CfsLink × Option Addr)
  | 0, _, _ => none
  | fuel + 1, p, parent =>
      match s.link p with
      | none => some (p, parent)
      | some q =>
          if (s.task task).vruntime < (s.task q).vruntime then
            cfsDescend s task fuel (.left q) (some q)
          else
            cfsDescend s task fuel (.right q) (some q)

/- `*p = task`, with the links of the task. -/
def cfsAttach
    (s : SchedState)
    (task : Addr)
    (p : CfsLink)
    (parent : Option Addr) :
    SchedState :=
  let s := s.modifyCfs task fun e =>
    { e with parent := parent, left := none, right := none }
  s.setLink (some task) p

/- The counters of a queue that has one more task. -/
def cfsAccount
    (s : SchedState)
    (rq : Fin nrCpus)
    (task : Addr) :
    SchedState :=
  s.modifyRq rq fun q =>
    { q with
      nrRunning := q.nrRunning + 1#32
      loadWeight := q.loadWeight + (s.task task).cfs.loadWeight
      minVruntime :=
        if q.minVruntime = 0#64 ∨
            (s.task task).vruntime < q.minVruntime then
          (s.task task).vruntime
        else
          q.minVruntime }

def cfsEnqueue
    (fuel : Nat)
    (s : SchedState)
    (rq : Fin nrCpus)
    (task : Addr) :
    Option SchedState := do
  let s := cfsJoin s rq task
  let (p, parent) ← cfsDescend s task fuel (.root rq) none
  some (cfsAccount (cfsAttach s task p parent) rq task)

/- The loop of `cfs_dequeue`. -/
def cfsFind
    (s : SchedState)
    (task : Addr) :
    Nat → CfsLink → Option CfsLink
  | 0, _ => none
  | fuel + 1, p =>
      match s.link p with
      | none => some p
      | some q =>
          if q = task then
            some p
          else if (s.task task).vruntime < (s.task q).vruntime
          then
            cfsFind s task fuel (.left q)
          else
            cfsFind s task fuel (.right q)

/- The left child, or else the right one. -/
def CfsEntity.successor (e : CfsEntity) : Option Addr :=
  if e.left.isSome then e.left else e.right

/- The link that led to the task leads to its successor. -/
def cfsPassOn
    (s : SchedState)
    (task : Addr)
    (p : CfsLink) :
    SchedState :=
  let successor := (s.task task).cfs.successor
  match (s.task task).cfs.parent with
  | some parent =>
      if (s.task parent).cfs.left = some task then
        s.setLink successor (.left parent)
      else
        s.setLink successor (.right parent)
  | none => s.setLink successor p

/- The successor takes the place of the task. -/
def cfsUnlink
    (s : SchedState)
    (task : Addr)
    (p : CfsLink) :
    SchedState :=
  let successor := (s.task task).cfs.successor
  let s := cfsPassOn s task p
  match successor with
  | none => s
  | some q =>
      s.modifyCfs q fun f =>
        { f with parent := (s.task task).cfs.parent }

/- `my_q` and the counters once a task has been removed. -/
def cfsLeave
    (s : SchedState)
    (rq : Fin nrCpus)
    (task : Addr) :
    SchedState :=
  let s := s.modifyCfs task fun e => { e with myQ := none }
  s.modifyRq rq fun q =>
    { q with
      nrRunning := q.nrRunning - 1#32
      loadWeight :=
        q.loadWeight - (s.task task).cfs.loadWeight }

def cfsDequeue
    (fuel : Nat)
    (s : SchedState)
    (rq : Fin nrCpus)
    (task : Addr) :
    Option SchedState :=
  match (s.task task).cfs.myQ with
  | none => some s
  | some _ => do
      let p ← cfsFind s task fuel (.root rq)
      let s :=
        if s.link p = some task then cfsUnlink s task p else s
      some (cfsLeave s rq task)

/- The loop of `pick_next_cfs`. -/
def cfsLeftmost
    (s : SchedState) :
    Nat → Addr → Option Addr
  | 0, _ => none
  | fuel + 1, p =>
      match (s.task p).cfs.left with
      | none => some p
      | some q => cfsLeftmost s fuel q

def pickNextCfs
    (fuel : Nat)
    (s : SchedState)
    (rq : Fin nrCpus) :
    Option (Option Addr) :=
  match (s.runQueues rq).root with
  | none => some none
  | some root => (cfsLeftmost s fuel root).map some

--------------------
-- Entity Operations
--------------------

/- The key a charge at the time `now` gives to a task. -/
def chargedVruntime
    (now : U64)
    (t : Task) :
    U64 :=
  let deltaExec := now - t.cfs.execStart
  t.vruntime + deltaExec * nice0Load / t.cfs.loadWeight

def updateCurrCfs
    (s : SchedState)
    (rq : Fin nrCpus)
    (current : Addr) :
    Option SchedState :=
  let now := s.clock
  let t := s.task current
  let deltaExec := now - t.cfs.execStart
  -- the division faults
  if t.cfs.loadWeight = 0#64 then
    none
  else
    let s := s.modifyTask current fun t =>
      { t with
        cfs := { t.cfs with execStart := now }
        vruntime := chargedVruntime now t }
    some (s.modifyRq rq fun q =>
      { q with
        minVruntime :=
          if (s.task current).vruntime < q.minVruntime then
            (s.task current).vruntime
          else
            q.minVruntime
        execClock := q.execClock + deltaExec })

def placeEntity
    (s : SchedState)
    (rq : Fin nrCpus)
    (task : Addr)
    (vruntime : U64) :
    SchedState :=
  let targetVruntime := (s.runQueues rq).minVruntime
  let vruntime :=
    if vruntime = 0#64 then targetVruntime else vruntime
  s.modifyTask task fun t =>
    { t with
      vruntime :=
        if vruntime < targetVruntime then targetVruntime
        else vruntime }

--------------------
-- The Main Function
--------------------

/- Charge a task and give it its new place in the queue. -/
def cfsRequeue
    (fuel : Nat)
    (s : SchedState)
    (rq : Fin nrCpus)
    (task : Addr) :
    Option SchedState := do
  let s ← updateCurrCfs s rq task
  let s ← cfsDequeue fuel s rq task
  cfsEnqueue fuel s rq task

/- A task that was running is ready again. -/
def markReady
    (s : SchedState)
    (prev : Addr) :
    SchedState :=
  if (s.task prev).state = .running then
    s.setState prev .ready
  else
    s

/- A task that can still run goes back to the queue. -/
def putPrev
    (fuel : Nat)
    (s : SchedState)
    (prev : Option Addr) :
    Option SchedState :=
  match prev with
  | none => some s
  | some prev =>
      let s := markReady s prev
      if (s.task prev).state = .ready ∧
          (s.task prev).flags &&& tfZombie = 0#32 then
        cfsRequeue fuel s thisCpu prev
      else
        some s

/- From the comparison of `next` with `prev` on. -/
def switchNext
    (s : SchedState)
    (prev next : Option Addr) :
    SchedState :=
  if next = prev then
    s
  else
    let s := { s with totalSwitches := s.totalSwitches + 1#64 }
    match next with
    | none => s
    | some next =>
        let s := s.modifyTask next fun t =>
          { t with
            cfs := { t.cfs with execStart := s.clock }
            state := .running }
        match prev with
        | none => s
        | some prev =>
            { s with switches := (prev, next) :: s.switches }

/- From the choice of the next task on. -/
def pickAndSwitch
    (fuel : Nat)
    (s : SchedState)
    (prev : Option Addr) :
    Option SchedState := do
  match ← pickNextCfs fuel s thisCpu with
  | some next => some (switchNext s prev (some next))
  | none =>
      let s := { s with idleCalls := s.idleCalls + 1#64 }
      some (switchNext s prev (s.runQueues thisCpu).idleTask)

/- update_sched_clock -/
def updateSchedClock (s : SchedState) : SchedState :=
  { s with clock := s.clock + 1#64 }

def schedule
    (fuel : Nat)
    (s : SchedState) :
    Option SchedState := do
  let prev := s.current
  let s := updateSchedClock s
  let s ← putPrev fuel s prev
  pickAndSwitch fuel s prev

--------------------
-- Tick And Yield
--------------------

/- The time slice; the division by the load may fault. -/
def schedSlice (s : SchedState) : Option U64 :=
  let q := s.runQueues thisCpu
  if 0#32 < q.nrRunning then
    if q.loadWeight = 0#64 then
      none
    else
      let slice := cfsLatencyNs * nice0Load / q.loadWeight
      if slice < cfsMinGranularityNs then
        some cfsMinGranularityNs
      else
        some slice
  else
    some cfsMinGranularityNs

/- The tick charges a running task. -/
def tickCurrent
    (fuel : Nat)
    (s : SchedState)
    (current : Addr) :
    Option SchedState :=
  if (s.task current).state = .running then do
    let s ← updateCurrCfs s thisCpu current
    let slice ← schedSlice s
    if slice ≤ s.clock - (s.task current).cfs.execStart then
      schedule fuel (s.setState current .ready)
    else
      some s
  else
    some s

def schedTick
    (fuel : Nat)
    (s : SchedState) :
    Option SchedState :=
  let s := updateSchedClock s
  match s.current with
  | none => some s
  | some current => do
      let s ← tickCurrent fuel s current
      let s := s.modifyTask current fun t =>
        { t with utime := t.utime + 1#64 }
      some { s with busyTime := s.busyTime + 1#64 }

def yield
    (fuel : Nat)
    (s : SchedState) :
    Option SchedState :=
  match s.current with
  | none => some s
  | some current => do
      let s ← cfsRequeue fuel s thisCpu current
      schedule fuel (s.setState current .ready)

--------------------
-- Sleep And Wakeup
--------------------

/- The states both ways of waking up look for. -/
def TaskState.Waits (state : TaskState) : Prop :=
  state = .blocked ∨ state = .sleeping

instance (state : TaskState) : Decidable state.Waits :=
  inferInstanceAs (Decidable (_ ∨ _))

/- A task that stops running leaves the queue. -/
def leaveRunning
    (fuel : Nat)
    (s : SchedState)
    (task : Addr)
    (state : TaskState) :
    Option SchedState :=
  if (s.task task).state = .running ∧ state ≠ .running then
    cfsDequeue fuel s thisCpu task
  else
    some s

def setTaskState
    (fuel : Nat)
    (s : SchedState)
    (task : Option Addr)
    (state : TaskState) :
    Option SchedState :=
  match task with
  | none => some s
  | some task => do
      let s ← leaveRunning fuel s task state
      let s := s.setState task state
      if state = .running then
        cfsEnqueue fuel s thisCpu task
      else
        some s

def wakeUpProcess
    (fuel : Nat)
    (s : SchedState)
    (task : Option Addr) :
    Option (Int × SchedState) :=
  match task with
  | none => some (-1, s)
  | some task =>
      if (s.task task).state.Waits then do
        let s := s.setState task .ready
        let s ← cfsEnqueue fuel s thisCpu task
        some (0, s)
      else
        some (-1, s)

def scheduleTimeout
    (fuel : Nat)
    (s : SchedState)
    (ns : U64) :
    Option SchedState :=
  match s.current with
  | none => some s
  | some current => do
      let s := s.modifyTask current fun t =>
        { t with
          sleepDeadline := s.clock + ns / 1000000#64
          state := .sleeping }
      let s ← cfsDequeue fuel s thisCpu current
      schedule fuel s

/- sizeof(process_wait_queue_t) -/
def sizeofWaitQueue : U64 := 16#64

def addToWaitQueue
    (s : SchedState)
    (wq task : Option Addr) :
    SchedState :=
  match wq, task with
  | some wq, some task =>
      match kmalloc s.heap sizeofWaitQueue with
      | (none, _) => s
      | (some entry, heap) =>
          let node : WaitNode := ⟨some task, (s.waitNode wq).next⟩
          let nodes := Function.update s.waitNode entry node
          let nodes := Function.update nodes wq
            { nodes wq with next := some entry }
          { s with heap := heap, waitNode := nodes }.modifyTask
            task fun t =>
              { t with state := .blocked, waitQueue := some wq }
  | _, _ => s

/- `curr` is the node whose `next` the loop points to. -/
def wakeUpLoop :
    Nat → SchedState → Addr → Option SchedState
  | 0, _, _ => none
  | fuel + 1, s, curr =>
      match (s.waitNode curr).next with
      | none => some s
      | some entry =>
          match (s.waitNode entry).task with
          | none => wakeUpLoop fuel s entry
          | some task =>
              if (s.task task).state.Waits then
                let s := s.setState task .ready
                let nodes := Function.update s.waitNode curr
                  { s.waitNode curr with
                    next := (s.waitNode entry).next }
                wakeUpLoop fuel { s with waitNode := nodes } curr
              else
                wakeUpLoop fuel s entry

def wakeUp
    (fuel : Nat)
    (s : SchedState)
    (wq : Option Addr) :
    Option SchedState :=
  match wq with
  | none => some s
  | some wq => wakeUpLoop fuel s wq

--------------------
-- Nice, Initialization, Fork And Exit
--------------------

def sysNice
    (s : SchedState)
    (increment : Int) :
    Int × SchedState :=
  match s.current with
  | none => (-1, s)
  | some current =>
      let newNice :=
        addNice (s.task current).priority increment
      (0,
        s.modifyTask current fun t =>
          { t with
            priority := newNice
            cfs := { t.cfs with loadWeight := niceToLoad newNice }
          })

def schedInit (s : SchedState) : SchedState :=
  if s.initialized then
    s
  else
    { s with
      runQueues := fun i =>
        { s.runQueues i with
          root := none
          nrRunning := 0#32
          minVruntime := 0#64
          loadWeight := 0#64
          idleTask := none }
      clock := 0#64
      totalSwitches := 0#64
      idleCalls := 0#64
      busyTime := 0#64
      idleTime := 0#64
      initialized := true }

/- The fields `sched_fork` sets. -/
def forkEntity (t : Task) : Task :=
  { t with
    cfs :=
      { myQ := none
        parent := none
        left := none
        right := none
        execStart := 0#64
        loadWeight :=
          if t.priority = 0 then nice0Load
          else niceToLoad t.priority }
    vruntime := 0#64 }

def schedFork
    (fuel : Nat)
    (s : SchedState)
    (task : Option Addr) :
    Option SchedState :=
  match task with
  | none => some s
  | some task =>
      let s := s.modifyTask task forkEntity
      let s := placeEntity s thisCpu task 0#64
      cfsEnqueue fuel s thisCpu task

def schedExit
    (fuel : Nat)
    (s : SchedState)
    (task : Option Addr) :
    Option SchedState :=
  match task with
  | none => some s
  | some task => cfsDequeue fuel s thisCpu task

--------------------
-- Calls
--------------------

/- What the rest of the kernel can ask of the scheduler. -/
inductive SchedCall where
  | fork (task : Option Addr)
  | schedule
  | tick
  | yield
  | wakeUpProcess (task : Option Addr)
  | scheduleTimeout (ns : U64)
  | setTaskState (task : Option Addr) (state : TaskState)
  | nice (increment : Int)
  | exit (task : Option Addr)
  | addToWaitQueue (wq task : Option Addr)
  | wakeUp (wq : Option Addr)

def schedCall
    (fuel : Nat)
    (s : SchedState) :
    SchedCall → Option SchedState
  | .fork task => schedFork fuel s task
  | .schedule => schedule fuel s
  | .tick => schedTick fuel s
  | .yield => yield fuel s
  | .wakeUpProcess task =>
      (wakeUpProcess fuel s task).map Prod.snd
  | .scheduleTimeout ns => scheduleTimeout fuel s ns
  | .setTaskState task state => setTaskState fuel s task state
  | .nice increment => some (sysNice s increment).2
  | .exit task => schedExit fuel s task
  | .addToWaitQueue wq task => some (addToWaitQueue s wq task)
  | .wakeUp wq => wakeUp fuel s wq

/- The call returns and leaves the second state. -/
def schedStep
    (s : SchedState)
    (call : SchedCall)
    (s' : SchedState) : Prop :=
  ∃ fuel, schedCall fuel s call = some s'

/- The call made while a given task is the current one. -/
def schedStepAs
    (s : SchedState)
    (op : Option Addr × SchedCall)
    (s' : SchedState) : Prop :=
  schedStep (s.withCurrent op.1) op.2 s'

/- Calls one after another, each as some current task. -/
def schedCalls
    (fuel : Nat) :
    SchedState → List (Option Addr × SchedCall) →
      Option SchedState
  | s, [] => some s
  | s, op :: ops =>
      (schedCall fuel (s.withCurrent op.1) op.2).bind fun s =>
        schedCalls fuel s ops

end FeatherOS
