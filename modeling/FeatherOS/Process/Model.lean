import FeatherOS.Kmalloc
import FeatherOS.Library.Bitmap
import Mathlib.Data.List.Range

/-
  Tasks, the process table and the PID allocator of
  `include/process.h` and `kernel/sched/task.c`.

  Task records are kept in a map from their addresses. Every
  call that allocates a record gets what `kmalloc` answers
  with. A `pid_t` and an `int` are integers. Fields that no
  function here reads or sets are left out.

  Key definitions include:
    * `Task`
    * `ProcessTable`
    * `allocPid`
    * `freePid`
    * `addTask`
    * `removeTask`
    * `kernelThread`
    * `copyProcess`
    * `processInit`
-/

namespace FeatherOS

--------------------
-- Constants
--------------------

/- MAX_PROCESSES -/
def maxProcesses : Nat := 64

/- KERNEL_STACK_SIZE -/
def kernelStackSize : U64 := 16384#64

/- NR_CPUS -/
def nrCpus : Nat := 1

/- TF_RUNNING -/
def tfRunning : U32 := 0x01#32

/- TF_ZOMBIE -/
def tfZombie : U32 := 0x08#32

/- TF_KTHREAD -/
def tfKthread : U32 := 0x20#32

/- TF_IDLE -/
def tfIdle : U32 := 0x40#32

--------------------
-- Tasks
--------------------

/- task_state_t -/
inductive TaskState where
  | new
  | ready
  | running
  | blocked
  | sleeping
  | stopped
  | zombie
  | exit
  deriving DecidableEq

/- The registers of cpu_context_t that are set one by one. -/
structure CpuContext where
  rax : U64
  rdi : U64
  rip : U64
  rsp : U64
  rflags : U64
  cs : U64
  ss : U64

/- The `cfs` part of a task. -/
structure CfsEntity where
  myQ : Option (Fin nrCpus)
  parent : Option Addr
  left : Option Addr
  right : Option Addr
  loadWeight : U64
  execStart : U64

/- task_t -/
structure Task where
  pid : Int
  ppid : Int
  uid : U32
  gid : U32
  name : Option String
  state : TaskState
  flags : U32
  cpuContext : CpuContext
  kernelStack : U64
  priority : Int
  staticPriority : Int
  dynamicPriority : Int
  vruntime : U64
  cfs : CfsEntity
  sleepDeadline : U64
  utime : U64
  fdTable : Nat → Int
  numFds : Int
  parent : Option Addr
  waitQueue : Option Addr
  kernelThreadFn : U64
  kernelThreadArg : U64

/- What `memset` with zero leaves. -/
def Task.zero : Task where
  pid := 0
  ppid := 0
  uid := 0#32
  gid := 0#32
  name := none
  state := .new
  flags := 0#32
  cpuContext := ⟨0#64, 0#64, 0#64, 0#64, 0#64, 0#64, 0#64⟩
  kernelStack := 0#64
  priority := 0
  staticPriority := 0
  dynamicPriority := 0
  vruntime := 0#64
  cfs := ⟨none, none, none, none, 0#64, 0#64⟩
  sleepDeadline := 0#64
  utime := 0#64
  fdTable := fun _ => 0
  numFds := 0
  parent := none
  waitQueue := none
  kernelThreadFn := 0#64
  kernelThreadArg := 0#64

--------------------
-- The Process Table
--------------------

/- pid_allocator_t; the bitmap is an array of words. -/
structure PidAllocator where
  nextPid : Int
  bitmap : Nat → U64

/- The parts of process_stats_t set while tasks come. -/
structure ProcessStats where
  totalTasks : U32
  kernelThreads : U32
  userTasks : U32
  lastPid : Int

/- process_table_t -/
structure ProcessTable where
  tasks : Nat → Option Addr
  numTasks : U32
  idleTask : Option Addr
  current : Option Addr
  pidAlloc : PidAllocator
  stats : ProcessStats
  initialized : Bool

/- The zeroed global. -/
def ProcessTable.zero : ProcessTable where
  tasks := fun _ => none
  numTasks := 0#32
  idleTask := none
  current := none
  pidAlloc := ⟨0, fun _ => 0#64⟩
  stats := ⟨0#32, 0#32, 0#32, 0⟩
  initialized := false

/- The task records and the globals of `task.c`. -/
structure ProcState where
  task : Addr → Task
  table : ProcessTable
  currentTask : Option Addr

/- The globals at boot. -/
def ProcState.boot (task : Addr → Task) : ProcState where
  task := task
  table := ProcessTable.zero
  currentTask := none

def ProcState.modifyTask
    (s : ProcState)
    (task : Addr)
    (f : Task → Task) :
    ProcState :=
  { s with task := Function.update s.task task (f (s.task task)) }

--------------------
-- The PID Allocator
--------------------

def pidAllocatorInit : PidAllocator where
  nextPid := 1
  bitmap := fun i => if i = 0 then 1#64 else 0#64

/- `bitmap[pid / 64] & (1ULL << (pid % 64))` is set. -/
def PidAllocator.inUse
    (alloc : PidAllocator)
    (pid : Nat) : Bool :=
  Bitmap.test alloc.bitmap pid

/- `bitmap[pid / 64] |= (1ULL << (pid % 64))` -/
def PidAllocator.mark
    (alloc : PidAllocator)
    (pid : Nat) :
    PidAllocator :=
  { alloc with bitmap := Bitmap.set alloc.bitmap pid }

/- `bitmap[pid / 64] &= ~(1ULL << (pid % 64))` -/
def PidAllocator.unmark
    (alloc : PidAllocator)
    (pid : Nat) :
    PidAllocator :=
  { alloc with bitmap := Bitmap.clr alloc.bitmap pid }

/- `next_pid++`, with the wrap to 1 -/
def PidAllocator.advance (alloc : PidAllocator) : PidAllocator :=
  let alloc := { alloc with nextPid := alloc.nextPid + 1 }
  if (maxProcesses : Int) ≤ alloc.nextPid then
    { alloc with nextPid := 1 }
  else
    alloc

/- The loop of `alloc_pid`; the first argument counts turns. -/
def allocPidLoop
    (start : Int) :
    Nat → ProcessTable → Int × ProcessTable
  | 0, table => (-1, table)
  | attempts + 1, table =>
      let pid := table.pidAlloc.nextPid
      let alloc := table.pidAlloc.advance
      if alloc.inUse pid.toNat then
        if alloc.nextPid = start then
          (-1, { table with pidAlloc := alloc })
        else
          allocPidLoop start attempts
            { table with pidAlloc := alloc }
      else
        (pid,
          { table with
            pidAlloc := alloc.mark pid.toNat
            stats := { table.stats with lastPid := pid } })

def allocPid (table : ProcessTable) : Int × ProcessTable :=
  allocPidLoop table.pidAlloc.nextPid maxProcesses table

def freePid
    (table : ProcessTable)
    (pid : Int) :
    ProcessTable :=
  if pid ≤ 0 ∨ (maxProcesses : Int) ≤ pid then
    table
  else
    let alloc := table.pidAlloc.unmark pid.toNat
    if pid < alloc.nextPid then
      { table with pidAlloc := { alloc with nextPid := pid } }
    else
      { table with pidAlloc := alloc }

--------------------
-- Process Table Operations
--------------------

/- The indices the loops over the table run through. -/
def slots : List Nat :=
  List.range maxProcesses

def findTaskByPid
    (s : ProcState)
    (pid : Int) :
    Option Addr :=
  slots.findSome? fun i =>
    match s.table.tasks i with
    | none => none
    | some task =>
        if (s.task task).pid = pid then some task else none

/- `tasks[i] = task` -/
def ProcessTable.setSlot
    (table : ProcessTable)
    (i : Nat)
    (task : Option Addr) :
    ProcessTable :=
  { table with tasks := Function.update table.tasks i task }

def addTask
    (table : ProcessTable)
    (task : Addr) :
    Int × ProcessTable :=
  match slots.find? fun i => table.tasks i = none with
  | none => (-1, table)
  | some i =>
      (0,
        { table.setSlot i (some task) with
          numTasks := table.numTasks + 1#32 })

def removeTask
    (s : ProcState)
    (task : Option Addr) :
    Int × ProcState :=
  match task with
  | none => (-1, s)
  | some task =>
      match slots.find? fun i => s.table.tasks i = some task with
      | none => (-1, s)
      | some i =>
          let table :=
            { s.table.setSlot i none with
              numTasks := s.table.numTasks - 1#32 }
          (0, { s with table := freePid table (s.task task).pid })

--------------------
-- Task Creation
--------------------

/- `block` is what `kmalloc` answers. -/
def allocateTask
    (s : ProcState)
    (block : Option Addr) :
    Option Addr × ProcState :=
  match block with
  | none => (none, s)
  | some task => (some task, s.modifyTask task fun _ => Task.zero)

/- The fields `kernel_thread` sets. -/
def setUpKernelThread
    (task : Addr)
    (fn arg : U64)
    (flags : U32)
    (t : Task) :
    Task :=
  { t with
    name := some "kernel_thread"
    state := .ready
    flags :=
      if flags = 0#32 then tfKthread else tfKthread ||| flags
    priority := 0
    staticPriority := 0
    dynamicPriority := 0
    kernelThreadFn := fn
    kernelThreadArg := arg
    cpuContext :=
      { t.cpuContext with
        rip := fn
        rdi := arg
        rsp := task + kernelStackSize - 8#64
        rflags := 0x202#64
        cs := 0x08#64
        ss := 0x10#64 } }

/- A task with a PID joins the table, or gives the PID back. -/
def joinTable
    (s : ProcState)
    (task : Addr)
    (count : ProcessStats → ProcessStats) :
    Option Addr × ProcState :=
  match addTask s.table task with
  | (0, table) =>
      (some task,
        { s with
          table := { table with stats := count table.stats } })
  | (_, table) =>
      (none, { s with table := freePid table (s.task task).pid })

/-
  What both kinds of creation do around their set-up of the
  record. `kfree` of the record changes nothing.
-/
def createTask
    (s : ProcState)
    (block : Option Addr)
    (setUp : (Addr → Task) → Addr → Task → Task)
    (count : ProcessStats → ProcessStats) :
    Option Addr × ProcState :=
  match allocateTask s block with
  | (none, s) => (none, s)
  | (some task, s) =>
      match allocPid s.table with
      | (pid, table) =>
          let s := { s with table := table }
          let s := s.modifyTask task fun t => { t with pid := pid }
          if pid < 0 then
            (none, s)
          else
            joinTable (s.modifyTask task (setUp s.task task)) task
              count

def kernelThread
    (s : ProcState)
    (block : Option Addr)
    (fn arg : U64)
    (flags : U32) :
    Option Addr × ProcState :=
  createTask s block
    (fun _ task => setUpKernelThread task fn arg flags)
    fun stats =>
      { stats with
        totalTasks := stats.totalTasks + 1#32
        kernelThreads := stats.kernelThreads + 1#32 }

/- The fields `copy_process` sets, from the parent's record. -/
def setUpCopy
    (parent : Option (Addr × Task))
    (cloneFlags stackStart : U64)
    (t : Task) :
    Task :=
  let t : Task :=
    { t with
      ppid := (parent.map fun p => p.2.pid).getD 0
      uid := (parent.map fun p => p.2.uid).getD 0#32
      gid := (parent.map fun p => p.2.gid).getD 0#32
      name :=
        match parent with
        | some p => p.2.name
        | none => some "copy_process"
      state := .ready
      flags := 0#32
      cpuContext :=
        { (parent.map fun p => p.2.cpuContext).getD
            t.cpuContext with
          rax := 0#64
          rsp := stackStart }
      parent := parent.map Prod.fst }
  match parent with
  | none => t
  | some p =>
      if cloneFlags &&& 0x04#64 = 0#64 then
        { t with fdTable := p.2.fdTable, numFds := p.2.numFds }
      else
        t

def copyProcess
    (s : ProcState)
    (block : Option Addr)
    (cloneFlags stackStart : U64) :
    Option Addr × ProcState :=
  createTask s block
    (fun records _ =>
      setUpCopy (s.currentTask.map fun p => (p, records p))
        cloneFlags stackStart)
    fun stats =>
      { stats with
        totalTasks := stats.totalTasks + 1#32
        userTasks := stats.userTasks + 1#32 }

--------------------
-- Initialization
--------------------

def processInit
    (s : ProcState)
    (block : Option Addr) :
    Int × ProcState :=
  if s.table.initialized then
    (0, s)
  else
    let s :=
      { s with
        table := { s.table with pidAlloc := pidAllocatorInit } }
    match allocateTask s block with
    | (none, s) => (-1, s)
    | (some idle, s) =>
        let s := s.modifyTask idle fun t =>
          { t with
            pid := 0
            name := some "idle"
            state := .running
            flags := tfIdle ||| tfRunning
            kernelStack := 0#64 }
        (0,
          { s with
            currentTask := some idle
            table :=
              { s.table.setSlot 0 (some idle) with
                idleTask := some idle
                current := some idle
                numTasks := 1#32
                stats :=
                  { s.table.stats with
                    totalTasks := 1#32
                    kernelThreads := 1#32 }
                initialized := true } })

end FeatherOS
