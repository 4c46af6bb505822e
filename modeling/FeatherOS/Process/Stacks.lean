import FeatherOS.Library.Extents
import FeatherOS.Library.Run
import FeatherOS.Process.Table

/-
  The memory under the stacks of kernel threads.

  `kernel_thread` asks for a task structure and points the
  stack pointer of the new thread KERNEL_STACK_SIZE bytes
  behind its start, so the stack lies in memory that the heap
  hands out to the next caller.

  Key definitions include:
    * `kernelThreadCall`
    * `StacksPrivate`
    * `StackCall.Ok`

  Key theorems include:
    * `kernelThread_fresh`
    * `stackStep_decided`
    * `stackRun_private_iff`
-/

namespace FeatherOS

--------------------
-- The Calls With The Heap
--------------------

/- sizeof(task_t) -/
def taskSize : U64 := 1256#64

def kernelThreadCall
    (h : Heap)
    (s : ProcState)
    (fn arg : U64)
    (flags : U32) :
    Option Addr × Heap × ProcState :=
  let block := kmalloc h taskSize
  let res := kernelThread s block.1 fn arg flags
  (res.1, block.2, res.2)

def processInitCall
    (h : Heap)
    (s : ProcState) :
    Heap × ProcState :=
  if s.table.initialized then
    (h, (processInit s none).2)
  else
    let block := kmalloc h taskSize
    (block.2, (processInit s block.1).2)

--------------------
-- Runs
--------------------

/- A thread that was returned, with its first stack pointer -/
structure Thread where
  task : Addr
  rsp : U64

/-
  The heap, the process table, the blocks that `kmalloc` has
  returned, and the threads that `kernel_thread` has.
-/
structure StackState where
  heap : Heap
  proc : ProcState
  blocks : List Extent
  threads : List Thread

inductive StackCall where
  | kmalloc (size : U64)
  | kernelThread (fn arg : U64) (flags : U32)
  | processInit

/- The block that a call of `kmalloc` adds to the others -/
def newBlock
    (h : Heap)
    (size : U64) : List Extent :=
  match (kmalloc h size).1 with
  | none => []
  | some p => [⟨p.toNat, size.toNat⟩]

def stackCall
    (s : StackState) :
    StackCall → StackState
  | .kmalloc size =>
      { s with
        heap := (kmalloc s.heap size).2
        blocks := s.blocks ++ newBlock s.heap size }
  | .kernelThread fn arg flags =>
      let res := kernelThreadCall s.heap s.proc fn arg flags
      { heap := res.2.1
        proc := res.2.2
        blocks := s.blocks ++ newBlock s.heap taskSize
        threads :=
          match res.1 with
          | none => s.threads
          | some task =>
              s.threads ++
                [⟨task, (res.2.2.task task).cpuContext.rsp⟩] }
  | .processInit =>
      let res := processInitCall s.heap s.proc
      { s with
        heap := res.1
        proc := res.2
        blocks :=
          if s.proc.table.initialized then s.blocks
          else s.blocks ++ newBlock s.heap taskSize }

def stackStep
    (s : StackState)
    (call : StackCall)
    (t : StackState) : Prop :=
  t = stackCall s call

/- Nothing allocated yet -/
def stackBooted (task : Addr → Task) : StackState where
  heap := Heap.initial
  proc := ProcState.boot task
  blocks := []
  threads := []

/-
  The bytes between the task structure and the end of the
  KERNEL_STACK_SIZE bytes
-/
def Thread.stack (t : Thread) : Extent where
  start := t.task.toNat + taskSize.toNat
  size := kernelStackSize.toNat - taskSize.toNat

/- The stack is in the heap, and in no block. -/
structure StackPrivate
    (s : StackState)
    (t : Thread) : Prop where
  points : t.stack.start ≤ t.rsp.toNat ∧
    t.rsp.toNat < t.stack.start + t.stack.size
  inside : heapStart ≤ t.stack.start ∧
    t.stack.start + t.stack.size ≤ heapStart + heapSize
  apart : ∀ b ∈ s.blocks, t.stack.Apart b

def StacksPrivate (s : StackState) : Prop :=
  ∀ t ∈ s.threads, StackPrivate s t

--------------------
-- When Stacks Stay Private
--------------------

/- `kmalloc` returns a block. -/
def Granted
    (h : Heap)
    (size : U64) : Prop :=
  size ≠ 0#64 ∧ (alignUp8 size).toNat ≤ h.heapLeft.toNat

/-
  A call that is granted memory comes before the first thread;
  and where that call makes the thread, there is room for its
  stack, and no block was granted whose size wraps when it is
  rounded up.
-/
def StackCall.Ok
    (s : StackState) :
    StackCall → Prop
  | .kmalloc size => Granted s.heap size → s.threads = []
  | .kernelThread _ _ _ =>
      Granted s.heap taskSize →
        s.threads = [] ∧
        s.heap.heapPtr.toNat + kernelStackSize.toNat ≤
          heapStart + heapSize ∧
        ∀ b ∈ s.blocks, b.size + 7 < 2 ^ 64
  | .processInit =>
      s.proc.table.initialized = false →
        Granted s.heap taskSize → s.threads = []

/- Before the first thread, a PID and a slot are free. -/
structure PidsFresh (s : ProcState) : Prop where
  alloc : s.table.pidAlloc = ⟨0, fun _ => 0#64⟩ ∨
    s.table.pidAlloc = pidAllocatorInit
  tasks : s.table.tasks 1 = none

theorem pidsFresh_boot
    (task : Addr → Task) :
    PidsFresh (ProcState.boot task) where
  alloc := .inl rfl
  tasks := rfl

variable {s : ProcState}

theorem PidsFresh.processInit
    (hFresh : PidsFresh s)
    (block : Option Addr) :
    PidsFresh (processInit s block).2 := by
  unfold FeatherOS.processInit
  split
  next => exact hFresh
  next =>
    cases block with
    | none => exact ⟨.inr rfl, hFresh.tasks⟩
    | some idle =>
        refine ⟨.inr rfl, ?_⟩
        change Function.update s.table.tasks 0 (some idle) 1 = none
        rw [Function.update_of_ne (by decide)]
        exact hFresh.tasks

/- The first PID that is tried is free. -/
theorem PidsFresh.allocPid
    (hFresh : PidsFresh s) :
    0 ≤ (allocPid s.table).1 ∧
      (allocPid s.table).2.tasks = s.table.tasks := by
  have hTurns : maxProcesses = 63 + 1 := rfl
  have hFree : s.table.pidAlloc.advance.inUse
      s.table.pidAlloc.nextPid.toNat = false := by
    rcases hFresh.alloc with hZero | hInit
    · rw [hZero]
      decide
    · rw [hInit]
      decide
  have hNext : 0 ≤ s.table.pidAlloc.nextPid := by
    rcases hFresh.alloc with hZero | hInit
    · rw [hZero]
    · rw [hInit]
      decide
  unfold FeatherOS.allocPid
  rw [hTurns, allocPidLoop]
  simp only [hFree, Bool.false_eq_true, if_false]
  exact ⟨hNext, trivial⟩

/-
  With a free PID and a free slot, a thread is returned for
  every block, and its stack pointer is set.
-/
theorem kernelThread_fresh
    (hFresh : PidsFresh s)
    (task : Addr)
    (fn arg : U64)
    (flags : U32) :
    (kernelThread s (some task) fn arg flags).1 = some task ∧
      ((kernelThread s (some task) fn arg flags).2.task
          task).cpuContext.rsp =
        task + kernelStackSize - 8#64 := by
  rcases hFresh.allocPid with ⟨hPid, hTasks⟩
  unfold kernelThread createTask allocateTask
  simp only
  have hTable : (s.modifyTask task fun _ => Task.zero).table =
      s.table :=
    rfl
  rw [hTable]
  generalize allocPid s.table = answer at hPid hTasks
  rcases answer with ⟨pid, table⟩
  simp only at hPid hTasks
  have hNot : ¬ pid < 0 := by omega
  simp only [if_neg hNot]
  rcases addTask_cases table task with
    ⟨_, hFull⟩ | ⟨i, _, _, hAdd⟩
  · refine absurd ?_ (hFull 1 (by decide))
    rw [hTasks]
    exact hFresh.tasks
  · unfold joinTable
    simp only [ProcState.modifyTask, hAdd]
    refine ⟨trivial, ?_⟩
    simp [setUpKernelThread]

--------------------
-- One Call
--------------------

theorem newBlock_cases
    (h : Heap)
    (size : U64) :
    (¬ Granted h size ∧ (kmalloc h size) = (none, h) ∧
        newBlock h size = []) ∨
      (Granted h size ∧
        (kmalloc h size).1 = some h.heapPtr ∧
        (kmalloc h size).2.heapPtr.toNat =
          h.heapPtr.toNat + (alignUp8 size).toNat ∧
        newBlock h size = [⟨h.heapPtr.toNat, size.toNat⟩]) := by
  unfold newBlock
  cases hCall : kmalloc h size with
  | mk p h' =>
      cases p with
      | none =>
          refine .inl ⟨?_, by rw [kmalloc_none hCall], rfl⟩
          rintro ⟨hNe, hFits⟩
          unfold kmalloc at hCall
          rw [if_neg hNe] at hCall
          have hFit : ¬ h.heapLeft < alignUp8 size := by
            rw [BitVec.lt_def]
            omega
          simp [hFit] at hCall
      | some p =>
          rcases kmalloc_some hCall with
            ⟨rfl, hNe, hFits, hPtr⟩
          exact .inr ⟨⟨hNe, hFits⟩, rfl, hPtr, rfl⟩

/-
  Blocks lie below the next address unless their size wraps;
  and the next address is in the stack of every thread.
-/
structure StackInvariant (s : StackState) : Prop where
  start : heapStart ≤ s.heap.heapPtr.toNat
  blocks : ∀ b ∈ s.blocks,
    b.start ≤ s.heap.heapPtr.toNat ∧
      (b.size + 7 < 2 ^ 64 →
        b.start + b.size ≤ s.heap.heapPtr.toNat)
  threads : ∀ t ∈ s.threads,
    t.stack.start ≤ s.heap.heapPtr.toNat ∧
      s.heap.heapPtr.toNat < t.stack.start + t.stack.size
  pids : s.threads = [] → PidsFresh s.proc
  kept : StacksPrivate s

section Step

variable {s t : StackState}
variable {size : U64}

/- A block at the next address is in the stack of a thread. -/
theorem StackInvariant.not_private
    (hInv : StackInvariant s)
    (hSome : s.threads ≠ [])
    (hThreads : s.threads ⊆ t.threads)
    (hSize : size ≠ 0#64)
    (hBlock :
      ⟨s.heap.heapPtr.toNat, size.toNat⟩ ∈ t.blocks) :
    ¬ StacksPrivate t := by
  intro hPrivate
  rcases List.exists_mem_of_ne_nil _ hSome with ⟨thread, hMem⟩
  rcases hInv.threads thread hMem with ⟨hFrom, hTo⟩
  have hApart := (hPrivate thread (hThreads hMem)).apart _ hBlock
  have hPos : size.toNat ≠ 0 :=
    fun h => hSize (BitVec.eq_of_toNat_eq h)
  unfold Extent.Apart at hApart
  simp only at hApart
  omega

/- The blocks after one more has been granted -/
theorem StackInvariant.blocks_grant
    (hInv : StackInvariant s)
    {h : Heap}
    (hPtr : h.heapPtr.toNat =
      s.heap.heapPtr.toNat + (alignUp8 size).toNat) :
    ∀ b ∈ s.blocks ++
        [⟨s.heap.heapPtr.toNat, size.toNat⟩],
      b.start ≤ h.heapPtr.toNat ∧
        (b.size + 7 < 2 ^ 64 →
          b.start + b.size ≤ h.heapPtr.toNat) := by
  intro b hb
  rcases List.mem_append.mp hb with hOld | hNew
  · rcases hInv.blocks b hOld with ⟨hStart, hEnd⟩
    exact ⟨by omega, fun hSmall => by
      have hBelow := hEnd hSmall
      omega⟩
  · rw [List.mem_singleton.mp hNew]
    have hRound := toNat_alignUp8 size
    simp only
    refine ⟨by omega, fun hSmall => ?_⟩
    rw [Nat.mod_eq_of_lt hSmall] at hRound
    omega

/- Where no block is granted -/
theorem StackInvariant.of_proc
    (hInv : StackInvariant s)
    (hHeap : t.heap = s.heap)
    (hBlocks : t.blocks = s.blocks)
    (hThreads : t.threads = s.threads)
    (hPids : s.threads = [] → PidsFresh t.proc) :
    StackInvariant t := by
  refine ⟨?_, ?_, ?_, ?_, ?_⟩
  · rw [hHeap]
    exact hInv.start
  · rw [hHeap, hBlocks]
    exact hInv.blocks
  · rw [hHeap, hThreads]
    exact hInv.threads
  · rw [hThreads]
    exact hPids
  · intro thread hMem
    rw [hThreads] at hMem
    rcases hInv.kept thread hMem with ⟨hPoints, hInside, hApart⟩
    exact ⟨hPoints, hInside, hBlocks ▸ hApart⟩

/- A call that only asks for a block of `size` bytes -/
theorem stackAlloc_decided
    (hInv : StackInvariant s)
    (hHeap : t.heap = (kmalloc s.heap size).2)
    (hBlocks : t.blocks = s.blocks ++ newBlock s.heap size)
    (hThreads : t.threads = s.threads)
    (hPids : s.threads = [] → PidsFresh t.proc) :
    (StacksPrivate t ↔
        (Granted s.heap size → s.threads = [])) ∧
      ((Granted s.heap size → s.threads = []) →
        StackInvariant t) := by
  rcases newBlock_cases s.heap size with
    ⟨hNot, hCall, hNew⟩ | ⟨hGranted, _, hPtr, hNew⟩
  · -- the heap and the blocks stay as they are
    rw [hCall] at hHeap
    rw [hNew, List.append_nil] at hBlocks
    have hAfter := hInv.of_proc hHeap hBlocks hThreads hPids
    exact ⟨iff_of_true hAfter.kept fun h => absurd h hNot,
      fun _ => hAfter⟩
  · rw [hNew] at hBlocks
    rw [← hHeap] at hPtr
    have hOk : (Granted s.heap size → s.threads = []) ↔
        s.threads = [] :=
      ⟨fun h => h hGranted, fun h _ => h⟩
    rw [hOk]
    by_cases hNone : s.threads = []
    · have hNil : t.threads = [] := hThreads.trans hNone
      have hPrivate : StacksPrivate t := by
        intro thread hMem
        rw [hNil] at hMem
        cases hMem
      refine ⟨iff_of_true hPrivate hNone, fun _ => ?_⟩
      refine ⟨?_, ?_, ?_, fun _ => hPids hNone, hPrivate⟩
      · have hStart := hInv.start
        omega
      · rw [hBlocks]
        exact hInv.blocks_grant hPtr
      · intro thread hMem
        rw [hNil] at hMem
        cases hMem
    · refine ⟨iff_of_false ?_ hNone, fun h => absurd h hNone⟩
      refine hInv.not_private hNone (hThreads ▸ List.Subset.refl _)
        hGranted.1 ?_
      rw [hBlocks]
      simp

/- The stack of the thread that a granted call makes -/
theorem firstThread_private_iff
    {task : Addr}
    {blocks : List Extent}
    {proc : ProcState}
    {h : Heap}
    (hStart : heapStart ≤ task.toNat)
    (hEnd : task.toNat + taskSize.toNat ≤ heapStart + heapSize)
    (hBlocks : ∀ b ∈ blocks, b.start ≤ task.toNat ∧
      (b.size + 7 < 2 ^ 64 → b.start + b.size ≤ task.toNat)) :
    StacksPrivate
        { heap := h
          proc := proc
          blocks := blocks ++ [⟨task.toNat, taskSize.toNat⟩]
          threads := [⟨task, task + kernelStackSize - 8#64⟩] } ↔
      task.toNat + kernelStackSize.toNat ≤
          heapStart + heapSize ∧
        ∀ b ∈ blocks, b.size + 7 < 2 ^ 64 := by
  have hSize : taskSize.toNat = 1256 := rfl
  have hStack : kernelStackSize.toNat = 16384 := rfl
  have hHeap : heapStart + heapSize = 0x300000 := rfl
  have hHeapStart : heapStart = 0x200000 := rfl
  have hRsp : (task + kernelStackSize - 8#64).toNat =
      task.toNat + 16376 := by
    rw [BitVec.toNat_sub, BitVec.toNat_add, hStack]
    simp only [BitVec.toNat_ofNat]
    omega
  have hUnfold : ∀ t : Thread, t.task = task →
      t.stack.start = task.toNat + 1256 ∧
        t.stack.size = 15128 := by
    rintro t rfl
    exact ⟨rfl, rfl⟩
  rcases hUnfold ⟨task, task + kernelStackSize - 8#64⟩ rfl with
    ⟨hFrom, hLen⟩
  unfold StacksPrivate
  simp only [List.mem_singleton, forall_eq]
  constructor
  · rintro ⟨_, ⟨_, hInside⟩, hApart⟩
    refine ⟨by omega, fun b hb => ?_⟩
    by_contra hWraps
    have hOld := hApart b (List.mem_append_left _ hb)
    have hLow := (hBlocks b hb).1
    unfold Extent.Apart at hOld
    omega
  · rintro ⟨hFits, hSmall⟩
    refine ⟨?_, ?_, ?_⟩
    · simp only [hRsp]
      omega
    · omega
    · intro b hb
      unfold Extent.Apart
      rcases List.mem_append.mp hb with hOld | hNew
      · have hBelow := (hBlocks b hOld).2 (hSmall b hOld)
        omega
      · rw [List.mem_singleton.mp hNew]
        simp only
        omega

/- The state after the first thread -/
theorem stackCall_firstThread
    (hInv : StackInvariant s)
    (hGranted : Granted s.heap taskSize)
    (hNone : s.threads = [])
    (fn arg : U64)
    (flags : U32) :
    ∃ h proc,
      stackCall s (.kernelThread fn arg flags) =
          { heap := h
            proc := proc
            blocks := s.blocks ++
              [⟨s.heap.heapPtr.toNat, taskSize.toNat⟩]
            threads :=
              [⟨s.heap.heapPtr,
                s.heap.heapPtr + kernelStackSize - 8#64⟩] } ∧
        h.heapPtr.toNat =
          s.heap.heapPtr.toNat + taskSize.toNat := by
  rcases newBlock_cases s.heap taskSize with
    ⟨hNot, _⟩ | ⟨_, hSome, hPtr, hNew⟩
  · exact absurd hGranted hNot
  · rcases kernelThread_fresh (hInv.pids hNone) s.heap.heapPtr
        fn arg flags with
      ⟨hTask, hRsp⟩
    refine ⟨(kmalloc s.heap taskSize).2,
      (kernelThread s.proc (some s.heap.heapPtr) fn arg flags).2,
      ?_, hPtr⟩
    unfold stackCall kernelThreadCall
    simp only [hSome, hNew, hNone, hTask, hRsp, List.nil_append]

theorem kernelThread_decided
    (hInv : StackInvariant s)
    (fn arg : U64)
    (flags : U32) :
    (StacksPrivate (stackCall s (.kernelThread fn arg flags)) ↔
        (StackCall.kernelThread fn arg flags).Ok s) ∧
      ((StackCall.kernelThread fn arg flags).Ok s →
        StackInvariant
          (stackCall s (.kernelThread fn arg flags))) := by
  have hAligned : (alignUp8 taskSize).toNat = 1256 := by decide
  unfold StackCall.Ok
  simp only
  by_cases hGranted : Granted s.heap taskSize
  · by_cases hNone : s.threads = []
    · rcases stackCall_firstThread hInv hGranted hNone fn arg
          flags with
        ⟨h, proc, hCall, hPtr⟩
      have hEnd : s.heap.heapPtr.toNat + taskSize.toNat ≤
          heapStart + heapSize := by
        rw [← hPtr]
        exact h.heapPtr_le
      have hIff := @firstThread_private_iff s.heap.heapPtr
        s.blocks proc h hInv.start hEnd hInv.blocks
      rw [hCall, hIff]
      refine ⟨⟨fun hBoth _ => ⟨hNone, hBoth⟩,
        fun hOk => (hOk hGranted).2⟩, fun hOk => ?_⟩
      have hBlocks := @StackInvariant.blocks_grant s taskSize
        hInv h hPtr
      refine ⟨?_, hBlocks, ?_, ?_, hIff.mpr (hOk hGranted).2⟩
      · have hStart := hInv.start
        simp only
        omega
      · intro thread hMem
        have hOnly := List.mem_singleton.mp hMem
        have hSize : taskSize.toNat = 1256 := rfl
        have hStack : kernelStackSize.toNat = 16384 := rfl
        rw [hOnly]
        unfold Thread.stack
        simp only
        omega
      · intro hNil
        cases hNil
    · refine ⟨iff_of_false ?_ ?_, ?_⟩
      · rcases newBlock_cases s.heap taskSize with
          ⟨hNot, _⟩ | ⟨_, _, _, hNew⟩
        · exact absurd hGranted hNot
        · refine hInv.not_private hNone ?_ hGranted.1 ?_
          · unfold stackCall
            simp only
            split
            next => exact List.Subset.refl _
            next => exact List.subset_append_left _ _
          · change _ ∈ s.blocks ++ newBlock s.heap taskSize
            rw [hNew]
            simp
      · exact fun hOk => hNone (hOk hGranted).1
      · exact fun hOk => absurd (hOk hGranted).1 hNone
  · -- without a block nothing happens
    have hCall : stackCall s (.kernelThread fn arg flags) =
        { s with
          heap := (kmalloc s.heap taskSize).2
          blocks := s.blocks ++ newBlock s.heap taskSize } := by
      rcases newBlock_cases s.heap taskSize with
        ⟨_, hNull, _⟩ | ⟨hYes, _⟩
      · unfold stackCall kernelThreadCall
        simp only [hNull]
        rfl
      · exact absurd hYes hGranted
    rw [hCall]
    have hDecided := @stackAlloc_decided s
      { s with
        heap := (kmalloc s.heap taskSize).2
        blocks := s.blocks ++ newBlock s.heap taskSize }
      taskSize hInv rfl rfl rfl hInv.pids
    have hOk : Granted s.heap taskSize → s.threads = [] :=
      fun hYes => absurd hYes hGranted
    exact ⟨iff_of_true (hDecided.1.mpr hOk)
      (fun hYes => absurd hYes hGranted),
      fun _ => hDecided.2 hOk⟩

theorem stackStep_decided
    {call : StackCall}
    (hInv : StackInvariant s)
    (hStep : stackStep s call t) :
    (StacksPrivate t ↔ call.Ok s) ∧
      (call.Ok s → StackInvariant t) := by
  subst hStep
  cases call with
  | kmalloc size =>
      exact stackAlloc_decided hInv rfl rfl rfl hInv.pids
  | kernelThread fn arg flags =>
      exact kernelThread_decided hInv fn arg flags
  | processInit =>
      have hPids : s.threads = [] →
          PidsFresh (stackCall s .processInit).proc := by
        intro hNone
        unfold stackCall processInitCall
        simp only
        split
        next => exact (hInv.pids hNone).processInit _
        next => exact (hInv.pids hNone).processInit _
      unfold StackCall.Ok
      simp only
      cases hInit : s.proc.table.initialized with
      | true =>
          have hAfter :
              StackInvariant (stackCall s .processInit) := by
            refine hInv.of_proc ?_ ?_ rfl hPids
            · simp [stackCall, processInitCall, hInit]
            · simp [stackCall, hInit]
          exact ⟨iff_of_true hAfter.kept nofun, fun _ => hAfter⟩
      | false =>
          have hDecided := @stackAlloc_decided s
            (stackCall s .processInit) taskSize hInv
            (by simp [stackCall, processInitCall, hInit])
            (by simp [stackCall, hInit]) rfl hPids
          simp only [forall_const]
          exact hDecided

end Step

theorem stackBooted_invariant
    (task : Addr → Task) :
    StackInvariant (stackBooted task) where
  start := Nat.le_refl _
  blocks := nofun
  threads := nofun
  pids := fun _ => pidsFresh_boot task
  kept := nofun

/-
  Over every run from boot the stacks are private if and only
  if no memory is granted once there is a thread, and the
  thread is made while its stack still fits in the heap and no
  block of a size that wraps has been granted.
-/
theorem stackRun_private_iff
    {task : Addr → Task}
    {calls : List StackCall}
    {t : StackState} :
    Run (fun s call t => stackStep s call t ∧ StacksPrivate t)
        (stackBooted task) calls t ↔
      Run (Guarded (fun s call => StackCall.Ok s call) stackStep)
        (stackBooted task) calls t := by
  apply Run.guarded_iff StackInvariant
  · intro s call t hInv hOk hStep
    exact (stackStep_decided hInv hStep).2 hOk
  · intro s call t hInv hStep
    exact (stackStep_decided hInv hStep).1
  · exact stackBooted_invariant task

/- One byte after the first thread lies in its stack. -/
theorem kmalloc_in_stack :
    ¬ ∀ (task : Addr → Task) (calls : List StackCall)
      (t : StackState),
      Run stackStep (stackBooted task) calls t →
        StacksPrivate t := by
  intro hAll
  have hInv := stackBooted_invariant fun _ => Task.zero
  have hFirst : (StackCall.kernelThread 0#64 0#64 0#32).Ok
      (stackBooted fun _ => Task.zero) :=
    fun _ => ⟨rfl, by decide, nofun⟩
  have hThread := (stackStep_decided hInv rfl).2 hFirst
  have hPrivate := hAll (fun _ => Task.zero)
    [.kernelThread 0#64 0#64 0#32, .kmalloc 1#64] _
    (.cons rfl (.cons rfl (.nil _)))
  have hOk := (stackStep_decided hThread rfl).1.mp hPrivate
  have hNone := hOk ⟨by decide, by decide⟩
  rcases stackCall_firstThread hInv ⟨by decide, by decide⟩ rfl
      0#64 0#64 0#32 with
    ⟨h, proc, hCall, _⟩
  rw [hCall] at hNone
  cases hNone

end FeatherOS
