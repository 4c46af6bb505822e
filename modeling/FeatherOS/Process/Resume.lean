import FeatherOS.Process.Switch

/-
  Tasks that are switched out and come back.

  A run interleaves calls of `switch_to` with the other code
  of the tasks. What a call leaves on the stack of a task
  stays there until the task is switched to again.

  Key definitions include:
    * `SwitchState`
    * `switchStep`
    * `SwitchGood`
    * `SwitchCall.Ok`

  Key theorems include:
    * `Parked.registersBack`
    * `switchStep_decided`
    * `switchRun_registersBack`
    * `switchRun_resumes_iff`
-/

namespace FeatherOS

--------------------
-- Runs
--------------------

/-
  The registers at a call of `switch_to` and where the call
  returns; and the fields of the task, by their offsets, as
  they were at the call or as other code has set them since.
-/
structure Saved where
  rbx : U64
  rbp : U64
  r12 : U64
  r13 : U64
  r14 : U64
  r15 : U64
  rsp : U64
  rip : U64
  fields : ByteMemory

/- The words in the order in which they are pushed -/
def Saved.frame (v : Saved) : List U64 :=
  [v.rip, v.rbp, v.rbx, v.r12, v.r13, v.r14, v.r15]

/- Fields of a task set by other code -/
def Saved.written
    (v : Saved)
    (old new : ByteMemory) : Saved :=
  { v with
    fields := fun o =>
      if o.toNat < taskSize.toNat ∧ new o ≠ old o then new o
      else v.fields o }

/-
  A task from `kernel_thread` that has never run, or a task
  that was switched out
-/
inductive Standing where
  | fresh (fn arg : U64)
  | suspended (v : Saved)

/-
  The machine, the task that runs, and the tasks that came
  from `kernel_thread` or were switched out
-/
structure SwitchState where
  machine : Machine
  current : Addr
  standing : Addr → Option Standing

inductive SwitchCall where
  | kernelThread
      (task : Addr)
      (fn arg : U64)
      (flags : U32)
      (rest : Nat → BitVec 8)
  | otherCode (machine : Machine)
  | switchTo (next : Addr) (ret : U64)

namespace SwitchState

def saved
    (s : SwitchState)
    (ret : U64) : Saved where
  rbx := s.machine.rbx
  rbp := s.machine.rbp
  r12 := s.machine.r12
  r13 := s.machine.r13
  r14 := s.machine.r14
  r15 := s.machine.r15
  rsp := s.machine.rsp
  rip := ret
  fields := s.machine.mem.shift s.current

/- The tasks once the current one is switched out -/
def suspend
    (s : SwitchState)
    (ret : U64) :
    Addr → Option Standing :=
  Function.update s.standing s.current
    (some (.suspended (s.saved ret)))

def call
    (s : SwitchState) :
    SwitchCall → SwitchState
  | .kernelThread task fn arg flags rest =>
      { s with
        machine :=
          { s.machine with
            mem := kernelThreadMemory s.machine.mem task fn arg
              flags rest }
        standing :=
          Function.update s.standing task
            (some (.fresh fn arg)) }
  | .otherCode machine =>
      { s with
        machine := machine
        standing := fun a =>
          match s.standing a with
          | some (.suspended v) =>
              some (.suspended
                (v.written (s.machine.mem.shift a)
                  (machine.mem.shift a)))
          | other => other }
  | .switchTo next ret =>
      { machine := callSwitchTo s.machine s.current next ret
        current := next
        standing := Function.update (s.suspend ret) next none }

end SwitchState

/-
  Code outside `switch_to` leaves the stack of a task that is
  switched out alone, and the cpu_context of a task that does
  not run.
-/
structure Keeps
    (s : SwitchState)
    (mem : ByteMemory) : Prop where
  frames : ∀ a v, s.standing a = some (.suspended v) →
    ∀ i < 56,
      mem (v.rsp - 56#64 + BitVec.ofNat 64 i) =
        s.machine.mem (v.rsp - 56#64 + BitVec.ofNat 64 i)
  contexts : ∀ a, s.standing a ≠ none →
    ∀ i < 8 * contextWords,
      mem (a + contextOffset + BitVec.ofNat 64 i) =
        s.machine.mem (a + contextOffset + BitVec.ofNat 64 i)

/-
  The current task calls on a stack of its own: what the call
  pushes lies in no task record and in no stack that another
  task was switched out on.
-/
structure OwnStack
    (tasks : TaskRecords)
    (s : SwitchState) : Prop where
  room : 56 ≤ s.machine.rsp.toNat
  records : ∀ a, tasks.Has a →
    (frameExtent s.machine.rsp).Apart (recordExtent a)
  frames : ∀ a v, s.standing a = some (.suspended v) →
    (frameExtent s.machine.rsp).Apart (frameExtent v.rsp)

def switchStep
    (tasks : TaskRecords)
    (s : SwitchState)
    (call : SwitchCall)
    (t : SwitchState) : Prop :=
  t = s.call call ∧
    match call with
    | .kernelThread task _ _ _ _ =>
        tasks.Has task ∧ task ≠ s.current ∧
          s.standing task = none
    | .otherCode machine => Keeps s machine.mem
    | .switchTo next _ => tasks.Has next ∧ OwnStack tasks s

/- Only the first task runs; memory is arbitrary. -/
def switchBooted
    (tasks : TaskRecords)
    (idle : { a // tasks.Has a })
    (machine : Machine) : SwitchState where
  machine := machine
  current := idle.val
  standing := fun _ => none

--------------------
-- Where A Switch Leads
--------------------

/- The registers are as they were at the task's own call. -/
structure RegistersBack
    (v : Saved)
    (m : Machine) : Prop where
  rbx : m.rbx = v.rbx
  rbp : m.rbp = v.rbp
  r12 : m.r12 = v.r12
  r13 : m.r13 = v.r13
  r14 : m.r14 = v.r14
  r15 : m.r15 = v.r15
  rsp : m.rsp = v.rsp
  rip : m.rip = v.rip

/-
  So are the fields of the task that other code has not set,
  cpu_context.rsp apart.
-/
structure Resumed
    (v : Saved)
    (task : Addr)
    (m : Machine) : Prop where
  registers : RegistersBack v m
  fields : ∀ o : U64, o.toNat < taskSize.toNat →
    (o.toNat < rspField.toNat ∨ rspField.toNat + 8 ≤ o.toNat) →
    m.mem (task + o) = v.fields o

/- `fn(arg)` begins on the stack that cpu_context.rsp names. -/
structure Started
    (fn arg : U64)
    (task : Addr)
    (m : Machine) : Prop where
  rip : m.rip = fn
  rdi : m.rdi = arg
  rsp : m.rsp = m.mem.load (task + rspField)

def SwitchGood
    (s : SwitchState)
    (call : SwitchCall)
    (t : SwitchState) : Prop :=
  match call with
  | .switchTo next ret =>
      match s.suspend ret next with
      | some (.suspended v) => Resumed v next t.machine
      | some (.fresh fn arg) => Started fn arg next t.machine
      | none => True
  | _ => True

/-
  The task that a switch goes to is not fresh; and if it was
  switched out, its cpu_context.r11 was, at its own call, the
  stack pointer that the call leaves.
-/
def SwitchCall.Ok
    (s : SwitchState) :
    SwitchCall → Prop
  | .switchTo next ret =>
      match s.suspend ret next with
      | some (.suspended v) =>
          v.fields.load r11Field = v.rsp - 56#64
      | some (.fresh _ _) => False
      | none => True
  | _ => True

--------------------
-- Tasks That Were Switched Out
--------------------

/- What the next switch to a task finds in memory -/
structure Parked
    (tasks : TaskRecords)
    (m : ByteMemory)
    (a : Addr)
    (v : Saved) : Prop where
  has : tasks.Has a
  room : 56 ≤ v.rsp.toNat
  apart : ∀ b, tasks.Has b →
    (frameExtent v.rsp).Apart (recordExtent b)
  pointer : m.load (a + savedSlot) = v.rsp - 56#64
  frame : ∀ i (hi : i < v.frame.length),
    m.load (v.rsp - BitVec.ofNat 64 (8 * (i + 1))) = v.frame[i]
  fields : ∀ o : U64, o.toNat < taskSize.toNat →
    (o.toNat < savedSlot.toNat ∨
      savedSlot.toNat + 8 ≤ o.toNat) →
    m (a + o) = v.fields o

section Parked

variable {tasks : TaskRecords}
variable {m m' : ByteMemory}
variable {a : Addr}
variable {v : Saved}

/- The words that `loadContext` pops -/
theorem Parked.popped
    (hParked : Parked tasks m a v)
    {i : Nat}
    {word : U64}
    (hWord : v.frame[i]? = some word) :
    m.load (v.rsp - 56#64 + BitVec.ofNat 64 (8 * (6 - i))) =
      word := by
  rcases List.getElem?_eq_some_iff.mp hWord with ⟨hi, hAt⟩
  have hSeven : v.frame.length = 7 := rfl
  have hPlace : v.rsp - BitVec.ofNat 64 (8 * (i + 1)) +
        0#64 =
      v.rsp - 56#64 + BitVec.ofNat 64 (8 * (6 - i)) :=
    frame_word v.rsp (by omega)
  rw [← hPlace, BitVec.add_zero, hParked.frame i hi, hAt]

/- Other code may set fields, but not those of cpu_context. -/
theorem Parked.written
    (hParked : Parked tasks m a v)
    (hFrame : ∀ i < 56,
      m' (v.rsp - 56#64 + BitVec.ofNat 64 i) =
        m (v.rsp - 56#64 + BitVec.ofNat 64 i))
    (hContext : ∀ i < 8 * contextWords,
      m' (a + contextOffset + BitVec.ofNat 64 i) =
        m (a + contextOffset + BitVec.ofNat 64 i)) :
    Parked tasks m' a (v.written (m.shift a) (m'.shift a)) where
  has := hParked.has
  room := hParked.room
  apart := hParked.apart
  pointer := by
    change m'.load (a + savedSlot) = v.rsp - 56#64
    rw [← hParked.pointer]
    refine ByteMemory.load_congr fun i hi => ?_
    have hAt : a + savedSlot + BitVec.ofNat 64 i =
        a + contextOffset + BitVec.ofNat 64 (80 + i) := by
      rw [BitVec.ofNat_add, BitVec.add_assoc, BitVec.add_assoc,
        ← BitVec.add_assoc contextOffset]
      rfl
    rw [hAt]
    exact hContext (80 + i) (by unfold contextWords; omega)
  frame := by
    intro i hi
    have hLen : i < v.frame.length := hi
    change m'.load (v.rsp - BitVec.ofNat 64 (8 * (i + 1))) =
      v.frame[i]
    rw [← hParked.frame i hLen]
    have hSeven : i < 7 := hi
    refine ByteMemory.load_congr fun k hk => ?_
    rw [frame_word v.rsp hSeven]
    exact hFrame _ (by omega)
  fields := by
    intro o hIn hOut
    have hOld := hParked.fields o hIn hOut
    unfold Saved.written ByteMemory.shift
    simp only [hIn, true_and]
    split
    next => rfl
    next hSame => rw [not_not.mp hSame, hOld]

/- Fields that nobody sets stay as they are. -/
theorem Saved.written_same
    (hSame : ∀ o : U64, o.toNat < taskSize.toNat →
      m' (a + o) = m (a + o)) :
    v.written (m.shift a) (m'.shift a) = v := by
  have hFields : (v.written (m.shift a) (m'.shift a)).fields =
      v.fields := by
    funext o
    unfold Saved.written ByteMemory.shift
    simp only
    rw [if_neg]
    rintro ⟨hIn, hNe⟩
    exact hNe (hSame o hIn)
  unfold Saved.written at hFields ⊢
  simp only at hFields
  rw [hFields]

/- Memory changes outside the record and the stack. -/
theorem Parked.kept
    (hParked : Parked tasks m a v)
    (hRecord : ∀ b, InExtent (recordExtent a) b → m' b = m b)
    (hFrame : ∀ b, InExtent (frameExtent v.rsp) b → m' b = m b) :
    Parked tasks m' a v := by
  have hFields : ∀ o : U64, o.toNat < taskSize.toNat →
      m' (a + o) = m (a + o) :=
    fun o hIn => hRecord _ (tasks.inExtent_record hParked.has hIn)
  have hStack : ∀ i < 56,
      m' (v.rsp - 56#64 + BitVec.ofNat 64 i) =
        m (v.rsp - 56#64 + BitVec.ofNat 64 i) :=
    fun i hi => hFrame _ (inExtent_frame hParked.room hi)
  have hContext : ∀ i < 8 * contextWords,
      m' (a + contextOffset + BitVec.ofNat 64 i) =
        m (a + contextOffset + BitVec.ofNat 64 i) := by
    intro i hi
    have hSize : taskSize.toNat = 1256 := rfl
    rw [BitVec.add_assoc]
    apply hFields
    rw [toNat_context hi]
    unfold contextWords at hi
    omega
  have hWritten := hParked.written hStack hContext
  rw [Saved.written_same hFields] at hWritten
  exact hWritten

/- Only the field that holds the stack pointer may differ. -/
theorem Parked.fields_iff
    (hParked : Parked tasks m a v) :
    (∀ o : U64, o.toNat < taskSize.toNat →
        (o.toNat < rspField.toNat ∨
          rspField.toNat + 8 ≤ o.toNat) →
        m (a + o) = v.fields o) ↔
      v.fields.load r11Field = v.rsp - 56#64 := by
  have hR11 : r11Field.toNat = 128 := rfl
  have hRsp : rspField.toNat = 176 := rfl
  have hSize : taskSize.toNat = 1256 := rfl
  have hPointer := hParked.pointer
  rw [savedSlot_eq] at hPointer
  have hByte : ∀ i < 8, (r11Field + BitVec.ofNat 64 i).toNat =
      128 + i := by
    intro i hi
    rw [BitVec.toNat_add, BitVec.toNat_ofNat]
    omega
  constructor
  · intro hFields
    rw [← hPointer, ← ByteMemory.load_shift]
    refine ByteMemory.load_congr fun i hi => ?_
    have hAt := hByte i hi
    exact (hFields _ (by omega) (by omega)).symm
  · intro hValue o hIn hOut
    by_cases hHere : 128 ≤ o.toNat ∧ o.toNat < 136
    · -- both words are the stack pointer that was saved
      have hSmall : o.toNat - 128 < 8 := by omega
      have hO : o =
          r11Field + BitVec.ofNat 64 (o.toNat - 128) := by
        apply BitVec.eq_of_toNat_eq
        rw [hByte _ hSmall]
        omega
      rw [hO, ← BitVec.add_assoc,
        ByteMemory.load_eq_iff.mp hValue _ hSmall,
        ByteMemory.load_eq_iff.mp hPointer _ hSmall]
    · refine hParked.fields o hIn ?_
      rw [savedSlot_eq]
      omega

end Parked

section Switched

variable {tasks : TaskRecords}
variable {m : Machine}
variable {prev next : Addr}
variable {ret : U64}
variable {v : Saved}

theorem Parked.registersBack
    (hParked : Parked tasks (switchMemory m prev ret) next v) :
    RegistersBack v (callSwitchTo m prev next ret) := by
  rw [callSwitchTo_eq]
  simp only [hParked.pointer]
  refine ⟨?_, ?_, ?_, ?_, ?_, ?_, ?_, ?_⟩
  · exact hParked.popped (i := 2) rfl
  · exact hParked.popped (i := 1) rfl
  · exact hParked.popped (i := 3) rfl
  · exact hParked.popped (i := 4) rfl
  · exact hParked.popped (i := 5) rfl
  · have hLow := hParked.popped (i := 6) rfl
    rw [BitVec.add_zero] at hLow
    exact hLow
  · exact BitVec.sub_add_cancel v.rsp 56#64
  · exact hParked.popped (i := 0) rfl

/- The fields come back unless r11 changes. -/
theorem Parked.resumed_iff
    (hParked : Parked tasks (switchMemory m prev ret) next v) :
    Resumed v next (callSwitchTo m prev next ret) ↔
      v.fields.load r11Field = v.rsp - 56#64 := by
  have hMem : (callSwitchTo m prev next ret).mem =
      switchMemory m prev ret := by
    rw [callSwitchTo_eq]
  rw [← hParked.fields_iff, ← hMem]
  constructor
  · exact fun hResumed => hResumed.fields
  · exact fun hFields => ⟨hParked.registersBack, hFields⟩

end Switched

variable {tasks : TaskRecords}

/- The task that calls leaves its registers in its stack. -/
theorem OwnStack.parked
    {s : SwitchState}
    (hOwn : OwnStack tasks s)
    (hHas : tasks.Has s.current)
    (ret : U64) :
    Parked tasks (switchMemory s.machine s.current ret)
      s.current (s.saved ret) := by
  have hSize : taskSize.toNat = 1256 := rfl
  have hSlotOffset : savedSlot.toNat = 128 := rfl
  have hRecord := (tasks.inHeap _ hHas).2
  have hHeap : heapStart + heapSize < 2 ^ 64 := by decide
  have hSlot : (s.current + savedSlot).toNat =
      s.current.toNat + 128 :=
    tasks.toNat_offset hHas (o := savedSlot) (by decide)
  have hRoom := hOwn.room
  have hApart := hOwn.records _ hHas
  unfold Extent.Apart frameExtent recordExtent at hApart
  simp only at hApart
  refine ⟨hHas, hRoom, hOwn.records, ?_, ?_, ?_⟩
  · exact ByteMemory.load_store _ _ _
  · intro i hi
    have hSeven : i < 7 := hi
    have hAt : (s.machine.rsp -
        BitVec.ofNat 64 (8 * (i + 1))).toNat =
          s.machine.rsp.toNat - 8 * (i + 1) := by
      rw [BitVec.toNat_sub, BitVec.toNat_ofNat]
      omega
    have hRsp : (s.saved ret).rsp = s.machine.rsp := rfl
    unfold switchMemory ByteMemory.store
    rw [hRsp, ByteMemory.load_patch (by omega) (by omega)
      (by omega)]
    have hSpace :
        8 * (s.saved ret).frame.length ≤ s.machine.rsp.toNat :=
      hRoom
    exact ByteMemory.load_pushes hSpace hi
  · intro o hIn hOut
    have hAt := tasks.toNat_offset hHas hIn
    unfold switchMemory
    rw [ByteMemory.store_outside (by omega) (by omega),
      ByteMemory.pushes_outside (by simp; omega)
        (by simp only [List.length_cons, List.length_nil]; omega)]
    rfl

/- What `kernel_thread` leaves until the task first runs -/
structure Unstarted
    (tasks : TaskRecords)
    (m : ByteMemory)
    (a : Addr) : Prop where
  has : tasks.Has a
  r11 : m.load (a + r11Field) = 0#64
  rsp : m.load (a + rspField) = a + kernelStackSize - 8#64

variable {a : Addr}
variable {m m' : ByteMemory}

theorem Unstarted.keeps
    (hFresh : Unstarted tasks m a)
    (hContext : ∀ i < 8 * contextWords,
      m' (a + contextOffset + BitVec.ofNat 64 i) =
        m (a + contextOffset + BitVec.ofNat 64 i)) :
    Unstarted tasks m' a := by
  have hField : ∀ i < contextWords,
      m'.load (a + contextField i) = m.load (a + contextField i) := by
    intro i hi
    refine ByteMemory.load_congr fun k hk => ?_
    unfold contextField
    rw [← BitVec.add_assoc, BitVec.add_assoc _ (BitVec.ofNat _ _),
      ← BitVec.ofNat_add]
    exact hContext _ (by omega)
  refine ⟨hFresh.has, ?_, ?_⟩
  · rw [← hFresh.r11]
    exact hField 10 (by decide)
  · rw [← hFresh.rsp]
    exact hField 16 (by decide)

/- Where the record and the memory around it stay -/
theorem Unstarted.kept
    (hFresh : Unstarted tasks m a)
    (hRecord : ∀ b, InExtent (recordExtent a) b → m' b = m b) :
    Unstarted tasks m' a := by
  refine hFresh.keeps fun i hi => ?_
  have hSize : taskSize.toNat = 1256 := rfl
  rw [BitVec.add_assoc]
  apply hRecord _ (tasks.inExtent_record hFresh.has _)
  rw [toNat_context hi]
  unfold contextWords at hi
  omega

variable {task : Addr}

theorem unstarted_kernelThread
    (hHas : tasks.Has task)
    (m : ByteMemory)
    (fn arg : U64)
    (flags : U32)
    (rest : Nat → BitVec 8) :
    Unstarted tasks
      (kernelThreadMemory m task fn arg flags rest) task := by
  have hField : ∀ i < contextWords,
      (kernelThreadMemory m task fn arg flags rest).load
          (task + contextField i) =
        (setUpKernelThread task fn arg flags
          Task.zero).cpuContext.words i := by
    intro i hi
    unfold contextField kernelThreadMemory
    rw [← BitVec.add_assoc]
    exact ByteMemory.load_storeWords hi (by decide)
  exact ⟨hHas, hField 10 (by decide), hField 16 (by decide)⟩

variable {arg fn ret : U64}

/- A thread that has never run is never started. -/
theorem Unstarted.not_started
    {m : Machine}
    {prev next : Addr}
    (hFresh :
      Unstarted tasks (switchMemory m prev ret) next) :
    ¬ Started fn arg next (callSwitchTo m prev next ret) := by
  intro hStarted
  have hRsp := hStarted.rsp
  rw [callSwitchTo_eq] at hRsp
  simp only [savedSlot_eq, hFresh.r11, hFresh.rsp] at hRsp
  have hNat := congrArg BitVec.toNat hRsp
  have hLow := (tasks.inHeap _ hFresh.has).1
  have hHigh := (tasks.inHeap _ hFresh.has).2
  have hHeap : heapStart + heapSize = 0x300000 := rfl
  have hStart : heapStart = 0x200000 := rfl
  have hStack : kernelStackSize.toNat = 16384 := rfl
  rw [BitVec.toNat_sub, BitVec.toNat_add, BitVec.toNat_add,
    hStack] at hNat
  simp only [BitVec.toNat_ofNat] at hNat
  omega

--------------------
-- Runs Of Switches
--------------------

/- What memory holds for the tasks that do not run -/
structure Waiting
    (tasks : TaskRecords)
    (m : ByteMemory)
    (standing : Addr → Option Standing) : Prop where
  suspended : ∀ a v, standing a = some (.suspended v) →
    Parked tasks m a v
  fresh : ∀ a fn arg, standing a = some (.fresh fn arg) →
    Unstarted tasks m a

structure SwitchInvariant
    (tasks : TaskRecords)
    (s : SwitchState) : Prop where
  current : tasks.Has s.current
  runs : s.standing s.current = none
  waiting : Waiting tasks s.machine.mem s.standing

section Step

variable {tasks : TaskRecords}
variable {s t : SwitchState}

/-
  One task gets a new standing, and memory changes outside the
  records and the stacks of the others.
-/
theorem Waiting.update
    {standing : Addr → Option Standing}
    {x : Addr}
    {new : Standing}
    (hWaiting : Waiting tasks m standing)
    (hRecord : ∀ a, tasks.Has a → a ≠ x →
      ∀ b, InExtent (recordExtent a) b → m' b = m b)
    (hFrame : ∀ a v, standing a = some (.suspended v) →
      ∀ b, InExtent (frameExtent v.rsp) b → m' b = m b)
    (hSuspended : ∀ v, new = .suspended v →
      Parked tasks m' x v)
    (hFresh : ∀ fn arg, new = .fresh fn arg →
      Unstarted tasks m' x) :
    Waiting tasks m' (Function.update standing x (some new)) := by
  constructor
  · intro a v hStanding
    by_cases hA : a = x
    · rw [hA, Function.update_self, Option.some.injEq]
        at hStanding
      rw [hA]
      exact hSuspended v hStanding
    · rw [Function.update_of_ne hA] at hStanding
      have hParked := hWaiting.suspended a v hStanding
      exact hParked.kept (hRecord a hParked.has hA)
        (hFrame a v hStanding)
  · intro a fn arg hStanding
    by_cases hA : a = x
    · rw [hA, Function.update_self, Option.some.injEq]
        at hStanding
      rw [hA]
      exact hFresh fn arg hStanding
    · rw [Function.update_of_ne hA] at hStanding
      have hUnstarted := hWaiting.fresh a fn arg hStanding
      exact hUnstarted.kept (hRecord a hUnstarted.has hA)

theorem SwitchInvariant.kernelThread
    (hInv : SwitchInvariant tasks s)
    (fn arg : U64)
    (flags : U32)
    (rest : Nat → BitVec 8)
    (hHas : tasks.Has task)
    (hOther : task ≠ s.current) :
    SwitchInvariant tasks
      (s.call (.kernelThread task fn arg flags rest)) := by
  have hOutside : ∀ e : Extent, (recordExtent task).Apart e →
      ∀ b, InExtent e b →
        kernelThreadMemory s.machine.mem task fn arg flags
          rest b = s.machine.mem b :=
    fun e hApart b hIn =>
      kernelThreadMemory_outside fn arg flags rest hHas hApart hIn
  refine ⟨hInv.current, ?_, ?_⟩
  · change Function.update s.standing task _ s.current = none
    rw [Function.update_of_ne (Ne.symm hOther)]
    exact hInv.runs
  · refine hInv.waiting.update ?_ ?_ nofun ?_
    · intro a hA hNe
      exact hOutside _ (tasks.apart _ _ hHas hA (Ne.symm hNe))
    · intro a v hStanding
      have hParked := hInv.waiting.suspended a v hStanding
      exact hOutside _ (hParked.apart _ hHas).symm
    · intro fn' arg' _
      exact unstarted_kernelThread hHas _ fn arg flags rest

theorem SwitchInvariant.otherCode
    (hInv : SwitchInvariant tasks s)
    {machine : Machine}
    (hKeeps : Keeps s machine.mem) :
    SwitchInvariant tasks (s.call (.otherCode machine)) := by
  refine ⟨hInv.current, ?_, ?_, ?_⟩
  · unfold SwitchState.call
    simp only [hInv.runs]
  · intro a v hStanding
    unfold SwitchState.call at hStanding
    simp only at hStanding
    split at hStanding
    next old hOld =>
      cases hStanding
      have hParked := hInv.waiting.suspended a old hOld
      exact hParked.written (hKeeps.frames a old hOld)
        (hKeeps.contexts a (by rw [hOld]; nofun))
    next hNot => exact absurd hStanding (hNot v)
  · intro a fn arg hStanding
    unfold SwitchState.call at hStanding
    simp only at hStanding
    split at hStanding
    next => cases hStanding
    next =>
      have hFresh := hInv.waiting.fresh a fn arg hStanding
      exact hFresh.keeps
        (hKeeps.contexts a (by rw [hStanding]; nofun))

/- Once the current task is switched out, it waits as well. -/
theorem SwitchInvariant.suspend
    (hInv : SwitchInvariant tasks s)
    (hOwn : OwnStack tasks s)
    (ret : U64) :
    Waiting tasks (switchMemory s.machine s.current ret)
      (s.suspend ret) := by
  have hOutside : ∀ e : Extent,
      (frameExtent s.machine.rsp).Apart e →
      (recordExtent s.current).Apart e →
      ∀ b, InExtent e b →
        switchMemory s.machine s.current ret b =
          s.machine.mem b :=
    fun e hFrame hRecord b hIn =>
      switchMemory_outside ret hInv.current hOwn.room hFrame
        hRecord hIn
  refine hInv.waiting.update ?_ ?_ ?_ nofun
  · intro a hA hNe
    exact hOutside _ (hOwn.records a hA)
      (tasks.apart _ _ hInv.current hA (Ne.symm hNe))
  · intro a v hStanding
    have hParked := hInv.waiting.suspended a v hStanding
    exact hOutside _ (hOwn.frames a v hStanding)
      (hParked.apart _ hInv.current).symm
  · rintro v ⟨⟩
    exact hOwn.parked hInv.current ret

theorem SwitchInvariant.switchTo
    (hInv : SwitchInvariant tasks s)
    {next : Addr}
    (ret : U64)
    (hNext : tasks.Has next)
    (hOwn : OwnStack tasks s) :
    SwitchInvariant tasks (s.call (.switchTo next ret)) := by
  have hWaiting := hInv.suspend hOwn ret
  have hMem : (s.call (.switchTo next ret)).machine.mem =
      switchMemory s.machine s.current ret := by
    unfold SwitchState.call
    simp only [callSwitchTo_eq]
  have hStanding : ∀ a standing,
      (s.call (.switchTo next ret)).standing a = some standing →
        s.suspend ret a = some standing := by
    intro a standing hSome
    change Function.update (s.suspend ret) next none a = _
      at hSome
    by_cases hA : a = next
    · rw [hA, Function.update_self] at hSome
      cases hSome
    · rw [Function.update_of_ne hA] at hSome
      exact hSome
  refine ⟨hNext, Function.update_self _ _ _, ?_⟩
  rw [hMem]
  exact
    { suspended := fun a v hSome =>
        hWaiting.suspended a v (hStanding a _ hSome)
      fresh := fun a fn arg hSome =>
        hWaiting.fresh a fn arg (hStanding a _ hSome) }

/-
  A step keeps the invariant, and a switch is good if and only
  if its condition holds.
-/
theorem switchStep_decided
    {call : SwitchCall}
    (hInv : SwitchInvariant tasks s)
    (hStep : switchStep tasks s call t) :
    (SwitchGood s call t ↔ call.Ok s) ∧
      SwitchInvariant tasks t := by
  rcases hStep with ⟨rfl, hRely⟩
  cases call with
  | kernelThread task fn arg flags rest =>
      rcases hRely with ⟨hHas, hOther, _⟩
      exact ⟨Iff.rfl,
        hInv.kernelThread fn arg flags rest hHas hOther⟩
  | otherCode machine => exact ⟨Iff.rfl, hInv.otherCode hRely⟩
  | switchTo next ret =>
      rcases hRely with ⟨hNext, hOwn⟩
      have hWaiting := hInv.suspend hOwn ret
      refine ⟨?_, hInv.switchTo ret hNext hOwn⟩
      unfold SwitchGood SwitchCall.Ok
      simp only
      cases hStanding : s.suspend ret next with
      | none => exact Iff.rfl
      | some standing =>
          cases standing with
          | fresh fn arg =>
              have hFresh := hWaiting.fresh next fn arg hStanding
              exact iff_of_false hFresh.not_started id
          | suspended v =>
              have hParked :=
                hWaiting.suspended next v hStanding
              exact hParked.resumed_iff

end Step

theorem switchBooted_invariant
    (tasks : TaskRecords)
    (idle : { a // tasks.Has a })
    (machine : Machine) :
    SwitchInvariant tasks (switchBooted tasks idle machine) where
  current := idle.property
  runs := rfl
  waiting := ⟨nofun, nofun⟩

/-
  Whatever happens to the fields, after every run from boot a
  task that was switched out gets its registers back.
-/
theorem switchRun_registersBack
    {tasks : TaskRecords}
    {idle : { a // tasks.Has a }}
    {machine : Machine}
    {calls : List SwitchCall}
    {s t : SwitchState}
    {next : Addr}
    {ret : U64}
    {v : Saved}
    (hRun : Run (switchStep tasks)
      (switchBooted tasks idle machine) calls s)
    (hStep : switchStep tasks s (.switchTo next ret) t)
    (hSuspended : s.suspend ret next = some (.suspended v)) :
    RegistersBack v t.machine := by
  have hInv := hRun.invariant (SwitchInvariant tasks)
    (fun _ _ _ hInv hStep => (switchStep_decided hInv hStep).2)
    (switchBooted_invariant tasks idle machine)
  rcases hStep with ⟨rfl, _, hOwn⟩
  have hWaiting := hInv.suspend hOwn ret
  exact (hWaiting.suspended next v hSuspended).registersBack

/-
  Over every run from boot, and for any tasks, every switch
  resumes or starts its task as it should if and only if no
  switch goes to a thread that has never run, and the field
  r11 of every task that is resumed held, at its own call, the
  stack pointer that the call leaves.
-/
theorem switchRun_resumes_iff
    {tasks : TaskRecords}
    {idle : { a // tasks.Has a }}
    {machine : Machine}
    {calls : List SwitchCall}
    {t : SwitchState} :
    Run
        (fun s call t =>
          switchStep tasks s call t ∧ SwitchGood s call t)
        (switchBooted tasks idle machine) calls t ↔
      Run
        (Guarded (fun s call => SwitchCall.Ok s call)
          (switchStep tasks))
        (switchBooted tasks idle machine) calls t := by
  apply Run.guarded_iff (SwitchInvariant tasks)
  · intro s call t hInv _ hStep
    exact (switchStep_decided hInv hStep).2
  · intro s call t hInv hStep
    exact (switchStep_decided hInv hStep).1
  · exact switchBooted_invariant tasks idle machine

section FreshThread

variable {tasks : TaskRecords}
variable {idle : { a // tasks.Has a }}
variable {machine : Machine}
variable {task : Addr}

/- The first switch of the idle task may go to any thread. -/
theorem freshThread_run
    (hRoom : 56 ≤ machine.rsp.toNat)
    (hRecords : ∀ a, tasks.Has a →
      (frameExtent machine.rsp).Apart (recordExtent a))
    (hHas : tasks.Has task)
    (hOther : task ≠ idle.val)
    (fn arg ret : U64)
    (flags : U32)
    (rest : Nat → BitVec 8) :
    ∃ t,
      Run (switchStep tasks) (switchBooted tasks idle machine)
        [.kernelThread task fn arg flags rest,
          .switchTo task ret] t := by
  let s := (switchBooted tasks idle machine).call
    (.kernelThread task fn arg flags rest)
  have hNone : ∀ a v, s.standing a ≠ some (.suspended v) := by
    intro a v
    change Function.update (fun _ => none) task _ a ≠ _
    by_cases hA : a = task
    · rw [hA, Function.update_self]
      nofun
    · rw [Function.update_of_ne hA]
      nofun
  have hOwn : OwnStack tasks s :=
    { room := hRoom
      records := hRecords
      frames := fun a v hSome => absurd hSome (hNone a v) }
  exact ⟨_, .cons ⟨rfl, hHas, hOther, rfl⟩
    (.cons ⟨rfl, hHas, hOwn⟩ (.nil _))⟩

/- No such run starts the thread. -/
theorem freshThread_not_good
    {t : SwitchState}
    {flags : U32}
    {rest : Nat → BitVec 8}
    (hOther : task ≠ idle.val) :
    ¬ Run
        (fun s call t =>
          switchStep tasks s call t ∧ SwitchGood s call t)
        (switchBooted tasks idle machine)
        [.kernelThread task fn arg flags rest,
          .switchTo task ret] t := by
  intro hRun
  cases hRun with
  | cons hMake hRest =>
      cases hRest with
      | cons hSwitch _ =>
          have hStart := switchBooted_invariant tasks idle machine
          have hInv := (switchStep_decided hStart hMake.1).2
          have hOk :=
            (switchStep_decided hInv hSwitch.1).1.mp hSwitch.2
          rw [hMake.1.1] at hOk
          have hFresh :
              ((switchBooted tasks idle machine).call
                (.kernelThread task fn arg flags rest)).suspend
                  ret task = some (.fresh fn arg) := by
            change Function.update (Function.update
              (fun _ => none) task _) idle.val _ task = _
            rw [Function.update_of_ne hOther,
              Function.update_self]
          unfold SwitchCall.Ok at hOk
          simp only [hFresh] at hOk

end FreshThread

/- The first two records that `kmalloc` returns -/
def firstRecords : TaskRecords where
  Has := fun a => a = 0x200000#64 ∨ a = 0x2004E8#64
  inHeap := by
    rintro a (rfl | rfl)
    · exact ⟨by decide, by decide⟩
    · exact ⟨by decide, by decide⟩
  apart := by
    rintro a b (rfl | rfl) (rfl | rfl) hNe
    · exact absurd rfl hNe
    · exact .inl (by decide)
    · exact .inr (by decide)
    · exact absurd rfl hNe

/- A stack outside the heap -/
def bootMachine : Machine where
  rax := 0#64
  rbx := 0#64
  rdi := 0#64
  rsi := 0#64
  rbp := 0#64
  rsp := 0x90000#64
  r12 := 0#64
  r13 := 0#64
  r14 := 0#64
  r15 := 0#64
  rip := 0#64
  mem := fun _ => 0#8

/- The idle task switches to a thread that was just made. -/
theorem fresh_thread_not_started :
    ¬ ∀ (tasks : TaskRecords) (idle : { a // tasks.Has a })
      (machine : Machine) (calls : List SwitchCall)
      (t : SwitchState),
      Run (switchStep tasks) (switchBooted tasks idle machine)
          calls t →
        Run
          (fun s call t =>
            switchStep tasks s call t ∧ SwitchGood s call t)
          (switchBooted tasks idle machine) calls t := by
  intro hAll
  have hRoom : 56 ≤ bootMachine.rsp.toNat := by decide
  have hRecords : ∀ a, firstRecords.Has a →
      (frameExtent bootMachine.rsp).Apart (recordExtent a) := by
    rintro a (rfl | rfl)
    · exact .inl (by decide)
    · exact .inl (by decide)
  have hIdle : firstRecords.Has 0x200000#64 := .inl rfl
  have hTask : firstRecords.Has 0x2004E8#64 := .inr rfl
  have hOther : (0x2004E8#64 : Addr) ≠ 0x200000#64 := by decide
  rcases @freshThread_run firstRecords ⟨_, hIdle⟩ bootMachine _
      hRoom hRecords hTask hOther 0x100000#64 7#64
      0x110000#64 0#32 (fun _ => 0#8) with
    ⟨t, hRun⟩
  exact freshThread_not_good hOther (hAll _ _ _ _ _ hRun)

/- The registers of a thread, and its own stack -/
def threadMachine (mem : ByteMemory) : Machine :=
  { bootMachine with
    rbx := 9#64
    rsp := 0x94000#64
    rip := 0x100000#64
    mem := Function.update mem 0x200008#64 0xFF#8 }

/- The idle task makes a thread and switches to it. -/
def threadRuns : SwitchState :=
  ((switchBooted firstRecords ⟨0x200000#64, .inl rfl⟩
        bootMachine).call
      (.kernelThread 0x2004E8#64 0x100000#64 7#64 0#32
        (fun _ => 0#8))).call
    (.switchTo 0x2004E8#64 0x110000#64)

/- Only the idle task was switched out. -/
theorem threadRuns_standing
    {standing : Standing}
    (hStanding : threadRuns.standing a = some standing) :
    a = 0x200000#64 ∧
      ∃ v, standing = .suspended v ∧ v.rip = 0x110000#64 ∧
        v.rsp = 0x90000#64 := by
  change Function.update (Function.update (Function.update
    (fun _ => none) 0x2004E8#64 _) 0x200000#64 _)
      0x2004E8#64 none a = _ at hStanding
  by_cases hThread : a = 0x2004E8#64
  · rw [hThread, Function.update_self] at hStanding
    cases hStanding
  · rw [Function.update_of_ne hThread] at hStanding
    by_cases hIdle : a = 0x200000#64
    · rw [hIdle, Function.update_self] at hStanding
      cases hStanding
      exact ⟨hIdle, _, rfl, rfl, rfl⟩
    · rw [Function.update_of_ne hIdle,
        Function.update_of_ne hThread] at hStanding
      cases hStanding

/- A stack below the heap -/
theorem lowStack_apart
    {rsp : U64}
    (hLow : rsp.toNat ≤ 0x94000)
    (a : Addr)
    (hHas : firstRecords.Has a) :
    (frameExtent rsp).Apart (recordExtent a) := by
  have hFrom := (firstRecords.inHeap a hHas).1
  have hStart : heapStart = 0x200000 := rfl
  refine .inl ?_
  unfold frameExtent recordExtent
  simp only
  omega

theorem threadRuns_keeps :
    Keeps threadRuns
      (threadMachine threadRuns.machine.mem).mem := by
  have hField : ∀ b : U64, b ≠ 0x200008#64 →
      (threadMachine threadRuns.machine.mem).mem b =
        threadRuns.machine.mem b :=
    fun b hNe => Function.update_of_ne hNe _ _
  constructor
  · intro a v hStanding i hi
    rcases threadRuns_standing hStanding with
      ⟨_, v, ⟨⟩, _, hRsp⟩
    refine hField _ fun hEq => ?_
    have hIn := inExtent_frame
      (show 56 ≤ (0x90000#64 : U64).toNat by decide) hi
    rw [← hRsp, hEq, hRsp] at hIn
    exact absurd hIn.2 (by decide)
  · intro a hSome i hi
    rcases Option.ne_none_iff_exists'.mp hSome with
      ⟨standing, hStanding⟩
    rcases threadRuns_standing hStanding with ⟨rfl, _⟩
    refine hField _ fun hEq => ?_
    rw [BitVec.add_assoc] at hEq
    have hNat := congrArg BitVec.toNat hEq
    rw [BitVec.toNat_add, toNat_context hi] at hNat
    simp only [BitVec.toNat_ofNat] at hNat
    unfold contextWords at hi
    omega

theorem threadRuns_ownStack :
    OwnStack firstRecords
      (threadRuns.call
        (.otherCode (threadMachine threadRuns.machine.mem))) where
  room := by decide
  records := lowStack_apart (by decide)
  frames := by
    intro a v hSome
    change (match threadRuns.standing a with
      | some (.suspended v) => some (Standing.suspended _)
      | other => other) = _ at hSome
    split at hSome
    next w hStanding =>
      rcases threadRuns_standing hStanding with
        ⟨_, _, ⟨⟩, _, hRsp⟩
      cases hSome
      refine .inr ?_
      unfold frameExtent
      simp only [Saved.written, hRsp]
      decide
    next hNot => exact absurd hSome (hNot v)

/-
  The thread sets a field of the idle task and switches back.
-/
theorem switchRun_registersBack_thread :
    ∃ mem s t v,
      Run (switchStep firstRecords)
        (switchBooted firstRecords ⟨0x200000#64, .inl rfl⟩
          bootMachine)
        [.kernelThread 0x2004E8#64 0x100000#64 7#64 0#32
            (fun _ => 0#8),
          .switchTo 0x2004E8#64 0x110000#64,
          .otherCode (threadMachine mem)] s ∧
      switchStep firstRecords s
        (.switchTo 0x200000#64 0x120000#64) t ∧
      v.rip = 0x110000#64 ∧ v.rsp = 0x90000#64 ∧
      RegistersBack v t.machine := by
  let machine := threadMachine threadRuns.machine.mem
  have hNone : ∀ a v,
      Function.update (fun _ => none) 0x2004E8#64
          (some (.fresh 0x100000#64 7#64)) a ≠
        some (Standing.suspended v) := by
    intro a v
    by_cases hA : a = 0x2004E8#64
    · rw [hA, Function.update_self]
      nofun
    · rw [Function.update_of_ne hA]
      nofun
  have hRun :
      Run (switchStep firstRecords)
        (switchBooted firstRecords ⟨0x200000#64, .inl rfl⟩
          bootMachine)
        [.kernelThread 0x2004E8#64 0x100000#64 7#64 0#32
            (fun _ => 0#8),
          .switchTo 0x2004E8#64 0x110000#64,
          .otherCode machine]
        (threadRuns.call (.otherCode machine)) :=
    .cons ⟨rfl, .inr rfl, by decide, rfl⟩
      (.cons
        ⟨rfl, .inr rfl, by decide, lowStack_apart (by decide),
          fun a v hSome => absurd hSome (hNone a v)⟩
        (.cons ⟨rfl, threadRuns_keeps⟩ (.nil _)))
  have hSuspended : ∃ v,
      (threadRuns.call (.otherCode machine)).suspend
          0x120000#64 0x200000#64 =
        some (.suspended v) ∧
      v.rip = 0x110000#64 ∧ v.rsp = 0x90000#64 :=
    ⟨_, rfl, rfl, rfl⟩
  rcases hSuspended with ⟨v, hSuspended, hRip, hRsp⟩
  have hStep :
      switchStep firstRecords
        (threadRuns.call (.otherCode machine))
        (.switchTo 0x200000#64 0x120000#64) _ :=
    ⟨rfl, .inl rfl, threadRuns_ownStack⟩
  exact ⟨_, _, _, v, hRun, hStep, hRip, hRsp,
    switchRun_registersBack hRun hStep hSuspended⟩

end FeatherOS
