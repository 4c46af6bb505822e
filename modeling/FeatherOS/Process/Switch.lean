import FeatherOS.Library.WordStack
import FeatherOS.Process.Stacks

/-
  Context switches (`kernel/sched/context_switch.S`).

  `switch_to` pushes the callee-saved registers, keeps the
  stack pointer at 128(prev), takes the one at 128(next) and
  pops. The field `cpu_context` lies 48 bytes behind the start
  of a task, so 128 bytes behind the start is the field `r11`
  and not `rsp`.

  Key definitions include:
    * `switchTo`
    * `kernelThreadMemory`
    * `TaskRecords`

  Key theorems include:
    * `callSwitchTo_eq`
    * `kernelThreadMemory_outside`
    * `switchMemory_outside`
-/

namespace FeatherOS

--------------------
-- The Machine
--------------------

/- Memory, and the registers that `switch_to` names -/
structure Machine where
  rax : U64
  rbx : U64
  rdi : U64
  rsi : U64
  rbp : U64
  rsp : U64
  r12 : U64
  r13 : U64
  r14 : U64
  r15 : U64
  rip : U64
  mem : ByteMemory

namespace Machine

def pushq
    (m : Machine)
    (word : U64) : Machine :=
  { m with
    rsp := m.rsp - 8#64
    mem := m.mem.store (m.rsp - 8#64) word }

/- The word that the next `popq` moves to its register -/
def top (m : Machine) : U64 :=
  m.mem.load m.rsp

/- `popq` without its register -/
def popq (m : Machine) : Machine :=
  { m with rsp := m.rsp + 8#64 }

end Machine

/- The displacement of 128(%rdi) and 128(%rsi) -/
def savedSlot : U64 := 128#64

/- Save old context -/
def saveContext (m : Machine) : Machine :=
  let m := m.pushq m.rbp
  let m := m.pushq m.rbx
  let m := m.pushq m.r12
  let m := m.pushq m.r13
  let m := m.pushq m.r14
  m.pushq m.r15

/- Load registers from new context, and return -/
def loadContext (m : Machine) : Machine :=
  let m := { m.popq with r15 := m.top }
  let m := { m.popq with r14 := m.top }
  let m := { m.popq with r13 := m.top }
  let m := { m.popq with r12 := m.top }
  let m := { m.popq with rbx := m.top }
  let m := { m.popq with rbp := m.top }
  { m.popq with rip := m.top }

def switchTo (m : Machine) : Machine :=
  let m := saveContext m
  let m := { m with rax := m.rsp }
  let m := { m with mem := m.mem.store (m.rdi + savedSlot) m.rax }
  let m := { m with rsp := m.mem.load (m.rsi + savedSlot) }
  loadContext m

/- A call that would return to `ret` -/
def callSwitchTo
    (m : Machine)
    (prev next : Addr)
    (ret : U64) : Machine :=
  switchTo { m.pushq ret with rdi := prev, rsi := next }

--------------------
-- Task Records In Memory
--------------------

/- offsetof(task_t, cpu_context) -/
def contextOffset : U64 := 48#64

/- sizeof(cpu_context_t) / 8 -/
def contextWords : Nat := 24

/- The offset of the `i`-th register of cpu_context in a task -/
def contextField (i : Nat) : U64 :=
  contextOffset + BitVec.ofNat 64 (8 * i)

def r11Field : U64 := contextField 10

def rspField : U64 := contextField 16

theorem savedSlot_eq : savedSlot = r11Field :=
  rfl

/- The registers of cpu_context_t in their order -/
def CpuContext.words (c : CpuContext) : Nat → U64
  | 0 => c.rax
  | 5 => c.rdi
  | 15 => c.rip
  | 16 => c.rsp
  | 17 => c.rflags
  | 18 => c.cs
  | 19 => c.ss
  | _ => 0#64

/-
  The memory when `kernel_thread` returns the task; `rest` is
  what it leaves outside cpu_context.
-/
def kernelThreadMemory
    (m : ByteMemory)
    (task : Addr)
    (fn arg : U64)
    (flags : U32)
    (rest : Nat → BitVec 8) :
    ByteMemory :=
  (m.patch task taskSize.toNat rest).storeWords
    (task + contextOffset) contextWords
    (setUpKernelThread task fn arg flags
      Task.zero).cpuContext.words

def recordExtent (task : Addr) : Extent :=
  ⟨task.toNat, taskSize.toNat⟩

/- What a call with this stack pointer pushes -/
def frameExtent (rsp : U64) : Extent :=
  ⟨rsp.toNat - 56, 56⟩

def InExtent
    (e : Extent)
    (b : U64) : Prop :=
  e.start ≤ b.toNat ∧ b.toNat < e.start + e.size

/-
  The task records that `allocate_task` returns over a run:
  blocks of the heap that lie apart.
-/
structure TaskRecords where
  Has : Addr → Prop
  inHeap : ∀ a, Has a →
    heapStart ≤ a.toNat ∧
      a.toNat + taskSize.toNat ≤ heapStart + heapSize
  apart : ∀ a b, Has a → Has b → a ≠ b →
    (recordExtent a).Apart (recordExtent b)

--------------------
-- One Call Of switch_to
--------------------

/- Memory as the call leaves it -/
def switchMemory
    (m : Machine)
    (prev : Addr)
    (ret : U64) : ByteMemory :=
  (m.mem.pushes m.rsp
      [ret, m.rbp, m.rbx, m.r12, m.r13, m.r14, m.r15]).store
    (prev + savedSlot) (m.rsp - 56#64)

theorem saveContext_eq
    (m : Machine) :
    saveContext m =
      { m with
        rsp := m.rsp - 48#64
        mem := m.mem.pushes m.rsp
          [m.rbp, m.rbx, m.r12, m.r13, m.r14, m.r15] } := by
  unfold saveContext
  simp only [Machine.pushq, ByteMemory.pushes, BitVec.sub_sub,
    BitVec.reduceAdd]

theorem loadContext_eq
    (m : Machine) :
    loadContext m =
      { m with
        r15 := m.mem.load m.rsp
        r14 := m.mem.load (m.rsp + 8#64)
        r13 := m.mem.load (m.rsp + 16#64)
        r12 := m.mem.load (m.rsp + 24#64)
        rbx := m.mem.load (m.rsp + 32#64)
        rbp := m.mem.load (m.rsp + 40#64)
        rip := m.mem.load (m.rsp + 48#64)
        rsp := m.rsp + 56#64 } := by
  unfold loadContext
  simp only [Machine.popq, Machine.top, BitVec.add_assoc,
    BitVec.reduceAdd]

theorem callSwitchTo_eq
    (m : Machine)
    (prev next : Addr)
    (ret : U64) :
    callSwitchTo m prev next ret =
      let mem := switchMemory m prev ret
      let sp := mem.load (next + savedSlot)
      { rax := m.rsp - 56#64
        rdi := prev
        rsi := next
        r15 := mem.load sp
        r14 := mem.load (sp + 8#64)
        r13 := mem.load (sp + 16#64)
        r12 := mem.load (sp + 24#64)
        rbx := mem.load (sp + 32#64)
        rbp := mem.load (sp + 40#64)
        rip := mem.load (sp + 48#64)
        rsp := sp + 56#64
        mem := mem } := by
  have hMem : ((m.mem.store (m.rsp - 8#64) ret).pushes
        (m.rsp - 8#64)
        [m.rbp, m.rbx, m.r12, m.r13, m.r14, m.r15]).store
          (prev + savedSlot) (m.rsp - 56#64) =
      switchMemory m prev ret := rfl
  unfold callSwitchTo switchTo
  simp only [saveContext_eq, loadContext_eq, Machine.pushq,
    BitVec.sub_sub, BitVec.reduceAdd]
  simp only [hMem]

--------------------
-- Bytes Of Records And Frames
--------------------

variable {tasks : TaskRecords}

theorem TaskRecords.toNat_offset
    {a : Addr}
    (hHas : tasks.Has a)
    {o : U64}
    (hIn : o.toNat < taskSize.toNat) :
    (a + o).toNat = a.toNat + o.toNat := by
  have hEnd := (tasks.inHeap a hHas).2
  have hHeap : heapStart + heapSize < 2 ^ 64 := by decide
  rw [BitVec.toNat_add]
  omega

variable {i : Nat}

theorem toNat_frame
    {rsp : U64}
    (hRoom : 56 ≤ rsp.toNat)
    (hi : i < 56) :
    (rsp - 56#64 + BitVec.ofNat 64 i).toNat =
      rsp.toNat - 56 + i := by
  rw [BitVec.toNat_add, BitVec.toNat_sub]
  simp only [BitVec.toNat_ofNat]
  omega

theorem TaskRecords.inExtent_record
    {a : Addr}
    (hHas : tasks.Has a)
    {o : U64}
    (hIn : o.toNat < taskSize.toNat) :
    InExtent (recordExtent a) (a + o) := by
  have hAt := tasks.toNat_offset hHas hIn
  unfold InExtent recordExtent
  simp only
  omega

theorem inExtent_frame
    {rsp : U64}
    (hRoom : 56 ≤ rsp.toNat)
    (hi : i < 56) :
    InExtent (frameExtent rsp)
      (rsp - 56#64 + BitVec.ofNat 64 i) := by
  have hAt := toNat_frame hRoom hi
  unfold InExtent frameExtent
  simp only
  omega

/- The offset of the `i`-th byte of cpu_context -/
theorem toNat_context
    (hi : i < 8 * contextWords) :
    (contextOffset + BitVec.ofNat 64 i).toNat = 48 + i := by
  unfold contextWords at hi
  unfold contextOffset
  rw [BitVec.toNat_add]
  simp only [BitVec.toNat_ofNat]
  omega

/- The `i`-th word pushed, by its place above the last one -/
theorem frame_word
    (rsp : U64)
    {i k : Nat}
    (hi : i < 7) :
    rsp - BitVec.ofNat 64 (8 * (i + 1)) + BitVec.ofNat 64 k =
      rsp - 56#64 + BitVec.ofNat 64 (8 * (6 - i) + k) := by
  apply BitVec.eq_of_toNat_eq
  simp only [BitVec.toNat_add, BitVec.toNat_sub,
    BitVec.toNat_ofNat]
  omega

/- A thread is made inside its record. -/
theorem kernelThreadMemory_outside
    {m : ByteMemory}
    {task : Addr}
    (fn arg : U64)
    (flags : U32)
    (rest : Nat → BitVec 8)
    (hHas : tasks.Has task)
    {e : Extent}
    (hApart : (recordExtent task).Apart e)
    {b : U64}
    (hIn : InExtent e b) :
    kernelThreadMemory m task fn arg flags rest b = m b := by
  have hSize : taskSize.toNat = 1256 := rfl
  have hTask := (tasks.inHeap task hHas).2
  have hHeap : heapStart + heapSize < 2 ^ 64 := by decide
  have hContext : (task + contextOffset).toNat =
      task.toNat + 48 :=
    tasks.toNat_offset hHas (o := contextOffset) (by decide)
  rcases hIn with ⟨hStart, hEnd⟩
  unfold Extent.Apart recordExtent at hApart
  simp only at hApart
  unfold kernelThreadMemory ByteMemory.storeWords contextWords
  rw [ByteMemory.patch_outside (by omega) (by omega),
    ByteMemory.patch_outside (by omega) (by omega)]

/- A call stores in the record of `prev` and below the stack. -/
theorem switchMemory_outside
    {m : Machine}
    {prev : Addr}
    (ret : U64)
    (hHas : tasks.Has prev)
    (hRoom : 56 ≤ m.rsp.toNat)
    {e : Extent}
    (hFrame : (frameExtent m.rsp).Apart e)
    (hRecord : (recordExtent prev).Apart e)
    {b : U64}
    (hIn : InExtent e b) :
    switchMemory m prev ret b = m.mem b := by
  have hSize : taskSize.toNat = 1256 := rfl
  have hPrev := (tasks.inHeap prev hHas).2
  have hHeap : heapStart + heapSize < 2 ^ 64 := by decide
  have hSlot : (prev + savedSlot).toNat = prev.toNat + 128 :=
    tasks.toNat_offset hHas (o := savedSlot) (by decide)
  rcases hIn with ⟨hStart, hEnd⟩
  unfold Extent.Apart recordExtent at hRecord
  unfold Extent.Apart frameExtent at hFrame
  simp only at hRecord hFrame
  unfold switchMemory
  rw [ByteMemory.store_outside (by omega) (by omega),
    ByteMemory.pushes_outside (by simp; omega)]
  simp only [List.length_cons, List.length_nil]
  omega

end FeatherOS
