import FeatherOS.Kmalloc
import FeatherOS.Library.SavedRegisters

/-
  Entering and leaving the kernel
  (`kernel/arch/x86_64/interrupt.S`).

  The processor pushes where it was, the entry pushes a vector
  or a code and all registers, and calls a handler through a
  pointer. Then the registers are popped and `iretq` takes what
  is next on the stack.

  Key definitions include:
    * `Interrupted`
    * `exceptionEntry`
    * `irqEntry`
    * `syscallEntry`
    * `pageFaultEntry`

  Key theorems include:
    * `exception_resumes`
    * `irq_returns_to_vector`
    * `syscall_result_lost`
    * `page_fault_returns_to_code`
-/

namespace FeatherOS

open SavedRegisters (Core Keeps pushWords save restore)

--------------------
-- The Processor
--------------------

/- The general registers without the stack pointer -/
inductive Reg where
  | rax | rbx | rcx | rdx | rbp | rsi | rdi
  | r8 | r9 | r10 | r11 | r12 | r13 | r14 | r15
  deriving DecidableEq

abbrev EntryCore := Core Reg

/- What a program has when it is interrupted -/
structure Interrupted where
  regs : Reg → U64
  rip : U64
  cs : U64
  rflags : U64
  rsp : U64
  ss : U64

namespace Interrupted

/- What `iretq` takes, from the top of the stack -/
def frame (p : Interrupted) : List U64 :=
  [p.rip, p.cs, p.rflags, p.rsp, p.ss]

/- The processor pushes it on the stack at `sp`. -/
def deliver
    (p : Interrupted)
    (sp : U64)
    (mem : ByteMemory)
    (code : Option U64) : EntryCore :=
  pushWords ⟨p.regs, sp, mem⟩ (p.frame.reverse ++ code.toList)

end Interrupted

def iretq (c : EntryCore) : Interrupted where
  regs := c.regs
  rip := c.word 0
  cs := c.word 1
  rflags := c.word 2
  rsp := c.word 3
  ss := c.word 4

/- The pointers that C code sets, and the code at an address -/
structure Handlers where
  exceptionHandler : U64
  interruptHandler : U64
  eoiHandler : U64
  shouldSchedule : U64
  syscallHandler : U64
  pageFaultHandler : U64
  code : U64 → EntryCore → EntryCore

/-
  Called code returns with the stack pointer it was called
  with, and does not write the frame of its caller.
-/
def Handlers.Return
    (h : Handlers)
    (frame : Nat) : Prop :=
  ∀ a c, Keeps frame c (h.code a c)

/- `testq %reg, %reg; jz 1f; ...; callq *%reg` -/
def callThrough
    (h : Handlers)
    (pointer : U64)
    (arguments : EntryCore → EntryCore)
    (c : EntryCore) : EntryCore :=
  if pointer = 0#64 then
    c
  else
    h.code pointer (arguments c)

--------------------
-- Exceptions And Interrupts
--------------------

/- `EXCEPTION_WITH_CODE` -/
def withCode : List Nat :=
  [8, 10, 11, 12, 13, 14]

/- The order of `common_interrupt` and `common_exception` -/
def interruptOrder : List Reg :=
  [.rax, .rbx, .rcx, .rdx, .rbp, .rsi, .rdi, .r8, .r9, .r10, .r11,
    .r12, .r13, .r14, .r15]

/- "Get exception number", "setup frame pointer" -/
def frameArguments (c : EntryCore) : EntryCore :=
  (c.set .rdi (c.word 2)).set .rsi (c.sp + 16#64)

/- The registers when the handler is called, or skipped -/
def exceptionSaved
    (h : Handlers)
    (n : Nat)
    (c : EntryCore) : EntryCore :=
  let c := if n ∈ withCode then c else c.push 0#64
  (save interruptOrder c).set .rbx h.exceptionHandler

def exceptionEntry
    (h : Handlers)
    (n : Nat)
    (c : EntryCore) : Interrupted :=
  let c := exceptionSaved h n c
  let c := callThrough h h.exceptionHandler frameArguments c
  let c := restore interruptOrder.reverse c
  iretq c.drop

/- The part up to the first label 1, with `hlt` as no result -/
def irqChecked
    (h : Handlers)
    (c : EntryCore) : Option EntryCore :=
  let c := c.set .rax (c.word 2)
  if 31 < (c.regs .rax).toInt then
    some c
  else
    let c := c.set .rbx h.exceptionHandler
    if h.exceptionHandler = 0#64 then
      some c
    else
      let c := c.set .rbx (c.regs .rbx + 8#64 * c.regs .rax)
      let c := c.set .rbx (c.mem.load (c.regs .rbx))
      if c.regs .rbx = 0#64 then none else some c

/- The part from the label 3 on -/
def irqLeave
    (h : Handlers)
    (c : EntryCore) : Interrupted :=
  let c := restore interruptOrder.reverse c
  let c := c.set .rax (c.word 0)
  if 31 < (c.regs .rax).toInt then
    let c := c.set .rax h.eoiHandler
    if h.eoiHandler = 0#64 then
      iretq c
    else
      let c := c.set .rax (c.regs .rax - 32#64)
      iretq (h.code (c.regs .rax) c)
  else
    iretq c.drop

def irqEntry
    (h : Handlers)
    (n : Nat)
    (c : EntryCore) : Option Interrupted := do
  let c ← irqChecked h
    (save interruptOrder (c.push (BitVec.ofNat 64 n)))
  let c := c.set .rbx h.interruptHandler
  let c := callThrough h h.interruptHandler frameArguments c
  let c := c.set .rax h.shouldSchedule
  let c := callThrough h h.shouldSchedule id c
  return irqLeave h c

--------------------
-- System Calls And Page Faults
--------------------

def syscallOrder : List Reg :=
  [.rax, .rcx, .r11, .rdi, .rsi, .rdx, .r10, .r8, .r9, .rbp, .rbx,
    .r12, .r13, .r14, .r15]

/- `movq 120(%rsp), %rdi` -/
def syscallArguments (c : EntryCore) : EntryCore :=
  c.set .rdi (c.word 15)

def syscallSaved
    (h : Handlers)
    (c : EntryCore) : EntryCore :=
  (save syscallOrder c).set .rax h.syscallHandler

def syscallEntry
    (h : Handlers)
    (c : EntryCore) : Interrupted :=
  let c := syscallSaved h c
  let c := callThrough h h.syscallHandler syscallArguments c
  iretq (restore syscallOrder.reverse c)

/- `movq %cr2, %rdi; movq 120(%rsp), %rsi` -/
def pageFaultArguments
    (cr2 : U64)
    (c : EntryCore) : EntryCore :=
  (c.set .rdi cr2).set .rsi (c.word 15)

def pageFaultEntry
    (h : Handlers)
    (cr2 : U64)
    (c : EntryCore) : Interrupted :=
  let c := c.set .rax cr2
  let c := c.set .rsi (c.word 0)
  let c := (save interruptOrder c).set .rax h.pageFaultHandler
  let c := callThrough h h.pageFaultHandler (pageFaultArguments cr2) c
  iretq (restore interruptOrder.reverse c)

--------------------
-- Frames
--------------------

variable {c d : EntryCore}

section Frames

variable {h : Handlers}
variable {p : Interrupted}
variable {sp : U64}
variable {mem : ByteMemory}
variable {code : Option U64}

theorem interruptOrder_all
    (r : Reg) :
    r ∈ interruptOrder := by
  cases r <;> decide

theorem interruptOrder_nodup :
    interruptOrder.Nodup := by
  decide

theorem syscallOrder_all
    (r : Reg) :
    r ∈ syscallOrder := by
  cases r <;> decide

theorem syscallOrder_nodup :
    syscallOrder.Nodup := by
  decide

variable {frame : Nat}

theorem Handlers.Return.through
    {pointer : U64}
    {arguments : EntryCore → EntryCore}
    (hReturn : h.Return frame)
    (hArguments : ∀ d, Keeps frame d (arguments d))
    (hKeeps : Keeps frame c d) :
    Keeps frame c (callThrough h pointer arguments d) := by
  unfold callThrough
  split
  · exact hKeeps
  · exact (hKeeps.trans (hArguments d)).trans (hReturn _ _)

theorem frameArguments_keeps
    (d : EntryCore) :
    Keeps frame d (frameArguments d) :=
  Keeps.refl.set.set

@[simp] theorem frame_length :
    p.frame.length = 5 :=
  rfl

/- The words on the stack, from the top -/
structure OnStack
    (p : Interrupted)
    (words : List U64)
    (c : EntryCore) : Prop where
  regs : c.regs = p.regs
  low : 120 ≤ c.sp.toNat
  high : c.sp.toNat + 8 * words.length ≤ 2 ^ 64
  word : ∀ i (hi : i < words.length), c.word i = words[i]

theorem onStack_deliver
    (hRoom : 168 ≤ sp.toNat) :
    OnStack p (code.toList ++ p.frame) (p.deliver sp mem code) := by
  let words := p.frame.reverse ++ code.toList
  have hReverse : words.reverse = code.toList ++ p.frame := by
    cases code <;> rfl
  have hLength : words.length ≤ 6 := by
    cases code <;> simp [words]
  have hLow : 8 * words.length ≤
      (⟨p.regs, sp, mem⟩ : EntryCore).sp.toNat := by
    change 8 * words.length ≤ sp.toNat
    omega
  have hEq : p.deliver sp mem code =
      pushWords ⟨p.regs, sp, mem⟩ words := rfl
  have hSp : (p.deliver sp mem code).sp.toNat =
      sp.toNat - 8 * words.length := by
    rw [hEq, SavedRegisters.pushWords_eq]
    exact SavedRegisters.toNat_sub_words (by omega)
  have hLt := sp.isLt
  rw [← hReverse]
  constructor
  · rw [hEq, SavedRegisters.pushWords_eq]
  · omega
  · rw [List.length_reverse]
    omega
  · intro i hi
    rw [hEq]
    exact SavedRegisters.pushWords_word hLow hi

variable {pushed : U64}

theorem onStack_code
    (hRoom : 168 ≤ sp.toNat) :
    OnStack p (pushed :: p.frame) (p.deliver sp mem (some pushed)) :=
  @onStack_deliver p sp mem (some pushed) hRoom

theorem onStack_plain
    (hRoom : 168 ≤ sp.toNat) :
    OnStack p p.frame (p.deliver sp mem none) :=
  @onStack_deliver p sp mem none hRoom

theorem deliver_push
    {pushed : U64} :
    (p.deliver sp mem none).push pushed =
      p.deliver sp mem (some pushed) :=
  rfl

/- The frame that a handler may not write -/
def frameWords : Nat := 21

/- After the registers are popped only the stack may be wrong. -/
theorem OnStack.restored
    {order : List Reg}
    {words : List U64}
    (hAll : ∀ r, r ∈ order)
    (hNodup : order.Nodup)
    (hOrder : order.length = 15)
    (hWords : words.length ≤ 6)
    (hStack : OnStack p words c)
    (hKeeps : Keeps frameWords (save order c) d) :
    OnStack p words (restore order.reverse d) := by
  have hLow := hStack.low
  have hBack :
      (∀ r ∈ order, (restore order.reverse d).regs r = c.regs r) ∧
        Keeps words.length c (restore order.reverse d) :=
    SavedRegisters.restore_save hNodup (by omega) hStack.high
      (hKeeps.mono (by unfold frameWords; omega))
  rcases hBack with ⟨hRegs, hAbove⟩
  constructor
  · rw [← hStack.regs]
    funext r
    exact hRegs r (hAll r)
  · rw [hAbove.sp]
    exact hStack.low
  · rw [hAbove.sp]
    exact hStack.high
  · intro i hi
    rw [hAbove.word i hi, hStack.word i hi]

/- The frame on top of the stack: the program goes on. -/
theorem OnStack.iretq_frame
    (hStack : OnStack p p.frame c) :
    iretq c = p := by
  have hWord := hStack.word
  rcases p with ⟨regs, rip, cs, rflags, rsp, ss⟩
  rw [iretq, Interrupted.mk.injEq]
  exact ⟨hStack.regs, hWord 0 (by simp), hWord 1 (by simp),
    hWord 2 (by simp), hWord 3 (by simp), hWord 4 (by simp)⟩

/- A word on top of the frame that is skipped, -/
theorem OnStack.iretq_drop
    (hStack : OnStack p (pushed :: p.frame) c) :
    iretq c.drop = p := by
  have hDrop : ∀ i, c.drop.word i = c.word (i + 1) :=
    fun _ => SavedRegisters.drop_word
  have hWord := hStack.word
  rcases p with ⟨regs, rip, cs, rflags, rsp, ss⟩
  rw [iretq, Interrupted.mk.injEq]
  simp only [hDrop]
  exact ⟨hStack.regs, hWord 1 (by simp),
    hWord 2 (by simp),
    hWord 3 (by simp),
    hWord 4 (by simp),
    hWord 5 (by simp)⟩

/- or taken for a part of the frame -/
theorem OnStack.iretq_early
    (hStack : OnStack p (pushed :: p.frame) c) :
    iretq c = ⟨c.regs, pushed, p.rip, p.cs, p.rflags, p.rsp⟩ := by
  have hWord := hStack.word
  rw [iretq, Interrupted.mk.injEq]
  exact ⟨rfl, hWord 0 (by simp),
    hWord 1 (by simp),
    hWord 2 (by simp),
    hWord 3 (by simp),
    hWord 4 (by simp)⟩

/- The third word from the top is the register `r13`. -/
theorem saved_r13
    (hRoom : 120 ≤ c.sp.toNat) :
    (save interruptOrder c).word 2 = c.regs .r13 := by
  have hPushes : 8 * interruptOrder.length ≤ c.sp.toNat := hRoom
  rw [SavedRegisters.save_word hPushes (by decide)]
  rfl

/- Pushing a code where the processor does not -/
theorem exceptionSaved_eq
    {n : Nat}
    (hCode : code.isSome ↔ n ∈ withCode) :
    exceptionSaved h n (p.deliver sp mem code) =
      (save interruptOrder
        (p.deliver sp mem (some (code.getD 0#64)))).set
          .rbx h.exceptionHandler := by
  unfold exceptionSaved
  cases code with
  | none =>
      have hWithout : n ∉ withCode := by simpa using hCode
      rw [if_neg hWithout, deliver_push]
      rfl
  | some e =>
      have hWith : n ∈ withCode := by simpa using hCode
      rw [if_pos hWith]
      rfl

theorem irqChecked_keeps
    (hChecked : irqChecked h c = some d) :
    Keeps frame c d := by
  unfold irqChecked at hChecked
  simp only at hChecked
  split at hChecked
  · cases hChecked
    exact Keeps.refl.set
  · split at hChecked
    · cases hChecked
      exact Keeps.refl.set.set
    · split at hChecked
      · cases hChecked
      · cases hChecked
        exact Keeps.refl.set.set.set.set

end Frames

--------------------
-- Coming Back
--------------------

theorem frameArguments_rdi
    (c : EntryCore) :
    (frameArguments c).regs .rdi = c.word 2 := by
  unfold frameArguments
  rw [SavedRegisters.set_other (by decide), SavedRegisters.set_self]

/-
  An exception whose code is where the entry expects it: the
  program goes on as it was. The handler is given the register
  `r13` of the program, not the number of the exception.
-/
theorem exception_resumes
    (h : Handlers)
    (p : Interrupted)
    (sp : U64)
    (mem : ByteMemory)
    (n : Nat)
    (code : Option U64)
    (hCode : code.isSome ↔ n ∈ withCode)
    (hRoom : 168 ≤ sp.toNat)
    (hReturn : h.Return frameWords) :
    exceptionEntry h n (p.deliver sp mem code) = p ∧
      (frameArguments
        (exceptionSaved h n (p.deliver sp mem code))).regs .rdi =
          p.regs .r13 := by
  have hStack : OnStack p (code.getD 0#64 :: p.frame)
      (p.deliver sp mem (some (code.getD 0#64))) :=
    onStack_code hRoom
  have hSaved : exceptionSaved h n (p.deliver sp mem code) =
      (save interruptOrder
        (p.deliver sp mem (some (code.getD 0#64)))).set
          .rbx h.exceptionHandler :=
    exceptionSaved_eq hCode
  have hKeeps : Keeps frameWords
      (save interruptOrder
        (p.deliver sp mem (some (code.getD 0#64))))
      (exceptionSaved h n (p.deliver sp mem code)) := by
    rw [hSaved]
    exact Keeps.refl.set
  constructor
  · have hHandled : Keeps frameWords _
        (callThrough h h.exceptionHandler frameArguments
          (exceptionSaved h n (p.deliver sp mem code))) :=
      hReturn.through frameArguments_keeps hKeeps
    have hBack := hStack.restored interruptOrder_all
      interruptOrder_nodup rfl (by simp) hHandled
    exact hBack.iretq_drop
  · rw [frameArguments_rdi, hSaved, SavedRegisters.set_word,
      saved_r13 hStack.low, hStack.regs]

/- A program with 99 in every register -/
def programAtSeven : Interrupted :=
  ⟨fun _ => 99#64, 7#64, 8#64, 0x202#64, 9#64, 16#64⟩

/- A division by zero, with a handler that does nothing -/
theorem exception_resumes_divide :
    exceptionEntry ⟨8#64, 0#64, 0#64, 0#64, 0#64, 0#64, fun _ c => c⟩
        0 (programAtSeven.deliver 4096#64 (fun _ => 0#8) none) =
          programAtSeven ∧
      (frameArguments
        (exceptionSaved
          ⟨8#64, 0#64, 0#64, 0#64, 0#64, 0#64, fun _ c => c⟩ 0
          (programAtSeven.deliver 4096#64 (fun _ => 0#8)
            none))).regs .rdi =
        99#64 :=
  exception_resumes _ programAtSeven _ _ 0 none (by decide)
    (by decide) fun _ _ => Keeps.refl

/- What `iretq` takes where the vector was not skipped -/
structure ReturnsTo
    (q p : Interrupted)
    (rip : U64) : Prop where
  rip : q.rip = rip
  cs : q.cs = p.rip
  rflags : q.rflags = p.cs
  rsp : q.rsp = p.rflags
  ss : q.ss = p.rsp

theorem irqLeave_vector
    {h : Handlers}
    {p : Interrupted}
    {n : Nat}
    (hLow : 32 ≤ n)
    (hHigh : n < 48)
    (hReturn : h.Return frameWords)
    (hStack : OnStack p (BitVec.ofNat 64 n :: p.frame) c)
    (hKeeps : Keeps frameWords (save interruptOrder c) d) :
    ReturnsTo (irqLeave h d) p (BitVec.ofNat 64 n) := by
  have hBack := hStack.restored interruptOrder_all
    interruptOrder_nodup rfl (by simp) hKeeps
  have hTop : (restore interruptOrder.reverse d).word 0 =
      BitVec.ofNat 64 n :=
    hBack.word 0 (by simp)
  have hVector : 31 < (BitVec.ofNat 64 n).toInt := by
    rw [BitVec.toInt_eq_toNat_of_lt] <;>
      rw [BitVec.toNat_ofNat] <;> omega
  have hLeft : ∀ e : EntryCore,
      Keeps frameWords (restore interruptOrder.reverse d) e →
        ReturnsTo (iretq e) p (BitVec.ofNat 64 n) := by
    intro e hKept
    have hLength : (BitVec.ofNat 64 n :: p.frame).length = 6 := rfl
    have hWord : ∀ i
        (hi : i < (BitVec.ofNat 64 n :: p.frame).length),
        e.word i = (BitVec.ofNat 64 n :: p.frame)[i] := by
      intro i hi
      rw [hKept.word i (by unfold frameWords; omega)]
      exact hBack.word i hi
    exact ⟨hWord 0 (by omega), hWord 1 (by omega), hWord 2 (by omega),
      hWord 3 (by omega), hWord 4 (by omega)⟩
  unfold irqLeave
  simp only [hTop, SavedRegisters.set_self, hVector, if_true]
  split
  · exact hLeft _ Keeps.refl.set.set
  · exact hLeft _ (Keeps.refl.set.set.set.trans (hReturn _ _))

/-
  An interrupt of a device does not come back: the vector is
  left on the stack, and `iretq` takes it for the place to go
  on at.
-/
theorem irq_returns_to_vector
    (h : Handlers)
    (p q : Interrupted)
    (sp : U64)
    (mem : ByteMemory)
    (n : Nat)
    (hLow : 32 ≤ n)
    (hHigh : n < 48)
    (hRoom : 168 ≤ sp.toNat)
    (hReturn : h.Return frameWords)
    (hEntry : irqEntry h n (p.deliver sp mem none) = some q) :
    ReturnsTo q p (BitVec.ofNat 64 n) := by
  have hStack : OnStack p (BitVec.ofNat 64 n :: p.frame)
      (p.deliver sp mem (some (BitVec.ofNat 64 n))) :=
    onStack_code hRoom
  rw [irqEntry, deliver_push] at hEntry
  simp only [Option.bind_eq_bind, Option.bind_eq_some_iff] at hEntry
  rcases hEntry with ⟨c, hChecked, hEntry⟩
  have hKeeps : Keeps frameWords
      (save interruptOrder
        (p.deliver sp mem (some (BitVec.ofNat 64 n)))) c :=
    irqChecked_keeps hChecked
  have hHandled : Keeps frameWords _
      (callThrough h h.interruptHandler frameArguments
        (c.set .rbx h.interruptHandler)) :=
    hReturn.through frameArguments_keeps hKeeps.set
  have hScheduled : Keeps frameWords _
      (callThrough h h.shouldSchedule id
        ((callThrough h h.interruptHandler frameArguments
          (c.set .rbx h.interruptHandler)).set
            .rax h.shouldSchedule)) :=
    hReturn.through (fun _ => Keeps.refl) hHandled.set
  cases hEntry
  exact irqLeave_vector hLow hHigh hReturn hStack hScheduled

/- The timer, with handlers that do nothing -/
theorem irq_returns_to_vector_timer :
    ∃ q,
      irqEntry
          ⟨8#64, 16#64, 0#64, 24#64, 0#64, 0#64, fun _ c => c⟩ 32
          (programAtSeven.deliver 4096#64 (fun _ => 0#8) none) =
        some q ∧
      ReturnsTo q programAtSeven 32#64 :=
  ⟨_, rfl, irq_returns_to_vector _ programAtSeven _ 4096#64
    (fun _ => 0#8) 32 (by decide) (by decide) (by decide)
    (fun _ _ => Keeps.refl) rfl⟩

theorem syscallArguments_rdi
    (c : EntryCore) :
    (syscallArguments c).regs .rdi = c.word 15 := by
  unfold syscallArguments
  rw [SavedRegisters.set_self]

/-
  A system call leaves all registers as they were: what the
  handler returns in `rax` is lost. The handler is given the
  place the program goes on at, not the number of the call.
-/
theorem syscall_result_lost
    (h : Handlers)
    (p : Interrupted)
    (sp : U64)
    (mem : ByteMemory)
    (hRoom : 168 ≤ sp.toNat)
    (hReturn : h.Return frameWords) :
    syscallEntry h (p.deliver sp mem none) = p ∧
      (syscallArguments
        (syscallSaved h (p.deliver sp mem none))).regs .rdi =
          p.rip := by
  have hStack : OnStack p p.frame (p.deliver sp mem none) :=
    onStack_plain hRoom
  have hLow := hStack.low
  have hHigh := hStack.high
  constructor
  · have hHandled : Keeps frameWords
        (save syscallOrder (p.deliver sp mem none))
        (callThrough h h.syscallHandler syscallArguments
          (syscallSaved h (p.deliver sp mem none))) :=
      hReturn.through (fun _ => Keeps.refl.set) Keeps.refl.set
    have hBack := hStack.restored syscallOrder_all
      syscallOrder_nodup rfl (by simp) hHandled
    exact hBack.iretq_frame
  · have hPushes : 8 * syscallOrder.length ≤
        (p.deliver sp mem none).sp.toNat := hLow
    have hAbove : (save syscallOrder (p.deliver sp mem none)).word
          (syscallOrder.length + 0) =
        (p.deliver sp mem none).word 0 :=
      SavedRegisters.save_above hPushes (by simp at hHigh; omega)
    have hLength : syscallOrder.length + 0 = 15 := rfl
    rw [hLength] at hAbove
    rw [syscallArguments_rdi, syscallSaved, SavedRegisters.set_word,
      hAbove]
    exact hStack.word 0 (by simp)

theorem syscall_result_lost_doubled :
    syscallEntry
        ⟨0#64, 0#64, 0#64, 0#64, 8#64, 0#64,
          fun _ c => c.set .rax (2#64 * c.regs .rdi)⟩
        (programAtSeven.deliver 4096#64 (fun _ => 0#8) none) =
          programAtSeven ∧
      (syscallArguments
        (syscallSaved
          ⟨0#64, 0#64, 0#64, 0#64, 8#64, 0#64,
            fun _ c => c.set .rax (2#64 * c.regs .rdi)⟩
          (programAtSeven.deliver 4096#64 (fun _ => 0#8)
            none))).regs .rdi =
        7#64 :=
  syscall_result_lost _ programAtSeven _ _ (by decide)
    fun _ _ => Keeps.refl.set

/-
  A page fault does not come back either: the code is left on
  the stack, and `rax` and `rsi` are overwritten before they
  are saved.
-/
theorem page_fault_returns_to_code
    (h : Handlers)
    (p : Interrupted)
    (sp cr2 code : U64)
    (mem : ByteMemory)
    (hRoom : 168 ≤ sp.toNat)
    (hReturn : h.Return frameWords) :
    pageFaultEntry h cr2 (p.deliver sp mem (some code)) =
      ⟨fun r =>
        if r = .rax then cr2 else if r = .rsi then code else p.regs r,
        code, p.rip, p.cs, p.rflags, p.rsp⟩ := by
  have hStack : OnStack p (code :: p.frame)
      (p.deliver sp mem (some code)) :=
    onStack_code hRoom
  -- The program as it is saved
  let q : Interrupted :=
    { p with
      regs := fun r =>
        if r = .rax then cr2 else if r = .rsi then code else p.regs r }
  have hRegs : (((p.deliver sp mem (some code)).set .rax cr2).set .rsi
      code).regs = q.regs := by
    funext r
    change Function.update (Function.update
      (p.deliver sp mem (some code)).regs .rax cr2) .rsi code r = _
    rw [hStack.regs]
    simp only [Function.update_apply, q]
    by_cases hRsi : r = .rsi <;> by_cases hRax : r = .rax <;> simp_all
  have hChanged : OnStack q (code :: q.frame)
      (((p.deliver sp mem (some code)).set .rax cr2).set .rsi code) :=
    ⟨hRegs, hStack.low, hStack.high, hStack.word⟩
  have hHandled : Keeps frameWords _
      (callThrough h h.pageFaultHandler (pageFaultArguments cr2)
        ((save interruptOrder
          (((p.deliver sp mem (some code)).set .rax cr2).set
            .rsi code)).set .rax h.pageFaultHandler)) :=
    hReturn.through (fun _ => Keeps.refl.set.set) Keeps.refl.set
  have hBack := hChanged.restored interruptOrder_all
    interruptOrder_nodup rfl (by simp) hHandled
  have hTop : (p.deliver sp mem (some code)).word 0 = code :=
    hStack.word 0 (by simp)
  have hEarly := hBack.iretq_early
  rw [hBack.regs] at hEarly
  simp only [pageFaultEntry, SavedRegisters.set_word, hTop]
  exact hEarly

theorem page_fault_returns_to_code_write :
    pageFaultEntry
        ⟨0#64, 0#64, 0#64, 0#64, 0#64, 8#64, fun _ c => c⟩ 0x5000#64
        (programAtSeven.deliver 4096#64 (fun _ => 0#8)
          (some 2#64)) =
      ⟨fun r =>
        if r = .rax then 0x5000#64
        else if r = .rsi then 2#64
        else 99#64,
        2#64, 7#64, 8#64, 0x202#64, 9#64⟩ :=
  page_fault_returns_to_code _ programAtSeven _ _ _ _ (by decide)
    fun _ _ => Keeps.refl

end FeatherOS
