import FeatherOS.Kmalloc
import FeatherOS.Library.Run
import Mathlib.Logic.Function.Basic

/-
  `spin_lock_irq` and `spin_unlock_irq` of
  `kernel/sync/sync.c` on one processor.

  The saved flags are kept in one variable, so an inner lock
  overwrites what the outer one has saved.

  Key definitions include:
    * `IrqState`
    * `irqStep`
    * `Nested`
    * `IrqDisciplined`

  Key theorems include:
    * `Nested.flags`
    * `irqRun_disciplined_iff`
-/

namespace FeatherOS

--------------------
-- Model
--------------------

/- The interrupt flag of RFLAGS -/
def rflagsIf : U64 := 0x200#64

structure IrqState where
  /- RFLAGS -/
  flags : U64
  irqFlagsSave : U64
  locks : Addr → U32

/- Interrupts are enabled. -/
def interruptsOn (flags : U64) : Prop :=
  flags &&& rflagsIf ≠ 0#64

instance
    (flags : U64) :
    Decidable (interruptsOn flags) :=
  inferInstanceAs (Decidable (_ ≠ _))

/- On one processor the wait for a taken lock never ends. -/
def irqSpinLock
    (s : IrqState)
    (lock : Addr) :
    Option IrqState :=
  if s.locks lock = 0#32 then
    some { s with locks := Function.update s.locks lock 1#32 }
  else
    none

def spinLockIrq
    (s : IrqState)
    (lock : Addr) :
    Option IrqState :=
  irqSpinLock
    { s with
      irqFlagsSave := s.flags
      flags := s.flags &&& ~~~rflagsIf }
    lock

def spinUnlockIrq
    (s : IrqState)
    (lock : Addr) :
    IrqState :=
  { s with
    locks := Function.update s.locks lock 0#32
    flags := s.irqFlagsSave }

inductive IrqCall where
  | lock (lock : Addr)
  | unlock (lock : Addr)

def irqStep
    (s : IrqState)
    (call : IrqCall)
    (s' : IrqState) : Prop :=
  match call with
  | .lock lock => spinLockIrq s lock = some s'
  | .unlock lock => spinUnlockIrq s lock = s'

--------------------
-- The Property
--------------------

/- Properly nested calls, on locks other than those held. -/
inductive Nested :
    List Addr → List IrqCall → Prop
| nil (held : List Addr) : Nested held []
| pair
    {held : List Addr}
    {lock : Addr}
    {body rest : List IrqCall}
    (hFresh : lock ∉ held)
    (hBody : Nested (lock :: held) body)
    (hRest : Nested held rest) :
    Nested held (.lock lock :: body ++ .unlock lock :: rest)

/-
  Interrupts are off while a lock is held, and after the
  outermost unlock they are what they were before the
  outermost lock.
-/
structure IrqDisciplined
    (s : IrqState)
    (calls : List IrqCall) : Prop where
  off : ∀ done rest t, calls = done ++ rest →
    Run irqStep s done t → (∃ lock, t.locks lock ≠ 0#32) →
      ¬ interruptsOn t.flags
  restored : ∀ done lock body rest t u,
    calls = done ++ (.lock lock :: body ++ .unlock lock :: rest) →
      Nested [] done → Nested [lock] body →
        Run irqStep s done t →
          Run irqStep t (.lock lock :: body ++ [.unlock lock]) u →
            (interruptsOn u.flags ↔ interruptsOn t.flags)

/- No lock is taken while another one is held. -/
inductive Flat : List IrqCall → Prop
| nil : Flat []
| pair
    {lock : Addr}
    {rest : List IrqCall}
    (hRest : Flat rest) :
    Flat (.lock lock :: .unlock lock :: rest)

--------------------
-- One Call
--------------------

theorem not_interruptsOn_masked
    (flags : U64) :
    ¬ interruptsOn (flags &&& ~~~rflagsIf) := by
  unfold interruptsOn
  rw [not_not, BitVec.and_assoc]
  have hNone : ~~~rflagsIf &&& rflagsIf = 0#64 := by decide
  rw [hNone, BitVec.and_zero]

/- The state after a lock that was free. -/
def IrqState.afterLock
    (s : IrqState)
    (lock : Addr) :
    IrqState where
  flags := s.flags &&& ~~~rflagsIf
  irqFlagsSave := s.flags
  locks := Function.update s.locks lock 1#32

theorem irqStep_lock
    {s s' : IrqState}
    {lock : Addr} :
    irqStep s (.lock lock) s' ↔
      s.locks lock = 0#32 ∧ s' = s.afterLock lock := by
  simp only [irqStep, spinLockIrq, irqSpinLock]
  split
  next hFree =>
    constructor
    · intro hStep
      injection hStep with hStep
      exact ⟨hFree, hStep.symm⟩
    · rintro ⟨_, rfl⟩
      rfl
  next hTaken =>
    constructor
    · intro hStep
      cases hStep
    · rintro ⟨hFree, _⟩
      exact absurd hFree hTaken

variable {s t : IrqState}
variable {lock : Addr}
variable {body rest done later : List IrqCall}

/- A lock, its body, the unlock and the rest. -/
theorem pair_run
    (hRun :
      Run irqStep s (.lock lock :: body ++ .unlock lock :: rest)
        t) :
    ∃ u, s.locks lock = 0#32 ∧
      Run irqStep (s.afterLock lock) body u ∧
      Run irqStep (spinUnlockIrq u lock) rest t := by
  cases hRun with
  | cons hLock hAfter =>
      rcases irqStep_lock.mp hLock with ⟨hFree, rfl⟩
      rcases hAfter.split with ⟨u, hBody, hTail⟩
      cases hTail with
      | cons hUnlock hRest =>
          refine ⟨u, hFree, hBody, ?_⟩
          rw [show spinUnlockIrq u lock = _ from hUnlock]
          exact hRest

--------------------
-- Nested Calls
--------------------

variable {s u : IrqState}

theorem unlock_locks
    (hFree : s.locks lock = 0#32)
    (hSame : u.locks = (s.afterLock lock).locks) :
    (spinUnlockIrq u lock).locks = s.locks := by
  simp only [spinUnlockIrq, hSame, IrqState.afterLock,
    Function.update_idem]
  rw [← hFree, Function.update_eq_self]

variable {calls : List IrqCall}
variable {held : List Addr}

/- Nested calls put the locks back. -/
theorem Nested.locks
    (hNested : Nested held calls)
    (hRun : Run irqStep s calls t) :
    t.locks = s.locks := by
  induction hNested generalizing s t with
  | nil held =>
      cases hRun
      rfl
  | @pair held lock body rest hFresh hBody hRest ihBody ihRest =>
      rcases pair_run hRun with ⟨u, hFree, hInner, hTail⟩
      rw [ihRest hTail, unlock_locks hFree (ihBody hInner)]

/- Nested calls return when the locks are free. -/
theorem Nested.returns
    (hNested : Nested held calls)
    (hFree : ∀ lock, lock ∉ held → s.locks lock = 0#32) :
    ∃ t, Run irqStep s calls t := by
  induction hNested generalizing s with
  | nil held => exact ⟨s, .nil s⟩
  | @pair held lock body rest hFresh hBody hRest ihBody ihRest =>
      have hInner : ∀ other, other ∉ lock :: held →
          (s.afterLock lock).locks other = 0#32 := by
        intro other hOther
        rw [List.mem_cons, not_or] at hOther
        simp only [IrqState.afterLock,
          Function.update_of_ne hOther.1]
        exact hFree other hOther.2
      rcases ihBody hInner with ⟨u, hBodyRun⟩
      have hAfter : ∀ other, other ∉ held →
          (spinUnlockIrq u lock).locks other = 0#32 := by
        intro other hOther
        rw [unlock_locks (hFree lock hFresh)
          (hBody.locks hBodyRun)]
        exact hFree other hOther
      rcases ihRest hAfter with ⟨t, hRestRun⟩
      have hLock : irqStep s (.lock lock) (s.afterLock lock) :=
        irqStep_lock.mpr ⟨hFree lock hFresh, rfl⟩
      exact ⟨t, (Run.cons hLock hBodyRun).append
        (.cons rfl hRestRun)⟩

/-
  Calls that start with interrupts off leave them off, and
  what they save is off.
-/
theorem Nested.flags
    (hNested : Nested held calls)
    (hRun : Run irqStep s calls t)
    (hOff : ¬ interruptsOn s.flags) :
    ¬ interruptsOn t.flags ∧
      (calls ≠ [] → ¬ interruptsOn t.irqFlagsSave) ∧
      (calls = [] → t = s) := by
  induction hNested generalizing s t with
  | nil held =>
      cases hRun
      exact ⟨hOff, fun hSome => absurd rfl hSome, fun _ => rfl⟩
  | @pair held lock body rest hFresh hBody hRest ihBody ihRest =>
      rcases pair_run hRun with ⟨u, _, hInner, hTail⟩
      have hAfter := ihBody hInner (not_interruptsOn_masked _)
      have hSaved : ¬ interruptsOn u.irqFlagsSave := by
        by_cases hEmpty : body = []
        · rw [hAfter.2.2 hEmpty]
          exact hOff
        · exact hAfter.2.1 hEmpty
      have hDone := ihRest hTail hSaved
      refine ⟨hDone.1, fun _ => ?_, fun hNone => ?_⟩
      · by_cases hEmpty : rest = []
        · rw [hDone.2.2 hEmpty]
          exact hSaved
        · exact hDone.2.1 hEmpty
      · cases hNone

/- The flags saved at the start of a body, after it. -/
theorem Nested.saved
    (hBody : Nested held body)
    (hRun : Run irqStep (s.afterLock lock) body u) :
    (body = [] → u.irqFlagsSave = s.flags) ∧
      (body ≠ [] → ¬ interruptsOn u.irqFlagsSave) := by
  have hFlags := hBody.flags hRun (not_interruptsOn_masked _)
  constructor
  · intro hEmpty
    rw [hFlags.2.2 hEmpty]
    rfl
  · exact hFlags.2.1

/- The first calls of a pair stop in its body or after it. -/
theorem pair_prefix
    (hSplit :
      .lock lock :: body ++ .unlock lock :: rest = done ++ later) :
    done = [] ∨
      (∃ more, done = .lock lock :: more ∧
        ∃ left, body = more ++ left) ∨
      ∃ more, done = .lock lock :: body ++ .unlock lock :: more ∧
        rest = more ++ later := by
  cases done with
  | nil => exact .inl rfl
  | cons call more =>
      rw [List.cons_append, List.cons_append] at hSplit
      injection hSplit with hCall hMore
      subst hCall
      rcases List.append_eq_append_iff.mp hMore with
        ⟨left, hDone, hLeft⟩ | ⟨left, hBody, _⟩
      · cases left with
        | nil =>
            rw [List.append_nil] at hDone
            subst hDone
            have hEnd : more = more ++ [] := by
              rw [List.append_nil]
            exact .inr (.inl ⟨more, rfl, [], hEnd⟩)
        | cons call left =>
            injection hLeft with hCall hLeft
            subst hCall hDone
            exact .inr (.inr ⟨left, rfl, hLeft⟩)
      · exact .inr (.inl ⟨more, rfl, left, hBody⟩)

/-
  Interrupts are off wherever a lock has been taken, and they
  stay off if they were at the start.
-/
theorem Nested.off_inside
    (hNested : Nested held calls)
    (hSplit : calls = done ++ later)
    (hRun : Run irqStep s done t)
    (hOff : ¬ interruptsOn s.flags ∨ t.locks ≠ s.locks) :
    ¬ interruptsOn t.flags := by
  induction hNested generalizing s t done later with
  | nil held =>
      rw [eq_comm, List.append_eq_nil_iff] at hSplit
      rw [hSplit.1] at hRun
      cases hRun
      exact hOff.resolve_right (absurd rfl)
  | @pair held lock body rest hFresh hBody hRest ihBody ihRest =>
      rcases pair_prefix hSplit with
        rfl | ⟨more, rfl, left, hLeft⟩ | ⟨more, rfl, hMore⟩
      · cases hRun
        exact hOff.resolve_right (absurd rfl)
      · cases hRun with
        | cons hLock hInner =>
            rcases irqStep_lock.mp hLock with ⟨_, rfl⟩
            exact ihBody hLeft hInner
              (Or.inl (not_interruptsOn_masked _))
      · rcases pair_run hRun with ⟨u, hFree, hInner, hTail⟩
        apply ihRest hMore hTail
        rcases hOff with hOff | hTaken
        · left
          by_cases hEmpty : body = []
          · rw [spinUnlockIrq, (hBody.saved hInner).1 hEmpty]
            exact hOff
          · exact (hBody.saved hInner).2 hEmpty
        · right
          rw [unlock_locks hFree (hBody.locks hInner)]
          exact hTaken

--------------------
-- When The Flag Is Put Back
--------------------

/- In flat calls each lock is followed by its unlock. -/
theorem Flat.body_nil
    (hBody : Nested held body)
    (hFlat : Flat (.lock lock :: body ++ .unlock lock :: rest)) :
    body = [] ∧ Flat rest := by
  cases hBody with
  | nil =>
      cases hFlat with
      | pair hRest => exact ⟨rfl, hRest⟩
  | pair => cases hFlat

/- Flat calls are flat after some that are nested. -/
theorem Flat.drop
    (hDone : Nested held done)
    (hFlat : Flat (done ++ rest)) :
    Flat rest := by
  induction hDone with
  | nil => exact hFlat
  | @pair held lock body more hFresh hBody hMore _ ihMore =>
      rw [List.append_assoc, List.cons_append] at hFlat
      exact ihMore (Flat.body_nil hBody hFlat).2

/- One outermost pair, alone. -/
theorem Nested.single
    (hBody : Nested [lock] body) :
    Nested [] (.lock lock :: body ++ [.unlock lock]) :=
  .pair List.not_mem_nil hBody (.nil [])

theorem disciplined_of_condition
    (hFree : ∀ lock, s.locks lock = 0#32)
    (hNested : Nested [] calls)
    (hCond : ¬ interruptsOn s.flags ∨ Flat calls) :
    IrqDisciplined s calls where
  off := by
    rintro done rest t hSplit hRun ⟨lock, hTaken⟩
    refine hNested.off_inside hSplit hRun (Or.inr ?_)
    intro hSame
    rw [hSame] at hTaken
    exact hTaken (hFree lock)
  restored := by
    intro done lock body rest t u hSplit hDone hBody hRun hPair
    rcases hCond with hOff | hFlat
    · have hBefore := (hDone.flags hRun hOff).1
      have hAfter := (hBody.single.flags hPair hBefore).1
      exact iff_of_false hAfter hBefore
    · rw [hSplit] at hFlat
      have hEmpty := (Flat.body_nil hBody (hFlat.drop hDone)).1
      rcases pair_run hPair with ⟨v, _, hInner, hTail⟩
      cases hTail
      rw [spinUnlockIrq, (hBody.saved hInner).1 hEmpty]

/- What is left of disciplined calls after an outermost pair. -/
theorem IrqDisciplined.tail
    (hDisciplined :
      IrqDisciplined s
        (.lock lock :: body ++ .unlock lock :: rest))
    (hBody : Nested [lock] body)
    (hPair : Run irqStep s (.lock lock :: body ++ [.unlock lock])
      u) :
    IrqDisciplined u rest where
  off := by
    intro done later t hSplit hRun hTaken
    apply hDisciplined.off
      ((.lock lock :: body ++ [.unlock lock]) ++ done) later t
    · rw [hSplit]
      simp
    · exact hPair.append hRun
    · exact hTaken
  restored := by
    intro done other inner later t v hSplit hDone hInner hRun hNext
    apply hDisciplined.restored
      ((.lock lock :: body ++ [.unlock lock]) ++ done) other inner
      later t v
    · rw [hSplit]
      simp
    · rw [List.append_assoc, List.singleton_append]
      exact .pair List.not_mem_nil hBody hDone
    · exact hInner
    · exact hPair.append hRun
    · exact hNext

/- With interrupts on, a lock in a lock leaves them off. -/
theorem flat_of_disciplined
    (hNested : Nested held calls)
    (hHeld : held = [])
    (hFree : ∀ lock, s.locks lock = 0#32)
    (hOn : interruptsOn s.flags)
    (hDisciplined : IrqDisciplined s calls) :
    Flat calls := by
  induction hNested generalizing s with
  | nil => exact .nil
  | @pair held lock body rest hFresh hBody hRest _ ihRest =>
      subst hHeld
      rcases hBody.single.returns (fun lock _ => hFree lock) with
        ⟨u, hPair⟩
      have hSame :=
        hDisciplined.restored [] lock body rest s u rfl (.nil [])
          hBody (.nil s) hPair
      have hEmpty : body = [] := by
        by_contra hSome
        rcases pair_run hPair with ⟨v, _, hInner, hTail⟩
        cases hTail
        exact (hBody.saved hInner).2 hSome (hSame.mpr hOn)
      have hLocks := hBody.single.locks hPair
      have hTail := ihRest rfl
        (fun lock => by rw [hLocks]; exact hFree lock)
        (hSame.mpr hOn) (hDisciplined.tail hBody hPair)
      rw [hEmpty]
      exact .pair hTail

/-
  The discipline holds if and only if interrupts are off at
  the start or no lock is taken while another one is held.
-/
theorem irqRun_disciplined_iff
    {s : IrqState}
    {calls : List IrqCall}
    (hFree : ∀ lock, s.locks lock = 0#32)
    (hNested : Nested [] calls) :
    IrqDisciplined s calls ↔
      ¬ interruptsOn s.flags ∨ Flat calls := by
  constructor
  · intro hDisciplined
    by_cases hOn : interruptsOn s.flags
    · exact .inr
        (flat_of_disciplined hNested rfl hFree hOn hDisciplined)
    · exact .inl hOn
  · exact disciplined_of_condition hFree hNested

/- Interrupts are on and no lock is taken. -/
def irqBooted : IrqState where
  flags := 0x202#64
  irqFlagsSave := 0#64
  locks := fun _ => 0#32

theorem irqRun_disciplined_iff_flat :
    IrqDisciplined irqBooted [.lock 0x1000#64, .unlock 0x1000#64] ↔
      ¬ interruptsOn irqBooted.flags ∨
        Flat [.lock 0x1000#64, .unlock 0x1000#64] :=
  irqRun_disciplined_iff (fun _ => rfl) (Nested.nil _).single

/- Interrupts stay off after a lock in a lock. -/
theorem irq_left_off :
    ¬ ∀ (s : IrqState) (calls : List IrqCall),
      (∀ lock, s.locks lock = 0#32) → Nested [] calls →
        IrqDisciplined s calls := by
  intro hAll
  have hInner :
      Nested [0x1000#64]
        (.lock 0x2000#64 :: [] ++ [.unlock 0x2000#64]) :=
    .pair (by decide) (.nil _) (.nil _)
  have hFlat := flat_of_disciplined hInner.single rfl
    (fun _ => rfl) (by decide)
    (hAll irqBooted _ (fun _ => rfl) hInner.single)
  cases hFlat

end FeatherOS
