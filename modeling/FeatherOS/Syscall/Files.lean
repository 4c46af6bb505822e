import FeatherOS.Kmalloc
import FeatherOS.Library.Replay
import FeatherOS.Library.Run

/-
  File descriptors of `kernel/syscall_impl.c`.

  `sys_open` looks for a free descriptor from `next_fd` on,
  up to the end of the table. It does not look below, where
  `sys_close` may have left one.

  Key definitions include:
    * `FdTable`
    * `sysOpen`
    * `sysClose`
    * `FdGood`
    * `FdCall.Ok`

  Key theorems include:
    * `freeFrom_eq_some`
    * `freeFrom_eq_none`
    * `fdStep_decided`
    * `fdRun_good_iff`
-/

namespace FeatherOS

--------------------
-- Calls
--------------------

/- An entry of `fd_table`; `used` is 0 or 1. -/
structure FdEntry where
  used : Bool
  path : U64

structure FdTable where
  fdTable : Nat → FdEntry
  nextFd : Nat

/- MAX_FD -/
def maxFd : Nat := 128

/- The lowest descriptor that `sys_open` returns -/
def firstFd : Nat := 10

/- The result -1 of a system call -/
def sysFailed : U64 := -1#64

def fdBooted : FdTable where
  fdTable := fun _ => ⟨false, 0#64⟩
  nextFd := firstFd

/- The loop of `sys_open`, with `turns` descriptors to go -/
def freeFrom
    (fdTable : Nat → FdEntry) :
    Nat → Nat → Option Nat
  | 0, _ => none
  | turns + 1, i =>
      if (fdTable i).used then freeFrom fdTable turns (i + 1)
      else some i

def sysOpen
    (s : FdTable)
    (pathname _flags _mode : U64) :
    U64 × FdTable :=
  match freeFrom s.fdTable (maxFd - s.nextFd) s.nextFd with
  | none => (sysFailed, s)
  | some fd =>
      (BitVec.ofNat 64 fd,
        { nextFd := if fd + 1 ≥ maxFd then firstFd else fd + 1
          fdTable := Function.update s.fdTable fd
            ⟨true, pathname⟩ })

def sysClose
    (s : FdTable)
    (fd : U64) :
    U64 × FdTable :=
  if (fd.truncate 32).toInt < 0 ∨ fd ≥ BitVec.ofNat 64 maxFd then
    (sysFailed, s)
  else if (s.fdTable fd.toNat).used then
    (0#64,
      { s with
        fdTable := Function.update s.fdTable fd.toNat
          ⟨false, 0#64⟩ })
  else
    (sysFailed, s)

inductive FdCall where
  | open (pathname flags mode : U64)
  | close (fd : U64)

def fdCall
    (s : FdTable) :
    FdCall → U64 × FdTable
  | .open pathname flags mode => sysOpen s pathname flags mode
  | .close fd => sysClose s fd

def fdStep
    (s : FdTable)
    (call : FdCall)
    (t : FdTable) : Prop :=
  t = (fdCall s call).2

/- A descriptor that is open -/
def FdTable.IsOpen
    (s : FdTable)
    (fd : Nat) : Prop :=
  fd < maxFd ∧ (s.fdTable fd).used = true

/-
  An opened descriptor is new, and opening fails only where
  there is none left; closing succeeds on open descriptors.
  The other descriptors are as before.
-/
def FdGood
    (s : FdTable)
    (call : FdCall)
    (t : FdTable) : Prop :=
  match call with
  | .open .. =>
      ((fdCall s call).1 = sysFailed ↔
        ∀ fd, firstFd ≤ fd → fd < maxFd → s.IsOpen fd) ∧
      ((fdCall s call).1 ≠ sysFailed →
        firstFd ≤ (fdCall s call).1.toNat ∧
          (fdCall s call).1.toNat < maxFd ∧
          ¬ s.IsOpen (fdCall s call).1.toNat ∧
          ∀ fd, t.IsOpen fd ↔
            s.IsOpen fd ∨ fd = (fdCall s call).1.toNat)
  | .close fd =>
      ((fdCall s call).1 = 0#64 ↔ s.IsOpen fd.toNat) ∧
      ∀ other, t.IsOpen other ↔
        s.IsOpen other ∧ other ≠ fd.toNat

/-
  A descriptor from the hint on is free, or none at all that
  could be returned.
-/
def FdCall.Ok
    (s : FdTable) :
    FdCall → Prop
  | .open .. =>
      (∃ fd, s.nextFd ≤ fd ∧ fd < maxFd ∧ ¬ s.IsOpen fd) ∨
        ∀ fd, firstFd ≤ fd → fd < maxFd → s.IsOpen fd
  | .close _ => True

--------------------
-- One Call
--------------------

/- The first descriptor that is free -/
theorem freeFrom_eq_some
    {fdTable : Nat → FdEntry}
    {turns i fd : Nat}
    (hFree : freeFrom fdTable turns i = some fd) :
    i ≤ fd ∧ fd < i + turns ∧ (fdTable fd).used = false := by
  induction turns generalizing i with
  | zero => cases hFree
  | succ turns ih =>
      unfold freeFrom at hFree
      by_cases hUsed : (fdTable i).used = true
      · rw [if_pos hUsed] at hFree
        rcases ih hFree with ⟨hLe, hLt, hNot⟩
        exact ⟨by omega, by omega, hNot⟩
      · rw [if_neg hUsed] at hFree
        cases hFree
        exact ⟨Nat.le_refl _, by omega,
          Bool.eq_false_iff.mpr hUsed⟩

theorem freeFrom_eq_none
    {fdTable : Nat → FdEntry}
    {turns i : Nat}
    (hFree : freeFrom fdTable turns i = none)
    {fd : Nat}
    (hLe : i ≤ fd)
    (hLt : fd < i + turns) :
    (fdTable fd).used = true := by
  induction turns generalizing i with
  | zero => omega
  | succ turns ih =>
      unfold freeFrom at hFree
      by_cases hUsed : (fdTable i).used = true
      · rw [if_pos hUsed] at hFree
        rcases Nat.eq_or_lt_of_le hLe with rfl | hNext
        · exact hUsed
        · exact ih hFree hNext (by omega)
      · rw [if_neg hUsed] at hFree
        cases hFree

/- The hint is a descriptor that may be returned. -/
def FdTable.HintOk (s : FdTable) : Prop :=
  firstFd ≤ s.nextFd ∧ s.nextFd < maxFd

section Step

variable {s t : FdTable}

theorem sysOpen_decided
    (hHint : s.HintOk)
    (pathname flags mode : U64)
    (hStep : fdStep s (.open pathname flags mode) t) :
    (FdGood s (.open pathname flags mode) t ↔
        (FdCall.open pathname flags mode).Ok s) ∧
      t.HintOk := by
  rcases hHint with ⟨hFirst, hMax⟩
  have hTurns : s.nextFd + (maxFd - s.nextFd) = maxFd := by omega
  have hSmall : maxFd < 2 ^ 64 := by decide
  unfold fdStep at hStep
  simp only [fdCall, sysOpen] at hStep
  simp only [FdGood, FdCall.Ok, fdCall, sysOpen]
  cases hFree : freeFrom s.fdTable (maxFd - s.nextFd) s.nextFd with
  | none =>
      rw [hFree] at hStep
      have hSame : t = s := hStep
      rw [hSame]
      have hAbove : ∀ fd, s.nextFd ≤ fd → fd < maxFd →
          s.IsOpen fd := by
        intro fd hLe hLt
        exact ⟨hLt, freeFrom_eq_none hFree hLe (by omega)⟩
      refine ⟨?_, hFirst, hMax⟩
      constructor
      · intro hGood
        exact .inr (hGood.1.mp rfl)
      · rintro (⟨fd, hLe, hLt, hNot⟩ | hAll)
        · exact absurd (hAbove fd hLe hLt) hNot
        · exact ⟨iff_of_true rfl hAll, fun h => absurd rfl h⟩
  | some fd =>
      rw [hFree] at hStep
      subst hStep
      rcases freeFrom_eq_some hFree with ⟨hLe, hLt, hNot⟩
      rw [hTurns] at hLt
      have hRet : (BitVec.ofNat 64 fd).toNat = fd := by
        rw [BitVec.toNat_ofNat]
        exact Nat.mod_eq_of_lt (by omega)
      have hNotOpen : ¬ s.IsOpen fd := by
        rintro ⟨_, hUsed⟩
        rw [hNot] at hUsed
        cases hUsed
      have hNe : BitVec.ofNat 64 fd ≠ sysFailed := by
        intro hEq
        have hMinus := congrArg BitVec.toNat hEq
        rw [hRet] at hMinus
        have hBig : maxFd < sysFailed.toNat := by decide
        omega
      refine ⟨iff_of_true ?_ (.inl ⟨fd, hLe, hLt, hNotOpen⟩), ?_⟩
      · refine ⟨iff_of_false hNe fun hAll => ?_, fun _ => ?_⟩
        · exact hNotOpen (hAll fd (by omega) hLt)
        · simp only [hRet]
          refine ⟨by omega, hLt, hNotOpen, fun other => ?_⟩
          simp only [FdTable.IsOpen, Function.update_apply]
          by_cases hEq : other = fd
          · subst hEq
            simp [hLt]
          · simp [hEq]
      · unfold FdTable.HintOk
        simp only
        by_cases hWrap : fd + 1 ≥ maxFd
        · rw [if_pos hWrap]
          decide
        · rw [if_neg hWrap]
          omega

/- What `sys_close` takes for no open descriptor -/
theorem sysClose_closed
    {fd : U64}
    (hNot : ¬ s.IsOpen fd.toNat) :
    sysClose s fd = (sysFailed, s) := by
  unfold sysClose
  by_cases hOut : (fd.truncate 32).toInt < 0 ∨
      fd ≥ BitVec.ofNat 64 maxFd
  · rw [if_pos hOut]
  · rw [if_neg hOut, if_neg]
    intro hUsed
    have hLt := BitVec.not_le.mp fun h => hOut (.inr h)
    exact hNot ⟨BitVec.lt_def.mp hLt, hUsed⟩

theorem sysClose_open
    {fd : U64}
    (hOpen : s.IsOpen fd.toNat) :
    sysClose s fd =
      (0#64,
        { s with
          fdTable := Function.update s.fdTable fd.toNat
            ⟨false, 0#64⟩ }) := by
  rcases hOpen with ⟨hLt, hUsed⟩
  have hSmall : maxFd = 128 := rfl
  have hIn : ¬ fd ≥ BitVec.ofNat 64 maxFd := by
    rw [ge_iff_le, BitVec.le_def, BitVec.toNat_ofNat]
    omega
  have hSign : ¬ (fd.truncate 32).toInt < 0 := by
    have hLow : (fd.truncate 32).toNat = fd.toNat := by
      rw [BitVec.truncate_eq_setWidth, BitVec.toNat_setWidth]
      exact Nat.mod_eq_of_lt (by omega)
    rw [BitVec.toInt_eq_toNat_of_lt (by omega), hLow]
    omega
  unfold sysClose
  rw [if_neg (not_or.mpr ⟨hSign, hIn⟩), if_pos hUsed]

theorem sysClose_good
    (fd : U64)
    (hStep : fdStep s (.close fd) t) :
    FdGood s (.close fd) t ∧ t.nextFd = s.nextFd := by
  unfold fdStep at hStep
  simp only [fdCall] at hStep
  simp only [FdGood, fdCall]
  by_cases hOpen : s.IsOpen fd.toNat
  · rw [sysClose_open hOpen] at hStep ⊢
    subst hStep
    refine ⟨⟨iff_of_true rfl hOpen, fun other => ?_⟩, rfl⟩
    simp only [FdTable.IsOpen, Function.update_apply]
    by_cases hEq : other = fd.toNat
    · simp [hEq]
    · simp [hEq]
  · rw [sysClose_closed hOpen] at hStep ⊢
    have hSame : t = s := hStep
    have hFailed : sysFailed ≠ 0#64 := by decide
    rw [hSame]
    refine ⟨⟨iff_of_false hFailed hOpen, fun other => ?_⟩, rfl⟩
    constructor
    · intro hOther
      refine ⟨hOther, ?_⟩
      rintro rfl
      exact hOpen hOther
    · exact And.left

theorem fdStep_decided
    {call : FdCall}
    (hHint : s.HintOk)
    (hStep : fdStep s call t) :
    (FdGood s call t ↔ call.Ok s) ∧ t.HintOk := by
  cases call with
  | «open» pathname flags mode =>
      exact sysOpen_decided hHint pathname flags mode hStep
  | close fd =>
      rcases sysClose_good fd hStep with ⟨hGood, hSame⟩
      refine ⟨iff_of_true hGood trivial, ?_⟩
      unfold FdTable.HintOk
      rw [hSame]
      exact hHint

end Step

--------------------
-- Runs
--------------------

theorem fdBooted_hint : fdBooted.HintOk := by
  unfold FdTable.HintOk
  decide

/-
  The runs in which every call does what it should are those
  in which no free descriptor lies only below the hint.
-/
theorem fdRun_good_iff
    {calls : List FdCall}
    {t : FdTable} :
    Run (fun s call t => fdStep s call t ∧ FdGood s call t)
        fdBooted calls t ↔
      Run (Guarded (fun s call => call.Ok s) fdStep) fdBooted
        calls t := by
  apply Run.guarded_iff FdTable.HintOk
  · intro s call t hHint _ hStep
    exact (fdStep_decided hHint hStep).2
  · intro s call t hHint hStep
    exact (fdStep_decided hHint hStep).1
  · exact fdBooted_hint

/-
  Every descriptor is opened, the first is closed, opened
  again and closed again.
-/
def fdCallsToHole : List FdCall :=
  List.replicate 118 (.open 0#64 0#64 0#64) ++
    [.close 10#64, .open 0#64 0#64 0#64, .close 10#64]

/- Then descriptor 10 is free and opening fails. -/
theorem sysOpen_misses_hole :
    ¬ ∀ (calls : List FdCall) (s t : FdTable) (call : FdCall),
      Run fdStep fdBooted calls s → fdStep s call t →
      FdGood s call t := by
  intro hAll
  have hRun : Run fdStep fdBooted fdCallsToHole _ :=
    Replay.run_answers fdCall fdBooted fdCallsToHole
  generalize hState :
    (Replay.answers fdCall fdBooted fdCallsToHole).2 = s at hRun
  have hHint := hRun.invariant FdTable.HintOk
    (fun _ _ _ hHint hStep => (fdStep_decided hHint hStep).2)
    fdBooted_hint
  have hOk := (fdStep_decided hHint rfl).1.mp
    (hAll _ s _ (.open 0#64 0#64 0#64) hRun rfl)
  have hFrom : s.nextFd = 11 := by
    rw [← hState]
    decide +kernel
  have hHole : (s.fdTable 10).used = false := by
    rw [← hState]
    decide +kernel
  have hAbove : ∀ fd < maxFd, 11 ≤ fd →
      (s.fdTable fd).used = true := by
    rw [← hState]
    decide +kernel
  rcases hOk with ⟨fd, hLe, hLt, hNot⟩ | hNone
  · rw [hFrom] at hLe
    exact hNot ⟨hLt, hAbove fd hLt hLe⟩
  · have hOpen := hNone 10 (Nat.le_refl _) (by decide)
    rw [FdTable.IsOpen, hHole] at hOpen
    cases hOpen.2

end FeatherOS
