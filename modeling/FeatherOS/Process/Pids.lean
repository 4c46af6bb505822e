import FeatherOS.Library.Run
import FeatherOS.Process.Model

/-
  The PID allocator under any sequence of calls.

  `alloc_pid` walks once around the PIDs from 1 on, starting
  at its hint. The walk is followed by the number of PIDs
  that it has found in use.

  Key definitions include:
    * `pidAt`
    * `PidAllocator.Ok`
    * `PidStep`

  Key theorems include:
    * `allocPid_spec`
    * `pid_run_spec`
-/

namespace FeatherOS

--------------------
-- The Walk
--------------------

/- The hint is one of the PIDs that can be handed out. -/
structure PidAllocator.Ok (alloc : PidAllocator) : Prop where
  next_pos : 1 ≤ alloc.nextPid
  next_lt : alloc.nextPid < maxProcesses

/- Where the walk from `start` is after some PIDs. -/
def pidAt
    (start : Int)
    (tried : Nat) : Int :=
  1 + (start - 1 + tried) % 63

theorem pidAt_range
    (start : Int)
    (tried : Nat) :
    1 ≤ pidAt start tried ∧ pidAt start tried < 64 := by
  unfold pidAt
  omega

/- The allocator where the walk is after some PIDs. -/
def PidAllocator.walked
    (alloc : PidAllocator)
    (start : Int)
    (tried : Nat) : PidAllocator :=
  { alloc with nextPid := pidAt start tried }

theorem advance_walked
    (alloc : PidAllocator)
    (start : Int)
    (tried : Nat) :
    (alloc.walked start tried).advance =
      alloc.walked start (tried + 1) := by
  have hNext :
      (if 64 ≤ pidAt start tried + 1 then
          1
        else
          pidAt start tried + 1) =
        pidAt start (tried + 1) := by
    unfold pidAt
    split
    · omega
    · omega
  rw [PidAllocator.walked, PidAllocator.walked, ← hNext,
    PidAllocator.advance]
  have hMax : (maxProcesses : Int) = 64 := rfl
  simp only [hMax]
  split
  · rfl
  · rfl

/- A whole walk meets every PID. -/
theorem exists_pidAt
    {start : Int}
    {pid : Nat}
    (hPos : 1 ≤ pid)
    (hLt : pid < maxProcesses) :
    ∃ tried < 63, pidAt start tried = pid := by
  have hMax : maxProcesses = 64 := rfl
  refine ⟨((pid - start) % 63).toNat, by omega, ?_⟩
  unfold pidAt
  omega

/-
  What `alloc_pid` does: it fails and changes nothing if all
  PIDs are in use, or marks one that is not.
-/
inductive AllocatesPid
    (table : ProcessTable) :
    Int × ProcessTable → Prop
| full
    (hAll : ∀ pid, 1 ≤ pid → pid < maxProcesses →
      table.pidAlloc.inUse pid = true) :
    AllocatesPid table (-1, table)
| fresh
    {pid : Nat}
    {alloc : PidAllocator}
    {stats : ProcessStats}
    (hPos : 1 ≤ pid)
    (hLt : pid < maxProcesses)
    (hFree : table.pidAlloc.inUse pid = false)
    (hMark :
      alloc.bitmap = Bitmap.set table.pidAlloc.bitmap pid)
    (hOk : alloc.Ok) :
    AllocatesPid table
      (pid, { table with pidAlloc := alloc, stats := stats })

variable {table : ProcessTable}

/- All PIDs are in use when the walk has come around, -/
theorem allocatesPid_full
    {start : Int}
    (hAll : ∀ e < 63,
      table.pidAlloc.inUse (pidAt start e).toNat = true) :
    AllocatesPid table (-1, table) := by
  refine .full fun pid hPos hLt => ?_
  rcases @exists_pidAt start pid hPos hLt with ⟨e, he, hEq⟩
  have hHit := hAll e he
  rwa [hEq, Int.toNat_natCast] at hHit

/- and one that is not is marked. -/
theorem allocatesPid_fresh
    {start : Int}
    {tried : Nat}
    (hFree :
      table.pidAlloc.inUse (pidAt start tried).toNat = false)
    (stats : ProcessStats) :
    AllocatesPid table
      (pidAt start tried,
        { table with
          pidAlloc :=
            (table.pidAlloc.walked start (tried + 1)).mark
              (pidAt start tried).toNat
          stats := stats }) := by
  have hMax : maxProcesses = 64 := rfl
  have hRange := pidAt_range start tried
  have hNext := pidAt_range start (tried + 1)
  have hPid :
      ((pidAt start tried).toNat : Int) = pidAt start tried := by
    omega
  have hFresh :=
    @AllocatesPid.fresh table (pidAt start tried).toNat
      ((table.pidAlloc.walked start (tried + 1)).mark
        (pidAt start tried).toNat)
      stats (by omega) (by omega) hFree rfl
      ⟨hNext.1, hNext.2⟩
  rw [hPid] at hFresh
  exact hFresh

/- The walk goes on from a PID that it has not tried. -/
theorem allocPidLoop_spec
    {start : Int}
    {tried attempts : Nat}
    {table : ProcessTable}
    (hStart : 1 ≤ start)
    (hEnd : start < 64)
    (hTurns : attempts + tried = 64)
    (hTried : tried < 63)
    (hBefore : ∀ e < tried,
      table.pidAlloc.inUse (pidAt start e).toNat = true)
    (hHome : table.pidAlloc.nextPid = start) :
    AllocatesPid table
      (allocPidLoop start attempts
        { table with
          pidAlloc := table.pidAlloc.walked start tried }) := by
  induction attempts generalizing tried with
  | zero => omega
  | succ attempts ih =>
      simp only [allocPidLoop, advance_walked]
      by_cases hTaken :
          table.pidAlloc.inUse (pidAt start tried).toNat = true
      · rw [if_pos (by exact hTaken)]
        have hAll : ∀ e < tried + 1,
            table.pidAlloc.inUse (pidAt start e).toNat = true := by
          intro e he
          rcases Nat.lt_succ_iff_lt_or_eq.mp he with he | rfl
          · exact hBefore e he
          · exact hTaken
        have hNext :
            (table.pidAlloc.walked start (tried + 1)).nextPid =
              pidAt start (tried + 1) := rfl
        rw [hNext]
        by_cases hRound : pidAt start (tried + 1) = start
        · -- The walk has come around.
          have hLast : tried + 1 = 63 := by
            unfold pidAt at hRound
            omega
          have hSame :
              table.pidAlloc.walked start (tried + 1) =
                table.pidAlloc := by
            rw [PidAllocator.walked, hRound, ← hHome]
          rw [if_pos hRound, hSame]
          rw [hLast] at hAll
          exact allocatesPid_full hAll
        · rw [if_neg hRound]
          have hMore : tried + 1 < 63 := by
            unfold pidAt at hRound
            omega
          exact ih (by omega) hMore hAll
      · rw [if_neg (by exact hTaken)]
        rw [Bool.not_eq_true] at hTaken
        exact allocatesPid_fresh hTaken _

theorem allocPid_spec
    (hOk : table.pidAlloc.Ok) :
    AllocatesPid table (allocPid table) := by
  have hPos := hOk.next_pos
  have hLt := hOk.next_lt
  have hMax : maxProcesses = 64 := rfl
  rw [hMax] at hLt
  have hHome :
      table.pidAlloc.walked table.pidAlloc.nextPid 0 =
        table.pidAlloc := by
    have hAt :
        pidAt table.pidAlloc.nextPid 0 =
          table.pidAlloc.nextPid := by
      unfold pidAt
      omega
    rw [PidAllocator.walked, hAt]
  have hLoop :=
    @allocPidLoop_spec _ 0 maxProcesses table hPos hLt rfl
      (by omega) (fun e he => absurd he (Nat.not_lt_zero e)) rfl
  rw [hHome] at hLoop
  exact hLoop

variable {table table' : ProcessTable}

/- A PID that was handed out is the only new one in use. -/
theorem AllocatesPid.inUse
    {pid : Int}
    (hAlloc : AllocatesPid table (pid, table')) :
    (pid = -1 ∧ table' = table ∧
        ∀ p, 1 ≤ p → p < maxProcesses →
          table.pidAlloc.inUse p = true) ∨
      (1 ≤ pid ∧ pid < maxProcesses ∧
        table.pidAlloc.inUse pid.toNat = false ∧
        ∀ p, table'.pidAlloc.inUse p =
          (decide (p = pid.toNat) || table.pidAlloc.inUse p)) := by
  cases hAlloc with
  | full hAll => exact Or.inl ⟨rfl, rfl, hAll⟩
  | fresh hPos hLt hFree hMark _ =>
      refine Or.inr ⟨by omega, by omega, hFree, ?_⟩
      intro p
      simp only [PidAllocator.inUse, hMark, Bitmap.test_set,
        Int.toNat_natCast]

theorem AllocatesPid.ok
    {pid : Int}
    (hOk : table.pidAlloc.Ok)
    (hAlloc : AllocatesPid table (pid, table')) :
    table'.pidAlloc.Ok := by
  cases hAlloc with
  | full _ => exact hOk
  | fresh _ _ _ _ hOk' => exact hOk'

--------------------
-- Freeing
--------------------

/- Only a PID that can be handed out is freed. -/
theorem freePid_inUse
    (table : ProcessTable)
    (pid : Int)
    (p : Nat) :
    (freePid table pid).pidAlloc.inUse p =
      (!(decide (1 ≤ pid ∧ pid < maxProcesses ∧
          p = pid.toNat)) &&
        table.pidAlloc.inUse p) := by
  simp only [freePid]
  split
  · rename_i hOut
    have hNot : ¬ (1 ≤ pid ∧ pid < maxProcesses ∧
        p = pid.toNat) := by
      omega
    simp [hNot]
  · rename_i hIn
    have hSame : (1 ≤ pid ∧ pid < maxProcesses ∧
        p = pid.toNat) ↔ p = pid.toNat := by
      omega
    split
    · simp [PidAllocator.inUse, PidAllocator.unmark, hSame]
    · simp [PidAllocator.inUse, PidAllocator.unmark, hSame]

theorem freePid_ok
    (pid : Int)
    (hOk : table.pidAlloc.Ok) :
    (freePid table pid).pidAlloc.Ok := by
  simp only [freePid]
  split
  · exact hOk
  · split
    · exact ⟨by simp only; omega, by simp only; omega⟩
    · exact ⟨hOk.next_pos, hOk.next_lt⟩

--------------------
-- Every Run
--------------------

inductive PidCall where
  | alloc
  | free (pid : Int)

inductive PidStep :
    ProcessTable → PidCall → ProcessTable → Prop
| alloc
    (table : ProcessTable) :
    PidStep table .alloc (allocPid table).2
| free
    (table : ProcessTable)
    (pid : Int) :
    PidStep table (.free pid) (freePid table pid)

theorem pidStep_ok
    {call : PidCall}
    (hOk : table.pidAlloc.Ok)
    (hStep : PidStep table call table') :
    table'.pidAlloc.Ok := by
  cases hStep with
  | alloc => exact (allocPid_spec hOk).ok hOk
  | free pid => exact freePid_ok pid hOk

/- The table after `pid_allocator_init`. -/
def ProcessTable.withPids
    (table : ProcessTable) :
    ProcessTable :=
  { table with pidAlloc := pidAllocatorInit }

/-
  After any calls the hint is in range, and a call of
  `alloc_pid` marks and returns a PID that was not in use, or
  returns -1 and changes no mark when none is left.
-/
theorem pid_run_spec
    {start table : ProcessTable}
    {calls : List PidCall}
    (hRun : Run PidStep start.withPids calls table) :
    (1 ≤ table.pidAlloc.nextPid ∧
        table.pidAlloc.nextPid < maxProcesses) ∧
      ((allocPid table).1 = -1 ↔
        ∀ p, 1 ≤ p → p < maxProcesses →
          table.pidAlloc.inUse p = true) ∧
      ((allocPid table).1 = -1 →
        ∀ p, (allocPid table).2.pidAlloc.inUse p =
          table.pidAlloc.inUse p) ∧
      ((allocPid table).1 ≠ -1 →
        1 ≤ (allocPid table).1 ∧
          (allocPid table).1 < maxProcesses ∧
          table.pidAlloc.inUse (allocPid table).1.toNat =
            false ∧
          ∀ p, (allocPid table).2.pidAlloc.inUse p = true ↔
            p = (allocPid table).1.toNat ∨
              table.pidAlloc.inUse p = true) := by
  have hOk : table.pidAlloc.Ok :=
    hRun.invariant (fun t => t.pidAlloc.Ok)
      (fun _ _ _ hOk hStep => pidStep_ok hOk hStep)
      ⟨Int.le_refl 1, (by decide : (1 : Int) < maxProcesses)⟩
  refine ⟨⟨hOk.next_pos, hOk.next_lt⟩, ?_⟩
  have hSpec := allocPid_spec hOk
  generalize allocPid table = answer at hSpec ⊢
  rcases answer with ⟨pid, table'⟩
  simp only
  rcases hSpec.inUse with
    ⟨hNone, hSame, hAll⟩ | ⟨hPos, hLt, hFree, hMark⟩
  · refine ⟨⟨fun _ => hAll, fun _ => hNone⟩, ?_, ?_⟩
    · intro _ p
      rw [hSame]
    · exact fun hNe => absurd hNone hNe
  · refine ⟨⟨?_, ?_⟩, ?_, ?_⟩
    · intro hNone
      omega
    · intro hAll
      have hUsed := hAll pid.toNat (by omega) (by omega)
      rw [hFree] at hUsed
      simp at hUsed
    · intro hNone
      omega
    · intro _
      refine ⟨hPos, hLt, hFree, ?_⟩
      intro p
      simp [hMark]

theorem pid_run_spec_one :
    ∃ table,
      Run PidStep ProcessTable.zero.withPids
          [.alloc, .free 1, .free 70] table ∧
        1 ≤ table.pidAlloc.nextPid := by
  have hRun :
      Run PidStep ProcessTable.zero.withPids
        [.alloc, .free 1, .free 70] _ :=
    .cons (.alloc _) (.cons (.free _ _)
      (.cons (.free _ _) (.nil _)))
  exact ⟨_, hRun, (pid_run_spec hRun).1.1⟩

end FeatherOS
