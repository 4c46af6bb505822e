import FeatherOS.Process.Pids

/-
  The process table and the PID bitmap stay in step.

  The tasks in the table have distinct PIDs, and the PIDs in
  use are theirs and PID 0. So there are never more tasks
  than PIDs, and a task that got a PID finds a free slot.

  Key definitions include:
    * `ProcessTable.Holds`
    * `TableOk`
    * `ProcStep`

  Key theorems include:
    * `TableOk.exists_none`
    * `TableOk.add`
    * `TableOk.remove`
    * `process_run_table`
-/

namespace FeatherOS

--------------------
-- The Invariant
--------------------

namespace ProcessTable

/- A task in some slot. -/
def Holds
    (table : ProcessTable)
    (task : Addr) : Prop :=
  ∃ i < maxProcesses, table.tasks i = some task

/- The slots that are not NULL. -/
def filled (table : ProcessTable) : Finset Nat :=
  (Finset.range maxProcesses).filter fun i =>
    table.tasks i ≠ none

theorem mem_filled
    {table : ProcessTable}
    {i : Nat} :
    i ∈ table.filled ↔
      i < maxProcesses ∧ table.tasks i ≠ none := by
  simp [filled]

end ProcessTable

/- The table and the bitmap, given the PIDs of the tasks. -/
structure TableOk
    (table : ProcessTable)
    (pid : Addr → Int) : Prop where
  alloc : table.pidAlloc.Ok
  distinct : ∀ i < maxProcesses, ∀ j < maxProcesses, ∀ a b,
    table.tasks i = some a → table.tasks j = some b →
      pid a = pid b → i = j
  range : ∀ a, table.Holds a → 0 ≤ pid a ∧ pid a < maxProcesses
  used : ∀ p < maxProcesses,
    table.pidAlloc.inUse p = true ↔
      p = 0 ∨ ∃ a, table.Holds a ∧ pid a = p
  count : table.numTasks = BitVec.ofNat 32 table.filled.card

section Table

variable {table table' : ProcessTable}
variable {pid pid' : Addr → Int}
variable {task : Addr}

/- Other records and the statistics do not matter. -/
theorem TableOk.congr
    (hTasks : table'.tasks = table.tasks)
    (hAlloc : table'.pidAlloc = table.pidAlloc)
    (hCount : table'.numTasks = table.numTasks)
    (hPid : ∀ a, table.Holds a → pid' a = pid a)
    (hOk : TableOk table pid) :
    TableOk table' pid' := by
  have hHolds : table'.Holds = table.Holds := by
    funext a
    simp only [ProcessTable.Holds, hTasks]
  refine ⟨?_, ?_, ?_, ?_, ?_⟩
  · rw [hAlloc]
    exact hOk.alloc
  · intro i hi j hj a b ha hb hEq
    rw [hTasks] at ha hb
    rw [hPid a ⟨i, hi, ha⟩, hPid b ⟨j, hj, hb⟩] at hEq
    exact hOk.distinct i hi j hj a b ha hb hEq
  · intro a ha
    rw [hHolds] at ha
    rw [hPid a ha]
    exact hOk.range a ha
  · intro p hp
    rw [hAlloc, hHolds, hOk.used p hp]
    refine or_congr_right (exists_congr fun a => ?_)
    refine and_congr_right fun ha => ?_
    rw [hPid a ha]
  · have hFilled : table'.filled = table.filled := by
      simp only [ProcessTable.filled, hTasks]
    rw [hCount, hFilled]
    exact hOk.count

/- Two slots never hold the same task. -/
theorem TableOk.slot_inj
    {i j : Nat}
    (hOk : TableOk table pid)
    (hi : i < maxProcesses)
    (hj : j < maxProcesses)
    (ha : table.tasks i = some task)
    (hb : table.tasks j = some task) :
    i = j :=
  hOk.distinct i hi j hj task task ha hb rfl

/- While a PID is left, there is room in the table. -/
theorem TableOk.exists_none
    {p : Nat}
    (hOk : TableOk table pid)
    (hLt : p < maxProcesses)
    (hFree : table.pidAlloc.inUse p = false) :
    ∃ i < maxProcesses, table.tasks i = none := by
  by_contra hFull
  have hSome : ∀ i < maxProcesses, ∃ a,
      table.tasks i = some a := by
    intro i hi
    exact Option.ne_none_iff_exists'.mp
      fun hNone => hFull ⟨i, hi, hNone⟩
  choose! owner hOwner using hSome
  have hHolds : ∀ i < maxProcesses, table.Holds (owner i) :=
    fun i hi => ⟨i, hi, hOwner i hi⟩
  -- The PIDs of 64 tasks would be among 63 values.
  have hCard :
      (Finset.range maxProcesses).card ≤
        ((Finset.range maxProcesses).erase p).card := by
    refine Finset.card_le_card_of_injOn
      (fun i => (pid (owner i)).toNat) ?_ ?_
    · intro i hi
      have hi' : i < maxProcesses := by simpa using hi
      have hRange := hOk.range _ (hHolds i hi')
      simp only [Finset.coe_erase, Finset.coe_range,
        Set.mem_sdiff, Set.mem_Iio, Set.mem_singleton_iff]
      refine ⟨by omega, ?_⟩
      rintro rfl
      have hUsed :=
        (hOk.used _ hLt).mpr
          (Or.inr ⟨owner i, hHolds i hi', by omega⟩)
      rw [hFree] at hUsed
      simp at hUsed
    · intro i hi j hj hEq
      have hi' : i < maxProcesses := by simpa using hi
      have hj' : j < maxProcesses := by simpa using hj
      have hRange := hOk.range _ (hHolds i hi')
      have hRange' := hOk.range _ (hHolds j hj')
      simp only at hEq
      exact hOk.distinct i hi' j hj' _ _ (hOwner i hi')
        (hOwner j hj') (by omega)
  rw [Finset.card_erase_of_mem (by simpa using hLt),
    Finset.card_range] at hCard
  have hMax : maxProcesses = 64 := rfl
  omega

/- A task joins at the first free slot, if there is one. -/
theorem addTask_cases
    (table : ProcessTable)
    (task : Addr) :
    (addTask table task = (-1, table) ∧
        ∀ i < maxProcesses, table.tasks i ≠ none) ∨
      ∃ i < maxProcesses, table.tasks i = none ∧
        addTask table task =
          (0,
            { table.setSlot i (some task) with
              numTasks := table.numTasks + 1#32 }) := by
  cases hFind : slots.find? fun i => table.tasks i = none with
  | none =>
      refine Or.inl ⟨by simp [addTask, hFind], ?_⟩
      intro i hi hNone
      rw [List.find?_eq_none] at hFind
      exact hFind i (List.mem_range.mpr hi) (by simpa using hNone)
  | some i =>
      have hMem := List.mem_of_find?_eq_some hFind
      have hNone := List.find?_some hFind
      refine Or.inr ⟨i, List.mem_range.mp hMem,
        by simpa using hNone, by simp [addTask, hFind]⟩

variable {i : Nat}
variable {a : Addr}

/- A slot filled with a task that was not in the table. -/
theorem holds_setSlot_some
    (hi : i < maxProcesses)
    (hNone : table.tasks i = none) :
    (table.setSlot i (some task)).Holds a ↔
      a = task ∨ table.Holds a := by
  simp only [ProcessTable.Holds, ProcessTable.setSlot]
  constructor
  · rintro ⟨j, hj, hSlot⟩
    by_cases hEq : j = i
    · subst hEq
      rw [Function.update_self] at hSlot
      exact Or.inl (Option.some.inj hSlot).symm
    · rw [Function.update_of_ne hEq] at hSlot
      exact Or.inr ⟨j, hj, hSlot⟩
  · rintro (rfl | ⟨j, hj, hSlot⟩)
    · exact ⟨i, hi, Function.update_self ..⟩
    · have hNe : j ≠ i := by
        rintro rfl
        rw [hNone] at hSlot
        simp at hSlot
      exact ⟨j, hj, by rwa [Function.update_of_ne hNe]⟩

theorem filled_setSlot_some
    {i : Nat}
    (hi : i < maxProcesses)
    (hNone : table.tasks i = none) :
    (table.setSlot i (some task)).filled.card =
      table.filled.card + 1 := by
  have hInsert :
      (table.setSlot i (some task)).filled =
        insert i table.filled := by
    ext j
    rw [Finset.mem_insert, ProcessTable.mem_filled,
      ProcessTable.mem_filled]
    by_cases hEq : j = i
    · subst hEq
      simp [ProcessTable.setSlot, hi]
    · simp [ProcessTable.setSlot, hEq]
  rw [hInsert]
  refine Finset.card_insert_of_notMem ?_
  rw [ProcessTable.mem_filled]
  exact fun hIn => hIn.2 hNone

/- A new task gets a new PID and a slot. -/
theorem TableOk.add
    {p : Nat}
    {alloc : PidAllocator}
    {stats : ProcessStats}
    (hOk : TableOk table pid)
    (hPos : 1 ≤ p)
    (hLt : p < maxProcesses)
    (hFree : table.pidAlloc.inUse p = false)
    (hMark :
      alloc.bitmap = Bitmap.set table.pidAlloc.bitmap p)
    (hAlloc : alloc.Ok)
    (hNew : ¬ table.Holds task)
    (hPid : pid' task = p)
    (hSame : ∀ a, table.Holds a → pid' a = pid a) :
    ∃ table',
      addTask
          { table with pidAlloc := alloc, stats := stats }
          task =
        (0, table') ∧ TableOk table' pid' := by
  rcases addTask_cases
      { table with pidAlloc := alloc, stats := stats } task with
    ⟨_, hFull⟩ | ⟨i, hi, hNone, hAdd⟩
  · rcases hOk.exists_none hLt hFree with ⟨i, hi, hNone⟩
    exact absurd hNone (hFull i hi)
  have hNone' : table.tasks i = none := hNone
  have hHolds : ∀ a,
      (table.setSlot i (some task)).Holds a ↔
        a = task ∨ table.Holds a :=
    fun _ => holds_setSlot_some hi hNone'
  have hOther : ∀ a, table.Holds a → pid a ≠ p := by
    intro a ha hEq
    have hUsed := (hOk.used p hLt).mpr (Or.inr ⟨a, ha, hEq⟩)
    rw [hFree] at hUsed
    simp at hUsed
  refine ⟨_, hAdd, hAlloc, ?_, ?_, ?_, ?_⟩
  · intro j hj k hk a b ha hb hEq
    simp only [ProcessTable.setSlot] at ha hb
    by_cases hji : j = i
    · by_cases hki : k = i
      · rw [hji, hki]
      · rw [hji, Function.update_self] at ha
        rw [Function.update_of_ne hki] at hb
        cases ha
        rw [hPid, hSame b ⟨k, hk, hb⟩] at hEq
        exact absurd hEq.symm (hOther b ⟨k, hk, hb⟩)
    · rw [Function.update_of_ne hji] at ha
      by_cases hki : k = i
      · rw [hki, Function.update_self] at hb
        cases hb
        rw [hPid, hSame a ⟨j, hj, ha⟩] at hEq
        exact absurd hEq (hOther a ⟨j, hj, ha⟩)
      · rw [Function.update_of_ne hki] at hb
        rw [hSame a ⟨j, hj, ha⟩, hSame b ⟨k, hk, hb⟩] at hEq
        exact hOk.distinct j hj k hk a b ha hb hEq
  · intro a ha
    rcases (hHolds a).mp ha with rfl | ha
    · rw [hPid]
      omega
    · rw [hSame a ha]
      exact hOk.range a ha
  · intro q hq
    have hBit :
        alloc.inUse q =
          (decide (q = p) || table.pidAlloc.inUse q) := by
      simp only [PidAllocator.inUse, hMark, Bitmap.test_set]
    have hTasks :
        (∃ a, (table.setSlot i (some task)).Holds a ∧
            pid' a = q) ↔
          q = p ∨ ∃ a, table.Holds a ∧ pid a = q := by
      constructor
      · rintro ⟨a, ha, hEq⟩
        rcases (hHolds a).mp ha with rfl | ha
        · rw [hPid] at hEq
          exact Or.inl (by omega)
        · rw [hSame a ha] at hEq
          exact Or.inr ⟨a, ha, hEq⟩
      · rintro (rfl | ⟨a, ha, hEq⟩)
        · exact ⟨task, (hHolds task).mpr (Or.inl rfl), hPid⟩
        · exact ⟨a, (hHolds a).mpr (Or.inr ha),
            (hSame a ha).trans hEq⟩
    have hOld := hOk.used q hq
    calc
      alloc.inUse q = true ↔
          q = p ∨ table.pidAlloc.inUse q = true := by
        rw [hBit]
        simp
      _ ↔ q = 0 ∨ q = p ∨
          ∃ a, table.Holds a ∧ pid a = q := by
        rw [hOld]
        exact or_left_comm
      _ ↔ q = 0 ∨
          ∃ a, (table.setSlot i (some task)).Holds a ∧
            pid' a = q := by
        rw [hTasks]
  · have hCard := @filled_setSlot_some table task i hi hNone'
    have hFilled :
        ProcessTable.filled
            { ProcessTable.setSlot
                { table with pidAlloc := alloc, stats := stats }
                i (some task) with
              numTasks := table.numTasks + 1#32 } =
          (table.setSlot i (some task)).filled :=
      rfl
    rw [hFilled, hCard]
    simp only
    rw [hOk.count, BitVec.ofNat_add]

/- The table without the task of a slot. -/
theorem holds_setSlot_none
    (hOk : TableOk table pid)
    (hi : i < maxProcesses)
    (hSlot : table.tasks i = some task) :
    (table.setSlot i none).Holds a ↔
      a ≠ task ∧ table.Holds a := by
  simp only [ProcessTable.Holds, ProcessTable.setSlot]
  constructor
  · rintro ⟨j, hj, ha⟩
    have hNe : j ≠ i := by
      rintro rfl
      rw [Function.update_self] at ha
      simp at ha
    rw [Function.update_of_ne hNe] at ha
    refine ⟨?_, j, hj, ha⟩
    rintro rfl
    exact hNe (hOk.slot_inj hj hi ha hSlot)
  · rintro ⟨hOther, j, hj, ha⟩
    have hNe : j ≠ i := by
      rintro rfl
      rw [hSlot] at ha
      exact hOther (Option.some.inj ha).symm
    exact ⟨j, hj, by rwa [Function.update_of_ne hNe]⟩

theorem filled_setSlot_none
    (hi : i < maxProcesses)
    (hSlot : table.tasks i = some task) :
    (table.setSlot i none).filled.card + 1 =
      table.filled.card := by
  have hErase :
      (table.setSlot i none).filled = table.filled.erase i := by
    ext j
    rw [Finset.mem_erase, ProcessTable.mem_filled,
      ProcessTable.mem_filled]
    by_cases hEq : j = i
    · subst hEq
      simp [ProcessTable.setSlot]
    · simp [ProcessTable.setSlot, hEq]
  rw [hErase]
  refine Finset.card_erase_add_one ?_
  rw [ProcessTable.mem_filled, hSlot]
  exact ⟨hi, by simp⟩

/- Tasks and counters are not touched by `free_pid`. -/
theorem freePid_rest
    (table : ProcessTable)
    (p : Int) :
    (freePid table p).tasks = table.tasks ∧
      (freePid table p).numTasks = table.numTasks := by
  simp only [freePid]
  split
  · exact ⟨rfl, rfl⟩
  · split <;> exact ⟨rfl, rfl⟩

/- A task leaves, and its PID is free again unless it is 0. -/
theorem TableOk.remove
    {i : Nat}
    (hOk : TableOk table pid)
    (hi : i < maxProcesses)
    (hSlot : table.tasks i = some task) :
    TableOk
      (freePid
        { table.setSlot i none with
          numTasks := table.numTasks - 1#32 }
        (pid task))
      pid := by
  generalize hLeft :
    ({ table.setSlot i none with
        numTasks := table.numTasks - 1#32 } : ProcessTable) =
      left
  have hTasks : left.tasks = (table.setSlot i none).tasks := by
    rw [← hLeft]
  have hAlloc : left.pidAlloc = table.pidAlloc := by
    rw [← hLeft]
    rfl
  rcases freePid_rest left (pid task) with ⟨hRest, hNum⟩
  rw [hTasks] at hRest
  have hHolds : ∀ a, (freePid left (pid task)).Holds a ↔
      a ≠ task ∧ table.Holds a := by
    intro a
    rw [← holds_setSlot_none hOk hi hSlot]
    simp only [ProcessTable.Holds, hRest]
  have hUnique : ∀ a, table.Holds a → pid a = pid task →
      a = task := by
    rintro a ⟨j, hj, ha⟩ hEq
    have hSame := hOk.distinct j hj i hi a task ha hSlot hEq
    rw [hSame, hSlot] at ha
    exact (Option.some.inj ha).symm
  have hRange := hOk.range task ⟨i, hi, hSlot⟩
  refine ⟨?_, ?_, ?_, ?_, ?_⟩
  · refine freePid_ok _ ?_
    rw [hAlloc]
    exact hOk.alloc
  · intro j hj k hk a b ha hb hEq
    rw [hRest] at ha hb
    simp only [ProcessTable.setSlot] at ha hb
    have hji : j ≠ i := by
      rintro rfl
      rw [Function.update_self] at ha
      simp at ha
    have hki : k ≠ i := by
      rintro rfl
      rw [Function.update_self] at hb
      simp at hb
    rw [Function.update_of_ne hji] at ha
    rw [Function.update_of_ne hki] at hb
    exact hOk.distinct j hj k hk a b ha hb hEq
  · intro a ha
    exact hOk.range a ((hHolds a).mp ha).2
  · intro q hq
    rw [freePid_inUse, hAlloc]
    have hOld := hOk.used q hq
    constructor
    · intro hBit
      rw [Bool.and_eq_true, Bool.not_eq_true',
        decide_eq_false_iff_not] at hBit
      rcases hOld.mp hBit.2 with hZero | ⟨a, ha, hEq⟩
      · exact Or.inl hZero
      · by_cases hTask : a = task
        · -- Only the idle task leaves its PID in use.
          subst hTask
          exact Or.inl (by omega)
        · exact Or.inr ⟨a, (hHolds a).mpr ⟨hTask, ha⟩, hEq⟩
    · intro hNew
      rw [Bool.and_eq_true, Bool.not_eq_true',
        decide_eq_false_iff_not]
      rcases hNew with hZero | ⟨a, ha, hEq⟩
      · exact ⟨by omega, hOld.mpr (Or.inl hZero)⟩
      · rcases (hHolds a).mp ha with ⟨hTask, ha⟩
        refine ⟨?_, hOld.mpr (Or.inr ⟨a, ha, hEq⟩)⟩
        rintro ⟨_, _, hSame⟩
        exact hTask (hUnique a ha (by omega))
  · have hCard := filled_setSlot_none hi hSlot
    have hFilled :
        (freePid left (pid task)).filled =
          (table.setSlot i none).filled := by
      simp only [ProcessTable.filled, hRest]
    rw [hNum, hFilled, ← hLeft]
    simp only [hOk.count, ← hCard, BitVec.ofNat_add,
      BitVec.add_sub_cancel]

end Table

--------------------
-- Lookups
--------------------

/- The PID of a task, as its record has it. -/
def ProcState.pid
    (s : ProcState)
    (task : Addr) : Int :=
  (s.task task).pid

variable {s : ProcState}
variable {task : Addr}

theorem findTaskByPid_iff
    {p : Int}
    (hOk : TableOk s.table s.pid) :
    findTaskByPid s p = some task ↔
      s.table.Holds task ∧ s.pid task = p := by
  have hSound : ∀ a, findTaskByPid s p = some a →
      s.table.Holds a ∧ s.pid a = p := by
    intro a hFind
    rcases List.exists_of_findSome?_eq_some hFind with
      ⟨i, hi, hSome⟩
    cases hSlot : s.table.tasks i with
    | none => simp [hSlot] at hSome
    | some b =>
        simp only [hSlot, Option.ite_none_right_eq_some,
          Option.some.injEq] at hSome
        rcases hSome with ⟨hPid, rfl⟩
        exact ⟨⟨i, List.mem_range.mp hi, hSlot⟩, hPid⟩
  refine ⟨hSound task, ?_⟩
  rintro ⟨⟨i, hi, hSlot⟩, hPid⟩
  have hSome : (findTaskByPid s p).isSome = true := by
    refine List.findSome?_isSome_iff.mpr
      ⟨i, List.mem_range.mpr hi, ?_⟩
    rw [hSlot]
    simp [ProcState.pid] at hPid
    simp [hPid]
  rcases Option.isSome_iff_exists.mp hSome with ⟨a, hFind⟩
  rcases hSound a hFind with ⟨⟨j, hj, ha⟩, hEq⟩
  have hSame :=
    hOk.distinct j hj i hi a task ha hSlot
      (hEq.trans hPid.symm)
  rw [hSame, hSlot] at ha
  rw [hFind, ha]

--------------------
-- One Call
--------------------

inductive ProcCall where
  | kernelThread
      (block : Option Addr)
      (fn arg : U64)
      (flags : U32)
  | copyProcess
      (block : Option Addr)
      (cloneFlags stackStart : U64)
  | removeTask (task : Option Addr)

/- `kmalloc` answers NULL or a block that is not in use. -/
def FreshBlock
    (s : ProcState)
    (block : Option Addr) : Prop :=
  ∀ a, block = some a → ¬ s.table.Holds a

inductive ProcStep :
    ProcState → ProcCall → ProcState → Prop
| kernelThread
    {s : ProcState}
    {block : Option Addr}
    {fn arg : U64}
    {flags : U32}
    (hFresh : FreshBlock s block) :
    ProcStep s (.kernelThread block fn arg flags)
      (kernelThread s block fn arg flags).2
| copyProcess
    {s : ProcState}
    {block : Option Addr}
    {cloneFlags stackStart : U64}
    (hFresh : FreshBlock s block) :
    ProcStep s (.copyProcess block cloneFlags stackStart)
      (copyProcess s block cloneFlags stackStart).2
| removeTask
    (s : ProcState)
    (task : Option Addr) :
    ProcStep s (.removeTask task) (removeTask s task).2

variable {count : ProcessStats → ProcessStats}

theorem joinTable_ok
    (hAdd : ∃ table, addTask s.table task = (0, table) ∧
      TableOk table s.pid) :
    TableOk (joinTable s task count).2.table
      (joinTable s task count).2.pid := by
  rcases hAdd with ⟨table, hAdd, hOk⟩
  simp only [joinTable, hAdd]
  refine hOk.congr ?_ ?_ ?_ ?_
  · rfl
  · rfl
  · rfl
  · exact fun _ _ => rfl

/- A creation keeps the invariant, whatever it sets up. -/
theorem createTask_ok
    {block : Option Addr}
    {setUp : (Addr → Task) → Addr → Task → Task}
    (hOk : TableOk s.table s.pid)
    (hFresh : FreshBlock s block)
    (hPid : ∀ records a t, (setUp records a t).pid = t.pid) :
    TableOk (createTask s block setUp count).2.table
      (createTask s block setUp count).2.pid := by
  cases block with
  | none => exact hOk
  | some task =>
      have hNew := hFresh task rfl
      have hNe : ∀ a, s.table.Holds a → a ≠ task := by
        rintro a ha rfl
        exact hNew ha
      have hSpec := allocPid_spec hOk.alloc
      simp only [createTask, allocateTask]
      have hTable :
          (s.modifyTask task fun _ => Task.zero).table =
            s.table :=
        rfl
      rw [hTable]
      generalize allocPid s.table = answer at hSpec ⊢
      cases hSpec with
      | full _ =>
          simp only [Int.reduceNeg, Int.reduceLT, if_true]
          refine hOk.congr rfl rfl rfl fun a ha => ?_
          simp only [ProcState.pid, ProcState.modifyTask,
            Function.update_of_ne (hNe a ha)]
      | @fresh p alloc stats hPos hLt hFree hMark hAlloc =>
          have hNat : ¬ ((p : Int) < 0) := by omega
          simp only [if_neg hNat]
          refine joinTable_ok ?_
          refine hOk.add hPos hLt hFree hMark hAlloc hNew ?_ ?_
          · simp [ProcState.pid, ProcState.modifyTask, hPid]
          · intro a ha
            simp only [ProcState.pid, ProcState.modifyTask,
              Function.update_of_ne (hNe a ha)]

theorem removeTask_ok
    (task : Option Addr)
    (hOk : TableOk s.table s.pid) :
    TableOk (removeTask s task).2.table
      (removeTask s task).2.pid := by
  cases task with
  | none => exact hOk
  | some task =>
      cases hFind :
          slots.find? fun i => s.table.tasks i = some task with
      | none =>
          simp only [removeTask, hFind]
          exact hOk
      | some i =>
          have hMem := List.mem_of_find?_eq_some hFind
          have hSlot := List.find?_some hFind
          simp only [removeTask, hFind]
          exact hOk.remove (List.mem_range.mp hMem)
            (by simpa using hSlot)

theorem procStep_ok
    {s s' : ProcState}
    {call : ProcCall}
    (hOk : TableOk s.table s.pid)
    (hStep : ProcStep s call s') :
    TableOk s'.table s'.pid := by
  cases hStep with
  | kernelThread hFresh =>
      exact createTask_ok hOk hFresh fun _ _ _ => rfl
  | copyProcess hFresh =>
      refine createTask_ok hOk hFresh fun records a t => ?_
      simp only [setUpCopy]
      split
      · rfl
      · split <;> rfl
  | removeTask task => exact removeTask_ok task hOk

--------------------
-- Every Run
--------------------

/- Before `process_init` nothing but PID 0 is reserved. -/
theorem withPids_ok
    (pid : Addr → Int) :
    TableOk ProcessTable.zero.withPids pid := by
  have hEmpty : ∀ a, ¬ ProcessTable.zero.withPids.Holds a := by
    rintro a ⟨i, _, hSlot⟩
    simp [ProcessTable.zero, ProcessTable.withPids] at hSlot
  refine ⟨⟨Int.le_refl 1, (by decide : (1 : Int) < maxProcesses)⟩,
    ?_, ?_, ?_, rfl⟩
  · intro i hi j hj a b ha
    simp [ProcessTable.zero, ProcessTable.withPids] at ha
  · exact fun a ha => absurd ha (hEmpty a)
  · intro p hp
    have hBit : ∀ q < maxProcesses,
        ProcessTable.zero.withPids.pidAlloc.inUse q =
          decide (q = 0) := by
      decide
    rw [hBit p hp, decide_eq_true_eq]
    constructor
    · exact Or.inl
    · rintro (hZero | ⟨a, ha, _⟩)
      · exact hZero
      · exact absurd ha (hEmpty a)

/- `process_init` leaves no task, or the idle task. -/
theorem processInit_ok
    (task : Addr → Task)
    (block : Option Addr) :
    TableOk (processInit (ProcState.boot task) block).2.table
      (processInit (ProcState.boot task) block).2.pid := by
  cases block with
  | none => exact withPids_ok _
  | some idle =>
      have hTasks :
          (processInit (ProcState.boot task)
            (some idle)).2.table.tasks =
            Function.update (fun _ => none) 0 (some idle) :=
        rfl
      have hPid :
          (processInit (ProcState.boot task)
            (some idle)).2.pid idle = 0 := by
        simp [processInit, ProcState.boot, ProcessTable.zero,
          allocateTask, ProcState.pid, ProcState.modifyTask]
      have hAlloc :
          (processInit (ProcState.boot task)
            (some idle)).2.table.pidAlloc =
            ProcessTable.zero.withPids.pidAlloc :=
        rfl
      have hCount :
          (processInit (ProcState.boot task)
            (some idle)).2.table.numTasks = 1#32 :=
        rfl
      generalize (processInit (ProcState.boot task)
        (some idle)).2 = s at hTasks hPid hAlloc hCount
      have hOnly : ∀ i a, s.table.tasks i = some a →
          i = 0 ∧ a = idle := by
        intro i a ha
        rw [hTasks] at ha
        by_cases hZero : i = 0
        · subst hZero
          rw [Function.update_self] at ha
          exact ⟨rfl, (Option.some.inj ha).symm⟩
        · rw [Function.update_of_ne hZero] at ha
          simp at ha
      have hHolds : ∀ a, s.table.Holds a ↔ a = idle := by
        intro a
        constructor
        · rintro ⟨i, _, ha⟩
          exact (hOnly i a ha).2
        · rintro rfl
          exact ⟨0, by decide, by rw [hTasks]; simp⟩
      have hStart := withPids_ok s.pid
      refine ⟨?_, ?_, ?_, ?_, ?_⟩
      · rw [hAlloc]
        exact hStart.alloc
      · intro i hi j hj a b ha hb _
        rw [(hOnly i a ha).1, (hOnly j b hb).1]
      · intro a ha
        rw [(hHolds a).mp ha, hPid]
        decide
      · intro p hp
        rw [hAlloc, hStart.used p hp]
        refine ⟨?_, ?_⟩
        · rintro (hZero | ⟨a, ⟨i, _, ha⟩, _⟩)
          · exact Or.inl hZero
          · simp [ProcessTable.zero,
              ProcessTable.withPids] at ha
        · rintro (hZero | ⟨a, ha, hEq⟩)
          · exact Or.inl hZero
          · rw [(hHolds a).mp ha, hPid] at hEq
            exact Or.inl (by omega)
      · have hFilled : s.table.filled = {0} := by
          ext i
          rw [ProcessTable.mem_filled, Finset.mem_singleton,
            hTasks]
          by_cases hZero : i = 0
          · subst hZero
            simp [maxProcesses]
          · simp [hZero]
        rw [hCount, hFilled]
        rfl

/-
  After any calls the tasks in the table have distinct PIDs,
  which with PID 0 are those in use; the counter is right;
  a lookup finds the one task with a PID; and a task that
  got a PID always finds a slot.
-/
theorem process_run_table
    {task : Addr → Task}
    {block : Option Addr}
    {calls : List ProcCall}
    {s : ProcState}
    (hRun :
      Run ProcStep
        (processInit (ProcState.boot task) block).2 calls s) :
    (∀ i < maxProcesses, ∀ j < maxProcesses, ∀ a b,
        s.table.tasks i = some a → s.table.tasks j = some b →
          i ≠ j → s.pid a ≠ s.pid b) ∧
      (∀ p < maxProcesses,
        s.table.pidAlloc.inUse p = true ↔
          p = 0 ∨ ∃ a, s.table.Holds a ∧ s.pid a = p) ∧
      (∀ a, s.table.Holds a →
        0 ≤ s.pid a ∧ s.pid a < maxProcesses) ∧
      s.table.numTasks.toNat = s.table.filled.card ∧
      (∀ p a, findTaskByPid s p = some a ↔
        s.table.Holds a ∧ s.pid a = p) ∧
      ∀ a, 0 ≤ (allocPid s.table).1 →
        (addTask (allocPid s.table).2 a).1 = 0 := by
  have hOk : TableOk s.table s.pid :=
    hRun.invariant (fun s => TableOk s.table s.pid)
      (fun _ _ _ hOk hStep => procStep_ok hOk hStep)
      (processInit_ok task block)
  refine ⟨?_, hOk.used, hOk.range, ?_,
    fun p a => findTaskByPid_iff hOk, ?_⟩
  · intro i hi j hj a b ha hb hNe hEq
    exact hNe (hOk.distinct i hi j hj a b ha hb hEq)
  · have hLe : s.table.filled.card ≤ maxProcesses := by
      have hSub := Finset.card_filter_le
        (Finset.range maxProcesses) fun i => s.table.tasks i ≠ none
      rwa [Finset.card_range] at hSub
    have hMax : maxProcesses = 64 := rfl
    rw [hOk.count, BitVec.toNat_ofNat]
    omega
  · intro a hPid
    have hSpec := allocPid_spec hOk.alloc
    generalize allocPid s.table = answer at hSpec hPid ⊢
    cases hSpec with
    | full _ => simp at hPid
    | @fresh p alloc stats hPos hLt hFree hMark hAlloc =>
        rcases hOk.exists_none hLt hFree with ⟨i, hi, hNone⟩
        rcases addTask_cases
            { s.table with pidAlloc := alloc, stats := stats }
            a with
          ⟨_, hFull⟩ | ⟨_, _, _, hAdd⟩
        · exact absurd hNone (hFull i hi)
        · rw [hAdd]

theorem process_run_table_one_thread :
    ∃ s,
      Run ProcStep
          (processInit (ProcState.boot fun _ => Task.zero)
            (some 0x200000#64)).2
          [.kernelThread (some 0x201000#64) 0#64 0#64 0#32,
            .removeTask (some 0x200000#64)] s ∧
        s.table.numTasks.toNat = s.table.filled.card := by
  have hFresh :
      FreshBlock
        (processInit (ProcState.boot fun _ => Task.zero)
          (some 0x200000#64)).2 (some 0x201000#64) := by
    rintro a hBlock ⟨i, hi, hSlot⟩
    cases hBlock
    revert i
    decide
  have hRun :
      Run ProcStep
        (processInit (ProcState.boot fun _ => Task.zero)
          (some 0x200000#64)).2
        [.kernelThread (some 0x201000#64) 0#64 0#64 0#32,
          .removeTask (some 0x200000#64)] _ :=
    .cons (.kernelThread hFresh) (.cons (.removeTask _ _)
      (.nil _))
  exact ⟨_, hRun, (process_run_table hRun).2.2.2.1⟩

end FeatherOS
