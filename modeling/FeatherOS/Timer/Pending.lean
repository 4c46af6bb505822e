import FeatherOS.Library.Run
import FeatherOS.Timer.Wheel

/-
  Pending timers over whole runs.

  A timer is pending from `add_timer` on, until it is deleted
  or has been run without being armed again. Every pending
  timer is in the bucket of its expiry and in no other, and
  no timer is run before its expiry.

  Key definitions include:
    * `TimerSys`
    * `timerStep`
    * `TimerSys.InPlace`

  Key theorems include:
    * `timerStep_ok`
    * `timerRun_inPlace`
    * `timerRun_notEarly`
-/

namespace FeatherOS

--------------------
-- Pending Timers
--------------------

/- The timers, with a record of those that are pending. -/
structure TimerSys where
  state : TimerState
  pending : Addr → Prop

/- The timers run between two states, the last one first. -/
def newRuns (s s' : TimerState) : List TimerRun :=
  s'.ran.take (s'.ran.length - s.ran.length)

/- The timers pending after one more call. -/
def pendingAfter
    (pending : Addr → Prop)
    (s s' : TimerState)
    (call : TimerCall)
    (t : Addr) : Prop :=
  match call with
  | .add p => pending t ∨ t = p
  | .del p => pending t ∧ t ≠ p
  | .init _ => pending t
  | .fill _ _ _ _ _ => pending t
  | _ =>
      pending t ∧
        ∀ e ∈ newRuns s s', e.timer = t → e.record.Rearms

def timerStep
    (sys : TimerSys)
    (call : TimerCall)
    (sys' : TimerSys) : Prop :=
  (∃ fuel, timerCall fuel sys.state call = some sys'.state) ∧
    sys'.pending =
      pendingAfter sys.pending sys.state sys'.state call

/- Records of pending timers are left to this file. -/
def KeepsPending
    (sys : TimerSys) :
    TimerCall → Prop
  | .init p => ¬ sys.pending p
  | .fill p _ _ _ _ => ¬ sys.pending p
  | .add p => ¬ sys.pending p
  | _ => True

/- What `timer_wheel_init` leaves before any timer is run. -/
def TimerSys.Started (sys : TimerSys) : Prop :=
  ∃ s : TimerState, s.ran = [] ∧
    sys = ⟨timerWheelInit s, fun _ => False⟩

--------------------
-- The Property
--------------------

/-
  The lists are the buckets; a timer is in the bucket of its
  expiry, once, if it is pending and nowhere otherwise.
-/
structure TimerSys.InPlace
    (sys : TimerSys)
    (lists : TimerBucket → List Addr) : Prop where
  chain : ∀ b,
    Chain (fun t => (sys.state.timer t).next)
      (sys.state.wheel b) (lists b)
  once : ∀ b, (lists b).Nodup
  place : ∀ b t, t ∈ lists b ↔
    sys.pending t ∧
      b = timerBucket (sys.state.timer t).expires

/-
  Deleting answers 1 for a pending timer and takes it out of
  its bucket; for any other it answers 0 and does nothing.
-/
structure TimerSys.Deletes
    (sys : TimerSys)
    (lists : TimerBucket → List Addr)
    (t : Addr) : Prop where
  returns : ∃ fuel r s, delTimer fuel sys.state t = some (r, s)
  pending : ∀ fuel r s, sys.pending t →
    delTimer fuel sys.state t = some (r, s) →
      r = 1 ∧ ∀ b,
        Chain (fun q => (s.timer q).next) (s.wheel b)
          (if b = timerBucket (sys.state.timer t).expires then
            (lists b).erase t
          else lists b)
  other : ∀ fuel r s, ¬ sys.pending t →
    delTimer fuel sys.state t = some (r, s) →
      r = 0 ∧ s = sys.state

/- No timer was run before its expiry. -/
def TimerState.NotEarly (s : TimerState) : Prop :=
  ∀ e ∈ s.ran, e.record.expires ≤ e.jiffies

--------------------
-- A Tick
--------------------

/- What a run of the due bucket leaves of lists and timers. -/
structure ExpireSpec
    (s : TimerState)
    (lists : TimerBucket → List Addr)
    (s' : TimerState)
    (lists' : TimerBucket → List Addr) : Prop where
  held : s'.Held lists'
  mem : ∀ b t, t ∈ lists' b ↔
    t ∈ lists b ∧ b ≠ s.dueBucket ∨
      t ∈ lists s.dueBucket ∧ (s.timer t).Rearms ∧
        timerBucket (s.timer t).afterRun.expires = b
  jiffies : s'.jiffies = s.jiffies
  ran : s'.ran =
    ((lists s.dueBucket).map fun t =>
      ⟨s.jiffies, t, s.timer t⟩).reverse ++ s.ran
  self : ∀ t ∈ lists s.dueBucket,
    (s'.timer t).unlinked = (s.timer t).afterRun.unlinked
  other : ∀ t, t ∉ lists s.dueBucket →
    (s'.timer t).unlinked = (s.timer t).unlinked

section Wheel

variable {s s' : TimerState}
variable {lists : TimerBucket → List Addr}
variable {fuel : Nat}

theorem runExpired_spec
    (hHeld : s.Held lists)
    (hCall : runExpired fuel s = some s') :
    ∃ lists', ExpireSpec s lists s' lists' := by
  rcases runExpired_held hHeld hCall with ⟨lists', hSpec⟩
  refine ⟨lists', hSpec.held, ?_, hSpec.jiffies, hSpec.ran,
    hSpec.self, fun t ht => by rw [hSpec.other t ht]⟩
  intro b t
  rw [hSpec.mem]
  by_cases hb : b = s.dueBucket
  · subst hb
    simp
  · simp [hb]

theorem timerTick_spec
    (hHeld : s.Held lists)
    (hCall : timerTick fuel s = some s') :
    ∃ lists', ExpireSpec (advanceJiffies s) lists s' lists' := by
  simp only [timerTick, Option.bind_eq_bind,
    Option.bind_eq_some_iff] at hCall
  rcases hCall with ⟨s₁, hRun, hMove⟩
  have hHeld₀ : (advanceJiffies s).Held lists := hHeld
  rcases runExpired_spec hHeld₀ hRun with ⟨lists₁, hSpec⟩
  rcases cascadeLvl2_held hSpec.held hMove with
    ⟨lists', hHeld', hMem, hJiffies, hRan, hRest⟩
  refine ⟨lists', hHeld', ?_, hJiffies.trans hSpec.jiffies,
    hRan.trans hSpec.ran, ?_, ?_⟩
  · intro b t
    rw [hMem, hSpec.mem]
  · intro t ht
    rw [hRest, hSpec.self t ht]
  · intro t ht
    rw [hRest, hSpec.other t ht]

theorem timerTick_returns
    (hHeld : s.Held lists) :
    ∃ fuel s', timerTick fuel s = some s' := by
  have hHeld₀ : (advanceJiffies s).Held lists := hHeld
  rcases runExpired_returns hHeld₀ (Nat.lt_succ_self _) with
    ⟨s₁, hRun⟩
  rcases runExpired_spec hHeld₀ hRun with ⟨lists₁, hSpec⟩
  rcases cascadeLvl2_returns hSpec.held (Nat.lt_succ_self _) with
    ⟨s', hMove⟩
  refine
    ⟨max (lists (advanceJiffies s).dueBucket).length.succ
      (lists₁ s₁.cascadeBucket).length.succ, s', ?_⟩
  simp only [timerTick, Option.bind_eq_bind,
    Option.bind_eq_some_iff]
  exact ⟨s₁, runExpired_mono (Nat.le_max_left _ _) hRun,
    cascadeLvl2_mono (Nat.le_max_right _ _) hMove⟩

end Wheel

--------------------
-- The Invariant
--------------------

/- The lists are the buckets of the pending timers. -/
structure TimerSys.Ok
    (sys : TimerSys)
    (lists : TimerBucket → List Addr) : Prop where
  held : sys.state.Held lists
  mem : ∀ t, sys.pending t ↔
    t ∈ lists (timerBucket (sys.state.timer t).expires)

/- The due bucket holds timers whose expiry was reached. -/
theorem expires_le_of_lvl1
    {jiffies expires : U64}
    (hBucket :
      timerBucket expires = (.lvl1, jiffies &&& timerWheelMask)) :
    expires ≤ jiffies ∧ expires < timerWheelSize ∧
      expires.toNat = jiffies.toNat % 256 := by
  have hMask : ∀ x : U64,
      (x &&& timerWheelMask).toNat = x.toNat % 256 := by
    intro x
    have hLow := Words.toNat_and_low x 8
    simpa [timerWheelMask, timerWheelSize, timerWheelBits]
      using hLow
  unfold timerBucket at hBucket
  by_cases hSmall : expires < timerWheelSize
  · simp only [hSmall, if_true, Prod.mk.injEq, true_and]
      at hBucket
    have hNat := congrArg BitVec.toNat hBucket
    rw [hMask, hMask] at hNat
    have hLt : expires.toNat < 256 := hSmall
    rw [Nat.mod_eq_of_lt hLt] at hNat
    refine ⟨?_, hSmall, hNat⟩
    rw [BitVec.le_def, hNat]
    exact Nat.mod_le _ _
  · simp only [hSmall, if_false] at hBucket
    split at hBucket
    · cases hBucket
    · cases hBucket

variable {s s' : TimerState}

theorem newRuns_eq
    {runs : List TimerRun}
    (hRan : s'.ran = runs ++ s.ran) :
    newRuns s s' = runs := by
  simp [newRuns, hRan]

section Steps

variable {sys sys' : TimerSys}
variable {lists : TimerBucket → List Addr}
variable {p t : Addr}

/- Timers that are not pending are off the wheel. -/
theorem TimerSys.Ok.out
    (hOk : sys.Ok lists)
    (hFree : ¬ sys.pending p) :
    ∀ b, p ∉ lists b := by
  intro b hIn
  exact hFree ((hOk.mem p).mpr ((hOk.held.mem_iff).mp hIn).2)

/- A record off the wheel is written. -/
theorem TimerSys.Ok.modifyTimer
    (hOk : sys.Ok lists)
    (hFree : ¬ sys.pending p)
    (f : Timer → Timer) :
    TimerSys.Ok ⟨sys.state.modifyTimer p f, sys.pending⟩
      lists where
  held := hOk.held.modifyTimer (hOk.out hFree) f
  mem t := by
    by_cases ht : t = p
    · subst ht
      have hOut := hOk.out hFree
      simp [hFree, hOut]
    · simp [ht, hOk.mem]

theorem addTimer_ok
    (hOk : sys.Ok lists)
    (hFree : ¬ sys.pending p) :
    ∃ lists',
      TimerSys.Ok
        ⟨addTimer sys.state p, fun t => sys.pending t ∨ t = p⟩
        lists' := by
  have hOut := hOk.out hFree
  have hHeld := addTimerBucket_held hOk.held hOut
  have hExp : ∀ t,
      ((addTimer sys.state p).timer t).expires =
        (sys.state.timer t).expires := by
    intro t
    have hEq := congrArg Timer.expires
      (addTimerBucket_unlinked sys.state p t)
    exact hEq
  refine ⟨_, hHeld.congr rfl fun _ _ _ => rfl, ?_⟩
  intro t
  simp only [hExp, hOk.mem]
  by_cases ht : t = p
  · subst ht
    simp
  · by_cases hb : timerBucket (sys.state.timer t).expires =
        timerBucket (sys.state.timer p).expires
    · simp [hb, ht]
    · simp [Function.update_of_ne hb, ht]

theorem delTimer_ok
    {fuel : Nat}
    {r : Int}
    (hOk : sys.Ok lists)
    (hCall : delTimer fuel sys.state p = some (r, s')) :
    ∃ lists',
      TimerSys.Ok ⟨s', fun t => sys.pending t ∧ t ≠ p⟩
        lists' := by
  rcases delTimer_spec hOk.held hCall with
    ⟨hIn, _, hSpec⟩ | ⟨hOut, _, rfl⟩
  · refine ⟨_, hSpec.held, ?_⟩
    intro t
    have hNodup := hOk.held.nodup
      (timerBucket (sys.state.timer p).expires)
    by_cases ht : t = p
    · subst ht
      have hExp : (s'.timer t).expires =
          (sys.state.timer t).expires := by
        have hEq := congrArg Timer.expires hSpec.self
        exact hEq
      rw [hExp]
      simp [hNodup.not_mem_erase]
    · have hExp : (s'.timer t).expires =
          (sys.state.timer t).expires :=
        (Timer.fields_of_unlinked (hSpec.other t ht)).1
      rw [hExp]
      simp only [hOk.mem, ne_eq, ht, not_false_eq_true, and_true]
      by_cases hb : timerBucket (sys.state.timer t).expires =
          timerBucket (sys.state.timer p).expires
      · rw [hb, Function.update_self, hNodup.mem_erase_iff]
        simp [ht]
      · rw [Function.update_of_ne hb]
  · refine ⟨lists, hOk.held, ?_⟩
    intro t
    by_cases ht : t = p
    · subst ht
      simp [hOut]
    · simp [ht, hOk.mem]

variable {lists' : TimerBucket → List Addr}
variable {s₁ : TimerState}

/- What the run due bucket says of a timer. -/
theorem ExpireSpec.rearms_iff
    (hSpec : ExpireSpec s₁ lists s' lists')
    (hTimer : s₁.timer = s.timer)
    (hRan : s₁.ran = s.ran)
    (t : Addr) :
    (∀ e ∈ newRuns s s', e.timer = t → e.record.Rearms) ↔
      (t ∈ lists s₁.dueBucket → (s.timer t).Rearms) := by
  rw [newRuns_eq (hRan ▸ hSpec.ran), hTimer]
  constructor
  · intro hAll ht
    exact hAll ⟨s₁.jiffies, t, s.timer t⟩
      (List.mem_reverse.mpr (List.mem_map_of_mem ht)) rfl
  · intro hDue e he hEq
    simp only [List.mem_reverse, List.mem_map] at he
    rcases he with ⟨q, hq, rfl⟩
    have hq' : q = t := hEq
    subst hq'
    exact hDue hq

/- Running the due bucket keeps record and wheel together. -/
theorem ExpireSpec.ok
    (hSpec : ExpireSpec s₁ lists s' lists')
    (hOk : sys.Ok lists)
    (hTimer : s₁.timer = sys.state.timer)
    (hRan : s₁.ran = sys.state.ran) :
    TimerSys.Ok
      ⟨s', fun t => sys.pending t ∧
        ∀ e ∈ newRuns sys.state s', e.timer = t →
          e.record.Rearms⟩ lists' where
  held := hSpec.held
  mem t := by
    have hRuns := hSpec.rearms_iff hTimer hRan t
    simp only [hRuns, hOk.mem, hSpec.mem]
    by_cases ht : t ∈ lists s₁.dueBucket
    · have hExp : (s'.timer t).expires =
          (s₁.timer t).afterRun.expires :=
        (Timer.fields_of_unlinked (hSpec.self t ht)).1
      have hIn : t ∈
          lists (timerBucket (sys.state.timer t).expires) :=
        (hOk.held.mem_iff.mp ht).2
      rw [hExp, hTimer]
      simp only [hIn, ht, true_and, forall_true_left, and_true]
      constructor
      · exact Or.inr
      · rintro (⟨hHere, hNe⟩ | hRearm)
        · have hSame := (hOk.held.mem_iff.mp hHere).1
          have hDue := (hOk.held.mem_iff.mp ht).1
          exact absurd (hSame.symm.trans hDue) hNe
        · exact hRearm
    · have hExp : (s'.timer t).expires =
          (sys.state.timer t).expires := by
        have hEq := congrArg Timer.expires (hSpec.other t ht)
        rw [← hTimer]
        exact hEq
      rw [hExp]
      simp only [ht, false_implies, and_true, false_and, or_false]
      constructor
      · intro hIn
        refine ⟨hIn, ?_⟩
        intro hb
        rw [hb] at hIn
        exact ht hIn
      · exact And.left

/- Who is run has its expiry behind it. -/
theorem ExpireSpec.notEarly
    (hSpec : ExpireSpec s₁ lists s' lists')
    (hHeld : s₁.Held lists)
    (hRan : s₁.ran = s.ran)
    (hEarly : s.NotEarly) :
    s'.NotEarly := by
  intro e he
  rw [hSpec.ran, hRan, List.mem_append] at he
  rcases he with hNew | hOld
  · simp only [List.mem_reverse, List.mem_map] at hNew
    rcases hNew with ⟨t, ht, rfl⟩
    exact (expires_le_of_lvl1 (hHeld.placed _ t ht)).1
  · exact hEarly e hOld

variable {call : TimerCall}

/- One call keeps record and wheel together. -/
theorem timerStep_ok
    (hOk : ∃ lists, sys.Ok lists)
    (hKeeps : KeepsPending sys call)
    (hStep : timerStep sys call sys') :
    ∃ lists, sys'.Ok lists := by
  rcases hOk with ⟨lists, hOk⟩
  rcases sys' with ⟨s', pending'⟩
  rcases hStep with ⟨⟨fuel, hCall⟩, hPending⟩
  simp only at hCall hPending
  subst hPending
  cases call with
  | init p =>
      cases hCall
      exact ⟨lists, hOk.modifyTimer hKeeps _⟩
  | fill p expires period function data =>
      cases hCall
      exact ⟨lists, hOk.modifyTimer hKeeps _⟩
  | add p =>
      cases hCall
      exact addTimer_ok hOk hKeeps
  | del p =>
      simp only [timerCall, Option.map_eq_some_iff, Prod.exists,
        exists_eq_right] at hCall
      rcases hCall with ⟨r, hCall⟩
      exact delTimer_ok hOk hCall
  | tick =>
      rcases timerTick_spec hOk.held hCall with ⟨lists', hSpec⟩
      exact ⟨lists', hSpec.ok hOk rfl rfl⟩
  | run =>
      rcases runExpired_spec hOk.held hCall with ⟨lists', hSpec⟩
      exact ⟨lists', hSpec.ok hOk rfl rfl⟩

/- Only ticks and `run_timers` run timers. -/
theorem timerStep_ran
    (hStep : timerStep sys call sys')
    (hTick : call ≠ .tick)
    (hRun : call ≠ .run) :
    sys'.state.ran = sys.state.ran := by
  rcases sys' with ⟨s', pending'⟩
  rcases hStep with ⟨⟨fuel, hCall⟩, _⟩
  cases call with
  | init p =>
      cases hCall
      rfl
  | fill p expires period function data =>
      cases hCall
      rfl
  | add p =>
      cases hCall
      rfl
  | del p =>
      simp only [timerCall, Option.map_eq_some_iff, Prod.exists,
        exists_eq_right] at hCall
      rcases hCall with ⟨r, hCall⟩
      exact delTimer_ran hCall
  | tick => exact absurd rfl hTick
  | run => exact absurd rfl hRun

theorem timerStep_notEarly
    (hOk : ∃ lists, sys.Ok lists)
    (hEarly : sys.state.NotEarly)
    (hStep : timerStep sys call sys') :
    sys'.state.NotEarly := by
  rcases hOk with ⟨lists, hOk⟩
  by_cases hTick : call = .tick
  · subst hTick
    rcases hStep with ⟨⟨fuel, hCall⟩, _⟩
    rcases timerTick_spec hOk.held hCall with ⟨lists', hSpec⟩
    exact hSpec.notEarly hOk.held rfl hEarly
  · by_cases hRun : call = .run
    · subst hRun
      rcases hStep with ⟨⟨fuel, hCall⟩, _⟩
      rcases runExpired_spec hOk.held hCall with
        ⟨lists', hSpec⟩
      exact hSpec.notEarly hOk.held rfl hEarly
    · unfold TimerState.NotEarly
      rw [timerStep_ran hStep hTick hRun]
      exact hEarly

end Steps

--------------------
-- Runs
--------------------

section Runs

variable {sys₀ sys : TimerSys}
variable {calls : List TimerCall}

theorem TimerSys.Started.ok
    (hStart : sys.Started) :
    (∃ lists, sys.Ok lists) ∧ sys.state.NotEarly := by
  rcases hStart with ⟨s, hRan, rfl⟩
  constructor
  · refine ⟨fun _ => [], ⟨?_, ?_⟩⟩
    · exact ⟨fun _ => rfl, by simp, by simp⟩
    · simp
  · intro e he
    have hNone : (timerWheelInit s).ran = [] := hRan
    simp [hNone] at he

theorem timerRun_ok
    (hStart : sys₀.Started)
    (hRun : Run (Guarded KeepsPending timerStep) sys₀ calls
      sys) :
    (∃ lists, sys.Ok lists) ∧ sys.state.NotEarly :=
  hRun.invariant
    (fun sys => (∃ lists, sys.Ok lists) ∧ sys.state.NotEarly)
    (by
      rintro sys call sys' ⟨hOk, hEarly⟩ ⟨hKeeps, hStep⟩
      exact ⟨timerStep_ok hOk hKeeps hStep,
        timerStep_notEarly hOk hEarly hStep⟩)
    hStart.ok

theorem TimerSys.Ok.inPlace
    {lists : TimerBucket → List Addr}
    (hOk : sys.Ok lists) :
    sys.InPlace lists where
  chain := hOk.held.chain
  once := hOk.held.nodup
  place b t := by
    rw [hOk.mem, hOk.held.mem_iff]
    constructor
    · exact fun hIn => ⟨hIn.2, hIn.1.symm⟩
    · exact fun hIn => ⟨hIn.2.symm, hIn.1⟩

theorem TimerSys.Ok.deletes
    {lists : TimerBucket → List Addr}
    (hOk : sys.Ok lists)
    (t : Addr) :
    sys.Deletes lists t where
  returns := ⟨_, delTimer_returns hOk.held
    (Nat.lt_succ_self _)⟩
  pending fuel r s hIn hCall := by
    rcases delTimer_spec hOk.held hCall with
      ⟨_, hAnswer, hSpec⟩ | ⟨hOut, _, _⟩
    · refine ⟨hAnswer, ?_⟩
      intro b
      have hChain := hSpec.held.chain b
      rw [Function.update_apply] at hChain
      by_cases hb :
          b = timerBucket (sys.state.timer t).expires
      · subst hb
        simpa using hChain
      · simpa [hb] using hChain
    · exact absurd ((hOk.mem t).mp hIn) hOut
  other fuel r s hOut hCall := by
    rcases delTimer_spec hOk.held hCall with
      ⟨hIn, _, _⟩ | ⟨_, hAnswer, hSame⟩
    · exact absurd ((hOk.mem t).mpr hIn) hOut
    · exact ⟨hAnswer, hSame⟩

end Runs

def timerA : Addr := 0x1000

/- No timer in use, at any time of the clock. -/
def TimerSys.boot (jiffies : U64) : TimerSys where
  state :=
    timerWheelInit
      { jiffies := jiffies
        uptimeTicks := 0#64
        uptimeMs := 0#64
        stats := ⟨0#64, 0#64, 0#64, 0#64⟩
        timer := fun _ => ⟨none, 0#64, 0#64, none, 0#64, 0#32⟩
        wheel := fun _ => none
        ran := [] }
  pending := fun _ => False

theorem TimerSys.boot_started
    (jiffies : U64) :
    (TimerSys.boot jiffies).Started :=
  ⟨_, rfl, rfl⟩

def timerB : Addr := 0x2000

/- One callback is due at the first tick, another later. -/
def timerSoon : List TimerCall :=
  [.fill timerA 1#64 0#64 (some 0x5000) 7#64,
    .fill timerB 300#64 0#64 (some 0x5000) 8#64,
    .add timerA, .add timerB, .tick]

/- The first timer is run at that tick, the other waits. -/
theorem timerSoon_run :
    ∃ sys, Run (Guarded KeepsPending timerStep)
        (TimerSys.boot 0#64) timerSoon sys ∧
      sys.state.ran =
        [⟨1#64, timerA,
          ⟨none, 1#64, 0#64, some 0x5000, 7#64, 0#32⟩⟩] ∧
      sys.pending timerB := by
  have hEnd :
      (timerSoon.foldlM (timerCall 2)
        (TimerSys.boot 0#64).state).map TimerState.ran =
      some
        [⟨1#64, timerA,
          ⟨none, 1#64, 0#64, some 0x5000, 7#64, 0#32⟩⟩] := by
    decide +kernel
  rcases Option.map_eq_some_iff.mp hEnd with ⟨s, hCalls, hRan⟩
  simp only [timerSoon, List.foldlM_cons, List.foldlM_nil,
    bind_pure, Option.bind_eq_bind, Option.bind_eq_some_iff]
    at hCalls
  rcases hCalls with
    ⟨s₁, hFirst, s₂, hSecond, s₃, hAdd, s₄, hMore, hTick⟩
  let sys₁ : TimerSys := ⟨s₁, fun _ => False⟩
  let sys₂ : TimerSys := ⟨s₂, fun _ => False⟩
  let sys₃ : TimerSys := ⟨s₃, fun t => False ∨ t = timerA⟩
  let sys₄ : TimerSys := ⟨s₄, fun t => sys₃.pending t ∨ t = timerB⟩
  have hFree : ¬ sys₃.pending timerB := by
    rintro (hNo | hEq)
    · exact hNo
    · cases hEq
  refine ⟨⟨_, pendingAfter sys₄.pending s₄ s .tick⟩, ?_, hRan, ?_⟩
  · exact .cons (t := sys₁) ⟨id, ⟨2, hFirst⟩, rfl⟩
      (.cons (t := sys₂) ⟨id, ⟨2, hSecond⟩, rfl⟩
        (.cons (t := sys₃) ⟨id, ⟨2, hAdd⟩, rfl⟩
          (.cons (t := sys₄) ⟨hFree, ⟨2, hMore⟩, rfl⟩
            (.cons ⟨trivial, ⟨2, hTick⟩, rfl⟩ (.nil _)))))
  · refine ⟨Or.inr rfl, fun e hIn hEq => ?_⟩
    have hMem := List.mem_of_mem_take hIn
    rw [hRan, List.mem_singleton] at hMem
    subst hMem
    cases hEq

section Runs

variable {sys₀ sys : TimerSys}
variable {calls : List TimerCall}

/- Every pending timer is in its bucket and can be deleted. -/
theorem timerRun_inPlace
    (hStart : sys₀.Started)
    (hRun : Run (Guarded KeepsPending timerStep) sys₀ calls
      sys) :
    ∃ lists, sys.InPlace lists ∧ ∀ t, sys.Deletes lists t := by
  rcases (timerRun_ok hStart hRun).1 with ⟨lists, hOk⟩
  exact ⟨lists, hOk.inPlace, hOk.deletes⟩

theorem timerRun_inPlace_soon :
    ∃ sys lists,
      Run (Guarded KeepsPending timerStep)
          (TimerSys.boot 0#64) timerSoon sys ∧
        sys.pending timerB ∧ sys.InPlace lists ∧
        ∀ t, sys.Deletes lists t := by
  rcases timerSoon_run with ⟨sys, hRun, _, hWaits⟩
  rcases timerRun_inPlace (TimerSys.boot_started 0#64) hRun with
    ⟨lists, hPlaces⟩
  exact ⟨sys, lists, hRun, hWaits, hPlaces⟩

/- No timer is run, by whatever call, before its expiry. -/
theorem timerRun_notEarly
    (hStart : sys₀.Started)
    (hRun : Run (Guarded KeepsPending timerStep) sys₀ calls
      sys) :
    sys.state.NotEarly :=
  (timerRun_ok hStart hRun).2

end Runs

theorem timerRun_notEarly_soon :
    ∃ sys, Run (Guarded KeepsPending timerStep)
          (TimerSys.boot 0#64) timerSoon sys ∧
        sys.state.ran ≠ [] ∧ sys.state.NotEarly := by
  rcases timerSoon_run with ⟨sys, hRun, hRan, _⟩
  refine ⟨sys, hRun, ?_,
    timerRun_notEarly (TimerSys.boot_started 0#64) hRun⟩
  rw [hRan]
  simp

end FeatherOS
