import FeatherOS.Library.Buckets
import FeatherOS.Timer.Model
import Mathlib.Data.List.Induction

/-
  The timer wheel as lists of timers.

  Every bucket is a chain of timers whose expiry selects that
  bucket. The loops over a list that has been taken off the
  wheel go through it once, from its first timer on.

  Key definitions include:
    * `TimerState.Held`

  Key theorems include:
    * `timerLoop_eq`
    * `runExpired_held`
    * `cascadeLvl2_held`
    * `delTimer_spec`
-/

namespace FeatherOS

--------------------
-- Records And Heads
--------------------

/- A record without its link. -/
def Timer.unlinked (t : Timer) : Timer :=
  { t with next := none }

/- Records that differ in their link only. -/
theorem Timer.fields_of_unlinked
    {a c : Timer}
    (hSame : a.unlinked = c.unlinked) :
    a.expires = c.expires ∧ a.period = c.period ∧
      a.flags = c.flags := by
  have hExp := congrArg Timer.expires hSame
  have hPeriod := congrArg Timer.period hSame
  have hFlags := congrArg Timer.flags hSame
  exact ⟨hExp, hPeriod, hFlags⟩

namespace TimerState

@[simp] theorem timer_modifyTimer
    (s : TimerState)
    (p q : Addr)
    (f : Timer → Timer) :
    (s.modifyTimer p f).timer q =
      if q = p then f (s.timer p) else s.timer q := by
  simp [modifyTimer, Function.update_apply]

@[simp] theorem wheel_modifyTimer
    (s : TimerState)
    (p : Addr)
    (f : Timer → Timer) :
    (s.modifyTimer p f).wheel = s.wheel := rfl

@[simp] theorem timer_setHead
    (s : TimerState)
    (b : TimerBucket)
    (v : Option Addr) :
    (s.setHead b v).timer = s.timer := rfl

@[simp] theorem wheel_setHead
    (s : TimerState)
    (b c : TimerBucket)
    (v : Option Addr) :
    (s.setHead b v).wheel c = if c = b then v else s.wheel c := by
  simp [setHead, Function.update_apply]

/- The buckets hold the lists. -/
def Held
    (s : TimerState)
    (lists : TimerBucket → List Addr) : Prop :=
  Buckets (fun t => (s.timer t).next) s.wheel
    (fun t => timerBucket (s.timer t).expires) lists

variable {lists : TimerBucket → List Addr}

/- Only the wheel and the records of its timers matter. -/
theorem Held.congr
    {s s' : TimerState}
    (hHeld : s.Held lists)
    (hWheel : s'.wheel = s.wheel)
    (hTimer : ∀ b, ∀ t ∈ lists b, s'.timer t = s.timer t) :
    s'.Held lists := by
  apply Buckets.congr hHeld
  · intro b t ht
    rw [hTimer b t ht]
  · intro b
    rw [hWheel]
  · intro b t ht
    rw [hTimer b t ht]

/- A timer off the wheel may be changed. -/
theorem Held.modifyTimer
    {s : TimerState}
    {p : Addr}
    (hHeld : s.Held lists)
    (hOut : ∀ b, p ∉ lists b)
    (f : Timer → Timer) :
    (s.modifyTimer p f).Held lists := by
  refine TimerState.Held.congr hHeld (wheel_modifyTimer s p f) ?_
  intro b t ht
  have hNe : t ≠ p := by
    rintro rfl
    exact hOut b ht
  simp [hNe]

end TimerState

open TimerState

section Wheel

variable {s s' : TimerState}
variable {lists : TimerBucket → List Addr}
variable {p q : Addr}
variable {fuel : Nat}

--------------------
-- Adding
--------------------

/- A timer off the wheel comes first in its bucket. -/
theorem addTimerBucket_held
    (hHeld : s.Held lists)
    (hOut : ∀ b, p ∉ lists b) :
    (addTimerBucket s p).Held
      (Function.update lists
        (timerBucket (s.timer p).expires)
        (p :: lists (timerBucket (s.timer p).expires))) := by
  have hMid := hHeld.modifyTimer hOut
    fun t => { t with next := s.wheel (timerBucket t.expires) }
  apply Buckets.push hMid hOut
  · simp
  · simp [addTimerBucket]
  · intro b hb
    simp [addTimerBucket, hb]
  · simp [addTimerBucket]
  · intro t ht
    simp [addTimerBucket, ht]

@[simp] theorem addTimerBucket_jiffies
    (s : TimerState)
    (p : Addr) :
    (addTimerBucket s p).jiffies = s.jiffies := rfl

@[simp] theorem addTimerBucket_ran
    (s : TimerState)
    (p : Addr) :
    (addTimerBucket s p).ran = s.ran := rfl

theorem addTimerBucket_unlinked
    (s : TimerState)
    (p q : Addr) :
    ((addTimerBucket s p).timer q).unlinked =
      (s.timer q).unlinked := by
  by_cases hq : q = p
  · simp [addTimerBucket, Timer.unlinked, hq]
  · simp [addTimerBucket, hq]

theorem addTimerBucket_other
    (hq : q ≠ p) :
    (addTimerBucket s p).timer q = s.timer q := by
  simp [addTimerBucket, hq]

--------------------
-- Running One Timer
--------------------

/- The record of a timer after it has been run. -/
def Timer.afterRun (t : Timer) : Timer :=
  if t.Rearms then { t with expires := t.expires + t.period }
  else t

theorem runTimer_other
    (hq : q ≠ p) :
    (runTimer s p).timer q = s.timer q := by
  unfold runTimer
  by_cases hRearm : (s.timer p).Rearms
  · simp only [hRearm, if_true]
    rw [addTimerBucket_other hq]
    simp [hq]
  · simp only [hRearm, if_false]

theorem runTimer_self
    (s : TimerState)
    (p : Addr) :
    ((runTimer s p).timer p).unlinked =
      (s.timer p).afterRun.unlinked := by
  unfold runTimer Timer.afterRun
  by_cases hRearm : (s.timer p).Rearms
  · simp only [hRearm, if_true, addTimerBucket_unlinked]
    simp
  · simp only [hRearm, if_false]

theorem runTimer_log
    (s : TimerState)
    (p : Addr) :
    (runTimer s p).jiffies = s.jiffies ∧
      (runTimer s p).ran =
        ⟨s.jiffies, p, s.timer p⟩ :: s.ran := by
  by_cases hRearm : (s.timer p).Rearms
  · simp [runTimer, hRearm, TimerState.modifyTimer]
  · simp [runTimer, hRearm]

/- A periodic timer goes to the bucket of its next expiry. -/
theorem runTimer_held
    (hHeld : s.Held lists)
    (hOut : ∀ b, p ∉ lists b) :
    ∃ lists' : TimerBucket → List Addr,
      (runTimer s p).Held lists' ∧
      ∀ b t, t ∈ lists' b ↔ t ∈ lists b ∨
        t = p ∧ (s.timer p).Rearms ∧
          timerBucket (s.timer p).afterRun.expires = b := by
  unfold runTimer
  generalize hLog :
    { s with
      ran := ⟨s.jiffies, p, s.timer p⟩ :: s.ran
      stats :=
        { s.stats with
          timersExpired := s.stats.timersExpired + 1#64 } } = s₁
  have hTimer : s₁.timer = s.timer := by rw [← hLog]
  have hWheel : s₁.wheel = s.wheel := by rw [← hLog]
  have hHeld₁ : s₁.Held lists :=
    hHeld.congr hWheel fun _ _ _ => by rw [hTimer]
  by_cases hRearm : (s.timer p).Rearms
  · have hSet := hHeld₁.modifyTimer hOut
      fun t => { t with expires := t.expires + t.period }
    have hPush := addTimerBucket_held hSet hOut
    simp only [hTimer, hRearm, if_true]
    refine ⟨_, hPush, ?_⟩
    have hExp :
        ((s₁.modifyTimer p fun t =>
          { t with expires := t.expires + t.period }).timer
            p).expires = (s.timer p).afterRun.expires := by
      simp [Timer.afterRun, hTimer, hRearm]
    rw [hExp]
    intro b t
    by_cases hb : b = timerBucket (s.timer p).afterRun.expires
    · subst hb
      simp [or_comm]
    · simp [Function.update_of_ne hb, Ne.symm hb]
  · simp only [hTimer, hRearm, if_false]
    exact ⟨lists, hHeld₁, fun b t => by simp⟩

--------------------
-- Loops Over A List
--------------------

variable {cells : List Addr}
variable {handle : TimerState → Addr → TimerState}
variable {head : Option Addr}

/-
  A loop that handles one timer at a time, without touching
  the links of the others, goes through the whole list.
-/
theorem timerLoop_eq
    (fuel : Nat)
    (s : TimerState)
    (hKeep : ∀ s p q, q ≠ p →
      (handle s p).timer q = s.timer q)
    (hChain : Chain (fun t => (s.timer t).next) head cells)
    (hNodup : cells.Nodup) :
    timerLoop handle fuel s head =
      if cells.length < fuel then some (cells.foldl handle s)
      else none := by
  induction cells generalizing s head fuel with
  | nil =>
      have hNone : head = none := hChain
      subst hNone
      cases fuel with
      | zero => rfl
      | succ fuel => simp [timerLoop]
  | cons p cells ih =>
      rcases hChain with ⟨rfl, hRest⟩
      rw [List.nodup_cons] at hNodup
      cases fuel with
      | zero => rfl
      | succ fuel =>
          have hRest' :
              Chain (fun t => ((handle s p).timer t).next)
                (s.timer p).next cells := by
            apply hRest.congr
            intro q hq
            have hNe : q ≠ p := by
              rintro rfl
              exact hNodup.1 hq
            rw [hKeep s p q hNe]
          have hLoop := ih fuel _ hRest' hNodup.2
          simp only [timerLoop, hLoop, List.length_cons,
            List.foldl_cons, Nat.add_lt_add_iff_right]

variable {fuel' : Nat}

/- More turns than a loop needs change nothing. -/
theorem timerLoop_mono
    (hLe : fuel ≤ fuel')
    (hCall : timerLoop handle fuel s head = some s') :
    timerLoop handle fuel' s head = some s' := by
  induction fuel generalizing s head fuel' with
  | zero => simp [timerLoop] at hCall
  | succ fuel ih =>
      cases fuel' with
      | zero => omega
      | succ fuel' =>
          cases head with
          | none => exact hCall
          | some p =>
              simp only [timerLoop] at hCall ⊢
              exact ih (by omega) hCall

/- What running a list of timers off the wheel does. -/
structure RunSpec
    (s : TimerState)
    (lists : TimerBucket → List Addr)
    (cells : List Addr)
    (s' : TimerState)
    (lists' : TimerBucket → List Addr) : Prop where
  held : s'.Held lists'
  mem : ∀ b t, t ∈ lists' b ↔ t ∈ lists b ∨
    t ∈ cells ∧ (s.timer t).Rearms ∧
      timerBucket (s.timer t).afterRun.expires = b
  jiffies : s'.jiffies = s.jiffies
  ran : s'.ran =
    (cells.map fun t => ⟨s.jiffies, t, s.timer t⟩).reverse ++
      s.ran
  self : ∀ t ∈ cells, (s'.timer t).unlinked =
    (s.timer t).afterRun.unlinked
  other : ∀ t, t ∉ cells → s'.timer t = s.timer t

theorem foldl_runTimer_spec
    (hHeld : s.Held lists)
    (hNodup : cells.Nodup)
    (hOut : ∀ t ∈ cells, ∀ b, t ∉ lists b) :
    ∃ lists', RunSpec s lists cells (cells.foldl runTimer s)
      lists' := by
  induction cells generalizing s lists with
  | nil =>
      exact ⟨lists, hHeld, by simp, rfl, rfl, by simp,
        fun _ _ => rfl⟩
  | cons p cells ih =>
      rw [List.nodup_cons] at hNodup
      rcases runTimer_held hHeld (hOut p (by simp)) with
        ⟨lists₁, hHeld₁, hMem₁⟩
      have hNe : ∀ t ∈ cells, t ≠ p := by
        rintro t ht rfl
        exact hNodup.1 ht
      have hOut₁ : ∀ t ∈ cells, ∀ b, t ∉ lists₁ b := by
        intro t ht b hIn
        rcases (hMem₁ b t).mp hIn with hOld | ⟨hEq, _⟩
        · exact hOut t (by simp [ht]) b hOld
        · exact hNe t ht hEq
      rcases ih hHeld₁ hNodup.2 hOut₁ with ⟨lists', hSpec⟩
      rcases runTimer_log s p with ⟨hJiffies, hRan⟩
      refine ⟨lists', hSpec.held, ?_, ?_, ?_, ?_, ?_⟩
      · intro b t
        rw [hSpec.mem, hMem₁]
        by_cases ht : t = p
        · subst ht
          simp [hNodup.1]
        · rw [runTimer_other ht]
          simp [ht]
      · exact hSpec.jiffies.trans hJiffies
      · have hMap :
            (cells.map fun t =>
                (⟨(runTimer s p).jiffies, t,
                  (runTimer s p).timer t⟩ : TimerRun)) =
              cells.map fun t => ⟨s.jiffies, t, s.timer t⟩ := by
          apply List.map_congr_left
          intro t ht
          rw [hJiffies, runTimer_other (hNe t ht)]
        rw [List.foldl_cons, hSpec.ran, hMap, hRan]
        simp
      · intro t ht
        rw [List.mem_cons] at ht
        by_cases hp : t = p
        · subst hp
          rw [List.foldl_cons, hSpec.other t hNodup.1]
          exact runTimer_self s t
        · have hIn := ht.resolve_left hp
          rw [List.foldl_cons, hSpec.self t hIn,
            runTimer_other hp]
      · intro t ht
        rw [List.mem_cons, not_or] at ht
        rw [List.foldl_cons, hSpec.other t ht.2,
          runTimer_other ht.1]

/- Putting a list back leaves every timer in its bucket. -/
theorem foldl_addTimerBucket_spec
    (hHeld : s.Held lists)
    (hNodup : cells.Nodup)
    (hOut : ∀ t ∈ cells, ∀ b, t ∉ lists b) :
    ∃ lists', (cells.foldl addTimerBucket s).Held lists' ∧
      (∀ b t, t ∈ lists' b ↔ t ∈ lists b ∨
        t ∈ cells ∧ timerBucket (s.timer t).expires = b) ∧
      (cells.foldl addTimerBucket s).jiffies = s.jiffies ∧
      (cells.foldl addTimerBucket s).ran = s.ran ∧
      ∀ t, ((cells.foldl addTimerBucket s).timer t).unlinked =
        (s.timer t).unlinked := by
  induction cells generalizing s lists with
  | nil =>
      exact ⟨lists, hHeld, by simp, rfl, rfl, fun _ => rfl⟩
  | cons p cells ih =>
      rw [List.nodup_cons] at hNodup
      have hHeld₁ := addTimerBucket_held hHeld
        (hOut p (by simp))
      have hMem₁ : ∀ b t,
          t ∈ Function.update lists
              (timerBucket (s.timer p).expires)
              (p :: lists (timerBucket (s.timer p).expires)) b ↔
            t ∈ lists b ∨
              t = p ∧ timerBucket (s.timer p).expires = b := by
        intro b t
        by_cases hb : b = timerBucket (s.timer p).expires
        · subst hb
          simp [or_comm]
        · simp [Function.update_of_ne hb, Ne.symm hb]
      have hNe : ∀ t ∈ cells, t ≠ p := by
        rintro t ht rfl
        exact hNodup.1 ht
      have hOut₁ : ∀ t ∈ cells, ∀ b,
          t ∉ Function.update lists
            (timerBucket (s.timer p).expires)
            (p :: lists (timerBucket (s.timer p).expires)) b := by
        intro t ht b hIn
        rcases (hMem₁ b t).mp hIn with hOld | ⟨hEq, _⟩
        · exact hOut t (by simp [ht]) b hOld
        · exact hNe t ht hEq
      rcases ih hHeld₁ hNodup.2 hOut₁ with
        ⟨lists', hHeld', hMem', hJiffies, hRan, hRest⟩
      refine ⟨lists', hHeld', ?_, hJiffies, hRan, ?_⟩
      · intro b t
        rw [hMem', hMem₁]
        by_cases ht : t = p
        · subst ht
          simp [hNodup.1]
        · rw [addTimerBucket_other ht]
          simp [ht]
      · intro t
        rw [List.foldl_cons, hRest t, addTimerBucket_unlinked]

--------------------
-- The Due Bucket And The Cascade
--------------------

/- The bucket of the first level that the clock points to. -/
def TimerState.dueBucket (s : TimerState) : TimerBucket :=
  (.lvl1, s.jiffies &&& timerWheelMask)

/- The timers of the due bucket are run, from its head on. -/
theorem runExpired_eq
    (fuel : Nat)
    (hHeld : s.Held lists) :
    (lists s.dueBucket = [] ∧ runExpired fuel s = some s) ∨
      runExpired fuel s =
        if (lists s.dueBucket).length < fuel then
          some
            ((lists s.dueBucket).foldl runTimer
              (s.setHead s.dueBucket none))
        else none := by
  have hChain := hHeld.chain s.dueBucket
  unfold runExpired
  cases hHead : s.wheel s.dueBucket with
  | none =>
      left
      constructor
      · cases hList : lists s.dueBucket with
        | nil => rfl
        | cons p cells =>
            rw [hList, hHead] at hChain
            cases hChain.1
      · unfold TimerState.dueBucket at hHead
        simp only [hHead]
  | some p =>
      right
      unfold TimerState.dueBucket at hHead hChain ⊢
      simp only [hHead, runTimerList]
      rw [hHead] at hChain
      have hLoop :=
        timerLoop_eq fuel
          (s.setHead
            (.lvl1, s.jiffies &&& timerWheelMask) none)
          (fun s p q hq => runTimer_other (s := s) hq) hChain
          (hHeld.nodup _)
      exact hLoop

theorem runExpired_held
    (hHeld : s.Held lists)
    (hCall : runExpired fuel s = some s') :
    ∃ lists',
      RunSpec s (Function.update lists s.dueBucket [])
        (lists s.dueBucket) s' lists' := by
  have hTake :
      (s.setHead s.dueBucket none).Held
        (Function.update lists s.dueBucket []) := by
    apply Buckets.take hHeld
    · simp
    · intro b hb
      simp [hb]
  have hOut : ∀ t ∈ lists s.dueBucket, ∀ b,
      t ∉ Function.update lists s.dueBucket [] b := by
    intro t ht b hIn
    by_cases hb : b = s.dueBucket
    · subst hb
      simp at hIn
    · rw [Function.update_of_ne hb] at hIn
      apply hb
      have hHere := hHeld.placed b t hIn
      have hDue := hHeld.placed _ t ht
      exact hHere.symm.trans hDue
  rcases runExpired_eq fuel hHeld with
    ⟨hNil, hRun⟩ | hRun
  · rw [hRun, Option.some.injEq] at hCall
    subst hCall
    have hSame : Function.update lists s.dueBucket [] = lists := by
      rw [← hNil, Function.update_eq_self]
    rw [hSame, hNil]
    exact ⟨lists, hHeld, by simp, rfl, rfl, by simp,
      fun _ _ => rfl⟩
  · rw [hRun] at hCall
    split at hCall
    · cases hCall
      rcases foldl_runTimer_spec hTake (hHeld.nodup _) hOut with
        ⟨lists', hSpec⟩
      exact ⟨lists', hSpec.held, hSpec.mem, hSpec.jiffies,
        hSpec.ran, hSpec.self, hSpec.other⟩
    · cases hCall

theorem runExpired_returns
    (hHeld : s.Held lists)
    (hFuel : (lists s.dueBucket).length < fuel) :
    ∃ s', runExpired fuel s = some s' := by
  rcases runExpired_eq fuel hHeld with
    ⟨_, hRun⟩ | hRun
  · exact ⟨s, hRun⟩
  · rw [if_pos hFuel] at hRun
    exact ⟨_, hRun⟩

theorem runExpired_mono
    (hLe : fuel ≤ fuel')
    (hCall : runExpired fuel s = some s') :
    runExpired fuel' s = some s' := by
  unfold runExpired at hCall ⊢
  cases hHead : s.wheel (.lvl1, s.jiffies &&& timerWheelMask) with
  | none =>
      simp only [hHead] at hCall ⊢
      exact hCall
  | some p =>
      simp only [hHead, runTimerList] at hCall ⊢
      exact timerLoop_mono hLe hCall

/- The bucket of the second level that is moved. -/
def TimerState.cascadeBucket (s : TimerState) : TimerBucket :=
  (.lvl2, (s.jiffies >>> timerWheelBits) &&& timerWheelMask)

/- Either nothing is moved or the whole bucket is. -/
theorem cascadeLvl2_eq
    (fuel : Nat)
    (hHeld : s.Held lists) :
    cascadeLvl2 fuel s = some s ∨
      cascadeLvl2 fuel s =
        if (lists s.cascadeBucket).length < fuel then
          some
            ((lists s.cascadeBucket).foldl addTimerBucket
              (s.setHead s.cascadeBucket none))
        else none := by
  have hChain := hHeld.chain s.cascadeBucket
  unfold cascadeLvl2
  by_cases hTurn :
      s.jiffies &&& (timerWheelSize - 1#64) = 0#64
  · cases hHead : s.wheel s.cascadeBucket with
    | none =>
        left
        unfold TimerState.cascadeBucket at hHead
        simp only [hTurn, if_true, hHead]
    | some p =>
        right
        unfold TimerState.cascadeBucket at hHead hChain ⊢
        simp only [hTurn, if_true, hHead]
        rw [hHead] at hChain
        have hLoop :=
          timerLoop_eq fuel
            (s.setHead
              (.lvl2,
                (s.jiffies >>> timerWheelBits) &&&
                  timerWheelMask) none)
            (fun s p q hq => addTimerBucket_other (s := s) hq)
            hChain (hHeld.nodup _)
        exact hLoop
  · left
    simp only [hTurn, if_false]

/- The cascade leaves every timer in its bucket. -/
theorem cascadeLvl2_held
    (hHeld : s.Held lists)
    (hCall : cascadeLvl2 fuel s = some s') :
    ∃ lists', s'.Held lists' ∧
      (∀ b t, t ∈ lists' b ↔ t ∈ lists b) ∧
      s'.jiffies = s.jiffies ∧ s'.ran = s.ran ∧
      ∀ t, (s'.timer t).unlinked = (s.timer t).unlinked := by
  rcases cascadeLvl2_eq fuel hHeld with hRun | hRun
  · rw [hRun, Option.some.injEq] at hCall
    subst hCall
    exact ⟨lists, hHeld, fun _ _ => Iff.rfl, rfl, rfl,
      fun _ => rfl⟩
  · rw [hRun] at hCall
    split at hCall
    · cases hCall
      have hTake :
          (s.setHead s.cascadeBucket none).Held
            (Function.update lists s.cascadeBucket []) := by
        apply Buckets.take hHeld
        · simp
        · intro b hb
          simp [hb]
      have hOut : ∀ t ∈ lists s.cascadeBucket, ∀ b,
          t ∉ Function.update lists s.cascadeBucket [] b := by
        intro t ht b hIn
        by_cases hb : b = s.cascadeBucket
        · subst hb
          simp at hIn
        · rw [Function.update_of_ne hb] at hIn
          apply hb
          have hHere := hHeld.placed b t hIn
          have hDue := hHeld.placed _ t ht
          exact hHere.symm.trans hDue
      rcases foldl_addTimerBucket_spec hTake (hHeld.nodup _)
          hOut with
        ⟨lists', hHeld', hMem, hJiffies, hRan, hRest⟩
      refine ⟨lists', hHeld', ?_, hJiffies, hRan, hRest⟩
      intro b t
      rw [hMem]
      by_cases hb : b = s.cascadeBucket
      · subst hb
        simp only [Function.update_self, List.not_mem_nil,
          false_or]
        constructor
        · exact fun hIn => hIn.1
        · exact fun hIn => ⟨hIn, hHeld.placed _ t hIn⟩
      · rw [Function.update_of_ne hb]
        constructor
        · rintro (hIn | ⟨hIn, hPlace⟩)
          · exact hIn
          · have hDue := hHeld.placed _ t hIn
            exact absurd (hPlace.symm.trans hDue) hb
        · exact Or.inl
    · cases hCall

theorem cascadeLvl2_returns
    (hHeld : s.Held lists)
    (hFuel : (lists s.cascadeBucket).length < fuel) :
    ∃ s', cascadeLvl2 fuel s = some s' := by
  rcases cascadeLvl2_eq fuel hHeld with hRun | hRun
  · exact ⟨s, hRun⟩
  · rw [if_pos hFuel] at hRun
    exact ⟨_, hRun⟩

theorem cascadeLvl2_mono
    (hLe : fuel ≤ fuel')
    (hCall : cascadeLvl2 fuel s = some s') :
    cascadeLvl2 fuel' s = some s' := by
  unfold cascadeLvl2 at hCall ⊢
  by_cases hTurn :
      s.jiffies &&& (timerWheelSize - 1#64) = 0#64
  · cases hHead :
        s.wheel
          (.lvl2,
            (s.jiffies >>> timerWheelBits) &&&
              timerWheelMask) with
    | none =>
        simp only [hTurn, if_true, hHead] at hCall ⊢
        exact hCall
    | some p =>
        simp only [hTurn, if_true, hHead] at hCall ⊢
        exact timerLoop_mono hLe hCall
  · simp only [hTurn, if_false] at hCall ⊢
    exact hCall

--------------------
-- Deleting
--------------------

/- The place the search is at, behind a part of the list. -/
def placeBehind
    (b : TimerBucket)
    (before : List Addr) :
    TimerLink :=
  match before.getLast? with
  | none => .head b
  | some q => .next q

variable {before rest after : List Addr}
variable {b : TimerBucket}

theorem link_placeBehind
    (hHeld : s.Held lists)
    (hList : lists b = before ++ rest) :
    s.link (placeBehind b before) = rest.head? := by
  have hChain := hHeld.chain b
  rw [hList] at hChain
  generalize s.wheel b = head at hChain
  have hBehind : ∀ (front : List Addr) (head : Option Addr)
      (q : Addr),
      Chain (fun t => (s.timer t).next) head
          (front ++ q :: rest) →
        (s.timer q).next = rest.head? := by
    intro front
    induction front with
    | nil => exact fun _ _ hHere => hHere.2.head_eq
    | cons x front ih => exact fun _ q hHere => ih _ q hHere.2
  cases before using List.reverseRecOn with
  | nil =>
      have hHead := (hHeld.chain b).head_eq
      rw [hList] at hHead
      exact hHead
  | append_singleton front q =>
      rw [List.append_assoc] at hChain
      simp only [placeBehind, List.getLast?_concat,
        TimerState.link]
      exact hBehind front head q hChain

/- One write takes the timer behind the place out. -/
theorem setLink_held
    (hHeld : s.Held lists)
    (hList : lists b = before ++ p :: after) :
    (s.setLink (s.timer p).next (placeBehind b before)).Held
        (Function.update lists b (before ++ after)) ∧
      ∀ t, ((s.setLink (s.timer p).next
          (placeBehind b before)).timer t).unlinked =
        (s.timer t).unlinked := by
  cases before using List.reverseRecOn with
  | nil =>
      refine ⟨?_, fun _ => rfl⟩
      apply Buckets.removeHead hHeld hList
      · simp [placeBehind, TimerState.setLink]
      · intro c hc
        simp [placeBehind, TimerState.setLink, hc]
  | append_singleton front q =>
      rw [List.append_assoc] at hList
      simp only [placeBehind, List.getLast?_concat,
        TimerState.setLink]
      have hExp : ∀ t,
          ((s.modifyTimer q fun t =>
            { t with next := (s.timer p).next }).timer t).expires =
            (s.timer t).expires := by
        intro t
        by_cases ht : t = q
        · simp [ht]
        · simp [ht]
      constructor
      · rw [List.append_assoc]
        unfold TimerState.Held
        simp only [hExp]
        apply Buckets.removeNext hHeld hList
        · simp
        · intro t ht
          simp [ht]
      · intro t
        by_cases ht : t = q
        · simp [Timer.unlinked, ht]
        · simp [ht]

/- What deleting a timer does. -/
structure DelSpec
    (s : TimerState)
    (lists : TimerBucket → List Addr)
    (p : Addr)
    (s' : TimerState) : Prop where
  held : s'.Held
    (Function.update lists (timerBucket (s.timer p).expires)
      ((lists (timerBucket (s.timer p).expires)).erase p))
  jiffies : s'.jiffies = s.jiffies
  ran : s'.ran = s.ran
  self : (s'.timer p).unlinked =
    { (s.timer p).unlinked with
      flags := (s.timer p).flags ||| timerFlagsExpired }
  other : ∀ t, t ≠ p →
    (s'.timer t).unlinked = (s.timer t).unlinked

@[simp] theorem setLink_log
    (s : TimerState)
    (v : Option Addr)
    (l : TimerLink) :
    (s.setLink v l).jiffies = s.jiffies ∧
      (s.setLink v l).ran = s.ran := by
  cases l with
  | head b => exact ⟨rfl, rfl⟩
  | next q => exact ⟨rfl, rfl⟩

/- The flag is set once the timer is off the wheel. -/
theorem delSpec_of_cut
    {s₁ : TimerState}
    (hHeld : s.Held lists)
    (hList : lists (timerBucket (s.timer p).expires) =
      before ++ p :: after)
    (hBefore : p ∉ before)
    (hCut : s₁.Held
      (Function.update lists (timerBucket (s.timer p).expires)
        (before ++ after)))
    (hRest : ∀ t, (s₁.timer t).unlinked =
      (s.timer t).unlinked)
    (hLog : s₁.jiffies = s.jiffies ∧ s₁.ran = s.ran) :
    DelSpec s lists p
      { s₁.modifyTimer p (fun t =>
          { t with flags := t.flags ||| timerFlagsExpired }) with
        stats :=
          { s₁.stats with
            timersDeleted := s₁.stats.timersDeleted + 1#64 } } := by
  have hErase :
      (lists (timerBucket (s.timer p).expires)).erase p =
        before ++ after := by
    rw [hList, List.erase_append_right _ hBefore,
      List.erase_cons_head]
  have hNodup := hHeld.nodup (timerBucket (s.timer p).expires)
  have hOut : ∀ b,
      p ∉ Function.update lists
        (timerBucket (s.timer p).expires)
        (before ++ after) b := by
    intro b hIn
    by_cases hb : b = timerBucket (s.timer p).expires
    · subst hb
      rw [Function.update_self, ← hErase] at hIn
      exact (hNodup.not_mem_erase) hIn
    · rw [Function.update_of_ne hb] at hIn
      exact hb (hHeld.placed b p hIn).symm
  have hFlags : (s₁.timer p).flags = (s.timer p).flags := by
    have hEq := congrArg Timer.flags (hRest p)
    exact hEq
  constructor
  · rw [hErase]
    have hSet := hCut.modifyTimer hOut fun t =>
      { t with flags := t.flags ||| timerFlagsExpired }
    exact hSet.congr rfl fun _ _ _ => rfl
  · exact hLog.1
  · exact hLog.2
  · rw [← hRest p, ← hFlags]
    simp [Timer.unlinked, TimerState.modifyTimer]
  · intro t ht
    rw [← hRest t]
    simp [TimerState.modifyTimer, ht]

/- The search goes on behind a part without the timer. -/
theorem delTimerLoop_spec
    (fuel : Nat)
    (hHeld : s.Held lists)
    (hList : lists (timerBucket (s.timer p).expires) =
      before ++ rest)
    (hBefore : p ∉ before) :
    (p ∉ rest →
      delTimerLoop p fuel s
          (placeBehind (timerBucket (s.timer p).expires) before) =
        if rest.length < fuel then some (0, s) else none) ∧
    (p ∈ rest → ∀ r s',
      delTimerLoop p fuel s
          (placeBehind (timerBucket (s.timer p).expires) before) =
        some (r, s') → r = 1 ∧ DelSpec s lists p s') ∧
    (rest.length < fuel → ∃ r s',
      delTimerLoop p fuel s
          (placeBehind (timerBucket (s.timer p).expires) before) =
        some (r, s')) := by
  induction rest generalizing before fuel with
  | nil =>
      cases fuel with
      | zero => simp [delTimerLoop]
      | succ fuel =>
          have hLink := link_placeBehind hHeld hList
          simp only [List.head?_nil] at hLink
          simp [delTimerLoop, hLink]
  | cons q rest ih =>
      cases fuel with
      | zero => simp [delTimerLoop]
      | succ fuel =>
          have hLink := link_placeBehind hHeld hList
          simp only [List.head?_cons] at hLink
          by_cases hq : q = p
          · subst hq
            simp only [delTimerLoop, hLink, if_true]
            refine ⟨fun hOut => absurd (by simp) hOut, ?_,
              fun _ => ⟨_, _, rfl⟩⟩
            rintro _ r s' hCall
            simp only [Option.some.injEq, Prod.mk.injEq] at hCall
            rcases hCall with ⟨rfl, rfl⟩
            rcases setLink_held hHeld hList with
              ⟨hCut, hRest⟩
            exact ⟨rfl, delSpec_of_cut hHeld hList hBefore hCut
              hRest (setLink_log s _ _)⟩
          · have hNext : placeBehind
                (timerBucket (s.timer p).expires)
                (before ++ [q]) = .next q := by
              simp [placeBehind]
            have hList' :
                lists (timerBucket (s.timer p).expires) =
                  (before ++ [q]) ++ rest := by
              rw [hList, List.append_assoc, List.singleton_append]
            have hBefore' : p ∉ before ++ [q] := by
              simp [hBefore, Ne.symm hq]
            have hRest := ih fuel hList' hBefore'
            rw [hNext] at hRest
            simp only [delTimerLoop, hLink, hq, if_false,
              List.mem_cons, Ne.symm hq, false_or,
              List.length_cons, Nat.add_lt_add_iff_right]
            exact hRest

variable {r : Int}

/-
  `del_timer` answers 1 and takes the timer out exactly when
  the timer is in the bucket of its expiry.
-/
theorem delTimer_spec
    (hHeld : s.Held lists)
    (hCall : delTimer fuel s p = some (r, s')) :
    (p ∈ lists (timerBucket (s.timer p).expires) ∧ r = 1 ∧
      DelSpec s lists p s') ∨
    (p ∉ lists (timerBucket (s.timer p).expires) ∧ r = 0 ∧
      s' = s) := by
  rcases delTimerLoop_spec fuel hHeld (List.nil_append _).symm
      List.not_mem_nil with
    ⟨hOut, hIn, _⟩
  by_cases hp : p ∈ lists (timerBucket (s.timer p).expires)
  · exact Or.inl ⟨hp, hIn hp r s' hCall⟩
  · right
    have hNone := (hOut hp).symm.trans hCall
    split at hNone
    · cases hNone
      exact ⟨hp, rfl, rfl⟩
    · cases hNone

/- A deletion runs no timer, whatever the buckets hold. -/
theorem delTimer_ran
    (hCall : delTimer fuel s p = some (r, s')) :
    s'.ran = s.ran := by
  unfold delTimer at hCall
  generalize TimerLink.head (timerBucket (s.timer p).expires) = l
    at hCall
  induction fuel generalizing l with
  | zero => simp [delTimerLoop] at hCall
  | succ fuel ih =>
      simp only [delTimerLoop] at hCall
      cases hLink : s.link l with
      | none =>
          simp only [hLink, Option.some.injEq, Prod.mk.injEq]
            at hCall
          rw [hCall.2]
      | some q =>
          simp only [hLink] at hCall
          by_cases hq : q = p
          · simp only [hq, if_true, Option.some.injEq,
              Prod.mk.injEq] at hCall
            rw [← hCall.2]
            exact (setLink_log s _ l).2
          · simp only [hq, if_false] at hCall
            exact ih (.next q) hCall

theorem delTimer_returns
    (hHeld : s.Held lists)
    (hFuel :
      (lists (timerBucket (s.timer p).expires)).length < fuel) :
    ∃ r s', delTimer fuel s p = some (r, s') :=
  (delTimerLoop_spec fuel hHeld (List.nil_append _).symm
    List.not_mem_nil).2.2 hFuel

end Wheel

end FeatherOS
