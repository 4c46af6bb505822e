import FeatherOS.Timer.Pending
import Mathlib.Data.List.Nodup

/-
  When timers are run.

  A booking says at which ticks an added timer has to be run.
  The first level of the wheel holds expiries below 256, the
  other levels never give their timers back, and a timer that
  was deleted once is not armed again: ticks are on time as
  long as nothing that is due depends on those.

  Key definitions include:
    * `Booking`
    * `TimerPlan`
    * `TickServes`
    * `TimerPlan.OnTime`

  Key theorems include:
    * `TimerPlan.Ok.step`
    * `timerRun_onTime`
-/

namespace FeatherOS

--------------------
-- Bookings
--------------------

/- The first tick of a timer and the ticks between two runs. -/
structure Booking where
  deadline : Nat
  period : Nat
  /- the timer had been deleted before it was added -/
  flagged : Prop

/- The timer has to be run by the tick with this number. -/
def Booking.Due
    (b : Booking)
    (tick : Nat) : Prop :=
  ∃ k, tick = b.deadline + k * b.period

/- The timers, the ticks so far and what has been booked. -/
structure TimerPlan where
  sys : TimerSys
  now : Nat
  booked : Addr → Option Booking

/- The booking `add_timer` makes. -/
def TimerPlan.booking
    (plan : TimerPlan)
    (p : Addr) :
    Booking where
  deadline :=
    plan.now + ((plan.sys.state.timer p).expires.toNat -
      plan.sys.state.jiffies.toNat)
  period := (plan.sys.state.timer p).period.toNat
  flagged :=
    (plan.sys.state.timer p).flags &&& timerFlagsExpired ≠ 0#32

/- Bookings last until the timer is deleted. -/
def bookedAfter
    (plan : TimerPlan)
    (call : TimerCall)
    (t : Addr) :
    Option Booking :=
  match call with
  | .add p => if t = p then plan.booking p else plan.booked t
  | .del p => if t = p then none else plan.booked t
  | _ => plan.booked t

/- The number of the next tick after a call. -/
def TimerPlan.nowAfter
    (plan : TimerPlan) :
    TimerCall → Nat
  | .tick => plan.now + 1
  | _ => plan.now

def planStep
    (plan : TimerPlan)
    (call : TimerCall)
    (plan' : TimerPlan) : Prop :=
  timerStep plan.sys call plan'.sys ∧
    plan'.now = plan.nowAfter call ∧
    plan'.booked = bookedAfter plan call

/- Ticks are counted by the clock, and nothing is booked. -/
def TimerPlan.Started (plan : TimerPlan) : Prop :=
  plan.sys.Started ∧ plan.now = plan.sys.state.jiffies.toNat ∧
    plan.booked = fun _ => none

--------------------
-- The Property
--------------------

/-
  A tick runs the timers that are due, each once, with the
  record it had, and no other; no other call runs a timer.
-/
def TimerPlan.OnTime
    (plan : TimerPlan)
    (call : TimerCall)
    (plan' : TimerPlan) : Prop :=
  let runs := newRuns plan.sys.state plan'.sys.state
  match call with
  | .tick =>
      (runs.map TimerRun.timer).Nodup ∧
        (∀ t, t ∈ runs.map TimerRun.timer ↔
          ∃ b, plan.booked t = some b ∧ b.Due (plan.now + 1)) ∧
        ∀ e ∈ runs,
          e.jiffies = plan.sys.state.jiffies + 1#64 ∧
            e.record = plan.sys.state.timer e.timer
  | _ => runs = []

/- Timers are added to expire in the future, as single calls. -/
def AddsAhead
    (plan : TimerPlan)
    (call : TimerCall) : Prop :=
  KeepsPending plan.sys call ∧
    match call with
    | .add p =>
        plan.sys.state.jiffies <
          (plan.sys.state.timer p).expires
    | .run => False
    | _ => True

/-
  What is due at the next tick expires below 256, and it is
  due for the first time if the timer was deleted before.
-/
def TickServes (plan : TimerPlan) : Prop :=
  ∀ t b, plan.booked t = some b → b.Due (plan.now + 1) →
    (plan.sys.state.jiffies + 1#64).toNat < 256 ∧
      (b.flagged → plan.now + 1 = b.deadline)

/- The next expiry of what is due does not wrap. -/
def TickFits (plan : TimerPlan) : Prop :=
  ∀ t b, plan.booked t = some b → b.Due (plan.now + 1) →
    (plan.sys.state.jiffies + 1#64).toNat + b.period < 2 ^ 64

/- The condition on a call. -/
def OnTimeOk
    (plan : TimerPlan)
    (call : TimerCall) : Prop :=
  AddsAhead plan call ∧
    match call with
    | .tick => TickServes plan ∧ TickFits plan
    | _ => True

--------------------
-- The Invariant
--------------------

/- A pending timer expires at the next tick it is booked for. -/
structure TimerPlan.Waits
    (plan : TimerPlan)
    (t : Addr)
    (b : Booking) : Prop where
  ahead : plan.sys.state.jiffies.toNat <
    (plan.sys.state.timer t).expires.toNat
  next : ∃ k,
    plan.now + ((plan.sys.state.timer t).expires.toNat -
        plan.sys.state.jiffies.toNat) =
      b.deadline + k * b.period ∧ (b.flagged → k = 0) ∧
      (0 < k → b.deadline + (k - 1) * b.period ≤ plan.now)
  period : b.period = (plan.sys.state.timer t).period.toNat
  flagged : b.flagged ↔
    (plan.sys.state.timer t).flags &&& timerFlagsExpired ≠ 0#32

/- A booked timer off the wheel has had its last run. -/
def TimerPlan.Past
    (plan : TimerPlan)
    (b : Booking) : Prop :=
  b.deadline ≤ plan.now ∧ (b.period = 0 ∨ b.flagged)

structure TimerPlan.Ok (plan : TimerPlan) : Prop where
  sys : ∃ lists, plan.sys.Ok lists
  clock : plan.sys.state.jiffies.toNat = plan.now % 2 ^ 64
  waits : ∀ t, plan.sys.pending t →
    ∃ b, plan.booked t = some b ∧ plan.Waits t b
  past : ∀ t b, plan.booked t = some b →
    ¬ plan.sys.pending t → plan.Past b

section Ticks

variable {plan plan' : TimerPlan}
variable {t p : Addr}
variable {b : Booking}

/- The clock after a tick that a timer waits for. -/
theorem TimerPlan.Waits.succ
    (hWaits : plan.Waits t b) :
    (plan.sys.state.jiffies + 1#64).toNat =
      plan.sys.state.jiffies.toNat + 1 := by
  have hAhead := hWaits.ahead
  have hMax := (plan.sys.state.timer t).expires.isLt
  exact Words.toNat_succ (by omega)

/- Due at the next tick is who expires then. -/
theorem TimerPlan.Waits.due_iff
    (hWaits : plan.Waits t b) :
    b.Due (plan.now + 1) ↔
      (plan.sys.state.timer t).expires.toNat =
        plan.sys.state.jiffies.toNat + 1 := by
  have hAhead := hWaits.ahead
  rcases hWaits.next with ⟨k, hNext, _, hLast⟩
  constructor
  · rintro ⟨m, hDue⟩
    by_contra hLate
    have hLess : m * b.period < k * b.period := by omega
    have hBefore : m < k := Nat.lt_of_mul_lt_mul_right hLess
    have hMul : m * b.period ≤ (k - 1) * b.period :=
      Nat.mul_le_mul_right _ (by omega)
    have hPast := hLast (by omega)
    omega
  · intro hSoon
    exact ⟨k, by omega⟩

/- A deleted timer is due once. -/
theorem TimerPlan.Waits.flagged_due
    (hWaits : plan.Waits t b)
    (hDue : b.Due (plan.now + 1))
    (hFlag : b.flagged) :
    plan.now + 1 = b.deadline := by
  have hSoon := hWaits.due_iff.mp hDue
  rcases hWaits.next with ⟨k, hNext, hFirst, _⟩
  rw [hFirst hFlag] at hNext
  omega

/- Who had its last run is not due any more. -/
theorem TimerPlan.Past.not_due
    (hPast : plan.Past b)
    (hDue : b.Due (plan.now + 1)) :
    b.flagged ∧ plan.now + 1 ≠ b.deadline := by
  rcases hDue with ⟨k, hDue⟩
  rcases hPast with ⟨hLe, hNone | hFlag⟩
  · rw [hNone] at hDue
    omega
  · exact ⟨hFlag, by omega⟩

variable {lists : TimerBucket → List Addr}

/-
  The due bucket after a tick of the clock holds the timers
  that wait for that tick, if it is one of the first 256.
-/
theorem mem_dueBucket_iff
    (hSys : plan.sys.Ok lists)
    (hOk : plan.Ok)
    (t : Addr) :
    t ∈ lists (advanceJiffies plan.sys.state).dueBucket ↔
      plan.sys.pending t ∧
        (plan.sys.state.timer t).expires.toNat =
          plan.sys.state.jiffies.toNat + 1 ∧
        (plan.sys.state.timer t).expires.toNat < 256 := by
  constructor
  · intro hIn
    have hMem := hSys.held.mem_iff.mp hIn
    have hPending := (hSys.mem t).mpr hMem.2
    rcases hOk.waits t hPending with ⟨b, _, hWaits⟩
    have hAhead := hWaits.ahead
    have hSucc := hWaits.succ
    rcases expires_le_of_lvl1 hMem.1 with ⟨_, hSmall, hEq⟩
    have hLt : (plan.sys.state.timer t).expires.toNat < 256 :=
      hSmall
    have hClock :
        (advanceJiffies plan.sys.state).jiffies.toNat =
          plan.sys.state.jiffies.toNat + 1 := hSucc
    rw [hClock] at hEq
    exact ⟨hPending, by omega, hLt⟩
  · rintro ⟨hPending, hSoon, hLt⟩
    rcases hOk.waits t hPending with ⟨b, _, hWaits⟩
    have hEq : (plan.sys.state.timer t).expires =
        (advanceJiffies plan.sys.state).jiffies := by
      apply BitVec.eq_of_toNat_eq
      rw [hSoon]
      exact hWaits.succ.symm
    have hSmall :
        (plan.sys.state.timer t).expires < timerWheelSize := hLt
    have hHere : timerBucket (plan.sys.state.timer t).expires =
        (advanceJiffies plan.sys.state).dueBucket := by
      rw [hEq] at hSmall ⊢
      simp only [timerBucket, hSmall, if_true,
        TimerState.dueBucket]
    rw [← hHere]
    exact (hSys.mem t).mp hPending

/- The tick runs its bucket, from the first timer on. -/
theorem newRuns_tick
    {fuel : Nat}
    {s' : TimerState}
    (hSys : plan.sys.Ok lists)
    (hCall : timerTick fuel plan.sys.state = some s') :
    (newRuns plan.sys.state s').map TimerRun.timer =
        (lists
          (advanceJiffies plan.sys.state).dueBucket).reverse ∧
      ∀ e ∈ newRuns plan.sys.state s',
        e.jiffies = plan.sys.state.jiffies + 1#64 ∧
          e.record = plan.sys.state.timer e.timer := by
  rcases timerTick_spec hSys.held hCall with ⟨lists', hSpec⟩
  rw [newRuns_eq (s := plan.sys.state) hSpec.ran]
  constructor
  · simp [List.map_reverse, Function.comp_def]
  · intro e he
    simp only [List.mem_reverse, List.mem_map] at he
    rcases he with ⟨t, _, rfl⟩
    exact ⟨rfl, rfl⟩

/-
  A tick is on time exactly when what is due expires below
  256 and is not a timer that should be run again although
  it was deleted before.
-/
theorem tick_onTime_iff
    (hOk : plan.Ok)
    (hStep : planStep plan .tick plan') :
    plan.OnTime .tick plan' ↔ TickServes plan := by
  rcases hOk.sys with ⟨lists, hSys⟩
  rcases hStep with ⟨⟨⟨fuel, hCall⟩, _⟩, _⟩
  rcases newRuns_tick hSys hCall with ⟨hRuns, hRecords⟩
  have hDue := mem_dueBucket_iff hSys hOk
  simp only [TimerPlan.OnTime, hRuns, List.nodup_reverse,
    List.mem_reverse, hDue]
  constructor
  · rintro ⟨_, hAll, _⟩ t b hBooked hHere
    rcases (hAll t).mpr ⟨b, hBooked, hHere⟩ with
      ⟨hPending, hSoon, hLt⟩
    rcases hOk.waits t hPending with ⟨b', hBooked', hWaits⟩
    have hSame : b' = b := by
      rw [hBooked] at hBooked'
      exact (Option.some.inj hBooked').symm
    subst hSame
    refine ⟨?_, hWaits.flagged_due hHere⟩
    rw [hWaits.succ]
    omega
  · intro hServes
    refine ⟨hSys.held.nodup _, ?_, hRecords⟩
    intro t
    constructor
    · rintro ⟨hPending, hSoon, _⟩
      rcases hOk.waits t hPending with ⟨b, hBooked, hWaits⟩
      exact ⟨b, hBooked, hWaits.due_iff.mpr hSoon⟩
    · rintro ⟨b, hBooked, hHere⟩
      rcases hServes t b hBooked hHere with ⟨hLow, hFlag⟩
      by_cases hPending : plan.sys.pending t
      · rcases hOk.waits t hPending with ⟨b', hBooked', hWaits⟩
        have hSame : b' = b := by
          rw [hBooked] at hBooked'
          exact (Option.some.inj hBooked').symm
        subst hSame
        have hSoon := hWaits.due_iff.mp hHere
        rw [hWaits.succ] at hLow
        exact ⟨hPending, hSoon, by omega⟩
      · have hPast := hOk.past t b hBooked hPending
        rcases hPast.not_due hHere with ⟨hIs, hNot⟩
        exact absurd (hFlag hIs) hNot

end Ticks

--------------------
-- Steps
--------------------

section Steps

variable {plan plan' : TimerPlan}
variable {t p : Addr}
variable {b : Booking}

/- Waiting depends on the clock and on one record. -/
theorem TimerPlan.Waits.congr
    (hWaits : plan.Waits t b)
    (hNow : plan'.now = plan.now)
    (hJiffies :
      plan'.sys.state.jiffies = plan.sys.state.jiffies)
    (hTimer : (plan'.sys.state.timer t).unlinked =
      (plan.sys.state.timer t).unlinked) :
    plan'.Waits t b := by
  rcases Timer.fields_of_unlinked hTimer with
    ⟨hExp, hPeriod, hFlags⟩
  constructor
  · rw [hExp, hJiffies]
    exact hWaits.ahead
  · rw [hExp, hJiffies, hNow]
    exact hWaits.next
  · rw [hPeriod]
    exact hWaits.period
  · rw [hFlags]
    exact hWaits.flagged

/- A timer that is not due goes on waiting. -/
theorem TimerPlan.Waits.tick
    (hWaits : plan.Waits t b)
    (hNow : plan'.now = plan.now + 1)
    (hJiffies : plan'.sys.state.jiffies =
      plan.sys.state.jiffies + 1#64)
    (hTimer : (plan'.sys.state.timer t).unlinked =
      (plan.sys.state.timer t).unlinked)
    (hLater : ¬ b.Due (plan.now + 1)) :
    plan'.Waits t b := by
  have hSucc := hWaits.succ
  have hAhead := hWaits.ahead
  rw [hWaits.due_iff] at hLater
  rcases Timer.fields_of_unlinked hTimer with
    ⟨hExp, hPeriod, hFlags⟩
  constructor
  · rw [hExp, hJiffies, hSucc]
    omega
  · rcases hWaits.next with ⟨k, hNext, hFlag, hLast⟩
    refine ⟨k, ?_, hFlag, fun hk => ?_⟩
    · rw [hExp, hJiffies, hSucc, hNow, ← hNext]
      omega
    · have hPast := hLast hk
      omega
  · rw [hPeriod]
    exact hWaits.period
  · rw [hFlags]
    exact hWaits.flagged

/- A periodic timer that is run waits for its next run. -/
theorem TimerPlan.Waits.rearm
    (hWaits : plan.Waits t b)
    (hNow : plan'.now = plan.now + 1)
    (hJiffies : plan'.sys.state.jiffies =
      plan.sys.state.jiffies + 1#64)
    (hRearms : (plan.sys.state.timer t).Rearms)
    (hTimer : (plan'.sys.state.timer t).unlinked =
      (plan.sys.state.timer t).afterRun.unlinked)
    (hDue : b.Due (plan.now + 1))
    (hFits : (plan.sys.state.jiffies + 1#64).toNat + b.period <
      2 ^ 64) :
    plan'.Waits t b := by
  have hSucc := hWaits.succ
  have hSoon := hWaits.due_iff.mp hDue
  have hPos : 0 < b.period := by
    rw [hWaits.period]
    exact hRearms.1
  have hPlain : ¬ b.flagged := by
    rw [hWaits.flagged]
    exact fun hFlag => hFlag hRearms.2
  have hExp : (plan'.sys.state.timer t).expires.toNat =
      plan.sys.state.jiffies.toNat + 1 + b.period := by
    have hEq := congrArg Timer.expires hTimer
    have hAfter : (plan'.sys.state.timer t).expires =
        (plan.sys.state.timer t).expires +
          (plan.sys.state.timer t).period := by
      simpa [Timer.afterRun, hRearms, Timer.unlinked] using hEq
    rw [hSucc] at hFits
    rw [hAfter, BitVec.toNat_add, hSoon, ← hWaits.period,
      Nat.mod_eq_of_lt hFits]
  constructor
  · rw [hExp, hJiffies, hSucc]
    omega
  · rcases hWaits.next with ⟨k, hNext, _, _⟩
    refine ⟨k + 1, ?_, fun hFlag => absurd hFlag hPlain,
      fun _ => ?_⟩
    · rw [hExp, hJiffies, hSucc, hNow, Nat.succ_mul]
      omega
    · rw [hNow, Nat.add_sub_cancel]
      omega
  · have hEq := congrArg Timer.period hTimer
    have hAfter : (plan'.sys.state.timer t).period =
        (plan.sys.state.timer t).period := by
      simpa [Timer.afterRun, hRearms, Timer.unlinked] using hEq
    rw [hAfter]
    exact hWaits.period
  · have hEq := congrArg Timer.flags hTimer
    have hAfter : (plan'.sys.state.timer t).flags =
        (plan.sys.state.timer t).flags := by
      simpa [Timer.afterRun, hRearms, Timer.unlinked] using hEq
    rw [hAfter]
    exact hWaits.flagged

/- A call that books nothing and leaves clock and wheel. -/
theorem TimerPlan.Ok.quiet
    (hOk : plan.Ok)
    (hSys : ∃ lists, plan'.sys.Ok lists)
    (hNow : plan'.now = plan.now)
    (hJiffies :
      plan'.sys.state.jiffies = plan.sys.state.jiffies)
    (hTimer : ∀ t, plan'.sys.pending t → plan.sys.pending t →
      (plan'.sys.state.timer t).unlinked =
        (plan.sys.state.timer t).unlinked)
    (hPending : ∀ t, plan'.sys.pending t →
      plan.sys.pending t ∧ plan'.booked t = plan.booked t)
    (hBooked : ∀ t b, plan'.booked t = some b →
      plan.booked t = some b ∧
        (plan.sys.pending t → plan'.sys.pending t)) :
    plan'.Ok where
  sys := hSys
  clock := by
    rw [hJiffies, hNow]
    exact hOk.clock
  waits t hHere := by
    rcases hPending t hHere with ⟨hBefore, hSame⟩
    rcases hOk.waits t hBefore with ⟨b, hb, hWaits⟩
    exact ⟨b, hSame.trans hb,
      hWaits.congr hNow hJiffies (hTimer t hHere hBefore)⟩
  past t b hb hOut := by
    rcases hBooked t b hb with ⟨hBefore, hStays⟩
    have hPast := hOk.past t b hBefore fun h => hOut (hStays h)
    unfold TimerPlan.Past at hPast ⊢
    rw [hNow]
    exact hPast

theorem planAdd_ok
    (hOk : plan.Ok)
    (hSys : ∃ lists, plan'.sys.Ok lists)
    (hAhead : plan.sys.state.jiffies <
      (plan.sys.state.timer p).expires)
    (hState : plan'.sys.state = addTimer plan.sys.state p)
    (hPending : plan'.sys.pending =
      fun t => plan.sys.pending t ∨ t = p)
    (hNow : plan'.now = plan.now)
    (hBooked : plan'.booked = bookedAfter plan (.add p)) :
    plan'.Ok := by
  have hTimer : ∀ t,
      (plan'.sys.state.timer t).unlinked =
        (plan.sys.state.timer t).unlinked := by
    intro t
    rw [hState]
    exact addTimerBucket_unlinked plan.sys.state p t
  have hJiffies :
      plan'.sys.state.jiffies = plan.sys.state.jiffies := by
    rw [hState]
    rfl
  refine ⟨hSys, ?_, ?_, ?_⟩
  · rw [hJiffies, hNow]
    exact hOk.clock
  · intro t hHere
    rw [hBooked]
    by_cases ht : t = p
    · subst ht
      refine ⟨plan.booking t, by simp [bookedAfter], ?_⟩
      have hNew : plan.Waits t (plan.booking t) := by
        refine ⟨hAhead, ⟨0, ?_, fun _ => rfl, ?_⟩, rfl, Iff.rfl⟩
        · simp [TimerPlan.booking]
        · intro hk
          omega
      exact hNew.congr hNow hJiffies (hTimer t)
    · rw [hPending] at hHere
      have hBefore := hHere.resolve_right ht
      rcases hOk.waits t hBefore with ⟨b, hb, hWaits⟩
      exact ⟨b, by simpa [bookedAfter, ht] using hb,
        hWaits.congr hNow hJiffies (hTimer t)⟩
  · intro t b hb hOut
    rw [hPending, not_or] at hOut
    rw [hBooked] at hb
    have hBefore : plan.booked t = some b := by
      simpa [bookedAfter, hOut.2] using hb
    have hPast := hOk.past t b hBefore hOut.1
    unfold TimerPlan.Past at hPast ⊢
    rw [hNow]
    exact hPast

/- A timer that is run and not rearmed has had its last run. -/
theorem TimerPlan.Waits.last
    (hWaits : plan.Waits t b)
    (hNow : plan'.now = plan.now + 1)
    (hDue : b.Due (plan.now + 1))
    (hLast : ¬ (plan.sys.state.timer t).Rearms) :
    plan'.Past b := by
  rcases hDue with ⟨k, hk⟩
  constructor
  · rw [hNow, hk]
    exact Nat.le_add_right _ _
  · by_cases hFlag : b.flagged
    · exact Or.inr hFlag
    · left
      rw [hWaits.flagged, not_not] at hFlag
      rw [hWaits.period]
      by_contra hPos
      apply hLast
      refine ⟨?_, hFlag⟩
      rw [BitVec.lt_def]
      exact Nat.pos_of_ne_zero hPos

/- The tick that serves what is due. -/
theorem planTick_ok
    (hOk : plan.Ok)
    (hServes : TickServes plan)
    (hFits : TickFits plan)
    (hStep : planStep plan .tick plan') :
    plan'.Ok := by
  rcases hOk.sys with ⟨lists, hSys⟩
  have hOnTime := (tick_onTime_iff hOk hStep).mpr hServes
  rcases hStep with ⟨hTimerStep, hNow, hBooked⟩
  have hSys' : ∃ lists, plan'.sys.Ok lists :=
    timerStep_ok ⟨lists, hSys⟩ (by trivial) hTimerStep
  rcases hTimerStep with ⟨⟨fuel, hCall⟩, hPending⟩
  rcases timerTick_spec hSys.held hCall with ⟨lists', hSpec⟩
  have hRuns := (newRuns_tick hSys hCall).1
  have hJiffies : plan'.sys.state.jiffies =
      plan.sys.state.jiffies + 1#64 := hSpec.jiffies
  have hSame : plan'.booked = plan.booked := hBooked
  have hNow' : plan'.now = plan.now + 1 := hNow
  -- the bucket holds exactly what is due
  have hDue : ∀ t,
      t ∈ lists (advanceJiffies plan.sys.state).dueBucket ↔
        ∃ b, plan.booked t = some b ∧ b.Due (plan.now + 1) := by
    intro t
    rw [← hOnTime.2.1 t, hRuns, List.mem_reverse]
  have hStays : ∀ t, plan'.sys.pending t ↔
      plan.sys.pending t ∧
        (t ∈ lists (advanceJiffies plan.sys.state).dueBucket →
          (plan.sys.state.timer t).Rearms) := by
    intro t
    rw [hPending]
    exact and_congr_right fun _ => hSpec.rearms_iff rfl rfl t
  refine ⟨hSys', ?_, ?_, ?_⟩
  · rw [hJiffies, hNow', BitVec.toNat_add, hOk.clock]
    simp only [BitVec.toNat_ofNat]
    omega
  · intro t hHere
    rcases (hStays t).mp hHere with ⟨hBefore, hRearm⟩
    rcases hOk.waits t hBefore with ⟨b, hb, hWaits⟩
    rw [hSame]
    refine ⟨b, hb, ?_⟩
    by_cases ht :
        t ∈ lists (advanceJiffies plan.sys.state).dueBucket
    · rcases (hDue t).mp ht with ⟨b', hb', hIs⟩
      have hEq : b' = b := by
        rw [hb] at hb'
        exact (Option.some.inj hb').symm
      subst hEq
      exact hWaits.rearm hNow' hJiffies (hRearm ht)
        (hSpec.self t ht) hIs (hFits t b' hb hIs)
    · have hLater : ¬ b.Due (plan.now + 1) :=
        fun hIs => ht ((hDue t).mpr ⟨b, hb, hIs⟩)
      exact hWaits.tick hNow' hJiffies (hSpec.other t ht) hLater
  · intro t b hb hOut
    rw [hSame] at hb
    by_cases hBefore : plan.sys.pending t
    · rcases hOk.waits t hBefore with ⟨b', hb', hWaits⟩
      have hEq : b' = b := by
        rw [hb] at hb'
        exact (Option.some.inj hb').symm
      subst hEq
      rw [hStays] at hOut
      have hLast :
          t ∈ lists (advanceJiffies plan.sys.state).dueBucket ∧
            ¬ (plan.sys.state.timer t).Rearms := by
        by_contra hNot
        exact hOut ⟨hBefore, fun ht => by
          by_contra hRearm
          exact hNot ⟨ht, hRearm⟩⟩
      rcases (hDue t).mp hLast.1 with ⟨b, hb'', hIs⟩
      have hEq : b = b' := by
        rw [hb] at hb''
        exact (Option.some.inj hb'').symm
      subst hEq
      exact hWaits.last hNow' hIs hLast.2
    · rcases hOk.past t b hb hBefore with ⟨hLe, hWhy⟩
      refine ⟨?_, hWhy⟩
      rw [hNow']
      omega

/- A record that is not pending is written. -/
theorem TimerPlan.Ok.written
    {p : Addr}
    (hOk : plan.Ok)
    (hSys : ∃ lists, plan'.sys.Ok lists)
    (hNow : plan'.now = plan.now)
    (hJiffies :
      plan'.sys.state.jiffies = plan.sys.state.jiffies)
    (hOut : ¬ plan.sys.pending p)
    (hTimer : ∀ t, t ≠ p →
      (plan'.sys.state.timer t).unlinked =
        (plan.sys.state.timer t).unlinked)
    (hPending : plan'.sys.pending = plan.sys.pending)
    (hBooked : plan'.booked = plan.booked) :
    plan'.Ok := by
  apply hOk.quiet hSys hNow hJiffies
  · intro t _ hHere
    refine hTimer t ?_
    rintro rfl
    exact hOut hHere
  · rw [hPending, hBooked]
    exact fun t hHere => ⟨hHere, rfl⟩
  · rw [hPending, hBooked]
    exact fun t b hb => ⟨hb, id⟩

variable {call : TimerCall}

/- One call that meets the condition keeps the plan. -/
theorem TimerPlan.Ok.step
    (hOk : plan.Ok)
    (hGuard : OnTimeOk plan call)
    (hStep : planStep plan call plan') :
    plan'.Ok := by
  rcases hGuard with ⟨⟨hKeeps, hAdds⟩, hTick⟩
  have hSys' := timerStep_ok hOk.sys hKeeps hStep.1
  cases call with
  | init p =>
      rcases hStep with ⟨⟨⟨fuel, hCall⟩, hPending⟩, hNow, hBooked⟩
      simp only [timerCall, Option.some.injEq] at hCall
      refine hOk.written hSys' hNow ?_ hKeeps ?_ hPending hBooked
      · rw [← hCall]
        rfl
      · intro t ht
        rw [← hCall]
        simp [initTimer, ht]
  | fill p expires period function data =>
      rcases hStep with ⟨⟨⟨fuel, hCall⟩, hPending⟩, hNow, hBooked⟩
      simp only [timerCall, Option.some.injEq] at hCall
      refine hOk.written hSys' hNow ?_ hKeeps ?_ hPending hBooked
      · rw [← hCall]
        rfl
      · intro t ht
        rw [← hCall]
        simp [ht]
  | add p =>
      rcases hStep with ⟨⟨⟨fuel, hCall⟩, hPending⟩, hNow, hBooked⟩
      simp only [timerCall, Option.some.injEq] at hCall
      exact planAdd_ok hOk hSys' hAdds hCall.symm hPending hNow
        hBooked
  | del p =>
      rcases hOk.sys with ⟨lists, hSys⟩
      rcases hStep with ⟨⟨⟨fuel, hCall⟩, hPending⟩, hNow, hBooked⟩
      simp only [timerCall, Option.map_eq_some_iff, Prod.exists,
        exists_eq_right] at hCall
      rcases hCall with ⟨r, hCall⟩
      have hFrame : plan'.sys.state.jiffies =
            plan.sys.state.jiffies ∧
          ∀ t, t ≠ p → (plan'.sys.state.timer t).unlinked =
            (plan.sys.state.timer t).unlinked := by
        rcases delTimer_spec hSys.held hCall with
          ⟨_, _, hSpec⟩ | ⟨_, _, hEq⟩
        · exact ⟨hSpec.jiffies, hSpec.other⟩
        · rw [hEq]
          exact ⟨rfl, fun _ _ => rfl⟩
      apply hOk.quiet hSys' hNow hFrame.1
      · intro t hHere _
        rw [hPending] at hHere
        exact hFrame.2 t hHere.2
      · intro t hHere
        rw [hPending] at hHere
        rw [hBooked]
        exact ⟨hHere.1, by simp [bookedAfter, hHere.2]⟩
      · intro t b hb
        rw [hBooked] at hb
        have ht : t ≠ p := by
          rintro rfl
          simp [bookedAfter] at hb
        rw [hPending]
        exact ⟨by simpa [bookedAfter, ht] using hb,
          fun hHere => ⟨hHere, ht⟩⟩
  | tick => exact planTick_ok hOk hTick.1 hTick.2 hStep
  | run => exact hAdds.elim

/- A call that meets the condition is on time. -/
theorem TimerPlan.Ok.onTime
    (hOk : plan.Ok)
    (hGuard : OnTimeOk plan call)
    (hStep : planStep plan call plan') :
    plan.OnTime call plan' := by
  have hQuiet : call ≠ .tick → call ≠ .run →
      newRuns plan.sys.state plan'.sys.state = [] := by
    intro hTick hRun
    have hRan := timerStep_ran hStep.1 hTick hRun
    exact newRuns_eq hRan
  cases call with
  | tick => exact (tick_onTime_iff hOk hStep).mpr hGuard.2.1
  | run => exact hGuard.1.2.elim
  | init p => exact hQuiet (by simp) (by simp)
  | fill p expires period function data =>
      exact hQuiet (by simp) (by simp)
  | add p => exact hQuiet (by simp) (by simp)
  | del p => exact hQuiet (by simp) (by simp)

theorem TimerPlan.Started.ok
    (hStart : plan.Started) :
    plan.Ok := by
  rcases hStart with ⟨hSys, hNow, hBooked⟩
  have hNone : ∀ t, ¬ plan.sys.pending t := by
    rcases hSys with ⟨s, _, hEq⟩
    rw [hEq]
    exact fun _ => id
  refine ⟨hSys.ok.1, ?_, ?_, ?_⟩
  · rw [hNow]
    exact (Nat.mod_eq_of_lt (BitVec.isLt _)).symm
  · intro t hHere
    exact absurd hHere (hNone t)
  · intro t b hb
    rw [hBooked] at hb
    cases hb

/- A tick always returns. -/
theorem TimerPlan.Ok.tick_returns
    (hOk : plan.Ok) :
    ∃ plan', planStep plan .tick plan' := by
  rcases hOk.sys with ⟨lists, hSys⟩
  rcases timerTick_returns hSys.held with ⟨fuel, s', hCall⟩
  exact
    ⟨⟨⟨s', pendingAfter plan.sys.pending plan.sys.state s'
      .tick⟩, plan.now + 1, plan.booked⟩,
      ⟨⟨fuel, hCall⟩, rfl⟩, rfl, rfl⟩

end Steps

--------------------
-- Runs
--------------------

/-
  In a run whose calls meet the condition every call is on
  time, and the next tick returns; it is on time exactly when
  it meets the condition as well.
-/
theorem timerRun_onTime
    {plan₀ plan : TimerPlan}
    {calls : List TimerCall}
    (hStart : plan₀.Started)
    (hRun : Run (Guarded OnTimeOk planStep) plan₀ calls plan) :
    Run TimerPlan.OnTime plan₀ calls plan ∧
      (∃ plan', planStep plan .tick plan') ∧
      ∀ plan', planStep plan .tick plan' →
        (plan.OnTime .tick plan' ↔ TickServes plan) := by
  have hOk := hRun.invariant TimerPlan.Ok
    (fun _ _ _ hOk hStep => hOk.step hStep.1 hStep.2) hStart.ok
  refine ⟨?_, hOk.tick_returns,
    fun _ hStep => tick_onTime_iff hOk hStep⟩
  exact hRun.weaken TimerPlan.Ok
    (fun _ _ _ hOk hStep => hOk.step hStep.1 hStep.2)
    (fun _ _ _ hOk hStep => hOk.onTime hStep.1 hStep.2) hStart.ok

/- Nothing booked yet, at any time of the clock. -/
def TimerPlan.boot (jiffies : U64) : TimerPlan where
  sys := TimerSys.boot jiffies
  now := jiffies.toNat
  booked := fun _ => none

theorem TimerPlan.boot_started
    (jiffies : U64) :
    (TimerPlan.boot jiffies).Started :=
  ⟨TimerSys.boot_started jiffies, rfl, rfl⟩

/- A one-shot timer is filled in and added. -/
def TimerPlan.withTimer
    (jiffies expires : U64) :
    TimerPlan where
  sys :=
    { state :=
        addTimer
          ((TimerSys.boot jiffies).state.modifyTimer timerA
            fun t =>
              { t with
                expires := expires
                period := 0#64
                function := some 0x5000
                data := 0#64 })
          timerA
      pending := fun t => False ∨ t = timerA }
  now := jiffies.toNat
  booked := fun t =>
    if t = timerA then
      some ⟨jiffies.toNat + (expires.toNat - jiffies.toNat), 0,
        (0#32 &&& timerFlagsExpired) ≠ 0#32⟩
    else none

variable {expires jiffies : U64}

/- The two calls that lead there. -/
theorem TimerPlan.withTimer_run
    (hAhead : jiffies < expires) :
    Run (Guarded OnTimeOk planStep) (TimerPlan.boot jiffies)
      [.fill timerA expires 0#64 (some 0x5000) 0#64,
        .add timerA]
      (TimerPlan.withTimer jiffies expires) := by
  let filled : TimerPlan :=
    { TimerPlan.boot jiffies with
      sys :=
        { TimerSys.boot jiffies with
          state :=
            (TimerSys.boot jiffies).state.modifyTimer timerA
              fun t =>
                { t with
                  expires := expires
                  period := 0#64
                  function := some 0x5000
                  data := 0#64 } } }
  have hTimer : filled.sys.state.timer timerA =
      ⟨none, expires, 0#64, some 0x5000, 0#64, 0#32⟩ := by
    simp [filled, TimerSys.boot, timerWheelInit]
  refine .cons (t := filled)
    ⟨⟨⟨id, trivial⟩, trivial⟩, ⟨⟨0, rfl⟩, rfl⟩, rfl, rfl⟩
    (.cons (t := TimerPlan.withTimer jiffies expires)
      ⟨⟨⟨id, ?_⟩, trivial⟩, ⟨⟨0, rfl⟩, rfl⟩, rfl, ?_⟩ (.nil _))
  · change jiffies < (filled.sys.state.timer timerA).expires
    rw [hTimer]
    exact hAhead
  · funext t
    by_cases ht : t = timerA
    · simp only [bookedAfter, ht, if_true, TimerPlan.withTimer,
        TimerPlan.booking, hTimer]
      rfl
    · simp only [bookedAfter, ht, if_false, TimerPlan.withTimer]
      rfl

/- What is booked after the two calls. -/
theorem TimerPlan.withTimer_booked
    {t : Addr}
    {b : Booking}
    (hBooked :
      (TimerPlan.withTimer jiffies expires).booked t = some b) :
    b.deadline =
        jiffies.toNat + (expires.toNat - jiffies.toNat) ∧
      b.period = 0 ∧ ¬ b.flagged := by
  have ht : t = timerA := by
    by_contra hNot
    simp [TimerPlan.withTimer, hNot] at hBooked
  subst ht
  simp only [TimerPlan.withTimer, if_true, Option.some.injEq]
    at hBooked
  subst hBooked
  exact ⟨rfl, rfl, by simp [timerFlagsExpired]⟩

/- A timer that is due at tick 1 is run there. -/
theorem timerRun_onTime_first :
    ∃ plan plan',
      Run (Guarded OnTimeOk planStep) (TimerPlan.boot 0#64)
          [.fill timerA 1#64 0#64 (some 0x5000) 0#64,
            .add timerA] plan ∧
        planStep plan .tick plan' ∧ plan.OnTime .tick plan' := by
  have hRun := TimerPlan.withTimer_run
    (show 0#64 < 1#64 by decide)
  rcases timerRun_onTime (TimerPlan.boot_started 0#64) hRun with
    ⟨_, ⟨plan', hStep⟩, hIff⟩
  refine ⟨_, plan', hRun, hStep, (hIff plan' hStep).mpr ?_⟩
  intro t b hBooked hDue
  rcases TimerPlan.withTimer_booked hBooked with ⟨_, _, hPlain⟩
  exact ⟨by decide, fun hFlag => absurd hFlag hPlain⟩

/- A timer that is due at tick 256 is not run there. -/
theorem timerTick_misses :
    ¬ ∀ (plan₀ plan plan' : TimerPlan)
        (calls : List TimerCall),
      plan₀.Started →
        Run (Guarded AddsAhead planStep) plan₀ calls plan →
          planStep plan .tick plan' →
            plan.OnTime .tick plan' := by
  intro hAll
  have hRun := TimerPlan.withTimer_run
    (show 255#64 < 256#64 by decide)
  have hStart := TimerPlan.boot_started 255#64
  have hOk : (TimerPlan.withTimer 255#64 256#64).Ok :=
    hRun.invariant TimerPlan.Ok
      (fun _ _ _ hOk hStep => hOk.step hStep.1 hStep.2) hStart.ok
  rcases hOk.tick_returns with ⟨plan', hStep⟩
  have hAhead :
      Run (Guarded AddsAhead planStep) (TimerPlan.boot 255#64)
        [.fill timerA 256#64 0#64 (some 0x5000) 0#64,
          .add timerA]
        (TimerPlan.withTimer 255#64 256#64) :=
    hRun.weaken (fun _ => True) (fun _ _ _ _ _ => trivial)
      (fun _ _ _ _ hStep => ⟨hStep.1.1, hStep.2⟩) trivial
  have hServes := (tick_onTime_iff hOk hStep).mp
    (hAll _ _ plan' _ hStart hAhead hStep)
  have hLow := (hServes timerA _ rfl ⟨0, rfl⟩).1
  revert hLow
  decide

end FeatherOS
