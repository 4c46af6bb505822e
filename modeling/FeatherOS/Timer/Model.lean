import FeatherOS.Kmalloc
import Mathlib.Logic.Function.Basic

/-
  The timers of `kernel/drivers/timer.c`.

  Timer records are kept in a map from their addresses, and
  the three arrays of bucket heads in one map. A loop gets a
  number of turns and gives `none` when they are used up.
  Callbacks do not touch timers; what `run_timer_list` went
  through is kept as a list.

  Key definitions include:
    * `TimerState`
    * `addTimer`
    * `delTimer`
    * `runTimerList`
    * `timerTick`
    * `runTimers`
-/

namespace FeatherOS

--------------------
-- State
--------------------

/- HZ -/
def hz : U64 := 100#64

/- TIMER_FLAGS_EXPIRED -/
def timerFlagsExpired : U32 := 0x04#32

/- TIMER_WHEEL_BITS -/
def timerWheelBits : Nat := 8

/- TIMER_WHEEL_SIZE -/
def timerWheelSize : U64 := 1#64 <<< timerWheelBits

/- TIMER_WHEEL_MASK -/
def timerWheelMask : U64 := timerWheelSize - 1#64

/- TIMER_WHEEL_LVL2 -/
def timerWheelLvl2 : U64 := 1#64 <<< (timerWheelBits * 2)

/- timer_list_t; `function` is the address of the callback. -/
structure Timer where
  next : Option Addr
  expires : U64
  period : U64
  function : Option Addr
  data : U64
  flags : U32
  deriving DecidableEq

/- timer_stats_t -/
structure TimerStats where
  totalTicks : U64
  timersAdded : U64
  timersDeleted : U64
  timersExpired : U64

/- `timer_wheel`, `timer_wheel_lvl2` and `timer_wheel_lvl3`. -/
inductive WheelLevel where
  | lvl1
  | lvl2
  | lvl3
  deriving DecidableEq

/- One entry of one of the arrays. -/
abbrev TimerBucket := WheelLevel × U64

/-
  A timer that `run_timer_list` reached, with the clock and
  the record it saw. Its function is called if there is one.
-/
structure TimerRun where
  jiffies : U64
  timer : Addr
  record : Timer
  deriving DecidableEq

/- The globals and what their pointers reach. -/
structure TimerState where
  jiffies : U64
  uptimeTicks : U64
  uptimeMs : U64
  stats : TimerStats
  timer : Addr → Timer
  wheel : TimerBucket → Option Addr
  /- the timers run so far, the last one first -/
  ran : List TimerRun

namespace TimerState

def modifyTimer
    (s : TimerState)
    (timer : Addr)
    (f : Timer → Timer) :
    TimerState :=
  { s with
    timer := Function.update s.timer timer (f (s.timer timer)) }

def setHead
    (s : TimerState)
    (bucket : TimerBucket)
    (timer : Option Addr) :
    TimerState :=
  { s with wheel := Function.update s.wheel bucket timer }

end TimerState

--------------------
-- Adding And Deleting
--------------------

def timerWheelInit (s : TimerState) : TimerState :=
  { s with wheel := fun _ => none }

def initTimer
    (s : TimerState)
    (timer : Addr) :
    TimerState :=
  s.modifyTimer timer fun _ =>
    { next := none
      expires := 0#64
      period := 0#64
      function := none
      data := 0#64
      flags := 0#32 }

/- The bucket that an expiry selects. -/
def timerBucket (expires : U64) : TimerBucket :=
  let idx := expires &&& timerWheelMask
  if expires < timerWheelSize then
    (.lvl1, idx)
  else if expires < timerWheelLvl2 then
    (.lvl2, idx)
  else
    (.lvl3, idx)

def addTimerBucket
    (s : TimerState)
    (timer : Addr) :
    TimerState :=
  let bucket := timerBucket (s.timer timer).expires
  let s := s.modifyTimer timer fun t =>
    { t with next := s.wheel bucket }
  s.setHead bucket (some timer)

def addTimer
    (s : TimerState)
    (timer : Addr) :
    TimerState :=
  let s := addTimerBucket s timer
  { s with
    stats :=
      { s.stats with
        timersAdded := s.stats.timersAdded + 1#64 } }

/- The places a `timer_list_t **` can point to. -/
inductive TimerLink where
  | head (bucket : TimerBucket)
  | next (timer : Addr)

namespace TimerState

/- `*bucket` -/
def link
    (s : TimerState) :
    TimerLink → Option Addr
  | .head bucket => s.wheel bucket
  | .next timer => (s.timer timer).next

/- `*bucket = v` -/
def setLink
    (s : TimerState)
    (v : Option Addr) :
    TimerLink → TimerState
  | .head bucket => s.setHead bucket v
  | .next timer => s.modifyTimer timer fun t => { t with next := v }

end TimerState

/- The loop of `del_timer`. -/
def delTimerLoop
    (timer : Addr) :
    Nat → TimerState → TimerLink → Option (Int × TimerState)
  | 0, _, _ => none
  | fuel + 1, s, bucket =>
      match s.link bucket with
      | none => some (0, s)
      | some t =>
          if t = timer then
            let s := s.setLink (s.timer timer).next bucket
            let s := s.modifyTimer timer fun t =>
              { t with flags := t.flags ||| timerFlagsExpired }
            some
              (1,
                { s with
                  stats :=
                    { s.stats with
                      timersDeleted :=
                        s.stats.timersDeleted + 1#64 } })
          else
            delTimerLoop timer fuel s (.next t)

def delTimer
    (fuel : Nat)
    (s : TimerState)
    (timer : Addr) :
    Option (Int × TimerState) :=
  delTimerLoop timer fuel s
    (.head (timerBucket (s.timer timer).expires))

--------------------
-- Running
--------------------

/- A periodic timer that has not been deleted before. -/
def Timer.Rearms (t : Timer) : Prop :=
  0#64 < t.period ∧ t.flags &&& timerFlagsExpired = 0#32

instance (t : Timer) : Decidable t.Rearms :=
  inferInstanceAs (Decidable (_ ∧ _))

/- One turn of the loop of `run_timer_list`. -/
def runTimer
    (s : TimerState)
    (timer : Addr) :
    TimerState :=
  let s :=
    { s with
      ran := ⟨s.jiffies, timer, s.timer timer⟩ :: s.ran
      stats :=
        { s.stats with
          timersExpired := s.stats.timersExpired + 1#64 } }
  if (s.timer timer).Rearms then
    let s := s.modifyTimer timer fun t =>
      { t with expires := t.expires + t.period }
    addTimerBucket s timer
  else
    s

/-
  The two loops that go through a list that has been taken
  off the wheel; `next` is read before the timer is handled.
-/
def timerLoop
    (handle : TimerState → Addr → TimerState) :
    Nat → TimerState → Option Addr → Option TimerState
  | 0, _, _ => none
  | _ + 1, s, none => some s
  | fuel + 1, s, some timer =>
      let next := (s.timer timer).next
      timerLoop handle fuel (handle s timer) next

def runTimerList
    (fuel : Nat)
    (s : TimerState)
    (head : TimerBucket) :
    Option TimerState :=
  timerLoop runTimer fuel (s.setHead head none) (s.wheel head)

/- Both callers look at the head first. -/
def runExpired
    (fuel : Nat)
    (s : TimerState) :
    Option TimerState :=
  let idx := s.jiffies &&& timerWheelMask
  match s.wheel (.lvl1, idx) with
  | none => some s
  | some _ => runTimerList fuel s (.lvl1, idx)

/- The move of timers out of `timer_wheel_lvl2`. -/
def cascadeLvl2
    (fuel : Nat)
    (s : TimerState) :
    Option TimerState :=
  if s.jiffies &&& (timerWheelSize - 1#64) = 0#64 then
    let idx := (s.jiffies >>> timerWheelBits) &&& timerWheelMask
    match s.wheel (.lvl2, idx) with
    | none => some s
    | some t =>
        timerLoop addTimerBucket fuel
          (s.setHead (.lvl2, idx) none) (some t)
  else
    some s

/- `jiffies++` and what is computed from it. -/
def advanceJiffies (s : TimerState) : TimerState :=
  let jiffies := s.jiffies + 1#64
  { s with
    jiffies := jiffies
    stats :=
      { s.stats with totalTicks := s.stats.totalTicks + 1#64 }
    uptimeTicks := jiffies
    uptimeMs := jiffies * 1000#64 / hz }

def timerTick
    (fuel : Nat)
    (s : TimerState) :
    Option TimerState := do
  let s := advanceJiffies s
  let s ← runExpired fuel s
  cascadeLvl2 fuel s

def runTimers
    (fuel : Nat)
    (s : TimerState) :
    Option TimerState :=
  runExpired fuel s

--------------------
-- Calls
--------------------

/-
  What the rest of the kernel does with timers; `fill` is a
  caller that writes the fields of a record.
-/
inductive TimerCall where
  | init (timer : Addr)
  | fill
      (timer : Addr)
      (expires period : U64)
      (function : Option Addr)
      (data : U64)
  | add (timer : Addr)
  | del (timer : Addr)
  | tick
  | run

def timerCall
    (fuel : Nat)
    (s : TimerState) :
    TimerCall → Option TimerState
  | .init timer => some (initTimer s timer)
  | .fill timer expires period function data =>
      some
        (s.modifyTimer timer fun t =>
          { t with
            expires := expires
            period := period
            function := function
            data := data })
  | .add timer => some (addTimer s timer)
  | .del timer => (delTimer fuel s timer).map Prod.snd
  | .tick => timerTick fuel s
  | .run => runTimers fuel s

end FeatherOS
