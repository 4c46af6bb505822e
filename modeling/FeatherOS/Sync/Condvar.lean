import FeatherOS.Kmalloc
import FeatherOS.Library.Threads

/-
  The condition variable of `kernel/sync/sync.c`.

  `condvar_signal` and `condvar_broadcast` both raise one
  flag, and the first waiter that sees it lowers it again. So
  a broadcast wakes everyone only when no more than one thread
  waits.

  Key definitions include:
    * `Condvar`
    * `cvNext`
    * `WakesAll`
    * `WakesOne`

  Key theorems include:
    * `cvNext_effect`
    * `broadcast_wakes_iff`
-/

namespace FeatherOS

--------------------
-- Model
--------------------

/- condvar_t -/
structure Condvar where
  signaled : U32
  lock : U32

inductive CvCall where
  | waitSpin
  | signal
  | broadcast
  deriving DecidableEq

inductive CvPlace where
  | idle
  /- At the compare-and-swap of `spin_lock`. -/
  | spin (call : CvCall)
  /- At the test of `condvar_wait_spin`. -/
  | test
  /- At the `spin_unlock` in the loop. -/
  | release
  /- At `cv->signaled = 0`. -/
  | clear
  /- At `cv->signaled = 1`. -/
  | raise (call : CvCall)
  /- At the last `spin_unlock`. -/
  | finish (call : CvCall)
  deriving DecidableEq

def CvCall.enter : CvCall → CvPlace
  | .waitSpin => .test
  | call => .raise call

def cvNext
    (g : Condvar)
    (p : CvPlace)
    (call : CvCall) :
    Condvar × CvPlace :=
  match p with
  | .idle => (g, .spin call)
  | .spin call =>
      if g.lock = 0#32 then
        ({ g with lock := 1#32 }, call.enter)
      else
        (g, .spin call)
  | .test =>
      if g.signaled = 0#32 then (g, .release) else (g, .clear)
  | .release => ({ g with lock := 0#32 }, .spin .waitSpin)
  | .clear => ({ g with signaled := 0#32 }, .finish .waitSpin)
  | .raise call => ({ g with signaled := 1#32 }, .finish call)
  | .finish _ => ({ g with lock := 0#32 }, .idle)

abbrev CvState (τ : Type) := Threads τ Condvar CvPlace

def cvStep
    {τ : Type}
    [DecidableEq τ] :
    CvState τ → τ × CvCall → CvState τ → Prop :=
  Threads.step cvNext

/- condvar_init(), before any thread uses the variable -/
def condvarInit (τ : Type) : CvState τ where
  shared := ⟨0#32, 0#32⟩
  place := fun _ => .idle

--------------------
-- The Property
--------------------

namespace CvPlace

def inside : CvPlace → Bool
  | idle | spin _ => false
  | _ => true

/- The thread is inside `condvar_wait_spin`. -/
def inWait : CvPlace → Bool
  | spin .waitSpin | test | release | clear | finish .waitSpin =>
      true
  | _ => false

/- The thread has not seen the flag. -/
def waiting : CvPlace → Bool
  | spin .waitSpin | test | release => true
  | _ => false

end CvPlace

section Broadcast

variable {τ : Type}
variable [DecidableEq τ]

/-
  A step of a thread inside `condvar_wait_spin`: there are no
  further waits or signals.
-/
def waiterStep :
    CvState τ → τ × CvCall → CvState τ → Prop :=
  Guarded (fun s op => (s.place op.1).inWait = true) cvStep

/- Nobody is left waiting with the flag down. -/
def WakesAll (s : CvState τ) : Prop :=
  ∀ later s', Run waiterStep s later s' →
    ∀ t, (s.place t).inWait = true →
      (s'.place t).waiting = true →
        s'.shared.signaled ≠ 0#32

/- At most one thread gets to see the flag. -/
def WakesOne (s : CvState τ) : Prop :=
  ∀ later s', Run waiterStep s later s' →
    ∀ t u, (s.place t).inWait = true →
      (s.place u).inWait = true →
        (s'.place t).waiting = false →
          (s'.place u).waiting = false → t = u

/- At most one thread waits. -/
def AtMostOneWaits (s : CvState τ) : Prop :=
  ∀ t u, (s.place t).inWait = true →
    (s.place u).inWait = true → t = u

--------------------
-- One Step
--------------------

/- What a thread knows of the flag with the lock held. -/
def CvPlace.Known
    (g : Condvar) :
    CvPlace → Prop
  | .clear => g.signaled ≠ 0#32
  | .raise call => call ≠ .waitSpin
  | .finish .waitSpin => True
  | .finish _ => g.signaled ≠ 0#32
  | _ => True

theorem cvNext_locking :
    Threads.Locking cvNext (fun g => g.lock ≠ 0#32)
      CvPlace.inside where
  enter := by
    intro g p call hOld hNew
    cases p <;> cases hOld
    case idle => cases hNew
    case spin call =>
      simp only [cvNext] at hNew ⊢
      split at hNew
      next hFree =>
        have hOne : (1#32 : U32) ≠ 0#32 := by decide
        rw [if_pos hFree]
        exact ⟨not_not_intro hFree, hOne⟩
      next => cases hNew
  leave := by
    intro g p call hOld hNew
    cases p <;> cases hOld
    case release => exact not_not_intro rfl
    case finish call => exact not_not_intro rfl
    case test =>
      simp only [cvNext] at hNew
      split at hNew <;> cases hNew
    case clear => cases hNew
    case raise call => cases hNew
  stay := by
    intro g p call hOld hNew
    cases p <;> cases hOld
    case release => cases hNew
    case finish call => cases hNew
    case test =>
      simp only [cvNext]
      split <;> rfl
    case clear => rfl
    case raise call => rfl
  outside := by
    intro g p call hOld hNew
    cases p <;> cases hOld
    case idle => rfl
    case spin call =>
      simp only [cvNext] at hNew ⊢
      split at hNew
      next => cases call <;> cases hNew
      next hTaken => rw [if_neg hTaken]

theorem cvNext_known
    {g : Condvar}
    {p : CvPlace}
    (call : CvCall)
    (hKnown : p.inside = true → p.Known g) :
    (cvNext g p call).2.Known (cvNext g p call).1 := by
  have hOne : (1#32 : U32) ≠ 0#32 := by decide
  cases p with
  | idle => trivial
  | spin call =>
      simp only [cvNext]
      split
      next => cases call <;> simp [CvCall.enter, CvPlace.Known]
      next => trivial
  | test =>
      simp only [cvNext]
      split
      next => trivial
      next hUp => exact hUp
  | release => trivial
  | clear => trivial
  | raise call =>
      have hCall := hKnown rfl
      cases call
      case waitSpin => exact absurd rfl hCall
      case signal => exact hOne
      case broadcast => exact hOne
  | finish call => trivial

structure CvInvariant (s : CvState τ) : Prop where
  exclusive :
    Threads.Exclusive (fun g : Condvar => g.lock ≠ 0#32)
      CvPlace.inside s
  known : ∀ t, (s.place t).inside = true →
    (s.place t).Known s.shared

omit [DecidableEq τ] in
theorem condvarInit_invariant :
    CvInvariant (condvarInit τ) where
  exclusive := .start (fun _ => rfl) fun hTaken => hTaken rfl
  known := by
    intro t hIn
    cases hIn

theorem CvInvariant.step
    {s s' : CvState τ}
    {op : τ × CvCall}
    (hInv : CvInvariant s)
    (hStep : cvStep s op s') :
    CvInvariant s' := by
  rcases op with ⟨t, call⟩
  subst hStep
  constructor
  · exact hInv.exclusive.next cvNext_locking t call
  · exact hInv.exclusive.known_next cvNext_locking hInv.known
      fun _ => cvNext_known call (hInv.known t)

--------------------
-- After A Signal
--------------------

/-
  A signal or a broadcast has completed: the flag is up, the
  lock is free and all who wait are about to take it.
-/
structure Signaled (s : CvState τ) : Prop where
  invariant : CvInvariant s
  free : s.shared.lock = 0#32
  raised : s.shared.signaled ≠ 0#32
  spinning : ∀ t, (s.place t).inWait = true →
    s.place t = .spin .waitSpin

theorem CvInvariant.signaled
    {s₀ s : CvState τ}
    {b : τ}
    {call next : CvCall}
    (hInv : CvInvariant s₀)
    (hCall : call ≠ .waitSpin)
    (hFinish : s₀.place b = .finish call)
    (hStep : cvStep s₀ (b, next) s) :
    Signaled s := by
  have hAfter := hInv.step hStep
  have hIn : (s₀.place b).inside = true := by
    rw [hFinish]
    rfl
  have hUp : s₀.shared.signaled ≠ 0#32 := by
    have hKnown := hInv.known b hIn
    rw [hFinish] at hKnown
    cases call
    case waitSpin => exact absurd rfl hCall
    case signal => exact hKnown
    case broadcast => exact hKnown
  subst hStep
  refine ⟨hAfter, ?_, ?_, ?_⟩
  · rw [Threads.next_shared, hFinish]
    rfl
  · rw [Threads.next_shared, hFinish]
    exact hUp
  · intro t ht
    by_cases htb : t = b
    · subst htb
      rw [Threads.next_place_self, hFinish] at ht
      cases ht
    · have hOut := hInv.exclusive.others_outside hIn htb
      rw [Threads.next_place_of_ne htb] at ht ⊢
      cases hPlace : s₀.place t with
      | spin call =>
          rw [hPlace] at ht
          cases call <;> first
            | rfl
            | cases ht
      | idle =>
          rw [hPlace] at ht
          cases ht
      | _ =>
          rw [hPlace] at hOut
          cases hOut

--------------------
-- The Waiters Go On
--------------------

/-
  The flag is up and nobody has lowered it, or it is down and
  one thread of the group has seen it.
-/
structure Rousing
    (group : τ → Prop)
    (s : CvState τ) : Prop where
  invariant : CvInvariant s
  members : ∀ t, (s.place t).inWait = true → group t
  flag :
    (s.shared.signaled ≠ 0#32 ∧
      ∀ t, group t →
        (s.place t).waiting = true ∨ s.place t = .clear) ∨
    (s.shared.signaled = 0#32 ∧
      ∃ w, group w ∧ (s.place w).waiting = false ∧
        ∀ t, group t → t ≠ w → (s.place t).waiting = true)

omit [DecidableEq τ] in
theorem Signaled.rousing
    {s : CvState τ}
    (hSignaled : Signaled s) :
    Rousing (fun t => (s.place t).inWait = true) s where
  invariant := hSignaled.invariant
  members := fun _ ht => ht
  flag := by
    refine .inl ⟨hSignaled.raised, ?_⟩
    intro t ht
    rw [hSignaled.spinning t ht]
    exact .inl rfl

/- What a waiter may do to the flag. -/
inductive CvEffect
    (g g' : Condvar)
    (p p' : CvPlace) : Prop where
  | waits
      (hFlag : g'.signaled = g.signaled)
      (hOld : p.waiting = true)
      (hNew : p'.waiting = true)
      (hStill : p'.inWait = true)
  | sees
      (hFlag : g'.signaled = g.signaled)
      (hUp : g.signaled ≠ 0#32)
      (hOld : p.waiting = true)
      (hNew : p' = .clear)
  | lowers
      (hOld : p = .clear)
      (hDown : g'.signaled = 0#32)
      (hNew : p' = .finish .waitSpin)
  | leaves
      (hFlag : g'.signaled = g.signaled)
      (hOld : p = .finish .waitSpin)
      (hNew : p' = .idle)

theorem cvNext_effect
    {g : Condvar}
    {p : CvPlace}
    (call : CvCall)
    (hWait : p.inWait = true) :
    CvEffect g (cvNext g p call).1 p (cvNext g p call).2 := by
  cases p with
  | idle => cases hWait
  | spin call =>
      cases call
      case waitSpin =>
        simp only [cvNext]
        split <;> exact .waits rfl rfl rfl rfl
      all_goals cases hWait
  | test =>
      simp only [cvNext]
      split
      next => exact .waits rfl rfl rfl rfl
      next hUp => exact .sees rfl hUp rfl rfl
  | release => exact .waits rfl rfl rfl rfl
  | clear => exact .lowers rfl rfl rfl
  | raise call => cases hWait
  | finish call =>
      cases call
      case waitSpin => exact .leaves rfl rfl rfl
      all_goals cases hWait

/- The flag is still up, or the first thread lowers it. -/
theorem Rousing.step_up
    {group : τ → Prop}
    {s : CvState τ}
    {t : τ}
    {call : CvCall}
    (hInv : CvInvariant s)
    (hMember : group t)
    (hUp : s.shared.signaled ≠ 0#32)
    (hWaiting : ∀ u, group u →
      (s.place u).waiting = true ∨ s.place u = .clear)
    (hEffect :
      CvEffect s.shared (s.next cvNext t call).shared (s.place t)
        ((s.next cvNext t call).place t)) :
    ((s.next cvNext t call).shared.signaled ≠ 0#32 ∧
      ∀ u, group u →
        ((s.next cvNext t call).place u).waiting = true ∨
          (s.next cvNext t call).place u = .clear) ∨
    ((s.next cvNext t call).shared.signaled = 0#32 ∧
      ∃ w, group w ∧
        ((s.next cvNext t call).place w).waiting = false ∧
        ∀ u, group u → u ≠ w →
          ((s.next cvNext t call).place u).waiting = true) := by
  cases hEffect with
  | waits hFlag _ hNew _ =>
      refine .inl ⟨hFlag ▸ hUp, ?_⟩
      intro u hu
      by_cases hut : u = t
      · rw [hut]
        exact .inl hNew
      · rw [Threads.next_place_of_ne hut]
        exact hWaiting u hu
  | sees hFlag _ _ hNew =>
      refine .inl ⟨hFlag ▸ hUp, ?_⟩
      intro u hu
      by_cases hut : u = t
      · rw [hut]
        exact .inr hNew
      · rw [Threads.next_place_of_ne hut]
        exact hWaiting u hu
  | lowers hOld hDown hNew =>
      refine .inr ⟨hDown, t, hMember, ?_, ?_⟩
      · rw [hNew]
        rfl
      · intro u hu hut
        rw [Threads.next_place_of_ne hut]
        rcases hWaiting u hu with hWait | hClear
        · exact hWait
        · have hAlone := hInv.exclusive.alone u t
          rw [hClear, hOld] at hAlone
          exact absurd (hAlone rfl rfl) hut
  | leaves _ hOld _ =>
      have hThis := hWaiting t hMember
      rw [hOld] at hThis
      rcases hThis with hWait | hClear
      · cases hWait
      · cases hClear

/- With the flag down only the first thread goes on. -/
theorem Rousing.step_down
    {group : τ → Prop}
    {s : CvState τ}
    {t w : τ}
    {call : CvCall}
    (hInv : CvInvariant s)
    (hMember : group t)
    (hDown : s.shared.signaled = 0#32)
    (hw : (s.place w).waiting = false)
    (hOthers : ∀ u, group u → u ≠ w →
      (s.place u).waiting = true)
    (hEffect :
      CvEffect s.shared (s.next cvNext t call).shared (s.place t)
        ((s.next cvNext t call).place t)) :
    (s.next cvNext t call).shared.signaled = 0#32 ∧
      ((s.next cvNext t call).place w).waiting = false ∧
      ∀ u, group u → u ≠ w →
        ((s.next cvNext t call).place u).waiting = true := by
  cases hEffect with
  | waits hFlag hOld hNew _ =>
      have hwt : w ≠ t := by
        rintro rfl
        rw [hw] at hOld
        cases hOld
      refine ⟨hFlag.trans hDown, ?_, ?_⟩
      · rw [Threads.next_place_of_ne hwt]
        exact hw
      · intro u hu huw
        by_cases hut : u = t
        · rw [hut]
          exact hNew
        · rw [Threads.next_place_of_ne hut]
          exact hOthers u hu huw
  | sees _ hUp _ _ => exact absurd hDown hUp
  | lowers hOld _ _ =>
      have hKnown := hInv.known t
      rw [hOld] at hKnown
      exact absurd hDown (hKnown rfl)
  | leaves hFlag hOld hNew =>
      have htw : t = w := by
        by_contra htw
        have hWait := hOthers t hMember htw
        rw [hOld] at hWait
        cases hWait
      subst htw
      refine ⟨hFlag.trans hDown, ?_, ?_⟩
      · rw [hNew]
        rfl
      · intro u hu hut
        rw [Threads.next_place_of_ne hut]
        exact hOthers u hu hut

/- The flag is lowered by one thread, which does not wait. -/
theorem Rousing.step
    {group : τ → Prop}
    {s s' : CvState τ}
    {op : τ × CvCall}
    (hRousing : Rousing group s)
    (hStep : waiterStep s op s') :
    Rousing group s' := by
  rcases op with ⟨t, call⟩
  rcases hStep with ⟨hWait, hStep⟩
  have hInv := hRousing.invariant
  have hAfter := hInv.step hStep
  have hMember : group t := hRousing.members t hWait
  subst hStep
  have hEffect :
      CvEffect s.shared (s.next cvNext t call).shared (s.place t)
        ((s.next cvNext t call).place t) := by
    rw [Threads.next_shared, Threads.next_place_self]
    exact cvNext_effect call hWait
  refine ⟨hAfter, ?_, ?_⟩
  · intro u hu
    by_cases hut : u = t
    · rw [hut]
      exact hMember
    · rw [Threads.next_place_of_ne hut] at hu
      exact hRousing.members u hu
  · rcases hRousing.flag with
      ⟨hUp, hWaiting⟩ | ⟨hDown, w, hGroup, hw, hOthers⟩
    · exact Rousing.step_up hInv hMember hUp hWaiting hEffect
    · rcases Rousing.step_down hInv hMember hDown hw hOthers
          hEffect with
        ⟨hStillDown, hNew, hRest⟩
      exact .inr ⟨hStillDown, w, hGroup, hNew, hRest⟩

theorem Signaled.rousing_run
    {s s' : CvState τ}
    {later : List (τ × CvCall)}
    (hSignaled : Signaled s)
    (hRun : Run waiterStep s later s') :
    Rousing (fun t => (s.place t).inWait = true) s' :=
  hRun.invariant _ (fun _ _ _ hRousing hStep =>
    hRousing.step hStep) hSignaled.rousing

/- Whoever sees the flag, it is one thread. -/
theorem Signaled.wakesOne
    {s : CvState τ}
    (hSignaled : Signaled s) :
    WakesOne s := by
  intro later s' hRun t u ht hu htWoken huWoken
  have hRousing := hSignaled.rousing_run hRun
  rcases hRousing.flag with
    ⟨_, hWaiting⟩ | ⟨_, w, _, _, hOthers⟩
  · have hClear : ∀ v, (s.place v).inWait = true →
        (s'.place v).waiting = false → s'.place v = .clear := by
      intro v hv hWoken
      rcases hWaiting v hv with hWait | hClear
      · rw [hWoken] at hWait
        cases hWait
      · exact hClear
    apply hRousing.invariant.exclusive.alone t u
    · rw [hClear t ht htWoken]
      rfl
    · rw [hClear u hu huWoken]
      rfl
  · have hFirst : ∀ v, (s.place v).inWait = true →
        (s'.place v).waiting = false → v = w := by
      intro v hv hWoken
      by_contra hvw
      have hWait := hOthers v hv hvw
      rw [hWoken] at hWait
      cases hWait
    rw [hFirst t ht htWoken, hFirst u hu huWoken]

/- One thread sees the flag by itself and lowers it. -/
theorem takes_flag
    {place : τ → CvPlace}
    {t : τ}
    (up : U32)
    (hUp : up ≠ 0#32)
    (hSpin : place t = .spin .waitSpin) :
    Run waiterStep ⟨⟨up, 0#32⟩, place⟩
      (List.replicate 3 (t, .waitSpin))
      ⟨⟨0#32, 1#32⟩,
        Function.update place t (.finish .waitSpin)⟩ := by
  have hWaits : ∀ g p, p.inWait = true →
      ((⟨g, Function.update place t p⟩ : CvState τ).place
        t).inWait = true := by
    intro g p hWait
    simp only [Function.update_self]
    exact hWait
  have hTest :
      cvNext ⟨up, 1#32⟩ .test .waitSpin =
        (⟨up, 1#32⟩, .clear) :=
    if_neg hUp
  have hSees :
      cvStep ⟨⟨up, 1#32⟩, Function.update place t .test⟩
        (t, .waitSpin)
        ⟨⟨up, 1#32⟩, Function.update place t .clear⟩ := by
    unfold cvStep Threads.step
    rw [Threads.next_update, hTest]
  have hSame :
      Function.update place t (.spin .waitSpin) = place := by
    rw [← hSpin, Function.update_eq_self]
  conv in Run _ _ _ _ => rw [← hSame]
  rw [Function.update_idem]
  exact .cons ⟨hWaits _ _ rfl, Threads.next_update.symm⟩
    (.cons ⟨hWaits _ _ rfl, hSees⟩
    (.cons ⟨hWaits _ _ rfl, Threads.next_update.symm⟩ (.nil _)))

/-
  After a broadcast everyone wakes up if and only if no more
  than one thread waits.
-/
theorem Signaled.wakesAll_iff
    {s : CvState τ}
    (hSignaled : Signaled s) :
    WakesAll s ↔ AtMostOneWaits s := by
  constructor
  · intro hAll t u ht hu
    by_contra htu
    have hTakes := takes_flag s.shared.signaled hSignaled.raised
      (hSignaled.spinning t ht)
    have hShared :
        (⟨s.shared.signaled, 0#32⟩ : Condvar) = s.shared := by
      rw [← hSignaled.free]
    rw [hShared] at hTakes
    have hWait :
        (Function.update s.place t (.finish .waitSpin)
          u).waiting = true := by
      rw [Function.update_of_ne (Ne.symm htu),
        hSignaled.spinning u hu]
      rfl
    exact hAll _ _ hTakes u hu hWait rfl
  · intro hOne later s' hRun t ht hWait hDown
    have hRousing := hSignaled.rousing_run hRun
    rcases hRousing.flag with
      ⟨hUp, _⟩ | ⟨_, w, hw, hWoken, _⟩
    · exact hUp hDown
    · rw [hOne t w ht hw, hWoken] at hWait
      cases hWait

/-
  However the broadcast came about, with any number of
  threads: afterwards nobody is left waiting with the flag
  down if and only if no more than one thread waits. A signal
  releases at most one waiter.
-/
theorem broadcast_wakes_iff
    {calls : List (τ × CvCall)}
    {s₀ s : CvState τ}
    {b : τ}
    {call next : CvCall}
    (hRun : Run cvStep (condvarInit τ) calls s₀)
    (hFinish : s₀.place b = .finish call)
    (hStep : cvStep s₀ (b, next) s) :
    (call = .broadcast → (WakesAll s ↔ AtMostOneWaits s)) ∧
      (call = .signal → WakesOne s) := by
  have hInv : CvInvariant s₀ :=
    hRun.invariant CvInvariant
      (fun _ _ _ hInv hStep => hInv.step hStep)
      condvarInit_invariant
  constructor
  · rintro rfl
    have hSignaled := hInv.signaled (by decide) hFinish hStep
    exact hSignaled.wakesAll_iff
  · rintro rfl
    have hSignaled := hInv.signaled (by decide) hFinish hStep
    exact hSignaled.wakesOne

end Broadcast

/- Two threads wait and a third one is about to broadcast. -/
def twoWaiters : CvState (Fin 3) :=
  (condvarInit (Fin 3)).after cvNext
    [(0, .waitSpin), (1, .waitSpin), (2, .broadcast),
      (2, .broadcast), (2, .broadcast)]

def twoWoken : CvState (Fin 3) :=
  twoWaiters.next cvNext 2 .broadcast

theorem broadcast_wakes_iff_two :
    WakesAll twoWoken ↔ AtMostOneWaits twoWoken :=
  (broadcast_wakes_iff (Threads.after_run _)
    rfl rfl).1 rfl

/- One of two waiters is left behind by a broadcast. -/
theorem broadcast_leaves_waiter :
    ¬ ∀ (τ : Type) [DecidableEq τ] (calls : List (τ × CvCall))
        (s₀ s : CvState τ) (b : τ) (next : CvCall),
      Run cvStep (condvarInit τ) calls s₀ →
        s₀.place b = .finish .broadcast →
          cvStep s₀ (b, next) s → WakesAll s := by
  intro hAll
  have hRun : Run cvStep (condvarInit (Fin 3)) _ twoWaiters :=
    Threads.after_run _
  have hAwake := hAll (Fin 3) _ _ _ 2 .broadcast hRun rfl rfl
  have hInv : CvInvariant twoWaiters :=
    hRun.invariant CvInvariant
      (fun _ _ _ hInv hStep => hInv.step hStep)
      condvarInit_invariant
  have hFinish : twoWaiters.place 2 = .finish .broadcast := rfl
  have hSignaled : Signaled (twoWaiters.next cvNext 2 .broadcast) :=
    hInv.signaled (by decide) hFinish rfl
  have hOne := hSignaled.wakesAll_iff.mp hAwake 0 1 rfl rfl
  cases hOne

end FeatherOS
