import FeatherOS.Kmalloc
import FeatherOS.Library.Threads

/-
  The mutex of `kernel/sync/sync.c`.

  `mutex_lock` marks the owner after it has taken the lock,
  `mutex_trylock` does not, and `mutex_unlock` clears the mark
  before it gives the lock back. A place names the next atomic
  action of a thread.

  Key definitions include:
    * `Mutex`
    * `mutexNext`
    * `MutexSafe`

  Key theorems include:
    * `mutexNext_locking`
    * `mutexNext_known`
    * `mutexRun_safe`
-/

namespace FeatherOS

--------------------
-- Model
--------------------

/- mutex_t, without the recursion count that nothing uses -/
structure Mutex where
  locked : U32
  owner : U64

inductive MutexCall where
  | lock
  | trylock
  | unlock
  deriving DecidableEq

inductive MutexPlace where
  | outside
  /- At the compare-and-swap of the fast path. -/
  | fast
  /- At the one of the waiting loop. -/
  | slow
  /- At the store of the owner. -/
  | mark
  /- At the compare-and-swap of `mutex_trylock`. -/
  | attempt
  /- The mutex is held since this call. -/
  | held (call : MutexCall)
  /- At the two stores of `mutex_unlock`. -/
  | clear (call : MutexCall)
  | release
  deriving DecidableEq

/- A thread unlocks what it holds, and nothing else. -/
def mutexNext
    (g : Mutex)
    (p : MutexPlace)
    (call : MutexCall) :
    Mutex × MutexPlace :=
  match p with
  | .outside =>
      match call with
      | .lock => (g, .fast)
      | .trylock => (g, .attempt)
      | .unlock => (g, .outside)
  | .fast =>
      if g.locked = 0#32 then
        ({ g with locked := 1#32 }, .mark)
      else
        (g, .slow)
  | .slow =>
      if g.locked = 0#32 then
        ({ g with locked := 1#32 }, .mark)
      else
        (g, .slow)
  | .mark => ({ g with owner := 1#64 }, .held .lock)
  | .attempt =>
      if g.locked = 0#32 then
        ({ g with locked := 1#32 }, .held .trylock)
      else
        (g, .outside)
  | .held how =>
      if call = .unlock then (g, .clear how) else (g, .held how)
  | .clear _ => ({ g with owner := 0#64 }, .release)
  | .release => ({ g with locked := 0#32 }, .outside)

abbrev MutexState (τ : Type) := Threads τ Mutex MutexPlace

def mutexStep
    {τ : Type}
    [DecidableEq τ] :
    MutexState τ → τ × MutexCall → MutexState τ → Prop :=
  Threads.step mutexNext

/- mutex_init(), before any thread uses the mutex -/
def mutexInit (τ : Type) : MutexState τ where
  shared := ⟨0#32, 0#64⟩
  place := fun _ => .outside

--------------------
-- Safety
--------------------

namespace MutexPlace

/- From the successful compare-and-swap to the last store -/
def holds : MutexPlace → Bool
  | .mark => true
  | .held _ => true
  | .clear _ => true
  | .release => true
  | _ => false

/- From the one store of the owner to the other -/
def marked : MutexPlace → Bool
  | .held .lock => true
  | .clear .lock => true
  | _ => false

/- What a thread that holds the mutex knows of the owner -/
def Known
    (g : Mutex)
    (p : MutexPlace) : Prop :=
  g.owner = if p.marked then 1#64 else 0#64

end MutexPlace

/-
  One thread holds the mutex at most, `mutex_is_locked` tells
  whether one does, and an owner is a holder that came by
  `mutex_lock`.
-/
structure MutexSafe
    {τ : Type}
    (s : MutexState τ) : Prop where
  alone : ∀ t u, (s.place t).holds = true →
    (s.place u).holds = true → t = u
  locked : s.shared.locked ≠ 0#32 ↔
    ∃ t, (s.place t).holds = true
  owner : s.shared.owner ≠ 0#64 ↔
    ∃ t, (s.place t).marked = true

variable {p : MutexPlace}

theorem MutexPlace.holds_of_marked
    (hMarked : p.marked = true) :
    p.holds = true := by
  cases p with
  | held call => rfl
  | clear call => rfl
  | _ => cases hMarked

theorem mutexNext_locking :
    Threads.Locking mutexNext (fun g => g.locked ≠ 0#32)
      MutexPlace.holds where
  enter := by
    intro g p call hOld hNew
    have hOne : (1#32 : U32) ≠ 0#32 := by decide
    cases p <;> cases hOld
    case outside => cases call <;> cases hNew
    all_goals
      simp only [mutexNext] at hNew ⊢
      split at hNew
      next hFree =>
        rw [if_pos hFree]
        exact ⟨not_not_intro hFree, hOne⟩
      next => cases hNew
  leave := by
    intro g p call hOld hNew
    cases p <;> cases hOld
    case release => simp [mutexNext]
    case held how =>
      simp only [mutexNext] at hNew
      split at hNew <;> cases hNew
    all_goals cases hNew
  stay := by
    intro g p call hOld hNew
    cases p <;> cases hOld
    case release => cases hNew
    case held how =>
      simp only [mutexNext]
      split <;> rfl
    all_goals rfl
  outside := by
    intro g p call hOld hNew
    cases p <;> cases hOld
    case outside => cases call <;> rfl
    all_goals
      simp only [mutexNext] at hNew ⊢
      split at hNew
      next => cases hNew
      next hTaken => rw [if_neg hTaken]

/- A free mutex has no owner, and so has one just taken. -/
theorem mutexNext_known
    {g : Mutex}
    (call : MutexCall)
    (hFree : g.locked = 0#32 → g.owner = 0#64)
    (hKnown : p.holds = true → p.Known g)
    (hIn : (mutexNext g p call).2.holds = true) :
    (mutexNext g p call).2.Known (mutexNext g p call).1 := by
  cases p with
  | outside => cases call <;> cases hIn
  | fast | slow | attempt =>
      simp only [mutexNext] at hIn ⊢
      split at hIn
      next hUnlocked =>
        rw [if_pos hUnlocked]
        exact hFree hUnlocked
      next => cases hIn
  | mark => rfl
  | held how =>
      have hOwner := hKnown rfl
      simp only [mutexNext]
      split
      · cases how <;> exact hOwner
      · exact hOwner
  | clear how => rfl
  | release => cases hIn

/- The store of the owner is undone before the lock is free. -/
theorem mutexNext_unowned
    {g : Mutex}
    (call : MutexCall)
    (hFree : g.locked = 0#32 → g.owner = 0#64)
    (hTaken : p.holds = true → g.locked ≠ 0#32)
    (hKnown : p.holds = true → p.Known g)
    (hUnlocked : (mutexNext g p call).1.locked = 0#32) :
    (mutexNext g p call).1.owner = 0#64 := by
  cases p with
  | outside => cases call <;> exact hFree hUnlocked
  | fast | slow | attempt =>
      simp only [mutexNext] at hUnlocked ⊢
      split at hUnlocked
      next => cases hUnlocked
      next hLocked =>
        rw [if_neg hLocked]
        exact hFree hUnlocked
  | mark => exact absurd hUnlocked (hTaken rfl)
  | held how =>
      have hLocked := hTaken rfl
      simp only [mutexNext] at hUnlocked ⊢
      split at hUnlocked <;> exact absurd hUnlocked hLocked
  | clear how => rfl
  | release => exact hKnown rfl

--------------------
-- Runs
--------------------

section Runs

variable {τ : Type}
variable [DecidableEq τ]

structure MutexInvariant (s : MutexState τ) : Prop where
  exclusive :
    Threads.Exclusive (fun g : Mutex => g.locked ≠ 0#32)
      MutexPlace.holds s
  known : ∀ t, (s.place t).holds = true →
    (s.place t).Known s.shared
  unowned : s.shared.locked = 0#32 → s.shared.owner = 0#64

theorem MutexInvariant.step
    {s s' : MutexState τ}
    {op : τ × MutexCall}
    (hInv : MutexInvariant s)
    (hStep : mutexStep s op s') :
    MutexInvariant s' := by
  rcases op with ⟨t, call⟩
  subst hStep
  exact
    { exclusive := hInv.exclusive.next mutexNext_locking t call
      known := hInv.exclusive.known_next mutexNext_locking
        hInv.known
        (mutexNext_known call hInv.unowned (hInv.known t))
      unowned := mutexNext_unowned call hInv.unowned
        (hInv.exclusive.taken t) (hInv.known t) }

omit [DecidableEq τ] in
theorem MutexInvariant.safe
    {s : MutexState τ}
    (hInv : MutexInvariant s) :
    MutexSafe s where
  alone := hInv.exclusive.alone
  locked := by
    constructor
    · intro hLocked
      by_contra hNone
      apply hInv.exclusive.free _ hLocked
      intro t
      exact Bool.eq_false_iff.mpr fun ht => hNone ⟨t, ht⟩
    · rintro ⟨t, ht⟩
      exact hInv.exclusive.taken t ht
  owner := by
    constructor
    · intro hOwner
      by_contra hNone
      have hUnmarked : ∀ t, (s.place t).marked = false := by
        intro t
        exact Bool.eq_false_iff.mpr fun ht => hNone ⟨t, ht⟩
      have hNobody : ∀ t, (s.place t).holds = false := by
        intro t
        apply Bool.eq_false_iff.mpr
        intro ht
        have hKnown := hInv.known t ht
        rw [MutexPlace.Known, hUnmarked t] at hKnown
        exact hOwner hKnown
      exact hOwner (hInv.unowned
        (not_not.mp (hInv.exclusive.free hNobody)))
    · rintro ⟨t, ht⟩
      have hKnown := hInv.known t (MutexPlace.holds_of_marked ht)
      rw [MutexPlace.Known, ht] at hKnown
      rw [hKnown]
      decide

/- For any number of threads, and in every interleaving -/
theorem mutexRun_safe
    {calls : List (τ × MutexCall)}
    {s : MutexState τ}
    (hRun : Run mutexStep (mutexInit τ) calls s) :
    MutexSafe s := by
  have hInv : MutexInvariant s := by
    apply hRun.invariant MutexInvariant
    · intro s op s' hInv hStep
      exact hInv.step hStep
    · constructor
      · exact .start (fun _ => rfl) fun hTaken => hTaken rfl
      · intro t hIn
        cases hIn
      · intro _
        rfl
  exact hInv.safe

end Runs

/- One thread waits until the other has unlocked. -/
def lockAndWait : List (Bool × MutexCall) :=
  List.replicate 4 (false, .trylock) ++
    List.replicate 4 (true, .lock) ++
    List.replicate 3 (false, .unlock) ++
    List.replicate 2 (true, .lock)

theorem mutexRun_safe_wait :
    MutexSafe ((mutexInit Bool).after mutexNext lockAndWait) :=
  mutexRun_safe (Threads.after_run lockAndWait)

end FeatherOS
