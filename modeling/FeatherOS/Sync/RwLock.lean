import FeatherOS.Kmalloc
import FeatherOS.Library.Threads

/-
  The read-write lock of `kernel/sync/sync.c`.

  A place names the next atomic action of a thread and the
  call that it is in. `readers++` and `readers--` are a load
  and a store. The counters are 32-bit words and wrap.

  Key definitions include:
    * `RwLock`
    * `rwNext`
    * `RwInvariant`
    * `RwExclusive`
    * `RwSafe`

  Key theorems include:
    * `rwNext_effect`
    * `rwRun_safe`
-/

namespace FeatherOS

--------------------
-- Model
--------------------

/- rwlock_t -/
structure RwLock where
  lock : U32
  readers : U32
  writers : U32

inductive RwCall where
  | readLock
  | readTrylock
  | readUnlock
  | writeLock
  | writeTrylock
  | writeUnlock
  deriving DecidableEq

inductive RwPlace where
  /- The thread holds nothing and is in no call. -/
  | outside
  /- It has returned from `read_lock`, or the like. -/
  | reading
  | writing
  /- At the compare-and-swap of `spin_lock`. -/
  | spin (call : RwCall)
  | testReaders (call : RwCall)
  | testWriters (call : RwCall)
  /- At the `spin_unlock` of a waiting loop. -/
  | wait (call : RwCall)
  | loadReaders (call : RwCall)
  | storeReaders (call : RwCall) (value : U32)
  | storeWriters (call : RwCall) (value : U32)
  /- At the `spin_unlock` before a result of false. -/
  | fail (call : RwCall)
  /- At the last `spin_unlock`. -/
  | finish (call : RwCall)

/- The first action with the inner lock held. -/
def RwCall.enter : RwCall → RwPlace
  | .readLock => .testWriters .readLock
  | .readTrylock => .testWriters .readTrylock
  | .readUnlock => .loadReaders .readUnlock
  | .writeLock => .testReaders .writeLock
  | .writeTrylock => .testReaders .writeTrylock
  | .writeUnlock => .storeWriters .writeUnlock 0#32

/- What follows when the lock is held by others. -/
def RwCall.busy : RwCall → RwPlace
  | .readTrylock => .fail .readTrylock
  | .writeTrylock => .fail .writeTrylock
  | call => .wait call

/- What follows when the lock is not held by others. -/
def RwCall.claim : RwCall → RwPlace
  | .writeLock => .storeWriters .writeLock 1#32
  | .writeTrylock => .storeWriters .writeTrylock 1#32
  | call => .loadReaders call

/- Where a thread stands after a call that succeeds. -/
def RwCall.done : RwCall → RwPlace
  | .readLock => .reading
  | .readTrylock => .reading
  | .readUnlock => .outside
  | .writeLock => .writing
  | .writeTrylock => .writing
  | .writeUnlock => .outside

/-
  The next action. The call matters only between two calls:
  a thread unlocks what it holds and locks when it holds
  nothing.
-/
def rwNext
    (g : RwLock)
    (p : RwPlace)
    (call : RwCall) :
    RwLock × RwPlace :=
  match p with
  | .outside =>
      if call = .readUnlock ∨ call = .writeUnlock then
        (g, .outside)
      else
        (g, .spin call)
  | .reading =>
      if call = .readUnlock then (g, .spin call) else (g, .reading)
  | .writing =>
      if call = .writeUnlock then (g, .spin call) else (g, .writing)
  | .spin call =>
      if g.lock = 0#32 then
        ({ g with lock := 1#32 }, call.enter)
      else
        (g, .spin call)
  | .testReaders call =>
      if g.readers = 0#32 then
        (g, .testWriters call)
      else
        (g, call.busy)
  | .testWriters call =>
      if g.writers = 0#32 then (g, call.claim) else (g, call.busy)
  | .wait call => ({ g with lock := 0#32 }, .spin call)
  | .loadReaders call =>
      if call = .readUnlock then
        (g, .storeReaders call (g.readers - 1#32))
      else
        (g, .storeReaders call (g.readers + 1#32))
  | .storeReaders call value =>
      ({ g with readers := value }, .finish call)
  | .storeWriters call value =>
      ({ g with writers := value }, .finish call)
  | .fail _ => ({ g with lock := 0#32 }, .outside)
  | .finish call => ({ g with lock := 0#32 }, call.done)

abbrev RwState (τ : Type) := Threads τ RwLock RwPlace

def rwStep
    {τ : Type}
    [DecidableEq τ] :
    RwState τ → τ × RwCall → RwState τ → Prop :=
  Threads.step rwNext

/- rwlock_init(), before any thread uses the lock -/
def rwlockInit (τ : Type) : RwState τ where
  shared := ⟨0#32, 0#32, 0#32⟩
  place := fun _ => .outside

--------------------
-- The Property
--------------------

namespace RwPlace

/- The thread is inside the inner spinlock. -/
def inside : RwPlace → Bool
  | outside | reading | writing | spin _ => false
  | _ => true

/-
  The thread holds the lock for reading: from the store of
  one call to that of the other.
-/
def isReader : RwPlace → Bool
  | reading => true
  | spin .readUnlock => true
  | loadReaders .readUnlock => true
  | storeReaders .readUnlock _ => true
  | finish .readLock => true
  | finish .readTrylock => true
  | _ => false

def isWriter : RwPlace → Bool
  | writing => true
  | spin .writeUnlock => true
  | storeWriters .writeUnlock _ => true
  | finish .writeLock => true
  | finish .writeTrylock => true
  | _ => false

end RwPlace

structure RwExclusive
    {τ : Type}
    (s : RwState τ) : Prop where
  writers_alone : ∀ t u, (s.place t).isWriter = true →
    (s.place u).isWriter = true → t = u
  no_reader : ∀ t u, (s.place t).isWriter = true →
    (s.place u).isReader = false
  writers : (∀ t, (s.place t).inside = false) →
    (s.shared.writers = 1#32 ↔
      ∃ t, (s.place t).isWriter = true)

structure RwSafe
    {τ : Type}
    [Fintype τ]
    (s : RwState τ) : Prop extends RwExclusive s where
  readers : (∀ t, (s.place t).inside = false) →
    s.shared.readers.toInt = s.count RwPlace.isReader

--------------------
-- One Step
--------------------

/- A call that takes the lock for reading. -/
def RwCall.reads : RwCall → Prop
  | .readLock | .readTrylock => True
  | _ => False

def RwCall.writes : RwCall → Prop
  | .writeLock | .writeTrylock => True
  | _ => False

/- What a thread has found out with the inner lock held. -/
def RwPlace.Known
    (g : RwLock) :
    RwPlace → Prop
  | .testReaders call => call.writes
  | .testWriters call =>
      call.reads ∨ call.writes ∧ g.readers = 0#32
  | .wait call => call.reads ∨ call.writes
  | .loadReaders call =>
      call.reads ∧ g.writers = 0#32 ∨ call = .readUnlock
  | .storeReaders call value =>
      call.reads ∧ g.writers = 0#32 ∧ value = g.readers + 1#32 ∨
        call = .readUnlock ∧ value = g.readers - 1#32
  | .storeWriters call value =>
      call.writes ∧ g.readers = 0#32 ∧ g.writers = 0#32 ∧
          value = 1#32 ∨
        call = .writeUnlock ∧ value = 0#32
  | _ => True

theorem rwNext_locking :
    Threads.Locking rwNext (fun g => g.lock ≠ 0#32)
      RwPlace.inside where
  enter := by
    intro g p call hOld hNew
    cases p <;> cases hOld
    case spin call =>
      simp only [rwNext] at hNew ⊢
      split at hNew
      next hFree =>
        rw [if_pos hFree]
        have hOne : (1#32 : U32) ≠ 0#32 := by decide
        exact ⟨not_not_intro hFree, hOne⟩
      next => cases hNew
    all_goals
      simp only [rwNext] at hNew
      split at hNew <;> cases hNew
  leave := by
    intro g p call hOld hNew
    cases p <;> cases hOld
    case wait call => simp [rwNext]
    case fail call => simp [rwNext]
    case finish call => simp [rwNext]
    all_goals
      simp only [rwNext] at hNew
      repeat' split at hNew
      all_goals
        first
        | cases hNew
        | (rename_i call _; cases call <;> cases hNew)
  stay := by
    intro g p call hOld hNew
    cases p <;> cases hOld
    case wait call => cases hNew
    case fail call => cases hNew
    case finish call => cases call <;> cases hNew
    all_goals
      simp only [rwNext]
      try split
      all_goals rfl
  outside := by
    intro g p call hOld hNew
    cases p <;> cases hOld
    case spin call =>
      simp only [rwNext] at hNew ⊢
      split at hNew
      next => cases call <;> cases hNew
      next hTaken => rw [if_neg hTaken]
    all_goals
      simp only [rwNext]
      split <;> rfl

/- A thread that moves inside the lock finds out more. -/
theorem rwNext_known
    {g : RwLock}
    {p : RwPlace}
    (call : RwCall)
    (hKnown : p.inside = true → p.Known g)
    (hIn : (rwNext g p call).2.inside = true) :
    (rwNext g p call).2.Known (rwNext g p call).1 := by
  cases p with
  | outside | reading | writing =>
      simp only [rwNext] at hIn
      split at hIn <;> cases hIn
  | spin call =>
      simp only [rwNext] at hIn ⊢
      split
      next =>
        cases call <;>
          simp [RwCall.enter, RwPlace.Known, RwCall.reads,
            RwCall.writes]
      next => trivial
  | testReaders call =>
      have hWrites : call.writes := hKnown rfl
      simp only [rwNext]
      split
      next hNone => exact .inr ⟨hWrites, hNone⟩
      next =>
        cases call <;> first
          | exact .inr hWrites
          | trivial
  | testWriters call =>
      have hCall := hKnown rfl
      simp only [rwNext]
      split
      next hNone =>
        cases call <;>
          simp_all [RwCall.claim, RwPlace.Known, RwCall.reads,
            RwCall.writes]
      next =>
        cases call <;>
          simp_all [RwCall.busy, RwPlace.Known, RwCall.reads,
            RwCall.writes]
  | loadReaders call =>
      have hCall := hKnown rfl
      simp only [rwNext]
      split
      next hUnlock => exact .inr ⟨hUnlock, rfl⟩
      next hLock =>
        rcases hCall with ⟨hReads, hNone⟩ | hUnlock
        · exact .inl ⟨hReads, hNone, rfl⟩
        · exact absurd hUnlock hLock
  | wait call => cases hIn
  | storeReaders call value => trivial
  | storeWriters call value => trivial
  | fail call => cases hIn
  | finish call => cases call <;> cases hIn

/- What a step may do to the counters and to the holders. -/
inductive RwEffect
    (g g' : RwLock)
    (p p' : RwPlace) : Prop where
  | nothing
      (hReaders : g'.readers = g.readers)
      (hWriters : g'.writers = g.writers)
      (hReader : p'.isReader = p.isReader)
      (hWriter : p'.isWriter = p.isWriter)
  | startsReading
      (hFree : g.writers = 0#32)
      (hReaders : g'.readers = g.readers + 1#32)
      (hWriters : g'.writers = g.writers)
      (hReader : p.isReader = false ∧ p'.isReader = true)
      (hWriter : p'.isWriter = p.isWriter)
  | stopsReading
      (hReaders : g'.readers = g.readers - 1#32)
      (hWriters : g'.writers = g.writers)
      (hReader : p.isReader = true ∧ p'.isReader = false)
      (hWriter : p'.isWriter = p.isWriter)
  | startsWriting
      (hFree : g.writers = 0#32)
      (hUnread : g.readers = 0#32)
      (hReaders : g'.readers = g.readers)
      (hWriters : g'.writers = 1#32)
      (hReader : p'.isReader = p.isReader)
      (hWriter : p.isWriter = false ∧ p'.isWriter = true)
  | stopsWriting
      (hReaders : g'.readers = g.readers)
      (hWriters : g'.writers = 0#32)
      (hReader : p'.isReader = p.isReader)
      (hWriter : p.isWriter = true ∧ p'.isWriter = false)

theorem rwNext_effect
    {g : RwLock}
    {p : RwPlace}
    (call : RwCall)
    (hKnown : p.inside = true → p.Known g) :
    RwEffect g (rwNext g p call).1 p (rwNext g p call).2 := by
  cases p with
  | outside =>
      simp only [rwNext]
      split
      next => exact .nothing rfl rfl rfl rfl
      next hLock =>
        refine .nothing rfl rfl ?_ ?_ <;> cases call <;>
          simp_all [RwPlace.isReader, RwPlace.isWriter]
  | reading =>
      simp only [rwNext]
      split
      next hUnlock =>
        subst hUnlock
        exact .nothing rfl rfl rfl rfl
      next => exact .nothing rfl rfl rfl rfl
  | writing =>
      simp only [rwNext]
      split
      next hUnlock =>
        subst hUnlock
        exact .nothing rfl rfl rfl rfl
      next => exact .nothing rfl rfl rfl rfl
  | spin call =>
      simp only [rwNext]
      split
      next => cases call <;> exact .nothing rfl rfl rfl rfl
      next => exact .nothing rfl rfl rfl rfl
  | testReaders call =>
      simp only [rwNext]
      split <;> cases call <;> exact .nothing rfl rfl rfl rfl
  | testWriters call =>
      have hCall := hKnown rfl
      simp only [rwNext]
      split <;> cases call <;> first
        | exact .nothing rfl rfl rfl rfl
        | simp [RwPlace.Known, RwCall.reads, RwCall.writes] at hCall
  | wait call =>
      have hCall := hKnown rfl
      cases call <;> first
        | exact .nothing rfl rfl rfl rfl
        | simp [RwPlace.Known, RwCall.reads, RwCall.writes] at hCall
  | loadReaders call =>
      simp only [rwNext]
      split <;> cases call <;> exact .nothing rfl rfl rfl rfl
  | storeReaders call value =>
      rcases hKnown rfl with ⟨hReads, hFree, rfl⟩ | ⟨rfl, rfl⟩
      · cases call <;> first
          | exact .startsReading hFree rfl rfl ⟨rfl, rfl⟩ rfl
          | cases hReads
      · exact .stopsReading rfl rfl ⟨rfl, rfl⟩ rfl
  | storeWriters call value =>
      rcases hKnown rfl with
        ⟨hWrites, hUnread, hFree, rfl⟩ | ⟨rfl, rfl⟩
      · cases call <;> first
          | exact .startsWriting hFree hUnread rfl rfl rfl
              ⟨rfl, rfl⟩
          | cases hWrites
      · exact .stopsWriting rfl rfl rfl ⟨rfl, rfl⟩
  | fail call => exact .nothing rfl rfl rfl rfl
  | finish call => cases call <;> exact .nothing rfl rfl rfl rfl

--------------------
-- Runs
--------------------

section Runs

variable {τ : Type}
variable [Fintype τ]
variable [DecidableEq τ]

structure RwInvariant (s : RwState τ) : Prop where
  exclusive :
    Threads.Exclusive (fun g : RwLock => g.lock ≠ 0#32)
      RwPlace.inside s
  known : ∀ t, (s.place t).inside = true →
    (s.place t).Known s.shared
  readers :
    s.shared.readers = BitVec.ofNat 32 (s.count RwPlace.isReader)
  writers :
    s.shared.writers = BitVec.ofNat 32 (s.count RwPlace.isWriter)
  one : s.count RwPlace.isWriter ≤ 1
  apart : s.count RwPlace.isWriter = 0 ∨
    s.count RwPlace.isReader = 0

omit [DecidableEq τ] in
theorem rwlockInit_invariant :
    RwInvariant (rwlockInit τ) where
  exclusive := .start (fun _ => rfl) fun hTaken => hTaken rfl
  known := by
    intro t hIn
    cases hIn
  readers := by
    rw [Threads.count_eq_zero.mpr fun _ => rfl]
    rfl
  writers := by
    rw [Threads.count_eq_zero.mpr fun _ => rfl]
    rfl
  one := by
    rw [Threads.count_eq_zero.mpr fun _ => rfl]
    exact Nat.zero_le 1
  apart := .inl (Threads.count_eq_zero.mpr fun _ => rfl)

/- A counter that is zero counts nobody. -/
theorem eq_zero_of_counter
    {n : Nat}
    (hFew : n < 2 ^ 32)
    (hZero : BitVec.ofNat 32 n = 0#32) :
    n = 0 := by
  have hNat := congrArg BitVec.toNat hZero
  rw [BitVec.toNat_ofNat, Nat.mod_eq_of_lt hFew] at hNat
  exact hNat

/- The counters after a step, where readers are few. -/
theorem RwEffect.counters
    {g g' : RwLock}
    {p p' : RwPlace}
    {r w r' w' : Nat}
    (hEffect : RwEffect g g' p p')
    (hReader :
      r' + p.isReader.toNat = r + p'.isReader.toNat)
    (hWriter :
      w' + p.isWriter.toNat = w + p'.isWriter.toNat)
    (hReaders : g.readers = BitVec.ofNat 32 r)
    (hWriters : g.writers = BitVec.ofNat 32 w)
    (hOne : w ≤ 1)
    (hApart : w = 0 ∨ r = 0)
    (hFew : r < 2 ^ 32) :
    g'.readers = BitVec.ofNat 32 r' ∧
      g'.writers = BitVec.ofNat 32 w' ∧
      w' ≤ 1 ∧ (w' = 0 ∨ r' = 0) := by
  cases hEffect with
  | nothing hSameReaders hSameWriters hSameReader hSameWriter =>
      have hr : r' = r := by
        rw [hSameReader] at hReader
        omega
      have hw : w' = w := by
        rw [hSameWriter] at hWriter
        omega
      rw [hSameReaders, hSameWriters, hr, hw]
      exact ⟨hReaders, hWriters, hOne, hApart⟩
  | startsReading hFree hNew hSameWriters hStarts hSameWriter =>
      have hr : r' = r + 1 := by
        rw [hStarts.1, hStarts.2] at hReader
        exact hReader
      have hw : w' = w := by
        rw [hSameWriter] at hWriter
        omega
      have hNone : w = 0 :=
        eq_zero_of_counter (by omega) (hWriters.symm.trans hFree)
      rw [hNew, hSameWriters, hReaders, hWriters, hr, hw]
      exact ⟨(BitVec.ofNat_add r 1).symm, rfl, hOne,
        .inl hNone⟩
  | stopsReading hNew hSameWriters hStops hSameWriter =>
      have hr : r = r' + 1 := by
        rw [hStops.1, hStops.2] at hReader
        exact hReader.symm
      have hw : w' = w := by
        rw [hSameWriter] at hWriter
        omega
      have hLess :
          BitVec.ofNat 32 (r' + 1) - 1#32 =
            BitVec.ofNat 32 r' := by
        rw [BitVec.ofNat_add, BitVec.add_sub_cancel]
      rw [hNew, hSameWriters, hReaders, hWriters, hr, hw, hLess]
      exact ⟨rfl, rfl, hOne, .inl (by omega)⟩
  | startsWriting hFree hUnread hSameReaders hNew hSameReader
      hStarts =>
      have hr : r' = r := by
        rw [hSameReader] at hReader
        omega
      have hNoWriter : w = 0 :=
        eq_zero_of_counter (by omega) (hWriters.symm.trans hFree)
      have hNoReader : r = 0 :=
        eq_zero_of_counter hFew (hReaders.symm.trans hUnread)
      have hw : w' = 1 := by
        rw [hStarts.1, hStarts.2, hNoWriter] at hWriter
        exact hWriter
      rw [hSameReaders, hNew, hReaders, hr, hw]
      exact ⟨rfl, rfl, Nat.le_refl 1, .inr hNoReader⟩
  | stopsWriting hSameReaders hNew hSameReader hStops =>
      have hr : r' = r := by
        rw [hSameReader] at hReader
        omega
      have hw : w' = 0 := by
        rw [hStops.1, hStops.2] at hWriter
        simp only [Bool.toNat_true, Bool.toNat_false] at hWriter
        omega
      rw [hSameReaders, hNew, hReaders, hr, hw]
      exact ⟨rfl, rfl, Nat.zero_le 1, .inl rfl⟩

/- Few readers keep the counter from wrapping to zero. -/
theorem RwInvariant.step
    {s s' : RwState τ}
    {op : τ × RwCall}
    (hInv : RwInvariant s)
    (hFew : s.count RwPlace.isReader < 2 ^ 32)
    (hStep : rwStep s op s') :
    RwInvariant s' := by
  rcases op with ⟨t, call⟩
  subst hStep
  rcases (rwNext_effect call (hInv.known t)).counters
      Threads.count_move Threads.count_move hInv.readers
      hInv.writers hInv.one hInv.apart hFew with
    ⟨hReaders, hWriters, hOne, hApart⟩
  exact
    { exclusive := hInv.exclusive.next rwNext_locking t call
      known := hInv.exclusive.known_next rwNext_locking
        hInv.known (rwNext_known call (hInv.known t))
      readers := hReaders
      writers := hWriters
      one := hOne
      apart := hApart }

omit [DecidableEq τ] in
theorem RwInvariant.exclusive_holders
    {s : RwState τ}
    (hInv : RwInvariant s) :
    RwExclusive s where
  writers_alone := by
    intro t u ht hu
    exact Threads.unique_of_count_le_one hInv.one ht hu
  no_reader := by
    intro t u ht
    rcases hInv.apart with hNone | hNone
    · have hOut := Threads.count_eq_zero.mp hNone t
      rw [ht] at hOut
      cases hOut
    · exact Threads.count_eq_zero.mp hNone u
  writers := by
    intro _
    rw [hInv.writers]
    constructor
    · intro hOne
      by_contra hNone
      have hZero : s.count RwPlace.isWriter = 0 := by
        apply Threads.count_eq_zero.mpr
        intro t
        exact Bool.eq_false_iff.mpr fun ht => hNone ⟨t, ht⟩
      rw [hZero] at hOne
      cases hOne
    · rintro ⟨t, ht⟩
      have hPos := Threads.count_pos ht
      have hOne := hInv.one
      have hCount : s.count RwPlace.isWriter = 1 := by
        omega
      rw [hCount]

/-
  As long as fewer than 2^32 threads hold the lock for
  reading, it is exclusive: for any number of threads, and in
  every interleaving of their actions. A counter below 2^31
  is read as it is.
-/
theorem rwRun_safe
    {calls : List (τ × RwCall)}
    {s : RwState τ}
    (hRun :
      Run
        (fun s op s' => rwStep s op s' ∧
          s'.count RwPlace.isReader < 2 ^ 32)
        (rwlockInit τ) calls s) :
    RwExclusive s ∧
      (s.count RwPlace.isReader < 2 ^ 31 → RwSafe s) := by
  have hBoth :
      RwInvariant s ∧ s.count RwPlace.isReader < 2 ^ 32 := by
    apply hRun.invariant fun s =>
      RwInvariant s ∧ s.count RwPlace.isReader < 2 ^ 32
    · rintro s op s' ⟨hInv, hFew⟩ ⟨hStep, hStillFew⟩
      exact ⟨hInv.step hFew hStep, hStillFew⟩
    · refine ⟨rwlockInit_invariant, ?_⟩
      rw [Threads.count_eq_zero.mpr fun _ => rfl]
      decide
  refine ⟨hBoth.1.exclusive_holders, fun hFew =>
    ⟨hBoth.1.exclusive_holders, fun _ => ?_⟩⟩
  rw [hBoth.1.readers, BitVec.toInt_eq_toNat_of_lt]
  · rw [BitVec.toNat_ofNat]
    omega
  · rw [BitVec.toNat_ofNat]
    omega

/- With few threads there are few readers. -/
theorem rwRun_of_few
    (hFew : Fintype.card τ < 2 ^ 32)
    {calls : List (τ × RwCall)}
    {s : RwState τ}
    (hRun : Run rwStep (rwlockInit τ) calls s) :
    Run
      (fun s op s' => rwStep s op s' ∧
        s'.count RwPlace.isReader < 2 ^ 32)
      (rwlockInit τ) calls s := by
  refine hRun.weaken (fun _ => True) (fun _ _ _ _ _ => trivial)
    ?_ trivial
  intro s op s' _ hStep
  exact ⟨hStep, Nat.lt_of_le_of_lt Threads.count_le_card hFew⟩

end Runs

section ManyReaders

variable {τ : Type}
variable [DecidableEq τ]

/- A thread takes the lock for reading by six actions. -/
theorem readLock_run
    {n : U32}
    {place : τ → RwPlace}
    {t : τ}
    (hOut : place t = .outside) :
    Run rwStep ⟨⟨0#32, n, 0#32⟩, place⟩
      (List.replicate 6 (t, .readLock))
      ⟨⟨0#32, n + 1#32, 0#32⟩,
        Function.update place t .reading⟩ := by
  have hSame : Function.update place t .outside = place := by
    rw [← hOut, Function.update_eq_self]
  conv in Run _ _ _ _ => rw [← hSame]
  rw [Function.update_idem]
  exact .cons Threads.next_update.symm
    (.cons Threads.next_update.symm
    (.cons Threads.next_update.symm
    (.cons Threads.next_update.symm
    (.cons Threads.next_update.symm
    (.cons Threads.next_update.symm (.nil _))))))

/- All the threads of a list take it for reading. -/
theorem readLocks_run
    {ts : List τ}
    (hNodup : ts.Nodup)
    {n : U32}
    {place : τ → RwPlace}
    (hOut : ∀ t ∈ ts, place t = .outside) :
    Run rwStep ⟨⟨0#32, n, 0#32⟩, place⟩
      (ts.flatMap fun t => List.replicate 6 (t, .readLock))
      ⟨⟨0#32, n + BitVec.ofNat 32 ts.length, 0#32⟩,
        fun t => if t ∈ ts then .reading else place t⟩ := by
  induction ts generalizing n place with
  | nil =>
      simp only [List.flatMap_nil, List.length_nil,
        List.not_mem_nil, if_false, BitVec.add_zero]
      exact .nil _
  | cons t ts ih =>
      rcases List.nodup_cons.mp hNodup with ⟨hFresh, hRest⟩
      have hFirst := readLock_run (n := n)
        (hOut t List.mem_cons_self)
      have hLater : ∀ u ∈ ts,
          Function.update place t .reading u = .outside := by
        intro u hu
        have hut : u ≠ t := by
          rintro rfl
          exact hFresh hu
        rw [Function.update_of_ne hut]
        exact hOut u (List.mem_cons_of_mem t hu)
      have hRun := hFirst.append (ih hRest (n := n + 1#32) hLater)
      have hCount :
          n + 1#32 + BitVec.ofNat 32 ts.length =
            n + BitVec.ofNat 32 (t :: ts).length := by
        rw [List.length_cons, Nat.add_comm, BitVec.ofNat_add,
          BitVec.add_assoc]
      have hPlaces :
          (fun u => if u ∈ ts then RwPlace.reading
            else Function.update place t .reading u) =
          fun u => if u ∈ t :: ts then .reading else place u := by
        funext u
        rw [Function.update_apply]
        by_cases hu : u = t <;> by_cases hMem : u ∈ ts <;>
          simp [hu, hMem]
      rw [hCount, hPlaces] at hRun
      exact hRun

end ManyReaders

/-
  With 2^31 threads that have taken the lock for reading the
  counter has wrapped to a negative number.
-/
theorem readers_wrap :
    ¬ ∀ (τ : Type) [Fintype τ] [DecidableEq τ]
        (calls : List (τ × RwCall)) (s : RwState τ),
      Run rwStep (rwlockInit τ) calls s → RwSafe s := by
  intro hAll
  have hRun : Run rwStep (rwlockInit (Fin (2 ^ 31))) _ _ :=
    readLocks_run (List.nodup_finRange _) fun _ _ => rfl
  have hSafe := hAll (Fin (2 ^ 31)) _ _ hRun
  have hEvery : ∀ t : Fin (2 ^ 31), t ∈ List.finRange (2 ^ 31) :=
    List.mem_finRange
  simp only [hEvery, if_true, List.length_finRange] at hSafe
  have hReaders := hSafe.readers fun _ => rfl
  rw [Threads.count_eq_card fun _ => rfl, Fintype.card_fin]
    at hReaders
  revert hReaders
  decide

/- One thread reads while another waits to write. -/
def readThenWrite : List (Fin 2 × RwCall) :=
  List.replicate 6 (0, .readLock) ++
    List.replicate 5 (1, .writeLock)

theorem rwRun_safe_wait :
    RwSafe ((rwlockInit (Fin 2)).after rwNext readThenWrite) :=
  (rwRun_safe (rwRun_of_few (by decide)
    (Threads.after_run readThenWrite))).2
    (Threads.count_le_card.trans_lt (by decide))

end FeatherOS
