import FeatherOS.Kmalloc
import FeatherOS.Library.Threads

/-
  The counting semaphore of `kernel/sync/sync.c`.

  The count is read and later swapped, so what a thread has
  read may be out of date, or out of date and equal again.
  `posts`, `waits` and `trywaits` count the calls that have
  completed with a token; the source has no such fields.

  Key definitions include:
    * `Semaphore`
    * `semNext`
    * `SemConserved`

  Key theorems include:
    * `semRun_conserved`
-/

namespace FeatherOS

--------------------
-- Model
--------------------

/- semaphore_t, with the completed calls -/
structure Semaphore where
  count : U32
  maxCount : U32
  posts : Nat
  waits : Nat
  trywaits : Nat

inductive SemCall where
  | post
  | wait
  | trywait
  deriving DecidableEq

inductive SemPlace where
  | idle
  /- At the increment of `sem_post`. -/
  | increment
  /- At the `atomic_read` of `sem_wait` or `sem_trywait`. -/
  | read (call : SemCall)
  /- At the compare-and-swap, with the count that was read. -/
  | swap (call : SemCall) (old : U32)
  deriving DecidableEq

def SemCall.enter : SemCall → SemPlace
  | .post => .increment
  | .wait => .read .wait
  | .trywait => .read .trywait

/- `sem_wait` reads again, `sem_trywait` returns false. -/
def SemCall.empty : SemCall → SemPlace
  | .wait => .read .wait
  | _ => .idle

/- A token is taken by the call. -/
def Semaphore.take
    (g : Semaphore)
    (call : SemCall)
    (count : U32) :
    Semaphore :=
  match call with
  | .wait => { g with count := count, waits := g.waits + 1 }
  | _ => { g with count := count, trywaits := g.trywaits + 1 }

def semNext
    (g : Semaphore)
    (p : SemPlace)
    (call : SemCall) :
    Semaphore × SemPlace :=
  match p with
  | .idle => (g, call.enter)
  | .increment =>
      ({ g with count := g.count + 1#32, posts := g.posts + 1 },
        .idle)
  | .read call =>
      if g.count.toInt ≤ 0 then
        (g, call.empty)
      else
        (g, .swap call g.count)
  | .swap call old =>
      if g.count = old then
        (g.take call (old - 1#32), .idle)
      else
        (g, .read call)

abbrev SemState (τ : Type) := Threads τ Semaphore SemPlace

def semStep
    {τ : Type}
    [DecidableEq τ] :
    SemState τ → τ × SemCall → SemState τ → Prop :=
  Threads.step semNext

/- sem_init(), before any thread uses the semaphore -/
def semInit
    (τ : Type)
    (count maxCount : U32) :
    SemState τ where
  shared := ⟨count, maxCount, 0, 0, 0⟩
  place := fun _ => .idle

--------------------
-- Conservation
--------------------

/- The count is what was put in less what was taken. -/
def SemConserved
    (initial : U32)
    (g : Semaphore) : Prop :=
  g.count.toInt =
      initial.toInt + g.posts - (g.waits + g.trywaits) ∧
    0 ≤ g.count.toInt

/- An increment does not take the count to 2^31. -/
def SemFits
    {τ : Type}
    (s : SemState τ)
    (op : τ × SemCall) : Prop :=
  s.place op.1 = .increment →
    s.shared.count.toInt + 1 < 2 ^ 31

/- A thread swaps only a count that was positive. -/
def SemPlace.Positive : SemPlace → Prop
  | .swap _ old => 0 < old.toInt
  | _ => True

theorem semNext_positive
    {g : Semaphore}
    {p : SemPlace}
    (call : SemCall) :
    (semNext g p call).2.Positive := by
  cases p with
  | idle => cases call <;> trivial
  | increment => trivial
  | read call =>
      simp only [semNext]
      split
      next => cases call <;> trivial
      next hSome => exact Int.not_le.mp hSome
  | swap call old =>
      simp only [semNext]
      split <;> trivial

/- The step of one thread, whatever the others have done. -/
theorem semNext_conserved
    {initial : U32}
    {g : Semaphore}
    {p : SemPlace}
    (call : SemCall)
    (hPositive : p.Positive)
    (hFits : p = .increment → g.count.toInt + 1 < 2 ^ 31)
    (hConserved : SemConserved initial g) :
    SemConserved initial (semNext g p call).1 := by
  rcases hConserved with ⟨hCount, hNonneg⟩
  cases p with
  | idle => exact ⟨hCount, hNonneg⟩
  | increment =>
      have hNext :
          (g.count + 1#32).toInt = g.count.toInt + 1 := by
        have hRoom := hFits rfl
        rw [BitVec.toInt_add, BitVec.toInt_one (by decide)]
        apply Int.bmod_eq_of_le <;> omega
      simp only [semNext, SemConserved, hNext]
      omega
  | read call =>
      simp only [semNext]
      split <;> exact ⟨hCount, hNonneg⟩
  | swap call old =>
      simp only [semNext]
      split
      next hSame =>
        subst hSame
        have hPos : 0 < g.count.toInt := hPositive
        have hTop := BitVec.toInt_lt (x := g.count)
        have hNext :
            (g.count - 1#32).toInt = g.count.toInt - 1 := by
          rw [BitVec.toInt_sub, BitVec.toInt_one (by decide)]
          apply Int.bmod_eq_of_le <;> omega
        cases call <;>
          simp only [Semaphore.take, SemConserved, hNext] <;>
          omega
      next => exact ⟨hCount, hNonneg⟩

section Runs

variable {τ : Type}
variable [DecidableEq τ]

structure SemInvariant
    (initial : U32)
    (s : SemState τ) : Prop where
  positive : ∀ t, (s.place t).Positive
  conserved : SemConserved initial s.shared

theorem SemInvariant.step
    {initial : U32}
    {s s' : SemState τ}
    {op : τ × SemCall}
    (hInv : SemInvariant initial s)
    (hFits : SemFits s op)
    (hStep : semStep s op s') :
    SemInvariant initial s' := by
  rcases op with ⟨t, call⟩
  subst hStep
  constructor
  · intro u
    by_cases hu : u = t
    · subst hu
      rw [Threads.next_place_self]
      exact semNext_positive call
    · rw [Threads.next_place_of_ne hu]
      exact hInv.positive u
  · exact semNext_conserved call (hInv.positive t) hFits
      hInv.conserved

/-
  As long as the count stays below 2^31, it is the first
  count plus the completed posts less the completed waits and
  the successful trywaits, and it is never negative: for any
  number of threads, and in every interleaving.
-/
theorem semRun_conserved
    {initial maxCount : U32}
    (hInitial : 0 ≤ initial.toInt)
    {calls : List (τ × SemCall)}
    {s : SemState τ}
    (hRun :
      Run (Guarded SemFits semStep) (semInit τ initial maxCount)
        calls s) :
    SemConserved initial s.shared := by
  have hInv : SemInvariant initial s := by
    apply hRun.invariant (SemInvariant initial)
    · intro s op s' hInv hStep
      exact hInv.step hStep.1 hStep.2
    · refine ⟨fun _ => trivial, ?_, hInitial⟩
      simp [semInit]
  exact hInv.conserved

end Runs

local instance threeThreads : NeZero 3 := ⟨by decide⟩

/-
  Two threads have read a count of one; the second one swaps
  after it was taken and put back.
-/
def semCalls : List (Fin 3 × SemCall) :=
  [(0, .wait), (1, .trywait), (0, .wait), (1, .trywait),
    (0, .wait), (2, .post), (2, .post), (1, .trywait)]

theorem semRun_conserved_aba :
    SemConserved 1#32
      ((semInit (Fin 3) 1#32 1#32).after semNext
        semCalls).shared := by
  have hRun :
      Run (Guarded SemFits semStep) (semInit (Fin 3) 1#32 1#32)
        semCalls
        ((semInit (Fin 3) 1#32 1#32).after semNext semCalls) := by
    refine .cons ⟨?_, rfl⟩ (.cons ⟨?_, rfl⟩ (.cons ⟨?_, rfl⟩
      (.cons ⟨?_, rfl⟩ (.cons ⟨?_, rfl⟩ (.cons ⟨?_, rfl⟩
        (.cons ⟨?_, rfl⟩ (.cons ⟨?_, rfl⟩ (.nil _))))))))
    all_goals
      unfold SemFits
      decide
  exact semRun_conserved (by decide) hRun

end FeatherOS
