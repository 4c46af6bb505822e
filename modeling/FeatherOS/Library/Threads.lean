import FeatherOS.Library.Run
import Mathlib.Data.Fintype.Card
import Mathlib.Logic.Function.Basic

/-
  Threads that share a state.

  A thread stands at a place of its program. A step is one
  atomic action of one thread: it moves the thread to another
  place and may change the shared state. Which thread moves
  next is open, so a run is one interleaving of the threads.

  A lock is modelled by the places inside of it and by a
  condition on the shared state that says whether it is taken.
  What a thread inside has found out about the shared state
  stays true until the thread itself changes it.

  Key definitions include:
    * `Threads`
    * `Threads.step`
    * `Threads.count`
    * `Threads.Locking`
    * `Threads.Exclusive`

  Key rules include:
    * `Threads.count_move`
    * `Threads.Exclusive.next`
    * `Threads.Exclusive.known_next`
-/

/- `τ` are threads, `σ` is shared and `π` are places. -/
structure Threads (τ σ π : Type) where
  shared : σ
  place : τ → π

namespace Threads

variable {τ σ π ι : Type}
variable [DecidableEq τ]

/- Thread `t` makes its next step. -/
def next
    (program : σ → π → ι → σ × π)
    (s : Threads τ σ π)
    (t : τ)
    (call : ι) :
    Threads τ σ π where
  shared := (program s.shared (s.place t) call).1
  place :=
    Function.update s.place t
      (program s.shared (s.place t) call).2

def step
    (program : σ → π → ι → σ × π)
    (s : Threads τ σ π)
    (op : τ × ι)
    (s' : Threads τ σ π) : Prop :=
  s' = s.next program op.1 op.2

variable {program : σ → π → ι → σ × π}
variable {s : Threads τ σ π}
variable {t : τ}
variable {call : ι}

@[simp]
theorem next_shared :
    (s.next program t call).shared =
      (program s.shared (s.place t) call).1 :=
  rfl

@[simp]
theorem next_place_self :
    (s.next program t call).place t =
      (program s.shared (s.place t) call).2 :=
  Function.update_self t _ s.place

theorem next_place_of_ne
    {u : τ}
    (hu : u ≠ t) :
    (s.next program t call).place u = s.place u :=
  Function.update_of_ne hu _ s.place

/- Only the last place of the thread that moves is kept. -/
theorem next_update
    {g : σ}
    {place : τ → π}
    {p : π} :
    (mk g (Function.update place t p)).next program t call =
      ⟨(program g p call).1,
        Function.update place t (program g p call).2⟩ := by
  simp only [next, Function.update_self, Function.update_idem]

/- The state after some steps. -/
def after
    (program : σ → π → ι → σ × π)
    (s : Threads τ σ π)
    (calls : List (τ × ι)) :
    Threads τ σ π :=
  calls.foldl (fun s op => s.next program op.1 op.2) s

theorem after_run
    (calls : List (τ × ι)) :
    Run (step program) s calls (s.after program calls) := by
  induction calls generalizing s with
  | nil => exact .nil s
  | cons op calls ih => exact .cons rfl ih

--------------------
-- Counting
--------------------

/- How many threads stand at places with `p`. -/
def count
    [Fintype τ]
    (p : π → Bool)
    (s : Threads τ σ π) : Nat :=
  (Finset.univ.filter fun t => p (s.place t) = true).card

section Count

variable [Fintype τ]
variable {p : π → Bool}

omit [DecidableEq τ] in
theorem count_eq_zero :
    s.count p = 0 ↔ ∀ t, p (s.place t) = false := by
  unfold count
  rw [Finset.card_eq_zero, Finset.filter_eq_empty_iff]
  constructor
  · intro hNone t
    exact Bool.eq_false_iff.mpr (hNone (Finset.mem_univ t))
  · intro hNone t _
    exact Bool.eq_false_iff.mp (hNone t)

omit [DecidableEq τ] in
/- A thread at such a place is counted. -/
theorem count_pos
    (ht : p (s.place t) = true) :
    0 < s.count p := by
  apply Nat.pos_of_ne_zero
  intro hZero
  have hFalse := count_eq_zero.mp hZero t
  rw [ht] at hFalse
  cases hFalse

omit [DecidableEq τ] in
theorem count_le_card :
    s.count p ≤ Fintype.card τ :=
  Finset.card_le_univ _

omit [DecidableEq τ] in
theorem count_eq_card
    (hAll : ∀ t, p (s.place t) = true) :
    s.count p = Fintype.card τ := by
  unfold count
  rw [Finset.filter_true_of_mem fun t _ => hAll t,
    Finset.card_univ]

omit [DecidableEq τ] in
theorem unique_of_count_le_one
    (hOne : s.count p ≤ 1)
    {u : τ}
    (ht : p (s.place t) = true)
    (hu : p (s.place u) = true) :
    t = u := by
  apply Finset.card_le_one.mp hOne
  · exact Finset.mem_filter.mpr ⟨Finset.mem_univ t, ht⟩
  · exact Finset.mem_filter.mpr ⟨Finset.mem_univ u, hu⟩

/- The thread that moves leaves one place for another. -/
theorem count_move :
    (s.next program t call).count p +
        (p (s.place t)).toNat =
      s.count p +
        (p (program s.shared (s.place t) call).2).toNat := by
  have hErase :
      ∀ f : τ → π,
        (Finset.univ.filter fun u => p (f u) = true).card =
          ((Finset.univ.erase t).filter
              fun u => p (f u) = true).card +
            (p (f t)).toNat := by
    intro f
    have hAll :
        (Finset.univ : Finset τ) =
          insert t (Finset.univ.erase t) :=
      (Finset.insert_erase (Finset.mem_univ t)).symm
    have hOut : t ∉ Finset.univ.erase t :=
      Finset.notMem_erase t Finset.univ
    rw [hAll, Finset.filter_insert, ← hAll]
    split
    next hp =>
      rw [Finset.card_insert_of_notMem, hp]
      · rfl
      · intro hMem
        exact hOut (Finset.mem_filter.mp hMem).1
    next hp =>
      rw [Bool.eq_false_iff.mpr hp]
      rfl
  have hOthers :
      (Finset.univ.erase t).filter
          (fun u => p ((s.next program t call).place u) = true) =
        (Finset.univ.erase t).filter
          (fun u => p (s.place u) = true) := by
    apply Finset.filter_congr
    intro u hu
    rw [next_place_of_ne (Finset.ne_of_mem_erase hu)]
  unfold count
  rw [hErase (s.next program t call).place, hErase s.place,
    hOthers, next_place_self]
  omega

end Count

--------------------
-- Locks
--------------------

/-
  A program goes inside only when the lock is free, which it
  then takes; it leaves by freeing the lock, and outside it
  does not change the shared state.
-/
structure Locking
    (program : σ → π → ι → σ × π)
    (locked : σ → Prop)
    (inside : π → Bool) : Prop where
  enter : ∀ g p call, inside p = false →
    inside (program g p call).2 = true →
      ¬ locked g ∧ locked (program g p call).1
  leave : ∀ g p call, inside p = true →
    inside (program g p call).2 = false →
      ¬ locked (program g p call).1
  stay : ∀ g p call, inside p = true →
    inside (program g p call).2 = true →
      (locked (program g p call).1 ↔ locked g)
  outside : ∀ g p call, inside p = false →
    inside (program g p call).2 = false →
      (program g p call).1 = g

/- At most one thread is inside, and the lock tells it. -/
structure Exclusive
    (locked : σ → Prop)
    (inside : π → Bool)
    (s : Threads τ σ π) : Prop where
  taken : ∀ t, inside (s.place t) = true → locked s.shared
  alone : ∀ t u, inside (s.place t) = true →
    inside (s.place u) = true → t = u
  free : (∀ t, inside (s.place t) = false) → ¬ locked s.shared

namespace Exclusive

variable {locked : σ → Prop}
variable {inside : π → Bool}

omit [DecidableEq τ] in
theorem start
    (hOut : ∀ t, inside (s.place t) = false)
    (hFree : ¬ locked s.shared) :
    Exclusive locked inside s where
  taken := by
    intro t ht
    rw [hOut t] at ht
    cases ht
  alone := by
    intro t _ ht
    rw [hOut t] at ht
    cases ht
  free := fun _ => hFree

omit [DecidableEq τ] in
/- While one thread is inside, another is not. -/
theorem others_outside
    (hExcl : Exclusive locked inside s)
    (ht : inside (s.place t) = true)
    {u : τ}
    (hu : u ≠ t) :
    inside (s.place u) = false := by
  apply Bool.eq_false_iff.mpr
  intro hIn
  exact hu (hExcl.alone u t hIn ht)

/- A thread that stays outside leaves the others alone. -/
theorem next
    (hLocking : Locking program locked inside)
    (hExcl : Exclusive locked inside s)
    (t : τ)
    (call : ι) :
    Exclusive locked inside (s.next program t call) := by
  cases hOld : inside (s.place t) with
  | true =>
      have hOthers : ∀ u, u ≠ t →
          inside ((s.next program t call).place u) = false := by
        intro u hu
        rw [next_place_of_ne hu]
        exact hExcl.others_outside hOld hu
      have hSelf : ∀ u,
          inside ((s.next program t call).place u) = true →
            u = t := by
        intro u hIn
        by_contra hu
        rw [hOthers u hu] at hIn
        cases hIn
      constructor
      · intro u hu
        have hut := hSelf u hu
        subst hut
        rw [next_place_self] at hu
        exact (hLocking.stay _ _ _ hOld hu).mpr
          (hExcl.taken u hOld)
      · intro u v hu hv
        rw [hSelf u hu, hSelf v hv]
      · intro hNone
        have hNew := hNone t
        rw [next_place_self] at hNew
        exact hLocking.leave _ _ _ hOld hNew
  | false =>
      cases hNew :
          inside (program s.shared (s.place t) call).2 with
      | true =>
          rcases hLocking.enter _ _ _ hOld hNew with
            ⟨hFree, hTaken⟩
          have hSelf : ∀ u,
              inside ((s.next program t call).place u) = true →
                u = t := by
            intro u hIn
            by_contra hu
            rw [next_place_of_ne hu] at hIn
            exact hFree (hExcl.taken u hIn)
          constructor
          · intro u _
            exact hTaken
          · intro u v hu hv
            rw [hSelf u hu, hSelf v hv]
          · intro hNone
            have hOut := hNone t
            rw [next_place_self, hNew] at hOut
            cases hOut
      | false =>
          have hShared :
              (s.next program t call).shared = s.shared :=
            hLocking.outside _ _ _ hOld hNew
          have hInside : ∀ u,
              inside ((s.next program t call).place u) =
                inside (s.place u) := by
            intro u
            by_cases hu : u = t
            · subst hu
              rw [next_place_self, hOld, hNew]
            · rw [next_place_of_ne hu]
          constructor
          · intro u hu
            rw [hInside] at hu
            rw [hShared]
            exact hExcl.taken u hu
          · intro u v hu hv
            rw [hInside] at hu hv
            exact hExcl.alone u v hu hv
          · intro hNone
            rw [hShared]
            apply hExcl.free
            intro u
            rw [← hInside u]
            exact hNone u

/-
  What the thread inside knows of the shared state, if its
  own steps keep it, is not disturbed by the others.
-/
theorem known_next
    (hLocking : Locking program locked inside)
    (hExcl : Exclusive locked inside s)
    {known : σ → π → Prop}
    (hKnown : ∀ u, inside (s.place u) = true →
      known s.shared (s.place u))
    (hOwn : inside (program s.shared (s.place t) call).2 = true →
      known (program s.shared (s.place t) call).1
        (program s.shared (s.place t) call).2)
    (u : τ)
    (hu : inside ((s.next program t call).place u) = true) :
    known (s.next program t call).shared
      ((s.next program t call).place u) := by
  by_cases hut : u = t
  · subst hut
    rw [next_place_self] at hu ⊢
    exact hOwn hu
  · rw [next_place_of_ne hut] at hu ⊢
    have hOld : inside (s.place t) = false :=
      hExcl.others_outside hu (Ne.symm hut)
    have hNew :
        inside (program s.shared (s.place t) call).2 = false := by
      apply Bool.eq_false_iff.mpr
      intro hIn
      exact (hLocking.enter _ _ _ hOld hIn).1
        (hExcl.taken u hu)
    rw [next_shared, hLocking.outside _ _ _ hOld hNew]
    exact hKnown u hu

end Exclusive

end Threads
