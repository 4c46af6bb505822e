import FeatherOS.Library.CyclicBuffer

/-
  Bounded queues with their history.

  A queue remembers all that was ever put in and all that was
  taken out. What waits is the difference, in order, and is
  never more than the queue has room for. A ring holds such a
  queue in an array with one cell more.

  Key definitions include:
    * `BoundedFifo`
    * `BoundedFifo.push`
    * `BoundedFifo.pop`
    * `BoundedFifo.drain`
    * `SpareRing`
    * `SpareRing.Holds`

  Key rules include:
    * `SpareRing.Holds.put`
    * `SpareRing.Holds.get`
-/

structure BoundedFifo
    (α : Type)
    (size : Nat) where
  arrived : List α
  left : List α
  waiting : List α
  order : arrived = left ++ waiting
  bounded : waiting.length ≤ size

namespace BoundedFifo

variable {α : Type}
variable {size : Nat}

def empty : BoundedFifo α size where
  arrived := []
  left := []
  waiting := []
  order := rfl
  bounded := Nat.zero_le size

/- What does not fit is turned away. -/
def push
    (fifo : BoundedFifo α size)
    (a : α)
    (hRoom : fifo.waiting.length < size) :
    BoundedFifo α size where
  arrived := fifo.arrived ++ [a]
  left := fifo.left
  waiting := fifo.waiting ++ [a]
  order := by rw [fifo.order, List.append_assoc]
  bounded := by
    rw [List.length_append, List.length_singleton]
    exact hRoom

/- The first `n` go. -/
def pop
    (fifo : BoundedFifo α size)
    (n : Nat) :
    BoundedFifo α size where
  arrived := fifo.arrived
  left := fifo.left ++ fifo.waiting.take n
  waiting := fifo.waiting.drop n
  order := by
    rw [List.append_assoc, List.take_append_drop, fifo.order]
  bounded := by
    rw [List.length_drop]
    exact Nat.le_trans (Nat.sub_le ..) fifo.bounded

/- Everything that waits goes. -/
def drain (fifo : BoundedFifo α size) : BoundedFifo α size :=
  fifo.pop fifo.waiting.length

@[simp] theorem waiting_push
    (fifo : BoundedFifo α size)
    (a : α)
    (hRoom : fifo.waiting.length < size) :
    (fifo.push a hRoom).waiting = fifo.waiting ++ [a] := rfl

@[simp] theorem waiting_pop
    (fifo : BoundedFifo α size)
    (n : Nat) :
    (fifo.pop n).waiting = fifo.waiting.drop n := rfl

@[simp] theorem waiting_drain
    (fifo : BoundedFifo α size) :
    fifo.drain.waiting = [] :=
  List.drop_length

/- A queue is what arrived, what left and what waits. -/
theorem ext_lists
    {fifo other : BoundedFifo α size}
    (hLeft : fifo.left = other.left)
    (hWaiting : fifo.waiting = other.waiting) :
    fifo = other := by
  cases fifo with
  | mk arrived left waiting order bounded =>
      cases other with
      | mk arrived' left' waiting' order' bounded' =>
          cases hLeft
          cases hWaiting
          cases order
          cases order'
          rfl

/- One goes, and then all that wait go. -/
theorem drain_pop
    (fifo : BoundedFifo α size) :
    (fifo.pop 1).drain = fifo.drain := by
  apply ext_lists
  · simp only [drain, pop, List.append_assoc, List.take_length]
    rw [List.take_append_drop]
  · rw [waiting_drain, waiting_drain]

end BoundedFifo

--------------------
-- Rings
--------------------

/- The next free cell and the first one that is taken -/
structure SpareRing (α : Type) where
  buffer : Nat → α
  head : Nat
  tail : Nat

namespace SpareRing

variable {α : Type}
variable {size : Nat}
variable {r : SpareRing α}
variable {fifo : BoundedFifo α (size - 1)}

/- A cell is always left free. -/
def put
    (size : Nat)
    (r : SpareRing α)
    (a : α) :
    SpareRing α :=
  let next := (r.head + 1) % size
  if next ≠ r.tail then
    { r with
      buffer := Function.update r.buffer r.head a
      head := next }
  else
    r

def get
    (size : Nat)
    (r : SpareRing α) :
    Option α × SpareRing α :=
  if r.head = r.tail then
    (none, r)
  else
    (some (r.buffer r.tail),
      { r with tail := (r.tail + 1) % size })

def clear (r : SpareRing α) : SpareRing α :=
  { r with head := 0, tail := 0 }

/- The cells from the tail on are what waits. -/
structure Holds
    (size : Nat)
    (r : SpareRing α)
    (fifo : BoundedFifo α (size - 1)) : Prop where
  tail_lt : r.tail < size
  head_eq : r.head = (r.tail + fifo.waiting.length) % size
  cells_eq :
    CyclicBuffer.cells r.buffer size r.tail fifo.waiting.length =
      fifo.waiting

theorem Holds.head_eq_tail_iff
    (hHolds : Holds size r fifo) :
    r.head = r.tail ↔ fifo.waiting = [] := by
  have hTail := hHolds.tail_lt
  have hBound := fifo.bounded
  rw [hHolds.head_eq, ← List.length_eq_zero_iff]
  by_cases hWraps : r.tail + fifo.waiting.length < size
  · rw [Nat.mod_eq_of_lt hWraps]
    omega
  · rw [Nat.mod_eq_sub_mod (Nat.le_of_not_lt hWraps),
      Nat.mod_eq_of_lt (by omega)]
    omega

theorem Holds.full_iff
    (hHolds : Holds size r fifo) :
    (r.head + 1) % size = r.tail ↔
      ¬ fifo.waiting.length < size - 1 := by
  have hTail := hHolds.tail_lt
  have hBound := fifo.bounded
  rw [hHolds.head_eq, Nat.mod_add_mod, Nat.add_assoc]
  by_cases hWraps : r.tail + (fifo.waiting.length + 1) < size
  · rw [Nat.mod_eq_of_lt hWraps]
    omega
  · rw [Nat.mod_eq_sub_mod (Nat.le_of_not_lt hWraps),
      Nat.mod_eq_of_lt (by omega)]
    omega

/- What does not fit is dropped, and the rest stays. -/
theorem Holds.put
    (hHolds : Holds size r fifo)
    (a : α) :
    Holds size (r.put size a)
      (if hRoom : fifo.waiting.length < size - 1 then
        fifo.push a hRoom
      else
        fifo) := by
  unfold SpareRing.put
  by_cases hRoom : fifo.waiting.length < size - 1
  · have hFree : (r.head + 1) % size ≠ r.tail :=
      fun hFull => hHolds.full_iff.mp hFull hRoom
    have hFits : fifo.waiting.length < size := by omega
    simp only [hFree, ne_eq, not_false_eq_true, if_true,
      dif_pos hRoom]
    constructor
    · exact hHolds.tail_lt
    · simp only [hHolds.head_eq, Nat.mod_add_mod, Nat.add_assoc,
        BoundedFifo.waiting_push, List.length_append,
        List.length_singleton]
    · simp only [BoundedFifo.waiting_push, List.length_append,
        List.length_singleton, hHolds.head_eq]
      rw [CyclicBuffer.cells_put hFits, hHolds.cells_eq]
  · have hFull : (r.head + 1) % size = r.tail :=
      hHolds.full_iff.mpr hRoom
    simp only [hFull, ne_eq, not_true, if_false, dif_neg hRoom]
    exact hHolds

/- The first one that waits is taken. -/
theorem Holds.get
    (hHolds : Holds size r fifo) :
    (r.get size).1 = fifo.waiting.head? ∧
      Holds size (r.get size).2 (fifo.pop 1) := by
  unfold SpareRing.get
  by_cases hNone : r.head = r.tail
  · have hNil := hHolds.head_eq_tail_iff.mp hNone
    have hSame : fifo.pop 1 = fifo := by
      apply BoundedFifo.ext_lists
      · simp [BoundedFifo.pop, hNil]
      · simp [hNil]
    rw [if_pos hNone, hNil, hSame]
    exact ⟨rfl, hHolds⟩
  · rw [if_neg hNone]
    cases hWaiting : fifo.waiting with
    | nil => exact absurd (hHolds.head_eq_tail_iff.mpr hWaiting) hNone
    | cons a rest =>
        have hCells := hHolds.cells_eq
        rw [hWaiting, List.length_cons, CyclicBuffer.cells_cons,
          Nat.mod_eq_of_lt hHolds.tail_lt] at hCells
        rcases List.cons_eq_cons.mp hCells with ⟨hFirst, hRest⟩
        have hPop : (fifo.pop 1).waiting = rest := by
          rw [BoundedFifo.waiting_pop, hWaiting]
          rfl
        refine ⟨congrArg some hFirst, ?_, ?_, ?_⟩
        · exact Nat.mod_lt _ (Nat.zero_lt_of_lt hHolds.tail_lt)
        · simp only [hHolds.head_eq, hPop, hWaiting, Nat.mod_add_mod,
            List.length_cons, Nat.add_assoc, Nat.add_comm 1]
        · rw [hPop]
          exact hRest

/- Nothing waits in a ring that was cleared. -/
theorem holds_clear
    (hSize : 0 < size)
    (hNone : fifo.waiting = []) :
    Holds size r.clear fifo := by
  constructor
  · exact hSize
  · rw [hNone]
    exact (Nat.zero_mod size).symm
  · rw [hNone]
    rfl

end SpareRing
