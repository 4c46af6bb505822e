import FeatherOS.Kmalloc
import FeatherOS.Library.CyclicBuffer
import FeatherOS.Library.Replay

/-
  The ring buffer of `kernel/lib/datastructures.c` as a
  bounded queue.

  The indices, the size and the flag all tell how full the
  buffer is; equal indices mean that it is either empty or
  full. No call looks at the pointer that `kmalloc` returned,
  or at the size of the block.

  Key definitions include:
    * `RingBuffer`
    * `ringEnqueue`
    * `ringDequeue`
    * `boundedCall`
    * `RingHolds`
    * `RingRefines`

  Key theorems include:
    * `ringCall_agrees`
    * `ringRun_refines_iff`
-/

namespace FeatherOS

open Replay (Agrees ok_bind)

--------------------
-- Calls
--------------------

/-
  `ring_buffer_t`, with what is read behind `buffer` and the
  number of cells that were granted there
-/
structure RingBuffer where
  buffer : Option Addr
  cells : Nat → Option Addr
  granted : Nat
  capacity : U64
  head : U64
  tail : U64
  size : U64
  full : Bool

/- A call follows NULL, or goes beyond the block. -/
inductive RingFault where
  | outside

/-
  `memory` is what a pointer leads to. The assertion after
  `kmalloc` only prints.
-/
def ringInit
    (memory : Option Addr → Nat → Option Addr)
    (heap : Heap)
    (capacity : U64) :
    RingBuffer × Heap :=
  let bytes := 8#64 * capacity
  let (buffer, heap) := kmalloc heap bytes
  let granted := if buffer = none then 0 else bytes.toNat / 8
  (⟨buffer, memory buffer, granted, capacity, 0#64, 0#64, 0#64,
    false⟩, heap)

/- The cell `ring->buffer[index]` -/
def RingBuffer.slot
    (ring : RingBuffer)
    (index : U64) :
    Except RingFault Nat :=
  if index.toNat < ring.granted then
    .ok index.toNat
  else
    .error .outside

def ringIsEmpty (ring : RingBuffer) : Bool :=
  ring.size = 0#64 && !ring.full

def ringEnqueue
    (ring : RingBuffer)
    (item : Option Addr) :
    Except RingFault (Bool × RingBuffer) :=
  if ring.full then
    .ok (false, ring)
  else do
    let slot ← ring.slot ring.tail
    let tail := (ring.tail + 1#64) % ring.capacity
    .ok (true,
      { ring with
        cells := Function.update ring.cells slot item
        tail := tail
        size := ring.size + 1#64
        full := if tail = ring.head then true else ring.full })

def ringDequeue
    (ring : RingBuffer) :
    Except RingFault (Option Addr × RingBuffer) :=
  if ringIsEmpty ring then
    .ok (none, ring)
  else do
    let slot ← ring.slot ring.head
    .ok (ring.cells slot,
      { ring with
        head := (ring.head + 1#64) % ring.capacity
        size := ring.size - 1#64
        full := false })

def ringPeek
    (ring : RingBuffer) :
    Except RingFault (Option Addr) :=
  if ringIsEmpty ring then
    .ok none
  else do
    let slot ← ring.slot ring.head
    .ok (ring.cells slot)

def ringClear (ring : RingBuffer) : RingBuffer :=
  { ring with
    head := 0#64
    tail := 0#64
    size := 0#64
    full := false }

inductive RingCall where
  | enqueue (item : Option Addr)
  | dequeue
  | peek
  | clear

inductive RingResult where
  | accepted (ok : Bool)
  | item (item : Option Addr)
  | cleared
deriving DecidableEq

def ringCall
    (ring : RingBuffer) :
    RingCall → Except RingFault (RingResult × RingBuffer)
  | .enqueue item => do
      let res ← ringEnqueue ring item
      .ok (.accepted res.1, res.2)
  | .dequeue => do
      let res ← ringDequeue ring
      .ok (.item res.1, res.2)
  | .peek => do
      let item ← ringPeek ring
      .ok (.item item, ring)
  | .clear => .ok (.cleared, ringClear ring)

/- The calls for a queue of at most `capacity` items -/
def boundedCall
    (capacity : Nat)
    (queue : List (Option Addr)) :
    RingCall → RingResult × List (Option Addr)
  | .enqueue item =>
      if queue.length = capacity then (.accepted false, queue)
      else (.accepted true, queue ++ [item])
  | .dequeue => (.item queue.head?.join, queue.tail)
  | .peek => (.item queue.head?.join, queue)
  | .clear => (.cleared, [])

--------------------
-- The Relation
--------------------

def RingBuffer.items (ring : RingBuffer) : List (Option Addr) :=
  CyclicBuffer.cells ring.cells ring.capacity.toNat
    ring.head.toNat ring.size.toNat

/- All that tells how full the buffer is agrees. -/
structure RingHolds
    (capacity : U64)
    (ring : RingBuffer)
    (queue : List (Option Addr)) : Prop where
  capacity_eq : ring.capacity = capacity
  items_eq : ring.items = queue
  size_le : ring.size ≤ ring.capacity
  head_lt : ring.head < ring.capacity
  tail_eq : ring.tail.toNat =
    (ring.head.toNat + ring.size.toNat) % ring.capacity.toNat
  full_iff : ring.full = true ↔ ring.size = ring.capacity
  empty_iff : ringIsEmpty ring = true ↔ ring.size = 0#64

/-
  The calls are answered like those of the queue, and then an
  item is refused exactly if the queue is full, and nothing
  changes.
-/
def RingRefines
    (memory : Option Addr → Nat → Option Addr)
    (heap : Heap)
    (capacity : U64)
    (calls : List RingCall) : Prop :=
  let queue := Replay.answers (boundedCall capacity.toNat) [] calls
  ∃ ring,
    Replay.replay ringCall (ringInit memory heap capacity).1
        calls = .ok (queue.1, ring) ∧
      RingHolds capacity ring queue.2 ∧
      ∀ item,
        ((∃ after, ringEnqueue ring item = .ok (false, after)) ↔
          queue.2.length = capacity.toNat) ∧
        ∀ after, ringEnqueue ring item = .ok (false, after) →
          after = ring

/- The block has a cell for each of the items. -/
structure RingInside
    (capacity : U64)
    (ring : RingBuffer)
    (queue : List (Option Addr)) : Prop where
  holds : RingHolds capacity ring queue
  inside : capacity.toNat ≤ ring.granted

section Calls

variable {capacity : U64}
variable {ring : RingBuffer}
variable {queue : List (Option Addr)}

theorem RingHolds.length_eq
    (hHolds : RingHolds capacity ring queue) :
    queue.length = ring.size.toNat := by
  rw [← hHolds.items_eq]
  exact CyclicBuffer.length_cells _ _ _ _

/- One step around the buffer -/
theorem toNat_ring_next
    {index capacity : U64}
    (hLt : index < capacity) :
    ((index + 1#64) % capacity).toNat =
      (index.toNat + 1) % capacity.toNat := by
  rw [BitVec.toNat_umod, Words.toNat_succ_of_lt hLt]

/- An index below the capacity is that of a cell. -/
theorem RingInside.slot
    (hInside : RingInside capacity ring queue)
    {index : U64}
    (hLt : index < ring.capacity) :
    ring.slot index = .ok index.toNat := by
  have hRoom := hInside.inside
  rw [hInside.holds.capacity_eq, BitVec.lt_def] at hLt
  exact if_pos (by omega)

/- No call gives up. -/
abbrev RingAnswers
    (capacity : U64)
    (res : Except RingFault (RingResult × RingBuffer))
    (answer : RingResult × List (Option Addr)) : Prop :=
  Agrees (fun _ => False) (RingInside capacity) res answer

theorem ringEnqueue_agrees
    (hInside : RingInside capacity ring queue)
    (item : Option Addr) :
    RingAnswers capacity (ringCall ring (.enqueue item))
      (boundedCall capacity.toNat queue (.enqueue item)) := by
  have hHolds := hInside.holds
  have hLength := hHolds.length_eq
  have hCapacity := hHolds.capacity_eq
  have hSize := hHolds.size_le
  have hHead := hHolds.head_lt
  simp only [ringCall, ringEnqueue, boundedCall]
  by_cases hFull : ring.full = true
  · have hAll := hHolds.full_iff.mp hFull
    rw [if_pos hFull, if_pos (by rw [hLength, hAll, hCapacity])]
    exact ⟨rfl, hInside⟩
  · have hNe : ring.size ≠ ring.capacity :=
      fun h => hFull (hHolds.full_iff.mpr h)
    have hLt : ring.size.toNat < ring.capacity.toNat :=
      Nat.lt_of_le_of_ne (BitVec.le_def.mp hSize)
        fun h => hNe (BitVec.eq_of_toNat_eq h)
    have hNext : (ring.size + 1#64).toNat =
        ring.size.toNat + 1 :=
      Words.toNat_succ_of_lt (BitVec.lt_def.mpr hLt)
    have hTailLt : ring.tail < ring.capacity := by
      rw [BitVec.lt_def, hHolds.tail_eq]
      exact Nat.mod_lt _ (by omega)
    have hTail : ((ring.tail + 1#64) % ring.capacity).toNat =
        Cyclic.slot ring.capacity.toNat ring.head.toNat
          (ring.size.toNat + 1) := by
      rw [toNat_ring_next hTailLt, hHolds.tail_eq]
      exact Cyclic.slot_succ
    have hTurn : (ring.tail + 1#64) % ring.capacity = ring.head ↔
        ring.size + 1#64 = ring.capacity := by
      rw [← BitVec.toNat_inj, ← BitVec.toNat_inj, hTail, hNext]
      exact Cyclic.slot_eq_start_iff (BitVec.lt_def.mp hHead)
        (Nat.succ_pos _) hLt
    have hRoom : queue.length ≠ capacity.toNat := by
      rw [hLength, ← hCapacity]
      exact Nat.ne_of_lt hLt
    rw [if_neg hFull, if_neg hRoom, hInside.slot hTailLt]
    refine ⟨rfl, ⟨hCapacity, ?_, ?_, hHead, ?_, ?_, ?_⟩,
      hInside.inside⟩
    · simp only [RingBuffer.items, hNext, hHolds.tail_eq]
      rw [CyclicBuffer.cells_put hLt, ← hHolds.items_eq]
      rfl
    · rw [BitVec.le_def]
      simp only [hNext]
      exact hLt
    · simp only [hTail, hNext]
      rfl
    · by_cases hBack :
          (ring.tail + 1#64) % ring.capacity = ring.head
      · simp only [if_pos hBack, true_iff]
        exact hTurn.mp hBack
      · simp only [if_neg hBack]
        exact iff_of_false hFull fun h => hBack (hTurn.mpr h)
    · have hSome : ring.size + 1#64 ≠ 0#64 := by
        intro h
        have hZero := congrArg BitVec.toNat h
        rw [hNext] at hZero
        cases hZero
      simp [ringIsEmpty, hSome]

/- A buffer that is empty, or one with a first item -/
theorem RingHolds.first
    (hHolds : RingHolds capacity ring queue) :
    (ringIsEmpty ring = true ∧ queue = []) ∨
      ∃ rest, ringIsEmpty ring ≠ true ∧
        0 < ring.size.toNat ∧
        queue = ring.cells ring.head.toNat :: rest ∧
        rest = CyclicBuffer.cells ring.cells
          ring.capacity.toNat
          ((ring.head.toNat + 1) % ring.capacity.toNat)
          (ring.size.toNat - 1) := by
  by_cases hEmpty : ringIsEmpty ring = true
  · refine .inl ⟨hEmpty, ?_⟩
    rw [← List.length_eq_zero_iff, hHolds.length_eq,
      hHolds.empty_iff.mp hEmpty]
    rfl
  · right
    have hPos : 0 < ring.size.toNat := Nat.pos_of_ne_zero
      fun h => hEmpty
        (hHolds.empty_iff.mpr (BitVec.eq_of_toNat_eq h))
    refine ⟨_, hEmpty, hPos, ?_, rfl⟩
    have hHead := BitVec.lt_def.mp hHolds.head_lt
    have hCons := CyclicBuffer.cells_cons ring.cells
      ring.capacity.toNat ring.head.toNat (ring.size.toNat - 1)
    rw [Nat.sub_add_cancel hPos, Nat.mod_eq_of_lt hHead] at hCons
    rw [← hHolds.items_eq, RingBuffer.items, hCons]

theorem ringDequeue_agrees
    (hInside : RingInside capacity ring queue) :
    RingAnswers capacity (ringCall ring .dequeue)
      (boundedCall capacity.toNat queue .dequeue) := by
  have hHolds := hInside.holds
  have hSize := hHolds.size_le
  have hHead := hHolds.head_lt
  simp only [ringCall, ringDequeue, boundedCall]
  rcases hHolds.first with
    ⟨hEmpty, rfl⟩ | ⟨rest, hEmpty, hPos, rfl, hRest⟩
  · rw [if_pos hEmpty]
    exact ⟨rfl, hInside⟩
  · rw [if_neg hEmpty, hInside.slot hHead]
    have hSizeLe := BitVec.le_def.mp hSize
    have hPred : (ring.size - 1#64).toNat = ring.size.toNat - 1 :=
      Words.toNat_pred hPos
    have hNext := toNat_ring_next hHead
    refine ⟨rfl, ⟨hHolds.capacity_eq, ?_, ?_, ?_, ?_, ?_, ?_⟩,
      hInside.inside⟩
    · simp only [RingBuffer.items, hPred, hNext]
      exact hRest.symm
    · rw [BitVec.le_def]
      simp only [hPred]
      omega
    · rw [BitVec.lt_def]
      simp only [hNext]
      exact Nat.mod_lt _ (by omega)
    · simp only [hPred, hNext]
      rw [hHolds.tail_eq, Nat.mod_add_mod]
      congr 1
      omega
    · refine iff_of_false Bool.false_ne_true fun h => ?_
      have hEq := congrArg BitVec.toNat h
      simp only [hPred] at hEq
      omega
    · simp [ringIsEmpty]

theorem ringPeek_agrees
    (hInside : RingInside capacity ring queue) :
    ringPeek ring = .ok queue.head?.join := by
  unfold ringPeek
  rcases hInside.holds.first with
    ⟨hEmpty, rfl⟩ | ⟨rest, hEmpty, _, rfl, _⟩
  · rw [if_pos hEmpty]
    rfl
  · rw [if_neg hEmpty, hInside.slot hInside.holds.head_lt]
    rfl

/- A buffer with all indices 0 is empty. -/
theorem ringHolds_nil
    (hPos : 0#64 < capacity)
    (hCapacity : ring.capacity = capacity)
    (hHead : ring.head = 0#64)
    (hTail : ring.tail = 0#64)
    (hSize : ring.size = 0#64)
    (hFull : ring.full = false) :
    RingHolds capacity ring [] where
  capacity_eq := hCapacity
  items_eq := by
    rw [RingBuffer.items, hSize]
    rfl
  size_le := by
    rw [hSize, hCapacity]
    exact BitVec.le_of_lt hPos
  head_lt := by
    rw [hHead, hCapacity]
    exact hPos
  tail_eq := by
    rw [hTail, hHead, hSize]
    exact (Nat.zero_mod _).symm
  full_iff := by
    rw [hFull, hSize, hCapacity]
    refine iff_of_false Bool.false_ne_true ?_
    rintro rfl
    exact absurd hPos (by decide)
  empty_iff := by
    simp [ringIsEmpty, hSize, hFull]

theorem ringCall_agrees
    (hPos : 0#64 < capacity)
    (hInside : RingInside capacity ring queue)
    (call : RingCall) :
    RingAnswers capacity (ringCall ring call)
      (boundedCall capacity.toNat queue call) := by
  cases call with
  | enqueue item => exact ringEnqueue_agrees hInside item
  | dequeue => exact ringDequeue_agrees hInside
  | peek =>
      simp only [ringCall, ringPeek_agrees hInside, ok_bind]
      exact ⟨rfl, hInside⟩
  | clear =>
      have hEmpty := @ringHolds_nil _ (ringClear ring) hPos
        hInside.holds.capacity_eq rfl rfl rfl rfl
      exact ⟨rfl, hEmpty, hInside.inside⟩

theorem ringEnqueue_refused_iff
    (ring after : RingBuffer)
    (item : Option Addr) :
    ringEnqueue ring item = .ok (false, after) ↔
      ring.full = true ∧ after = ring := by
  unfold ringEnqueue
  by_cases hFull : ring.full = true
  · simp [hFull, eq_comm]
  · rw [if_neg hFull]
    refine iff_of_false ?_ fun h => hFull h.1
    cases ring.slot ring.tail <;> nofun

/- Exactly a full buffer refuses, and then nothing changes. -/
theorem RingHolds.refuses
    (hHolds : RingHolds capacity ring queue)
    (item : Option Addr) :
    ((∃ after, ringEnqueue ring item = .ok (false, after)) ↔
        queue.length = capacity.toNat) ∧
      ∀ after, ringEnqueue ring item = .ok (false, after) →
        after = ring := by
  have hAll : ring.full = true ↔
      queue.length = capacity.toNat := by
    rw [hHolds.full_iff, hHolds.length_eq, ← hHolds.capacity_eq,
      BitVec.toNat_inj]
  simp only [ringEnqueue_refused_iff, exists_and_left,
    exists_eq, and_true, hAll, true_and]
  exact fun _ hRefused => hRefused.2

end Calls

--------------------
-- Runs
--------------------

section Runs

variable {memory : Option Addr → Nat → Option Addr}
variable {heap : Heap}
variable {capacity : U64}

/- The block that `kmalloc` grants is large enough. -/
theorem ringInit_inside_iff
    (hPos : 0#64 < capacity) :
    capacity.toNat ≤ (ringInit memory heap capacity).1.granted ↔
      (kmalloc heap (8#64 * capacity)).1 ≠ none ∧
        8 * capacity.toNat < 2 ^ 64 := by
  have hBytes := BitVec.toNat_mul 8#64 capacity
  rw [BitVec.lt_def, BitVec.toNat_ofNat] at hPos
  simp only [ringInit]
  cases kmalloc heap (8#64 * capacity) with
  | mk buffer heap =>
      cases buffer with
      | none =>
          simp
          omega
      | some p =>
          simp [hBytes]
          omega

/- Items are put in until one falls behind the block. -/
theorem ring_fill
    {n : Nat}
    {ring : RingBuffer}
    (hHead : ring.head = 0#64)
    (hFull : ring.full = false)
    (hTail : ring.tail.toNat + n = ring.granted)
    (hShort : ring.granted < ring.capacity.toNat) :
    Replay.replay ringCall ring
        (List.replicate (n + 1) (.enqueue none)) =
      .error .outside := by
  induction n generalizing ring with
  | zero =>
      have hOut : ring.slot ring.tail = .error .outside :=
        if_neg (by omega)
      simp [Replay.replay, ringCall, ringEnqueue, hFull, hOut]
  | succ n ih =>
      have hIn : ring.slot ring.tail = .ok ring.tail.toNat :=
        if_pos (by omega)
      have hLt : ring.tail < ring.capacity := by
        rw [BitVec.lt_def]
        omega
      have hNext : ((ring.tail + 1#64) % ring.capacity).toNat =
          ring.tail.toNat + 1 := by
        rw [toNat_ring_next hLt]
        exact Nat.mod_eq_of_lt (by omega)
      have hNe : (ring.tail + 1#64) % ring.capacity ≠ 0#64 := by
        intro hZero
        rw [hZero] at hNext
        cases hNext
      rw [List.replicate_succ]
      simp only [Replay.replay, ringCall, ringEnqueue, hFull, hIn,
        Bool.false_eq_true, if_false, ok_bind, hHead, hNe]
      have hStep : ((ring.tail + 1#64) % ring.capacity).toNat + n =
          ring.granted := by
        omega
      rw [@ih ⟨ring.buffer, _, ring.granted, ring.capacity, 0#64, _,
        _, false⟩ rfl rfl hStep hShort]
      rfl

/- A block that is too small is written behind its end. -/
theorem ring_inside_of_refines
    (hAll : ∀ calls, RingRefines memory heap capacity calls) :
    capacity.toNat ≤
      (ringInit memory heap capacity).1.granted := by
  by_contra hShort
  have hFill := @ring_fill _ (ringInit memory heap capacity).1
    rfl rfl (Nat.zero_add _) (Nat.lt_of_not_le hShort)
  rcases hAll _ with ⟨ring, hRun, _⟩
  rw [hFill] at hRun
  cases hRun

/-
  A ring buffer answers every sequence of calls as a queue of
  at most `capacity` items does if and only if it was granted
  a block for so many items.
-/
theorem ringRun_refines_iff
    (memory : Option Addr → Nat → Option Addr)
    (heap : Heap)
    {capacity : U64}
    (hPos : 0#64 < capacity) :
    (∀ calls, RingRefines memory heap capacity calls) ↔
      (kmalloc heap (8#64 * capacity)).1 ≠ none ∧
        8 * capacity.toNat < 2 ^ 64 := by
  rw [← @ringInit_inside_iff memory heap capacity hPos]
  refine ⟨ring_inside_of_refines, fun hInside calls => ?_⟩
  have hStart : RingInside capacity
      (ringInit memory heap capacity).1 [] :=
    ⟨ringHolds_nil hPos rfl rfl rfl rfl rfl, hInside⟩
  have hRun := @Replay.agrees_replay _ _ _ _ _
    (RingInside capacity) ringCall
    (boundedCall capacity.toNat) (fun _ _ _ => False) _ _
    (fun _ _ call hInside => ringCall_agrees hPos hInside call)
    hStart calls
  cases hReplay : Replay.replay ringCall
      (ringInit memory heap capacity).1 calls with
  | error reason =>
      rw [hReplay] at hRun
      rcases hRun with ⟨_, _, _, _, _, _, _, hFalse⟩
      exact hFalse.elim
  | ok answer =>
      rw [hReplay] at hRun
      rcases answer with ⟨results, ring⟩
      rcases hRun with ⟨rfl, hLast⟩
      exact ⟨ring, hReplay, hLast.holds, hLast.holds.refuses⟩

end Runs

/- Three items go through a buffer for two. -/
theorem ringRun_refines_iff_two :
    RingRefines (fun _ _ => none) Heap.initial 2#64
      [.enqueue (some 1#64), .enqueue (some 2#64),
        .enqueue (some 3#64), .dequeue] :=
  (ringRun_refines_iff (fun _ _ => none) Heap.initial
    (by decide : 0#64 < 2#64)).mpr
    ⟨by decide +kernel, by decide⟩ _

/- The heap has less than 131073 items of eight bytes. -/
theorem ring_stores_through_null :
    ¬ ∀ (memory : Option Addr → Nat → Option Addr) (heap : Heap)
        (capacity : U64), 0#64 < capacity →
      ∀ calls, RingRefines memory heap capacity calls := by
  intro hAll
  have hInside := ring_inside_of_refines
    (hAll (fun _ _ => none) Heap.initial 131073#64 (by decide))
  revert hInside
  decide +kernel

end FeatherOS
