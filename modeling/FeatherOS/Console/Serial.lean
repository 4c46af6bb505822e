import FeatherOS.Kmalloc
import FeatherOS.Library.CyclicBuffer
import FeatherOS.Library.Run

/-
  The receive buffer of `kernel/drivers/serial.c`.

  Bytes come in by interrupt and by polling. The handler drops
  the oldest byte when the buffer is full; the poll does not
  look, and loses all of them when one more comes. The calls
  only move bytes, so the runs here are over bytes with the
  numbers of their arrivals.

  Key definitions include:
    * `SerialBuffer`
    * `serialGetchar`
    * `serialHasInput`
    * `serialIrqHandler`
    * `SerialStep`
    * `SerialGood`
    * `SerialRoom`

  Key theorems include:
    * `serialIrqHandler_queue`
    * `serialStep_decided`
    * `serialRun_good_iff`
-/

namespace FeatherOS

open CyclicBuffer (cells cells_put cells_cons)

--------------------
-- The Code
--------------------

/- `serial_buffer_t`; a cell holds what is received. -/
structure SerialBuffer (α : Type) where
  buffer : Nat → α
  head : Nat
  tail : Nat
  hasData : Bool

/- SERIAL_BUFFER_SIZE -/
def serialBufferSize : Nat := 256

section Code

variable {α : Type}

/- A byte is put at `head`, which goes on. -/
def SerialBuffer.store
    (s : SerialBuffer α)
    (c : α) :
    SerialBuffer α :=
  { s with
    buffer := Function.update s.buffer s.head c
    head := (s.head + 1) % serialBufferSize }

/- `received` is the byte that `serial_received` reports. -/
def serialHasInput
    (s : SerialBuffer α)
    (received : Option α) :
    Bool × SerialBuffer α :=
  let s :=
    match received with
    | none => s
    | some c => { s.store c with hasData := true }
  (s.hasData, s)

/- The loop waits, one poll at a time. -/
def serialGetchar :
    List (Option α) → SerialBuffer α →
      Option (α × SerialBuffer α)
  | [], _ => none
  | received :: polls, s =>
      match serialHasInput s received with
      | (false, s) => serialGetchar polls s
      | (true, s) =>
          let c := s.buffer s.tail
          let s :=
            { s with tail := (s.tail + 1) % serialBufferSize }
          if s.tail = s.head then
            some (c, { s with hasData := false })
          else
            some (c, s)

/- One turn of the handler's loop -/
def irqTurn
    (s : SerialBuffer α)
    (c : α) :
    SerialBuffer α :=
  let s := s.store c
  let s :=
    if s.head ≠ s.tail then { s with hasData := true } else s
  -- buffer overflow: the oldest is dropped
  if s.head = s.tail then
    { s with tail := (s.tail + 1) % serialBufferSize }
  else
    s

/- The bytes that are there until `serial_received` fails -/
def serialIrqHandler
    (s : SerialBuffer α)
    (received : List α) :
    SerialBuffer α :=
  received.foldl irqTurn s

end Code

--------------------
-- Calls
--------------------

/-
  A call with what the port receives; `serial_getchar` is
  called when there is input, so it polls once.
-/
inductive SerialCall (α : Type) where
  | irq (received : List α)
  | hasInput (received : Option α)
  | getchar (received : Option α)

namespace SerialCall

variable {α β : Type}

def received : SerialCall α → List α
  | .irq received => received
  | .hasInput received => received.toList
  | .getchar received => received.toList

/- The bytes are numbered from `n` on. -/
def number
    (n : Nat) :
    SerialCall α → SerialCall (α × Nat)
  | .irq received => .irq (received.zipIdx n)
  | .hasInput received => .hasInput (received.map (·, n))
  | .getchar received => .getchar (received.map (·, n))

end SerialCall

/- The byte that is returned, if the call returns one -/
def serialCall
    {α : Type}
    (s : SerialBuffer α) :
    SerialCall α → Option (Option α × SerialBuffer α)
  | .irq received => some (none, serialIrqHandler s received)
  | .hasInput received =>
      some (none, (serialHasInput s received).2)
  | .getchar received =>
      (serialGetchar [received] s).map fun res =>
        (some res.1, res.2)

--------------------
-- Runs
--------------------

/- A byte and the number of its arrival, from 1 on -/
abbrev SerialByte := U8 × Nat

/- The buffer, all that arrived, and what was returned -/
structure SerialSys where
  serial : SerialBuffer SerialByte
  arrived : List U8
  returned : List SerialByte

def SerialSys.arrivals (sys : SerialSys) : List SerialByte :=
  sys.arrived.zipIdx 1

/- `rx_buffer` as it is defined; 0 is no arrival. -/
def serialBooted : SerialSys where
  serial := ⟨fun _ => (0#8, 0), 0, 0, false⟩
  arrived := []
  returned := []

inductive SerialStep :
    SerialSys → SerialCall U8 → SerialSys → Prop
| call
    {sys : SerialSys}
    {call : SerialCall U8}
    {ret : Option SerialByte}
    {serial : SerialBuffer SerialByte}
    (hCall :
      serialCall sys.serial
        (call.number (sys.arrived.length + 1)) =
      some (ret, serial)) :
    SerialStep sys call
      ⟨serial, sys.arrived ++ call.received,
        sys.returned ++ ret.toList⟩

/-
  A byte not returned is skipped when a later one was
  returned, or is the next to be.
-/
def Skipped
    (sys : SerialSys)
    (a : SerialByte) : Prop :=
  a ∈ sys.arrivals ∧ a ∉ sys.returned ∧
    ((∃ b ∈ sys.returned, a.2 < b.2) ∨
      sys.serial.hasData = true ∧
        a.2 < (sys.serial.buffer sys.serial.tail).2)

/- In a cell, and later than all that was returned -/
def Unread
    (sys : SerialSys)
    (a : SerialByte) : Prop :=
  a ∈ sys.arrivals ∧
    (∃ i < serialBufferSize, sys.serial.buffer i = a) ∧
    ∀ b ∈ sys.returned, b.2 < a.2

structure SerialGood (sys : SerialSys) : Prop where
  in_order : sys.returned.Sublist sys.arrivals
  skipped : ∀ a, Skipped sys a →
    serialBufferSize - 1 ≤ sys.arrived.length - a.2
  hasData_iff :
    sys.serial.hasData = true ↔ ∃ a, Unread sys a

/- All cells hold unread bytes. -/
def SerialBuffer.Full
    {α : Type}
    (s : SerialBuffer α) : Prop :=
  s.hasData = true ∧ s.head = s.tail

/-
  A full buffer receives nothing, or so much that the bytes
  in it are old by then.
-/
def SerialRoom
    (sys : SerialSys)
    (call : SerialCall U8) : Prop :=
  sys.serial.Full →
    call.received = [] ∨
      serialBufferSize - 1 ≤ call.received.length

--------------------
-- Numbers
--------------------

section Numbers

variable {α β : Type}

theorem SerialCall.received_number
    (call : SerialCall α)
    (n : Nat) :
    (call.number n).received = call.received.zipIdx n := by
  cases call with
  | irq received => rfl
  | hasInput received =>
      cases received <;> rfl
  | getchar received =>
      cases received <;> rfl

end Numbers

--------------------
-- The Queue
--------------------

/- The cells from `tail` on hold the bytes to be read. -/
structure SerialQueue
    {α : Type}
    (s : SerialBuffer α)
    (unread : List α) : Prop where
  tail_lt : s.tail < serialBufferSize
  length_le : unread.length ≤ serialBufferSize
  head_eq : s.head =
    Cyclic.slot serialBufferSize s.tail unread.length
  hasData_iff : s.hasData = true ↔ 0 < unread.length
  cells_eq :
    cells s.buffer serialBufferSize s.tail unread.length =
      unread

/- What a turn of the handler makes of the queue -/
def irqQueue
    {α : Type}
    (unread : List α)
    (c : α) : List α :=
  if unread.length < serialBufferSize - 1 then unread ++ [c]
  else if unread.length = serialBufferSize - 1 then
    (unread ++ [c]).tail
  else [c]

variable {n : Nat}

section Queue

variable {α : Type}
variable {s : SerialBuffer α}
variable {unread : List α}

theorem SerialQueue.head_eq_tail_iff
    (hQueue : SerialQueue s unread)
    (hSome : 0 < unread.length) :
    s.head = s.tail ↔ unread.length = serialBufferSize := by
  rw [hQueue.head_eq]
  exact Cyclic.slot_eq_start_iff hQueue.tail_lt hSome
    hQueue.length_le

theorem SerialQueue.full_iff
    (hQueue : SerialQueue s unread) :
    s.Full ↔ unread.length = serialBufferSize := by
  unfold SerialBuffer.Full
  rw [hQueue.hasData_iff]
  constructor
  · rintro ⟨hSome, hBack⟩
    exact (hQueue.head_eq_tail_iff hSome).mp hBack
  · intro hFull
    have hSome : 0 < unread.length := by
      rw [hFull]
      decide
    exact ⟨hSome, (hQueue.head_eq_tail_iff hSome).mpr hFull⟩

/- A byte goes behind the others. -/
theorem SerialQueue.stored
    (hQueue : SerialQueue s unread)
    (hRoom : unread.length < serialBufferSize)
    (c : α) :
    SerialQueue { s.store c with hasData := true }
      (unread ++ [c]) := by
  have hLength : (unread ++ [c]).length = unread.length + 1 :=
    List.length_append
  refine ⟨hQueue.tail_lt, ?_, ?_, ?_, ?_⟩
  · rw [hLength]
    exact hRoom
  · rw [hLength]
    dsimp only [SerialBuffer.store]
    rw [hQueue.head_eq]
    exact Cyclic.slot_succ
  · rw [hLength]
    exact iff_of_true rfl (Nat.succ_pos _)
  · rw [hLength]
    dsimp only [SerialBuffer.store]
    rw [hQueue.head_eq]
    unfold Cyclic.slot
    rw [cells_put hRoom, hQueue.cells_eq]

/- A byte in a full buffer is alone: the others are lost. -/
theorem SerialQueue.stored_full
    (hQueue : SerialQueue s unread)
    (hFull : s.Full)
    (c : α) :
    SerialQueue { s.store c with hasData := true } [c] := by
  have hOne : [c].length ≤ serialBufferSize := Nat.succ_pos 255
  refine ⟨hQueue.tail_lt, hOne, ?_, by simp, ?_⟩
  · dsimp only [SerialBuffer.store]
    rw [hFull.2]
    rfl
  · dsimp only [SerialBuffer.store]
    rw [List.length_singleton, cells_cons, hFull.2,
      Nat.mod_eq_of_lt hQueue.tail_lt, Function.update_self]
    rfl

/- The first byte is taken. -/
theorem SerialQueue.taken
    {c : α}
    (hQueue : SerialQueue s (c :: unread)) :
    s.buffer s.tail = c ∧
      SerialQueue
        { s with
          tail := (s.tail + 1) % serialBufferSize
          hasData := decide (0 < unread.length) }
        unread := by
  have hCells := hQueue.cells_eq
  rw [List.length_cons, cells_cons,
    Nat.mod_eq_of_lt hQueue.tail_lt] at hCells
  injection hCells with hFirst hRest
  have hLe := hQueue.length_le
  rw [List.length_cons] at hLe
  refine ⟨hFirst, Nat.mod_lt _ (by decide), by omega, ?_,
    decide_eq_true_iff, hRest⟩
  dsimp only
  rw [hQueue.head_eq, List.length_cons]
  unfold Cyclic.slot
  rw [Nat.mod_add_mod]
  congr 1
  omega

/- Both paths store the byte and then look at `head`. -/
theorem irqTurn_eq
    {stored : List α}
    (hSome : s.hasData = true ∨ stored.length < serialBufferSize)
    (c : α)
    (hStored :
      SerialQueue { s.store c with hasData := true } stored)
    (hPos : 0 < stored.length) :
    SerialQueue (irqTurn s c)
      (if stored.length < serialBufferSize then stored
        else stored.tail) := by
  have hBack :
      (s.store c).head = (s.store c).tail ↔
        stored.length = serialBufferSize :=
    hStored.head_eq_tail_iff hPos
  unfold irqTurn
  dsimp only
  by_cases hRoom : stored.length < serialBufferSize
  · have hNe : (s.store c).head ≠ (s.store c).tail :=
      fun h => Nat.ne_of_lt hRoom (hBack.mp h)
    rw [if_pos hRoom, if_pos hNe, if_neg hNe]
    exact hStored
  · have hFull : stored.length = serialBufferSize :=
      Nat.le_antisymm hStored.length_le (Nat.le_of_not_lt hRoom)
    have hEq := hBack.mpr hFull
    have hData : s.hasData = true := hSome.resolve_right hRoom
    rw [if_neg hRoom, if_neg (not_not_intro hEq), if_pos hEq]
    cases stored with
    | nil => exact absurd hPos (Nat.lt_irrefl 0)
    | cons a rest =>
        have hTaken := hStored.taken.2
        have hRest : 0 < rest.length := by
          rw [List.length_cons] at hFull
          have hSize : serialBufferSize = 256 := rfl
          omega
        rw [decide_eq_true hRest] at hTaken
        dsimp only [SerialBuffer.store] at hTaken ⊢
        rw [hData]
        exact hTaken

theorem irqTurn_queue
    (hQueue : SerialQueue s unread)
    (c : α) :
    SerialQueue (irqTurn s c) (irqQueue unread c) := by
  have hSize : serialBufferSize = 256 := rfl
  have hLength : (unread ++ [c]).length = unread.length + 1 :=
    List.length_append
  have hLe := hQueue.length_le
  unfold irqQueue
  by_cases hFull : unread.length = serialBufferSize
  · have hIsFull := hQueue.full_iff.mpr hFull
    have hTurn := irqTurn_eq (.inl hIsFull.1) c
      (hQueue.stored_full hIsFull c) (Nat.succ_pos _)
    rw [if_neg (by omega), if_neg (by omega)]
    exact hTurn
  · have hRoom : unread.length < serialBufferSize := by omega
    have hStored := hQueue.stored hRoom c
    have hSome : s.hasData = true ∨
        (unread ++ [c]).length < serialBufferSize := by
      rw [hQueue.hasData_iff, hLength]
      omega
    have hTurn := irqTurn_eq hSome c hStored (by omega)
    by_cases hFew : unread.length < serialBufferSize - 1
    · rw [if_pos hFew]
      rw [if_pos (by omega)] at hTurn
      exact hTurn
    · rw [if_neg hFew, if_pos (by omega)]
      rw [if_neg (by omega)] at hTurn
      exact hTurn

/- By induction on the bytes: each turn is one of the queue. -/
theorem serialIrqHandler_queue
    (hQueue : SerialQueue s unread)
    (received : List α) :
    SerialQueue (serialIrqHandler s received)
      (received.foldl irqQueue unread) := by
  unfold serialIrqHandler
  induction received generalizing s unread with
  | nil => exact hQueue
  | cons c received ih => exact ih (irqTurn_queue hQueue c)

/- With a cell to spare the handler keeps the last 255. -/
theorem foldl_irqQueue
    (received : List α)
    (hRoom : unread.length < serialBufferSize) :
    received.foldl irqQueue unread =
      (unread ++ received).drop
        (unread.length + received.length -
          (serialBufferSize - 1)) := by
  have hSize : serialBufferSize = 256 := rfl
  induction received generalizing unread with
  | nil =>
      have hNone : unread.length + 0 - (serialBufferSize - 1) =
          0 := by
        omega
      rw [List.foldl_nil, List.length_nil, hNone,
        List.append_nil, List.drop_zero]
  | cons c received ih =>
      have hLength :
          (unread ++ [c]).length = unread.length + 1 :=
        List.length_append
      rw [List.foldl_cons, List.append_cons, List.length_cons]
      by_cases hFew : unread.length < serialBufferSize - 1
      · have hTurn : irqQueue unread c = unread ++ [c] :=
          if_pos hFew
        rw [hTurn, ih (by omega), hLength, Nat.add_assoc,
          Nat.add_comm 1]
      · have hTurn :
            irqQueue unread c = (unread ++ [c]).tail := by
          unfold irqQueue
          rw [if_neg hFew, if_pos (by omega)]
        have hTail : (unread ++ [c]).tail.length =
            serialBufferSize - 1 := by
          rw [List.length_tail]
          omega
        have hDrop :
            unread.length + (received.length + 1) -
              (serialBufferSize - 1) = received.length + 1 := by
          omega
        have hNe : unread ++ [c] ≠ [] := by simp
        rw [hTurn, ih (by omega), hTail,
          Nat.add_sub_cancel_left, hDrop, ← List.drop_tail,
          List.tail_append_of_ne_nil hNe]

/- Without one it starts again from the first byte. -/
theorem foldl_irqQueue_full
    (hFull : unread.length = serialBufferSize)
    (c : α)
    (received : List α) :
    (c :: received).foldl irqQueue unread =
      (c :: received).drop
        ((c :: received).length - (serialBufferSize - 1)) := by
  have hOne : [c].length < serialBufferSize :=
    show 1 < 256 by decide
  have hTurn : irqQueue unread c = [c] := by
    unfold irqQueue
    rw [if_neg (by omega), if_neg (by omega)]
  rw [List.foldl_cons, hTurn, foldl_irqQueue received hOne,
    List.length_singleton, List.length_cons, Nat.add_comm 1]
  rfl

/-
  Bytes come in: those dropped stood before all that are
  kept, and few are kept only when none is dropped.
-/
def Arrives
    (unread received kept : List α) : Prop :=
  ∃ dropped, unread ++ received = dropped ++ kept ∧
    (dropped = [] ∨ serialBufferSize - 1 ≤ kept.length)

theorem arrives_drop
    {all : List α}
    (hAll : unread ++ received = all)
    (hLength : all.length - n = serialBufferSize - 1 ∨ n = 0) :
    Arrives unread received (all.drop n) := by
  refine ⟨all.take n, ?_, ?_⟩
  · rw [hAll, List.take_append_drop]
  · rcases hLength with hLength | rfl
    · right
      rw [List.length_drop, hLength]
    · left
      exact List.take_zero

theorem serialIrqHandler_arrives
    (hQueue : SerialQueue s unread)
    {received : List α}
    (hRoom : s.Full →
      received = [] ∨
        serialBufferSize - 1 ≤ received.length) :
    ∃ kept, SerialQueue (serialIrqHandler s received) kept ∧
      Arrives unread received kept := by
  have hSize : serialBufferSize = 256 := rfl
  have hLe := hQueue.length_le
  refine ⟨_, serialIrqHandler_queue hQueue received, ?_⟩
  by_cases hFull : s.Full
  · have hLength := hQueue.full_iff.mp hFull
    cases received with
    | nil => exact ⟨[], List.append_nil _, .inl rfl⟩
    | cons c received =>
        have hMany := (hRoom hFull).resolve_left nofun
        rw [foldl_irqQueue_full hLength]
        generalize hn : (c :: received).length -
          (serialBufferSize - 1) = n
        refine ⟨unread ++ (c :: received).take n, ?_, .inr ?_⟩
        · rw [List.append_assoc, List.take_append_drop]
        · rw [List.length_drop]
          omega
  · have hLt : unread.length < serialBufferSize := by
      rw [hQueue.full_iff] at hFull
      omega
    rw [foldl_irqQueue received hLt]
    refine arrives_drop rfl ?_
    rw [List.length_append]
    omega

/- Into a full buffer: only the bytes that come are kept. -/
theorem serialIrqHandler_overruns
    (hQueue : SerialQueue s unread)
    (hFull : s.Full)
    (received : List α)
    (hSome : received ≠ [])
    (hFew : received.length < serialBufferSize - 1) :
    SerialQueue (serialIrqHandler s received) received := by
  have hLength := hQueue.full_iff.mp hFull
  have hHandled := serialIrqHandler_queue hQueue received
  cases received with
  | nil => exact absurd rfl hSome
  | cons c received =>
      rw [foldl_irqQueue_full hLength,
        Nat.sub_eq_zero_of_le hFew.le] at hHandled
      exact hHandled

theorem serialHasInput_arrives
    (hQueue : SerialQueue s unread)
    {received : Option α}
    (hRoom : s.Full →
      received.toList = [] ∨
        serialBufferSize - 1 ≤ received.toList.length) :
    ∃ kept, SerialQueue (serialHasInput s received).2 kept ∧
      Arrives unread received.toList kept := by
  cases received with
  | none =>
      exact ⟨unread, hQueue, [], List.append_nil _, .inl rfl⟩
  | some c =>
      have hNot : ¬ s.Full := by
        intro hFull
        rcases hRoom hFull with hNil | hMany
        · cases hNil
        · exact absurd hMany (show ¬ 255 ≤ 1 by decide)
      have hLt : unread.length < serialBufferSize := by
        have hLe := hQueue.length_le
        rw [hQueue.full_iff] at hNot
        omega
      exact ⟨_, hQueue.stored hLt c, [], rfl, .inl rfl⟩

/- A byte is returned when one is there after the poll. -/
theorem serialGetchar_queue
    (received : Option α)
    {c : α}
    (hQueue :
      SerialQueue (serialHasInput s received).2 (c :: unread)) :
    ∃ t, serialGetchar [received] s = some (c, t) ∧
      SerialQueue t unread := by
  rcases hPoll : serialHasInput s received with ⟨hasData, u⟩
  have hSame : hasData = u.hasData := by
    have hFst : (serialHasInput s received).1 =
        (serialHasInput s received).2.hasData := rfl
    rw [hPoll] at hFst
    exact hFst
  rw [hPoll] at hQueue
  have hData : u.hasData = true :=
    hQueue.hasData_iff.mpr (Nat.succ_pos _)
  have hTaken := hQueue.taken
  have hLe := hQueue.length_le
  unfold serialGetchar
  rw [hPoll, hSame, hData]
  dsimp only
  rw [hTaken.1]
  by_cases hSome : 0 < unread.length
  · have hNe : (u.tail + 1) % serialBufferSize ≠ u.head := by
      intro hBack
      have hFull := (hTaken.2.head_eq_tail_iff hSome).mp
        hBack.symm
      rw [List.length_cons] at hLe
      omega
    rw [if_neg hNe]
    rw [decide_eq_true hSome, ← hData] at hTaken
    exact ⟨_, rfl, hTaken.2⟩
  · have hNil : unread.length = 0 := Nat.eq_zero_of_not_pos hSome
    have hBack : (u.tail + 1) % serialBufferSize = u.head := by
      rw [hTaken.2.head_eq, hNil]
      exact (Nat.mod_eq_of_lt hTaken.2.tail_lt).symm
    rw [if_pos hBack]
    rw [decide_eq_false hSome] at hTaken
    exact ⟨_, rfl, hTaken.2⟩

end Queue

--------------------
-- One Call
--------------------

/-
  What arrived before the bytes to be read: it was returned,
  or it is old.
-/
structure SerialHolds
    (sys : SerialSys)
    (old unread : List SerialByte) : Prop where
  queue : SerialQueue sys.serial unread
  split : sys.arrivals = old ++ unread
  read : sys.returned.Sublist old
  lost : ∀ a ∈ old, a ∉ sys.returned →
    a.2 + (serialBufferSize - 1) ≤ sys.arrived.length
  drained : unread = [] →
    ∀ a ∈ old, ∃ b ∈ sys.returned, a.2 ≤ b.2

/- Numbers go up, to the number of the last arrival. -/
theorem SerialSys.arrivals_sorted
    (sys : SerialSys) :
    sys.arrivals.Pairwise fun a b => a.2 < b.2 := by
  have hNumbers : sys.arrivals.map Prod.snd =
      List.range' 1 sys.arrived.length :=
    List.zipIdx_map_snd 1 sys.arrived
  have hSorted :
      (sys.arrivals.map Prod.snd).Pairwise (· < ·) := by
    rw [hNumbers]
    exact List.pairwise_lt_range'
  exact List.pairwise_map.mp hSorted

variable {sys : SerialSys}
variable {a : SerialByte}

theorem SerialSys.number_le
    (ha : a ∈ sys.arrivals) :
    a.2 ≤ sys.arrived.length := by
  have hMem := List.mem_zipIdx ha
  omega

/- What stands in front is that much older. -/
theorem SerialSys.number_front
    {front back : List SerialByte}
    (hSplit : sys.arrivals = front ++ back)
    (ha : a ∈ front) :
    a.2 + back.length ≤ sys.arrived.length := by
  rcases List.mem_iff_getElem?.mp ha with ⟨i, hFront⟩
  have hi : i < front.length :=
    (List.getElem?_eq_some_iff.mp hFront).1
  have hAt : sys.arrivals[i]? = some a := by
    rw [hSplit, List.getElem?_append_left hi, hFront]
  have hLength : sys.arrived.length =
      front.length + back.length := by
    rw [← List.length_append, ← hSplit]
    exact List.length_zipIdx.symm
  unfold SerialSys.arrivals at hAt
  rw [List.getElem?_zipIdx] at hAt
  rcases Option.map_eq_some_iff.mp hAt with ⟨c, _, rfl⟩
  dsimp only
  omega

theorem SerialSys.arrivals_append
    (sys : SerialSys)
    (received : List U8) :
    (sys.arrived ++ received).zipIdx 1 =
      sys.arrivals ++
        received.zipIdx (sys.arrived.length + 1) := by
  unfold SerialSys.arrivals
  rw [List.zipIdx_append, Nat.add_comm 1]

variable {serial : SerialBuffer SerialByte}

section OneCall

variable {sys : SerialSys}
variable {old unread : List SerialByte}

/- A later byte is one of those to be read. -/
theorem SerialHolds.lt_of_unread
    (hHolds : SerialHolds sys old unread)
    {a b : SerialByte}
    (ha : a ∈ old)
    (hb : b ∈ unread) :
    a.2 < b.2 := by
  have hSorted := sys.arrivals_sorted
  rw [hHolds.split, List.pairwise_append] at hSorted
  exact hSorted.2.2 a ha b hb

/- The first byte to be read is in the cell at `tail`. -/
theorem SerialHolds.at_tail
    (hHolds : SerialHolds sys old (a :: unread)) :
    sys.serial.buffer sys.serial.tail = a :=
  hHolds.queue.taken.1

theorem SerialHolds.good
    (hHolds : SerialHolds sys old unread) :
    SerialGood sys := by
  have hSub : sys.returned.Sublist sys.arrivals := by
    rw [hHolds.split]
    exact hHolds.read.trans (List.sublist_append_left _ _)
  refine ⟨hSub, ?_, ?_⟩
  · rintro a ⟨hMem, hNot, hLater⟩
    have hOld : a ∈ old := by
      rw [hHolds.split] at hMem
      rcases List.mem_append.mp hMem with hOld | hUnread
      · exact hOld
      · exfalso
        rcases hLater with ⟨b, hb, hLt⟩ | ⟨hData, hLt⟩
        · have hGt := hHolds.lt_of_unread
            (hHolds.read.subset hb) hUnread
          omega
        · cases unread with
          | nil => cases hUnread
          | cons first rest =>
              rw [hHolds.at_tail] at hLt
              have hSorted := sys.arrivals_sorted
              rw [hHolds.split] at hSorted
              have hRest := List.pairwise_cons.mp
                (List.pairwise_append.mp hSorted).2.1
              rcases List.mem_cons.mp hUnread with rfl | hIn
              · exact absurd hLt (Nat.lt_irrefl _)
              · have hGt := hRest.1 a hIn
                omega
    have hLost := hHolds.lost a hOld hNot
    omega
  · rw [hHolds.queue.hasData_iff]
    constructor
    · intro hSome
      cases unread with
      | nil => cases hSome
      | cons first rest =>
          refine ⟨first, ?_, ?_, ?_⟩
          · rw [hHolds.split]
            simp
          · exact ⟨_, hHolds.queue.tail_lt, hHolds.at_tail⟩
          · intro b hb
            exact hHolds.lt_of_unread (hHolds.read.subset hb)
              List.mem_cons_self
    · rintro ⟨a, hMem, -, hLater⟩
      apply List.length_pos_iff.mpr
      intro hNil
      rw [hHolds.split, hNil, List.append_nil] at hMem
      rcases hHolds.drained hNil a hMem with ⟨b, hb, hLe⟩
      exact absurd (hLater b hb) (by omega)

/- Bytes come in and the buffer keeps the last of them. -/
theorem SerialHolds.arrive
    (hHolds : SerialHolds sys old unread)
    {received : List U8}
    {serial : SerialBuffer SerialByte}
    {kept : List SerialByte}
    (hQueue : SerialQueue serial kept)
    (hArrives : Arrives unread
      (received.zipIdx (sys.arrived.length + 1)) kept) :
    ∃ old, SerialHolds
      ⟨serial, sys.arrived ++ received, sys.returned⟩ old
      kept := by
  rcases hArrives with ⟨dropped, hSplit, hFew⟩
  have hAll :
      SerialSys.arrivals
          ⟨serial, sys.arrived ++ received, sys.returned⟩ =
        (old ++ dropped) ++ kept := by
    rw [List.append_assoc, ← hSplit, ← List.append_assoc,
      ← hHolds.split]
    exact sys.arrivals_append received
  have hLonger : sys.arrived.length ≤
      (sys.arrived ++ received).length := by
    simp
  refine ⟨old ++ dropped, hQueue, hAll,
    hHolds.read.trans (List.sublist_append_left _ _), ?_, ?_⟩
  · intro a ha hNot
    rcases hFew with rfl | hMany
    · rw [List.append_nil] at ha
      exact (hHolds.lost a ha hNot).trans hLonger
    · have hFront := SerialSys.number_front hAll ha
      dsimp only at hFront ⊢
      omega
  · rintro rfl
    have hNone : dropped = [] := by
      rcases hFew with hNone | hMany
      · exact hNone
      · exact absurd hMany (by decide)
    rw [hNone, List.append_nil] at hSplit ⊢
    have hNil : unread = [] := (List.append_eq_nil_iff.mp hSplit).1
    exact hHolds.drained hNil

/- The first byte to be read is returned. -/
theorem SerialHolds.take
    (hHolds : SerialHolds sys old (a :: unread))
    (hQueue : SerialQueue serial unread) :
    SerialHolds
      ⟨serial, sys.arrived, sys.returned ++ [a]⟩
      (old ++ [a]) unread := by
  refine ⟨hQueue, ?_, hHolds.read.append (.refl [a]), ?_, ?_⟩
  · rw [List.append_assoc]
    exact hHolds.split
  · intro b hb hNot
    simp only [List.mem_append, List.mem_singleton, not_or]
      at hb hNot
    exact hHolds.lost b (hb.resolve_right hNot.2) hNot.1
  · intro _ b hb
    refine ⟨a, by simp, ?_⟩
    rcases List.mem_append.mp hb with hOld | hSame
    · exact (hHolds.lt_of_unread hOld List.mem_cons_self).le
    · rw [List.mem_singleton.mp hSame]

/-
  Bytes that come into a full buffer: they are kept alone, or
  the first of them is returned, and the last byte before
  them is lost.
-/
theorem SerialHolds.overrun
    (hHolds : SerialHolds sys old unread)
    (hFull : sys.serial.Full)
    {received : List U8}
    (hFew : received.length < serialBufferSize - 1)
    {returned : List SerialByte}
    (hReturned : ∀ b ∈ returned,
      b ∈ sys.returned ∨ sys.arrived.length < b.2)
    (hNext : (∃ b ∈ returned, sys.arrived.length < b.2) ∨
      serial.hasData = true ∧
        sys.arrived.length < (serial.buffer serial.tail).2) :
    ¬ SerialGood
      ⟨serial, sys.arrived ++ received, returned⟩ := by
  intro hGood
  have hSome : unread ≠ [] := by
    intro hNil
    have hLength := hHolds.queue.full_iff.mp hFull
    rw [hNil] at hLength
    cases hLength
  rcases List.exists_mem_of_ne_nil unread hSome with ⟨b, hb⟩
  have hIn : b ∈ sys.arrivals := by
    rw [hHolds.split]
    exact List.mem_append_right old hb
  have hLe := SerialSys.number_le hIn
  have hPos := (List.mem_zipIdx hIn).1
  have hLast : sys.arrived.length - 1 < sys.arrived.length := by
    omega
  have hLater : sys.arrived.length ≤
      (sys.arrived ++ received).length := by
    simp
  -- the last byte before those that come
  let z : SerialByte := (sys.arrived[sys.arrived.length - 1],
    sys.arrived.length)
  have hz : z ∈ sys.arrivals := by
    refine List.mk_mem_zipIdx_iff_le_and_getElem?_sub.mpr
      ⟨by omega, List.getElem?_eq_getElem hLast⟩
  have hOld : z ∉ sys.returned := by
    intro hRet
    have hLt := hHolds.lt_of_unread (hHolds.read.subset hRet) hb
    exact absurd hLt (Nat.not_lt_of_le hLe)
  have hSkip : Skipped
      ⟨serial, sys.arrived ++ received, returned⟩ z := by
    refine ⟨?_, ?_, hNext⟩
    · unfold SerialSys.arrivals
      rw [sys.arrivals_append]
      exact List.mem_append_left _ hz
    · intro hRet
      rcases hReturned z hRet with hBefore | hAfter
      · exact hOld hBefore
      · exact absurd hAfter (Nat.lt_irrefl _)
  have hMany := hGood.skipped z hSkip
  dsimp only [z] at hMany
  rw [List.length_append, Nat.add_sub_cancel_left] at hMany
  omega

end OneCall

variable {call : SerialCall U8}

/- The condition, for the bytes with their numbers -/
theorem SerialRoom.number
    (hRoom : SerialRoom sys call)
    (n : Nat) :
    sys.serial.Full →
      (call.number n).received = [] ∨
        serialBufferSize - 1 ≤ (call.number n).received.length := by
  rw [SerialCall.received_number, List.zipIdx_eq_nil_iff,
    List.length_zipIdx]
  exact hRoom

/- Without input after the poll nothing is returned. -/
theorem serialGetchar_waits
    {α : Type}
    {s : SerialBuffer α}
    {received : Option α}
    (hNone : SerialQueue (serialHasInput s received).2 []) :
    serialGetchar [received] s = none := by
  have hData : (serialHasInput s received).1 = false := by
    have hNot : ¬ (serialHasInput s received).2.hasData = true := by
      rw [hNone.hasData_iff]
      exact Nat.lt_irrefl 0
    exact Bool.eq_false_iff.mpr hNot
  rcases hPoll : serialHasInput s received with ⟨hasData, t⟩
  rw [hPoll] at hData
  cases hData
  unfold serialGetchar
  rw [hPoll]
  rfl

variable {old unread : List SerialByte}
variable {ret : Option SerialByte}

/- The bytes of a call, by their numbers -/
theorem SerialHolds.called
    (hHolds : SerialHolds sys old unread)
    (hRoom : SerialRoom sys call)
    (hCall :
      serialCall sys.serial
        (call.number (sys.arrived.length + 1)) =
      some (ret, serial)) :
    ∃ old unread, SerialHolds
      ⟨serial, sys.arrived ++ call.received,
        sys.returned ++ ret.toList⟩ old unread := by
  have hRoom := hRoom.number (sys.arrived.length + 1)
  have hNumbers :=
    call.received_number (sys.arrived.length + 1)
  cases call with
  | irq received =>
      rcases serialIrqHandler_arrives hHolds.queue hRoom with
        ⟨kept, hQueue, hArrives⟩
      rcases hHolds.arrive hQueue hArrives with ⟨old', hAfter⟩
      cases hCall
      rw [Option.toList_none, List.append_nil]
      exact ⟨old', kept, hAfter⟩
  | hasInput received =>
      rcases serialHasInput_arrives hHolds.queue hRoom with
        ⟨kept, hQueue, hArrives⟩
      dsimp only [SerialCall.number, SerialCall.received]
        at hNumbers
      rw [hNumbers] at hArrives
      rcases hHolds.arrive hQueue hArrives with ⟨old', hAfter⟩
      cases hCall
      rw [Option.toList_none, List.append_nil]
      exact ⟨old', kept, hAfter⟩
  | getchar received =>
      rcases serialHasInput_arrives hHolds.queue hRoom with
        ⟨kept, hQueue, hArrives⟩
      dsimp only [SerialCall.number, SerialCall.received]
        at hNumbers
      rw [hNumbers] at hArrives
      rcases hHolds.arrive hQueue hArrives with ⟨old', hAfter⟩
      rcases Option.map_eq_some_iff.mp hCall with
        ⟨⟨c, t⟩, hGet, hPair⟩
      cases hPair
      cases kept with
      | nil =>
          rw [serialGetchar_waits hQueue] at hGet
          cases hGet
      | cons first rest =>
          rcases serialGetchar_queue _ hQueue with
            ⟨u, hFirst, hRest⟩
          rw [hFirst] at hGet
          cases hGet
          exact ⟨_, rest, hAfter.take hRest⟩

/- Too few bytes come into a full buffer. -/
theorem SerialHolds.not_good
    (hHolds : SerialHolds sys old unread)
    (hRoom : ¬ SerialRoom sys call)
    (hCall :
      serialCall sys.serial
        (call.number (sys.arrived.length + 1)) =
      some (ret, serial)) :
    ¬ SerialGood
      ⟨serial, sys.arrived ++ call.received,
        sys.returned ++ ret.toList⟩ := by
  unfold SerialRoom at hRoom
  simp only [Classical.not_imp, not_or] at hRoom
  rcases hRoom with ⟨hFull, hSome, hMany⟩
  have hFew := Nat.lt_of_not_le hMany
  -- nothing is returned and the next byte is a new one
  have hFirst
      {first : SerialByte}
      {rest : List SerialByte}
      (hQueue : SerialQueue serial (first :: rest))
      (hNew : sys.arrived.length < first.2) :
      ¬ SerialGood
        ⟨serial, sys.arrived ++ call.received,
          sys.returned⟩ := by
    refine hHolds.overrun hFull hFew (fun b hb => .inl hb)
      (.inr ⟨?_, ?_⟩)
    · exact hQueue.hasData_iff.mpr (Nat.succ_pos _)
    · rw [hQueue.taken.1]
      exact hNew
  cases call with
  | irq received =>
      cases hCall
      rw [Option.toList_none, List.append_nil]
      cases received with
      | nil => exact absurd rfl hSome
      | cons c received =>
          have hQueue := serialIrqHandler_overruns hHolds.queue
            hFull
            ((c :: received).zipIdx (sys.arrived.length + 1))
            (by simp)
            (by simpa [SerialCall.received] using hFew)
          exact hFirst hQueue (Nat.lt_succ_self _)
  | hasInput received =>
      cases hCall
      rw [Option.toList_none, List.append_nil]
      cases received with
      | none => exact absurd rfl hSome
      | some c =>
          exact hFirst (hHolds.queue.stored_full hFull _)
            (Nat.lt_succ_self _)
  | getchar received =>
      cases received with
      | none => exact absurd rfl hSome
      | some c =>
          have hPoll := hHolds.queue.stored_full hFull
            (c, sys.arrived.length + 1)
          rcases serialGetchar_queue
              (some (c, sys.arrived.length + 1)) hPoll with
            ⟨t, hGet, _⟩
          rcases Option.map_eq_some_iff.mp hCall with
            ⟨⟨b, u⟩, hSame, hPair⟩
          cases hPair
          dsimp only [SerialCall.number, Option.map_some]
            at hSame
          rw [hGet] at hSame
          cases hSame
          have hIn : (c, sys.arrived.length + 1) ∈
              sys.returned ++ [(c, sys.arrived.length + 1)] :=
            List.mem_append_right _ (List.mem_singleton.mpr rfl)
          refine hHolds.overrun hFull hFew ?_
            (.inl ⟨_, hIn, Nat.lt_succ_self _⟩)
          intro b hb
          rcases List.mem_append.mp hb with hOld | hNew
          · exact .inl hOld
          · rw [List.mem_singleton.mp hNew]
            exact .inr (Nat.lt_succ_self _)

/- Whether the bytes that come find room decides. -/
theorem serialStep_decided
    {sys sys' : SerialSys}
    (hHolds : ∃ old unread, SerialHolds sys old unread)
    (hStep : SerialStep sys call sys') :
    (SerialGood sys' ↔ SerialRoom sys call) ∧
      (SerialRoom sys call →
        ∃ old unread, SerialHolds sys' old unread) := by
  rcases hHolds with ⟨old, unread, hHolds⟩
  cases hStep with
  | call hCall =>
      by_cases hRoom : SerialRoom sys call
      · have hAfter := hHolds.called hRoom hCall
        refine ⟨iff_of_true ?_ hRoom, fun _ => hAfter⟩
        rcases hAfter with ⟨_, _, hAfter⟩
        exact hAfter.good
      · exact ⟨iff_of_false (hHolds.not_good hRoom hCall) hRoom,
          fun h => absurd h hRoom⟩

--------------------
-- Every Run
--------------------

theorem serialBooted_holds :
    ∃ old unread, SerialHolds serialBooted old unread := by
  refine ⟨[], [], ⟨by decide, by decide, rfl, ?_, rfl⟩, rfl,
    .slnil, nofun, nofun⟩
  exact iff_of_false nofun (Nat.lt_irrefl 0)

/-
  The runs that keep order and lose only what is old are
  those in which a full buffer receives nothing, or at least
  as many bytes as the handler keeps.
-/
theorem serialRun_good_iff
    {calls : List (SerialCall U8)}
    {sys : SerialSys} :
    Run (fun s call t => SerialStep s call t ∧ SerialGood t)
        serialBooted calls sys ↔
      Run (Guarded SerialRoom SerialStep) serialBooted calls
        sys := by
  apply Run.guarded_iff
    (fun sys => ∃ old unread, SerialHolds sys old unread)
  · intro s call t hHolds hRoom hStep
    exact (serialStep_decided hHolds hStep).2 hRoom
  · intro s call t hHolds hStep
    exact (serialStep_decided hHolds hStep).1
  · exact serialBooted_holds

/- Polled bytes fill the buffer, one cell at a time. -/
theorem serialPolls_fill
    (c : U8)
    (hn : n ≤ serialBufferSize) :
    ∃ sys,
      Run SerialStep serialBooted
        (List.replicate n (.hasInput (some c))) sys ∧
      ∃ old unread, SerialHolds sys old unread ∧
        unread.length = n := by
  induction n with
  | zero =>
      rcases serialBooted_holds with ⟨old, unread, hHolds⟩
      refine ⟨serialBooted, .nil _, old, unread, hHolds, ?_⟩
      have hSplit := congrArg List.length hHolds.split
      rw [List.length_append] at hSplit
      have hNone : serialBooted.arrivals.length = 0 := rfl
      omega
  | succ n ih =>
      rcases ih (by omega) with
        ⟨sys, hRun, old, unread, hHolds, hLength⟩
      have hStored := hHolds.queue.stored (by omega)
        (c, sys.arrived.length + 1)
      rcases @SerialHolds.arrive _ _ _ hHolds [c] _ _ hStored
        ⟨[], rfl, .inl rfl⟩ with ⟨old', hAfter⟩
      have hStep := @SerialStep.call sys (.hasInput (some c)) none
        _ rfl
      rw [Option.toList_none, List.append_nil] at hStep
      have hLonger := hRun.snoc hStep
      rw [← List.replicate_succ'] at hLonger
      refine ⟨_, hLonger, old', _, hAfter, ?_⟩
      rw [List.length_append, List.length_singleton, hLength]

/- The byte after the 256th is returned in their place. -/
theorem serialGetchar_skips :
    ¬ ∀ (calls : List (SerialCall U8)) (sys : SerialSys),
      Run SerialStep serialBooted calls sys →
      SerialGood sys := by
  intro hAll
  rcases serialPolls_fill 0x61#8 (Nat.le_refl _) with
    ⟨sys, hRun, old, unread, hHolds, hLength⟩
  have hFull := hHolds.queue.full_iff.mpr hLength
  have hPoll := hHolds.queue.stored_full hFull
    (0x62#8, sys.arrived.length + 1)
  rcases serialGetchar_queue
      (some (0x62#8, sys.arrived.length + 1)) hPoll with
    ⟨t, hGet, _⟩
  have hCall :
      serialCall sys.serial
          (.getchar (some (0x62#8, sys.arrived.length + 1))) =
        some (some (0x62#8, sys.arrived.length + 1), t) := by
    dsimp only [serialCall]
    rw [hGet]
    rfl
  have hStep := @SerialStep.call sys (.getchar (some 0x62#8)) _ _
    hCall
  have hGood := hAll _ _ (hRun.snoc hStep)
  have hRoom := (serialStep_decided ⟨old, unread, hHolds⟩
    hStep).1.mp hGood
  rcases hRoom hFull with hNil | hMany
  · cases hNil
  · exact absurd hMany (by decide)

end FeatherOS
