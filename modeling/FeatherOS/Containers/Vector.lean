import FeatherOS.Kmalloc
import FeatherOS.Library.Replay
import FeatherOS.Library.Shifting

/-
  The vector of `kernel/lib/datastructures.c` as a sequence.

  The items stand in a block of the heap with room for
  `capacity` of them. Every index is checked against the
  capacity of the block it is used for.

  Key definitions include:
    * `VectorT`
    * `vectorInsert`
    * `vectorRemove`
    * `sequenceCall`

  Key theorems include:
    * `vectorCall_agrees`
    * `vectorRun_agrees`
-/

namespace FeatherOS

open CyclicBuffer (front)
open Replay (Agrees StopsAt ok_bind error_bind)
open Shifting (shift unshift)

--------------------
-- State
--------------------

/- An item of a vector; NULL is one as well. -/
abbrev Item := Option Addr

structure VectorT where
  data : Addr
  size : U64
  capacity : U64

/- A vector, the cells of every block, and the heap -/
structure VectorState where
  vec : VectorT
  cells : Addr → Nat → Item
  heap : Heap

/- Why a call does not return as it should -/
inductive VectorFault where
  | noMemory
  | outside
deriving DecidableEq

/- VECTOR_INITIAL_CAPACITY -/
def vectorInitialCapacity : U64 := 16#64

/- sizeof(void*) -/
def sizeofItem : U64 := 8#64

def VectorState.items (s : VectorState) : List Item :=
  front (s.cells s.vec.data) s.vec.size.toNat

--------------------
-- Accesses
--------------------

/- `block[i]` of a block with room for `capacity` cells -/
def readCell
    (cells : Addr → Nat → Item)
    (block : Addr)
    (capacity : U64)
    (i : Nat) :
    Except VectorFault Item :=
  if i < capacity.toNat then
    .ok (cells block i)
  else
    .error .outside

/- `block[i] = item` -/
def writeCell
    (cells : Addr → Nat → Item)
    (block : Addr)
    (capacity : U64)
    (i : Nat)
    (item : Item) :
    Except VectorFault (Addr → Nat → Item) :=
  if i < capacity.toNat then
    .ok (Function.update cells block
      (Function.update (cells block) i item))
  else
    .error .outside

--------------------
-- Calls
--------------------

def vectorInit
    (cells : Addr → Nat → Item)
    (heap : Heap) :
    Except VectorFault VectorState :=
  match kmalloc heap (sizeofItem * vectorInitialCapacity) with
  | (none, _) => .error .noMemory
  | (some data, heap) =>
      .ok ⟨⟨data, 0#64, vectorInitialCapacity⟩, cells, heap⟩

/- `new_data[i] = vec->data[i]` for the first indices -/
def copyCells
    (cells : Addr → Nat → Item)
    (vec : VectorT)
    (newData : Addr)
    (newCapacity : U64) :
    Nat → Except VectorFault (Addr → Nat → Item)
  | 0 => .ok cells
  | i + 1 => do
      let cells ← copyCells cells vec newData newCapacity i
      let item ← readCell cells vec.data vec.capacity i
      writeCell cells newData newCapacity i item

def vectorResize
    (s : VectorState)
    (newCapacity : U64) :
    Except VectorFault VectorState :=
  match kmalloc s.heap (sizeofItem * newCapacity) with
  | (none, _) => .error .noMemory
  | (some newData, heap) => do
      let cells ← copyCells s.cells s.vec newData newCapacity
        s.vec.size.toNat
      .ok ⟨⟨newData, s.vec.size, newCapacity⟩, cells, heap⟩

/- The resize before an item is added to a full vector -/
def vectorMakeRoom
    (s : VectorState) :
    Except VectorFault VectorState :=
  if s.vec.size ≥ s.vec.capacity then
    vectorResize s (s.vec.capacity * 2#64)
  else
    .ok s

def vectorPushBack
    (s : VectorState)
    (item : Item) :
    Except VectorFault VectorState := do
  let s ← vectorMakeRoom s
  let cells ← writeCell s.cells s.vec.data s.vec.capacity
    s.vec.size.toNat item
  .ok { s with
    cells := cells
    vec := { s.vec with size := s.vec.size + 1#64 } }

def vectorPopBack
    (s : VectorState) :
    Except VectorFault (Item × VectorState) :=
  if s.vec.size = 0#64 then
    .ok (none, s)
  else do
    let size := s.vec.size - 1#64
    let item ← readCell s.cells s.vec.data s.vec.capacity
      size.toNat
    .ok (item, { s with vec := { s.vec with size := size } })

def vectorGet
    (s : VectorState)
    (index : U64) :
    Except VectorFault Item :=
  if index ≥ s.vec.size then
    .ok none
  else
    readCell s.cells s.vec.data s.vec.capacity index.toNat

def vectorSet
    (s : VectorState)
    (index : U64)
    (item : Item) :
    Except VectorFault VectorState :=
  if index < s.vec.size then do
    let cells ← writeCell s.cells s.vec.data s.vec.capacity
      index.toNat item
    .ok { s with cells := cells }
  else
    .ok s

/-
  `turns` rounds of `data[i] = data[i - 1]`, with `i` going
  down from `stop`
-/
def shiftDown
    (cells : Addr → Nat → Item)
    (vec : VectorT)
    (stop : Nat) :
    Nat → Except VectorFault (Addr → Nat → Item)
  | 0 => .ok cells
  | turns + 1 => do
      let cells ← shiftDown cells vec stop turns
      let i := stop - turns
      let item ← readCell cells vec.data vec.capacity (i - 1)
      writeCell cells vec.data vec.capacity i item

def vectorInsert
    (s : VectorState)
    (index : U64)
    (item : Item) :
    Except VectorFault VectorState :=
  if index > s.vec.size then
    .ok s
  else do
    let s ← vectorMakeRoom s
    let cells ← shiftDown s.cells s.vec s.vec.size.toNat
      (s.vec.size.toNat - index.toNat)
    let cells ← writeCell cells s.vec.data s.vec.capacity
      index.toNat item
    .ok { s with
      cells := cells
      vec := { s.vec with size := s.vec.size + 1#64 } }

/-
  `turns` rounds of `data[i] = data[i + 1]`, with `i` going
  up from `start`
-/
def shiftUp
    (cells : Addr → Nat → Item)
    (vec : VectorT)
    (start : Nat) :
    Nat → Except VectorFault (Addr → Nat → Item)
  | 0 => .ok cells
  | turns + 1 => do
      let cells ← shiftUp cells vec start turns
      let i := start + turns
      let item ← readCell cells vec.data vec.capacity (i + 1)
      writeCell cells vec.data vec.capacity i item

def vectorRemove
    (s : VectorState)
    (index : U64) :
    Except VectorFault (Item × VectorState) :=
  if index ≥ s.vec.size then
    .ok (none, s)
  else do
    let item ← readCell s.cells s.vec.data s.vec.capacity
      index.toNat
    let cells ← shiftUp s.cells s.vec index.toNat
      ((s.vec.size - 1#64).toNat - index.toNat)
    .ok (item, { s with
      cells := cells
      vec := { s.vec with size := s.vec.size - 1#64 } })

inductive VectorCall where
  | pushBack (item : Item)
  | popBack
  | get (index : U64)
  | set (index : U64) (item : Item)
  | insert (index : U64) (item : Item)
  | remove (index : U64)

/- A call with its result; `none` where there is none -/
def vectorCall
    (s : VectorState) :
    VectorCall → Except VectorFault (Item × VectorState)
  | .pushBack item => do
      let s ← vectorPushBack s item
      .ok (none, s)
  | .popBack => vectorPopBack s
  | .get index => do
      let item ← vectorGet s index
      .ok (item, s)
  | .set index item => do
      let s ← vectorSet s index item
      .ok (none, s)
  | .insert index item => do
      let s ← vectorInsert s index item
      .ok (none, s)
  | .remove index => vectorRemove s index

/- A new vector and then the calls, with their results -/
def vectorRun
    (cells : Addr → Nat → Item)
    (heap : Heap)
    (calls : List VectorCall) :
    Except VectorFault (List Item × VectorState) := do
  let s ← vectorInit cells heap
  Replay.replay vectorCall s calls

/- What the calls mean for a sequence of items -/
def sequenceCall
    (items : List Item) :
    VectorCall → Item × List Item
  | .pushBack item => (none, items ++ [item])
  | .popBack => (items.getLast?.join, items.dropLast)
  | .get index => (items[index.toNat]?.join, items)
  | .set index item => (none, items.set index.toNat item)
  | .insert index item => (none, items.insertIdx index.toNat item)
  | .remove index =>
      (items[index.toNat]?.join, items.eraseIdx index.toNat)

/- There is no memory for a larger block. -/
def VectorState.NoRoom (s : VectorState) : Prop :=
  s.vec.size ≥ s.vec.capacity ∧
    (kmalloc s.heap (sizeofItem * (s.vec.capacity * 2#64))).1 =
      none

/- The calls that cannot be answered, and why -/
def VectorRefused
    (s : VectorState)
    (call : VectorCall)
    (fault : VectorFault) : Prop :=
  match call with
  | .pushBack _ => fault = .noMemory ∧ s.NoRoom
  | .insert index _ =>
      fault = .noMemory ∧ index ≤ s.vec.size ∧ s.NoRoom
  | _ => False

/- `kmalloc` returns NULL, to `vector_init` or to a call. -/
def VectorStops
    (cells : Addr → Nat → Item)
    (heap : Heap)
    (calls : List VectorCall)
    (fault : VectorFault) : Prop :=
  (fault = .noMemory ∧
    (kmalloc heap (sizeofItem * vectorInitialCapacity)).1 =
      none) ∨
  ∃ s, vectorInit cells heap = .ok s ∧
    StopsAt vectorCall VectorRefused s calls fault

/-
  The first cells of the block are the items, and the block
  was granted.
-/
structure VectorHolds
    (s : VectorState)
    (items : List Item) : Prop where
  items_eq : s.items = items
  fits : s.vec.size.toNat ≤ s.vec.capacity.toNat
  room : 0 < s.vec.capacity.toNat
  granted : s.vec.data.toNat + 8 * s.vec.capacity.toNat ≤
    s.heap.heapPtr.toNat

--------------------
-- Loops
--------------------

variable {i : Nat}

section Loops

variable {cells : Addr → Nat → Item}
variable {vec : VectorT}
variable {block : Addr}
variable {capacity : U64}
variable {item : Item}

@[simp] theorem readCell_of_lt
    (hi : i < capacity.toNat) :
    readCell cells block capacity i = .ok (cells block i) :=
  if_pos hi

@[simp] theorem writeCell_of_lt
    (hi : i < capacity.toNat) :
    writeCell cells block capacity i item =
      .ok (Function.update cells block
        (Function.update (cells block) i item)) :=
  if_pos hi

/- The new block begins with the cells that were copied. -/
theorem copyCells_eq
    {newData : Addr}
    {newCapacity : U64}
    {n : Nat}
    (hNe : vec.data ≠ newData)
    (hOld : n ≤ vec.capacity.toNat)
    (hNew : n ≤ newCapacity.toNat) :
    copyCells cells vec newData newCapacity n =
      .ok (Function.update cells newData
        (CyclicBuffer.copy (cells newData) 0 (cells vec.data)
          0 n)) := by
  induction n with
  | zero =>
      rw [CyclicBuffer.copy_zero, Function.update_eq_self]
      rfl
  | succ i ih =>
      have hRead : i < vec.capacity.toNat := by omega
      have hWrite : i < newCapacity.toNat := by omega
      simp only [copyCells, ih (by omega) (by omega), ok_bind,
        readCell_of_lt hRead, writeCell_of_lt hWrite,
        Function.update_idem, Function.update_self,
        Function.update_of_ne hNe, CyclicBuffer.copy_succ,
        Nat.zero_add]

theorem shiftDown_eq
    {stop turns : Nat}
    (hStop : stop < vec.capacity.toNat) :
    shiftDown cells vec stop turns =
      .ok (Function.update cells vec.data
        (unshift (cells vec.data) stop turns)) := by
  induction turns with
  | zero =>
      rw [unshift, Function.update_eq_self]
      rfl
  | succ turns ih =>
      have hRead : stop - turns - 1 < vec.capacity.toNat := by
        omega
      have hWrite : stop - turns < vec.capacity.toNat := by
        omega
      simp only [shiftDown, ih, ok_bind,
        readCell_of_lt hRead, writeCell_of_lt hWrite,
        Function.update_idem, Function.update_self, unshift]

theorem shiftUp_eq
    {start turns : Nat}
    (hStop : start + turns < vec.capacity.toNat) :
    shiftUp cells vec start turns =
      .ok (Function.update cells vec.data
        (shift (cells vec.data) start turns)) := by
  induction turns with
  | zero =>
      rw [shift, Function.update_eq_self]
      rfl
  | succ turns ih =>
      have hRead : start + turns + 1 < vec.capacity.toNat := by
        omega
      have hWrite : start + turns < vec.capacity.toNat := by
        omega
      simp only [shiftUp, ih (by omega), ok_bind,
        readCell_of_lt hRead, writeCell_of_lt hWrite,
        Function.update_idem, Function.update_self, shift]

end Loops

--------------------
-- One Call
--------------------

section Calls

variable {s : VectorState}
variable {items : List Item}

theorem VectorHolds.length_eq
    (hHolds : VectorHolds s items) :
    items.length = s.vec.size.toNat := by
  rw [← hHolds.items_eq]
  exact CyclicBuffer.length_front _ _

theorem VectorHolds.getElem?_eq
    (hHolds : VectorHolds s items)
    (hi : i < s.vec.size.toNat) :
    items[i]? = some (s.cells s.vec.data i) := by
  rw [← hHolds.items_eq]
  simp [VectorState.items, front, hi]

/- The block of a granted array -/
theorem kmalloc_pointers
    {h h' : Heap}
    {capacity : U64}
    {p : Addr}
    (hSmall : 8 * capacity.toNat < 2 ^ 64)
    (hCall : kmalloc h (sizeofItem * capacity) =
      (some p, h')) :
    p = h.heapPtr ∧
      p.toNat + 8 * capacity.toNat = h'.heapPtr.toNat := by
  rcases kmalloc_some hCall with ⟨rfl, _, _, hPtr⟩
  have hBytes : (sizeofItem * capacity).toNat =
      capacity.toNat * 8 := by
    rw [BitVec.toNat_mul, Nat.mul_comm capacity.toNat 8]
    exact Nat.mod_eq_of_lt hSmall
  rw [toNat_alignUp8_of_eight hBytes, hBytes] at hPtr
  exact ⟨rfl, by omega⟩

/- The items are copied to a block that is large enough. -/
theorem VectorHolds.resize
    (hHolds : VectorHolds s items)
    {newCapacity : U64}
    (hSmall : 8 * newCapacity.toNat < 2 ^ 64)
    (hGrows : s.vec.capacity.toNat ≤ newCapacity.toNat) :
    (vectorResize s newCapacity = .error .noMemory ∧
        (kmalloc s.heap (sizeofItem * newCapacity)).1 = none) ∨
      ∃ t, vectorResize s newCapacity = .ok t ∧
        VectorHolds t items ∧ t.vec.size = s.vec.size ∧
        t.vec.capacity = newCapacity := by
  have hFits := hHolds.fits
  have hRoom := hHolds.room
  have hGranted := hHolds.granted
  unfold vectorResize
  cases hCall : kmalloc s.heap (sizeofItem * newCapacity) with
  | mk p heap =>
      cases p with
      | none => exact .inl ⟨rfl, rfl⟩
      | some newData =>
          right
          rcases kmalloc_pointers hSmall hCall with ⟨rfl, hEnd⟩
          have hNe : s.vec.data ≠ s.heap.heapPtr := by
            intro hSame
            rw [hSame] at hGranted
            omega
          have hCopy := @copyCells_eq s.cells _ _ _ _
            hNe hFits (Nat.le_trans hFits hGrows)
          simp only [hCopy, ok_bind]
          refine ⟨_, rfl, ⟨?_, Nat.le_trans hFits hGrows,
            Nat.lt_of_lt_of_le hRoom hGrows,
            Nat.le_of_eq hEnd⟩, rfl, rfl⟩
          rw [← hHolds.items_eq]
          simp only [VectorState.items, Function.update_self,
            CyclicBuffer.front_copy_zero, Nat.zero_add]

/-
  The vector has room for one more item afterwards, or there
  is no memory.
-/
theorem VectorHolds.makeRoom
    (hHolds : VectorHolds s items) :
    (vectorMakeRoom s = .error .noMemory ∧ s.NoRoom) ∨
      ∃ t, vectorMakeRoom s = .ok t ∧ VectorHolds t items ∧
        t.vec.size = s.vec.size ∧
        t.vec.size.toNat < t.vec.capacity.toNat := by
  unfold vectorMakeRoom
  by_cases hFull : s.vec.size ≥ s.vec.capacity
  · rw [if_pos hFull]
    have hFits := hHolds.fits
    have hRoom := hHolds.room
    have hGranted := hHolds.granted
    have hHeap := s.heap.heapPtr_le
    have hLow : heapStart + heapSize < 2 ^ 60 := by decide
    have hDouble : (s.vec.capacity * 2#64).toNat =
        s.vec.capacity.toNat * 2 := by
      rw [BitVec.toNat_mul]
      refine Nat.mod_eq_of_lt ?_
      simp only [BitVec.toNat_ofNat]
      omega
    have hSmall : 8 * (s.vec.capacity * 2#64).toNat < 2 ^ 64 := by
      omega
    rcases hHolds.resize hSmall (by omega) with
      ⟨hError, hNone⟩ | ⟨t, hCall, hAfter, hRest⟩
    · exact .inl ⟨hError, hFull, hNone⟩
    · refine .inr ⟨t, hCall, hAfter, hRest.1, ?_⟩
      rw [hRest.1, hRest.2]
      omega
  · rw [if_neg hFull]
    refine .inr ⟨s, rfl, hHolds, rfl, ?_⟩
    rwa [ge_iff_le, BitVec.le_def, Nat.not_le] at hFull

/- A cell of the vector is written. -/
theorem VectorHolds.written
    {items' : List Item}
    {data' : Nat → Item}
    {size' : U64}
    (hHolds : VectorHolds s items)
    (hSize : size'.toNat ≤ s.vec.capacity.toNat)
    (hItems : front data' size'.toNat = items') :
    VectorHolds
      { s with
        cells := Function.update s.cells s.vec.data data'
        vec := { s.vec with size := size' } } items' where
  items_eq := by
    simpa only [VectorState.items, Function.update_self]
      using hItems
  fits := hSize
  room := hHolds.room
  granted := hHolds.granted

/- A call answers like the sequence, or it is refused. -/
abbrev VectorAnswers
    (s : VectorState)
    (call : VectorCall)
    (answer : Item × List Item) : Prop :=
  Agrees (VectorRefused s call) VectorHolds (vectorCall s call)
    answer

theorem vectorPushBack_answers
    (hHolds : VectorHolds s items)
    (item : Item) :
    VectorAnswers s (.pushBack item)
      (none, items ++ [item]) := by
  simp only [VectorAnswers, vectorCall, vectorPushBack]
  rcases hHolds.makeRoom with
    ⟨hError, hNone⟩ | ⟨t, hRoom, hAfter, _, hLt⟩
  · rw [hError, error_bind]
    exact ⟨rfl, hNone⟩
  · have hNext := Words.toNat_succ_of_lt (BitVec.lt_def.mpr hLt)
    simp only [hRoom, ok_bind, writeCell_of_lt hLt]
    refine ⟨rfl, hAfter.written (by omega) ?_⟩
    rw [hNext, CyclicBuffer.front_succ, Function.update_self,
      CyclicBuffer.front_update, ← hAfter.items_eq,
      VectorState.items, List.set_eq_of_length_le (by simp)]

theorem vectorPopBack_answers
    (hHolds : VectorHolds s items) :
    VectorAnswers s .popBack
      (items.getLast?.join, items.dropLast) := by
  have hFits := hHolds.fits
  have hLength := hHolds.length_eq
  simp only [VectorAnswers, vectorCall, vectorPopBack]
  by_cases hEmpty : s.vec.size = 0#64
  · rw [if_pos hEmpty]
    have hNil : items = [] := by
      rw [← List.length_eq_zero_iff, hLength, hEmpty]
      rfl
    subst hNil
    exact ⟨rfl, hHolds⟩
  · rw [if_neg hEmpty]
    have hPos : 0 < s.vec.size.toNat := by
      have hNe : s.vec.size.toNat ≠ 0 :=
        fun h => hEmpty (BitVec.eq_of_toNat_eq h)
      omega
    have hPred := Words.toNat_pred hPos
    have hLt : (s.vec.size - 1#64).toNat < s.vec.capacity.toNat := by
      omega
    have hItems : items =
        front (s.cells s.vec.data) (s.vec.size - 1#64).toNat ++
          [s.cells s.vec.data (s.vec.size - 1#64).toNat] := by
      rw [← CyclicBuffer.front_succ, hPred,
        Nat.sub_add_cancel hPos, ← hHolds.items_eq]
      rfl
    simp only [readCell_of_lt hLt, ok_bind]
    refine ⟨?_, ?_, Nat.le_of_lt hLt, hHolds.room,
      hHolds.granted⟩
    · rw [hItems, List.getLast?_concat]
      rfl
    · rw [hItems, List.dropLast_concat]
      rfl

theorem vectorGet_answers
    (hHolds : VectorHolds s items)
    (index : U64) :
    VectorAnswers s (.get index)
      (items[index.toNat]?.join, items) := by
  have hFits := hHolds.fits
  have hLength := hHolds.length_eq
  simp only [VectorAnswers, vectorCall, vectorGet]
  by_cases hOut : index ≥ s.vec.size
  · rw [if_pos hOut, ok_bind]
    rw [ge_iff_le, BitVec.le_def] at hOut
    rw [List.getElem?_eq_none (by omega)]
    exact ⟨rfl, hHolds⟩
  · rw [if_neg hOut]
    rw [ge_iff_le, BitVec.le_def, Nat.not_le] at hOut
    simp only [readCell_of_lt (Nat.lt_of_lt_of_le hOut hFits),
      ok_bind, hHolds.getElem?_eq hOut]
    exact ⟨rfl, hHolds⟩

theorem vectorSet_answers
    (hHolds : VectorHolds s items)
    (index : U64)
    (item : Item) :
    VectorAnswers s (.set index item)
      (none, items.set index.toNat item) := by
  have hFits := hHolds.fits
  have hLength := hHolds.length_eq
  simp only [VectorAnswers, vectorCall, vectorSet]
  by_cases hIn : index < s.vec.size
  · rw [if_pos hIn]
    rw [BitVec.lt_def] at hIn
    simp only [writeCell_of_lt (Nat.lt_of_lt_of_le hIn hFits),
      ok_bind]
    refine ⟨rfl, hHolds.written hFits ?_⟩
    rw [CyclicBuffer.front_update, ← hHolds.items_eq]
    rfl
  · rw [if_neg hIn, ok_bind]
    rw [BitVec.lt_def, Nat.not_lt] at hIn
    rw [List.set_eq_of_length_le (by omega)]
    exact ⟨rfl, hHolds⟩

theorem vectorInsert_answers
    (hHolds : VectorHolds s items)
    (index : U64)
    (item : Item) :
    VectorAnswers s (.insert index item)
      (none, items.insertIdx index.toNat item) := by
  have hLength := hHolds.length_eq
  simp only [VectorAnswers, vectorCall, vectorInsert]
  by_cases hOut : index > s.vec.size
  · rw [if_pos hOut, ok_bind]
    rw [gt_iff_lt, BitVec.lt_def] at hOut
    rw [List.insertIdx_of_length_lt (by omega)]
    exact ⟨rfl, hHolds⟩
  · rw [if_neg hOut]
    rw [gt_iff_lt, BitVec.lt_def, Nat.not_lt] at hOut
    rcases hHolds.makeRoom with
      ⟨hError, hNone⟩ | ⟨t, hRoom, hAfter, hSize, hLt⟩
    · rw [hError, error_bind]
      exact ⟨rfl, BitVec.le_def.mpr hOut, hNone⟩
    · rw [← hSize] at hOut
      have hNext := Words.toNat_succ_of_lt (BitVec.lt_def.mpr hLt)
      simp only [hRoom, ok_bind, shiftDown_eq hLt,
        writeCell_of_lt (Nat.lt_of_le_of_lt hOut hLt),
        Function.update_idem, Function.update_self]
      refine ⟨rfl, hAfter.written (by omega) ?_⟩
      rw [hNext, Shifting.front_unshift _ hOut,
        ← hAfter.items_eq]
      rfl

theorem vectorRemove_answers
    (hHolds : VectorHolds s items)
    (index : U64) :
    VectorAnswers s (.remove index)
      (items[index.toNat]?.join, items.eraseIdx index.toNat) := by
  have hFits := hHolds.fits
  have hLength := hHolds.length_eq
  simp only [VectorAnswers, vectorCall, vectorRemove]
  by_cases hOut : index ≥ s.vec.size
  · rw [if_pos hOut]
    rw [ge_iff_le, BitVec.le_def] at hOut
    rw [List.getElem?_eq_none (by omega),
      List.eraseIdx_of_length_le (by omega)]
    exact ⟨rfl, hHolds⟩
  · rw [if_neg hOut]
    rw [ge_iff_le, BitVec.le_def, Nat.not_le] at hOut
    have hPred := @Words.toNat_pred _ s.vec.size (by omega)
    have hLast : (s.vec.size - 1#64).toNat + 1 =
        s.vec.size.toNat := by
      omega
    simp only [readCell_of_lt (Nat.lt_of_lt_of_le hOut hFits),
      ok_bind, hHolds.getElem?_eq hOut]
    rw [shiftUp_eq (by omega), ok_bind]
    refine ⟨rfl, hHolds.written (by omega) ?_⟩
    rw [Shifting.front_shift _ (by omega), hLast,
      ← hHolds.items_eq]
    rfl

theorem vectorCall_agrees
    (hHolds : VectorHolds s items)
    (call : VectorCall) :
    VectorAnswers s call (sequenceCall items call) := by
  cases call with
  | pushBack item => exact vectorPushBack_answers hHolds item
  | popBack => exact vectorPopBack_answers hHolds
  | get index => exact vectorGet_answers hHolds index
  | set index item => exact vectorSet_answers hHolds index item
  | insert index item =>
      exact vectorInsert_answers hHolds index item
  | remove index => exact vectorRemove_answers hHolds index

end Calls

--------------------
-- Runs
--------------------

/- The block of `vector_init` -/
theorem vectorInit_cases
    (cells : Addr → Nat → Item)
    (heap : Heap) :
    (vectorInit cells heap = .error .noMemory ∧
        (kmalloc heap (sizeofItem * vectorInitialCapacity)).1 =
          none) ∨
      ∃ s, vectorInit cells heap = .ok s ∧ VectorHolds s [] := by
  unfold vectorInit
  cases hCall : kmalloc heap
      (sizeofItem * vectorInitialCapacity) with
  | mk p h =>
      cases p with
      | none => exact .inl ⟨rfl, rfl⟩
      | some data =>
          rcases kmalloc_pointers (by decide) hCall with
            ⟨rfl, hEnd⟩
          have hRoom : 0 < vectorInitialCapacity.toNat := by decide
          exact .inr ⟨_, rfl, rfl, Nat.zero_le _, hRoom,
            Nat.le_of_eq hEnd⟩

/-
  A vector answers every sequence of calls as the sequence of
  its items does, until `kmalloc` returns NULL.
-/
theorem vectorRun_agrees
    (cells : Addr → Nat → Item)
    (heap : Heap)
    (calls : List VectorCall) :
    Agrees (VectorStops cells heap calls) VectorHolds
      (vectorRun cells heap calls)
      (Replay.answers sequenceCall [] calls) := by
  unfold vectorRun
  rcases vectorInit_cases cells heap with
    ⟨hError, hNone⟩ | ⟨s, hInit, hStart⟩
  · rw [hError, error_bind]
    exact .inl ⟨rfl, hNone⟩
  · rw [hInit, ok_bind]
    have hRun := @Replay.agrees_replay _ _ _ _ _ VectorHolds
      vectorCall sequenceCall VectorRefused _ _
      (fun _ _ call hHolds => vectorCall_agrees hHolds call)
      hStart calls
    exact hRun.allow fun fault hStops => .inr ⟨s, hInit, hStops⟩

example :
    (vectorRun (fun _ _ => none) Heap.initial
        [.pushBack (some 1#64), .insert 0#64 (some 2#64),
          .remove 1#64, .get 0#64]).map Prod.fst =
      .ok [none, none, some 1#64, some 2#64] := by
  rfl

end FeatherOS
