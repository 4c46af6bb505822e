import FeatherOS.Kmalloc
import FeatherOS.Library.DoublyLinked
import FeatherOS.Library.Replay
import Mathlib.Data.List.InsertIdx

/-
  The list of `kernel/lib/datastructures.c` as a sequence.

  Nodes lie on the heap and are linked both ways; `kfree`
  gives nothing back, so a new node is never an old one. A
  NULL pointer that is followed is a fault.

  Key definitions include:
    * `ListT`
    * `listInsert`
    * `listRemove`
    * `listSequenceCall`
    * `ListRefines`

  Key theorems include:
    * `listCall_agrees`
    * `listRun_agrees`
-/

namespace FeatherOS

open Replay (Agrees StopsAt ok_bind error_bind)

--------------------
-- State
--------------------

@[ext] structure ListNode where
  next : Option Addr
  prev : Option Addr
  data : Option Addr

structure ListT where
  head : Option Addr
  tail : Option Addr
  size : U64

/- A list, the memory that nodes lie in, and the heap -/
structure ListState where
  list : ListT
  nodes : Addr → ListNode
  heap : Heap

inductive ListFault where
  | noMemory
  | nullPointer
deriving DecidableEq

/- sizeof(list_node_t) -/
def sizeofListNode : U64 := 24#64

/- The node that a pointer leads to -/
def listDeref (p : Option Addr) : Except ListFault Addr :=
  match p with
  | none => .error .nullPointer
  | some a => .ok a

/- `node->next = next` -/
def setListNext
    (nodes : Addr → ListNode)
    (node : Addr)
    (next : Option Addr) :
    Addr → ListNode :=
  Function.update nodes node { nodes node with next := next }

/- `node->prev = prev` -/
def setListPrev
    (nodes : Addr → ListNode)
    (node : Addr)
    (prev : Option Addr) :
    Addr → ListNode :=
  Function.update nodes node { nodes node with prev := prev }

/- `if (p) p->next = next;` -/
def setListNextIf
    (nodes : Addr → ListNode)
    (p next : Option Addr) :
    Addr → ListNode :=
  match p with
  | none => nodes
  | some a => setListNext nodes a next

/- `if (p) p->prev = prev;` -/
def setListPrevIf
    (nodes : Addr → ListNode)
    (p prev : Option Addr) :
    Addr → ListNode :=
  match p with
  | none => nodes
  | some a => setListPrev nodes a prev

--------------------
-- Calls
--------------------

def listInit
    (nodes : Addr → ListNode)
    (heap : Heap) :
    ListState :=
  ⟨⟨none, none, 0#64⟩, nodes, heap⟩

def listPushFront
    (s : ListState)
    (data : Option Addr) :
    Except ListFault ListState :=
  match kmalloc s.heap sizeofListNode with
  | (none, _) => .error .noMemory
  | (some node, heap) =>
      let nodes := Function.update s.nodes node
        ⟨s.list.head, none, data⟩
      .ok
        { heap := heap
          nodes := setListPrevIf nodes s.list.head (some node)
          list :=
            { head := some node
              tail :=
                if s.list.tail = none then some node
                else s.list.tail
              size := s.list.size + 1#64 } }

def listPushBack
    (s : ListState)
    (data : Option Addr) :
    Except ListFault ListState :=
  match kmalloc s.heap sizeofListNode with
  | (none, _) => .error .noMemory
  | (some node, heap) =>
      let nodes := Function.update s.nodes node
        ⟨none, s.list.tail, data⟩
      .ok
        { heap := heap
          nodes := setListNextIf nodes s.list.tail (some node)
          list :=
            { head :=
                if s.list.head = none then some node
                else s.list.head
              tail := some node
              size := s.list.size + 1#64 } }

def listPopFront
    (s : ListState) :
    Except ListFault (Option Addr × ListState) :=
  if s.list.size = 0#64 then
    .ok (none, s)
  else do
    let node ← listDeref s.list.head
    let next := (s.nodes node).next
    .ok ((s.nodes node).data,
      { s with
        nodes := setListPrevIf s.nodes next none
        list :=
          { head := next
            tail := if next = none then none else s.list.tail
            size := s.list.size - 1#64 } })

def listPopBack
    (s : ListState) :
    Except ListFault (Option Addr × ListState) :=
  if s.list.size = 0#64 then
    .ok (none, s)
  else do
    let node ← listDeref s.list.tail
    let prev := (s.nodes node).prev
    .ok ((s.nodes node).data,
      { s with
        nodes := setListNextIf s.nodes prev none
        list :=
          { head := if prev = none then none else s.list.head
            tail := prev
            size := s.list.size - 1#64 } })

/- `turns` rounds of `current = current->next` -/
def listWalk
    (nodes : Addr → ListNode)
    (current : Option Addr) :
    Nat → Except ListFault (Option Addr)
  | 0 => .ok current
  | turns + 1 => do
      let current ← listWalk nodes current turns
      let node ← listDeref current
      .ok (nodes node).next

/- A node between `current` and the node behind it -/
def listInsertAfter
    (s : ListState)
    (index : U64)
    (data : Option Addr) :
    Except ListFault ListState :=
  match kmalloc s.heap sizeofListNode with
  | (none, _) => .error .noMemory
  | (some node, heap) => do
      let nodes := Function.update s.nodes node
        { s.nodes node with data := data }
      let current ← listWalk nodes s.list.head
        (index - 1#64).toNat
      let before ← listDeref current
      let nodes := setListNext nodes node (nodes before).next
      let nodes := setListPrev nodes node (some before)
      let behind ← listDeref (nodes before).next
      let nodes := setListPrev nodes behind (some node)
      let nodes := setListNext nodes before (some node)
      .ok
        { heap := heap
          nodes := nodes
          list := { s.list with size := s.list.size + 1#64 } }

def listInsert
    (s : ListState)
    (index : U64)
    (data : Option Addr) :
    Except ListFault ListState :=
  if index = 0#64 then
    listPushFront s data
  else if index ≥ s.list.size then
    listPushBack s data
  else
    listInsertAfter s index data

/- A node that has one before it and one behind it -/
def listUnlink
    (s : ListState)
    (index : U64) :
    Except ListFault (Option Addr × ListState) := do
  let current ← listWalk s.nodes s.list.head index.toNat
  let node ← listDeref current
  let before ← listDeref (s.nodes node).prev
  let nodes := setListNext s.nodes before (s.nodes node).next
  let behind ← listDeref (nodes node).next
  let nodes := setListPrev nodes behind (nodes node).prev
  .ok ((nodes node).data,
    { s with
      nodes := nodes
      list := { s.list with size := s.list.size - 1#64 } })

def listRemove
    (s : ListState)
    (index : U64) :
    Except ListFault (Option Addr × ListState) :=
  if index ≥ s.list.size then
    .ok (none, s)
  else if index = 0#64 then
    listPopFront s
  else if index = s.list.size - 1#64 then
    listPopBack s
  else
    listUnlink s index

def listAt
    (s : ListState)
    (index : U64) :
    Except ListFault (Option Addr) :=
  if index ≥ s.list.size then
    .ok none
  else do
    let current ← listWalk s.nodes s.list.head index.toNat
    let node ← listDeref current
    .ok (s.nodes node).data

inductive ListCall where
  | pushFront (data : Option Addr)
  | pushBack (data : Option Addr)
  | popFront
  | popBack
  | insert (index : U64) (data : Option Addr)
  | remove (index : U64)
  | at (index : U64)

/- A call with its result; `none` where there is none -/
def listCall
    (s : ListState) :
    ListCall → Except ListFault (Option Addr × ListState)
  | .pushFront data => do
      let s ← listPushFront s data
      .ok (none, s)
  | .pushBack data => do
      let s ← listPushBack s data
      .ok (none, s)
  | .popFront => listPopFront s
  | .popBack => listPopBack s
  | .insert index data => do
      let s ← listInsert s index data
      .ok (none, s)
  | .remove index => listRemove s index
  | .at index => do
      let data ← listAt s index
      .ok (data, s)

/- What the calls mean for a sequence of items -/
def listSequenceCall
    (items : List (Option Addr)) :
    ListCall → Option Addr × List (Option Addr)
  | .pushFront data => (none, data :: items)
  | .pushBack data => (none, items ++ [data])
  | .popFront => (items.head?.join, items.tail)
  | .popBack => (items.getLast?.join, items.dropLast)
  | .insert index data =>
      (none,
        if index.toNat ≤ items.length then
          items.insertIdx index.toNat data
        else
          items ++ [data])
  | .remove index =>
      (items[index.toNat]?.join, items.eraseIdx index.toNat)
  | .at index => (items[index.toNat]?.join, items)

/- The calls that cannot be answered, and why -/
def ListRefused
    (s : ListState)
    (call : ListCall)
    (fault : ListFault) : Prop :=
  match call with
  | .pushFront _ | .pushBack _ | .insert _ _ =>
      fault = .noMemory ∧ (kmalloc s.heap sizeofListNode).1 = none
  | _ => False

--------------------
-- The Relation
--------------------

/- `node->next` and `node->prev` of every node -/
def ListState.next
    (s : ListState)
    (node : Addr) :
    Option Addr :=
  (s.nodes node).next

def ListState.prev
    (s : ListState)
    (node : Addr) :
    Option Addr :=
  (s.nodes node).prev

/-
  The links of both directions visit nodes that hold the
  items.
-/
structure ListRefines
    (s : ListState)
    (items : List (Option Addr)) : Prop where
  linked : ∃ cells,
    Chain s.next s.list.head cells ∧
      Chain s.prev s.list.tail cells.reverse ∧
      cells.map (fun a => (s.nodes a).data) = items
  size_eq : s.list.size.toNat = items.length
  head_iff : s.list.head = none ↔ items = []
  tail_iff : s.list.tail = none ↔ items = []

/- Old nodes lie below the heap pointer. -/
structure ListCells
    (s : ListState)
    (cells : List Addr)
    (items : List (Option Addr)) : Prop where
  linked : Segment s.next s.prev none s.list.head cells
    s.list.tail none
  nodup : cells.Nodup
  data_eq : cells.map (fun a => (s.nodes a).data) = items
  size_eq : s.list.size.toNat = cells.length
  old : ∀ a ∈ cells, a.toNat < s.heap.heapPtr.toNat
  granted : 24 * cells.length ≤ s.heap.heapPtr.toNat

def ListHolds
    (s : ListState)
    (items : List (Option Addr)) : Prop :=
  ∃ cells, ListCells s cells items

section Relation

variable {s : ListState}
variable {cells : List Addr}
variable {items : List (Option Addr)}

theorem ListCells.length_eq
    (hCells : ListCells s cells items) :
    items.length = cells.length := by
  rw [← hCells.data_eq, List.length_map]

theorem ListHolds.refines
    (hHolds : ListHolds s items) :
    ListRefines s items := by
  rcases hHolds with ⟨cells, hCells⟩
  have hLength := hCells.length_eq
  have hBack := hCells.linked.reverse
  have hNil : cells = [] ↔ items = [] := by
    rw [← List.length_eq_zero_iff, ← hLength,
      List.length_eq_zero_iff]
  refine ⟨⟨cells, hCells.linked.chain, hBack.chain,
    hCells.data_eq⟩, ?_, ?_, ?_⟩
  · rw [hCells.size_eq, hLength]
  · rw [hCells.linked.chain.head_eq, List.head?_eq_none_iff, hNil]
  · rw [hCells.linked.last_eq_getLast?,
      List.getLast?_eq_none_iff, hNil]

end Relation

--------------------
-- Single Writes
--------------------

section Writes

variable (nodes : Addr → ListNode)
variable (p q : Option Addr)
variable (a b : Addr)

theorem setListNext_eq :
    setListNext nodes a q = setListNextIf nodes (some a) q :=
  rfl

theorem setListPrev_eq :
    setListPrev nodes a q = setListPrevIf nodes (some a) q :=
  rfl

@[simp] theorem setListNextIf_next :
    (setListNextIf nodes p q b).next =
      if p = some b then q else (nodes b).next := by
  cases p with
  | none => rfl
  | some a =>
      simp only [setListNextIf, setListNext,
        Function.update_apply, Option.some.injEq, eq_comm (a := b)]
      split <;> rfl

@[simp] theorem setListNextIf_prev :
    (setListNextIf nodes p q b).prev = (nodes b).prev := by
  cases p with
  | none => rfl
  | some a =>
      simp only [setListNextIf, setListNext,
        Function.update_apply]
      split <;> simp_all

@[simp] theorem setListNextIf_data :
    (setListNextIf nodes p q b).data = (nodes b).data := by
  cases p with
  | none => rfl
  | some a =>
      simp only [setListNextIf, setListNext,
        Function.update_apply]
      split <;> simp_all

@[simp] theorem setListPrevIf_next :
    (setListPrevIf nodes p q b).next = (nodes b).next := by
  cases p with
  | none => rfl
  | some a =>
      simp only [setListPrevIf, setListPrev,
        Function.update_apply]
      split <;> simp_all

@[simp] theorem setListPrevIf_prev :
    (setListPrevIf nodes p q b).prev =
      if p = some b then q else (nodes b).prev := by
  cases p with
  | none => rfl
  | some a =>
      simp only [setListPrevIf, setListPrev,
        Function.update_apply, Option.some.injEq, eq_comm (a := b)]
      split <;> rfl

@[simp] theorem setListPrevIf_data :
    (setListPrevIf nodes p q b).data = (nodes b).data := by
  cases p with
  | none => rfl
  | some a =>
      simp only [setListPrevIf, setListPrev,
        Function.update_apply]
      split <;> simp_all

variable {b : Addr}
variable {p : Option Addr}

/- Other nodes are as before. -/
theorem setListNextIf_of_ne
    (hNe : p ≠ some b) :
    setListNextIf nodes p q b = nodes b := by
  ext1 <;> simp [hNe]

theorem setListPrevIf_of_ne
    (hNe : p ≠ some b) :
    setListPrevIf nodes p q b = nodes b := by
  ext1 <;> simp [hNe]

end Writes

--------------------
-- Splices
--------------------

variable {a : Addr}

section Splices

variable {s t : ListState}
variable {cells : List Addr}
variable {items : List (Option Addr)}
variable {data : Option Addr}
variable {i : Nat}

theorem kmalloc_listNode
    {h h' : Heap}
    {node : Addr}
    (hCall : kmalloc h sizeofListNode = (some node, h')) :
    node = h.heapPtr ∧
      h'.heapPtr.toNat = h.heapPtr.toNat + 24 := by
  rcases kmalloc_some hCall with ⟨rfl, _, _, hPtr⟩
  exact ⟨rfl, hPtr⟩

/- A new node is none of the old ones. -/
theorem ListCells.fresh
    (hCells : ListCells s cells items) :
    s.heap.heapPtr ∉ cells :=
  fun hMem => Nat.lt_irrefl _ (hCells.old _ hMem)

/-
  A new node with both its links, which its neighbours link
  to.
-/
theorem ListCells.inserted
    (hCells : ListCells s cells items)
    (hi : i ≤ cells.length)
    (hHeap : t.heap.heapPtr.toNat =
      s.heap.heapPtr.toNat + 24)
    (hNode : t.nodes s.heap.heapPtr =
      ⟨cells[i]?, (cells.take i).getLast?, data⟩)
    (hNext : ∀ b, b ≠ s.heap.heapPtr → t.next b =
      if (cells.take i).getLast? = some b then
        some s.heap.heapPtr
      else s.next b)
    (hPrev : ∀ b, b ≠ s.heap.heapPtr → t.prev b =
      if cells[i]? = some b then some s.heap.heapPtr
      else s.prev b)
    (hData : ∀ b, b ≠ s.heap.heapPtr →
      (t.nodes b).data = (s.nodes b).data)
    (hHead : t.list.head =
      if (cells.take i).getLast? = none then
        some s.heap.heapPtr
      else s.list.head)
    (hTail : t.list.tail =
      if cells[i]? = none then some s.heap.heapPtr
      else s.list.tail)
    (hSize : t.list.size = s.list.size + 1#64) :
    ListHolds t (items.insertIdx i data) := by
  have hFresh := hCells.fresh
  have hGranted := hCells.granted
  have hMax := t.heap.heapPtr_le
  have hLow : heapStart + heapSize < 2 ^ 60 := by decide
  have hLength := List.length_insertIdx_of_le_length hi
    s.heap.heapPtr
  refine ⟨cells.insertIdx i s.heap.heapPtr, ?_, ?_, ?_, ?_, ?_, ?_⟩
  · rw [hHead, hTail]
    refine hCells.linked.insertAt hi hFresh hCells.nodup ?_ ?_
      hNext hPrev
    · exact congrArg ListNode.next hNode
    · exact congrArg ListNode.prev hNode
  · exact ((List.perm_insertIdx _ _ hi).nodup_iff).mpr
      (List.nodup_cons.mpr ⟨hFresh, hCells.nodup⟩)
  · have hSame : cells.map (fun a => (t.nodes a).data) =
        cells.map fun a => (s.nodes a).data := by
      refine List.map_congr_left fun a ha => hData a ?_
      rintro rfl
      exact hFresh ha
    rw [List.map_insertIdx, hSame, hCells.data_eq, hNode]
  · rw [hSize, BitVec.toNat_add, hLength, hCells.size_eq]
    exact Nat.mod_eq_of_lt (by simp only [BitVec.toNat_ofNat]; omega)
  · intro a ha
    rcases (List.mem_insertIdx hi).mp ha with rfl | hOld
    · omega
    · have hOldLt := hCells.old a hOld
      omega
  · rw [hLength]
    omega

/- A node whose neighbours link to each other instead -/
theorem ListCells.removed
    (hCells : ListCells s cells items)
    (hAt : cells[i]? = some a)
    (hHeap : t.heap = s.heap)
    (hNext : ∀ b, b ≠ a → t.next b =
      if s.prev a = some b then s.next a else s.next b)
    (hPrev : ∀ b, b ≠ a → t.prev b =
      if s.next a = some b then s.prev a else s.prev b)
    (hData : ∀ b, (t.nodes b).data = (s.nodes b).data)
    (hHead : t.list.head =
      if s.prev a = none then s.next a else s.list.head)
    (hTail : t.list.tail =
      if s.next a = none then s.prev a else s.list.tail)
    (hSize : t.list.size = s.list.size - 1#64) :
    ListHolds t (items.eraseIdx i) := by
  rcases List.getElem?_eq_some_iff.mp hAt with ⟨hLt, _⟩
  have hGranted := hCells.granted
  have hLength := List.length_eraseIdx_of_lt hLt
  refine ⟨cells.eraseIdx i, ?_, ?_, ?_, ?_, ?_, ?_⟩
  · rw [hHead, hTail]
    exact hCells.linked.removeAt hAt hCells.nodup hNext hPrev
  · exact hCells.nodup.sublist (List.eraseIdx_sublist _ _)
  · rw [← List.eraseIdx_map, ← hCells.data_eq]
    simp only [hData]
  · have hOne : (1#64).toNat ≤ s.list.size.toNat := by
      rw [hCells.size_eq]
      exact Nat.lt_of_le_of_lt (Nat.zero_le i) hLt
    rw [hSize, BitVec.toNat_sub_of_le (BitVec.le_def.mpr hOne),
      hCells.size_eq, hLength]
    rfl
  · intro b hb
    rw [hHeap]
    exact hCells.old b (List.mem_of_mem_eraseIdx hb)
  · rw [hHeap, hLength]
    omega

end Splices

--------------------
-- One Call
--------------------

section Calls

variable {s : ListState}
variable {cells : List Addr}
variable {items : List (Option Addr)}
variable {refused : ListFault → Prop}

theorem ListCells.head_eq
    (hCells : ListCells s cells items) :
    s.list.head = cells[0]? := by
  rw [hCells.linked.chain.head_eq, List.head?_eq_getElem?]

theorem ListCells.tail_eq
    (hCells : ListCells s cells items) :
    s.list.tail = cells.getLast? :=
  hCells.linked.last_eq_getLast?

variable {i : Nat}

/- The item of the node at an index -/
theorem ListCells.item_at
    (hCells : ListCells s cells items)
    (hAt : cells[i]? = some a) :
    items[i]?.join = (s.nodes a).data := by
  rw [← hCells.data_eq, List.getElem?_map, hAt]
  rfl

/- Walking reaches the node at an index. -/
theorem ListCells.walk
    (hCells : ListCells s cells items)
    {nodes : Addr → ListNode}
    (hSame : ∀ a, (nodes a).next = s.next a)
    (hi : i ≤ cells.length) :
    listWalk nodes s.list.head i = .ok cells[i]? := by
  induction i with
  | zero => exact congrArg Except.ok hCells.head_eq
  | succ i ih =>
      have hAt := List.getElem?_eq_getElem (Nat.lt_of_succ_le hi)
      simp only [listWalk, ih (Nat.le_of_succ_le hi), ok_bind, hAt,
        listDeref, hSame, (hCells.linked.links_at hAt).2]

/- A call answers like the sequence, or it is refused. -/
abbrev ListAnswers
    (refused : ListFault → Prop)
    (res : Except ListFault (Option Addr × ListState))
    (answer : Option Addr × List (Option Addr)) : Prop :=
  Agrees refused ListHolds res answer

theorem listPushFront_answers
    (hCells : ListCells s cells items)
    (data : Option Addr) :
    ListAnswers (ListRefused s (.pushFront data))
      (listCall s (.pushFront data)) (none, data :: items) := by
  have hHead := hCells.head_eq
  have hTail := hCells.tail_eq
  have hFresh := hCells.fresh
  simp only [listCall, listPushFront]
  cases hCall : kmalloc s.heap sizeofListNode with
  | mk p heap =>
      cases p with
      | none =>
          exact ⟨rfl, congrArg Prod.fst hCall⟩
      | some node =>
          rcases kmalloc_listNode hCall with ⟨rfl, hHeap⟩
          have hNe : s.list.head ≠ some s.heap.heapPtr := by
            rw [hHead]
            exact fun h => hFresh (List.mem_of_getElem? h)
          refine ⟨rfl, ?_⟩
          refine hCells.inserted (Nat.zero_le _) hHeap ?_ ?_ ?_ ?_
            rfl ?_ rfl
          · refine (setListPrevIf_of_ne _ _ hNe).trans ?_
            rw [Function.update_self, hHead]
            rfl
          · intro b hb
            simp [ListState.next, hb]
          · intro b hb
            simp [ListState.prev, hb, hHead]
          · intro b hb
            simp [hb]
          · rw [hTail]
            cases cells <;> simp

theorem listPushBack_answers
    (hCells : ListCells s cells items)
    (data : Option Addr) :
    ListAnswers (ListRefused s (.pushBack data))
      (listCall s (.pushBack data)) (none, items ++ [data]) := by
  have hHead := hCells.head_eq
  have hTail := hCells.tail_eq
  have hFresh := hCells.fresh
  have hNone : cells[cells.length]? = none := by simp
  simp only [listCall, listPushBack]
  cases hCall : kmalloc s.heap sizeofListNode with
  | mk p heap =>
      cases p with
      | none =>
          exact ⟨rfl, congrArg Prod.fst hCall⟩
      | some node =>
          rcases kmalloc_listNode hCall with ⟨rfl, hHeap⟩
          have hNe : s.list.tail ≠ some s.heap.heapPtr := by
            rw [hTail]
            exact fun h => hFresh (List.mem_of_getLast? h)
          rw [← List.insertIdx_length_self, hCells.length_eq]
          refine ⟨rfl, ?_⟩
          refine hCells.inserted (Nat.le_refl _) hHeap ?_ ?_ ?_ ?_
            ?_ ?_ rfl
          · refine (setListNextIf_of_ne _ _ hNe).trans ?_
            rw [Function.update_self, hTail, hNone,
              List.take_length]
          · intro b hb
            simp [ListState.next, hb, hTail]
          · intro b hb
            simp [ListState.prev, hb]
          · intro b hb
            simp [hb]
          · rw [hHead, List.take_length]
            cases cells <;> simp
          · rw [hNone]
            rfl

/- A list whose size is not 0 has a first node. -/
theorem ListCells.length_pos
    (hCells : ListCells s cells items)
    (hSize : s.list.size ≠ 0#64) :
    0 < cells.length := by
  rw [← hCells.size_eq]
  exact Nat.pos_of_ne_zero
    fun h => hSize (BitVec.eq_of_toNat_eq h)

/- A list whose size is 0 -/
theorem ListCells.items_nil
    (hCells : ListCells s cells items)
    (hSize : s.list.size = 0#64) :
    items = [] := by
  rw [← List.length_eq_zero_iff, hCells.length_eq,
    ← hCells.size_eq, hSize]
  rfl

theorem listPopFront_answers
    (hCells : ListCells s cells items) :
    ListAnswers refused (listPopFront s)
      (items[0]?.join, items.eraseIdx 0) := by
  unfold listPopFront
  by_cases hEmpty : s.list.size = 0#64
  · rw [if_pos hEmpty, hCells.items_nil hEmpty]
    rw [hCells.items_nil hEmpty] at hCells
    exact ⟨rfl, cells, hCells⟩
  · rw [if_neg hEmpty]
    have hAt := List.getElem?_eq_getElem (hCells.length_pos hEmpty)
    have hHead := hCells.head_eq
    rw [hAt] at hHead
    rcases hCells.linked.links_at hAt with ⟨hBack, _⟩
    simp only [hHead, listDeref, ok_bind]
    refine ⟨(hCells.item_at hAt).symm, ?_⟩
    refine hCells.removed hAt rfl ?_ ?_ ?_ ?_ ?_ rfl
    · intro b _
      rw [hBack]
      simp [ListState.next]
    · intro b _
      rw [hBack]
      exact setListPrevIf_prev _ _ _ _
    · intro b
      simp
    · rw [hBack]
      rfl
    · rw [hBack]
      rfl

theorem listPopBack_answers
    (hCells : ListCells s cells items) :
    ListAnswers refused (listPopBack s)
      (items[cells.length - 1]?.join,
        items.eraseIdx (cells.length - 1)) := by
  unfold listPopBack
  by_cases hEmpty : s.list.size = 0#64
  · rw [if_pos hEmpty, hCells.items_nil hEmpty]
    rw [hCells.items_nil hEmpty] at hCells
    exact ⟨rfl, cells, hCells⟩
  · rw [if_neg hEmpty]
    have hPos := hCells.length_pos hEmpty
    have hAt := List.getElem?_eq_getElem (Nat.sub_one_lt_of_lt hPos)
    have hTail := hCells.tail_eq
    rw [List.getLast?_eq_getElem?, hAt] at hTail
    rcases hCells.linked.links_at hAt with ⟨_, hLink⟩
    rw [Nat.sub_add_cancel hPos, List.getElem?_length] at hLink
    simp only [hTail, listDeref, ok_bind]
    refine ⟨(hCells.item_at hAt).symm, ?_⟩
    refine hCells.removed hAt rfl ?_ ?_ ?_ ?_ ?_ rfl
    · intro b _
      rw [hLink]
      exact setListNextIf_next _ _ _ _
    · intro b _
      rw [hLink]
      simp [ListState.prev]
    · intro b
      simp
    · rw [hLink]
      rfl
    · rw [hLink]
      rfl

/- The nodes on either side of one that is not at an end -/
theorem ListCells.neighbours
    (hCells : ListCells s cells items)
    {i : Nat}
    {a : Addr}
    (hAt : cells[i + 1]? = some a)
    (hBehind : i + 2 < cells.length) :
    ∃ before behind,
      cells[i]? = some before ∧
        s.prev a = some before ∧ s.next a = some behind := by
  rcases hCells.linked.links_at hAt with ⟨hBack, hLink⟩
  rw [List.getElem?_eq_getElem hBehind] at hLink
  have hBefore := List.getElem?_eq_getElem
    (Nat.lt_of_add_right_lt hBehind)
  rw [List.getLast?_take, if_neg (Nat.succ_ne_zero i),
    Nat.add_sub_cancel, hBefore] at hBack
  exact ⟨_, _, hBefore, hBack, hLink⟩

variable {index : U64}

theorem listUnlink_answers
    (hCells : ListCells s cells items)
    (hPos : 0 < index.toNat)
    (hLt : index.toNat + 1 < cells.length) :
    ListAnswers refused (listUnlink s index)
      (items[index.toNat]?.join, items.eraseIdx index.toNat) := by
  have hIndex : index.toNat - 1 + 1 = index.toNat := by omega
  have hAt := List.getElem?_eq_getElem (Nat.lt_of_succ_lt hLt)
  have hWalk := hCells.walk (fun _ => rfl)
    (Nat.le_of_lt (Nat.lt_of_succ_lt hLt))
  rcases @ListCells.neighbours _ _ _ hCells (index.toNat - 1) _
      (by rw [hIndex]; exact hAt) (by omega) with
    ⟨before, behind, _, hBack, hLink⟩
  rw [hAt] at hWalk
  unfold ListState.prev at hBack
  unfold ListState.next at hLink
  simp only [listUnlink, hWalk, ok_bind, listDeref, hBack, hLink,
    setListNext_eq, setListPrev_eq, setListNextIf_next,
    setListNextIf_prev, setListNextIf_data, setListPrevIf_data,
    ite_self]
  refine ⟨(hCells.item_at hAt).symm, ?_⟩
  refine hCells.removed hAt rfl ?_ ?_ ?_ ?_ ?_ rfl
  · intro b _
    simp [ListState.prev, ListState.next, hBack, hLink]
  · intro b _
    simp [ListState.prev, ListState.next, hBack, hLink]
  · intro b
    simp
  · simp [ListState.prev, hBack]
  · simp [ListState.next, hLink]

theorem listRemove_answers
    (hCells : ListCells s cells items)
    (index : U64) :
    ListAnswers refused (listCall s (.remove index))
      (items[index.toNat]?.join, items.eraseIdx index.toNat) := by
  have hLength := hCells.length_eq
  have hSize := hCells.size_eq
  simp only [listCall, listRemove]
  by_cases hOut : index ≥ s.list.size
  · rw [if_pos hOut]
    rw [ge_iff_le, BitVec.le_def] at hOut
    rw [List.getElem?_eq_none (by omega),
      List.eraseIdx_of_length_le (by omega)]
    exact ⟨rfl, cells, hCells⟩
  · rw [if_neg hOut]
    rw [ge_iff_le, BitVec.le_def, Nat.not_le] at hOut
    by_cases hFirst : index = 0#64
    · rw [if_pos hFirst]
      subst hFirst
      exact listPopFront_answers hCells
    · rw [if_neg hFirst]
      have hPos : 0 < index.toNat := Nat.pos_of_ne_zero
        fun h => hFirst (BitVec.eq_of_toNat_eq h)
      have hPred : (s.list.size - 1#64).toNat =
          cells.length - 1 := by
        rw [← hSize]
        exact Words.toNat_pred (Nat.zero_lt_of_lt hOut)
      by_cases hLast : index = s.list.size - 1#64
      · rw [if_pos hLast, hLast, hPred]
        exact listPopBack_answers hCells
      · rw [if_neg hLast]
        have hNe : index.toNat ≠ cells.length - 1 := by
          rw [← hPred]
          exact fun h => hLast (BitVec.eq_of_toNat_eq h)
        exact listUnlink_answers hCells hPos (by omega)

theorem listInsertAfter_cases
    (hCells : ListCells s cells items)
    (hPos : 0 < index.toNat)
    (hLt : index.toNat < cells.length)
    (data : Option Addr) :
    (listInsertAfter s index data = .error .noMemory ∧
        (kmalloc s.heap sizeofListNode).1 = none) ∨
      ∃ t, listInsertAfter s index data = .ok t ∧
        ListHolds t (items.insertIdx index.toNat data) := by
  unfold listInsertAfter
  cases hCall : kmalloc s.heap sizeofListNode with
  | mk p heap =>
      cases p with
      | none => exact .inl ⟨rfl, rfl⟩
      | some node =>
          rcases kmalloc_listNode hCall with ⟨rfl, hHeap⟩
          have hFresh := hCells.fresh
          have hPred : (index - 1#64).toNat = index.toNat - 1 :=
            Words.toNat_pred hPos
          have hIndex : index.toNat - 1 + 1 = index.toNat := by
            omega
          have hBefore := List.getElem?_eq_getElem
            (Nat.lt_of_le_of_lt (Nat.sub_le index.toNat 1) hLt)
          have hBehind := List.getElem?_eq_getElem hLt
          generalize cells[index.toNat - 1] = before at hBefore
          generalize cells[index.toNat] = behind at hBehind
          rcases hCells.linked.links_at hBefore with ⟨_, hLink⟩
          rw [hIndex, hBehind] at hLink
          have hBeforeNe : before ≠ s.heap.heapPtr := by
            rintro rfl
            exact hFresh (List.mem_of_getElem? hBefore)
          have hBehindNe : behind ≠ s.heap.heapPtr := by
            rintro rfl
            exact hFresh (List.mem_of_getElem? hBehind)
          have hTake : (cells.take index.toNat).getLast? =
              some before := by
            rw [List.getLast?_take, if_neg (by omega), hBefore]
            rfl
          dsimp only
          -- only the item of the new node is written so far
          generalize hNodes : Function.update s.nodes
            s.heap.heapPtr
            { s.nodes s.heap.heapPtr with data := data } = nodes
          have hNext : ∀ a, (nodes a).next = s.next a := by
            intro a
            subst hNodes
            by_cases ha : a = s.heap.heapPtr
            · subst ha
              rw [Function.update_self]
              rfl
            · rw [Function.update_of_ne ha]
              rfl
          have hOther : ∀ a, a ≠ s.heap.heapPtr →
              nodes a = s.nodes a := by
            intro a ha
            rw [← hNodes, Function.update_of_ne ha]
          have hItem : (nodes s.heap.heapPtr).data = data := by
            rw [← hNodes, Function.update_self]
          have hWalk := hCells.walk hNext
            (Nat.le_trans (Nat.sub_le index.toNat 1)
              (Nat.le_of_lt hLt))
          rw [hBefore] at hWalk
          right
          simp only [hPred, hWalk, ok_bind, listDeref,
            setListNext_eq, setListPrev_eq, setListNextIf_next,
            setListPrevIf_next, hNext, hLink, ite_self]
          refine ⟨_, rfl, hCells.inserted (Nat.le_of_lt hLt) hHeap
            ?_ ?_ ?_ ?_ ?_ ?_ rfl⟩
          · rw [hTake, hBehind]
            ext1 <;>
              simp [hBeforeNe, hBehindNe, hItem]
          · intro b hb
            rw [hTake]
            simp [ListState.next, hOther b hb, Ne.symm hb]
          · intro b hb
            rw [hBehind]
            simp [ListState.prev, hOther b hb, Ne.symm hb]
          · intro b hb
            simp [hOther b hb]
          · rw [hTake]
            rfl
          · rw [hBehind]
            rfl

theorem listInsert_answers
    (hCells : ListCells s cells items)
    (index : U64)
    (data : Option Addr) :
    ListAnswers (ListRefused s (.insert index data))
      (listCall s (.insert index data))
      (listSequenceCall items (.insert index data)) := by
  have hLength := hCells.length_eq
  have hSize := hCells.size_eq
  simp only [listCall, listInsert, listSequenceCall]
  by_cases hFirst : index = 0#64
  · rw [if_pos hFirst, hFirst]
    exact listPushFront_answers hCells data
  · rw [if_neg hFirst]
    by_cases hPast : index ≥ s.list.size
    · rw [if_pos hPast]
      rw [ge_iff_le, BitVec.le_def] at hPast
      have hAppend :
          (if index.toNat ≤ items.length then
            items.insertIdx index.toNat data
          else items ++ [data]) = items ++ [data] := by
        by_cases hLe : index.toNat ≤ items.length
        · have hEq : index.toNat = items.length := by omega
          rw [if_pos hLe, hEq, List.insertIdx_length_self]
        · rw [if_neg hLe]
      rw [hAppend]
      exact listPushBack_answers hCells data
    · rw [if_neg hPast]
      rw [ge_iff_le, BitVec.le_def, Nat.not_le] at hPast
      have hPos : 0 < index.toNat := Nat.pos_of_ne_zero
        fun h => hFirst (BitVec.eq_of_toNat_eq h)
      rw [if_pos (by omega)]
      rcases listInsertAfter_cases hCells hPos (by omega) data with
        ⟨hError, hNone⟩ | ⟨t, hDone, hHolds⟩
      · rw [hError, error_bind]
        exact ⟨rfl, hNone⟩
      · rw [hDone, ok_bind]
        exact ⟨rfl, hHolds⟩

theorem listAt_answers
    (hCells : ListCells s cells items)
    (index : U64) :
    ListAnswers refused (listCall s (.at index))
      (items[index.toNat]?.join, items) := by
  have hLength := hCells.length_eq
  have hSize := hCells.size_eq
  simp only [listCall, listAt]
  by_cases hOut : index ≥ s.list.size
  · rw [if_pos hOut, ok_bind]
    rw [ge_iff_le, BitVec.le_def] at hOut
    rw [List.getElem?_eq_none (by omega)]
    exact ⟨rfl, cells, hCells⟩
  · rw [if_neg hOut]
    rw [ge_iff_le, BitVec.le_def, Nat.not_le] at hOut
    rw [hSize] at hOut
    have hAt := List.getElem?_eq_getElem hOut
    have hWalk := hCells.walk (fun _ => rfl) (Nat.le_of_lt hOut)
    rw [hAt] at hWalk
    simp only [hWalk, ok_bind, listDeref]
    exact ⟨(hCells.item_at hAt).symm, cells, hCells⟩

theorem listCall_agrees
    (hHolds : ListHolds s items)
    (call : ListCall) :
    ListAnswers (ListRefused s call) (listCall s call)
      (listSequenceCall items call) := by
  rcases hHolds with ⟨cells, hCells⟩
  cases call with
  | pushFront data => exact listPushFront_answers hCells data
  | pushBack data => exact listPushBack_answers hCells data
  | popFront =>
      have hPop := @listPopFront_answers _ _ _
        (ListRefused s .popFront) hCells
      rw [List.eraseIdx_zero, ← List.head?_eq_getElem?] at hPop
      exact hPop
  | popBack =>
      have hPop := @listPopBack_answers _ _ _
        (ListRefused s .popBack) hCells
      rw [← hCells.length_eq, List.eraseIdx_length_sub_one,
        ← List.getLast?_eq_getElem?] at hPop
      exact hPop
  | insert index data =>
      exact listInsert_answers hCells index data
  | remove index => exact listRemove_answers hCells index
  | «at» index => exact listAt_answers hCells index

end Calls

--------------------
-- Runs
--------------------

theorem listInit_holds
    (nodes : Addr → ListNode)
    (heap : Heap) :
    ListHolds (listInit nodes heap) [] :=
  ⟨[], ⟨rfl, rfl⟩, List.nodup_nil, rfl, rfl, nofun,
    Nat.zero_le _⟩

/-
  A list answers every sequence of calls as the sequence of
  its items does, until `kmalloc` returns NULL.
-/
theorem listRun_agrees
    (nodes : Addr → ListNode)
    (heap : Heap)
    (calls : List ListCall) :
    Agrees
      (StopsAt listCall ListRefused (listInit nodes heap) calls)
      ListRefines
      (Replay.replay listCall (listInit nodes heap) calls)
      (Replay.answers listSequenceCall [] calls) := by
  have hHolds := @Replay.agrees_replay _ _ _ _ _ ListHolds
    listCall listSequenceCall ListRefused _ _
    (fun _ _ call hHolds => listCall_agrees hHolds call)
    (listInit_holds nodes heap) calls
  exact hHolds.mono fun _ _ hHolds => hHolds.refines

end FeatherOS
