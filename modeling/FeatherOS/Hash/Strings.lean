import FeatherOS.Kmalloc
import FeatherOS.Library.Probing

/-
  `str_hash_table_t` of `kernel/lib/datastructures.c`.

  Key definitions include:
    * `CString`
    * `StrHashTable`
    * `strHashInit`
    * `strHashPut`
    * `strHashGet`
    * `strHashRemove`

  Key theorems include:
    * `strcmp_cstring`
-/

namespace FeatherOS

--------------------
-- Strings
--------------------

/- The characters of a C string, without the closing NUL. -/
structure CString where
  bytes : List U8
  no_nul : 0#8 ∉ bytes
deriving DecidableEq

theorem empty_noNul :
    0#8 ∉ ([] : List U8) :=
  List.not_mem_nil

/- A list with a NUL is its string, the NUL and a rest. -/
theorem exists_string
    {l : List U8}
    (hNul : 0#8 ∈ l) :
    ∃ back, l = (l.takeWhile fun c => c ≠ 0#8) ++ 0#8 :: back := by
  induction l with
  | nil => cases hNul
  | cons c l ih =>
      by_cases hZero : c = 0#8
      · exact ⟨l, by simp [hZero]⟩
      · have hRest := (List.mem_cons.mp hNul).resolve_left
          (Ne.symm hZero)
        rcases ih hRest with ⟨back, hBack⟩
        refine ⟨back, ?_⟩
        rw [List.takeWhile_cons_of_pos (by simp [hZero]),
          List.cons_append, ← hBack]

/- `char` is signed. The end of a string reads as zero. -/
def strcmp : List U8 → List U8 → Int
  | c :: s, d :: t =>
      if c ≠ d then c.toInt - d.toInt else strcmp s t
  | c :: _, [] => c.toInt
  | [], d :: _ => -d.toInt
  | [], [] => 0

theorem strcmp_eq_zero
    {s t : List U8}
    (hs : 0#8 ∉ s)
    (ht : 0#8 ∉ t) :
    strcmp s t = 0 ↔ s = t := by
  induction s generalizing t with
  | nil =>
      cases t with
      | nil => simp [strcmp]
      | cons d t =>
          have hd : d ≠ 0#8 := by
            rintro rfl
            exact ht List.mem_cons_self
          have hInt : d.toInt ≠ 0 := by
            intro hZero
            exact hd (BitVec.eq_of_toInt_eq hZero)
          simp only [strcmp, reduceCtorEq, iff_false]
          omega
  | cons c s ih =>
      cases t with
      | nil =>
          have hc : c ≠ 0#8 := by
            rintro rfl
            exact hs List.mem_cons_self
          have hInt : c.toInt ≠ 0 := by
            intro hZero
            exact hc (BitVec.eq_of_toInt_eq hZero)
          simp only [strcmp, reduceCtorEq, iff_false]
          exact hInt
      | cons d t =>
          have hRest :=
            ih (fun h => hs (List.mem_cons_of_mem _ h))
              (fun h => ht (List.mem_cons_of_mem _ h))
          simp only [strcmp, List.cons.injEq]
          by_cases hcd : c = d
          · simp [hcd, hRest]
          · have hInt : c.toInt ≠ d.toInt := fun hEq =>
              hcd (BitVec.eq_of_toInt_eq hEq)
            simp only [hcd, ne_eq, not_false_eq_true, if_true,
              false_and, iff_false]
            omega

theorem strcmp_cstring
    (s t : CString) :
    strcmp s.bytes t.bytes = 0 ↔ s = t := by
  rw [strcmp_eq_zero s.no_nul t.no_nul, CString.mk.injEq]

--------------------
-- Tables
--------------------

/- str_hash_table_t -/
structure StrHashTable where
  keys : Nat → Option CString
  values : Nat → Option Addr
  capacity : U64
  size : U64

/- The characters are added with their sign. -/
def strHashFunction
    (key : CString)
    (capacity : U64) : U64 :=
  key.bytes.foldl
      (fun (hash : U64) (c : U8) =>
        ((hash <<< 5) + hash) + c.signExtend 64)
      5381#64 %
    capacity

/- sizeof(char*) and sizeof(void*) -/
def sizeofPointer : U64 := 8#64

/-
  `garbage` is what the block of the values holds. `none` is
  a failed assertion, or a loop that runs over the end of
  the block.
-/
def strHashInit
    (heap : Heap)
    (initialCapacity : U64)
    (garbage : Nat → Option Addr) :
    Option (StrHashTable × Heap) :=
  let capacity :=
    if 0#64 < initialCapacity then initialCapacity else 16#64
  let bytes := sizeofPointer * capacity
  match kmalloc heap bytes with
  | (keys, heap) =>
      match keys, kmalloc heap bytes with
      | some _, (some _, heap) =>
          if bytes.toNat <
              sizeofPointer.toNat * capacity.toNat then
            none
          else
            some
              ({ keys := fun _ => none
                 values := garbage
                 capacity := capacity
                 size := 0#64 },
                heap)
      | _, _ => none

namespace StrHashTable

def home
    (t : StrHashTable)
    (key : CString) : Nat :=
  (strHashFunction key t.capacity).toNat

def slots (t : StrHashTable) : Nat :=
  t.capacity.toNat

/- The table after `str_hash_put` took an empty slot. -/
def insert
    (t : StrHashTable)
    (index : Nat)
    (key : CString)
    (value : Option Addr) :
    StrHashTable :=
  { t with
    keys := Function.update t.keys index (some key)
    values := Function.update t.values index value
    size := t.size + 1#64 }

/- The table after `str_hash_put` wrote a value. -/
def replace
    (t : StrHashTable)
    (index : Nat)
    (value : Option Addr) :
    StrHashTable :=
  { t with values := Function.update t.values index value }

/- The table after `str_hash_remove` emptied a slot. -/
def delete
    (t : StrHashTable)
    (index : Nat) :
    StrHashTable :=
  { t with
    keys := Function.update t.keys index none
    size := t.size - 1#64 }

end StrHashTable

--------------------
-- Operations
--------------------

/-
  One turn of the loop of `str_hash_put`. The loop ends at an
  empty slot, and the key is put there.
-/
def strHashPutAt
    (t : StrHashTable)
    (key : CString)
    (value : Option Addr)
    (index : Nat) :
    Option (Bool × StrHashTable) :=
  match t.keys index with
  | none => some (true, t.insert index key value)
  | some stored =>
      if strcmp stored.bytes key.bytes = 0 then
        some (true, t.replace index value)
      else
        none

def strHashPut
    (fuel : Nat)
    (t : StrHashTable)
    (key : CString)
    (value : Option Addr) :
    Option (Bool × StrHashTable) :=
  Probing.loop t.slots (strHashPutAt t key value) (false, t)
    (t.home key) fuel (t.home key)

/- One turn of the loop of `str_hash_get`. -/
def strHashGetAt
    (t : StrHashTable)
    (key : CString)
    (index : Nat) :
    Option (Option Addr) :=
  match t.keys index with
  | none => some none
  | some stored =>
      if strcmp stored.bytes key.bytes = 0 then
        some (t.values index)
      else
        none

def strHashGet
    (fuel : Nat)
    (t : StrHashTable)
    (key : CString) :
    Option (Option Addr) :=
  Probing.loop t.slots (strHashGetAt t key) none (t.home key)
    fuel (t.home key)

/- One turn of the loop of `str_hash_remove`. -/
def strHashRemoveAt
    (t : StrHashTable)
    (key : CString)
    (index : Nat) :
    Option (Option Addr × StrHashTable) :=
  match t.keys index with
  | none => some (none, t)
  | some stored =>
      if strcmp stored.bytes key.bytes = 0 then
        some (t.values index, t.delete index)
      else
        none

def strHashRemove
    (fuel : Nat)
    (t : StrHashTable)
    (key : CString) :
    Option (Option Addr × StrHashTable) :=
  Probing.loop t.slots (strHashRemoveAt t key) (none, t)
    (t.home key) fuel (t.home key)

end FeatherOS
