import FeatherOS.Kmalloc
import FeatherOS.Library.Probing

/-
  `hash_table_t` of `kernel/lib/datastructures.c`.

  The loops of the three operations share one shape: look at
  a slot, answer or go on with the next one, and give up when
  back at the first. Each takes a bound on its turns.

  Key definitions include:
    * `HashTable`
    * `hashInit`
    * `hashPut`
    * `hashGet`
    * `hashRemove`
-/

namespace FeatherOS

--------------------
-- Tables
--------------------

/- hash_entry_t -/
structure HashEntry where
  key : U64
  value : Option Addr
  occupied : Bool
  deleted : Bool

/- hash_table_t -/
structure HashTable where
  entries : Nat → HashEntry
  capacity : U64
  size : U64
  maxLoad : U64

/- sizeof(hash_entry_t) -/
def sizeofHashEntry : U64 := 24#64

/- HASH_TABLE_LOAD_FACTOR -/
def hashTableLoadFactor : U64 := 75#64

def hashFunction
    (key _capacity : U64) : U64 :=
  let key := ((key >>> 16) ^^^ key) * 0x45d9f3b#64
  let key := ((key >>> 16) ^^^ key) * 0x45d9f3b#64
  (key >>> 16) ^^^ key

/-
  `garbage` is what the block holds. `none` is a failed
  assertion, or a loop that runs over the end of the block.
-/
def hashInit
    (heap : Heap)
    (initialCapacity : U64)
    (garbage : Nat → HashEntry) :
    Option (HashTable × Heap) :=
  let capacity :=
    if 0#64 < initialCapacity then initialCapacity else 16#64
  let bytes := sizeofHashEntry * capacity
  match kmalloc heap bytes with
  | (none, _) => none
  | (some _, heap) =>
      if bytes.toNat < sizeofHashEntry.toNat * capacity.toNat then
        none
      else
        some
          ({ entries := fun i =>
              { garbage i with occupied := false, deleted := false }
             capacity := capacity
             size := 0#64
             maxLoad := capacity * hashTableLoadFactor / 100#64 },
            heap)

namespace HashTable

/- `hash_function(key, capacity) % capacity` -/
def home
    (t : HashTable)
    (key : U64) : Nat :=
  (hashFunction key t.capacity % t.capacity).toNat

def setEntry
    (t : HashTable)
    (index : Nat)
    (e : HashEntry) :
    HashTable :=
  { t with entries := Function.update t.entries index e }

end HashTable

--------------------
-- Operations
--------------------

/- One turn of the loop of `hash_put`. -/
def hashPutAt
    (t : HashTable)
    (key : U64)
    (value : Option Addr)
    (index : Nat) :
    Option (Bool × HashTable) :=
  let e := t.entries index
  if !e.occupied || e.deleted then
    some (true,
      { t.setEntry index ⟨key, value, true, false⟩ with
        size := t.size + 1#64 })
  else if e.key = key ∧ e.deleted = false then
    some (true, t.setEntry index { e with value := value })
  else
    none

def hashPut
    (fuel : Nat)
    (t : HashTable)
    (key : U64)
    (value : Option Addr) :
    Option (Bool × HashTable) :=
  if t.maxLoad ≤ t.size then
    some (false, t)
  else
    Probing.loop t.capacity.toNat (hashPutAt t key value)
      (false, t) (t.home key) fuel (t.home key)

/- One turn of the loop of `hash_get`. -/
def hashGetAt
    (t : HashTable)
    (key : U64)
    (index : Nat) :
    Option (Option Addr) :=
  let e := t.entries index
  if e.occupied = false then
    some none
  else if e.key = key ∧ e.deleted = false then
    some e.value
  else
    none

def hashGet
    (fuel : Nat)
    (t : HashTable)
    (key : U64) :
    Option (Option Addr) :=
  Probing.loop t.capacity.toNat (hashGetAt t key) none
    (t.home key) fuel (t.home key)

/- One turn of the loop of `hash_remove`. -/
def hashRemoveAt
    (t : HashTable)
    (key : U64)
    (index : Nat) :
    Option (Option Addr × HashTable) :=
  let e := t.entries index
  if e.occupied = false then
    some (none, t)
  else if e.key = key ∧ e.deleted = false then
    some (e.value,
      { t.setEntry index { e with deleted := true } with
        size := t.size - 1#64 })
  else
    none

def hashRemove
    (fuel : Nat)
    (t : HashTable)
    (key : U64) :
    Option (Option Addr × HashTable) :=
  Probing.loop t.capacity.toNat (hashRemoveAt t key) (none, t)
    (t.home key) fuel (t.home key)

end FeatherOS
