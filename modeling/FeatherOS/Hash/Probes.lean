import FeatherOS.Hash.Model
import FeatherOS.Library.Run

/-
  Every live entry of a hash table can be reached.

  The slots that were ever used are never given back, so the
  slots between the home slot of a key and its entry stay
  used. The load factor leaves a slot without a live entry,
  so an insertion never comes round.

  Key definitions include:
    * `HashTable.live`
    * `HashTable.Ok`
    * `HashStep`

  Key theorems include:
    * `hashPut_spec`
    * `hashGet_spec`
    * `hashRemove_spec`
    * `hash_run_probes`
-/

namespace FeatherOS

open Cyclic (slot)
open Probing (Chained filled)

--------------------
-- The Invariant
--------------------

namespace HashTable

/- The entry in a slot, if it is not deleted. -/
def live
    (t : HashTable)
    (i : Nat) :
    Option (U64 × Option Addr) :=
  if (t.entries i).occupied && !(t.entries i).deleted then
    some ((t.entries i).key, (t.entries i).value)
  else
    none

def used
    (t : HashTable)
    (i : Nat) : Bool :=
  (t.entries i).occupied

def slots (t : HashTable) : Nat :=
  t.capacity.toNat

/- The number of live entries. -/
def count (t : HashTable) : Nat :=
  (filled t.slots t.live).card

structure Ok (t : HashTable) : Prop where
  chained : Chained t.slots t.home t.used t.live
  size_eq : t.size.toNat = t.count
  load : t.maxLoad.toNat < t.slots

end HashTable

section Entries

variable {t : HashTable}
variable {key : U64}
variable {value : Option Addr}
variable {i : Nat}

theorem live_eq_some
    {entry : U64 × Option Addr} :
    t.live i = some entry ↔
      (t.entries i).occupied = true ∧
        (t.entries i).deleted = false ∧
        (t.entries i).key = entry.1 ∧
        (t.entries i).value = entry.2 := by
  unfold HashTable.live
  rcases entry with ⟨key, value⟩
  cases (t.entries i).occupied <;>
    cases (t.entries i).deleted <;> simp

/- The table after `hash_put` wrote a whole entry. -/
def HashTable.insert
    (t : HashTable)
    (i : Nat)
    (key : U64)
    (value : Option Addr) :
    HashTable :=
  { t.setEntry i ⟨key, value, true, false⟩ with
    size := t.size + 1#64 }

/- The table after `hash_put` wrote a value. -/
def HashTable.replace
    (t : HashTable)
    (i : Nat)
    (value : Option Addr) :
    HashTable :=
  t.setEntry i { t.entries i with value := value }

/- The table after `hash_remove` marked an entry. -/
def HashTable.delete
    (t : HashTable)
    (i : Nat) :
    HashTable :=
  { t.setEntry i { t.entries i with deleted := true } with
    size := t.size - 1#64 }

theorem live_insert :
    (t.insert i key value).live =
      Function.update t.live i (some (key, value)) := by
  funext j
  by_cases hji : j = i
  · subst hji
    simp [HashTable.live, HashTable.insert, HashTable.setEntry]
  · simp [HashTable.live, HashTable.insert, HashTable.setEntry,
      Function.update_of_ne hji]

theorem live_replace
    {old : Option Addr}
    (hLive : t.live i = some (key, old)) :
    (t.replace i value).live =
      Function.update t.live i (some (key, value)) := by
  rcases live_eq_some.mp hLive with ⟨hOcc, hDel, hKey, _⟩
  funext j
  by_cases hji : j = i
  · subst hji
    simp [HashTable.live, HashTable.replace,
      HashTable.setEntry, hOcc, hDel, hKey]
  · simp [HashTable.live, HashTable.replace,
      HashTable.setEntry, Function.update_of_ne hji]

theorem live_delete :
    (t.delete i).live = Function.update t.live i none := by
  funext j
  by_cases hji : j = i
  · subst hji
    simp [HashTable.live, HashTable.delete, HashTable.setEntry]
  · simp [HashTable.live, HashTable.delete, HashTable.setEntry,
      Function.update_of_ne hji]

theorem used_insert :
    (t.insert i key value).used =
      Function.update t.used i true := by
  funext j
  by_cases hji : j = i
  · subst hji
    simp [HashTable.used, HashTable.insert, HashTable.setEntry]
  · simp [HashTable.used, HashTable.insert, HashTable.setEntry,
      Function.update_of_ne hji]

theorem used_replace :
    (t.replace i value).used = t.used := by
  funext j
  by_cases hji : j = i
  · subst hji
    simp [HashTable.used, HashTable.replace,
      HashTable.setEntry]
  · simp [HashTable.used, HashTable.replace,
      HashTable.setEntry, Function.update_of_ne hji]

theorem used_delete :
    (t.delete i).used = t.used := by
  funext j
  by_cases hji : j = i
  · subst hji
    simp [HashTable.used, HashTable.delete, HashTable.setEntry]
  · simp [HashTable.used, HashTable.delete, HashTable.setEntry,
      Function.update_of_ne hji]

end Entries

--------------------
-- Bodies
--------------------

theorem hashPutAt_eq
    (t : HashTable)
    (key : U64)
    (value : Option Addr) :
    hashPutAt t key value =
      Probing.place t.live key
        (fun i => (true, t.insert i key value))
        (fun i => (true, t.replace i value)) := by
  funext i
  unfold hashPutAt Probing.place HashTable.live
  cases hOcc : (t.entries i).occupied <;>
    cases hDel : (t.entries i).deleted <;>
    simp [hOcc, hDel, HashTable.insert, HashTable.replace]

theorem hashGetAt_eq
    (t : HashTable)
    (key : U64) :
    hashGetAt t key =
      Probing.search t.used t.live key
        (fun i => (t.entries i).value) none := by
  funext i
  unfold hashGetAt Probing.search HashTable.live HashTable.used
  cases hOcc : (t.entries i).occupied <;>
    cases hDel : (t.entries i).deleted <;>
    simp [hOcc, hDel]

theorem hashRemoveAt_eq
    (t : HashTable)
    (key : U64) :
    hashRemoveAt t key =
      Probing.search t.used t.live key
        (fun i => ((t.entries i).value, t.delete i))
        (none, t) := by
  funext i
  unfold hashRemoveAt Probing.search HashTable.live
    HashTable.used
  cases hOcc : (t.entries i).occupied <;>
    cases hDel : (t.entries i).deleted <;>
    simp [hOcc, hDel, HashTable.delete]

--------------------
-- The Invariant Is Kept
--------------------

section Kept

variable {t t' : HashTable}
variable {key : U64}
variable {value : Option Addr}
variable {fuel : Nat}

namespace HashTable.Ok

theorem insert
    {d : Nat}
    (hOk : t.Ok)
    (hd : d < t.slots)
    (hPath : ∀ e < d, ∃ k w,
      t.live (slot t.slots (t.home key) e) = some (k, w))
    (hFree : t.live (slot t.slots (t.home key) d) = none)
    (hRoom : t.size.toNat < t.maxLoad.toNat) :
    (t.insert (slot t.slots (t.home key) d) key value).Ok where
  chained := by
    have hPos : 0 < t.slots := Nat.zero_lt_of_lt hd
    have hPathUsed : ∀ e < d,
        t.used (slot t.slots (t.home key) e) = true := by
      intro e he
      rcases hPath e he with ⟨k, w, hLive⟩
      exact hOk.chained.used_of_live (Cyclic.slot_lt hPos) hLive
    rw [live_insert, used_insert]
    refine hOk.chained.insert hd hPathUsed ?_
      (Function.update_self ..)
    intro j hUsed
    by_cases hj : j = slot t.slots (t.home key) d
    · rw [hj, Function.update_self]
    · rwa [Function.update_of_ne hj]
  size_eq := by
    have hPos : 0 < t.slots := Nat.zero_lt_of_lt hd
    have hMax := t.maxLoad.isLt
    have hCard :=
      @Probing.card_filled_insert _ _ t.slots t.live
        (slot t.slots (t.home key) d) (key, value)
        (Cyclic.slot_lt hPos) hFree
    have hSize : (t.size + 1#64).toNat = t.size.toNat + 1 :=
      Words.toNat_succ (by omega)
    have hEq := hOk.size_eq
    unfold HashTable.count at hEq ⊢
    rw [live_insert]
    refine hSize.trans ?_
    rw [hEq]
    exact hCard.symm
  load := hOk.load

theorem replace
    {i : Nat}
    {old : Option Addr}
    (hOk : t.Ok)
    (hLive : t.live i = some (key, old)) :
    (t.replace i value).Ok where
  chained := by
    refine hOk.chained.mono ?_ ?_
    · rw [used_replace]
      exact fun _ hUsed => hUsed
    · intro j _ k v hNew
      rw [live_replace hLive] at hNew
      by_cases hji : j = i
      · rw [hji, Function.update_self] at hNew
        cases hNew
        exact ⟨old, hji ▸ hLive⟩
      · rw [Function.update_of_ne hji] at hNew
        exact ⟨v, hNew⟩
  size_eq := by
    have hEq := hOk.size_eq
    unfold HashTable.count at hEq ⊢
    rw [live_replace hLive]
    exact hEq.trans (Probing.card_filled_replace hLive).symm
  load := hOk.load

theorem delete
    {i : Nat}
    (hOk : t.Ok)
    (hi : i < t.slots)
    (hLive : t.live i = some (key, value)) :
    (t.delete i).Ok where
  chained := by
    refine hOk.chained.mono ?_ ?_
    · rw [used_delete]
      exact fun _ hUsed => hUsed
    · intro j _ k v hNew
      rw [live_delete] at hNew
      by_cases hji : j = i
      · rw [hji, Function.update_self] at hNew
        cases hNew
      · rw [Function.update_of_ne hji] at hNew
        exact ⟨v, hNew⟩
  size_eq := by
    have hCard := Probing.card_filled_erase hi hLive
    have hEq := hOk.size_eq
    unfold HashTable.count at hEq ⊢
    rw [live_delete]
    have hSize : (t.size - 1#64).toNat = t.size.toNat - 1 := by
      refine Words.toNat_pred ?_
      rw [hEq, ← hCard]
      exact Nat.succ_pos _
    refine hSize.trans ?_
    rw [hEq, ← hCard]
    rfl
  load := hOk.load

end HashTable.Ok

--------------------
-- What One Call Does
--------------------

/-
  An insertion is refused at the maximal load. Else it takes
  the first slot that has no live entry or has the key.
-/
theorem hashPut_spec
    (value : Option Addr)
    (hOk : t.Ok)
    (hFuel : t.slots ≤ fuel)
    (key : U64) :
    t.maxLoad ≤ t.size ∧
        hashPut fuel t key value = some (false, t) ∨
      t.size < t.maxLoad ∧
        ∃ d < t.slots,
          (∀ e < d, ∃ k w,
            t.live (slot t.slots (t.home key) e) =
                some (k, w) ∧ k ≠ key) ∧
            (t.live (slot t.slots (t.home key) d) = none ∧
                hashPut fuel t key value =
                  some (true,
                    t.insert (slot t.slots (t.home key) d) key
                      value) ∨
              (∃ w, t.live (slot t.slots (t.home key) d) =
                  some (key, w)) ∧
                hashPut fuel t key value =
                  some (true,
                    t.replace (slot t.slots (t.home key) d)
                      value)) := by
  unfold hashPut
  by_cases hLoad : t.maxLoad ≤ t.size
  · rw [if_pos hLoad]
    exact Or.inl ⟨hLoad, rfl⟩
  · have hRoom : t.size < t.maxLoad := BitVec.not_le.mp hLoad
    rw [if_neg hLoad, hashPutAt_eq]
    refine Or.inr ⟨hRoom, ?_⟩
    rcases Probing.place_spec t.live
        (fun i => (true, t.insert i key value))
        (fun i => (true, t.replace i value)) (false, t)
        (hOk.chained.home_lt key) hFuel with
      hTaken | ⟨hFull, _⟩
    · exact hTaken
    · -- Fewer live entries than slots, so one has none.
      have hCount : t.count < t.slots := by
        rw [← hOk.size_eq]
        rw [BitVec.lt_def] at hRoom
        exact Nat.lt_trans hRoom hOk.load
      rcases Probing.exists_none hCount with ⟨i, hi, hNone⟩
      rcases hFull i hi with ⟨k, w, hLive, _⟩
      rw [hNone] at hLive
      cases hLive

/- A search returns the value of a live entry of its key. -/
theorem hashGet_spec
    (hOk : t.Ok)
    (hFuel : t.slots ≤ fuel)
    (key : U64) :
    (∃ i < t.slots, ∃ v, t.live i = some (key, v) ∧
        hashGet fuel t key = some v) ∨
      (∀ i < t.slots, ∀ v, t.live i ≠ some (key, v)) ∧
        hashGet fuel t key = some none := by
  unfold hashGet
  rw [hashGetAt_eq]
  refine Probing.search_answer key (fun _ v => v) none ?_
    hOk.chained hFuel
  intro i v hLive
  exact (live_eq_some.mp hLive).2.2.2

/- A removal marks a live entry of its key. -/
theorem hashRemove_spec
    (hOk : t.Ok)
    (hFuel : t.slots ≤ fuel)
    (key : U64) :
    (∃ i < t.slots, ∃ v, t.live i = some (key, v) ∧
        hashRemove fuel t key = some (v, t.delete i)) ∨
      (∀ i < t.slots, ∀ v, t.live i ≠ some (key, v)) ∧
        hashRemove fuel t key = some (none, t) := by
  unfold hashRemove
  rw [hashRemoveAt_eq]
  refine Probing.search_answer key (fun i v => (v, t.delete i))
    (none, t) ?_ hOk.chained hFuel
  intro i v hLive
  rw [(live_eq_some.mp hLive).2.2.2]

variable {fuel' : Nat}

/- The bound on the turns does not change the answer. -/
theorem hashPut_unique
    {r r' : Bool × HashTable}
    (hCall : hashPut fuel t key value = some r)
    (hCall' : hashPut fuel' t key value = some r') :
    r = r' := by
  unfold hashPut at hCall hCall'
  by_cases hLoad : t.maxLoad ≤ t.size
  · rw [if_pos hLoad] at hCall hCall'
    exact Option.some.inj (hCall.symm.trans hCall')
  · rw [if_neg hLoad] at hCall hCall'
    exact Probing.loop_unique hCall hCall'

theorem hashGet_unique
    {r r' : Option Addr}
    (hCall : hashGet fuel t key = some r)
    (hCall' : hashGet fuel' t key = some r') :
    r = r' :=
  Probing.loop_unique hCall hCall'

theorem hashRemove_unique
    {r r' : Option Addr × HashTable}
    (hCall : hashRemove fuel t key = some r)
    (hCall' : hashRemove fuel' t key = some r') :
    r = r' :=
  Probing.loop_unique hCall hCall'

/- What an insertion that returns did. -/
theorem hashPut_cases
    {ok : Bool}
    (hOk : t.Ok)
    (hCall : hashPut fuel t key value = some (ok, t')) :
    t.maxLoad ≤ t.size ∧ ok = false ∧ t' = t ∨
      t.size < t.maxLoad ∧ ok = true ∧
        ∃ d < t.slots,
          (∀ e < d, ∃ k w,
            t.live (slot t.slots (t.home key) e) =
                some (k, w) ∧ k ≠ key) ∧
            (t.live (slot t.slots (t.home key) d) = none ∧
                t' = t.insert (slot t.slots (t.home key) d)
                  key value ∨
              (∃ w, t.live (slot t.slots (t.home key) d) =
                  some (key, w)) ∧
                t' = t.replace (slot t.slots (t.home key) d)
                  value) := by
  rcases hashPut_spec value hOk (Nat.le_refl _) key with
    ⟨hLoad, hSpec⟩ | ⟨hRoom, d, hd, hPath, hSpec⟩
  · cases hashPut_unique hCall hSpec
    exact Or.inl ⟨hLoad, rfl, rfl⟩
  · rcases hSpec with ⟨hFree, hSpec⟩ | ⟨hHere, hSpec⟩
    · cases hashPut_unique hCall hSpec
      exact Or.inr ⟨hRoom, rfl, d, hd, hPath,
        Or.inl ⟨hFree, rfl⟩⟩
    · cases hashPut_unique hCall hSpec
      exact Or.inr ⟨hRoom, rfl, d, hd, hPath,
        Or.inr ⟨hHere, rfl⟩⟩

/- What a removal that returns did. -/
theorem hashRemove_cases
    {v : Option Addr}
    (hOk : t.Ok)
    (hCall : hashRemove fuel t key = some (v, t')) :
    (∃ i < t.slots, t.live i = some (key, v) ∧
        t' = t.delete i) ∨
      (∀ i < t.slots, ∀ v, t.live i ≠ some (key, v)) ∧
        v = none ∧ t' = t := by
  rcases hashRemove_spec hOk (Nat.le_refl _) key with
    ⟨i, hi, w, hLive, hSpec⟩ | ⟨hNone, hSpec⟩
  · cases hashRemove_unique hCall hSpec
    exact Or.inl ⟨i, hi, hLive, rfl⟩
  · cases hashRemove_unique hCall hSpec
    exact Or.inr ⟨hNone, rfl, rfl⟩

theorem hashPut_ok
    {ok : Bool}
    (hOk : t.Ok)
    (hCall : hashPut fuel t key value = some (ok, t')) :
    t'.Ok := by
  rcases hashPut_cases hOk hCall with
    ⟨_, _, rfl⟩ | ⟨hRoom, _, d, hd, hPath, hSpec⟩
  · exact hOk
  · rcases hSpec with ⟨hFree, rfl⟩ | ⟨⟨w, hLive⟩, rfl⟩
    · refine hOk.insert hd ?_ hFree (BitVec.lt_def.mp hRoom)
      intro e he
      rcases hPath e he with ⟨k, w, hLive, _⟩
      exact ⟨k, w, hLive⟩
    · exact hOk.replace hLive

theorem hashRemove_ok
    {v : Option Addr}
    (hOk : t.Ok)
    (hCall : hashRemove fuel t key = some (v, t')) :
    t'.Ok := by
  rcases hashRemove_cases hOk hCall with
    ⟨i, hi, hLive, rfl⟩ | ⟨_, _, rfl⟩
  · exact hOk.delete hi hLive
  · exact hOk

end Kept

--------------------
-- A New Table
--------------------

/-
  Every slot of a new table is free. Its block lies in the
  heap, so nothing wrapped in its sizes.
-/
theorem hashInit_spec
    {heap heap' : Heap}
    {initialCapacity : U64}
    {garbage : Nat → HashEntry}
    {t : HashTable}
    (hInit : hashInit heap initialCapacity garbage =
      some (t, heap')) :
    t.Ok ∧ (∀ i, t.live i = none) ∧
      t.capacity =
        if 0#64 < initialCapacity then
          initialCapacity
        else
          16#64 := by
  simp only [hashInit] at hInit
  generalize hCap :
    (if 0#64 < initialCapacity then initialCapacity
      else 16#64) = capacity at hInit ⊢
  have hPos : 0 < capacity.toNat := by
    rw [← hCap]
    split
    · assumption
    · decide
  cases hCall : kmalloc heap (sizeofHashEntry * capacity) with
  | mk block heap₁ =>
      rw [hCall] at hInit
      cases block with
      | none => cases hInit
      | some p =>
          simp only [Option.ite_none_left_eq_some,
            Option.some.injEq, Prod.mk.injEq, not_lt] at hInit
          rcases hInit with ⟨hBlock, rfl, rfl⟩
          have hCapacity : capacity.toNat * 75 < 2 ^ 64 := by
            have hInHeap :=
              @kmalloc_array _ _ _ _ _ 3 rfl hBlock hCall
            simp only [sizeofHashEntry, heapStart, heapSize,
              BitVec.toNat_ofNat, Nat.reduceMod, Nat.reducePow]
              at hInHeap
            omega
          have hLoad :
              (capacity * hashTableLoadFactor / 100#64).toNat =
                capacity.toNat * 75 / 100 := by
            rw [BitVec.toNat_udiv, BitVec.toNat_mul]
            simp only [hashTableLoadFactor, BitVec.toNat_ofNat,
              Nat.mod_eq_of_lt hCapacity]
          refine ⟨⟨⟨?_, ?_⟩, ?_, ?_⟩, fun i => rfl, rfl⟩
          · intro k
            unfold HashTable.home HashTable.slots
            rw [BitVec.toNat_umod]
            exact Nat.mod_lt _ hPos
          · intro k v d _ hLive
            cases hLive
          · exact (Finset.card_eq_zero.mpr
              (Finset.filter_eq_empty_iff.mpr
                fun i _ hSome => by cases hSome)).symm
          · simp only [hLoad, HashTable.slots]
            omega

--------------------
-- Every Run
--------------------

inductive HashCall
| put (key : U64) (value : Option Addr)
| get (key : U64)
| remove (key : U64)

/- A call that returns. -/
inductive HashStep :
    HashTable → HashCall → HashTable → Prop
| put
    {t t' : HashTable}
    {key : U64}
    {value : Option Addr}
    {fuel : Nat}
    {ok : Bool}
    (hCall : hashPut fuel t key value = some (ok, t')) :
    HashStep t (.put key value) t'
| get
    {t : HashTable}
    {key : U64}
    {fuel : Nat}
    {v : Option Addr}
    (hCall : hashGet fuel t key = some v) :
    HashStep t (.get key) t
| remove
    {t t' : HashTable}
    {key : U64}
    {fuel : Nat}
    {v : Option Addr}
    (hCall : hashRemove fuel t key = some (v, t')) :
    HashStep t (.remove key) t'

theorem hashStep_ok
    {t t' : HashTable}
    {call : HashCall}
    (hOk : t.Ok)
    (hStep : HashStep t call t') :
    t'.Ok := by
  cases hStep with
  | put hCall => exact hashPut_ok hOk hCall
  | get => exact hOk
  | remove hCall => exact hashRemove_ok hOk hCall

/-
  In a table that was used in any way: the size counts the
  live entries, the slots from the home slot of a key to its
  entry are occupied, every call returns, a search finds a
  live entry of its key if there is one, and an insertion is
  refused exactly at the maximal load.
-/
theorem hash_run_probes
    {heap heap' : Heap}
    {initialCapacity : U64}
    {garbage : Nat → HashEntry}
    {start t : HashTable}
    {calls : List HashCall}
    (hInit : hashInit heap initialCapacity garbage =
      some (start, heap'))
    (hRun : Run HashStep start calls t) :
    t.size.toNat = t.count ∧
      (∀ key value, ∀ d < t.slots,
        t.live (slot t.slots (t.home key) d) =
            some (key, value) →
          ∀ e ≤ d,
            (t.entries
              (slot t.slots (t.home key) e)).occupied = true) ∧
      (∀ fuel, t.slots ≤ fuel →
        (∀ key value, ∃ r, hashPut fuel t key value = some r) ∧
          (∀ key, ∃ v, hashGet fuel t key = some v) ∧
          (∀ key, ∃ r, hashRemove fuel t key = some r)) ∧
      (∀ fuel key v, hashGet fuel t key = some v →
        (∃ i < t.slots, t.live i = some (key, v)) ∨
          v = none ∧
            ∀ i < t.slots, ∀ w, t.live i ≠ some (key, w)) ∧
      (∀ fuel key value ok t',
        hashPut fuel t key value = some (ok, t') →
          (ok = false ↔ t.maxLoad ≤ t.size)) := by
  have hOk :=
    hRun.invariant HashTable.Ok
      (fun _ _ _ hOk hStep => hashStep_ok hOk hStep)
      (hashInit_spec hInit).1
  refine ⟨hOk.size_eq, hOk.chained.chain, ?_, ?_, ?_⟩
  · intro fuel hFuel
    refine ⟨fun key value => ?_, fun key => ?_, fun key => ?_⟩
    · rcases hashPut_spec value hOk hFuel key with
        ⟨_, hCall⟩ | ⟨_, d, _, _, ⟨_, hCall⟩ | ⟨_, hCall⟩⟩
      · exact ⟨_, hCall⟩
      · exact ⟨_, hCall⟩
      · exact ⟨_, hCall⟩
    · rcases hashGet_spec hOk hFuel key with
        ⟨_, _, v, _, hCall⟩ | ⟨_, hCall⟩
      · exact ⟨v, hCall⟩
      · exact ⟨none, hCall⟩
    · rcases hashRemove_spec hOk hFuel key with
        ⟨_, _, _, _, hCall⟩ | ⟨_, hCall⟩
      · exact ⟨_, hCall⟩
      · exact ⟨_, hCall⟩
  · intro fuel key v hCall
    rcases hashGet_spec hOk (Nat.le_refl _) key with
      ⟨i, hi, w, hLive, hSpec⟩ | ⟨hNone, hSpec⟩
    · cases hashGet_unique hCall hSpec
      exact Or.inl ⟨i, hi, hLive⟩
    · cases hashGet_unique hCall hSpec
      exact Or.inr ⟨rfl, hNone⟩
  · intro fuel key value ok t' hCall
    rcases hashPut_cases hOk hCall with
      ⟨hLoad, rfl, _⟩ | ⟨hRoom, rfl, _⟩
    · exact iff_of_true rfl hLoad
    · exact iff_of_false (by simp) (BitVec.not_le.mpr hRoom)

theorem hash_run_probes_three_calls :
    ∃ start heap' t,
      hashInit Heap.initial 4#64
            (fun _ => ⟨0#64, none, true, true⟩) =
          some (start, heap') ∧
        Run HashStep start
            [.put 1#64 (some 8#64), .put 5#64 (some 16#64),
              .remove 1#64] t ∧
        t.size.toNat = t.count := by
  have hRun :
      Run HashStep
        ⟨fun _ => ⟨0#64, none, false, false⟩, 4#64, 0#64, 3#64⟩
        [.put 1#64 (some 8#64), .put 5#64 (some 16#64),
          .remove 1#64] _ :=
    .cons (@HashStep.put _ _ _ _ 4 _ rfl)
      (.cons (@HashStep.put _ _ _ _ 4 _ rfl)
        (.cons (@HashStep.remove _ _ _ 4 _ rfl) (.nil _)))
  have hInit :
      hashInit Heap.initial 4#64
          (fun _ => ⟨0#64, none, true, true⟩) =
        some (_, (kmalloc Heap.initial 96#64).2) :=
    rfl
  exact ⟨_, _, _, hInit, hRun, (hash_run_probes hInit hRun).1⟩

end FeatherOS
