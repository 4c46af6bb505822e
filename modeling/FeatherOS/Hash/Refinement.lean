import FeatherOS.Hash.Probes

/-
  A hash table as a finite map.

  `hash_put` writes into the first slot without a live entry
  and does not look whether its key has an entry further on.
  A table is a map as long as no key is put again while a
  tombstone lies before its entry.

  Key definitions include:
    * `HashSys`
    * `HashSys.Refines`
    * `ReachesKey`

  Key theorems include:
    * `hash_run_refines`
    * `hash_put_not_refines`
-/

namespace FeatherOS

open Cyclic (slot)
open Probing (Distinct Represents map_update_some)

--------------------
-- The Map
--------------------

/- A table with the map its calls describe. -/
structure HashSys where
  table : HashTable
  map : U64 → Option Addr

/- The map after a `hash_put` that answers `ok`. -/
def HashSys.put
    (map : U64 → Option Addr)
    (key : U64)
    (value : Addr)
    (ok : Bool) :
    U64 → Option Addr :=
  if ok then
    Function.update map key (some value)
  else
    map

/- The map after a `hash_remove` that returns `v`. -/
def HashSys.remove
    (map : U64 → Option Addr)
    (key : U64)
    (v : Option Addr) :
    U64 → Option Addr :=
  if v = none then
    map
  else
    Function.update map key none

/-
  A successful `hash_put` binds its key, and a `hash_remove`
  that returns an entry takes the binding away.
-/
inductive HashSysStep :
    HashSys → HashCall → HashSys → Prop
| put
    {sys : HashSys}
    {t : HashTable}
    {key : U64}
    {value : Addr}
    {fuel : Nat}
    {ok : Bool}
    (hCall : hashPut fuel sys.table key (some value) =
      some (ok, t)) :
    HashSysStep sys (.put key (some value))
      ⟨t, HashSys.put sys.map key value ok⟩
| get
    {sys : HashSys}
    {key : U64}
    {fuel : Nat}
    {v : Option Addr}
    (hCall : hashGet fuel sys.table key = some v) :
    HashSysStep sys (.get key) sys
| remove
    {sys : HashSys}
    {t : HashTable}
    {key : U64}
    {fuel : Nat}
    {v : Option Addr}
    (hCall : hashRemove fuel sys.table key = some (v, t)) :
    HashSysStep sys (.remove key)
      ⟨t, HashSys.remove sys.map key v⟩

/- The calls answer as the map says. -/
structure HashSys.Refines (sys : HashSys) : Prop where
  get_eq : ∀ fuel key, sys.table.slots ≤ fuel →
    hashGet fuel sys.table key = some (sys.map key)
  remove_eq : ∀ fuel key, sys.table.slots ≤ fuel →
    ∃ t, hashRemove fuel sys.table key =
        some (sys.map key, t) ∧
      hashGet fuel t key = some none
  size_eq : ∃ keys : Finset U64,
    (∀ key, key ∈ keys ↔ sys.map key ≠ none) ∧
      sys.table.size.toNat = keys.card

/-
  A call of `hash_put` that is not refused and whose key has
  an entry meets no tombstone before it.
-/
def ReachesKey
    (sys : HashSys) :
    HashCall → Prop
  | .put key _ =>
      sys.table.size < sys.table.maxLoad →
        ∀ d < sys.table.slots, ∀ e < d, ∀ w,
          sys.table.live
              (slot sys.table.slots (sys.table.home key) d) =
            some (key, w) →
          (sys.table.entries
            (slot sys.table.slots (sys.table.home key)
              e)).deleted = false
  | .get _ => True
  | .remove _ => True

--------------------
-- The Invariant
--------------------

namespace HashSys

structure Inv (sys : HashSys) : Prop where
  ok : sys.table.Ok
  distinct : Distinct sys.table.slots sys.table.live
  represents : Represents sys.table.slots sys.table.live
    fun key => (sys.map key).map some

end HashSys

section Steps

variable {sys sys' : HashSys}
variable {t : HashTable}
variable {key : U64}
variable {value : Addr}
variable {v : Option Addr}
variable {fuel : Nat}
variable {i : Nat}

namespace HashSys.Inv

theorem get_eq
    (hInv : sys.Inv)
    (hFuel : sys.table.slots ≤ fuel)
    (key : U64) :
    hashGet fuel sys.table key = some (sys.map key) := by
  rcases hashGet_spec hInv.ok hFuel key with
    ⟨i, hi, w, hLive, hSpec⟩ | ⟨hNone, hSpec⟩
  · rw [hSpec, (hInv.represents.pointer_eq hi hLive).1]
  · rw [hSpec, hInv.represents.pointer_none hNone]

/- A removal takes the entry of its key away. -/
theorem remove
    (hInv : sys.Inv)
    (hCall : hashRemove fuel sys.table key = some (v, t)) :
    v = sys.map key ∧
      HashSys.Inv ⟨t, Function.update sys.map key none⟩ := by
  have hOk := hashRemove_ok hInv.ok hCall
  rcases hashRemove_cases hInv.ok hCall with
    ⟨i, hi, hLive, rfl⟩ | ⟨hNone, rfl, rfl⟩
  · refine ⟨(hInv.represents.pointer_eq hi hLive).1.symm, hOk, ?_, ?_⟩
    · rw [live_delete]
      exact hInv.distinct.erase
    · rw [live_delete, map_update_some]
      exact hInv.represents.erase hi hLive hInv.distinct
  · have hMap := hInv.represents.pointer_none hNone
    refine ⟨hMap.symm, hOk, hInv.distinct, ?_⟩
    have hSame : Function.update sys.map key none = sys.map := by
      rw [← hMap, Function.update_eq_self]
    rw [hSame]
    exact hInv.represents

/- The slots behind an insertion have no entry of its key. -/
theorem fresh
    {d : Nat}
    (hInv : sys.Inv)
    (hd : d < sys.table.slots)
    (hPath : ∀ e < d, ∃ k w,
      sys.table.live
          (slot sys.table.slots (sys.table.home key) e) =
        some (k, w) ∧ k ≠ key)
    (hReach : ∀ d' < sys.table.slots, d < d' → ∀ w,
      sys.table.live
          (slot sys.table.slots (sys.table.home key) d') ≠
        some (key, w)) :
    ∀ j < sys.table.slots,
      j ≠ slot sys.table.slots (sys.table.home key) d →
        ∀ w, sys.table.live j ≠ some (key, w) := by
  intro j hj hNe w hLive
  rcases Cyclic.exists_slot (hInv.ok.chained.home_lt key) hj with
    ⟨d', hd', rfl⟩
  rcases Nat.lt_trichotomy d' d with hLt | rfl | hGt
  · rcases hPath d' hLt with ⟨k, w', hOther, hKey⟩
    rw [hLive] at hOther
    cases hOther
    exact hKey rfl
  · exact hNe rfl
  · exact hReach d' hd' hGt w hLive

/- A put that reaches the entry of its key changes it. -/
theorem put
    {ok : Bool}
    (hInv : sys.Inv)
    (hReach : ReachesKey sys (.put key (some value)))
    (hCall : hashPut fuel sys.table key (some value) =
      some (ok, t)) :
    HashSys.Inv
      ⟨t, HashSys.put sys.map key value ok⟩ := by
  have hOk := hashPut_ok hInv.ok hCall
  have hPos : 0 < sys.table.slots :=
    Nat.zero_lt_of_lt (hInv.ok.chained.home_lt key)
  rcases hashPut_cases hInv.ok hCall with
    ⟨_, rfl, rfl⟩ | ⟨hRoom, rfl, d, hd, hPath, hSpec⟩
  · exact ⟨hOk, hInv.distinct, hInv.represents⟩
  · unfold HashSys.put
    rw [if_pos rfl]
    rcases hSpec with ⟨hFree, rfl⟩ | ⟨⟨w, hLive⟩, rfl⟩
    · have hFresh := hInv.fresh hd hPath (by
        intro d' hd' hLt w hLive
        have hDeleted := hReach hRoom d' hd' d hLt w hLive
        have hUsed := hInv.ok.chained.chain key w d' hd' hLive d
          (Nat.le_of_lt hLt)
        unfold HashTable.used at hUsed
        simp [HashTable.live, hUsed, hDeleted] at hFree)
      refine ⟨hOk, ?_, ?_⟩
      · rw [live_insert]
        exact hInv.distinct.put hFresh
      · rw [live_insert, map_update_some]
        refine hInv.represents.put (Cyclic.slot_lt hPos) ?_
          hFresh
        intro k w hLive
        rw [hFree] at hLive
        cases hLive
    · have hFresh : ∀ j < sys.table.slots,
          j ≠ slot sys.table.slots (sys.table.home key) d →
            ∀ w, sys.table.live j ≠ some (key, w) := by
        intro j hj hNe w' hOther
        exact hNe (hInv.distinct j hj _ (Cyclic.slot_lt hPos)
          key w' w hOther hLive)
      refine ⟨hOk, ?_, ?_⟩
      · rw [live_replace hLive]
        exact hInv.distinct.put hFresh
      · rw [live_replace hLive, map_update_some]
        refine hInv.represents.put (Cyclic.slot_lt hPos) ?_
          hFresh
        intro k w' hHere
        rw [hLive] at hHere
        cases hHere
        rfl

/- The keys of the map are as many as the table counts. -/
theorem exists_keys
    (hInv : sys.Inv) :
    ∃ keys : Finset U64,
      (∀ key, key ∈ keys ↔ sys.map key ≠ none) ∧
        sys.table.size.toNat = keys.card := by
  rcases hInv.represents.pointer_keys hInv.distinct with
    ⟨keys, hKeys, hCard⟩
  exact ⟨keys, hKeys, hInv.ok.size_eq.trans hCard.symm⟩

theorem refines
    (hInv : sys.Inv) :
    sys.Refines where
  get_eq _ key hFuel := hInv.get_eq hFuel key
  remove_eq fuel key hFuel := by
    have hReturns : ∃ v t,
        hashRemove fuel sys.table key = some (v, t) ∧
          t.slots = sys.table.slots := by
      rcases hashRemove_spec hInv.ok hFuel key with
        ⟨_, _, _, _, hSpec⟩ | ⟨_, hSpec⟩
      · exact ⟨_, _, hSpec, rfl⟩
      · exact ⟨_, _, hSpec, rfl⟩
    rcases hReturns with ⟨v, t, hCall, hSlots⟩
    rcases hInv.remove hCall with ⟨rfl, hNext⟩
    refine ⟨t, hCall, ?_⟩
    have hGet := hNext.get_eq (hSlots ▸ hFuel) key
    simpa only [Function.update_self] using hGet
  size_eq := hInv.exists_keys

/-
  A put that stops at a tombstone before the entry of its
  key makes a second entry, and the table counts one key
  twice.
-/
theorem not_refines
    {ok : Bool}
    (hInv : sys.Inv)
    (hShort : ¬ ReachesKey sys (.put key (some value)))
    (hCall : hashPut fuel sys.table key (some value) =
      some (ok, t)) :
    ¬ HashSys.Refines
      ⟨t, HashSys.put sys.map key value ok⟩ := by
  intro hRefines
  simp only [ReachesKey, not_forall, Bool.not_eq_false]
    at hShort
  rcases hShort with
    ⟨hRoom, d, hd, e, he, w, hLive, hDeleted⟩
  have hPos : 0 < sys.table.slots := Nat.zero_lt_of_lt hd
  have hBound :=
    hInv.represents.pointer_eq (Cyclic.slot_lt hPos) hLive
  rcases hashPut_cases hInv.ok hCall with
    ⟨hLoad, _⟩ | ⟨_, rfl, d', hd', hPath, hSpec⟩
  · exact absurd hRoom (BitVec.not_lt.mpr hLoad)
  · have hStop : d' ≤ e := by
      by_contra hLt
      rcases hPath e (by omega) with ⟨k, w', hOther, _⟩
      rw [(live_eq_some.mp hOther).2.1] at hDeleted
      cases hDeleted
    rcases hSpec with ⟨_, rfl⟩ | ⟨⟨w', hHere⟩, _⟩
    · rcases hRefines.size_eq with ⟨keys', hKeys', hCard'⟩
      rcases hInv.exists_keys with ⟨keys, hKeys, hCard⟩
      have hSame : keys' = keys := by
        ext k
        rw [hKeys', hKeys]
        unfold HashSys.put
        rw [if_pos rfl]
        by_cases hk : k = key
        · subst hk
          simp [hBound.1, hBound.2]
        · simp [Function.update_of_ne hk]
      have hMax := sys.table.maxLoad.isLt
      rw [BitVec.lt_def] at hRoom
      simp only [HashTable.insert, BitVec.toNat_add,
        BitVec.toNat_ofNat, hSame, ← hCard] at hCard'
      omega
    · have hTwice :=
        hInv.distinct _ (Cyclic.slot_lt hPos) _
          (Cyclic.slot_lt hPos) key w' w hHere hLive
      have hSlot := Cyclic.slot_inj hd' hd hTwice
      omega

end HashSys.Inv

theorem hashSysStep_inv
    {call : HashCall}
    (hInv : sys.Inv)
    (hStep : Guarded ReachesKey HashSysStep sys call sys') :
    sys'.Inv := by
  rcases hStep with ⟨hReach, hStep⟩
  cases hStep with
  | put hCall => exact hInv.put hReach hCall
  | get => exact hInv
  | @remove t key fuel v hCall =>
      rcases hInv.remove hCall with ⟨hValue, hNext⟩
      unfold HashSys.remove
      by_cases hNone : v = none
      · rw [if_pos hNone]
        rw [hNone] at hValue
        rwa [hValue, Function.update_eq_self] at hNext
      · rwa [if_neg hNone]

end Steps

--------------------
-- Every Run
--------------------

/-
  In a run whose insertions reach the entry of their key,
  the table is a map; the first one that does not reach it
  puts an end to that.
-/
theorem hash_run_refines
    {heap heap' : Heap}
    {initialCapacity : U64}
    {garbage : Nat → HashEntry}
    {start : HashTable}
    {calls : List HashCall}
    {sys : HashSys}
    (hInit : hashInit heap initialCapacity garbage =
      some (start, heap'))
    (hRun : Run (Guarded ReachesKey HashSysStep)
      ⟨start, fun _ => none⟩ calls sys) :
    sys.Refines ∧
      ∀ fuel key value ok t,
        hashPut fuel sys.table key (some value) =
            some (ok, t) →
          ¬ ReachesKey sys (.put key (some value)) →
          ¬ HashSys.Refines
            ⟨t, HashSys.put sys.map key value ok⟩ := by
  rcases hashInit_spec hInit with ⟨hOk, hEmpty, _⟩
  have hStart : HashSys.Inv ⟨start, fun _ => none⟩ := by
    refine ⟨hOk, ?_, ?_⟩
    · intro i _ j _ k v w hLive
      rw [hEmpty] at hLive
      cases hLive
    · intro k v
      simp [hEmpty]
  have hInv :=
    hRun.invariant HashSys.Inv
      (fun _ _ _ hInv hStep => hashSysStep_inv hInv hStep)
      hStart
  refine ⟨hInv.refines, ?_⟩
  intro fuel key value ok t hCall hShort
  exact hInv.not_refines hShort hCall

/- A key without an entry is reached. -/
theorem reachesKey_of_absent
    {sys : HashSys}
    {key : U64}
    (hAbsent : ∀ d < sys.table.slots,
      (sys.table.live
        (slot sys.table.slots (sys.table.home key) d)).map
          Prod.fst ≠ some key)
    (value : Option Addr) :
    ReachesKey sys (.put key value) := by
  intro _ d hd _ _ _ hLive
  have hKey := hAbsent d hd
  rw [hLive] at hKey
  exact absurd rfl hKey

/-
  Two keys whose home is the last of four slots: the first is
  removed, the second is found, and a third one is put.
-/
theorem hash_run_refines_collision :
    ∃ sys,
      Run (Guarded ReachesKey HashSysStep)
          ⟨⟨fun _ => ⟨0#64, none, false, false⟩, 4#64, 0#64,
            3#64⟩, fun _ => none⟩
          [.put 1#64 (some 8#64), .put 7#64 (some 16#64),
            .remove 1#64, .get 7#64, .put 2#64 (some 24#64)]
          sys ∧
        sys.Refines := by
  have hInit :
      hashInit Heap.initial 4#64
          (fun _ => ⟨0#64, none, true, true⟩) =
        some
          (⟨fun _ => ⟨0#64, none, false, false⟩, 4#64, 0#64,
            3#64⟩, (kmalloc Heap.initial 96#64).2) :=
    rfl
  have hRun :
      Run (Guarded ReachesKey HashSysStep)
        ⟨⟨fun _ => ⟨0#64, none, false, false⟩, 4#64, 0#64,
          3#64⟩, fun _ => none⟩
        [.put 1#64 (some 8#64), .put 7#64 (some 16#64),
          .remove 1#64, .get 7#64, .put 2#64 (some 24#64)] _ :=
    .cons ⟨reachesKey_of_absent (by decide) _,
        @HashSysStep.put _ _ _ _ 4 _ rfl⟩
      (.cons ⟨reachesKey_of_absent (by decide) _,
          @HashSysStep.put _ _ _ _ 4 _ rfl⟩
        (.cons ⟨trivial, @HashSysStep.remove _ _ _ 4 _ rfl⟩
          (.cons ⟨trivial, @HashSysStep.get _ _ 4 _ rfl⟩
            (.cons ⟨reachesKey_of_absent (by decide) _,
                @HashSysStep.put _ _ _ _ 4 _ rfl⟩
              (.nil _)))))
  exact ⟨_, hRun, (hash_run_refines hInit hRun).1⟩

/-
  Two keys whose home is the last of four slots: the first
  is removed and the second put again.
-/
theorem hash_put_not_refines :
    ¬ ∀ heap initialCapacity garbage start heap' calls sys,
      hashInit heap initialCapacity garbage =
          some (start, heap') →
        Run HashSysStep ⟨start, fun _ => none⟩ calls sys →
        sys.Refines := by
  intro hAll
  have hInit :
      hashInit Heap.initial 4#64
          (fun _ => ⟨0#64, none, true, true⟩) =
        some
          (⟨fun _ => ⟨0#64, none, false, false⟩, 4#64, 0#64,
            3#64⟩, (kmalloc Heap.initial 96#64).2) :=
    rfl
  have hRun :
      Run HashSysStep
        ⟨⟨fun _ => ⟨0#64, none, false, false⟩, 4#64, 0#64,
          3#64⟩, fun _ => none⟩
        [.put 1#64 (some 8#64), .put 7#64 (some 16#64),
          .remove 1#64, .put 7#64 (some 24#64),
          .remove 7#64] _ :=
    .cons (@HashSysStep.put _ _ _ _ 4 _ rfl)
      (.cons (@HashSysStep.put _ _ _ _ 4 _ rfl)
        (.cons (@HashSysStep.remove _ _ _ 4 _ rfl)
          (.cons (@HashSysStep.put _ _ _ _ 4 _ rfl)
            (.cons (@HashSysStep.remove _ _ _ 4 _ rfl)
              (.nil _)))))
  have hGet :=
    (hAll _ _ _ _ _ _ _ hInit hRun).get_eq 4 7#64
      (Nat.le_refl _)
  have hOld : some (some 16#64) = some none := hGet
  cases hOld

end FeatherOS
