import FeatherOS.Hash.Strings
import FeatherOS.Library.Run

/-
  A string hash table as a finite map.

  A removal empties the slot of its key, and a search stops
  at an empty slot. A table is a map as long as no key is
  removed whose slot lies between the home slot of another
  stored key and its entry.

  Key definitions include:
    * `StrHashTable.Ok`
    * `StrHashSys`
    * `StrHashSys.Refines`
    * `KeepsChains`

  Key theorems include:
    * `str_hash_run_refines`
    * `str_hash_remove_not_refines`
-/

namespace FeatherOS

open Cyclic (slot)
open Probing (Chained Distinct Represents filled map_update_some)

--------------------
-- Entries
--------------------

namespace StrHashTable

def live
    (t : StrHashTable)
    (i : Nat) :
    Option (CString × Option Addr) :=
  (t.keys i).map fun key => (key, t.values i)

def used
    (t : StrHashTable)
    (i : Nat) : Bool :=
  (t.keys i).isSome

def count (t : StrHashTable) : Nat :=
  (filled t.slots t.live).card

structure Ok (t : StrHashTable) : Prop where
  chained : Chained t.slots t.home t.used t.live
  distinct : Distinct t.slots t.live
  size_eq : t.size.toNat = t.count

end StrHashTable

variable {old : Option Addr}

section Entries

variable {t : StrHashTable}
variable {key : CString}
variable {value : Option Addr}
variable {i : Nat}

theorem strLive_eq_some
    {entry : CString × Option Addr} :
    t.live i = some entry ↔
      t.keys i = some entry.1 ∧ t.values i = entry.2 := by
  unfold StrHashTable.live
  rcases entry with ⟨key, value⟩
  cases t.keys i <;> simp

theorem strLive_eq_none :
    t.live i = none ↔ t.keys i = none :=
  Option.map_eq_none_iff

theorem strUsed_eq_false :
    t.used i = false ↔ t.keys i = none := by
  unfold StrHashTable.used
  rw [Option.isSome_eq_false_iff, Option.isNone_iff_eq_none]

theorem strLive_insert :
    (t.insert i key value).live =
      Function.update t.live i (some (key, value)) := by
  funext j
  by_cases hji : j = i
  · subst hji
    simp [StrHashTable.live, StrHashTable.insert]
  · simp [StrHashTable.live, StrHashTable.insert,
      Function.update_of_ne hji]

theorem strLive_replace
    (hLive : t.live i = some (key, old)) :
    (t.replace i value).live =
      Function.update t.live i (some (key, value)) := by
  have hKey := (strLive_eq_some.mp hLive).1
  funext j
  by_cases hji : j = i
  · subst hji
    simp [StrHashTable.live, StrHashTable.replace, hKey]
  · simp [StrHashTable.live, StrHashTable.replace,
      Function.update_of_ne hji]

theorem strLive_delete :
    (t.delete i).live = Function.update t.live i none := by
  funext j
  by_cases hji : j = i
  · subst hji
    simp [StrHashTable.live, StrHashTable.delete]
  · simp [StrHashTable.live, StrHashTable.delete,
      Function.update_of_ne hji]

theorem strUsed_insert :
    (t.insert i key value).used =
      Function.update t.used i true := by
  funext j
  by_cases hji : j = i
  · subst hji
    simp [StrHashTable.used, StrHashTable.insert]
  · simp [StrHashTable.used, StrHashTable.insert,
      Function.update_of_ne hji]

theorem strUsed_delete :
    (t.delete i).used = Function.update t.used i false := by
  funext j
  by_cases hji : j = i
  · subst hji
    simp [StrHashTable.used, StrHashTable.delete]
  · simp [StrHashTable.used, StrHashTable.delete,
      Function.update_of_ne hji]

end Entries

--------------------
-- Bodies
--------------------

theorem strHashPutAt_eq
    (t : StrHashTable)
    (key : CString)
    (value : Option Addr) :
    strHashPutAt t key value =
      Probing.place t.live key
        (fun i => (true, t.insert i key value))
        (fun i => (true, t.replace i value)) := by
  funext i
  unfold strHashPutAt Probing.place StrHashTable.live
  cases t.keys i with
  | none => rfl
  | some stored => simp [strcmp_cstring]

theorem strHashGetAt_eq
    (t : StrHashTable)
    (key : CString) :
    strHashGetAt t key =
      Probing.search t.used t.live key t.values none := by
  funext i
  unfold strHashGetAt Probing.search StrHashTable.live
    StrHashTable.used
  cases t.keys i with
  | none => rfl
  | some stored => simp [strcmp_cstring]

theorem strHashRemoveAt_eq
    (t : StrHashTable)
    (key : CString) :
    strHashRemoveAt t key =
      Probing.search t.used t.live key
        (fun i => (t.values i, t.delete i)) (none, t) := by
  funext i
  unfold strHashRemoveAt Probing.search StrHashTable.live
    StrHashTable.used
  cases t.keys i with
  | none => rfl
  | some stored => simp [strcmp_cstring]

--------------------
-- What One Call Does
--------------------

section Calls

variable {t t' : StrHashTable}
variable {key : CString}
variable {value : Option Addr}
variable {fuel : Nat}

/-
  An insertion takes the first slot that is empty or has the
  key, or finds the table full of other keys.
-/
theorem strHashPut_spec
    (value : Option Addr)
    (hOk : t.Ok)
    (hFuel : t.slots ≤ fuel)
    (key : CString) :
    (∃ d < t.slots,
        (∀ e < d, ∃ k w,
          t.live (slot t.slots (t.home key) e) =
              some (k, w) ∧ k ≠ key) ∧
          (t.live (slot t.slots (t.home key) d) = none ∧
              strHashPut fuel t key value =
                some (true,
                  t.insert (slot t.slots (t.home key) d) key
                    value) ∨
            (∃ w, t.live (slot t.slots (t.home key) d) =
                some (key, w)) ∧
              strHashPut fuel t key value =
                some (true,
                  t.replace (slot t.slots (t.home key) d)
                    value))) ∨
      (∀ i < t.slots, ∃ k w,
          t.live i = some (k, w) ∧ k ≠ key) ∧
        strHashPut fuel t key value = some (false, t) := by
  unfold strHashPut
  rw [strHashPutAt_eq]
  exact Probing.place_spec t.live _ _ (false, t)
    (hOk.chained.home_lt key) hFuel

theorem strHashGet_spec
    (hOk : t.Ok)
    (hFuel : t.slots ≤ fuel)
    (key : CString) :
    (∃ i < t.slots, ∃ v, t.live i = some (key, v) ∧
        strHashGet fuel t key = some v) ∨
      (∀ i < t.slots, ∀ v, t.live i ≠ some (key, v)) ∧
        strHashGet fuel t key = some none := by
  unfold strHashGet
  rw [strHashGetAt_eq]
  refine Probing.search_answer key (fun _ v => v) none ?_
    hOk.chained hFuel
  intro i v hLive
  exact (strLive_eq_some.mp hLive).2

theorem strHashRemove_spec
    (hOk : t.Ok)
    (hFuel : t.slots ≤ fuel)
    (key : CString) :
    (∃ i < t.slots, ∃ v, t.live i = some (key, v) ∧
        strHashRemove fuel t key = some (v, t.delete i)) ∨
      (∀ i < t.slots, ∀ v, t.live i ≠ some (key, v)) ∧
        strHashRemove fuel t key = some (none, t) := by
  unfold strHashRemove
  rw [strHashRemoveAt_eq]
  refine Probing.search_answer key (fun i v => (v, t.delete i))
    (none, t) ?_ hOk.chained hFuel
  intro i v hLive
  rw [(strLive_eq_some.mp hLive).2]

end Calls

--------------------
-- The Invariant Is Kept
--------------------

namespace StrHashTable.Ok

variable {t : StrHashTable}
variable {key : CString}
variable {value : Option Addr}
variable {d : Nat}
variable {i : Nat}

/- No other slot has the key of an insertion. -/
theorem fresh
    (hOk : t.Ok)
    (hPath : ∀ e < d, ∃ k w,
      t.live (slot t.slots (t.home key) e) = some (k, w) ∧
        k ≠ key)
    (hFree : t.live (slot t.slots (t.home key) d) = none) :
    ∀ j < t.slots, ∀ w, t.live j ≠ some (key, w) := by
  intro j hj w hLive
  rcases Cyclic.exists_slot (hOk.chained.home_lt key) hj with
    ⟨d', hd', rfl⟩
  rcases Nat.lt_or_ge d' d with hLt | hGe
  · rcases hPath d' hLt with ⟨k, w', hOther, hKey⟩
    rw [hLive] at hOther
    cases hOther
    exact hKey rfl
  · have hUsed := hOk.chained.chain key w d' hd' hLive d hGe
    rw [strUsed_eq_false.mpr (strLive_eq_none.mp hFree)] at hUsed
    cases hUsed

theorem insert
    (hOk : t.Ok)
    (hd : d < t.slots)
    (hPath : ∀ e < d, ∃ k w,
      t.live (slot t.slots (t.home key) e) = some (k, w) ∧
        k ≠ key)
    (hFree : t.live (slot t.slots (t.home key) d) = none) :
    (t.insert (slot t.slots (t.home key) d) key value).Ok where
  chained := by
    have hPos : 0 < t.slots := Nat.zero_lt_of_lt hd
    rw [strLive_insert, strUsed_insert]
    refine hOk.chained.insert hd ?_ ?_ (Function.update_self ..)
    · intro e he
      rcases hPath e he with ⟨k, w, hLive, _⟩
      exact hOk.chained.used_of_live (Cyclic.slot_lt hPos) hLive
    · intro j hUsed
      by_cases hj : j = slot t.slots (t.home key) d
      · rw [hj, Function.update_self]
      · rwa [Function.update_of_ne hj]
  distinct := by
    rw [strLive_insert]
    exact hOk.distinct.put
      fun j hj _ => hOk.fresh hPath hFree j hj
  size_eq := by
    have hPos : 0 < t.slots := Nat.zero_lt_of_lt hd
    have hCard :=
      @Probing.card_filled_insert _ _ t.slots t.live
        (slot t.slots (t.home key) d) (key, value)
        (Cyclic.slot_lt hPos) hFree
    have hRoom :=
      @Probing.card_filled_le _ _ t.slots
        (Function.update t.live (slot t.slots (t.home key) d)
          (some (key, value)))
    have hMax : t.slots < 2 ^ 64 := t.capacity.isLt
    have hEq := hOk.size_eq
    unfold StrHashTable.count at hEq ⊢
    rw [strLive_insert]
    refine Eq.trans ?_ hCard.symm
    rw [← hEq] at hCard ⊢
    exact Words.toNat_succ (by omega)

theorem replace
    (hOk : t.Ok)
    (hi : i < t.slots)
    (hLive : t.live i = some (key, old)) :
    (t.replace i value).Ok where
  chained := by
    refine hOk.chained.mono (fun _ hUsed => hUsed) ?_
    intro j _ k v hNew
    rw [strLive_replace hLive] at hNew
    by_cases hji : j = i
    · rw [hji, Function.update_self] at hNew
      cases hNew
      exact ⟨old, hji ▸ hLive⟩
    · rw [Function.update_of_ne hji] at hNew
      exact ⟨v, hNew⟩
  distinct := by
    rw [strLive_replace hLive]
    refine hOk.distinct.put ?_
    intro j hj hNe w hOther
    exact hNe (hOk.distinct j hj i hi key w old hOther hLive)
  size_eq := by
    have hEq := hOk.size_eq
    unfold StrHashTable.count at hEq ⊢
    rw [strLive_replace hLive]
    exact hEq.trans (Probing.card_filled_replace hLive).symm

theorem delete
    (hOk : t.Ok)
    (hi : i < t.slots)
    (hLive : t.live i = some (key, value))
    (hApart : ∀ k v, ∀ d < t.slots,
      t.live (slot t.slots (t.home k) d) = some (k, v) →
        slot t.slots (t.home k) d ≠ i →
        ∀ e ≤ d, slot t.slots (t.home k) e ≠ i) :
    (t.delete i).Ok where
  chained := by
    rw [strLive_delete, strUsed_delete]
    exact hOk.chained.erase hApart
  distinct := by
    rw [strLive_delete]
    exact hOk.distinct.erase
  size_eq := by
    have hCard := Probing.card_filled_erase hi hLive
    have hEq := hOk.size_eq
    unfold StrHashTable.count at hEq ⊢
    rw [strLive_delete]
    have hSize : (t.size - 1#64).toNat = t.size.toNat - 1 := by
      refine Words.toNat_pred ?_
      rw [hEq, ← hCard]
      exact Nat.succ_pos _
    refine hSize.trans ?_
    rw [hEq, ← hCard]
    rfl

end StrHashTable.Ok

/-
  Every slot of a new table is empty. Its blocks lie in the
  heap, so nothing wrapped in their sizes.
-/
theorem strHashInit_spec
    {heap heap' : Heap}
    {initialCapacity : U64}
    {garbage : Nat → Option Addr}
    {t : StrHashTable}
    (hInit : strHashInit heap initialCapacity garbage =
      some (t, heap')) :
    t.Ok ∧ ∀ i, t.keys i = none := by
  simp only [strHashInit] at hInit
  generalize hCap :
    (if 0#64 < initialCapacity then initialCapacity
      else 16#64) = capacity at hInit
  have hPos : 0 < capacity.toNat := by
    rw [← hCap]
    split
    · assumption
    · decide
  split at hInit
  · simp only [Option.ite_none_left_eq_some,
      Option.some.injEq, Prod.mk.injEq] at hInit
    rcases hInit with ⟨_, rfl, _⟩
    refine ⟨⟨⟨?_, ?_⟩, ?_, ?_⟩, fun i => rfl⟩
    · intro k
      unfold StrHashTable.home StrHashTable.slots
        strHashFunction
      rw [BitVec.toNat_umod]
      exact Nat.mod_lt _ hPos
    · intro k v d _ hLive
      cases hLive
    · intro i _ j _ k v w hLive
      cases hLive
    · exact (Finset.card_eq_zero.mpr
        (Finset.filter_eq_empty_iff.mpr
          fun i _ hSome => by cases hSome)).symm
  · cases hInit

--------------------
-- The Map
--------------------

/- A table with the map its calls describe. -/
structure StrHashSys where
  table : StrHashTable
  map : CString → Option Addr

inductive StrHashCall
| put (key : CString) (value : Addr)
| get (key : CString)
| remove (key : CString)

namespace StrHashSys

/- The map after a `str_hash_put` that answers `ok`. -/
def put
    (map : CString → Option Addr)
    (key : CString)
    (value : Addr)
    (ok : Bool) :
    CString → Option Addr :=
  if ok then
    Function.update map key (some value)
  else
    map

/- A call that returns. -/
inductive Step :
    StrHashSys → StrHashCall → StrHashSys → Prop
| put
    {sys : StrHashSys}
    {t : StrHashTable}
    {key : CString}
    {value : Addr}
    {fuel : Nat}
    {ok : Bool}
    (hCall : strHashPut fuel sys.table key (some value) =
      some (ok, t)) :
    Step sys (.put key value)
      ⟨t, StrHashSys.put sys.map key value ok⟩
| get
    {sys : StrHashSys}
    {key : CString}
    {fuel : Nat}
    {v : Option Addr}
    (hCall : strHashGet fuel sys.table key = some v) :
    Step sys (.get key) sys
| remove
    {sys : StrHashSys}
    {t : StrHashTable}
    {key : CString}
    {fuel : Nat}
    {v : Option Addr}
    (hCall : strHashRemove fuel sys.table key = some (v, t)) :
    Step sys (.remove key)
      ⟨t, Function.update sys.map key none⟩

/- The calls answer as the map says. -/
structure Refines (sys : StrHashSys) : Prop where
  get_eq : ∀ fuel key, sys.table.slots ≤ fuel →
    strHashGet fuel sys.table key = some (sys.map key)
  put_eq : ∀ fuel key value, sys.table.slots ≤ fuel →
    ∃ ok t, strHashPut fuel sys.table key (some value) =
        some (ok, t) ∧
      (ok = false ↔
        sys.map key = none ∧
          ∀ i < sys.table.slots, sys.table.keys i ≠ none)
  remove_eq : ∀ fuel key, sys.table.slots ≤ fuel →
    ∃ t, strHashRemove fuel sys.table key =
      some (sys.map key, t)
  size_eq : ∃ keys : Finset CString,
    (∀ key, key ∈ keys ↔ sys.map key ≠ none) ∧
      sys.table.size.toNat = keys.card

structure Inv (sys : StrHashSys) : Prop where
  ok : sys.table.Ok
  represents : Represents sys.table.slots sys.table.live
    fun key => (sys.map key).map some

end StrHashSys

/-
  No other stored key is looked for across the slot of a key
  that is removed.
-/
def KeepsChains
    (sys : StrHashSys) :
    StrHashCall → Prop
  | .remove key =>
      ∀ d < sys.table.slots, ∀ other, other ≠ key →
        sys.table.keys
            (slot sys.table.slots (sys.table.home other) d) =
          some other →
        ∀ e ≤ d,
          sys.table.keys
              (slot sys.table.slots (sys.table.home other) e) ≠
            some key
  | .put _ _ => True
  | .get _ => True

--------------------
-- Steps
--------------------

section Steps

variable {sys sys' : StrHashSys}
variable {t : StrHashTable}
variable {key : CString}
variable {value : Addr}
variable {v : Option Addr}
variable {fuel : Nat}
variable {i : Nat}

namespace StrHashSys.Inv

theorem get_eq
    (hInv : sys.Inv)
    (hFuel : sys.table.slots ≤ fuel)
    (key : CString) :
    strHashGet fuel sys.table key = some (sys.map key) := by
  rcases strHashGet_spec hInv.ok hFuel key with
    ⟨i, hi, w, hLive, hSpec⟩ | ⟨hNone, hSpec⟩
  · rw [hSpec, (hInv.represents.pointer_eq hi hLive).1]
  · rw [hSpec, hInv.represents.pointer_none hNone]

/- A put binds its key unless the table is full. -/
theorem put
    {ok : Bool}
    (hInv : sys.Inv)
    (hCall : strHashPut fuel sys.table key (some value) =
      some (ok, t)) :
    StrHashSys.Inv
        ⟨t, StrHashSys.put sys.map key value ok⟩ ∧
      (ok = false ↔
        sys.map key = none ∧
          ∀ i < sys.table.slots, sys.table.keys i ≠ none) := by
  have hPos : 0 < sys.table.slots :=
    Nat.zero_lt_of_lt (hInv.ok.chained.home_lt key)
  rcases strHashPut_spec (some value) hInv.ok (Nat.le_refl _)
      key with
    ⟨d, hd, hPath, ⟨hFree, hSpec⟩ | ⟨⟨w, hLive⟩, hSpec⟩⟩ |
      ⟨hFull, hSpec⟩
  · cases Probing.loop_unique hCall hSpec
    have hFresh := hInv.ok.fresh hPath hFree
    refine ⟨⟨hInv.ok.insert hd hPath hFree, ?_⟩, ?_⟩
    · rw [strLive_insert]
      simp only [StrHashSys.put, if_true]
      rw [map_update_some]
      refine hInv.represents.put (Cyclic.slot_lt hPos) ?_
        fun j hj _ => hFresh j hj
      intro k w hLive
      rw [hFree] at hLive
      cases hLive
    · refine iff_of_false (by simp) ?_
      rintro ⟨_, hFull⟩
      exact hFull _ (Cyclic.slot_lt hPos)
        (strLive_eq_none.mp hFree)
  · cases Probing.loop_unique hCall hSpec
    have hBound := hInv.represents.pointer_eq (Cyclic.slot_lt hPos) hLive
    refine ⟨⟨hInv.ok.replace (Cyclic.slot_lt hPos) hLive, ?_⟩,
      ?_⟩
    · rw [strLive_replace hLive]
      simp only [StrHashSys.put, if_true]
      rw [map_update_some]
      refine hInv.represents.put (Cyclic.slot_lt hPos) ?_ ?_
      · intro k w' hHere
        rw [hLive] at hHere
        cases hHere
        rfl
      · intro j hj hNe w' hOther
        exact hNe (hInv.ok.distinct j hj _
          (Cyclic.slot_lt hPos) key w' w hOther hLive)
    · refine iff_of_false (by simp) ?_
      rintro ⟨hNone, _⟩
      exact hBound.2 (hBound.1.symm.trans hNone)
  · cases Probing.loop_unique hCall hSpec
    refine ⟨hInv, iff_of_true rfl ⟨?_, ?_⟩⟩
    · refine hInv.represents.pointer_none ?_
      intro i hi w hLive
      rcases hFull i hi with ⟨k, w', hOther, hKey⟩
      rw [hLive] at hOther
      cases hOther
      exact hKey rfl
    · intro i hi hEmpty
      rcases hFull i hi with ⟨k, w, hLive, _⟩
      rw [strLive_eq_none.mpr hEmpty] at hLive
      cases hLive

/-
  A removal answers as the map says, and what it leaves is a
  map again if no other key is looked for across the slot.
-/
theorem remove
    (hInv : sys.Inv)
    (hCall : strHashRemove fuel sys.table key = some (v, t)) :
    v = sys.map key ∧ t.slots = sys.table.slots ∧
      (KeepsChains sys (.remove key) →
        StrHashSys.Inv
          ⟨t, Function.update sys.map key none⟩) := by
  rcases strHashRemove_spec hInv.ok (Nat.le_refl _) key with
    ⟨i, hi, w, hLive, hSpec⟩ | ⟨hNone, hSpec⟩
  · cases Probing.loop_unique hCall hSpec
    refine ⟨(hInv.represents.pointer_eq hi hLive).1.symm, rfl, ?_⟩
    intro hKeeps
    have hHere := (strLive_eq_some.mp hLive).1
    refine ⟨hInv.ok.delete hi hLive ?_, ?_⟩
    · intro k w d hd hOther hNe e he hSlot
      have hKey : k ≠ key := by
        rintro rfl
        exact hNe (hInv.ok.distinct _
          (Cyclic.slot_lt (Nat.zero_lt_of_lt hd)) i hi k w v
          hOther hLive)
      refine hKeeps d hd k hKey (strLive_eq_some.mp hOther).1 e
        he ?_
      rw [hSlot]
      exact hHere
    · rw [strLive_delete, map_update_some]
      exact hInv.represents.erase hi hLive hInv.ok.distinct
  · cases Probing.loop_unique hCall hSpec
    have hMap := hInv.represents.pointer_none hNone
    refine ⟨hMap.symm, rfl, fun _ => ⟨hInv.ok, ?_⟩⟩
    have hSame : Function.update sys.map key none = sys.map := by
      rw [← hMap, Function.update_eq_self]
    rw [hSame]
    exact hInv.represents

theorem refines
    (hInv : sys.Inv) :
    sys.Refines where
  get_eq _ key hFuel := hInv.get_eq hFuel key
  put_eq fuel key value hFuel := by
    rcases strHashPut_spec (some value) hInv.ok hFuel key with
      ⟨_, _, _, ⟨_, hSpec⟩ | ⟨_, hSpec⟩⟩ | ⟨_, hSpec⟩
    · exact ⟨_, _, hSpec, (hInv.put hSpec).2⟩
    · exact ⟨_, _, hSpec, (hInv.put hSpec).2⟩
    · exact ⟨_, _, hSpec, (hInv.put hSpec).2⟩
  remove_eq fuel key hFuel := by
    rcases strHashRemove_spec hInv.ok hFuel key with
      ⟨_, _, _, _, hSpec⟩ | ⟨_, hSpec⟩
    · exact ⟨_, (hInv.remove hSpec).1 ▸ hSpec⟩
    · exact ⟨_, (hInv.remove hSpec).1 ▸ hSpec⟩
  size_eq := by
    rcases hInv.represents.pointer_keys hInv.ok.distinct with
      ⟨keys, hKeys, hCard⟩
    exact ⟨keys, hKeys, hInv.ok.size_eq.trans hCard.symm⟩

/-
  A key that is looked for across the slot of a removed key
  is not found any more.
-/
theorem get_delete
    {other : CString}
    {w : Option Addr}
    {d e : Nat}
    (hInv : sys.Inv)
    (hd : d < sys.table.slots)
    (he : e < d)
    (hLive : sys.table.live
        (slot sys.table.slots (sys.table.home other) d) =
      some (other, w))
    (hFuel : sys.table.slots ≤ fuel) :
    strHashGet fuel
        (sys.table.delete
          (slot sys.table.slots (sys.table.home other) e))
        other =
      some none := by
  unfold strHashGet
  rw [strHashGetAt_eq, strLive_delete, strUsed_delete]
  exact Probing.search_erased hInv.ok.chained hInv.ok.distinct
    hd he hLive hFuel

/-
  A removal leaves the answers for all other keys as they
  were exactly if it keeps their chains.
-/
theorem keepsChains_iff
    (hInv : sys.Inv)
    (hCall : strHashRemove fuel sys.table key = some (v, t)) :
    KeepsChains sys (.remove key) ↔
      ∀ other, other ≠ key →
        ∀ fuel, sys.table.slots ≤ fuel →
          strHashGet fuel t other =
            strHashGet fuel sys.table other := by
  rcases hInv.remove hCall with ⟨_, hSlots, hNext⟩
  constructor
  · intro hKeeps other hNe fuel hFuel
    have hGet := (hNext hKeeps).get_eq (hSlots ▸ hFuel) other
    simp only [Function.update_of_ne hNe] at hGet
    rw [hGet, hInv.get_eq hFuel other]
  · intro hAll d hd other hNe hOther e he hKey
    have hPos : 0 < sys.table.slots := Nat.zero_lt_of_lt hd
    have hLive :
        sys.table.live
            (slot sys.table.slots (sys.table.home other) d) =
          some (other, sys.table.values
            (slot sys.table.slots (sys.table.home other) d)) :=
      strLive_eq_some.mpr ⟨hOther, rfl⟩
    have hBound := hInv.represents.pointer_eq (Cyclic.slot_lt hPos) hLive
    have hBefore : e < d := by
      refine Nat.lt_of_le_of_ne he ?_
      rintro rfl
      rw [hOther] at hKey
      exact hNe (Option.some.inj hKey)
    rcases strHashRemove_spec hInv.ok (Nat.le_refl _) key with
      ⟨i, hi, w, hHere, hSpec⟩ | ⟨hNone, _⟩
    · cases Probing.loop_unique hCall hSpec
      have hSame :=
        hInv.ok.distinct i hi _ (Cyclic.slot_lt hPos) key v _
          hHere (strLive_eq_some.mpr ⟨hKey, rfl⟩)
      subst hSame
      have hLost :=
        hInv.get_delete hd hBefore hLive (Nat.le_refl _)
      rw [hAll other hNe _ (Nat.le_refl _),
        hInv.get_eq (Nat.le_refl _), Option.some.injEq,
        hBound.1] at hLost
      exact hBound.2 hLost
    · exact hNone _ (Cyclic.slot_lt hPos) _
        (strLive_eq_some.mpr ⟨hKey, rfl⟩)

end StrHashSys.Inv

theorem strHashStep_inv
    {call : StrHashCall}
    (hInv : sys.Inv)
    (hStep :
      Guarded KeepsChains StrHashSys.Step sys call sys') :
    sys'.Inv := by
  rcases hStep with ⟨hKeeps, hStep⟩
  cases hStep with
  | put hCall => exact (hInv.put hCall).1
  | get => exact hInv
  | remove hCall => exact (hInv.remove hCall).2.2 hKeeps

end Steps

--------------------
-- Every Run
--------------------

/-
  In a run whose removals keep the chains of the other keys,
  the table is a map, and a removal leaves the answers for
  the other keys as they were exactly if it keeps them.
-/
theorem str_hash_run_refines
    {heap heap' : Heap}
    {initialCapacity : U64}
    {garbage : Nat → Option Addr}
    {start : StrHashTable}
    {calls : List StrHashCall}
    {sys : StrHashSys}
    (hInit : strHashInit heap initialCapacity garbage =
      some (start, heap'))
    (hRun : Run (Guarded KeepsChains StrHashSys.Step)
      ⟨start, fun _ => none⟩ calls sys) :
    sys.Refines ∧
      ∀ fuel key v t,
        strHashRemove fuel sys.table key = some (v, t) →
          (KeepsChains sys (.remove key) ↔
            ∀ other, other ≠ key →
              ∀ fuel, sys.table.slots ≤ fuel →
                strHashGet fuel t other =
                  strHashGet fuel sys.table other) := by
  rcases strHashInit_spec hInit with ⟨hOk, hEmpty⟩
  have hStart : StrHashSys.Inv ⟨start, fun _ => none⟩ := by
    refine ⟨hOk, ?_⟩
    intro k v
    simp [strLive_eq_none.mpr (hEmpty _)]
  have hInv :=
    hRun.invariant StrHashSys.Inv
      (fun _ _ _ hInv hStep => strHashStep_inv hInv hStep)
      hStart
  refine ⟨hInv.refines, ?_⟩
  intro fuel key v t hCall
  exact hInv.keepsChains_iff hCall

/- Two keys are stored, the second behind the first. -/
theorem keepsChains_last
    {sys : StrHashSys}
    {first last : CString}
    (hKeys : ∀ i < sys.table.slots,
      sys.table.keys i = none ∨
        sys.table.keys i = some first ∨
          sys.table.keys i = some last)
    (hBehind : ∀ d < sys.table.slots,
      sys.table.keys
          (slot sys.table.slots (sys.table.home first) d) =
        some first →
      ∀ e ≤ d,
        sys.table.keys
            (slot sys.table.slots (sys.table.home first) e) ≠
          some last) :
    KeepsChains sys (.remove last) := by
  intro d hd other hNe hKey
  have hSlots : 0 < sys.table.slots := Nat.zero_lt_of_lt hd
  rcases hKeys _ (Nat.mod_lt _ hSlots) with hNone | hFirst | hLast
  · rw [slot, hNone] at hKey
    cases hKey
  · have hEq : other = first := by
      rw [slot, hFirst] at hKey
      exact (Option.some.inj hKey).symm
    subst hEq
    exact hBehind d hd hKey
  · rw [slot, hLast] at hKey
    exact absurd (Option.some.inj hKey).symm hNe

/- Two keys with the same home slot, the second is removed. -/
theorem str_hash_run_refines_collision :
    ∃ sys,
      Run (Guarded KeepsChains StrHashSys.Step)
          ⟨⟨fun _ => none, fun _ => none, 4#64, 0#64⟩,
            fun _ => none⟩
          [.put ⟨[97#8], by decide⟩ 8#64,
            .put ⟨[101#8], by decide⟩ 16#64,
            .get ⟨[101#8], by decide⟩,
            .remove ⟨[101#8], by decide⟩] sys ∧
        sys.Refines := by
  have hInit :
      strHashInit Heap.initial 4#64 (fun _ => none) =
        some
          (⟨fun _ => none, fun _ => none, 4#64, 0#64⟩,
            (kmalloc (kmalloc Heap.initial 32#64).2 32#64).2) :=
    rfl
  have hRun :
      Run (Guarded KeepsChains StrHashSys.Step)
        ⟨⟨fun _ => none, fun _ => none, 4#64, 0#64⟩,
          fun _ => none⟩
        [.put ⟨[97#8], by decide⟩ 8#64,
          .put ⟨[101#8], by decide⟩ 16#64,
          .get ⟨[101#8], by decide⟩,
          .remove ⟨[101#8], by decide⟩] _ :=
    .cons ⟨trivial, @StrHashSys.Step.put _ _ _ _ 4 _ rfl⟩
      (.cons ⟨trivial, @StrHashSys.Step.put _ _ _ _ 4 _ rfl⟩
        (.cons ⟨trivial, @StrHashSys.Step.get _ _ 4 _ rfl⟩
          (.cons
            ⟨@keepsChains_last _ ⟨[97#8], by decide⟩ _
                (by decide) (by decide),
              @StrHashSys.Step.remove _ _ _ 4 _ rfl⟩
            (.nil _))))
  exact ⟨_, hRun, (str_hash_run_refines hInit hRun).1⟩

/-
  Two keys with the same home slot of four: the one that is
  there is removed, and the other one behind it is lost.
-/
theorem str_hash_remove_not_refines :
    ¬ ∀ heap initialCapacity garbage start heap' calls sys,
      strHashInit heap initialCapacity garbage =
          some (start, heap') →
        Run StrHashSys.Step ⟨start, fun _ => none⟩ calls sys →
        sys.Refines := by
  intro hAll
  have hInit :
      strHashInit Heap.initial 4#64 (fun _ => none) =
        some
          (⟨fun _ => none, fun _ => none, 4#64, 0#64⟩,
            (kmalloc (kmalloc Heap.initial 32#64).2 32#64).2) :=
    rfl
  have hRun :
      Run StrHashSys.Step
        ⟨⟨fun _ => none, fun _ => none, 4#64, 0#64⟩,
          fun _ => none⟩
        [.put ⟨[97#8], by decide⟩ 8#64,
          .put ⟨[101#8], by decide⟩ 16#64,
          .remove ⟨[97#8], by decide⟩] _ :=
    .cons (@StrHashSys.Step.put _ _ _ _ 4 _ rfl)
      (.cons (@StrHashSys.Step.put _ _ _ _ 4 _ rfl)
        (.cons (@StrHashSys.Step.remove _ _ _ 4 _ rfl)
          (.nil _)))
  have hGet :=
    (hAll _ _ _ _ _ _ _ hInit hRun).get_eq 4
      ⟨[101#8], by decide⟩ (Nat.le_refl _)
  have hLost : some none = some (some 16#64) := hGet
  cases hLost

end FeatherOS
