import Mathlib.Data.List.Nodup
import Mathlib.Data.List.Perm.Basic

/-
  A fixed number of slots that are searched by key.

  A slot without a key is free. An entry is stored over the
  one with its key, wherever that is, and otherwise in the
  first free slot; if there is none, it is dropped.

  Key definitions include:
    * `KeyedSlots.find`
    * `KeyedSlots.place`
    * `KeyedSlots.store`
    * `KeyedSlots.Unique`

  Key rules include:
    * `KeyedSlots.unique_store`
    * `KeyedSlots.find_store_self`
    * `KeyedSlots.find_store_other`
    * `KeyedSlots.place_none_iff`
-/

namespace KeyedSlots

variable {ε κ : Type}
variable [DecidableEq κ]

def find
    (key : ε → Option κ)
    (k : κ)
    (slots : List ε) : Option ε :=
  slots.find? fun e => key e = some k

def place
    (key : ε → Option κ)
    (k : κ)
    (slots : List ε) : Option Nat :=
  (slots.findIdx? fun e => key e = some k).or
    (slots.findIdx? fun e => key e = none)

def store
    (key : ε → Option κ)
    (k : κ)
    (e : ε)
    (slots : List ε) : List ε :=
  match place key k slots with
  | some i => slots.set i e
  | none => slots

/- No two slots have one key. -/
def Unique
    (key : ε → Option κ)
    (slots : List ε) : Prop :=
  (slots.filterMap key).Nodup

variable {key : ε → Option κ}
variable {k other : κ}
variable {e : ε}
variable {slots : List ε}

omit [DecidableEq κ] in
theorem Unique.getElem
    (hUnique : Unique key slots)
    {i j : Nat}
    (hi : i < slots.length)
    (hj : j < slots.length)
    (hAt : key slots[i] = some k)
    (hAlso : key slots[j] = some k) :
    i = j := by
  have hApart := List.pairwise_iff_getElem.mp
    (List.pairwise_filterMap.mp hUnique)
  by_contra hNe
  rcases Nat.lt_or_gt_of_ne hNe with hLt | hLt
  · exact hApart i j hi hj hLt k hAt k hAlso rfl
  · exact hApart j i hj hi hLt k hAlso k hAt rfl

omit [DecidableEq κ] in
theorem unique_of_free
    (hFree : ∀ x ∈ slots, key x = none) :
    Unique key slots := by
  unfold Unique
  rw [List.filterMap_eq_nil_iff.mpr hFree]
  exact List.nodup_nil

/- What the first slot with a property splits the slots into -/
theorem findIdx_split
    {p : ε → Bool}
    {i : Nat}
    (hAt : slots.findIdx? p = some i) :
    ∃ front old back,
      slots = front ++ old :: back ∧
        slots.set i e = front ++ e :: back ∧
        p old ∧ ∀ x ∈ front, ¬ p x := by
  rcases List.findIdx?_eq_some_iff_getElem.mp hAt with
    ⟨hLt, hHolds, hBefore⟩
  refine ⟨slots.take i, slots[i], slots.drop (i + 1), ?_, ?_,
    hHolds, ?_⟩
  · rw [List.getElem_cons_drop, List.take_append_drop]
  · exact List.set_eq_take_append_cons_drop.trans (if_pos hLt)
  · intro x hMem
    rcases List.getElem_of_mem hMem with ⟨j, hj, rfl⟩
    have hLess := (List.length_take ▸ hj)
    rw [List.getElem_take]
    exact hBefore j (by omega)

theorem place_none_iff :
    place key k slots = none ↔
      ∀ x ∈ slots, key x ≠ some k ∧ key x ≠ none := by
  rw [place, Option.or_eq_none_iff, List.findIdx?_eq_none_iff,
    List.findIdx?_eq_none_iff]
  simp only [decide_eq_false_iff_not]
  constructor
  · intro h x hMem
    exact ⟨h.1 x hMem, h.2 x hMem⟩
  · intro h
    exact ⟨fun x hMem => (h x hMem).1, fun x hMem => (h x hMem).2⟩

/-
  The entry replaces the one with its key, or a free slot if
  there is no such entry.
-/
theorem store_cases
    (key : ε → Option κ)
    (k : κ)
    (e : ε)
    (slots : List ε) :
    place key k slots = none ∧ store key k e slots = slots ∨
      ∃ front old back,
        slots = front ++ old :: back ∧
          store key k e slots = front ++ e :: back ∧
          (∀ x ∈ front, key x ≠ some k) ∧
          (key old = some k ∨
            key old = none ∧ ∀ x ∈ back, key x ≠ some k) := by
  cases hPlace : place key k slots with
  | none => exact .inl ⟨rfl, by rw [store, hPlace]⟩
  | some i =>
      right
      rw [store, hPlace]
      rcases Option.or_eq_some_iff.mp hPlace with
        hAt | ⟨hNone, hAt⟩
      · rcases findIdx_split hAt with
          ⟨front, old, back, hSlots, hSet, hOld, hFront⟩
        refine ⟨front, old, back, hSlots, hSet, ?_, ?_⟩
        · exact fun x hMem hKey => hFront x hMem (decide_eq_true hKey)
        · exact .inl (of_decide_eq_true hOld)
      · have hOther := List.findIdx?_eq_none_iff.mp hNone
        rcases findIdx_split hAt with
          ⟨front, old, back, hSlots, hSet, hOld, _⟩
        have hNot : ∀ x ∈ slots, key x ≠ some k :=
          fun x hMem => of_decide_eq_false (hOther x hMem)
        rw [hSlots] at hNot
        refine ⟨front, old, back, hSlots, hSet, ?_, .inr ⟨?_, ?_⟩⟩
        · exact fun x hMem => hNot x (List.mem_append_left _ hMem)
        · exact of_decide_eq_true hOld
        · intro x hMem
          exact hNot x (List.mem_append_right _
            (List.mem_cons_of_mem _ hMem))

/- Storing an entry leaves each key at most one slot. -/
theorem unique_store
    (hKey : key e = some k)
    (hUnique : Unique key slots) :
    Unique key (store key k e slots) := by
  rcases store_cases key k e slots with
    ⟨_, hSame⟩ | ⟨front, old, back, hSlots, hStore, hFront, hOld⟩
  · rw [hSame]
    exact hUnique
  · rw [hStore]
    rw [hSlots] at hUnique
    unfold Unique at hUnique ⊢
    rw [List.filterMap_append, List.filterMap_cons] at hUnique ⊢
    rw [hKey]
    rcases hOld with hOld | ⟨hOld, hBack⟩
    · rw [hOld] at hUnique
      exact hUnique
    · rw [hOld] at hUnique
      refine List.nodup_middle.mpr (List.nodup_cons.mpr ⟨?_, hUnique⟩)
      intro hMem
      rcases List.mem_append.mp hMem with hMem | hMem
      · rcases List.mem_filterMap.mp hMem with ⟨x, hx, hAt⟩
        exact hFront x hx hAt
      · rcases List.mem_filterMap.mp hMem with ⟨x, hx, hAt⟩
        exact hBack x hx hAt

/- A slot with another key does not matter. -/
theorem find_skip
    {front back : List ε}
    {x : ε}
    (hNot : key x ≠ some other) :
    find key other (front ++ x :: back) =
      find key other (front ++ back) := by
  have hBack : (x :: back).find? (fun y => key y = some other) =
      back.find? (fun y => key y = some other) :=
    List.find?_cons_of_neg fun hAt => hNot (of_decide_eq_true hAt)
  rw [find, find, List.find?_append, List.find?_append, hBack]

/- It is found if there was a place for it, -/
theorem find_store_self
    (hKey : key e = some k)
    (hPlace : place key k slots ≠ none) :
    find key k (store key k e slots) = some e := by
  rcases store_cases key k e slots with
    ⟨hNone, _⟩ | ⟨front, old, back, _, hStore, hFront, _⟩
  · exact absurd hNone hPlace
  · have hSkip : front.find? (fun x => key x = some k) = none :=
      List.find?_eq_none.mpr fun x hMem hAt =>
        hFront x hMem (of_decide_eq_true hAt)
    rw [hStore, find, List.find?_append, hSkip, Option.none_or]
    exact List.find?_cons_of_pos (decide_eq_true hKey)

/- and what is found under the other keys stays. -/
theorem find_store_other
    (hKey : key e = some k)
    (hOther : other ≠ k) :
    find key other (store key k e slots) = find key other slots := by
  rcases store_cases key k e slots with
    ⟨_, hSame⟩ | ⟨front, old, back, hSlots, hStore, _, hOld⟩
  · rw [hSame]
  · have hNew : key e ≠ some other := by
      simp [hKey, hOther.symm]
    have hGone : key old ≠ some other := by
      rcases hOld with hOld | ⟨hOld, _⟩
      · simp [hOld, hOther.symm]
      · simp [hOld]
    rw [hStore, hSlots, find_skip hNew, find_skip hGone]

end KeyedSlots
