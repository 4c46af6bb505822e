import FeatherOS.Library.Cyclic
import Mathlib.Data.Finset.Card
import Mathlib.Data.Finset.Range
import Mathlib.Data.Nat.Find
import Mathlib.Logic.Function.Basic

/-
  Hash tables with open addressing and linear probing.

  A table has `n` slots. A key is looked for from its home
  slot on, around the end, up to the first slot that was
  never used; a new key is put into the first slot that
  holds no live entry. Slots that were used and hold no live
  entry are tombstones.

  Key definitions include:
    * `Probing.loop`
    * `Probing.Chained`
    * `Probing.Distinct`
    * `Probing.Represents`

  Key rules include:
    * `Probing.loop_cases`
    * `Probing.search_spec`
    * `Probing.search_erased`
    * `Probing.Chained.insert`
    * `Probing.Chained.erase`
    * `Probing.Represents.insert`
    * `Probing.Represents.erase`
-/

namespace Probing

open Cyclic (slot)

--------------------
-- The Loop
--------------------

section Loop

variable {β : Type}
variable {n start fuel : Nat}
variable {body : Nat → Option β}
variable {wrapped : β}

/-
  The body is run at a slot and the following ones until it
  answers or the loop is back at `original`. The bound on the
  turns comes first.
-/
def loop
    (n : Nat)
    (body : Nat → Option β)
    (wrapped : β)
    (original : Nat) :
    Nat → Nat → Option β
  | 0, _ => none
  | fuel + 1, index =>
      match body index with
      | some r => some r
      | none =>
          let index := (index + 1) % n
          if index = original then
            some wrapped
          else
            loop n body wrapped original fuel index

/- The loop answers at the first slot where the body does. -/
theorem loop_hit
    {d m : Nat}
    {r : β}
    (hStart : start < n)
    (hd : m + d < n)
    (hHit : body (slot n start (m + d)) = some r)
    (hMiss : ∀ e < d, body (slot n start (m + e)) = none)
    (hFuel : d < fuel) :
    loop n body wrapped start fuel (slot n start m) =
      some r := by
  induction d generalizing m fuel with
  | zero =>
      cases fuel with
      | zero => omega
      | succ fuel =>
          rw [Nat.add_zero] at hHit
          simp only [loop, hHit]
  | succ d ih =>
      cases fuel with
      | zero => omega
      | succ fuel =>
          have hHere := hMiss 0 (Nat.succ_pos d)
          rw [Nat.add_zero] at hHere
          have hAway : slot n start (m + 1) ≠ start := by
            intro hBack
            have hTurn :=
              Cyclic.slot_eq_start hStart (by omega) hBack
            omega
          simp only [loop, hHere, Cyclic.slot_succ,
            if_neg hAway]
          have hShift : m + (d + 1) = m + 1 + d := by omega
          rw [hShift] at hd hHit
          refine ih hd hHit ?_ (by omega)
          intro e he
          have hNext := hMiss (e + 1) (by omega)
          have hStep : m + (e + 1) = m + 1 + e := by omega
          rwa [hStep] at hNext

/- The loop comes round if the body never answers. -/
theorem loop_miss
    {m : Nat}
    (hStart : start < n)
    (hm : m < n)
    (hMiss : ∀ d < n, body (slot n start d) = none)
    (hFuel : n ≤ m + fuel) :
    loop n body wrapped start fuel (slot n start m) =
      some wrapped := by
  induction fuel generalizing m with
  | zero => omega
  | succ fuel ih =>
      simp only [loop, hMiss m hm, Cyclic.slot_succ]
      by_cases hBack : slot n start (m + 1) = start
      · rw [if_pos hBack]
      · rw [if_neg hBack]
        have hMore : m + 1 < n := by
          by_contra hEnd
          have hTurn : m + 1 = n := by omega
          refine hBack ?_
          unfold slot
          rw [hTurn, Nat.add_mod_right, Nat.mod_eq_of_lt hStart]
        exact ih hMore (by omega)

/- Enough turns lead to an answer. -/
theorem loop_cases
    (body : Nat → Option β)
    (wrapped : β)
    (hStart : start < n)
    (hFuel : n ≤ fuel) :
    (∃ d < n, ∃ r, body (slot n start d) = some r ∧
        (∀ e < d, body (slot n start e) = none) ∧
        loop n body wrapped start fuel start = some r) ∨
      (∀ d < n, body (slot n start d) = none) ∧
        loop n body wrapped start fuel start =
          some wrapped := by
  have hZero := Cyclic.slot_zero hStart
  by_cases hAny :
      ∃ d, d < n ∧ (body (slot n start d)).isSome = true
  · have hFirst := Nat.find_spec hAny
    have hBefore := @Nat.find_min _ _ hAny
    generalize Nat.find hAny = d at hFirst hBefore
    rcases hFirst with ⟨hd, hSome⟩
    rcases Option.isSome_iff_exists.mp hSome with ⟨r, hr⟩
    have hMiss : ∀ e < d, body (slot n start e) = none := by
      intro e he
      have hNot := hBefore he
      rw [not_and, Bool.not_eq_true,
        Option.isSome_eq_false_iff, Option.isNone_iff_eq_none]
        at hNot
      exact hNot (by omega)
    refine Or.inl ⟨d, hd, r, hr, hMiss, ?_⟩
    have hLoop :=
      @loop_hit β n start fuel body wrapped d 0 r hStart
        (by omega) (by rwa [Nat.zero_add])
        (fun e he => by
          rw [Nat.zero_add]
          exact hMiss e he)
        (by omega)
    rwa [hZero] at hLoop
  · have hMiss : ∀ d < n, body (slot n start d) = none := by
      intro d hd
      by_contra hSome
      refine hAny ⟨d, hd, ?_⟩
      rwa [Option.isSome_iff_ne_none]
    refine Or.inr ⟨hMiss, ?_⟩
    have hLoop :=
      @loop_miss β n start fuel body wrapped 0 hStart
        (by omega) hMiss (by omega)
    rwa [hZero] at hLoop

variable {fuel' index original d : Nat}

/- More turns do not change the answer. -/
theorem loop_mono
    {r : β}
    (hLe : fuel ≤ fuel')
    (hLoop : loop n body wrapped original fuel index = some r) :
    loop n body wrapped original fuel' index = some r := by
  induction fuel generalizing fuel' index with
  | zero => simp [loop] at hLoop
  | succ fuel ih =>
      cases fuel' with
      | zero => omega
      | succ fuel' =>
          simp only [loop] at hLoop ⊢
          cases hBody : body index with
          | some r' =>
              simp only [hBody] at hLoop ⊢
              exact hLoop
          | none =>
              simp only [hBody] at hLoop ⊢
              by_cases hBack : (index + 1) % n = original
              · rwa [if_pos hBack] at hLoop ⊢
              · rw [if_neg hBack] at hLoop ⊢
                exact ih (by omega) hLoop

theorem loop_unique
    {r r' : β}
    (hLoop : loop n body wrapped original fuel index = some r)
    (hLoop' :
      loop n body wrapped original fuel' index = some r') :
    r = r' := by
  have hMax := loop_mono (Nat.le_max_left fuel fuel') hLoop
  rw [loop_mono (Nat.le_max_right fuel fuel') hLoop'] at hMax
  exact (Option.some.inj hMax).symm

end Loop

--------------------
-- Tables
--------------------

section Tables

variable {K V β : Type}
variable {n fuel : Nat}
variable {home : K → Nat}
variable {used used' : Nat → Bool}
variable {live live' : Nat → Option (K × V)}
variable {map : K → Option V}
variable {k : K}
variable {v : V}
variable {i : Nat}

/-
  Every live entry is reached from the home slot of its key
  through used slots.
-/
structure Chained
    (n : Nat)
    (home : K → Nat)
    (used : Nat → Bool)
    (live : Nat → Option (K × V)) : Prop where
  home_lt : ∀ k, home k < n
  chain : ∀ k v, ∀ d < n,
    live (slot n (home k) d) = some (k, v) →
      ∀ e ≤ d, used (slot n (home k) e) = true

/- No key has two live entries. -/
def Distinct
    (n : Nat)
    (live : Nat → Option (K × V)) : Prop :=
  ∀ i < n, ∀ j < n, ∀ k v w,
    live i = some (k, v) → live j = some (k, w) → i = j

/- The live entries are the bindings of the map. -/
def Represents
    (n : Nat)
    (live : Nat → Option (K × V))
    (map : K → Option V) : Prop :=
  ∀ k v, map k = some v ↔ ∃ i < n, live i = some (k, v)

/- The slots with a live entry. -/
def filled
    (n : Nat)
    (live : Nat → Option (K × V)) :
    Finset Nat :=
  (Finset.range n).filter fun i => (live i).isSome

theorem mem_filled :
    i ∈ filled n live ↔ i < n ∧ (live i).isSome = true := by
  simp [filled]

theorem card_filled_le :
    (filled n live).card ≤ n := by
  have hLe :=
    Finset.card_filter_le (Finset.range n) fun i =>
      (live i).isSome
  rwa [Finset.card_range] at hLe

/- A table with fewer live entries than slots has room. -/
theorem exists_none
    (hLt : (filled n live).card < n) :
    ∃ i < n, live i = none := by
  by_contra hFull
  have hAll : filled n live = Finset.range n := by
    ext i
    rw [mem_filled, Finset.mem_range]
    refine ⟨And.left, fun hi => ⟨hi, ?_⟩⟩
    rw [Option.isSome_iff_ne_none]
    exact fun hNone => hFull ⟨i, hi, hNone⟩
  rw [hAll, Finset.card_range] at hLt
  omega

--------------------
-- Looking For A Key
--------------------

section Lookup

variable [DecidableEq K]

/- The body of a search. -/
def search
    (used : Nat → Bool)
    (live : Nat → Option (K × V))
    (k : K)
    (found : Nat → β)
    (absent : β)
    (i : Nat) :
    Option β :=
  if used i = false then
    some absent
  else if (live i).map Prod.fst = some k then
    some (found i)
  else
    none

/- A search stops at a live entry of its key. -/
theorem search_of_live
    {found : Nat → β}
    {absent : β}
    (hChain : Chained n home used live)
    (hd : d < n)
    (hLive : live (slot n (home k) d) = some (k, v)) :
    search used live k found absent (slot n (home k) d) =
      some (found (slot n (home k) d)) := by
  have hUsed := hChain.chain k v d hd hLive d (Nat.le_refl d)
  simp [search, hUsed, hLive]

/- A search finds a live entry of its key, if there is one. -/
theorem search_spec
    (k : K)
    (found : Nat → β)
    (absent : β)
    (hChain : Chained n home used live)
    (hFuel : n ≤ fuel) :
    (∃ i < n, ∃ v, live i = some (k, v) ∧
        loop n (search used live k found absent) absent
            (home k) fuel (home k) =
          some (found i)) ∨
      (∀ i < n, ∀ v, live i ≠ some (k, v)) ∧
        loop n (search used live k found absent) absent
            (home k) fuel (home k) =
          some absent := by
  have hHome := hChain.home_lt k
  have hPos : 0 < n := Nat.zero_lt_of_lt hHome
  rcases loop_cases (search used live k found absent) absent
      hHome hFuel with
    ⟨d, hd, r, hr, hMiss, hLoop⟩ | ⟨hMiss, hLoop⟩
  · by_cases hUsed : used (slot n (home k) d) = false
    · -- A live entry further on is behind a used slot.
      have hr' : r = absent := by
        simpa [search, hUsed] using hr.symm
      refine Or.inr ⟨?_, by rw [hLoop, hr']⟩
      intro i hi v hLive
      rcases Cyclic.exists_slot hHome hi with ⟨e, he, rfl⟩
      by_cases hLe : d ≤ e
      · have hTrue := hChain.chain k v e he hLive d hLe
        rw [hUsed] at hTrue
        simp at hTrue
      · have hNone := hMiss e (by omega)
        rw [search_of_live hChain he hLive] at hNone
        simp at hNone
    · by_cases hKey :
          (live (slot n (home k) d)).map Prod.fst = some k
      · have hr' : r = found (slot n (home k) d) := by
          simpa [search, hUsed, hKey] using hr.symm
        rcases Option.map_eq_some_iff.mp hKey with
          ⟨⟨k', v⟩, hLive, hEq⟩
        simp only at hEq
        subst hEq
        exact Or.inl ⟨_, Cyclic.slot_lt hPos, v, hLive,
          by rw [hLoop, hr']⟩
      · simp [search, hUsed, hKey] at hr
  · refine Or.inr ⟨?_, hLoop⟩
    intro i hi v hLive
    rcases Cyclic.exists_slot hHome hi with ⟨e, he, rfl⟩
    have hNone := hMiss e he
    rw [search_of_live hChain he hLive] at hNone
    simp at hNone

/- The same, where the value found tells the answer. -/
theorem search_answer
    (k : K)
    {found : Nat → β}
    (answer : Nat → V → β)
    (absent : β)
    (hAnswer : ∀ i v, live i = some (k, v) →
      found i = answer i v)
    (hChain : Chained n home used live)
    (hFuel : n ≤ fuel) :
    (∃ i < n, ∃ v, live i = some (k, v) ∧
        loop n (search used live k found absent) absent
            (home k) fuel (home k) =
          some (answer i v)) ∨
      (∀ i < n, ∀ v, live i ≠ some (k, v)) ∧
        loop n (search used live k found absent) absent
            (home k) fuel (home k) =
          some absent := by
  rcases search_spec k found absent hChain hFuel with
    ⟨i, hi, v, hLive, hLoop⟩ | hNone
  · rw [hAnswer i v hLive] at hLoop
    exact Or.inl ⟨i, hi, v, hLive, hLoop⟩
  · exact Or.inr hNone

/- A slot given back ends the search for a key behind it. -/
theorem search_erased
    {d e : Nat}
    {found : Nat → β}
    {absent : β}
    (hChain : Chained n home used live)
    (hDistinct : Distinct n live)
    (hd : d < n)
    (he : e < d)
    (hLive : live (slot n (home k) d) = some (k, v))
    (hFuel : n ≤ fuel) :
    loop n
        (search
          (Function.update used (slot n (home k) e) false)
          (Function.update live (slot n (home k) e) none) k
          found absent)
        absent (home k) fuel (home k) =
      some absent := by
  have hHome := hChain.home_lt k
  have hPos : 0 < n := Nat.zero_lt_of_lt hHome
  have hLoop :=
    @loop_hit β n (home k) fuel
      (search (Function.update used (slot n (home k) e) false)
        (Function.update live (slot n (home k) e) none) k found
        absent)
      absent e 0 absent hHome (by omega)
      (by simp [search])
      (fun e' he' => by
        rw [Nat.zero_add]
        have hNe : slot n (home k) e' ≠ slot n (home k) e :=
          Cyclic.slot_ne he' (by omega)
        have hUsed :=
          hChain.chain k v d hd hLive e' (by omega)
        have hOther : ∀ w,
            live (slot n (home k) e') ≠ some (k, w) := by
          intro w hSame
          exact Cyclic.slot_ne (by omega) (by omega)
            (hDistinct _ (Cyclic.slot_lt hPos) _
              (Cyclic.slot_lt hPos) k w v hSame hLive)
        simp [search, Function.update_of_ne hNe, hUsed,
          hOther])
      (by omega)
  rwa [Cyclic.slot_zero hHome] at hLoop

--------------------
-- Placing A Key
--------------------

/- The body of an insertion. -/
def place
    (live : Nat → Option (K × V))
    (k : K)
    (insert replace : Nat → β)
    (i : Nat) :
    Option β :=
  match live i with
  | none => some (insert i)
  | some entry =>
      if entry.1 = k then some (replace i) else none

/-
  An insertion takes the first slot that is free or has the
  key, or finds the table full of other keys.
-/
theorem place_spec
    (live : Nat → Option (K × V))
    (insert replace : Nat → β)
    (full : β)
    (hHome : home k < n)
    (hFuel : n ≤ fuel) :
    (∃ d < n,
        (∀ e < d, ∃ k' w,
          live (slot n (home k) e) = some (k', w) ∧ k' ≠ k) ∧
          (live (slot n (home k) d) = none ∧
              loop n (place live k insert replace) full
                  (home k) fuel (home k) =
                some (insert (slot n (home k) d)) ∨
            (∃ w, live (slot n (home k) d) = some (k, w)) ∧
              loop n (place live k insert replace) full
                  (home k) fuel (home k) =
                some (replace (slot n (home k) d)))) ∨
      (∀ i < n, ∃ k' w, live i = some (k', w) ∧ k' ≠ k) ∧
        loop n (place live k insert replace) full
            (home k) fuel (home k) =
          some full := by
  have hOther : ∀ i, place live k insert replace i = none →
      ∃ k' w, live i = some (k', w) ∧ k' ≠ k := by
    intro i hNone
    unfold place at hNone
    cases hLive : live i with
    | none => simp [hLive] at hNone
    | some entry =>
        rw [hLive] at hNone
        refine ⟨entry.1, entry.2, rfl, ?_⟩
        intro hEq
        simp [hEq] at hNone
  rcases loop_cases (place live k insert replace) full hHome
      hFuel with
    ⟨d, hd, r, hr, hMiss, hLoop⟩ | ⟨hMiss, hLoop⟩
  · refine Or.inl ⟨d, hd, fun e he => hOther _ (hMiss e he), ?_⟩
    unfold place at hr
    cases hLive : live (slot n (home k) d) with
    | none =>
        simp only [hLive, Option.some.injEq] at hr
        exact Or.inl ⟨rfl, by rw [hLoop, hr]⟩
    | some entry =>
        simp only [hLive, Option.ite_none_right_eq_some,
          Option.some.injEq] at hr
        refine Or.inr ⟨⟨entry.2, ?_⟩, by rw [hLoop, hr.2]⟩
        rw [← hr.1]
  · refine Or.inr ⟨?_, hLoop⟩
    intro i hi
    rcases Cyclic.exists_slot hHome hi with ⟨e, he, rfl⟩
    exact hOther _ (hMiss e he)

end Lookup

--------------------
-- Chains
--------------------

namespace Chained

/- A live entry lies in a used slot. -/
theorem used_of_live
    (hChain : Chained n home used live)
    (hi : i < n)
    (hLive : live i = some (k, v)) :
    used i = true := by
  rcases Cyclic.exists_slot (hChain.home_lt k) hi with
    ⟨d, hd, rfl⟩
  exact hChain.chain k v d hd hLive d (Nat.le_refl d)

/- Used slots stay used, and keys stay where they are. -/
theorem mono
    (hUsed : ∀ j, used j = true → used' j = true)
    (hLive : ∀ j < n, ∀ k v, live' j = some (k, v) →
      ∃ w, live j = some (k, w))
    (hChain : Chained n home used live) :
    Chained n home used' live' where
  home_lt := hChain.home_lt
  chain k v d hd hNew e he := by
    have hPos := Nat.zero_lt_of_lt (hChain.home_lt k)
    rcases hLive _ (Cyclic.slot_lt hPos) k v hNew with
      ⟨w, hOld⟩
    exact hUsed _ (hChain.chain k w d hd hOld e he)

/- A key put behind used slots. -/
theorem insert
    (hd : d < n)
    (hPath : ∀ e < d, used (slot n (home k) e) = true)
    (hUsed : ∀ j, used j = true → used' j = true)
    (hHere : used' (slot n (home k) d) = true)
    (hChain : Chained n home used live) :
    Chained n home used'
      (Function.update live (slot n (home k) d)
        (some (k, v))) where
  home_lt := hChain.home_lt
  chain k' w d' hd' hLive e he := by
    by_cases hSlot :
        slot n (home k') d' = slot n (home k) d
    · rw [hSlot, Function.update_self] at hLive
      cases hLive
      have hSame := Cyclic.slot_inj hd' hd hSlot
      subst hSame
      rcases Nat.lt_or_eq_of_le he with hLt | rfl
      · exact hUsed _ (hPath e hLt)
      · exact hHere
    · rw [Function.update_of_ne hSlot] at hLive
      exact hUsed _ (hChain.chain k' w d' hd' hLive e he)

/- A slot given back that no other key is reached through. -/
theorem erase
    (hApart : ∀ k v, ∀ d < n,
      live (slot n (home k) d) = some (k, v) →
        slot n (home k) d ≠ i →
        ∀ e ≤ d, slot n (home k) e ≠ i)
    (hChain : Chained n home used live) :
    Chained n home (Function.update used i false)
      (Function.update live i none) where
  home_lt := hChain.home_lt
  chain k v d hd hLive e he := by
    have hNe : slot n (home k) d ≠ i := by
      intro hEq
      rw [hEq, Function.update_self] at hLive
      cases hLive
    rw [Function.update_of_ne hNe] at hLive
    rw [Function.update_of_ne (hApart k v d hd hLive hNe e he)]
    exact hChain.chain k v d hd hLive e he

end Chained

--------------------
-- Entries
--------------------

/- An entry is put into a slot that has no other key. -/
theorem Distinct.put
    (hFresh : ∀ j < n, j ≠ i → ∀ w, live j ≠ some (k, w))
    (hDistinct : Distinct n live) :
    Distinct n (Function.update live i (some (k, v))) := by
  intro a ha b hb k' w w' hLive hLive'
  by_cases hai : a = i
  · by_cases hbi : b = i
    · rw [hai, hbi]
    · rw [hai, Function.update_self] at hLive
      rw [Function.update_of_ne hbi] at hLive'
      cases hLive
      exact absurd hLive' (hFresh b hb hbi w')
  · rw [Function.update_of_ne hai] at hLive
    by_cases hbi : b = i
    · rw [hbi, Function.update_self] at hLive'
      cases hLive'
      exact absurd hLive (hFresh a ha hai w)
    · rw [Function.update_of_ne hbi] at hLive'
      exact hDistinct a ha b hb k' w w' hLive hLive'

theorem Distinct.erase
    (hDistinct : Distinct n live) :
    Distinct n (Function.update live i none) := by
  intro a ha b hb k w w' hLive hLive'
  have hai : a ≠ i := by
    rintro rfl
    simp at hLive
  have hbi : b ≠ i := by
    rintro rfl
    simp at hLive'
  rw [Function.update_of_ne hai] at hLive
  rw [Function.update_of_ne hbi] at hLive'
  exact hDistinct a ha b hb k w w' hLive hLive'

section Maps

variable [DecidableEq K]

theorem Represents.put
    (hi : i < n)
    (hHere : ∀ k' w, live i = some (k', w) → k' = k)
    (hFresh : ∀ j < n, j ≠ i → ∀ w, live j ≠ some (k, w))
    (hRep : Represents n live map) :
    Represents n (Function.update live i (some (k, v)))
      (Function.update map k (some v)) := by
  intro k' w
  by_cases hKey : k' = k
  · subst hKey
    rw [Function.update_self, Option.some.injEq]
    constructor
    · rintro rfl
      exact ⟨i, hi, Function.update_self ..⟩
    · rintro ⟨j, hj, hLive⟩
      by_cases hji : j = i
      · rw [hji, Function.update_self] at hLive
        cases hLive
        rfl
      · rw [Function.update_of_ne hji] at hLive
        exact absurd hLive (hFresh j hj hji w)
  · rw [Function.update_of_ne hKey, hRep k' w]
    refine exists_congr fun j => and_congr_right fun _ => ?_
    by_cases hji : j = i
    · rw [hji, Function.update_self]
      constructor
      · exact fun hLive => absurd (hHere k' w hLive) hKey
      · intro hLive
        cases hLive
        exact absurd rfl hKey
    · rw [Function.update_of_ne hji]

theorem Represents.erase
    (hi : i < n)
    (hLive : live i = some (k, v))
    (hDistinct : Distinct n live)
    (hRep : Represents n live map) :
    Represents n (Function.update live i none)
      (Function.update map k none) := by
  intro k' w
  have hRest :
      (∃ j < n, Function.update live i none j = some (k', w)) ↔
        ∃ j < n, j ≠ i ∧ live j = some (k', w) := by
    refine exists_congr fun j => and_congr_right fun _ => ?_
    by_cases hji : j = i
    · simp [hji]
    · simp [hji]
  rw [hRest]
  by_cases hKey : k' = k
  · subst hKey
    simp only [Function.update_self, reduceCtorEq, false_iff]
    rintro ⟨j, hj, hji, hOther⟩
    exact hji (hDistinct j hj i hi k' w v hOther hLive)
  · rw [Function.update_of_ne hKey, hRep k' w]
    refine exists_congr fun j => and_congr_right fun _ => ?_
    constructor
    · intro hOther
      refine ⟨?_, hOther⟩
      rintro rfl
      rw [hLive] at hOther
      cases hOther
      exact hKey rfl
    · exact And.right

/- The keys of the map are as many as the live entries. -/
theorem Represents.exists_keys
    (hDistinct : Distinct n live)
    (hRep : Represents n live map) :
    ∃ keys : Finset K, (∀ k, k ∈ keys ↔ map k ≠ none) ∧
      keys.card = (filled n live).card := by
  have hSome : ∀ i : filled n live, (live i.1).isSome = true :=
    fun i => (mem_filled.mp i.2).2
  refine ⟨(filled n live).attach.image fun i =>
    ((live i.1).get (hSome i)).1, ?_, ?_⟩
  · intro k
    simp only [Finset.mem_image, Finset.mem_attach, true_and]
    constructor
    · rintro ⟨i, rfl⟩ hNone
      have hIn := (mem_filled.mp i.2).1
      have hLive := (Option.some_get (hSome i)).symm
      have hBound := (hRep _ _).mpr ⟨i.1, hIn, hLive⟩
      exact Option.some_ne_none _ (hBound.symm.trans hNone)
    · intro hBound
      rcases Option.ne_none_iff_exists'.mp hBound with ⟨v, hv⟩
      rcases (hRep k v).mp hv with ⟨i, hi, hLive⟩
      refine ⟨⟨i, mem_filled.mpr ⟨hi, by simp [hLive]⟩⟩, ?_⟩
      simp [hLive]
  · rw [Finset.card_image_of_injective, Finset.card_attach]
    intro a b hEq
    have ha := (Option.some_get (hSome a)).symm
    have hb := (Option.some_get (hSome b)).symm
    have hKey :
        ((live a.1).get (hSome a)).1 =
          ((live b.1).get (hSome b)).1 :=
      hEq
    refine Subtype.ext ?_
    refine hDistinct a.1 (mem_filled.mp a.2).1 b.1
      (mem_filled.mp b.2).1 ((live a.1).get (hSome a)).1 _
      ((live b.1).get (hSome b)).2 ha ?_
    rw [hKey]
    exact hb

/- In a map of pointers, none of them NULL -/
section Pointers

variable {P : Type}
variable {live : Nat → Option (K × Option P)}
variable {map : K → Option P}
variable {v : Option P}

theorem map_update_some :
    (fun k' => (Function.update map k v k').map some) =
      Function.update (fun k => (map k).map some) k
        (v.map some) := by
  funext k'
  by_cases hKey : k' = k
  · subst hKey
    rw [Function.update_self, Function.update_self]
  · rw [Function.update_of_ne hKey, Function.update_of_ne hKey]

/- A live entry has the value of the map. -/
omit [DecidableEq K] in
theorem Represents.pointer_eq
    (hRep : Represents n live fun k => (map k).map some)
    (hi : i < n)
    (hLive : live i = some (k, v)) :
    map k = v ∧ v ≠ none := by
  have hBound := (hRep k v).mpr ⟨i, hi, hLive⟩
  rcases Option.map_eq_some_iff.mp hBound with ⟨a, ha, rfl⟩
  exact ⟨ha, by simp⟩

/- A key without a live entry is not in the map. -/
omit [DecidableEq K] in
theorem Represents.pointer_none
    (hRep : Represents n live fun k => (map k).map some)
    (hNone : ∀ i < n, ∀ w, live i ≠ some (k, w)) :
    map k = none := by
  cases hMap : map k with
  | none => rfl
  | some a =>
      rcases (hRep k (some a)).mp (by simp [hMap]) with
        ⟨i, hi, hLive⟩
      exact absurd hLive (hNone i hi _)

theorem Represents.pointer_keys
    (hRep : Represents n live fun k => (map k).map some)
    (hDistinct : Distinct n live) :
    ∃ keys : Finset K, (∀ k, k ∈ keys ↔ map k ≠ none) ∧
      keys.card = (filled n live).card := by
  simpa using hRep.exists_keys hDistinct

end Pointers

end Maps

--------------------
-- Counting
--------------------

theorem card_filled_insert
    {entry : K × V}
    (hi : i < n)
    (hFree : live i = none) :
    (filled n (Function.update live i (some entry))).card =
      (filled n live).card + 1 := by
  have hInsert :
      filled n (Function.update live i (some entry)) =
        insert i (filled n live) := by
    ext j
    rw [Finset.mem_insert, mem_filled, mem_filled]
    by_cases hji : j = i
    · simp [hji, hi]
    · simp [hji]
  rw [hInsert]
  refine Finset.card_insert_of_notMem ?_
  rw [mem_filled, hFree]
  simp

theorem card_filled_replace
    {entry entry' : K × V}
    (hLive : live i = some entry) :
    (filled n (Function.update live i (some entry'))).card =
      (filled n live).card := by
  have hSame :
      filled n (Function.update live i (some entry')) =
        filled n live := by
    ext j
    rw [mem_filled, mem_filled]
    by_cases hji : j = i
    · simp [hji, hLive]
    · simp [Function.update_of_ne hji]
  rw [hSame]

theorem card_filled_erase
    {entry : K × V}
    (hi : i < n)
    (hLive : live i = some entry) :
    (filled n (Function.update live i none)).card + 1 =
      (filled n live).card := by
  have hErase :
      filled n (Function.update live i none) =
        (filled n live).erase i := by
    ext j
    rw [Finset.mem_erase, mem_filled, mem_filled]
    by_cases hji : j = i
    · simp [hji]
    · simp [hji]
  rw [hErase]
  refine Finset.card_erase_add_one ?_
  rw [mem_filled, hLive]
  exact ⟨hi, rfl⟩

end Tables

end Probing
