import FeatherOS.Library.CyclicBuffer

/-
  Entries of an array put in or taken out by shifting.

  The entries behind one that is taken out are moved up one
  after the other; the front of the array is then the old one
  without the entry, and the last cell keeps what it held.
  Room for an entry is made by moving those behind it down,
  from the last one on.

  Key definitions include:
    * `Shifting.shift`
    * `Shifting.unshift`

  Key rules include:
    * `Shifting.front_shift`
    * `Shifting.front_erase`
    * `Shifting.front_unshift`
-/

namespace Shifting

open CyclicBuffer (front)

variable {α : Type}

/- `turns` cells from `start` on get what is behind them. -/
def shift
    (a : Nat → α)
    (start : Nat) :
    Nat → Nat → α
  | 0 => a
  | turns + 1 =>
      let b := shift a start turns
      Function.update b (start + turns) (b (start + turns + 1))

theorem shift_apply
    (a : Nat → α)
    (start turns i : Nat) :
    shift a start turns i =
      if start ≤ i ∧ i < start + turns then
        a (i + 1)
      else
        a i := by
  induction turns generalizing i with
  | zero =>
      have hNone : ¬ (start ≤ i ∧ i < start + 0) := by omega
      rw [shift, if_neg hNone]
  | succ turns ih =>
      have hNext :
          ¬ (start ≤ start + turns + 1 ∧
            start + turns + 1 < start + turns) := by
        omega
      simp only [shift, Function.update_apply, ih, if_neg hNext]
      grind

variable {i n : Nat}

/- The front of the array loses the entry at `i`. -/
theorem front_shift
    (a : Nat → α)
    (hi : i ≤ n) :
    front (shift a i (n - i)) n = (front a (n + 1)).eraseIdx i := by
  apply List.ext_getElem?
  intro j
  rw [List.getElem?_eraseIdx]
  simp only [front, List.getElem?_map]
  grind [shift_apply]

/- The first entry with a property is taken out. -/
theorem front_erase
    (a : Nat → α)
    {P : α → Bool}
    (hFind : (front a n).findIdx? P = some i) :
    front (shift a i (n - 1 - i)) (n - 1) =
      (front a n).eraseP P := by
  rcases List.findIdx?_eq_some_iff_getElem.mp hFind with ⟨hi, _⟩
  rw [CyclicBuffer.length_front] at hi
  have hLast : n - 1 + 1 = n := by omega
  rw [List.eraseP_eq_eraseIdx, hFind, front_shift a (by omega),
    hLast]

/- `turns` cells up to `stop` get what is before them. -/
def unshift
    (a : Nat → α)
    (stop : Nat) :
    Nat → Nat → α
  | 0 => a
  | turns + 1 =>
      let b := unshift a stop turns
      Function.update b (stop - turns) (b (stop - turns - 1))

theorem unshift_apply
    (a : Nat → α)
    {stop turns : Nat}
    (hTurns : turns ≤ stop)
    (i : Nat) :
    unshift a stop turns i =
      if stop - turns < i ∧ i ≤ stop then
        a (i - 1)
      else
        a i := by
  induction turns generalizing i with
  | zero =>
      have hNone : ¬ (stop - 0 < i ∧ i ≤ stop) := by omega
      rw [unshift, if_neg hNone]
  | succ turns ih =>
      have hFirst :
          ¬ (stop - turns < stop - turns - 1 ∧
            stop - turns - 1 ≤ stop) := by
        omega
      simp only [unshift, Function.update_apply,
        ih (by omega), if_neg hFirst]
      grind

/- An entry is put where room has been made. -/
theorem front_unshift
    (a : Nat → α)
    (hi : i ≤ n)
    (x : α) :
    front (Function.update (unshift a n (n - i)) i x) (n + 1) =
      (front a n).insertIdx i x := by
  apply List.ext_getElem?
  intro j
  rw [List.getElem?_insertIdx]
  simp only [front, List.getElem?_map]
  grind [unshift_apply, Function.update_apply]

end Shifting
