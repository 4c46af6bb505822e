import Mathlib.Algebra.GroupWithZero.Nat
import Mathlib.Data.Finset.Card
import Mathlib.Data.Finset.Range
import Mathlib.Logic.Function.Basic

/-
  Bitmaps stored in machine words.

  A bitmap is an unbounded array of words of `w` bits. Bit
  `i` lives in word `i / w` under the mask `1 << (i % w)`.

  Key definitions include:
    * `Bitmap.test`
    * `Bitmap.set`
    * `Bitmap.clr`
    * `Bitmap.clears`

  Key rules include:
    * `Bitmap.test_set`
    * `Bitmap.test_clr`
    * `Bitmap.clears_set`
    * `Bitmap.clears_clr`
-/

namespace Bitmap

variable {w : Nat}

--------------------
-- Single Bits
--------------------

/- The word that holds nothing but bit `i`. -/
def mask
    (w : Nat)
    (i : Nat) :
    BitVec w :=
  1#w <<< (i % w)

def test
    (b : Nat → BitVec w)
    (i : Nat) : Bool :=
  (b (i / w) &&& mask w i) != 0#w

def set
    (b : Nat → BitVec w)
    (i : Nat) :
    Nat → BitVec w :=
  Function.update b (i / w) (b (i / w) ||| mask w i)

def clr
    (b : Nat → BitVec w)
    (i : Nat) :
    Nat → BitVec w :=
  Function.update b (i / w) (b (i / w) &&& ~~~(mask w i))

theorem getLsbD_mask
    [NeZero w]
    (i k : Nat) :
    (mask w i).getLsbD k = decide (k = i % w) := by
  have hLt : i % w < w :=
    Nat.mod_lt i (Nat.pos_of_ne_zero (NeZero.ne w))
  unfold mask
  rw [BitVec.getLsbD_shiftLeft, BitVec.getLsbD_one]
  by_cases hk : k = i % w
  · subst hk
    simp [hLt]
    omega
  · simp only [hk, decide_false]
    by_cases hw : k < i % w
    · simp [hw]
    · have hSub : k - i % w ≠ 0 := by omega
      simp [hSub]

/- A bit is set when its word has it. -/
theorem test_eq_getLsbD
    [NeZero w]
    (b : Nat → BitVec w)
    (i : Nat) :
    test b i = (b (i / w)).getLsbD (i % w) := by
  have hLt : i % w < w :=
    Nat.mod_lt i (Nat.pos_of_ne_zero (NeZero.ne w))
  cases hBit : (b (i / w)).getLsbD (i % w) with
  | true =>
      have hNe : b (i / w) &&& mask w i ≠ 0#w := by
        intro hZero
        have hAt :=
          congrArg (fun x => x.getLsbD (i % w)) hZero
        simp [getLsbD_mask, hBit] at hAt
      simpa [test] using hNe
  | false =>
      have hEq : b (i / w) &&& mask w i = 0#w := by
        apply BitVec.eq_of_getLsbD_eq
        intro k hk
        by_cases hki : k = i % w
        · simp [hki, hBit]
        · simp [getLsbD_mask, hki]
      simp [test, hEq]

/- Two bits in the same place of the same word are one bit. -/
theorem eq_of_div_mod
    {i j : Nat}
    (hDiv : i / w = j / w)
    (hMod : i % w = j % w) :
    i = j := by
  rw [← Nat.div_add_mod i w, ← Nat.div_add_mod j w,
    hDiv, hMod]

@[simp] theorem test_set
    [NeZero w]
    (b : Nat → BitVec w)
    (i j : Nat) :
    test (set b i) j = (decide (j = i) || test b j) := by
  rw [test_eq_getLsbD, test_eq_getLsbD]
  by_cases hWord : j / w = i / w
  · have hSame : j % w = i % w ↔ j = i :=
      ⟨eq_of_div_mod hWord, fun h => by rw [h]⟩
    simp [set, hWord, getLsbD_mask, hSame, Bool.or_comm]
  · have hNe : j ≠ i := by
      intro h
      exact hWord (by rw [h])
    simp [set, Function.update_of_ne hWord, hNe]

@[simp] theorem test_clr
    [NeZero w]
    (b : Nat → BitVec w)
    (i j : Nat) :
    test (clr b i) j = (!decide (j = i) && test b j) := by
  have hLt : j % w < w :=
    Nat.mod_lt j (Nat.pos_of_ne_zero (NeZero.ne w))
  rw [test_eq_getLsbD, test_eq_getLsbD]
  by_cases hWord : j / w = i / w
  · have hSame : j % w = i % w ↔ j = i :=
      ⟨eq_of_div_mod hWord, fun h => by rw [h]⟩
    unfold clr
    rw [hWord, Function.update_self, BitVec.getLsbD_and,
      BitVec.getLsbD_not, getLsbD_mask]
    simp [hSame, hLt, Bool.and_comm]
  · have hNe : j ≠ i := by
      intro h
      exact hWord (by rw [h])
    simp [clr, Function.update_of_ne hWord, hNe]

--------------------
-- Counting Clear Bits
--------------------

/- The clear bits among the first `n`. -/
def clearBits
    (b : Nat → BitVec w)
    (n : Nat) :
    Finset Nat :=
  (Finset.range n).filter (fun i => test b i = false)

/- How many of the first `n` bits are clear. -/
def clears
    (b : Nat → BitVec w)
    (n : Nat) : Nat :=
  (clearBits b n).card

theorem mem_clearBits
    {b : Nat → BitVec w}
    {n i : Nat} :
    i ∈ clearBits b n ↔ i < n ∧ test b i = false := by
  simp [clearBits]

/- Setting a clear bit takes one from the count. -/
theorem clears_set
    [NeZero w]
    {b : Nat → BitVec w}
    {n i : Nat}
    (hi : i < n)
    (hClear : test b i = false) :
    clears (set b i) n + 1 = clears b n := by
  have hErase :
      clearBits (set b i) n = (clearBits b n).erase i := by
    ext j
    simp only [mem_clearBits, test_set, Finset.mem_erase,
      Bool.or_eq_false_iff, decide_eq_false_iff_not]
    tauto
  unfold clears
  rw [hErase]
  exact Finset.card_erase_add_one
    (mem_clearBits.mpr ⟨hi, hClear⟩)

/- Clearing a set bit adds one to the count. -/
theorem clears_clr
    [NeZero w]
    {b : Nat → BitVec w}
    {n i : Nat}
    (hi : i < n)
    (hSet : test b i = true) :
    clears (clr b i) n = clears b n + 1 := by
  have hBack :
      clearBits b n = (clearBits (clr b i) n).erase i := by
    ext j
    simp only [mem_clearBits, test_clr, Finset.mem_erase,
      Bool.and_eq_false_iff, Bool.not_eq_false',
      decide_eq_true_eq]
    by_cases hj : j = i
    · simp [hj, hSet]
    · simp [hj]
  unfold clears
  rw [hBack]
  exact (Finset.card_erase_add_one
    (mem_clearBits.mpr ⟨hi, by simp⟩)).symm

end Bitmap
