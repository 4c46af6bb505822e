import Mathlib.Algebra.Group.Int.Defs
import Mathlib.Algebra.GroupWithZero.Nat
import Mathlib.Data.Int.Notation
import Mathlib.Data.Nat.Basic
import Mathlib.Logic.Function.Basic

/-
  Machine words and the masks that round them.

  A word rounded by the mask `~(2^k - 1)` is the greatest
  multiple of `2^k` that is not above it. A run of words may
  go on from the largest word to 0. An operation on a
  32-bit `int` whose result is no `int` has no result.

  Key definitions include:
    * `Words.overlay`
    * `CheckedInt.Fits`
    * `CheckedInt.int`

  Key rules include:
    * `Words.toNat_and_not_low`
    * `Words.toNat_and_low`
    * `Words.toNat_succ`
    * `Words.toNat_pred`
    * `Words.overlay_succ`
    * `CheckedInt.int_of_fits`
-/

namespace Words

variable {w : Nat}

/- Clearing the low bits is shifting them out and back. -/
theorem and_not_low_eq_shift
    (x : BitVec w)
    (k : Nat) :
    x &&& ~~~(BitVec.ofNat w (2 ^ k - 1)) =
      (x >>> k) <<< k := by
  apply BitVec.eq_of_getLsbD_eq
  intro i hi
  simp only [BitVec.getLsbD_and, BitVec.getLsbD_not, hi,
    decide_true, Bool.true_and, BitVec.getLsbD_ofNat,
    Nat.testBit_two_pow_sub_one, BitVec.getLsbD_shiftLeft,
    BitVec.getLsbD_ushiftRight]
  by_cases hk : i < k
  · simp [hk]
  · have hSum : k + (i - k) = i := by omega
    simp [hk, hSum]

/- Rounding down by a mask. -/
theorem toNat_and_not_low
    (x : BitVec w)
    (k : Nat) :
    (x &&& ~~~(BitVec.ofNat w (2 ^ k - 1))).toNat =
      x.toNat / 2 ^ k * 2 ^ k := by
  rw [and_not_low_eq_shift, BitVec.toNat_shiftLeft,
    BitVec.toNat_ushiftRight, Nat.shiftLeft_eq,
    Nat.shiftRight_eq_div_pow]
  apply Nat.mod_eq_of_lt
  have hLe := Nat.div_mul_le_self x.toNat (2 ^ k)
  have hLt := x.isLt
  omega

/- The bits a mask keeps. -/
theorem toNat_and_low
    (x : BitVec w)
    (k : Nat)
    (hk : k ≤ w) :
    (x &&& BitVec.ofNat w (2 ^ k - 1)).toNat =
      x.toNat % 2 ^ k := by
  have hPow : 2 ^ k - 1 < 2 ^ w := by
    have hMono : 2 ^ k ≤ 2 ^ w :=
      Nat.pow_le_pow_right (by omega) hk
    have hPos : 0 < 2 ^ k := Nat.two_pow_pos k
    omega
  rw [BitVec.toNat_and, BitVec.toNat_ofNat,
    Nat.mod_eq_of_lt hPow, Nat.and_two_pow_sub_one_eq_mod]

/- Adding one below the largest word. -/
theorem toNat_succ
    {x : BitVec w}
    (hx : x.toNat + 1 < 2 ^ w) :
    (x + 1#w).toNat = x.toNat + 1 := by
  have hOne : 1 < 2 ^ w := by omega
  rw [BitVec.toNat_add, BitVec.toNat_ofNat,
    Nat.mod_eq_of_lt hOne, Nat.mod_eq_of_lt hx]

/- Adding one to a word that is not the largest in use. -/
theorem toNat_succ_of_lt
    {x y : BitVec w}
    (hLt : x < y) :
    (x + 1#w).toNat = x.toNat + 1 := by
  have hMax := y.isLt
  have hNat := BitVec.lt_def.mp hLt
  exact toNat_succ (by omega)

/- Taking one from a word that is not zero. -/
theorem toNat_pred
    {x : BitVec w}
    (hPos : 0 < x.toNat) :
    (x - 1#w).toNat = x.toNat - 1 := by
  have hMax := x.isLt
  have hOne : (1#w).toNat = 1 := by
    rw [BitVec.toNat_ofNat]
    exact Nat.mod_eq_of_lt (by omega)
  have hLe : 1#w ≤ x := by
    rw [BitVec.le_def, hOne]
    exact hPos
  rw [BitVec.toNat_sub_of_le hLe, hOne]

--------------------
-- Runs Of Words
--------------------

section Overlay

variable {α : Type}

/- The values of the `k` words from `a` on become those of `v`. -/
def overlay
    (f : BitVec w → α)
    (a : BitVec w)
    (v : Nat → α)
    (k : Nat) :
    BitVec w → α :=
  fun p => if (p - a).toNat < k then v (p - a).toNat else f p

theorem overlay_zero
    (f : BitVec w → α)
    (a : BitVec w)
    (v : Nat → α) :
    overlay f a v 0 = f := by
  funext p
  simp [overlay]

/- The next word of a run that may have gone all around. -/
theorem overlay_succ
    (f : BitVec w → α)
    (a : BitVec w)
    (v : Nat → α)
    (k : Nat) :
    overlay f a v (k + 1) =
      Function.update (overlay f a v k) (a + BitVec.ofNat w k)
        (v (k % 2 ^ w)) := by
  funext p
  have hLt := (p - a).isLt
  by_cases hHere : p = a + BitVec.ofNat w k
  · have hOff : (p - a).toNat = k % 2 ^ w := by
      rw [hHere, BitVec.add_comm, BitVec.add_sub_cancel,
        BitVec.toNat_ofNat]
    have hLe := Nat.mod_le k (2 ^ w)
    rw [hHere, Function.update_self, ← hHere]
    unfold overlay
    rw [hOff, if_pos (by omega)]
  · have hOff : (p - a).toNat ≠ k := by
      intro hEq
      apply hHere
      rw [← hEq, BitVec.ofNat_toNat, BitVec.setWidth_eq,
        BitVec.add_comm, BitVec.sub_add_cancel]
    have hIff : (p - a).toNat < k + 1 ↔ (p - a).toNat < k := by
      omega
    rw [Function.update_of_ne hHere]
    unfold overlay
    simp only [hIff]

end Overlay

end Words

--------------------
-- Checked Integers
--------------------

namespace CheckedInt

/- INT_MIN to INT_MAX -/
def Fits (z : Int) : Prop :=
  -2147483648 ≤ z ∧ z ≤ 2147483647

instance (z : Int) : Decidable (Fits z) := by
  unfold Fits
  infer_instance

def int (z : Int) : Option Int :=
  if Fits z then some z else none

theorem int_of_fits
    {z : Int}
    (hFits : Fits z) :
    int z = some z :=
  if_pos hFits

end CheckedInt
