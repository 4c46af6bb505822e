import Mathlib.Data.Nat.ModEq

/-
  Sums with end-around carry.

  A number in base `b` is folded by adding its high part to
  its last digit. Folding keeps the number modulo `b - 1`, so
  a number and the complement of its fold fold to `b - 1`.

  Key definitions include:
    * `EndAround.fold`

  Key rules include:
    * `EndAround.fold_modEq`
    * `EndAround.fold_fold_lt`
    * `EndAround.fold_complement`
-/

namespace EndAround

variable {b x : Nat}

/- The carries of one digit are added to it. -/
def fold (b x : Nat) : Nat :=
  x % b + x / b

theorem fold_modEq
    (hBase : 1 ≤ b)
    (x : Nat) :
    fold b x ≡ x [MOD b - 1] := by
  have hOne : 1 ≡ b [MOD b - 1] :=
    (Nat.modEq_iff_dvd' hBase).mpr (Nat.dvd_refl _)
  calc
    fold b x = x % b + 1 * (x / b) := by
      rw [fold, Nat.one_mul]
    _ ≡ x % b + b * (x / b) [MOD b - 1] :=
      (hOne.mul_right _).add_left _
    _ = x := Nat.mod_add_div x b

theorem fold_of_lt
    (hLt : x < b) :
    fold b x = x := by
  rw [fold, Nat.mod_eq_of_lt hLt, Nat.div_eq_of_lt hLt,
    Nat.add_zero]

theorem fold_pos
    (hPos : 0 < x) :
    0 < fold b x := by
  have hSplit := Nat.mod_add_div x b
  rw [Nat.pos_iff_ne_zero] at hPos ⊢
  intro hZero
  rcases Nat.add_eq_zero_iff.mp hZero with ⟨hDigit, hHigh⟩
  rw [hDigit, hHigh, Nat.mul_zero] at hSplit
  exact hPos hSplit.symm

/- Two digits are folded to one by two folds. -/
theorem fold_fold_lt
    (hBase : 2 ≤ b)
    (hTwo : x < b * b) :
    fold b (fold b x) < b := by
  have hDigit : x % b < b := Nat.mod_lt x (by omega)
  have hHigh : x / b < b := Nat.div_lt_of_lt_mul hTwo
  have hFold : fold b x ≤ b + (b - 2) := by
    unfold fold
    omega
  by_cases hLt : fold b x < b
  · rw [fold_of_lt hLt]
    exact hLt
  · have hOne : fold b x / b = 1 := by
      apply Nat.div_eq_of_lt_le <;> omega
    have hMod := Nat.mod_add_div (fold b x) b
    rw [hOne, Nat.mul_one] at hMod
    rw [fold, hOne]
    omega

/- Two numbers that fold to one digit are congruent. -/
theorem modEq_of_fold_fold
    {y : Nat}
    (hBase : 1 ≤ b)
    (hFold : fold b (fold b x) = fold b (fold b y)) :
    x ≡ y [MOD b - 1] := by
  have hTwice : ∀ z, fold b (fold b z) ≡ z [MOD b - 1] :=
    fun z => (fold_modEq hBase _).trans (fold_modEq hBase z)
  exact (hTwice x).symm.trans (hFold ▸ hTwice y)

/- A power of two is no multiple of the greatest digit. -/
theorem not_modEq_add_pow
    {k n : Nat}
    (hn : 2 ≤ n)
    (hk : k < n) :
    ¬ x + 2 ^ k ≡ x [MOD 2 ^ n - 1] := by
  intro hMod
  have hZero : 2 ^ k ≡ 0 [MOD 2 ^ n - 1] :=
    Nat.ModEq.add_left_cancel' x hMod
  have hLe := Nat.le_of_dvd (Nat.two_pow_pos k)
    (Nat.modEq_zero_iff_dvd.mp hZero)
  have hTwice : 2 ^ (k + 1) ≤ 2 ^ n :=
    Nat.pow_le_pow_right (by omega) hk
  have hFour : 2 ^ 2 ≤ 2 ^ n :=
    Nat.pow_le_pow_right (by omega) hn
  rw [Nat.pow_succ] at hTwice
  omega

/- The only digits that are multiples of `b - 1` -/
theorem eq_of_modEq_zero
    (hPos : 0 < x)
    (hLt : x < b)
    (hMod : x ≡ 0 [MOD b - 1]) :
    x = b - 1 := by
  have hDvd := Nat.modEq_zero_iff_dvd.mp hMod
  have hLe := Nat.le_of_dvd hPos hDvd
  omega

/-
  A sum and the complement of what it folds to fold to the
  greatest digit.
-/
theorem fold_complement
    (hBase : 2 ≤ b)
    (hPos : 0 < x)
    (hTwo : x + (b - 1) < b * b) :
    fold b (fold b (x + (b - 1 - fold b (fold b x)))) = b - 1 := by
  have hOne : 1 ≤ b := by omega
  have hLt : fold b (fold b x) < b := by
    apply fold_fold_lt hBase
    omega
  generalize hc : fold b (fold b x) = c at *
  have hMod : c ≡ x [MOD b - 1] := by
    rw [← hc]
    exact (fold_modEq hOne _).trans (fold_modEq hOne _)
  have hSum : x + (b - 1 - c) ≡ 0 [MOD b - 1] := by
    calc
      x + (b - 1 - c) ≡ c + (b - 1 - c) [MOD b - 1] :=
        hMod.symm.add_right _
      _ = b - 1 := by omega
      _ ≡ 0 [MOD b - 1] :=
        Nat.modEq_zero_iff_dvd.mpr (Nat.dvd_refl _)
  apply eq_of_modEq_zero
  · exact fold_pos (fold_pos (by omega))
  · apply fold_fold_lt hBase
    omega
  · exact ((fold_modEq hOne _).trans (fold_modEq hOne _)).trans
      hSum

end EndAround
