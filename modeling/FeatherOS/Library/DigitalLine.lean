import Mathlib.Data.Int.Order.Basic
import Mathlib.Tactic.Ring

/-
  Lines on a grid.

  A line of extents `a` and `b` with `b ≤ a` is walked in `a`
  steps of the greater coordinate. An error term says in which
  of them the other coordinate steps as well; after the last
  one it has stepped exactly `b` times.

  Key definitions include:
    * `DigitalLine.walk`

  Key rules include:
    * `DigitalLine.error_range`
    * `DigitalLine.minor_succ`
    * `DigitalLine.minor_end`
-/

namespace DigitalLine

/- Steps of the smaller extent so far, and the error -/
structure Walk where
  minor : Int
  error : Int

def walk
    (a b : Int) :
    Nat → Walk
  | 0 => ⟨0, a / 2⟩
  | k + 1 =>
      let w := walk a b k
      if w.error < b then
        ⟨w.minor + 1, w.error - b + a⟩
      else
        ⟨w.minor, w.error - b⟩

variable {a b : Int}

theorem walk_step
    {k : Nat}
    (hLess : (walk a b k).error < b) :
    walk a b (k + 1) =
      ⟨(walk a b k).minor + 1, (walk a b k).error - b + a⟩ := by
  rw [walk, if_pos hLess]

theorem walk_stay
    {k : Nat}
    (hLess : ¬ (walk a b k).error < b) :
    walk a b (k + 1) =
      ⟨(walk a b k).minor, (walk a b k).error - b⟩ := by
  rw [walk, if_neg hLess]

theorem error_range
    (hPos : 0 < a)
    (hLe : b ≤ a)
    (hMin : 0 ≤ b)
    (k : Nat) :
    0 ≤ (walk a b k).error ∧ (walk a b k).error < a := by
  induction k with
  | zero =>
      simp only [walk]
      omega
  | succ k ih =>
      by_cases hLess : (walk a b k).error < b
      · simp only [walk_step hLess]
        omega
      · simp only [walk_stay hLess]
        omega

/- The smaller coordinate steps at most once in a step. -/
theorem minor_succ
    (k : Nat) :
    (walk a b k).minor ≤ (walk a b (k + 1)).minor ∧
      (walk a b (k + 1)).minor ≤ (walk a b k).minor + 1 := by
  by_cases hLess : (walk a b k).error < b
  · simp only [walk_step hLess]
    omega
  · simp only [walk_stay hLess]
    omega

theorem minor_range
    (k : Nat) :
    0 ≤ (walk a b k).minor ∧ (walk a b k).minor ≤ k := by
  induction k with
  | zero => exact ⟨Int.le_refl 0, Int.le_refl 0⟩
  | succ k ih =>
      have hSucc := @minor_succ a b k
      omega

/- The error measures the distance from the line. -/
theorem walk_balance
    (k : Nat) :
    a * (walk a b k).minor =
      (walk a b k).error - a / 2 + k * b := by
  induction k with
  | zero => simp [walk]
  | succ k ih =>
      by_cases hLess : (walk a b k).error < b
      · simp only [walk_step hLess, mul_add, ih]
        push_cast
        ring
      · simp only [walk_stay hLess, ih]
        push_cast
        ring

/- After the last step it has stepped `b` times. -/
theorem minor_end
    (hLe : b ≤ a)
    (hMin : 0 ≤ b) :
    (walk a b a.toNat).minor = b := by
  rcases (le_trans hMin hLe).eq_or_lt with hZero | hPos
  · have hSame : b = 0 := by omega
    rw [← hZero, hSame]
    rfl
  · have hRange := error_range hPos hLe hMin a.toNat
    have hBalance := @walk_balance a b a.toNat
    rw [Int.toNat_of_nonneg hPos.le] at hBalance
    have hDiff : a * ((walk a b a.toNat).minor - b) =
        (walk a b a.toNat).error - a / 2 := by
      rw [mul_sub, hBalance]
      ring
    have hDvd : a ∣ (walk a b a.toNat).error - a / 2 :=
      ⟨_, hDiff.symm⟩
    have hZero : (walk a b a.toNat).error - a / 2 = 0 := by
      apply Int.eq_zero_of_abs_lt_dvd hDvd
      rw [abs_lt]
      omega
    rw [hZero] at hDiff
    have hSame := (mul_eq_zero.mp hDiff).resolve_left hPos.ne'
    omega

/- On a diagonal every step is one of both coordinates. -/
theorem minor_diagonal
    (hPos : 0 < a)
    (k : Nat) :
    (walk a a (k + 1)).minor = (walk a a k).minor + 1 := by
  have hRange := error_range hPos (le_refl a) hPos.le k
  simp only [walk_step hRange.2]

end DigitalLine
