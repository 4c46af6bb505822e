import Mathlib.Algebra.Order.Ring.Int
import Mathlib.Tactic.Ring

/-
  Scaling by a ratio in fixed point.

  A coordinate below `dst` is scaled to one of a source of the
  size `src` by the ratio of the sizes, in parts of `unit`,
  rounded down and increased by one part.

  Key definitions include:
    * `FixedScale.ratio`
    * `FixedScale.coord`
    * `FixedScale.Fits`

  Key rules include:
    * `FixedScale.product_le`
    * `FixedScale.coord_mono`
    * `FixedScale.inside_iff`
-/

namespace FixedScale

def ratio (unit src dst : Int) : Int :=
  unit * src / dst + 1

def coord (unit src dst x : Int) : Int :=
  x * ratio unit src dst / unit

/- The quotient and the remainder add up to the size. -/
def Fits (unit src dst : Int) : Prop :=
  dst ≤ unit * src / dst + unit * src % dst

variable {unit src dst x y : Int}

theorem ratio_pos
    (hUnit : 0 < unit)
    (hSrc : 0 ≤ src)
    (hDst : 0 < dst) :
    0 < ratio unit src dst := by
  have hQuotient :=
    Int.ediv_nonneg (mul_nonneg hUnit.le hSrc) hDst.le
  unfold ratio
  omega

/- No product on the way is much greater than the source. -/
theorem product_le
    (hUnit : 0 < unit)
    (hSrc : 0 ≤ src)
    (hDst : 0 < dst)
    (hx : x < dst) :
    x * ratio unit src dst ≤ unit * src + dst := by
  have hRatio := ratio_pos hUnit hSrc hDst
  have hDivide := Int.mul_ediv_add_emod (unit * src) dst
  have hRest := Int.emod_nonneg (unit * src) hDst.ne'
  calc x * ratio unit src dst
      ≤ dst * ratio unit src dst :=
        mul_le_mul_of_nonneg_right hx.le hRatio.le
    _ = dst * (unit * src / dst) + dst := by
        rw [ratio, mul_add, mul_one]
    _ ≤ unit * src + dst := by omega

theorem coord_nonneg
    (hUnit : 0 < unit)
    (hSrc : 0 ≤ src)
    (hDst : 0 < dst)
    (hx : 0 ≤ x) :
    0 ≤ coord unit src dst x :=
  Int.ediv_nonneg (mul_nonneg hx (ratio_pos hUnit hSrc hDst).le)
    hUnit.le

theorem coord_mono
    (hUnit : 0 < unit)
    (hSrc : 0 ≤ src)
    (hDst : 0 < dst)
    (hLe : x ≤ y) :
    coord unit src dst x ≤ coord unit src dst y := by
  apply Int.ediv_le_ediv hUnit
  exact mul_le_mul_of_nonneg_right hLe
    (ratio_pos hUnit hSrc hDst).le

/- The last coordinate decides. -/
theorem last_lt_iff
    (hUnit : 0 < unit) :
    coord unit src dst (dst - 1) < src ↔ Fits unit src dst := by
  have hDivide := Int.mul_ediv_add_emod (unit * src) dst
  have hLast : (dst - 1) * ratio unit src dst =
      dst * (unit * src / dst) + dst - unit * src / dst - 1 := by
    rw [ratio]
    ring
  rw [coord, Int.ediv_lt_iff_lt_mul hUnit, hLast, mul_comm src unit]
  unfold Fits
  omega

theorem inside_iff
    (hUnit : 0 < unit)
    (hSrc : 0 ≤ src)
    (hDst : 0 < dst) :
    (∀ x, 0 ≤ x → x < dst → coord unit src dst x < src) ↔
      Fits unit src dst := by
  rw [← last_lt_iff hUnit]
  constructor
  · intro hAll
    exact hAll (dst - 1) (by omega) (by omega)
  · intro hLast x _ hx
    have hLe : x ≤ dst - 1 := by omega
    exact lt_of_le_of_lt (coord_mono hUnit hSrc hDst hLe) hLast

end FixedScale
