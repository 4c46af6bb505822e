import FeatherOS.Framebuffer.Line
import FeatherOS.Library.FixedScale

/-
  Scaling a bitmap.

  `fb_stretch` rounds the ratio of the sizes up to the next
  part of 65536 and may then read the column or the row behind
  the last one. The products are checked as `int`s; the index
  into the bitmap and the place on the screen are left as
  numbers.

  Key definitions include:
    * `stretchPixel`
    * `fbStretch`
    * `StretchRight`

  Key theorems include:
    * `fbStretch_scaled`
    * `fbStretch_right_iff`
-/

namespace FeatherOS

open CheckedInt (Fits int int_of_fits)

--------------------
-- Stretching
--------------------

/- The bitmap and the arguments without the sizes -/
structure StretchArgs where
  src : Int → U32
  srcX : Int
  srcY : Int
  dstX : Int
  dstY : Int
  srcPitch : Int

/- What is read, and the call of `fb_putpixel` with it -/
structure StretchPixel where
  sx : Int
  sy : Int
  put : PutPixel

/- `(src_w << 16) / dst_w + 1`, for a `src_w` that is not negative -/
def stretchRatio (src dst : Int) : Option Int := do
  let shifted ← int (65536 * src)
  if dst = 0 then
    none
  else
    int (shifted.tdiv dst + 1)

def StretchArgs.pixel
    (a : StretchArgs)
    (x y sx sy : Int) : StretchPixel where
  sx := sx
  sy := sy
  put :=
    ⟨a.dstX + x, a.dstY + y,
      a.src ((a.srcY + sy) * a.srcPitch.tdiv 4 + a.srcX + sx)⟩

/- The body of both loops -/
def stretchPixel
    (a : StretchArgs)
    (xRatio yRatio : Int)
    (y x : Nat) : Option StretchPixel := do
  let sx ← int (x * xRatio)
  let sy ← int (y * yRatio)
  return a.pixel x y (sx / 65536) (sy / 65536)

def fbStretch
    (a : StretchArgs)
    (srcW srcH dstW dstH : Int) : Option (List StretchPixel) := do
  let xRatio ← stretchRatio srcW dstW
  let yRatio ← stretchRatio srcH dstH
  let rows ← (List.range dstH.toNat).mapM fun y =>
    (List.range dstW.toNat).mapM fun x =>
      stretchPixel a xRatio yRatio y x
  return rows.flatten

/-
  There is a pixel for each place of the destination, sampled
  inside the source, and further to the right or below not
  further to the left or above.
-/
structure StretchRight
    (a : StretchArgs)
    (srcW srcH dstW dstH : Int)
    (pixels : List StretchPixel) : Prop where
  covers : ∀ x y, 0 ≤ x → x < dstW → 0 ≤ y → y < dstH →
    ∃ p ∈ pixels, p.put.x = a.dstX + x ∧ p.put.y = a.dstY + y
  insideX : ∀ p ∈ pixels, 0 ≤ p.sx ∧ p.sx < srcW
  insideY : ∀ p ∈ pixels, 0 ≤ p.sy ∧ p.sy < srcH
  orderX : ∀ p ∈ pixels, ∀ q ∈ pixels,
    p.put.x ≤ q.put.x → p.sx ≤ q.sx
  orderY : ∀ p ∈ pixels, ∀ q ∈ pixels,
    p.put.y ≤ q.put.y → p.sy ≤ q.sy

--------------------
-- Sampled Coordinates
--------------------

/- A size of the source or of the destination -/
def StretchSize (n : Int) : Prop :=
  1 ≤ n ∧ n ≤ 4096

instance (n : Int) : Decidable (StretchSize n) := by
  unfold StretchSize
  infer_instance

def stretchCoord (src dst x : Int) : Int :=
  FixedScale.coord 65536 src dst x

/- The pixel at `(x, y)` of the destination -/
def StretchArgs.scaled
    (a : StretchArgs)
    (srcW srcH dstW dstH : Int)
    (y x : Nat) : StretchPixel :=
  a.pixel x y (stretchCoord srcW dstW x) (stretchCoord srcH dstH y)

variable {dst src : Int}

theorem stretchRatio_eq
    (hSrc : StretchSize src)
    (hDst : StretchSize dst) :
    stretchRatio src dst =
      some (FixedScale.ratio 65536 src dst) := by
  rcases hSrc with ⟨hSrc, hSrcMax⟩
  rcases hDst with ⟨hDst, hDstMax⟩
  have hShift : int (65536 * src) = some (65536 * src) :=
    int_of_fits ⟨by omega, by omega⟩
  have hQuotient : (65536 * src).tdiv dst = 65536 * src / dst :=
    Int.tdiv_eq_ediv_of_nonneg (by omega)
  have hLow : 0 ≤ 65536 * src / dst :=
    Int.ediv_nonneg (by omega) (by omega)
  have hHigh : 65536 * src / dst ≤ 65536 * src :=
    Int.ediv_le_self dst (by omega)
  rw [stretchRatio, hShift, Option.bind_eq_bind, Option.bind_some,
    if_neg (by omega), hQuotient]
  exact int_of_fits ⟨by omega, by omega⟩

theorem stretchProduct_eq
    (hSrc : StretchSize src)
    (hDst : StretchSize dst)
    {x : Nat}
    (hx : x < dst) :
    int (x * FixedScale.ratio 65536 src dst) =
      some (x * FixedScale.ratio 65536 src dst) := by
  rcases hSrc with ⟨hSrc, hSrcMax⟩
  rcases hDst with ⟨hDst, hDstMax⟩
  have hRatio : 0 < FixedScale.ratio 65536 src dst :=
    FixedScale.ratio_pos (by omega) (by omega) (by omega)
  have hLow := mul_nonneg (Int.natCast_nonneg x) hRatio.le
  have hHigh :
      x * FixedScale.ratio 65536 src dst ≤ 65536 * src + dst :=
    FixedScale.product_le (by omega) (by omega) (by omega) hx
  exact int_of_fits ⟨by omega, by omega⟩

theorem mapM_some
    {α β : Type}
    {f : α → Option β}
    {g : α → β}
    {l : List α}
    (hAll : ∀ x ∈ l, f x = some (g x)) :
    l.mapM f = some (l.map g) := by
  induction l with
  | nil => rfl
  | cons x l ih =>
      have hRest := ih fun y hMem =>
        hAll y (List.mem_cons_of_mem x hMem)
      rw [List.mapM_cons, hAll x List.mem_cons_self, hRest]
      rfl

/- Nothing overflows, and the coordinates are the scaled ones. -/
theorem fbStretch_scaled
    (a : StretchArgs)
    {srcW srcH dstW dstH : Int}
    (hSrcW : StretchSize srcW)
    (hSrcH : StretchSize srcH)
    (hDstW : StretchSize dstW)
    (hDstH : StretchSize dstH) :
    fbStretch a srcW srcH dstW dstH =
      some ((List.range dstH.toNat).map fun y =>
        (List.range dstW.toNat).map
          (a.scaled srcW srcH dstW dstH y)).flatten := by
  have hRows : ((List.range dstH.toNat).mapM fun y =>
      (List.range dstW.toNat).mapM fun x =>
        stretchPixel a (FixedScale.ratio 65536 srcW dstW)
          (FixedScale.ratio 65536 srcH dstH) y x) =
      some ((List.range dstH.toNat).map fun y =>
        (List.range dstW.toNat).map
          (a.scaled srcW srcH dstW dstH y)) := by
    apply mapM_some
    intro y hy
    apply mapM_some
    intro x hx
    rw [List.mem_range] at hx hy
    rw [stretchPixel, stretchProduct_eq hSrcW hDstW (by omega),
      stretchProduct_eq hSrcH hDstH (by omega)]
    rfl
  rw [fbStretch, stretchRatio_eq hSrcW hDstW,
    stretchRatio_eq hSrcH hDstH, Option.bind_eq_bind,
    Option.bind_some, Option.bind_eq_bind, Option.bind_some, hRows]
  rfl

/- The pixels are those of all places of the destination. -/
theorem mem_scaled
    {a : StretchArgs}
    {srcW srcH dstW dstH : Int}
    {p : StretchPixel} :
    p ∈ ((List.range dstH.toNat).map fun y =>
        (List.range dstW.toNat).map
          (a.scaled srcW srcH dstW dstH y)).flatten ↔
      ∃ y x : Nat, y < dstH ∧ x < dstW ∧
        a.scaled srcW srcH dstW dstH y x = p := by
  simp only [List.mem_flatten, List.mem_map, List.mem_range]
  constructor
  · rintro ⟨_, ⟨y, hy, rfl⟩, hMem⟩
    rcases List.mem_map.mp hMem with ⟨x, hx, rfl⟩
    rw [List.mem_range] at hx
    exact ⟨y, x, by omega, by omega, rfl⟩
  · rintro ⟨y, x, hy, hx, rfl⟩
    refine ⟨_, ⟨y, by omega, rfl⟩, List.mem_map.mpr ⟨x, ?_, rfl⟩⟩
    exact List.mem_range.mpr (by omega)

theorem stretchCoord_nonneg
    (hSrc : StretchSize src)
    (hDst : StretchSize dst)
    (x : Nat) :
    0 ≤ stretchCoord src dst x := by
  rcases hSrc with ⟨hSrc, _⟩
  rcases hDst with ⟨hDst, _⟩
  exact FixedScale.coord_nonneg (by omega) (by omega) (by omega)
    (Int.natCast_nonneg x)

theorem stretchCoord_mono
    (hSrc : StretchSize src)
    (hDst : StretchSize dst)
    {x y : Int}
    (hLe : x ≤ y) :
    stretchCoord src dst x ≤ stretchCoord src dst y := by
  rcases hSrc with ⟨hSrc, _⟩
  rcases hDst with ⟨hDst, _⟩
  exact FixedScale.coord_mono (by omega) (by omega) (by omega) hLe

theorem stretchCoord_inside_iff
    (hSrc : StretchSize src)
    (hDst : StretchSize dst) :
    (∀ x : Nat, x < dst → stretchCoord src dst x < src) ↔
      FixedScale.Fits 65536 src dst := by
  rcases hSrc with ⟨hSrc, _⟩
  rcases hDst with ⟨hDst, _⟩
  rw [← FixedScale.inside_iff (by omega) (by omega) (by omega)]
  constructor
  · intro hAll x hLow hx
    have hAt := hAll x.toNat (by omega)
    rw [Int.toNat_of_nonneg hLow] at hAt
    exact hAt
  · intro hAll x hx
    exact hAll x (Int.natCast_nonneg x) hx

/-
  The samples are inside the bitmap if and only if neither size
  of the destination is above the sum of the quotient and the
  remainder of the division.
-/
theorem fbStretch_right_iff
    (a : StretchArgs)
    (srcW srcH dstW dstH : Int)
    (hSrcW : StretchSize srcW)
    (hSrcH : StretchSize srcH)
    (hDstW : StretchSize dstW)
    (hDstH : StretchSize dstH) :
    (∃ pixels, fbStretch a srcW srcH dstW dstH = some pixels ∧
      StretchRight a srcW srcH dstW dstH pixels) ↔
      FixedScale.Fits 65536 srcW dstW ∧
        FixedScale.Fits 65536 srcH dstH := by
  rw [fbStretch_scaled a hSrcW hSrcH hDstW hDstH,
    ← stretchCoord_inside_iff hSrcW hDstW,
    ← stretchCoord_inside_iff hSrcH hDstH]
  constructor
  · rintro ⟨_, hPixels, hRight⟩
    rcases Option.some.inj hPixels with rfl
    have hPosW : 0 < dstW := hDstW.1
    have hPosH : 0 < dstH := hDstH.1
    constructor
    · intro x hx
      exact (hRight.insideX _
        (mem_scaled.mpr ⟨0, x, hPosH, hx, rfl⟩)).2
    · intro y hy
      exact (hRight.insideY _
        (mem_scaled.mpr ⟨y, 0, hy, hPosW, rfl⟩)).2
  · rintro ⟨hInsideX, hInsideY⟩
    refine ⟨_, rfl, ?_, ?_, ?_, ?_, ?_⟩
    · intro x y hLowX hx hLowY hy
      refine ⟨_, mem_scaled.mpr ⟨y.toNat, x.toNat, by omega,
        by omega, rfl⟩, ?_, ?_⟩
      · simp [StretchArgs.scaled, StretchArgs.pixel, hLowX]
      · simp [StretchArgs.scaled, StretchArgs.pixel, hLowY]
    · intro p hMem
      rcases mem_scaled.mp hMem with ⟨y, x, _, hx, rfl⟩
      exact ⟨stretchCoord_nonneg hSrcW hDstW x, hInsideX x hx⟩
    · intro p hMem
      rcases mem_scaled.mp hMem with ⟨y, x, hy, _, rfl⟩
      exact ⟨stretchCoord_nonneg hSrcH hDstH y, hInsideY y hy⟩
    · intro p hp q hq hLe
      rcases mem_scaled.mp hp with ⟨y, x, _, _, rfl⟩
      rcases mem_scaled.mp hq with ⟨y', x', _, _, rfl⟩
      exact stretchCoord_mono hSrcW hDstW
        (le_of_add_le_add_left hLe)
    · intro p hp q hq hLe
      rcases mem_scaled.mp hp with ⟨y, x, _, _, rfl⟩
      rcases mem_scaled.mp hq with ⟨y', x', _, _, rfl⟩
      exact stretchCoord_mono hSrcH hDstH
        (le_of_add_le_add_left hLe)

theorem fbStretch_right_three :
    (∃ pixels,
      fbStretch ⟨fun _ => 0#32, 0, 0, 0, 0, 8⟩ 2 2 3 3 =
          some pixels ∧
        StretchRight ⟨fun _ => 0#32, 0, 0, 0, 0, 8⟩ 2 2 3 3
          pixels) ↔
      FixedScale.Fits 65536 2 3 ∧ FixedScale.Fits 65536 2 3 :=
  fbStretch_right_iff _ 2 2 3 3 (by decide) (by decide) (by decide)
    (by decide)

/-
  A single pixel is scaled to 257 columns: the last one is taken
  from the column behind it.
-/
theorem fbStretch_past_column :
    ¬ ∃ pixels,
      fbStretch ⟨fun _ => 0#32, 0, 0, 0, 0, 4⟩ 1 1 257 1 =
          some pixels ∧
        StretchRight ⟨fun _ => 0#32, 0, 0, 0, 0, 4⟩ 1 1 257 1
          pixels := by
  rw [fbStretch_scaled _ (by decide) (by decide) (by decide)
    (by decide)]
  rintro ⟨_, hPixels, hRight⟩
  rcases Option.some.inj hPixels with rfl
  have hLast := (hRight.insideX _
    (mem_scaled.mpr ⟨0, 256, by decide, by decide, rfl⟩)).2
  have hBehind : ¬ stretchCoord 1 257 256 < 1 := by decide
  exact hBehind hLast

end FeatherOS
