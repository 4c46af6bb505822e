import FeatherOS.Kmalloc
import FeatherOS.Library.Words
import FeatherOS.Library.DigitalLine
import Mathlib.Algebra.Order.Ring.Abs
import Mathlib.Algebra.Order.Ring.Int
import Mathlib.Data.List.Range

/-
  Bresenham's lines.

  `fb_draw_line` keeps one error term for both coordinates.
  The pixels are the calls of `fb_putpixel`; the loop has a
  bound here, and there is no result if it does not end or if
  an `int` overflows.

  Key definitions include:
    * `lineTurn`
    * `fbDrawLine`
    * `LineNext`

  Key theorems include:
    * `lineLoop_states`
    * `lineTurn_flat`
    * `lineTurn_steep`
    * `fbDrawLine_exact`
-/

namespace FeatherOS

open CheckedInt (Fits int int_of_fits)

--------------------
-- Drawing
--------------------

/- A call of `fb_putpixel` -/
structure PutPixel where
  x : Int
  y : Int
  color : U32
  deriving DecidableEq

/- What the loop does not change -/
structure LineParams where
  x2 : Int
  y2 : Int
  color : U32
  dx : Int
  dy : Int
  sx : Int
  sy : Int

structure LineState where
  x1 : Int
  y1 : Int
  err : Int

def lineStepX
    (p : LineParams)
    (s : LineState) : Option LineState := do
  let err ← int (s.err - p.dy)
  let x1 ← int (s.x1 + p.sx)
  return { s with x1 := x1, err := err }

def lineStepY
    (p : LineParams)
    (s : LineState) : Option LineState := do
  let err ← int (s.err + p.dx)
  let y1 ← int (s.y1 + p.sy)
  return { s with y1 := y1, err := err }

def lineTurn
    (p : LineParams)
    (s : LineState) : Option LineState := do
  let e2 := s.err
  let low ← int (-p.dx)
  let s ← if e2 > low then lineStepX p s else some s
  if e2 < p.dy then lineStepY p s else some s

def LineState.pixel
    (s : LineState)
    (color : U32) : PutPixel :=
  ⟨s.x1, s.y1, color⟩

def lineLoop
    (p : LineParams) :
    Nat → LineState → Option (List PutPixel)
  | 0, _ => none
  | turns + 1, s =>
      if s.x1 = p.x2 ∧ s.y1 = p.y2 then
        some [s.pixel p.color]
      else do
        let t ← lineTurn p s
        let rest ← lineLoop p turns t
        return s.pixel p.color :: rest

/- `if (dx < 0) dx = -dx` -/
def lineExtent (d : Int) : Option Int :=
  if d < 0 then int (-d) else some d

/- `(dx > dy ? dx : -dy) / 2` -/
def lineError (dx dy : Int) : Option Int := do
  let e ← if dx > dy then some dx else int (-dy)
  return e.tdiv 2

def fbDrawLine
    (turns : Nat)
    (x1 y1 x2 y2 : Int)
    (color : U32) : Option (List PutPixel) := do
  let dx ← int (x2 - x1)
  let dy ← int (y2 - y1)
  let sx := if dx > 0 then 1 else -1
  let sy := if dy > 0 then 1 else -1
  let dx ← lineExtent dx
  let dy ← lineExtent dy
  let err ← lineError dx dy
  lineLoop ⟨x2, y2, color, dx, dy, sx, sy⟩ turns ⟨x1, y1, err⟩

/-
  One pixel after another on the way from `(x1, y1)` to
  `(x2, y2)`
-/
structure LineNext
    (x1 y1 x2 y2 : Int)
    (p q : PutPixel) : Prop where
  nearX : |q.x - p.x| ≤ 1
  nearY : |q.y - p.y| ≤ 1
  alongX : |y2 - y1| ≤ |x2 - x1| → q.x - p.x = (x2 - x1).sign
  alongY : |x2 - x1| ≤ |y2 - y1| → q.y - p.y = (y2 - y1).sign

--------------------
-- The Loop
--------------------

/- A sequence of states, of which the last one is at the end -/
theorem lineLoop_states
    {p : LineParams}
    (states : Nat → LineState)
    {n : Nat}
    (hTurn : ∀ k < n, lineTurn p (states k) = some (states (k + 1)))
    (hMore : ∀ k < n, ¬ ((states k).x1 = p.x2 ∧ (states k).y1 = p.y2))
    (hEnd : (states n).x1 = p.x2 ∧ (states n).y1 = p.y2)
    (more : Nat)
    {k left : Nat}
    (hLeft : k + left = n) :
    lineLoop p (left + 1 + more) (states k) =
      some ((List.range' k (left + 1)).map
        fun i => (states i).pixel p.color) := by
  induction left generalizing k with
  | zero =>
      have hAt : k = n := hLeft
      rw [Nat.zero_add, Nat.add_comm, lineLoop, hAt, if_pos hEnd]
      rfl
  | succ left ih =>
      have hRest := @ih (k + 1) (by omega)
      rw [show left + 1 + 1 + more = left + 1 + more + 1 by omega,
        lineLoop, if_neg (hMore k (by omega)),
        hTurn k (by omega), Option.bind_eq_bind, Option.bind_some,
        hRest]
      rfl

--------------------
-- One Turn
--------------------

/- What the loop starts with -/
structure LineBounds
    (p : LineParams)
    (x1 y1 : Int) : Prop where
  stepX : p.sx = 1 ∨ p.sx = -1
  stepY : p.sy = 1 ∨ p.sy = -1
  extentX : 0 ≤ p.dx ∧ p.dx ≤ 1073741824
  extentY : 0 ≤ p.dy ∧ p.dy ≤ 1073741824
  startX : |x1| ≤ 536870912
  startY : |y1| ≤ 536870912
  leadsX : p.sx * p.dx = p.x2 - x1
  leadsY : p.sy * p.dy = p.y2 - y1

/- Nothing overflows in a turn. -/
structure LineRoom
    (p : LineParams)
    (s : LineState) : Prop where
  extentX : 0 ≤ p.dx ∧ p.dx ≤ 1073741824
  extentY : 0 ≤ p.dy ∧ p.dy ≤ 1073741824
  nextX : Fits (s.x1 + p.sx)
  nextY : Fits (s.y1 + p.sy)
  error : -1073741824 ≤ s.err ∧ s.err < 1073741824

section OneTurn

variable {p : LineParams}
variable {s : LineState}

theorem lineTurn_low
    (hRoom : LineRoom p s) :
    int (-p.dx) = some (-p.dx) := by
  have hX := hRoom.extentX
  exact int_of_fits ⟨by omega, by omega⟩

theorem lineStepX_eq
    (hRoom : LineRoom p s) :
    lineStepX p s =
      some { s with x1 := s.x1 + p.sx, err := s.err - p.dy } := by
  have hY := hRoom.extentY
  have hError := hRoom.error
  rw [lineStepX, int_of_fits ⟨by omega, by omega⟩,
    int_of_fits hRoom.nextX]
  rfl

/- The error of the step in x has been taken off already. -/
theorem lineStepY_eq
    (hRoom : LineRoom p s)
    {t : LineState}
    (hSame : t.y1 = s.y1)
    (hErr : t.err = s.err ∨ t.err = s.err - p.dy) :
    lineStepY p t =
      some { t with y1 := t.y1 + p.sy, err := t.err + p.dx } := by
  have hX := hRoom.extentX
  have hY := hRoom.extentY
  have hError := hRoom.error
  have hNext := hRoom.nextY
  rw [← hSame] at hNext
  rw [lineStepY, int_of_fits ⟨by omega, by omega⟩,
    int_of_fits hNext]
  rfl

theorem lineTurn_x
    (hRoom : LineRoom p s)
    (hX : s.err > -p.dx)
    (hY : ¬ s.err < p.dy) :
    lineTurn p s =
      some ⟨s.x1 + p.sx, s.y1, s.err - p.dy⟩ := by
  simp only [lineTurn, lineTurn_low hRoom, lineStepX_eq hRoom,
    Option.bind_eq_bind, Option.bind_some, if_pos hX, if_neg hY]

theorem lineTurn_y
    (hRoom : LineRoom p s)
    (hX : ¬ s.err > -p.dx)
    (hY : s.err < p.dy) :
    lineTurn p s =
      some ⟨s.x1, s.y1 + p.sy, s.err + p.dx⟩ := by
  simp only [lineTurn, lineTurn_low hRoom, Option.bind_eq_bind,
    Option.bind_some, if_neg hX, if_pos hY]
  exact lineStepY_eq hRoom rfl (.inl rfl)

theorem lineTurn_both
    (hRoom : LineRoom p s)
    (hX : s.err > -p.dx)
    (hY : s.err < p.dy) :
    lineTurn p s =
      some ⟨s.x1 + p.sx, s.y1 + p.sy, s.err - p.dy + p.dx⟩ := by
  simp only [lineTurn, lineTurn_low hRoom, lineStepX_eq hRoom,
    Option.bind_eq_bind, Option.bind_some, if_pos hX, if_pos hY]
  exact lineStepY_eq hRoom rfl (.inr rfl)

end OneTurn

variable {n z : Int}

/- Up to `n` steps of one lead to an `int`. -/
theorem unit_mul_range
    (hUnit : z = 1 ∨ z = -1)
    (hn : 0 ≤ n) :
    -n ≤ z * n ∧ z * n ≤ n := by
  rcases hUnit with rfl | rfl
  · omega
  · omega

/- The state after `k` turns of a line wider than high -/
def flatState
    (p : LineParams)
    (x1 y1 : Int)
    (k : Nat) : LineState where
  x1 := x1 + p.sx * k
  y1 := y1 + p.sy * (DigitalLine.walk p.dx p.dy k).minor
  err := (DigitalLine.walk p.dx p.dy k).error

/- and of one at least as high as wide, where the error is negated -/
def steepState
    (p : LineParams)
    (x1 y1 : Int)
    (k : Nat) : LineState where
  x1 := x1 + p.sx * (DigitalLine.walk p.dy p.dx k).minor
  y1 := y1 + p.sy * k
  err := -(DigitalLine.walk p.dy p.dx k).error

section Turns

variable {p : LineParams}
variable {x1 y1 : Int}
variable {k : Nat}

theorem lineTurn_flat
    (hBounds : LineBounds p x1 y1)
    (hFlat : p.dy < p.dx)
    (hk : k < p.dx) :
    lineTurn p (flatState p x1 y1 k) =
      some (flatState p x1 y1 (k + 1)) := by
  rcases hBounds with ⟨hsx, hsy, hdx, hdy, hx1, hy1, _, _⟩
  have hError := DigitalLine.error_range (by omega) hFlat.le hdy.1 k
  have hMinor := @DigitalLine.minor_range p.dx p.dy k
  have hX := unit_mul_range hsx (Int.natCast_nonneg k)
  have hY := unit_mul_range hsy hMinor.1
  have hSucc : p.sx * (k + 1 : Nat) = p.sx * k + p.sx := by
    push_cast
    ring
  rw [abs_le] at hx1 hy1
  have hRoom : LineRoom p (flatState p x1 y1 k) := by
    refine ⟨hdx, hdy, ⟨?_, ?_⟩, ⟨?_, ?_⟩, ?_⟩ <;>
      simp only [flatState] <;> omega
  have hAlways : (flatState p x1 y1 k).err > -p.dx := by
    simp only [flatState]
    omega
  by_cases hLess : (DigitalLine.walk p.dx p.dy k).error < p.dy
  · rw [lineTurn_both hRoom hAlways hLess]
    simp only [flatState, DigitalLine.walk_step hLess, hSucc]
    rw [mul_add, mul_one, Int.add_assoc, Int.add_assoc]
  · rw [lineTurn_x hRoom hAlways hLess]
    simp only [flatState, DigitalLine.walk_stay hLess, hSucc]
    rw [Int.add_assoc]

theorem lineTurn_steep
    (hBounds : LineBounds p x1 y1)
    (hSteep : p.dx ≤ p.dy)
    (hk : k < p.dy) :
    lineTurn p (steepState p x1 y1 k) =
      some (steepState p x1 y1 (k + 1)) := by
  rcases hBounds with ⟨hsx, hsy, hdx, hdy, hx1, hy1, _, _⟩
  have hError := DigitalLine.error_range (by omega) hSteep hdx.1 k
  have hMinor := @DigitalLine.minor_range p.dy p.dx k
  have hX := unit_mul_range hsx hMinor.1
  have hY := unit_mul_range hsy (Int.natCast_nonneg k)
  have hSucc : p.sy * (k + 1 : Nat) = p.sy * k + p.sy := by
    push_cast
    ring
  rw [abs_le] at hx1 hy1
  have hRoom : LineRoom p (steepState p x1 y1 k) := by
    refine ⟨hdx, hdy, ⟨?_, ?_⟩, ⟨?_, ?_⟩, ?_⟩ <;>
      simp only [steepState] <;> omega
  have hAlways : (steepState p x1 y1 k).err < p.dy := by
    simp only [steepState]
    omega
  by_cases hLess : (DigitalLine.walk p.dy p.dx k).error < p.dx
  · have hStep : (steepState p x1 y1 k).err > -p.dx := by
      simp only [steepState]
      omega
    rw [lineTurn_both hRoom hStep hAlways]
    simp only [steepState, DigitalLine.walk_step hLess, hSucc]
    rw [mul_add, mul_one, Int.add_assoc, Int.add_assoc]
    congr 2
    omega
  · have hStay : ¬ (steepState p x1 y1 k).err > -p.dx := by
      simp only [steepState]
      omega
    rw [lineTurn_y hRoom hStay hAlways]
    simp only [steepState, DigitalLine.walk_stay hLess, hSucc]
    rw [Int.add_assoc]
    congr 2
    omega

end Turns

def lineState
    (p : LineParams)
    (x1 y1 : Int) :
    Nat → LineState :=
  if p.dy < p.dx then flatState p x1 y1 else steepState p x1 y1

/- The turns of the loop -/
def LineParams.extent (p : LineParams) : Nat :=
  (max p.dx p.dy).toNat

section States

variable {p : LineParams}
variable {x1 y1 : Int}
variable {k : Nat}

theorem flat_or_steep
    (p : LineParams)
    (x1 y1 : Int) :
    p.dy < p.dx ∧ lineState p x1 y1 = flatState p x1 y1 ∧
        p.extent = p.dx.toNat ∨
      p.dx ≤ p.dy ∧ lineState p x1 y1 = steepState p x1 y1 ∧
        p.extent = p.dy.toNat := by
  unfold lineState LineParams.extent
  by_cases hFlat : p.dy < p.dx
  · exact .inl ⟨hFlat, if_pos hFlat, by rw [max_eq_left hFlat.le]⟩
  · have hSteep := Int.not_lt.mp hFlat
    exact .inr ⟨hSteep, if_neg hFlat, by rw [max_eq_right hSteep]⟩

theorem lineTurn_state
    (hBounds : LineBounds p x1 y1)
    (hk : k < p.extent) :
    lineTurn p (lineState p x1 y1 k) =
      some (lineState p x1 y1 (k + 1)) := by
  rcases flat_or_steep p x1 y1 with
    ⟨hFlat, hState, hExtent⟩ | ⟨hSteep, hState, hExtent⟩
  · rw [hState]
    exact lineTurn_flat hBounds hFlat (by omega)
  · rw [hState]
    exact lineTurn_steep hBounds hSteep (by omega)

theorem lineState_start :
    (lineState p x1 y1 0).pixel p.color = ⟨x1, y1, p.color⟩ := by
  rcases flat_or_steep p x1 y1 with ⟨_, hState, _⟩ | ⟨_, hState, _⟩
  · rw [hState]
    simp [flatState, LineState.pixel, DigitalLine.walk]
  · rw [hState]
    simp [steepState, LineState.pixel, DigitalLine.walk]

/- Fewer steps of one lead elsewhere. -/
theorem unit_mul_lt
    {z m n : Int}
    (hUnit : z = 1 ∨ z = -1)
    (hLt : m < n) :
    z * m ≠ z * n := by
  rcases hUnit with rfl | rfl
  · omega
  · omega

/- Before its last turn the loop is not at the end of the line, -/
theorem lineState_more
    (hBounds : LineBounds p x1 y1)
    (hk : k < p.extent) :
    ¬ ((lineState p x1 y1 k).x1 = p.x2 ∧
      (lineState p x1 y1 k).y1 = p.y2) := by
  intro ⟨hX, hY⟩
  have hLeadsX := hBounds.leadsX
  have hLeadsY := hBounds.leadsY
  rcases flat_or_steep p x1 y1 with
    ⟨_, hState, hExtent⟩ | ⟨_, hState, hExtent⟩
  · rw [hState] at hX
    simp only [flatState] at hX
    have hLt : (k : Int) < p.dx := by omega
    apply unit_mul_lt hBounds.stepX hLt
    omega
  · rw [hState] at hY
    simp only [steepState] at hY
    have hLt : (k : Int) < p.dy := by omega
    apply unit_mul_lt hBounds.stepY hLt
    omega

/- and after it it is. -/
theorem lineState_end
    (hBounds : LineBounds p x1 y1) :
    (lineState p x1 y1 p.extent).x1 = p.x2 ∧
      (lineState p x1 y1 p.extent).y1 = p.y2 := by
  have hX := hBounds.extentX
  have hY := hBounds.extentY
  have hLeadsX := hBounds.leadsX
  have hLeadsY := hBounds.leadsY
  rcases flat_or_steep p x1 y1 with
    ⟨hFlat, hState, hExtent⟩ | ⟨hSteep, hState, hExtent⟩
  · rw [hState, hExtent]
    simp only [flatState, DigitalLine.minor_end hFlat.le hY.1,
      Int.toNat_of_nonneg hX.1]
    omega
  · rw [hState, hExtent]
    simp only [steepState, DigitalLine.minor_end hSteep hX.1,
      Int.toNat_of_nonneg hY.1]
    omega

theorem unit_mul_abs
    (hUnit : z = 1 ∨ z = -1)
    (hn : 0 ≤ n) :
    |z * n| = n := by
  rcases hUnit with rfl | rfl
  · rw [Int.one_mul, abs_of_nonneg hn]
  · rw [Int.neg_one_mul, abs_neg, abs_of_nonneg hn]

theorem unit_mul_sign
    (hUnit : z = 1 ∨ z = -1)
    (hn : 0 < n) :
    z = (z * n).sign := by
  rcases hUnit with rfl | rfl
  · rw [Int.one_mul, Int.sign_eq_one_of_pos hn]
  · rw [Int.neg_one_mul, Int.sign_neg, Int.sign_eq_one_of_pos hn]

/- The other coordinate steps at most once. -/
theorem minor_near
    {z a b : Int}
    (hUnit : z = 1 ∨ z = -1)
    (k : Nat) :
    |z * (DigitalLine.walk a b (k + 1)).minor -
      z * (DigitalLine.walk a b k).minor| ≤ 1 := by
  have hMinor := @DigitalLine.minor_succ a b k
  rw [← mul_sub, unit_mul_abs hUnit (by omega)]
  omega

theorem lineState_next
    (hBounds : LineBounds p x1 y1)
    (hk : k < p.extent) :
    LineNext x1 y1 p.x2 p.y2
      ((lineState p x1 y1 k).pixel p.color)
      ((lineState p x1 y1 (k + 1)).pixel p.color) := by
  rcases hBounds with ⟨hsx, hsy, hdx, hdy, _, _, hX, hY⟩
  have hAbsX := unit_mul_abs hsx hdx.1
  have hAbsY := unit_mul_abs hsy hdy.1
  have hOneX := unit_mul_abs hsx Int.one_nonneg
  have hOneY := unit_mul_abs hsy Int.one_nonneg
  rw [mul_one] at hOneX hOneY
  rw [hX] at hAbsX
  rw [hY] at hAbsY
  rcases flat_or_steep p x1 y1 with
    ⟨hFlat, hState, hExtent⟩ | ⟨hSteep, hState, hExtent⟩
  · have hSign := unit_mul_sign hsx (by omega : 0 < p.dx)
    rw [hX] at hSign
    have hMajor : x1 + p.sx * (k + 1 : Nat) - (x1 + p.sx * k) =
        p.sx := by
      push_cast
      ring
    rw [hState]
    constructor <;> simp only [flatState, LineState.pixel]
    · rw [hMajor]
      exact hOneX.le
    · rw [add_sub_add_left_eq_sub]
      exact minor_near hsy k
    · intro _
      rw [hMajor]
      exact hSign
    · intro hOther
      omega
  · have hSign := unit_mul_sign hsy (by omega : 0 < p.dy)
    rw [hY] at hSign
    have hMajor : y1 + p.sy * (k + 1 : Nat) - (y1 + p.sy * k) =
        p.sy := by
      push_cast
      ring
    rw [hState]
    constructor <;> simp only [steepState, LineState.pixel]
    · rw [add_sub_add_left_eq_sub]
      exact minor_near hsx k
    · rw [hMajor]
      exact hOneY.le
    · intro hOther
      -- only a diagonal is as wide as high
      have hSame : p.dx = p.dy := by omega
      have hSignX := unit_mul_sign hsx (by omega : 0 < p.dx)
      rw [hX] at hSignX
      rw [hSame, DigitalLine.minor_diagonal (by omega), ← hSignX]
      ring
    · intro _
      rw [hMajor]
      exact hSign

end States

--------------------
-- The Whole Line
--------------------

def lineParams
    (x1 y1 x2 y2 : Int)
    (color : U32) : LineParams where
  x2 := x2
  y2 := y2
  color := color
  dx := |x2 - x1|
  dy := |y2 - y1|
  sx := if x2 - x1 > 0 then 1 else -1
  sy := if y2 - y1 > 0 then 1 else -1

theorem step_unit
    (d : Int) :
    (if d > 0 then (1 : Int) else -1) = 1 ∨
      (if d > 0 then (1 : Int) else -1) = -1 := by
  by_cases hPos : d > 0
  · exact .inl (if_pos hPos)
  · exact .inr (if_neg hPos)

/- The steps lead to the end. -/
theorem step_mul_abs
    (d : Int) :
    (if d > 0 then (1 : Int) else -1) * |d| = d := by
  by_cases hPos : d > 0
  · rw [if_pos hPos, abs_of_pos hPos, Int.one_mul]
  · rw [if_neg hPos, abs_of_nonpos (Int.not_lt.mp hPos)]
    omega

theorem lineExtent_eq
    {d : Int}
    (hd : |d| ≤ 1073741824) :
    lineExtent d = some |d| := by
  rw [abs_le] at hd
  unfold lineExtent
  by_cases hNeg : d < 0
  · rw [if_pos hNeg, abs_of_neg hNeg]
    exact int_of_fits ⟨by omega, by omega⟩
  · rw [if_neg hNeg, abs_of_nonneg (Int.not_lt.mp hNeg)]

/- The error starts with half of the greater extent. -/
theorem lineError_start
    {p : LineParams}
    {x1 y1 : Int}
    (hBounds : LineBounds p x1 y1) :
    (lineError p.dx p.dy).map (LineState.mk x1 y1) =
      some (lineState p x1 y1 0) := by
  have hX := hBounds.extentX
  have hY := hBounds.extentY
  unfold lineError lineState
  by_cases hFlat : p.dx > p.dy
  · have hHalf : p.dx.tdiv 2 = p.dx / 2 :=
      Int.tdiv_eq_ediv_of_nonneg hX.1
    simp [hFlat, flatState, DigitalLine.walk, hHalf]
  · have hNeg : int (-p.dy) = some (-p.dy) :=
      int_of_fits ⟨by omega, by omega⟩
    have hHalf : (-p.dy).tdiv 2 = -(p.dy / 2) := by
      rw [Int.neg_tdiv, Int.tdiv_eq_ediv_of_nonneg hY.1]
    simp [hFlat, hNeg, steepState, DigitalLine.walk, hHalf]

section Whole

variable {x1 y1 x2 y2 : Int}
variable {color : U32}

theorem abs_sub_bound
    {a b : Int}
    (ha : |a| < 2 ^ 29)
    (hb : |b| < 2 ^ 29) :
    |b - a| ≤ 1073741824 := by
  rw [abs_lt] at ha hb
  rw [abs_le]
  omega

theorem lineParams_bounds
    (hx1 : |x1| < 2 ^ 29)
    (hy1 : |y1| < 2 ^ 29)
    (hx2 : |x2| < 2 ^ 29)
    (hy2 : |y2| < 2 ^ 29) :
    LineBounds (lineParams x1 y1 x2 y2 color) x1 y1 where
  stepX := step_unit _
  stepY := step_unit _
  extentX := ⟨abs_nonneg _, abs_sub_bound hx1 hx2⟩
  extentY := ⟨abs_nonneg _, abs_sub_bound hy1 hy2⟩
  startX := by omega
  startY := by omega
  leadsX := step_mul_abs _
  leadsY := step_mul_abs _

theorem fbDrawLine_loop
    (hx1 : |x1| < 2 ^ 29)
    (hy1 : |y1| < 2 ^ 29)
    (hx2 : |x2| < 2 ^ 29)
    (hy2 : |y2| < 2 ^ 29)
    (turns : Nat) :
    fbDrawLine turns x1 y1 x2 y2 color =
      lineLoop (lineParams x1 y1 x2 y2 color) turns
        (lineState (lineParams x1 y1 x2 y2 color) x1 y1 0) := by
  have hdx := abs_sub_bound hx1 hx2
  have hdy := abs_sub_bound hy1 hy2
  have hX := abs_le.mp hdx
  have hY := abs_le.mp hdy
  have hDiffX : int (x2 - x1) = some (x2 - x1) :=
    int_of_fits ⟨by omega, by omega⟩
  have hDiffY : int (y2 - y1) = some (y2 - y1) :=
    int_of_fits ⟨by omega, by omega⟩
  have hBounds :
      LineBounds (lineParams x1 y1 x2 y2 color) x1 y1 :=
    lineParams_bounds hx1 hy1 hx2 hy2
  rcases Option.map_eq_some_iff.mp (lineError_start hBounds) with
    ⟨err, hErr, hStart⟩
  have hErr' : lineError |x2 - x1| |y2 - y1| = some err := hErr
  simp only [fbDrawLine, hDiffX, hDiffY, lineExtent_eq hdx,
    lineExtent_eq hdy, hErr', Option.bind_eq_bind,
    Option.bind_some]
  rw [← hStart]
  rfl

end Whole

/-
  The loop ends after one pixel for each step of the greater
  extent and one more; the first and the last pixel are the end
  points, and each next one is a neighbour on the way.
-/
theorem fbDrawLine_exact
    (x1 y1 x2 y2 : Int)
    (color : U32)
    (hx1 : |x1| < 2 ^ 29)
    (hy1 : |y1| < 2 ^ 29)
    (hx2 : |x2| < 2 ^ 29)
    (hy2 : |y2| < 2 ^ 29) :
    ∃ pixels : List PutPixel,
      (∀ turns : Nat, max |x2 - x1| |y2 - y1| < turns →
        fbDrawLine turns x1 y1 x2 y2 color = some pixels) ∧
        (pixels.length : Int) =
          max |x2 - x1| |y2 - y1| + 1 ∧
        pixels.head? = some ⟨x1, y1, color⟩ ∧
        pixels.getLast? = some ⟨x2, y2, color⟩ ∧
        pixels.IsChain (LineNext x1 y1 x2 y2) := by
  let p := lineParams x1 y1 x2 y2 color
  have hBounds : LineBounds p x1 y1 :=
    lineParams_bounds hx1 hy1 hx2 hy2
  have hExtent : (p.extent : Int) = max |x2 - x1| |y2 - y1| :=
    Int.toNat_of_nonneg (le_max_of_le_left (abs_nonneg _))
  have hEnd := lineState_end hBounds
  refine ⟨(List.range (p.extent + 1)).map
    fun k => (lineState p x1 y1 k).pixel p.color, ?_, ?_, ?_, ?_, ?_⟩
  · intro turns hTurns
    rcases Nat.exists_eq_add_of_lt (by omega : p.extent < turns) with
      ⟨more, rfl⟩
    have hLoop := lineLoop_states (lineState p x1 y1)
      (fun k hk => lineTurn_state hBounds hk)
      (fun k hk => lineState_more hBounds hk) hEnd more
      (Nat.zero_add p.extent)
    rw [fbDrawLine_loop hx1 hy1 hx2 hy2, List.range_eq_range',
      Nat.add_right_comm]
    exact hLoop
  · rw [List.length_map, List.length_range]
    omega
  · rw [List.head?_map, List.head?_range, if_neg (Nat.succ_ne_zero _),
      Option.map_some, lineState_start]
    rfl
  · rw [List.getLast?_map, List.getLast?_range,
      if_neg (Nat.succ_ne_zero _), Option.map_some,
      Nat.add_sub_cancel, LineState.pixel, hEnd.1, hEnd.2]
    rfl
  · rw [List.isChain_map, List.isChain_range_succ]
    intro k hk
    exact lineState_next hBounds hk

/- A line of five pixels, up and to the left -/
theorem fbDrawLine_exact_five :
    ∃ pixels : List PutPixel,
      (∀ turns : Nat, max |(-4 : Int) - 0| |(2 : Int) - 0| < turns →
        fbDrawLine turns 0 0 (-4) 2 0xFF#32 = some pixels) ∧
        (pixels.length : Int) =
          max |(-4 : Int) - 0| |(2 : Int) - 0| + 1 ∧
        pixels.head? = some ⟨0, 0, 0xFF#32⟩ ∧
        pixels.getLast? = some ⟨-4, 2, 0xFF#32⟩ ∧
        pixels.IsChain (LineNext 0 0 (-4) 2) :=
  fbDrawLine_exact 0 0 (-4) 2 0xFF#32 (by decide) (by decide)
    (by decide) (by decide)

end FeatherOS
