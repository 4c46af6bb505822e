import FeatherOS.Kmalloc
import FeatherOS.Library.CyclicBuffer
import FeatherOS.Library.TextRows
import Mathlib.Data.List.Induction

/-
  The text screen of `kernel/drivers/vga.c`.

  Characters go into a buffer of 25 rows of 80 entries. When
  the last row is left the screen is scrolled in place.

  Key definitions include:
    * `Vga`
    * `vgaClear`
    * `vgaScroll`
    * `vgaPutchar`
    * `VgaHolds`

  Key theorems include:
    * `moveRows_eq`
    * `vgaNewRow_holds`
    * `vgaPutchar_holds`
    * `vgaPutchar_layout`
-/

namespace FeatherOS

open CyclicBuffer (copy)
open TextRows (rows rowsFrom shown)

--------------------
-- State
--------------------

/-
  The entries from `VGA_MEMORY` on, the globals, and the
  registers behind the two ports
-/
structure Vga where
  buffer : Nat → U16
  vgaX : Nat
  vgaY : Nat
  vgaColor : U8
  crtcIndex : U8
  crtc : U8 → U8

/- VGA_WIDTH and VGA_HEIGHT -/
def vgaWidth : Nat := 80
def vgaHeight : Nat := 25

/- VGA_CTRL_PORT and VGA_DATA_PORT -/
def vgaCtrlPort : U16 := 0x3D4#16
def vgaDataPort : U16 := 0x3D5#16

/- The character ` `, which unused cells hold -/
def vgaSpace : U8 := 0x20#8

def isNewline (c : U8) : Bool :=
  c = 0x0A#8

def vgaEntry (c color : U8) : U16 :=
  c.zeroExtend 16 ||| color.zeroExtend 16 <<< 8

def vgaGetEntry
    (s : Vga)
    (x y : Nat) :
    U16 :=
  s.buffer (y * vgaWidth + x)

def vgaSetEntry
    (s : Vga)
    (x y : Nat)
    (entry : U16) :
    Vga :=
  { s with
    buffer :=
      Function.update s.buffer (y * vgaWidth + x) entry }

/- `outb`: a register is selected, or written. -/
def vgaOutb
    (s : Vga)
    (port : U16)
    (value : U8) :
    Vga :=
  if port = vgaCtrlPort then
    { s with crtcIndex := value }
  else if port = vgaDataPort then
    { s with crtc := Function.update s.crtc s.crtcIndex value }
  else
    s

--------------------
-- Screen
--------------------

/- Spaces in the first cells of a row -/
def clearRow
    (s : Vga)
    (y : Nat) :
    Nat → Vga
  | 0 => s
  | x + 1 =>
      let s := clearRow s y x
      vgaSetEntry s x y (vgaEntry vgaSpace s.vgaColor)

def clearRows (s : Vga) : Nat → Vga
  | 0 => s
  | y + 1 => clearRow (clearRows s y) y vgaWidth

def vgaClear (s : Vga) : Vga :=
  { clearRows s vgaHeight with
    vgaX := 0
    vgaY := 0 }

/- The first cells of a row get those of the row below. -/
def moveRow
    (s : Vga)
    (y : Nat) :
    Nat → Vga
  | 0 => s
  | x + 1 =>
      let s := moveRow s y x
      vgaSetEntry s x y (vgaGetEntry s x (y + 1))

def moveRows (s : Vga) : Nat → Vga
  | 0 => s
  | y + 1 => moveRow (moveRows s y) y vgaWidth

def vgaScroll (s : Vga) : Vga :=
  let s := moveRows s (vgaHeight - 1)
  let s := clearRow s (vgaHeight - 1) vgaWidth
  { s with vgaY := vgaHeight - 1 }

/- `uint16_t` holds what is left of a sum. -/
def u16 (n : Nat) : Nat :=
  n % 2 ^ 16

def vgaSetCursor
    (s : Vga)
    (x y : Nat) :
    Vga :=
  let s := { s with
    vgaX := if x < vgaWidth then x else vgaWidth - 1
    vgaY := if y < vgaHeight then y else vgaHeight - 1 }
  let pos := BitVec.ofNat 16 (s.vgaY * vgaWidth + s.vgaX)
  let s := vgaOutb s vgaCtrlPort 0x0F#8
  let s := vgaOutb s vgaDataPort (pos.truncate 8)
  let s := vgaOutb s vgaCtrlPort 0x0E#8
  vgaOutb s vgaDataPort ((pos >>> 8).truncate 8)

/- The start of the next row -/
def vgaNewRow (s : Vga) : Vga :=
  { s with
    vgaX := 0
    vgaY := u16 (s.vgaY + 1) }

/- What `vga_putchar` does for its character -/
def vgaPlace
    (s : Vga)
    (c : U8) :
    Vga :=
  if c = 0x0A#8 then
    vgaNewRow s
  else if c = 0x0D#8 then
    { s with vgaX := 0 }
  else if c = 0x09#8 then
    -- the next multiple of 8
    let x := u16 ((s.vgaX + 8) / 8 * 8)
    if x ≥ vgaWidth then vgaNewRow s
    else { s with vgaX := x }
  else if c = 0x08#8 then
    if 0 < s.vgaX then
      vgaSetEntry { s with vgaX := s.vgaX - 1 }
        (s.vgaX - 1) s.vgaY (vgaEntry vgaSpace s.vgaColor)
    else
      s
  else
    { vgaSetEntry s s.vgaX s.vgaY (vgaEntry c s.vgaColor) with
      vgaX := u16 (s.vgaX + 1) }

/- "Handle line wrap and scrolling" -/
def vgaWrap (s : Vga) : Vga :=
  let s := if s.vgaX ≥ vgaWidth then vgaNewRow s else s
  if s.vgaY ≥ vgaHeight then vgaScroll s else s

def vgaPutchar
    (s : Vga)
    (c : U8) :
    Vga :=
  let s := vgaWrap (vgaPlace s c)
  vgaSetCursor s s.vgaX s.vgaY

--------------------
-- Loops
--------------------

section Loops

variable (s : Vga)

theorem clearRow_eq
    (y n : Nat) :
    clearRow s y n =
      { s with
        buffer := copy s.buffer (y * vgaWidth)
          (fun _ => vgaEntry vgaSpace s.vgaColor) 0 n } := by
  induction n with
  | zero =>
      rw [CyclicBuffer.copy_zero]
      rfl
  | succ x ih =>
      rw [clearRow, ih, CyclicBuffer.copy_succ]
      rfl

theorem clearRows_eq
    (m : Nat) :
    clearRows s m =
      { s with
        buffer := copy s.buffer 0
          (fun _ => vgaEntry vgaSpace s.vgaColor) 0
          (m * vgaWidth) } := by
  induction m with
  | zero =>
      rw [Nat.zero_mul, CyclicBuffer.copy_zero]
      rfl
  | succ y ih =>
      rw [clearRows, ih, clearRow_eq]
      congr 1
      funext i
      simp only [copy, Nat.zero_add, Nat.succ_mul]
      grind

/- Cells of the row below are not written yet. -/
theorem moveRow_eq
    {y n : Nat}
    (hn : n ≤ vgaWidth) :
    moveRow s y n =
      { s with
        buffer := copy s.buffer (y * vgaWidth) s.buffer
          ((y + 1) * vgaWidth) n } := by
  induction n with
  | zero =>
      rw [CyclicBuffer.copy_zero]
      rfl
  | succ x ih =>
      have hBelow : copy s.buffer (y * vgaWidth) s.buffer
          ((y + 1) * vgaWidth) x ((y + 1) * vgaWidth + x) =
          s.buffer ((y + 1) * vgaWidth + x) := by
        refine CyclicBuffer.copy_outside (.inr ?_)
        rw [Nat.succ_mul]
        omega
      rw [moveRow, ih (Nat.le_of_succ_le hn),
        CyclicBuffer.copy_succ]
      simp only [vgaGetEntry, vgaSetEntry, hBelow]

theorem moveRows_eq
    (m : Nat) :
    moveRows s m =
      { s with
        buffer := copy s.buffer 0 s.buffer vgaWidth
          (m * vgaWidth) } := by
  induction m with
  | zero =>
      rw [Nat.zero_mul, CyclicBuffer.copy_zero]
      rfl
  | succ y ih =>
      rw [moveRows, ih, moveRow_eq _ (Nat.le_refl _)]
      congr 1
      funext i
      simp only [copy, Nat.zero_add, Nat.succ_mul]
      grind

theorem vgaScroll_eq :
    vgaScroll s =
      { s with
        buffer :=
          copy
            (copy s.buffer 0 s.buffer vgaWidth
              ((vgaHeight - 1) * vgaWidth))
            ((vgaHeight - 1) * vgaWidth)
            (fun _ => vgaEntry vgaSpace s.vgaColor) 0 vgaWidth
        vgaY := vgaHeight - 1 } := by
  simp only [vgaScroll, moveRows_eq, clearRow_eq]

end Loops

--------------------
-- What The Screen Shows
--------------------

/- The last rows, in the colour of `s₀`; nothing else -/
structure VgaShows
    (s₀ s : Vga)
    (rows : List (List U8)) : Prop where
  color_eq : s.vgaColor = s₀.vgaColor
  cells : ∀ y < vgaHeight, ∀ x < vgaWidth,
    s.buffer (y * vgaWidth + x) =
      vgaEntry (shown vgaHeight vgaSpace rows x y) s₀.vgaColor
  outside : ∀ i, vgaHeight * vgaWidth ≤ i →
    s.buffer i = s₀.buffer i

/- The cursor stands behind the last row. -/
structure VgaHolds
    (s₀ s : Vga)
    (done : List (List U8))
    (last : List U8) : Prop where
  shows : VgaShows s₀ s (done ++ [last])
  last_lt : last.length < vgaWidth
  x_eq : s.vgaX = last.length
  y_eq : s.vgaY = min done.length (vgaHeight - 1)

section Shows

variable {s₀ s t : Vga}
variable {done rows : List (List U8)}
variable {last : List U8}
variable {x y : Nat}

/- A cell of the first rows -/
theorem cell_lt
    {height : Nat}
    (hy : y < height)
    (hx : x < vgaWidth) :
    y * vgaWidth + x < height * vgaWidth := by
  unfold vgaWidth at *
  omega

theorem cell_inj
    {x' y' : Nat}
    (hx : x < vgaWidth)
    (hx' : x' < vgaWidth)
    (hSame : y * vgaWidth + x = y' * vgaWidth + x') :
    y = y' ∧ x = x' := by
  unfold vgaWidth at *
  omega

theorem VgaShows.congr
    (hShows : VgaShows s₀ s rows)
    (hBuffer : t.buffer = s.buffer)
    (hColor : t.vgaColor = s.vgaColor) :
    VgaShows s₀ t rows where
  color_eq := hColor.trans hShows.color_eq
  cells := by
    rw [hBuffer]
    exact hShows.cells
  outside := by
    rw [hBuffer]
    exact hShows.outside

theorem vgaClear_shows (s : Vga) :
    VgaShows s (vgaClear s) [[]] := by
  simp only [vgaClear, clearRows_eq]
  refine ⟨rfl, ?_, ?_⟩
  · intro y hy x hx
    have hBlank : shown vgaHeight vgaSpace [[]] x y =
        vgaSpace := by
      rw [TextRows.shown_eq]
      cases y <;> rfl
    have hIn := cell_lt hy hx
    rw [hBlank]
    simp only [copy, Nat.zero_le, Nat.zero_add, hIn, true_and,
      if_true]
  · intro i hi
    dsimp only
    rw [CyclicBuffer.copy_outside (.inr (by rwa [Nat.zero_add]))]

/- A character is put behind the last row. -/
theorem VgaShows.typed
    (hShows : VgaShows s₀ s (done ++ [last]))
    (hLast : last.length < vgaWidth)
    (c : U8) :
    VgaShows s₀
      (vgaSetEntry s last.length
        (min done.length (vgaHeight - 1))
        (vgaEntry c s.vgaColor))
      (done ++ [last ++ [c]]) := by
  have hRow : min done.length (vgaHeight - 1) < vgaHeight :=
    Nat.lt_of_le_of_lt (Nat.min_le_right _ _) (by decide)
  refine ⟨hShows.color_eq, ?_, ?_⟩
  · intro y hy x hx
    rw [TextRows.shown_type (by decide)]
    simp only [vgaSetEntry, Function.update_apply,
      hShows.color_eq]
    by_cases hHere : y = min done.length (vgaHeight - 1) ∧
        x = last.length
    · rw [if_pos hHere, if_pos (by rw [hHere.1, hHere.2])]
    · rw [if_neg hHere, if_neg, hShows.cells y hy x hx]
      exact fun hSame => hHere (cell_inj hx hLast hSame)
  · intro i hi
    have hCell := cell_lt hRow hLast
    simp only [vgaSetEntry]
    rw [Function.update_of_ne (by omega), hShows.outside i hi]

/- There is room for a new row. -/
theorem VgaShows.opened
    (hShows : VgaShows s₀ s rows)
    (hRoom : rows.length < vgaHeight) :
    VgaShows s₀ s (rows ++ [[]]) where
  color_eq := hShows.color_eq
  cells y hy x hx := by
    rw [TextRows.shown_open hRoom]
    exact hShows.cells y hy x hx
  outside := hShows.outside

theorem VgaShows.scrolled
    (hShows : VgaShows s₀ s rows)
    (hFull : vgaHeight ≤ rows.length) :
    VgaShows s₀ (vgaScroll s) (rows ++ [[]]) := by
  rw [vgaScroll_eq]
  have hLastRow : (vgaHeight - 1) * vgaWidth + vgaWidth =
      vgaHeight * vgaWidth :=
    rfl
  refine ⟨hShows.color_eq, ?_, ?_⟩
  · intro y hy x hx
    rw [TextRows.shown_scroll hFull]
    by_cases hLast : y + 1 < vgaHeight
    · have hUpper := cell_lt (Nat.lt_sub_of_add_lt hLast) hx
      have hCell := hShows.cells (y + 1) hLast x hx
      have hBelow : (y + 1) * vgaWidth + x =
          vgaWidth + (y * vgaWidth + x - 0) := by
        rw [Nat.succ_mul]
        omega
      rw [if_pos hLast, ← hCell, hBelow]
      simp only
      rw [CyclicBuffer.copy_outside (.inl (by omega))]
      have hIn : 0 ≤ y * vgaWidth + x ∧
          y * vgaWidth + x <
            0 + (vgaHeight - 1) * vgaWidth := by
        omega
      simp only [copy, if_pos hIn]
    · have hy24 : y = vgaHeight - 1 := by omega
      rw [if_neg hLast, hy24, hShows.color_eq]
      simp only
      rw [CyclicBuffer.copy_inside hx]
  · intro i hi
    simp only
    rw [CyclicBuffer.copy_outside (.inr (by omega)),
      CyclicBuffer.copy_outside (.inr (by omega)),
      hShows.outside i hi]

/- A new row, with what follows in `vga_putchar` -/
theorem vgaNewRow_holds
    (hShows : VgaShows s₀ s rows)
    (hLength : rows.length = done.length + 1)
    (hRow : s.vgaY = min done.length (vgaHeight - 1)) :
    VgaHolds s₀
      (if (vgaNewRow s).vgaY ≥ vgaHeight then
        vgaScroll (vgaNewRow s)
      else vgaNewRow s)
      rows [] := by
  have hHeight : vgaHeight = 25 := rfl
  have hNext : (vgaNewRow s).vgaY =
      min done.length (vgaHeight - 1) + 1 := by
    simp only [vgaNewRow, hRow]
    exact Nat.mod_eq_of_lt (by omega)
  have hStart : VgaShows s₀ (vgaNewRow s) rows :=
    hShows.congr rfl rfl
  by_cases hEnd : (vgaNewRow s).vgaY ≥ vgaHeight
  · rw [if_pos hEnd]
    refine ⟨hStart.scrolled (by omega), by decide, ?_, ?_⟩
    · rw [vgaScroll_eq]
      rfl
    · simp only [vgaScroll]
      omega
  · rw [if_neg hEnd]
    refine ⟨hStart.opened (by omega), by decide, rfl, ?_⟩
    omega

end Shows

--------------------
-- The Cursor
--------------------

section Cursor

variable {s : Vga}
variable {x y : Nat}

/- The registers of the cursor: high byte and low byte -/
def Vga.cursorPos (s : Vga) : Nat :=
  (s.crtc 0x0E#8).toNat * 256 + (s.crtc 0x0F#8).toNat

theorem vgaOutb_ctrl
    (s : Vga)
    (value : U8) :
    vgaOutb s vgaCtrlPort value = { s with crtcIndex := value } :=
  if_pos rfl

theorem vgaOutb_data
    (s : Vga)
    (value : U8) :
    vgaOutb s vgaDataPort value =
      { s with
        crtc := Function.update s.crtc s.crtcIndex value } := by
  have hNe : vgaDataPort ≠ vgaCtrlPort := by decide
  rw [vgaOutb, if_neg hNe, if_pos rfl]

/- A position on the screen is set as it is. -/
theorem vgaSetCursor_eq
    (hx : x < vgaWidth)
    (hy : y < vgaHeight) :
    ∃ crtc, vgaSetCursor s x y =
        { s with
          vgaX := x
          vgaY := y
          crtcIndex := 0x0E#8
          crtc := crtc } ∧
      (vgaSetCursor s x y).cursorPos = y * vgaWidth + x := by
  have hCell := cell_lt hy hx
  have hScreen : vgaHeight * vgaWidth = 2000 := rfl
  unfold vgaSetCursor
  simp only [if_pos hx, if_pos hy, vgaOutb_ctrl, vgaOutb_data]
  refine ⟨_, rfl, ?_⟩
  have hHigh : (0x0E#8 : U8) ≠ 0x0F#8 := by decide
  simp only [Vga.cursorPos, Function.update_self,
    Function.update_of_ne hHigh.symm]
  generalize hPos : y * vgaWidth + x = pos at hCell ⊢
  simp only [BitVec.truncate_eq_setWidth, BitVec.toNat_setWidth,
    BitVec.toNat_ushiftRight, BitVec.toNat_ofNat,
    Nat.shiftRight_eq_div_pow]
  omega

end Cursor

--------------------
-- Text
--------------------

section Text

variable {s₀ s : Vga}
variable {done : List (List U8)}
variable {last : List U8}

/- Characters that only move the cursor back are left out. -/
def IsText (c : U8) : Prop :=
  c ≠ 0x0D#8 ∧ c ≠ 0x09#8 ∧ c ≠ 0x08#8

theorem VgaHolds.row_lt
    (hHolds : VgaHolds s₀ s done last) :
    s.vgaY < vgaHeight := by
  rw [hHolds.y_eq]
  exact Nat.lt_of_le_of_lt (Nat.min_le_right _ _) (by decide)

/- The cursor registers follow. -/
theorem VgaHolds.setCursor
    (hHolds : VgaHolds s₀ s done last) :
    VgaHolds s₀ (vgaSetCursor s s.vgaX s.vgaY) done last ∧
      (vgaSetCursor s s.vgaX s.vgaY).cursorPos =
        s.vgaY * vgaWidth + s.vgaX := by
  have hx : s.vgaX < vgaWidth := by
    rw [hHolds.x_eq]
    exact hHolds.last_lt
  rcases vgaSetCursor_eq (s := s) hx hHolds.row_lt with
    ⟨crtc, hEq, hPos⟩
  refine ⟨?_, hPos⟩
  rw [hEq]
  exact ⟨hHolds.shows.congr rfl rfl, hHolds.last_lt,
    hHolds.x_eq, hHolds.y_eq⟩

/- A newline starts a row. -/
theorem VgaHolds.newline
    (hHolds : VgaHolds s₀ s done last) :
    VgaHolds s₀ (vgaWrap (vgaPlace s 0x0A#8)) (done ++ [last])
      [] := by
  have hIn : ¬ (vgaNewRow s).vgaX ≥ vgaWidth := by
    simp only [vgaNewRow]
    decide
  have hPlace : vgaPlace s 0x0A#8 = vgaNewRow s := if_pos rfl
  unfold vgaWrap
  rw [hPlace, if_neg hIn]
  exact vgaNewRow_holds hHolds.shows List.length_append hHolds.y_eq

/- Another character goes behind the last row. -/
theorem VgaHolds.typed
    (hHolds : VgaHolds s₀ s done last)
    {c : U8}
    (hText : IsText c)
    (hNewline : c ≠ 0x0A#8) :
    vgaPlace s c =
        { vgaSetEntry s s.vgaX s.vgaY (vgaEntry c s.vgaColor) with
          vgaX := last.length + 1 } ∧
      VgaShows s₀ (vgaPlace s c) (done ++ [last ++ [c]]) := by
  rcases hText with ⟨hReturn, hTab, hBack⟩
  have hLast := hHolds.last_lt
  have hWidth : vgaWidth = 80 := rfl
  have hNext : u16 (s.vgaX + 1) = last.length + 1 := by
    rw [hHolds.x_eq]
    exact Nat.mod_eq_of_lt (by omega)
  have hPlace : vgaPlace s c =
      { vgaSetEntry s s.vgaX s.vgaY (vgaEntry c s.vgaColor) with
        vgaX := last.length + 1 } := by
    rw [vgaPlace, if_neg hNewline, if_neg hReturn, if_neg hTab,
      if_neg hBack, hNext]
  refine ⟨hPlace, ?_⟩
  have hShows := hHolds.shows.typed hLast c
  rw [← hHolds.x_eq, ← hHolds.y_eq] at hShows
  rw [hPlace]
  exact hShows.congr rfl rfl

/- A step of the layout -/
theorem vgaPutchar_holds
    (hHolds : VgaHolds s₀ s done last)
    {c : U8}
    (hText : IsText c) :
    ∃ done' last',
      done ++ rowsFrom vgaWidth isNewline last [c] =
          done' ++ [last'] ∧
        VgaHolds s₀ (vgaPutchar s c) done' last' ∧
        (vgaPutchar s c).cursorPos =
          (vgaPutchar s c).vgaY * vgaWidth +
            (vgaPutchar s c).vgaX := by
  suffices hWrap : ∃ done' last',
      done ++ rowsFrom vgaWidth isNewline last [c] =
          done' ++ [last'] ∧
        VgaHolds s₀ (vgaWrap (vgaPlace s c)) done' last' by
    rcases hWrap with ⟨done', last', hRows, hNext⟩
    rcases hNext.setCursor with ⟨hSet, hPos⟩
    refine ⟨done', last', hRows, hSet, ?_⟩
    have hX := hSet.x_eq.trans hNext.x_eq.symm
    have hY := hSet.y_eq.trans hNext.y_eq.symm
    unfold vgaPutchar
    rw [hX, hY]
    exact hPos
  by_cases hNewline : c = 0x0A#8
  · subst hNewline
    refine ⟨done ++ [last], [], ?_, hHolds.newline⟩
    rw [List.append_assoc]
    rfl
  · have hGo : isNewline c ≠ true := by
      simpa [isNewline] using hNewline
    rcases hHolds.typed hText hNewline with ⟨hPlace, hShows⟩
    have hRow : (vgaPlace s c).vgaY =
        min done.length (vgaHeight - 1) := by
      rw [hPlace]
      exact hHolds.y_eq
    have hCol : (vgaPlace s c).vgaX = last.length + 1 := by
      rw [hPlace]
    unfold vgaWrap
    rw [rowsFrom, if_neg hGo]
    by_cases hFull : last.length + 1 = vgaWidth
    · have hWide : (vgaPlace s c).vgaX ≥ vgaWidth := by
        rw [hCol, hFull]
      rw [if_pos hFull, if_pos hWide]
      refine ⟨done ++ [last ++ [c]], [], ?_, ?_⟩
      · rw [List.append_assoc]
        rfl
      · exact vgaNewRow_holds hShows List.length_append hRow
    · have hLast := hHolds.last_lt
      have hOnScreen := hHolds.row_lt
      rw [hHolds.y_eq, ← hRow] at hOnScreen
      have hNarrow : ¬ (vgaPlace s c).vgaX ≥ vgaWidth := by
        omega
      rw [if_neg hFull, if_neg hNarrow,
        if_neg (Nat.not_le.mpr hOnScreen)]
      refine ⟨done, last ++ [c], rfl, hShows, ?_, ?_, hRow⟩
      · rw [List.length_append, List.length_singleton]
        omega
      · rw [hCol, List.length_append, List.length_singleton]

/- The layout and the screen grow together. -/
theorem vgaText_holds
    (s : Vga)
    {text : List U8}
    (hText : ∀ c ∈ text, IsText c) :
    ∃ done last,
      rows vgaWidth isNewline text = done ++ [last] ∧
        VgaHolds s (text.foldl vgaPutchar (vgaClear s)) done
          last ∧
        (text ≠ [] →
          (text.foldl vgaPutchar (vgaClear s)).cursorPos =
            (text.foldl vgaPutchar (vgaClear s)).vgaY *
                vgaWidth +
              (text.foldl vgaPutchar (vgaClear s)).vgaX) := by
  induction text using List.reverseRecOn with
  | nil =>
      have hWidth : ([] : List U8).length < vgaWidth := by decide
      exact ⟨[], [], rfl,
        ⟨vgaClear_shows s, hWidth, rfl, rfl⟩,
        fun hNe => absurd rfl hNe⟩
  | append_singleton cs c ih =>
      rcases ih fun d hd => hText d (by simp [hd]) with
        ⟨done, last, hRows, hHolds, _⟩
      rcases vgaPutchar_holds hHolds (hText c (by simp)) with
        ⟨done', last', hMore, hNext, hPos⟩
      refine ⟨done', last', ?_, ?_, ?_⟩
      · rw [rows, TextRows.rowsFrom_snoc c hRows, hMore]
      · rw [List.foldl_append]
        exact hNext
      · intro _
        rw [List.foldl_append]
        exact hPos

/-
  After a text the screen shows the end of its layout, with
  the cursor behind it.
-/
theorem vgaPutchar_layout
    (s : Vga)
    {text : List U8}
    (hText : ∀ c ∈ text, IsText c) :
    let t := text.foldl vgaPutchar (vgaClear s)
    let layout := rows vgaWidth isNewline text
    (∀ y < vgaHeight, ∀ x < vgaWidth,
      t.buffer (y * vgaWidth + x) =
        vgaEntry (shown vgaHeight vgaSpace layout x y)
          s.vgaColor) ∧
    t.vgaX = (layout.getLastD []).length ∧
    t.vgaY = min (layout.length - 1) (vgaHeight - 1) ∧
    t.vgaX < vgaWidth ∧ t.vgaY < vgaHeight ∧
    (text ≠ [] → t.cursorPos = t.vgaY * vgaWidth + t.vgaX) ∧
    ∀ i, vgaHeight * vgaWidth ≤ i → t.buffer i = s.buffer i := by
  intro t layout
  rcases vgaText_holds s hText with
    ⟨done, last, hRows, hHolds, hPos⟩
  have hLayout : layout = done ++ [last] := hRows
  refine ⟨?_, ?_, ?_, ?_, hHolds.row_lt, hPos,
    hHolds.shows.outside⟩
  · rw [hLayout]
    exact hHolds.shows.cells
  · rw [hLayout, List.getLastD_concat]
    exact hHolds.x_eq
  · rw [hLayout, List.length_append, List.length_singleton,
      Nat.add_sub_cancel]
    exact hHolds.y_eq
  · rw [show t.vgaX = last.length from hHolds.x_eq]
    exact hHolds.last_lt

/- A line that is wrapped, and newlines until it scrolls -/
def scrolledText : List U8 :=
  List.replicate 81 0x61#8 ++ List.replicate 24 0x0A#8

theorem vgaPutchar_layout_scrolled :
    let s : Vga :=
      ⟨fun _ => 0#16, 0, 0, 0x07#8, 0#8, fun _ => 0#8⟩
    let t := scrolledText.foldl vgaPutchar (vgaClear s)
    t.buffer 0 = vgaEntry 0x61#8 0x07#8 ∧
      t.buffer 1 = vgaEntry vgaSpace 0x07#8 ∧ t.vgaX = 0 ∧
      t.vgaY = 24 := by
  intro s t
  have hText : ∀ c ∈ scrolledText, IsText c := by
    unfold IsText
    decide +kernel
  have hLayout :
      let layout := rows vgaWidth isNewline scrolledText
      shown vgaHeight vgaSpace layout 0 0 = 0x61#8 ∧
        shown vgaHeight vgaSpace layout 1 0 = vgaSpace ∧
        (layout.getLastD []).length = 0 ∧
        min (layout.length - 1) (vgaHeight - 1) = 24 := by
    decide +kernel
  rcases hLayout with ⟨hFirst, hSecond, hLast, hRow⟩
  rcases vgaPutchar_layout s hText with ⟨hCells, hX, hY, _⟩
  have hLeft := hCells 0 (by decide) 0 (by decide)
  have hNext := hCells 0 (by decide) 1 (by decide)
  rw [Nat.zero_mul, Nat.zero_add, hFirst] at hLeft
  rw [Nat.zero_mul, Nat.zero_add, hSecond] at hNext
  exact ⟨hLeft, hNext, hX.trans hLast, hY.trans hRow⟩

end Text

end FeatherOS
