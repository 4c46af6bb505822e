import FeatherOS.Kmalloc
import FeatherOS.Library.Words
import FeatherOS.Library.Numerals

/-
  The converters of `kernel/printk.c`.

  `int_to_str` and `uint_to_str` collect the digits in an
  array of 32 characters and write padding and digits. What
  they write is a list here; there is no result if the array
  is left, a digit is none of the table, or an `int` overflows.

  Key definitions include:
    * `digitLoop`
    * `uintToStr`
    * `intToStr`
    * `numberText`

  Key theorems include:
    * `digitLoop_places`
    * `uintToStr_text`
    * `intToStr_negative`
    * `uintToStr_exact`
-/

namespace FeatherOS

open CheckedInt (Fits int int_of_fits)

--------------------
-- Converting
--------------------

/- A character of the source -/
def ascii (c : Char) : U8 :=
  BitVec.ofNat 8 c.toNat

/- "0123456789abcdef" -/
def digitTable : List U8 :=
  "0123456789abcdef".toList.map ascii

/-
  The loop over the digits, with room for `room` more of them in
  `tmp`; the last one that was stored is in front.
-/
def digitLoop
    (base : Nat) :
    Nat → Nat → List U8 → Option (List U8)
  | 0, v, tmp => if v > 0 then none else some tmp
  | room + 1, v, tmp =>
      if v > 0 then do
        let c ← digitTable[v % base]?
        digitLoop base room (v / base) (c :: tmp)
      else
        some tmp

/- The digits of a value, which is positive or zero -/
def digitsOf
    (base v : Nat) : Option (List U8) :=
  if v = 0 then some [ascii '0'] else digitLoop base 32 v []

/- `while (padding-- > 0)`: what is written, and the counter -/
def padLoop
    (c : U8)
    (padding : Int) : List U8 × Int :=
  (List.replicate padding.toNat c, min padding 0 - 1)

/- Both loops that pad -/
def padText
    (padding : Int)
    (leadingZeros : Bool) : List U8 :=
  let (spaces, padding) :=
    if padding > 0 ∧ leadingZeros = false then
      padLoop (ascii ' ') padding
    else
      ([], padding)
  let (zeros, _) :=
    if leadingZeros = true ∧ padding > 0 then
      padLoop (ascii '0') padding
    else
      ([], padding)
  spaces ++ zeros

/- `(size_t)width > len ? (size_t)width - len : 0` -/
def padSize
    (width : Int)
    (len : Nat) : U64 :=
  let size := BitVec.ofInt 64 width
  if size > BitVec.ofNat 64 len then
    size - BitVec.ofNat 64 len
  else
    0#64

def uintToStr
    (value : U64)
    (base : Nat)
    (width : Int)
    (leadingZeros : Bool) : Option (List U8 × U64) := do
  let tmp ← digitsOf base value.toNat
  let padding ← int (width - tmp.length)
  return (padText padding leadingZeros ++ tmp,
    BitVec.ofNat 64 tmp.length + padSize width tmp.length)

/- `(uint64_t)(-value)` where `isNegative` is set -/
def magnitude
    (value : U64)
    (isNegative : Bool) : Option Nat :=
  if value = 0#64 ∨ isNegative = false then
    some value.toNat
  else if value = BitVec.intMin 64 then
    none
  else
    some (-value).toNat

def intToStr
    (value : U64)
    (base : Nat)
    (width : Int)
    (leadingZeros isNegative : Bool) :
    Option (List U8 × U64) := do
  let v ← magnitude value isNegative
  let tmp ← digitsOf base v
  let sign := if isNegative then [ascii '-'] else []
  let width ← if isNegative then int (width - 1) else some width
  let padding ← int (width - tmp.length)
  return (sign ++ padText padding leadingZeros ++ tmp,
    BitVec.ofNat 64 tmp.length +
      (if isNegative then 1#64 else 0#64) +
      padSize width tmp.length)

--------------------
-- Numbers as They Should Be
--------------------

/- The base of a conversion -/
def NumberBase (base : Nat) : Prop :=
  base = 10 ∨ base = 16

def tableChar (d : Nat) : U8 :=
  digitTable[d]?.getD 0#8

/- The value of a digit, of which there are sixteen -/
def tableValue (c : U8) : Option Nat :=
  digitTable.idxOf? c

def numberText (base v : Nat) : List U8 :=
  Numerals.encode base tableChar v

def padChar (leadingZeros : Bool) : U8 :=
  if leadingZeros then ascii '0' else ascii ' '

theorem tableValue_char :
    ∀ d < 16, tableValue (tableChar d) = some d := by
  decide

section Digits

variable {base v : Nat}

theorem NumberBase.range
    (hBase : NumberBase base) :
    1 < base ∧ base ≤ 16 := by
  rcases hBase with rfl | rfl
  · decide
  · decide

theorem digitTable_get
    {d : Nat}
    (hd : d < 16) :
    digitTable[d]? = some (tableChar d) := by
  have hLength : digitTable.length = 16 := by decide
  rw [tableChar, List.getElem?_eq_getElem (by omega)]
  rfl

/- With enough room the loop stores every place. -/
theorem digitLoop_places
    (hBase : NumberBase base)
    {room : Nat}
    (hRoom : (Nat.digits base v).length ≤ room)
    (tmp : List U8) :
    digitLoop base room v tmp =
      some ((Nat.digits base v).reverse.map tableChar ++ tmp) := by
  have hRange := hBase.range
  induction room generalizing v tmp with
  | zero =>
      have hNone : v = 0 := by
        by_contra hSome
        exact Nat.digits_ne_nil_iff_ne_zero.mpr hSome
          (List.eq_nil_of_length_eq_zero (Nat.le_zero.mp hRoom))
      subst hNone
      rw [digitLoop, if_neg (by omega), Nat.digits_zero]
      rfl
  | succ room ih =>
      rw [digitLoop]
      by_cases hPos : v > 0
      · rw [Nat.digits_def' hRange.1 hPos] at hRoom ⊢
        have hPlace := Nat.mod_lt v (by omega : base > 0)
        rw [if_pos hPos, digitTable_get (by omega),
          Option.bind_eq_bind, Option.bind_some,
          ih (Nat.le_of_succ_le_succ hRoom)]
        simp
      · have hNone : v = 0 := by omega
        subst hNone
        rw [if_neg hPos, Nat.digits_zero]
        rfl

/- A value of 64 bits has at most 20 digits. -/
theorem length_numberText
    (hBase : NumberBase base)
    (hv : v < 2 ^ 64) :
    (numberText base v).length ≤ 20 := by
  apply Numerals.length_encode_le hBase.range.1 (by decide)
  calc v < 2 ^ 64 := hv
    _ ≤ 10 ^ 20 := by norm_num
    _ ≤ base ^ 20 := by
      apply Nat.pow_le_pow_left
      rcases hBase with rfl | rfl
      · decide
      · decide

theorem digitsOf_eq
    (hBase : NumberBase base)
    (hv : v < 2 ^ 64) :
    digitsOf base v = some (numberText base v) := by
  have hLength := length_numberText hBase hv
  unfold digitsOf numberText Numerals.encode Numerals.places at *
  by_cases hZero : v = 0
  · rw [if_pos hZero, if_pos hZero]
    rfl
  · rw [if_neg hZero] at hLength
    rw [if_neg hZero, if_neg hZero,
      digitLoop_places hBase (by simp at hLength; omega),
      List.append_nil]

end Digits

--------------------
-- Padding
--------------------

theorem padText_eq
    (padding : Int)
    (leadingZeros : Bool) :
    padText padding leadingZeros =
      List.replicate padding.toNat (padChar leadingZeros) := by
  unfold padText padLoop padChar
  by_cases hPos : padding > 0
  · cases leadingZeros
    · simp only [hPos, and_self, if_true]
      simp
    · simp [hPos]
  · have hNone : padding.toNat = 0 := by omega
    simp [hPos, hNone]

/- The width is counted as far as it is above the length. -/
theorem padSize_eq
    {width : Int}
    (hWidth : 0 ≤ width)
    (hFits : width ≤ 2147483647)
    {len : Nat}
    (hLen : len ≤ 20) :
    padSize width len = BitVec.ofNat 64 (width.toNat - len) := by
  rcases Int.eq_ofNat_of_zero_le hWidth with ⟨w, rfl⟩
  unfold padSize
  simp only [Int.toNat_natCast]
  have hSize : BitVec.ofInt 64 (w : Int) = BitVec.ofNat 64 w :=
    BitVec.ofInt_natCast 64 w
  rw [hSize]
  split
  next hMore =>
    have hLt := BitVec.lt_def.mp hMore
    apply BitVec.eq_of_toNat_eq
    rw [BitVec.toNat_sub]
    simp only [BitVec.toNat_ofNat] at hLt ⊢
    omega
  next hMore =>
    have hLess : w ≤ len := by
      by_contra hNot
      apply hMore
      apply BitVec.lt_def.mpr
      simp only [BitVec.toNat_ofNat]
      omega
    rw [Nat.sub_eq_zero_of_le hLess]

--------------------
-- Unsigned Values
--------------------

section Converters

variable {base : Nat}
variable {width : Int}

/- The digits on the right, and the length of it all -/
theorem uintToStr_text
    (hBase : NumberBase base)
    (hWidth : 0 ≤ width)
    (hFits : width ≤ 2147483647)
    (value : U64)
    (leadingZeros : Bool) :
    uintToStr value base width leadingZeros =
      some (Numerals.padTo (padChar leadingZeros) width.toNat
          (numberText base value.toNat),
        BitVec.ofNat 64 (max width.toNat
          (numberText base value.toNat).length)) := by
  have hLength := length_numberText hBase value.isLt
  have hPadding : int (width - (numberText base value.toNat).length) =
      some (width - (numberText base value.toNat).length) :=
    int_of_fits ⟨by omega, by omega⟩
  have hPads :
      (width - (numberText base value.toNat).length).toNat =
        width.toNat - (numberText base value.toNat).length := by
    omega
  have hSize :
      (numberText base value.toNat).length +
          (width.toNat - (numberText base value.toNat).length) =
        max width.toNat (numberText base value.toNat).length := by
    omega
  rw [uintToStr, digitsOf_eq hBase value.isLt, Option.bind_eq_bind,
    Option.bind_some, hPadding, Option.bind_eq_bind,
    Option.bind_some, padText_eq, padSize_eq hWidth hFits hLength,
    ← BitVec.ofNat_add, hPads, hSize]
  rfl

/-
  Padding and then the digits, as many as the width and the
  digits need; the digits stand for the value.
-/
theorem uintToStr_exact
    (value : U64)
    (base : Nat)
    (width : Int)
    (leadingZeros : Bool)
    (hBase : base = 10 ∨ base = 16)
    (hWidth : 0 ≤ width)
    (hFits : Fits width) :
    ∃ padding digits len,
      uintToStr value base width leadingZeros =
          some (List.replicate padding
            (if leadingZeros then ascii '0' else ascii ' ') ++ digits,
            len) ∧
        len.toNat = padding + digits.length ∧
        padding + digits.length = max width.toNat digits.length ∧
        digits ≠ [] ∧
        (digits.head? = some (ascii '0') → digits = [ascii '0']) ∧
        Numerals.decode base tableValue digits =
          some value.toNat := by
  have hNumber : NumberBase base := hBase
  have hRange := hNumber.range
  have hChar : ∀ d < base, tableValue (tableChar d) = some d :=
    fun d hd => tableValue_char d (by omega)
  have hZero : tableChar 0 = ascii '0' := by decide
  have hLength := length_numberText hNumber value.isLt
  have hLeading := Numerals.encode_leading (v := value.toNat)
    hRange.1 hChar
  have hHigh := hFits.2
  rw [hZero] at hLeading
  refine ⟨width.toNat - (numberText base value.toNat).length,
    numberText base value.toNat, _,
    uintToStr_text hNumber hWidth hHigh value leadingZeros, ?_, ?_,
    Numerals.encode_ne_nil base tableChar value.toNat, hLeading,
    Numerals.decode_encode hRange.1 hChar value.toNat⟩
  · rw [BitVec.toNat_ofNat]
    omega
  · omega

/- 255 in eight characters -/
theorem uintToStr_exact_hex :
    ∃ padding digits len,
      uintToStr 255#64 16 8 true =
          some (List.replicate padding
            (if true then ascii '0' else ascii ' ') ++ digits,
            len) ∧
        len.toNat = padding + digits.length ∧
        padding + digits.length = max (8 : Int).toNat digits.length ∧
        digits ≠ [] ∧
        (digits.head? = some (ascii '0') → digits = [ascii '0']) ∧
        Numerals.decode 16 tableValue digits =
          some (255#64).toNat :=
  uintToStr_exact 255#64 16 8 true (by decide) (by decide)
    (by decide)

--------------------
-- Signed Values
--------------------

/- A value that is not negative is converted like an unsigned one. -/
theorem intToStr_positive
    (value : U64)
    (base : Nat)
    (width : Int)
    (leadingZeros : Bool) :
    intToStr value base width leadingZeros false =
      uintToStr value base width leadingZeros := by
  have hValue : magnitude value false = some value.toNat :=
    if_pos (.inr rfl)
  rw [intToStr, uintToStr, hValue]
  simp

/-
  The width without the sign is counted like every other, but
  one of -1 is a huge `size_t`, and the sum wraps to zero.
-/
theorem padSize_negative
    (hWidth : 0 ≤ width)
    (hFits : width ≤ 2147483647)
    {len : Nat}
    (hLen : len ≤ 20) :
    BitVec.ofNat 64 len + 1#64 + padSize (width - 1) len =
      if width = 0 then
        0#64
      else
        BitVec.ofNat 64 (max width.toNat (len + 1)) := by
  by_cases hNone : width = 0
  · subst hNone
    have hMore : BitVec.ofInt 64 (0 - 1) > BitVec.ofNat 64 len := by
      apply BitVec.lt_def.mpr
      rw [BitVec.toNat_ofNat]
      have hHuge : (BitVec.ofInt 64 (0 - 1)).toNat = 2 ^ 64 - 1 := by
        decide
      omega
    rw [if_pos rfl, padSize, if_pos hMore]
    have hWrap : BitVec.ofInt 64 (0 - 1) = -1#64 := by decide
    rw [hWrap]
    grind
  · have hSum :
        len + 1 + ((width - 1).toNat - len) =
          max width.toNat (len + 1) := by
      omega
    rw [if_neg hNone, padSize_eq (by omega) (by omega) hLen,
      ← hSum, BitVec.ofNat_add, BitVec.ofNat_add]

/-
  The sign comes first, then the padding; without a width
  nothing is counted.
-/
theorem intToStr_negative
    (hBase : NumberBase base)
    (hWidth : 0 ≤ width)
    (hFits : width ≤ 2147483647)
    {value : U64}
    (hValue : value ≠ 0#64)
    (hMin : value ≠ BitVec.intMin 64)
    (leadingZeros : Bool) :
    intToStr value base width leadingZeros true =
      some (ascii '-' ::
          Numerals.padTo (padChar leadingZeros) (width.toNat - 1)
            (numberText base (-value).toNat),
        if width = 0 then
          0#64
        else
          BitVec.ofNat 64 (max width.toNat
            ((numberText base (-value).toNat).length + 1))) := by
  have hMagnitude : magnitude value true = some (-value).toNat := by
    rw [magnitude, if_neg (by simp [hValue]), if_neg hMin]
  have hLength := length_numberText hBase (-value).isLt
  have hLess : int (width - 1) = some (width - 1) :=
    int_of_fits ⟨by omega, by omega⟩
  have hPadding :
      int (width - 1 - (numberText base (-value).toNat).length) =
        some (width - 1 - (numberText base (-value).toNat).length) :=
    int_of_fits ⟨by omega, by omega⟩
  have hPads :
      (width - 1 - (numberText base (-value).toNat).length).toNat =
        width.toNat - 1 - (numberText base (-value).toNat).length := by
    omega
  rw [intToStr, hMagnitude, Option.bind_eq_bind, Option.bind_some,
    digitsOf_eq hBase (-value).isLt, Option.bind_eq_bind,
    Option.bind_some]
  simp only [if_true, hLess, hPadding, Option.bind_some,
    Option.bind_eq_bind, padText_eq, hPads,
    padSize_negative hWidth hFits hLength]
  rfl

end Converters

end FeatherOS
