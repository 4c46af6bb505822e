import FeatherOS.Console.Rendering
import FeatherOS.Library.Fields

/-
  When `console_printf` prints what its format says.

  For no item is more counted than its standard rendering has
  characters, and no less is printed than is counted. So the
  whole is right only if every item is.

  Key definitions include:
    * `PrintsAs`

  Key theorems include:
    * `printNumber_exact`
    * `PrintfItem.print_right`
    * `PrintfItem.print_as`
    * `consolePrintf_renders_iff`
-/

namespace FeatherOS

open CyclicBuffer (front front_add front_congr front_getD)

--------------------
-- The Buffer
--------------------

variable {c : U8}

section Buffer

variable {text str : List U8}
variable {buf : Bytes}

theorem front_writeBuf
    (hFits : text.length ≤ 64) :
    front (writeBuf text buf) 64 =
      text ++
        front (fun i => buf (text.length + i)) (64 - text.length) := by
  have hText : front (writeBuf text buf) text.length = text := by
    have hSame : front (writeBuf text buf) text.length =
        front (fun i => text.getD i 0#8) text.length := by
      apply front_congr
      intro i hi
      rw [writeBuf, List.getD_eq_getElem?_getD,
        List.getElem?_eq_getElem hi]
      rfl
    rw [hSame, front_getD]
  have hRest :
      front (fun i => writeBuf text buf (text.length + i))
          (64 - text.length) =
        front (fun i => buf (text.length + i)) (64 - text.length) := by
    apply front_congr
    intro i _
    rw [writeBuf, List.getElem?_eq_none (by omega)]
    rfl
  have hSplit := front_add (writeBuf text buf) text.length
    (64 - text.length)
  rw [Nat.add_sub_cancel' hFits, hText, hRest] at hSplit
  exact hSplit

/- What is printed: the text, and what is behind it up to a NUL -/
theorem bufString_writeBuf
    (hText : 0#8 ∉ text)
    (hLt : text.length < 64)
    (hString : bufString (writeBuf text buf) = some str) :
    ∃ more, str = text ++ more ∧
      (more = [] ↔ buf text.length = 0#8) := by
  unfold bufString at hString
  split at hString
  next hNul =>
    rcases Option.some.inj hString with rfl
    rw [front_writeBuf hLt.le]
    have hChars : ∀ c ∈ text, decide (c ≠ 0#8) = true := by
      intro c hMem
      apply decide_eq_true
      rintro rfl
      exact hText hMem
    rw [List.takeWhile_append_of_pos hChars]
    refine ⟨_, rfl, ?_⟩
    rcases Nat.exists_eq_add_of_lt hLt with ⟨left, hLeft⟩
    have hHead : front (fun i => buf (text.length + i))
        (64 - text.length) =
        buf text.length ::
          front (fun i => buf (text.length + (1 + i))) left := by
      rw [show 64 - text.length = 1 + left by omega, front_add]
      rfl
    rw [hHead]
    by_cases hEnd : buf text.length = 0#8
    · simp [hEnd]
    · simp [hEnd]
  next => cases hString

/- The string of a buffer ends in front of a NUL of it. -/
theorem bufString_iff :
    bufString buf = some str ↔
      0#8 ∉ str ∧ ∃ rest, front buf 64 = str ++ 0#8 :: rest := by
  unfold bufString
  constructor
  · intro hString
    split at hString
    next hNul =>
      rcases Option.some.inj hString with rfl
      refine ⟨?_, exists_string hNul⟩
      intro hMem
      have hNot := List.all_eq_true.mp List.all_takeWhile _ hMem
      simp at hNot
    next => cases hString
  · rintro ⟨hText, rest, hFront⟩
    have hChars : ∀ c ∈ str, decide (c ≠ 0#8) = true := by
      intro c hMem
      apply decide_eq_true
      rintro rfl
      exact hText hMem
    rw [hFront, if_pos (by simp),
      Fields.takeWhile_field hChars (by simp)]

theorem bufString_exact
    (hText : 0#8 ∉ text)
    (hLt : text.length < 64)
    (hEnd : buf text.length = 0#8) :
    bufString (writeBuf text buf) = some text := by
  rcases Nat.exists_eq_add_of_lt hLt with ⟨left, hLeft⟩
  apply bufString_iff.mpr
  refine ⟨hText,
    front (fun i => buf (text.length + (1 + i))) left, ?_⟩
  rw [front_writeBuf hLt.le,
    show 64 - text.length = 1 + left by omega, front_add, ← hEnd]
  rfl

theorem upperChar_ne_nul
    (hc : c ≠ 0#8) :
    upperChar c ≠ 0#8 := by
  unfold upperChar
  split
  next hSmall =>
    intro hNul
    have hLow := BitVec.le_def.mp hSmall.1
    have hHigh := BitVec.le_def.mp hSmall.2
    have hNat := congrArg BitVec.toNat hNul
    have ha : (ascii 'a').toNat = 97 := rfl
    have hf : (ascii 'f').toNat = 102 := rfl
    have hA : (ascii 'A').toNat = 65 := rfl
    rw [BitVec.toNat_add, BitVec.toNat_sub, ha, hA] at hNat
    rw [ha] at hLow
    rw [hf] at hHigh
    have hZero : (0#8).toNat = 0 := rfl
    omega
  next => exact hc

/- The capitals of the string in the buffer -/
theorem upperBuf_string
    (hString : bufString buf = some str) :
    ∃ buf', upperBuf buf = some buf' ∧
      bufString buf' = some (str.map upperChar) ∧
      buf' = fun i =>
        if i < str.length then upperChar (buf i) else buf i := by
  refine ⟨_, by rw [upperBuf, hString]; rfl, ?_, rfl⟩
  rcases bufString_iff.mp hString with ⟨hText, rest, hFront⟩
  apply bufString_iff.mpr
  constructor
  · intro hMem
    rcases List.mem_map.mp hMem with ⟨c, hc, hNul⟩
    refine upperChar_ne_nul ?_ hNul
    rintro rfl
    exact hText hc
  · have hLength := congrArg List.length hFront
    rw [CyclicBuffer.length_front, List.length_append,
      List.length_cons] at hLength
    have hSize : 64 = str.length + (rest.length + 1) := by omega
    rw [hSize, front_add] at hFront
    rcases List.append_inj hFront
      (CyclicBuffer.length_front _ _) with ⟨hStr, hRest⟩
    have hCapitals :
        front (fun i => if i < str.length then upperChar (buf i)
          else buf i) str.length = str.map upperChar := by
      have hMapped := congrArg (List.map upperChar) hStr
      rw [front, List.map_map] at hMapped
      rw [← hMapped, front]
      apply List.map_congr_left
      intro i hi
      exact if_pos (List.mem_range.mp hi)
    have hSame :
        front (fun i => if str.length + i < str.length then
            upperChar (buf (str.length + i))
          else buf (str.length + i)) (rest.length + 1) =
          0#8 :: rest := by
      rw [← hRest]
      apply front_congr
      intro i _
      exact if_neg (by omega)
    refine ⟨rest, ?_⟩
    rw [hSize, front_add, hCapitals, hSame]

end Buffer

--------------------
-- Numbers in the Buffer
--------------------

section Numbers

variable {text : List U8}
variable {o t : PrintfOutput}

theorem addSize_ofNat
    (count : U32)
    (n : Nat) :
    addSize count (BitVec.ofNat 64 n) = count + BitVec.ofNat 32 n := by
  unfold addSize
  rw [BitVec.setWidth_add _ _ (by decide)]
  congr 1
  · apply BitVec.eq_of_getLsbD_eq
    intro i hi
    rw [BitVec.getLsbD_setWidth, BitVec.getLsbD_signExtend,
      if_pos hi, decide_eq_true hi,
      decide_eq_true (by omega : i < 64)]
    rfl
  · exact BitVec.setWidth_ofNat_of_le (by decide) n

theorem length_cased
    (upper : Bool) :
    (cased upper text).length = text.length := by
  cases upper with
  | false => rfl
  | true => exact List.length_map _

theorem writeBuf_cased
    (buf : Bytes) :
    (fun i =>
      if i < text.length then
        upperChar (writeBuf text buf i)
      else
        writeBuf text buf i) =
      writeBuf (text.map upperChar) buf := by
  funext i
  by_cases hi : i < text.length
  · simp [writeBuf, hi]
  · simp [writeBuf, hi]

/-
  With a NUL behind it in the buffer exactly the number is
  printed.
-/
theorem printNumber_exact
    (hText : 0#8 ∉ text)
    (hLt : text.length < 64)
    (hEnd : o.buf text.length = 0#8)
    (upper : Bool)
    (extra : Nat)
    (len : U64) :
    printNumber o upper extra (some (text, len)) =
      some
        { buf := writeBuf (cased upper text) o.buf
          count := addSize o.count (BitVec.ofNat 64 extra + len)
          out := o.out ++ cased upper text } := by
  have hString := bufString_exact hText hLt hEnd
  have hWrite : writeText text o.buf = some (writeBuf text o.buf) :=
    if_neg (by omega)
  cases upper with
  | false => simp [printNumber, hWrite, casedBuf, hString, cased]
  | true =>
      rcases upperBuf_string hString with
        ⟨buf', hUpper, hCapitals, hBuf⟩
      rw [writeBuf_cased] at hBuf
      subst hBuf
      simp [printNumber, hWrite, casedBuf, hUpper, hCapitals, cased]

/- Otherwise something follows it. -/
theorem printNumber_more
    (hText : 0#8 ∉ text)
    (hLt : text.length < 64)
    {upper : Bool}
    {extra : Nat}
    {len : U64}
    (hPrint : printNumber o upper extra (some (text, len)) = some t) :
    ∃ more, t.out = o.out ++ (cased upper text ++ more) ∧
      t.count = addSize o.count (BitVec.ofNat 64 extra + len) ∧
      (more = [] → o.buf text.length = 0#8) := by
  have hWrite : writeText text o.buf = some (writeBuf text o.buf) :=
    if_neg (by omega)
  cases upper with
  | false =>
      cases hString : bufString (writeBuf text o.buf) with
      | none =>
          simp [printNumber, hWrite, casedBuf, hString] at hPrint
      | some str =>
          rcases bufString_writeBuf hText hLt hString with
            ⟨more, rfl, hMore⟩
          simp [printNumber, hWrite, casedBuf, hString] at hPrint
          subst hPrint
          exact ⟨more, rfl, rfl, hMore.mp⟩
  | true =>
      cases hString : bufString (writeBuf text o.buf) with
      | none =>
          simp [printNumber, hWrite, casedBuf, hString, upperBuf]
            at hPrint
      | some str =>
          rcases bufString_writeBuf hText hLt hString with
            ⟨more, rfl, hMore⟩
          rcases upperBuf_string hString with
            ⟨buf', hUpper, hCapitals, _⟩
          simp [printNumber, hWrite, casedBuf, hUpper, hCapitals]
            at hPrint
          subst hPrint
          refine ⟨more.map upperChar, ?_, rfl, ?_⟩
          · simp [cased]
          · intro hNone
            exact hMore.mp (List.map_eq_nil_iff.mp hNone)

end Numbers

--------------------
-- Standard Numbers
--------------------

variable {n : PrintfNumber}

section Standard

variable {zero : Bool}
variable {width : Nat}
variable {digits : List U8}

theorem PrintfNumber.numberBase
    (n : PrintfNumber) :
    NumberBase n.base := by
  cases n <;> simp [base, NumberBase]

theorem PrintfNumber.value_negative
    (hNegative : n.negative = true) :
    n.value ≠ 0#64 ∧ n.upper = false := by
  have hMsb : ∀ {v : U64}, v.msb = true → v ≠ 0#64 := by
    rintro v hv rfl
    cases hv
  have hSign : ∀ {v : U32}, v.msb = true → v.signExtend 64 ≠ 0#64 :=
    fun hv => hMsb (by rw [← msb_signExtend, hv])
  cases n with
  | d v => exact ⟨hSign hNegative, rfl⟩
  | i v => exact ⟨hSign hNegative, rfl⟩
  | ld v => exact ⟨hMsb hNegative, rfl⟩
  | zd v => exact ⟨hMsb hNegative, rfl⟩
  | u v => cases hNegative
  | x v => cases hNegative
  | upperX v => cases hNegative
  | lu v => cases hNegative
  | lx v => cases hNegative
  | zu v => cases hNegative

theorem PrintfNumber.magnitude_lt
    (n : PrintfNumber) :
    n.magnitude < 2 ^ 64 := by
  unfold magnitude
  split
  · exact (-n.value).isLt
  · exact n.value.isLt

theorem PrintfNumber.length_digits
    (n : PrintfNumber) :
    n.digits.length ≤ 20 := by
  rw [digits, length_cased]
  exact length_numberText n.numberBase n.magnitude_lt

theorem standardNumber_unsigned :
    standardNumber zero width [] digits =
      Numerals.padTo (padChar zero) width digits := by
  cases zero with
  | false => rfl
  | true => rfl

theorem length_standardNumber
    (sign : List U8) :
    (standardNumber zero width sign digits).length =
      max width (sign.length + digits.length) := by
  unfold standardNumber
  split
  · rw [List.length_append, Numerals.length_padTo]
    omega
  · rw [Numerals.length_padTo, List.length_append]

theorem padTo_of_le
    {text : List U8}
    (hLe : width ≤ text.length) :
    Numerals.padTo c width text = text := by
  rw [Numerals.padTo, Nat.sub_eq_zero_of_le hLe]
  rfl

/- A sign in front of spaces is not where it should be. -/
theorem sign_padTo_iff :
    ascii '-' ::
        Numerals.padTo (padChar zero) (width - 1) digits =
      standardNumber zero width [ascii '-'] digits ↔
      zero = true ∨ width ≤ digits.length + 1 := by
  cases zero with
  | true => simp [standardNumber, padChar]
  | false =>
      unfold standardNumber
      rw [if_neg (by simp)]
      by_cases hLe : width ≤ digits.length + 1
      · rw [padTo_of_le (by omega), padTo_of_le (by simpa using hLe)]
        simp [hLe]
      · have hSome : width - ([ascii '-'] ++ digits).length =
            width - digits.length - 2 + 1 := by
          simp
          omega
        rw [Numerals.padTo, Numerals.padTo, hSome,
          List.replicate_succ]
        have hNot : ascii '-' ≠ ascii ' ' := by decide
        simp [hNot, hLe]

theorem cased_padTo
    (upper : Bool) :
    cased upper (Numerals.padTo (padChar zero) width digits) =
      Numerals.padTo (padChar zero) width (cased upper digits) := by
  have hPad : upperChar (padChar zero) = padChar zero := by
    cases zero <;> decide
  cases upper with
  | false => rfl
  | true => simp [cased, Numerals.padTo, hPad]

theorem padTo_noNul
    (hDigits : 0#8 ∉ digits) :
    0#8 ∉ Numerals.padTo (padChar zero) width digits := by
  intro hMem
  rcases List.mem_append.mp hMem with hMem | hMem
  · have hPad : padChar zero ≠ 0#8 := by
      cases zero <;> decide
    exact hPad (List.eq_of_mem_replicate hMem).symm
  · exact hDigits hMem

end Standard

--------------------
-- Conversions of Numbers
--------------------

/- The standard rendering of a number -/
def PrintfNumber.standard
    (n : PrintfNumber)
    (zero : Bool)
    (width : Fin 64) : List U8 :=
  standardNumber zero width n.sign n.digits

/- What the converter writes of a number, before capitals -/
def PrintfNumber.written
    (n : PrintfNumber)
    (zero : Bool)
    (width : Fin 64) : List U8 :=
  if n.negative then
    ascii '-' :: Numerals.padTo (padChar zero) (width.val - 1)
      (numberText n.base n.magnitude)
  else
    Numerals.padTo (padChar zero) width
      (numberText n.base n.magnitude)

/- What is counted of it -/
def PrintfNumber.counted
    (n : PrintfNumber)
    (zero : Bool)
    (width : Fin 64) : Nat :=
  if n.negative = true ∧ width.val = 0 then
    0
  else
    (n.standard zero width).length

section Convert

variable (n : PrintfNumber)
variable (zero : Bool)
variable (width : Fin 64)

theorem PrintfNumber.length_standard_lt :
    (n.standard zero width).length < 64 := by
  have hDigits := n.length_digits
  have hWidth := width.isLt
  have hSign : n.sign.length ≤ 1 := by
    unfold sign
    split <;> simp
  rw [standard, length_standardNumber]
  omega

theorem PrintfNumber.length_written :
    (n.written zero width).length =
      (n.standard zero width).length := by
  have hSame : n.digits.length =
      (numberText n.base n.magnitude).length :=
    length_cased n.upper
  rw [standard, length_standardNumber, hSame]
  unfold written sign
  cases n.negative with
  | false => simp [Numerals.length_padTo]
  | true =>
      simp [Numerals.length_padTo]
      omega

theorem PrintfNumber.written_noNul :
    0#8 ∉ n.written zero width := by
  have hDigits := numberText_noNul n.numberBase n.magnitude
  unfold written
  split
  · intro hMem
    rcases List.mem_cons.mp hMem with hNul | hMem
    · exact absurd hNul (by decide)
    · exact padTo_noNul hDigits hMem
  · exact padTo_noNul hDigits

/- Only a sign in front of spaces makes a difference. -/
theorem PrintfNumber.written_standard_iff :
    cased n.upper (n.written zero width) = n.standard zero width ↔
      (n.negative = true →
        zero = true ∨ width.val ≤ n.digits.length + 1) := by
  unfold standard written sign
  cases hNegative : n.negative with
  | false =>
      have hCased : cased n.upper (Numerals.padTo (padChar zero)
            width.val (numberText n.base n.magnitude)) =
          standardNumber zero width.val [] n.digits := by
        rw [cased_padTo, standardNumber_unsigned]
        rfl
      simp [hCased]
  | true =>
      have hUpper := (n.value_negative hNegative).2
      have hDigits : n.digits = numberText n.base n.magnitude := by
        rw [digits, hUpper]
        rfl
      have hSign := @sign_padTo_iff zero width.val n.digits
      rw [hDigits] at hSign ⊢
      simp only [if_true, hUpper, forall_const]
      exact hSign

/- Only INT64_MIN has no result. -/
theorem PrintfNumber.convert :
    intToStr n.value n.base width.val zero n.negative =
      if n.negative = true ∧ n.value = BitVec.intMin 64 then
        none
      else
        some (n.written zero width,
          BitVec.ofNat 64 (n.counted zero width)) := by
  have hWidth := width.isLt
  have hSame : n.digits.length =
      (numberText n.base n.magnitude).length :=
    length_cased n.upper
  unfold written counted standard
  rw [length_standardNumber, hSame]
  cases hNegative : n.negative with
  | false =>
      have hMagnitude : n.magnitude = n.value.toNat := by
        rw [magnitude, hNegative]
        rfl
      have hSign : n.sign = [] := by
        rw [sign, hNegative]
        rfl
      rw [intToStr_positive, uintToStr_text n.numberBase (by omega)
        (by omega), ← hMagnitude, hSign]
      simp
  | true =>
      have hMagnitude : n.magnitude = (-n.value).toNat := by
        rw [magnitude, hNegative]
        rfl
      have hSign : n.sign.length = 1 := by
        rw [sign, hNegative]
        rfl
      have hValue := (n.value_negative hNegative).1
      by_cases hMin : n.value = BitVec.intMin 64
      · rw [if_pos ⟨rfl, hMin⟩, intToStr, FeatherOS.magnitude,
          if_neg (by simp [hValue]), if_pos hMin]
        rfl
      · rw [if_neg (by simp [hMin]), intToStr_negative n.numberBase
          (by omega) (by omega) hValue hMin, ← hMagnitude, hSign]
        by_cases hNone : width.val = 0
        · simp [hNone]
        · simp [hNone, Nat.add_comm]

end Convert

--------------------
-- Items
--------------------

/-
  No more is counted than `text` has characters. If as many are,
  then at least as many are printed; and if these are the text,
  the output is `right`.
-/
def PrintsAs
    (o t : PrintfOutput)
    (text : List U8)
    (right : Prop) : Prop :=
  ∃ piece count, t.out = o.out ++ piece ∧
    t.count = o.count + BitVec.ofNat 32 count ∧
    count ≤ text.length ∧
    (count = text.length → text.length ≤ piece.length) ∧
    (count = text.length → piece = text → right)

/- The output after a text -/
def PrintfOutput.after
    (o : PrintfOutput)
    (text : List U8)
    (buf : Bytes) : PrintfOutput where
  buf := buf
  count := o.count + BitVec.ofNat 32 text.length
  out := o.out ++ text

section Items

variable {o t u : PrintfOutput}

theorem printChar_right
    (c : U8)
    (hFew : o.count.toNat + 1 < 2 ^ 31) :
    printChar o c = some (o.after [c] o.buf) := by
  apply if_neg
  intro hMax
  have hNat := congrArg BitVec.toNat hMax
  have hValue : (BitVec.intMax 32).toNat = 2147483647 := rfl
  omega

theorem printChar_some
    (hPrint : printChar o c = some t) :
    t = o.after [c] o.buf := by
  unfold printChar at hPrint
  split at hPrint
  next => cases hPrint
  next => exact (Option.some.inj hPrint).symm

theorem printString_eq
    (text : List U8) :
    printString o text = o.after text o.buf := by
  rw [printString, addSize_ofNat]
  rfl

theorem length_pointerText
    (v : U64) :
    (pointerText v).length = 16 := by
  have hDigits : (numberText 16 v.toNat).length ≤ 16 :=
    Numerals.length_encode_le (by decide) (by decide) v.isLt
  rw [pointerText, Numerals.length_padTo]
  omega

theorem pointerText_noNul
    (v : U64) :
    0#8 ∉ pointerText v := by
  have hText :
      0#8 ∉ Numerals.padTo (padChar true) 16
        (numberText 16 v.toNat) :=
    padTo_noNul (numberText_noNul (.inr rfl) v.toNat)
  exact hText

theorem uintToStr_pointer
    (v : U64) :
    uintToStr v 16 16 true =
      some (pointerText v, BitVec.ofNat 64 16) := by
  have hLength := length_pointerText v
  rw [pointerText, Numerals.length_padTo] at hLength
  rw [uintToStr_text (.inr rfl) (by decide) (by decide)]
  have hSixteen : (16 : Int).toNat = 16 := rfl
  rw [hSixteen, hLength]
  rfl

theorem printPointer_right
    (v : U64)
    (hEnd : o.buf 16 = 0#8) :
    printPointer o v =
      some (o.after ([ascii '0', ascii 'x'] ++ pointerText v)
        (writeBuf (pointerText v) o.buf)) := by
  have hLength := length_pointerText v
  rw [printPointer, uintToStr_pointer,
    printNumber_exact (pointerText_noNul v) (by omega)
      (by rw [hLength]; exact hEnd),
    ← BitVec.ofNat_add, addSize_ofNat]
  simp [PrintfOutput.after, cased, hLength]

variable {zero : Bool}
variable {width : Fin 64}

theorem PrintfNumber.print_right
    (n : PrintfNumber)
    (hOk : (PrintfItem.number zero width n).Ok o.buf) :
    (PrintfItem.number zero width n).print o =
      some (o.after (n.standard zero width)
        ((PrintfItem.number zero width n).bufAfter o.buf)) := by
  rcases hOk with ⟨hSign, hEnd⟩
  have hStandard : cased n.upper (n.written zero width) =
      n.standard zero width :=
    (n.written_standard_iff zero width).mpr
      fun hNegative => (hSign hNegative).2.2
  have hLength := n.length_written zero width
  have hLt := n.length_standard_lt zero width
  have hCounted : n.counted zero width =
      (n.standard zero width).length := by
    apply if_neg
    intro ⟨hNegative, hNone⟩
    have hPos := (hSign hNegative).1
    omega
  have hMin : ¬ (n.negative = true ∧
      n.value = BitVec.intMin 64) :=
    fun h => (hSign h.1).2.1 h.2
  rw [PrintfItem.print, n.convert, if_neg hMin,
    printNumber_exact (n.written_noNul zero width) (by omega)
      (by rw [hLength]; exact hEnd), hStandard, hCounted,
    ← BitVec.ofNat_add, Nat.zero_add, addSize_ofNat]
  rfl

variable {item : PrintfItem}

/- An item under its condition is printed as it should be. -/
theorem PrintfItem.print_right
    (hOk : item.Ok o.buf)
    (hFew : o.count.toNat + item.rendering.length < 2 ^ 31) :
    item.print o =
      some (o.after item.rendering (item.bufAfter o.buf)) := by
  cases item with
  | ordinary c hOrdinary => exact printChar_right c hFew
  | percent => exact printChar_right _ hFew
  | char zero width v =>
      have hText : (PrintfItem.char zero width v).rendering =
          [v.setWidth 8] := padTo_of_le hOk
      rw [hText] at hFew ⊢
      exact printChar_right _ hFew
  | string zero width s =>
      have hText : (PrintfItem.string zero width s).rendering =
          stringText s := padTo_of_le hOk
      rw [hText]
      exact congrArg some (printString_eq _)
  | number zero width n => exact n.print_right hOk
  | pointer zero width v =>
      rcases hOk with ⟨hWidth, hEnd⟩
      have hLength := length_pointerText v
      have hText : (PrintfItem.pointer zero width v).rendering =
          [ascii '0', ascii 'x'] ++ pointerText v :=
        padTo_of_le (by simp [hLength]; exact hWidth)
      rw [hText]
      exact printPointer_right v hEnd

/- Only a width above 0 makes a negative number count. -/
theorem PrintfNumber.width_pos
    (hNegative : n.negative = true)
    (hAll : n.counted zero width =
      (n.standard zero width).length) :
    0 < width.val := by
  by_contra hNone
  rw [counted, if_pos ⟨hNegative, by omega⟩] at hAll
  have hSome :
      (standardNumber zero width.val n.sign n.digits).length =
        max width.val (n.sign.length + n.digits.length) :=
    length_standardNumber n.sign
  have hSign : n.sign.length = 1 := by
    rw [sign, hNegative]
    rfl
  change 0 = (n.standard zero width).length at hAll
  rw [standard] at hAll
  omega

theorem PrintfNumber.print_as
    (n : PrintfNumber)
    (hPrint : (PrintfItem.number zero width n).print o = some t) :
    PrintsAs o t (PrintfItem.number zero width n).rendering
      ((PrintfItem.number zero width n).Ok o.buf ∧
        t.buf = (PrintfItem.number zero width n).bufAfter
          o.buf) := by
  rw [PrintfItem.print, n.convert] at hPrint
  by_cases hMin : n.negative = true ∧ n.value = BitVec.intMin 64
  · rw [if_pos hMin] at hPrint
    cases hPrint
  · have hLength := n.length_written zero width
    have hLt := n.length_standard_lt zero width
    have hNoNul := n.written_noNul zero width
    rw [if_neg hMin] at hPrint
    rcases printNumber_more hNoNul (by omega) hPrint with
      ⟨more, hOut, hCount, hMore⟩
    rw [← BitVec.ofNat_add, Nat.zero_add, addSize_ofNat] at hCount
    have hCased : (cased n.upper (n.written zero width)).length =
        (n.standard zero width).length := by
      rw [length_cased, hLength]
    refine ⟨_, n.counted zero width, hOut, hCount, ?_, ?_, ?_⟩
    · unfold counted
      split
      · exact Nat.zero_le _
      · exact le_refl _
    · intro _
      rw [List.length_append, hCased]
      exact Nat.le_add_right _ _
    · intro hAll hPiece
      have hBoth := List.append_inj
        (hPiece.trans (List.append_nil _).symm) hCased
      have hEnd := hMore hBoth.2
      have hSpaces :=
        (n.written_standard_iff zero width).mp hBoth.1
      rw [printNumber_exact hNoNul (by omega) hEnd] at hPrint
      rw [hLength] at hEnd
      refine ⟨⟨fun hNegative => ?_, hEnd⟩, ?_⟩
      · exact ⟨width_pos hNegative hAll,
          fun hValue => hMin ⟨hNegative, hValue⟩,
          hSpaces hNegative⟩
      · rcases Option.some.inj hPrint with rfl
        rw [hBoth.1]
        rfl

theorem printPointer_as
    {v : U64}
    (hPrint : (PrintfItem.pointer zero width v).print o = some t) :
    PrintsAs o t (PrintfItem.pointer zero width v).rendering
      ((PrintfItem.pointer zero width v).Ok o.buf ∧
        t.buf = (PrintfItem.pointer zero width v).bufAfter
          o.buf) := by
  have hLength := length_pointerText v
  have hText :
      (PrintfItem.pointer zero width v).rendering.length =
        max width.val 18 := by
    have hPadded := Numerals.length_padTo (ascii ' ') width.val
      ([ascii '0', ascii 'x'] ++ pointerText v)
    rw [List.length_append, hLength] at hPadded
    exact hPadded
  have hWhole := hPrint
  rw [PrintfItem.print, printPointer, uintToStr_pointer] at hPrint
  rcases printNumber_more (pointerText_noNul v) (by omega) hPrint
    with ⟨more, hOut, hCount, hMore⟩
  rw [← BitVec.ofNat_add, addSize_ofNat] at hCount
  rw [List.append_assoc] at hOut
  refine ⟨_, 18, hOut, hCount, by omega, ?_, ?_⟩
  · intro hAll
    rw [← hAll]
    simp [cased, hLength]
  · intro hAll hPiece
    have hWidth : width.val ≤ 18 := by omega
    have hShort : (PrintfItem.pointer zero width v).rendering =
        [ascii '0', ascii 'x'] ++ pointerText v :=
      padTo_of_le (by simp [hLength]; exact hWidth)
    rw [hShort] at hPiece
    have hTail := List.append_cancel_left hPiece
    have hNone : more = [] := by
      refine @List.append_cancel_left _ (pointerText v) _ _ ?_
      rw [List.append_nil]
      exact hTail
    have hEnd : o.buf 16 = 0#8 := by
      rw [← hLength]
      exact hMore hNone
    rw [PrintfItem.print, printPointer_right v hEnd] at hWhole
    rcases Option.some.inj hWhole with rfl
    exact ⟨⟨hWidth, hEnd⟩, rfl⟩

/- Whatever an item prints is compared with what it should be. -/
theorem PrintfItem.print_as
    (hPrint : item.print o = some t) :
    PrintsAs o t item.rendering
      (item.Ok o.buf ∧ t.buf = item.bufAfter o.buf) := by
  cases item with
  | ordinary c hOrdinary =>
      rcases printChar_some hPrint with rfl
      exact ⟨[c], 1, rfl, rfl, le_refl _, fun _ => le_refl _,
        fun _ _ => ⟨trivial, rfl⟩⟩
  | percent =>
      rcases printChar_some hPrint with rfl
      exact ⟨_, 1, rfl, rfl, le_refl _, fun _ => le_refl _,
        fun _ _ => ⟨trivial, rfl⟩⟩
  | char zero width v =>
      rcases printChar_some hPrint with rfl
      have hLength : (PrintfItem.char zero width v).rendering.length =
          max width.val 1 := Numerals.length_padTo _ _ _
      refine ⟨_, 1, rfl, rfl, ?_, ?_, ?_⟩
      · omega
      · intro hAll
        rw [← hAll]
        exact le_refl _
      · intro hAll _
        exact ⟨show width.val ≤ 1 by omega, rfl⟩
  | string zero width s =>
      rcases Option.some.inj hPrint with rfl
      rw [printString_eq]
      have hLength :
          (PrintfItem.string zero width s).rendering.length =
            max width.val (stringText s).length :=
        Numerals.length_padTo _ _ _
      refine ⟨stringText s, (stringText s).length, rfl, rfl, ?_, ?_,
        ?_⟩
      · omega
      · intro hAll
        rw [← hAll]
      · intro hAll _
        exact ⟨show width.val ≤ (stringText s).length by omega, rfl⟩
  | number zero width n => exact n.print_as hPrint
  | pointer zero width v => exact printPointer_as hPrint

/- Two texts that are right must both be. -/
theorem PrintsAs.append
    {first second : List U8}
    {p q : Prop}
    (hFirst : PrintsAs o t first p)
    (hSecond : PrintsAs t u second q) :
    PrintsAs o u (first ++ second) (p ∧ q) := by
  rcases hFirst with ⟨piece, count, hOut, hCount, hLe, hMin, hRight⟩
  rcases hSecond with
    ⟨piece', count', hOut', hCount', hLe', hMin', hRight'⟩
  refine ⟨piece ++ piece', count + count', ?_, ?_, ?_, ?_, ?_⟩
  · rw [hOut', hOut, List.append_assoc]
  · rw [hCount', hCount, BitVec.ofNat_add, BitVec.add_assoc]
  · rw [List.length_append]
    omega
  · intro hAll
    rw [List.length_append] at hAll
    have hHere := hMin (by omega)
    have hThere := hMin' (by omega)
    rw [List.length_append, List.length_append]
    omega
  · intro hAll hPiece
    rw [List.length_append] at hAll
    have hHere := hMin (by omega)
    have hThere := hMin' (by omega)
    have hLengths := congrArg List.length hPiece
    rw [List.length_append, List.length_append] at hLengths
    rcases List.append_inj hPiece (by omega) with ⟨hOne, hTwo⟩
    exact ⟨hRight (by omega) hOne, hRight' (by omega) hTwo⟩

theorem printItems_as
    (items : List PrintfItem)
    {o t : PrintfOutput}
    (hPrint : printItems items o = some t) :
    PrintsAs o t (items.flatMap PrintfItem.rendering)
      (PrintfOk o.buf items) := by
  induction items generalizing o with
  | nil =>
      rcases Option.some.inj hPrint with rfl
      exact ⟨[], 0, (List.append_nil _).symm, (BitVec.add_zero _).symm,
        le_refl _, fun _ => le_refl _, fun _ _ => trivial⟩
  | cons item items ih =>
      rcases Option.bind_eq_some_iff.mp hPrint with ⟨u, hItem, hRest⟩
      have hBoth := (PrintfItem.print_as hItem).append (ih hRest)
      rcases hBoth with
        ⟨piece, count, hOut, hCount, hLe, hMin, hRight⟩
      refine ⟨piece, count, hOut, hCount, hLe, hMin, ?_⟩
      intro hAll hPiece
      rcases hRight hAll hPiece with ⟨⟨hOk, hBuf⟩, hItems⟩
      rw [hBuf] at hItems
      exact ⟨hOk, hItems⟩

theorem printItems_right
    (items : List PrintfItem)
    {o : PrintfOutput}
    (hOk : PrintfOk o.buf items)
    (hFew : o.count.toNat +
      (items.flatMap PrintfItem.rendering).length < 2 ^ 31) :
    ∃ buf, printItems items o =
      some (o.after (items.flatMap PrintfItem.rendering) buf) := by
  induction items generalizing o with
  | nil =>
      refine ⟨o.buf, ?_⟩
      simp [printItems, PrintfOutput.after]
  | cons item items ih =>
      rcases hOk with ⟨hItem, hItems⟩
      rw [List.flatMap_cons, List.length_append] at hFew
      have hPrint := PrintfItem.print_right hItem (by omega)
      have hCount : (o.count +
          BitVec.ofNat 32 item.rendering.length).toNat =
          o.count.toNat + item.rendering.length := by
        rw [BitVec.toNat_add, BitVec.toNat_ofNat]
        omega
      rcases @ih (o.after item.rendering (item.bufAfter o.buf)) hItems
        (by rw [PrintfOutput.after, hCount]; omega) with ⟨buf, hRest⟩
      refine ⟨buf, ?_⟩
      rw [printItems, hPrint, Option.bind_some, hRest,
        List.flatMap_cons]
      simp [PrintfOutput.after, BitVec.ofNat_add, BitVec.add_assoc]

end Items

/- A count that is small enough is returned as it is. -/
theorem toInt_count
    {n : Nat}
    (hn : n < 2 ^ 31) :
    (BitVec.ofNat 32 n).toInt = n := by
  have hNat : (BitVec.ofNat 32 n).toNat = n := by
    rw [BitVec.toNat_ofNat]
    omega
  rw [BitVec.toInt_eq_toNat_of_lt (by omega), hNat]

/-
  For every format with its arguments, and whatever the buffer
  holds: the standard rendering is printed and its length is
  returned if and only if every item meets its condition and
  the length is an `int`.
-/
theorem consolePrintf_renders_iff
    (items : List PrintfItem)
    (buf : Bytes) :
    consolePrintf (formatOf items) (items.flatMap PrintfItem.args)
        buf =
      some (((items.flatMap PrintfItem.rendering).length : Int),
        items.flatMap PrintfItem.rendering) ↔
      PrintfOk buf items ∧
        (items.flatMap PrintfItem.rendering).length < 2 ^ 31 := by
  have hLoop := printfLoop_items items (le_refl _) ⟨buf, 0#32, []⟩
  have hPrintf :
      consolePrintf (formatOf items)
          (items.flatMap PrintfItem.args) buf =
        (printItems items ⟨buf, 0#32, []⟩).map
          fun t => (t.count.toInt, t.out) := by
    simp only [consolePrintf, formatOf, hLoop]
    cases printItems items ⟨buf, 0#32, []⟩ with
    | none => rfl
    | some t => rfl
  rw [hPrintf]
  constructor
  · intro hMap
    rcases Option.map_eq_some_iff.mp hMap with ⟨t, hItems, hResult⟩
    rcases printItems_as items hItems with
      ⟨piece, count, hOut, hCount, hLe, _, hRight⟩
    have hInt := congrArg Prod.fst hResult
    have hText := congrArg Prod.snd hResult
    simp only at hInt hText
    rw [hOut, List.nil_append] at hText
    rw [hCount, BitVec.zero_add] at hInt
    have hBound := @BitVec.toInt_lt 32 (BitVec.ofNat 32 count)
    have hFew :
        (items.flatMap PrintfItem.rendering).length < 2 ^ 31 := by
      rw [hInt] at hBound
      omega
    rw [toInt_count (by omega)] at hInt
    exact ⟨hRight (by omega) hText, hFew⟩
  · rintro ⟨hOk, hFew⟩
    rcases printItems_right items hOk (o := ⟨buf, 0#32, []⟩)
      (by simpa using hFew) with ⟨after, hItems⟩
    rw [hItems, Option.map_some, PrintfOutput.after,
      BitVec.zero_add, toInt_count hFew, List.nil_append]

/-
  Even with a cleared buffer the format `%d%d` prints 12 and 3
  as 1232: the last digit of 12 is still behind the 3.
-/
theorem consolePrintf_leftover :
    let items : List PrintfItem :=
      [.number false 0 (.d 12#32), .number false 0 (.d 3#32)]
    ¬ consolePrintf (formatOf items) (items.flatMap PrintfItem.args)
        (fun _ => 0#8) =
      some (((items.flatMap PrintfItem.rendering).length : Int),
        items.flatMap PrintfItem.rendering) := by
  decide +kernel

end FeatherOS
