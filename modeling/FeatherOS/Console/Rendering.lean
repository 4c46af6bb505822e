import FeatherOS.Console.Printf

/-
  What a format says, and what is printed.

  A format of ordinary characters and conversions is a list of
  items, each with its argument. The standard rendering of an
  item is compared with what `console_printf` prints for it.

  Key definitions include:
    * `PrintfItem`
    * `PrintfItem.rendering`
    * `PrintfItem.print`
    * `PrintfOk`
    * `formatOf`

  Key theorems include:
    * `printfSpec_conversion`
    * `printfTurn_item`
    * `printfLoop_items`
-/

namespace FeatherOS

open CheckedInt (int int_of_fits)
open CyclicBuffer (front)

--------------------
-- Items
--------------------

/- The conversions of numbers, with their arguments -/
inductive PrintfNumber where
  | d (v : U32)
  | i (v : U32)
  | u (v : U32)
  | x (v : U32)
  | upperX (v : U32)
  | ld (v : U64)
  | lu (v : U64)
  | lx (v : U64)
  | zd (v : U64)
  | zu (v : U64)

/- A piece of a format with the argument that it takes -/
inductive PrintfItem where
  | ordinary (c : U8) (hOrdinary : c ≠ ascii '%' ∧ c ≠ 0#8)
  | percent
  | char (zero : Bool) (width : Fin 64) (v : U32)
  | string (zero : Bool) (width : Fin 64) (s : Option CString)
  | number (zero : Bool) (width : Fin 64) (n : PrintfNumber)
  | pointer (zero : Bool) (width : Fin 64) (v : U64)

/- The digits of `%X` are capitals. -/
def cased
    (upper : Bool)
    (text : List U8) : List U8 :=
  if upper then text.map upperChar else text

namespace PrintfNumber

def letters : PrintfNumber → List U8
  | d _ => [ascii 'd']
  | i _ => [ascii 'i']
  | u _ => [ascii 'u']
  | x _ => [ascii 'x']
  | upperX _ => [ascii 'X']
  | ld _ => [ascii 'l', ascii 'd']
  | lu _ => [ascii 'l', ascii 'u']
  | lx _ => [ascii 'l', ascii 'x']
  | zd _ => [ascii 'z', ascii 'd']
  | zu _ => [ascii 'z', ascii 'u']

def arg : PrintfNumber → PrintfArg
  | d v | i v | u v | x v | upperX v => .int v
  | ld v | lu v | lx v | zd v | zu v => .long v

def base : PrintfNumber → Nat
  | x _ | upperX _ | lx _ => 16
  | _ => 10

def upper : PrintfNumber → Bool
  | upperX _ => true
  | _ => false

/- The argument in 64 bits -/
def value : PrintfNumber → U64
  | d v | i v => v.signExtend 64
  | u v | x v | upperX v => v.setWidth 64
  | ld v | lu v | lx v | zd v | zu v => v

def negative : PrintfNumber → Bool
  | d v | i v => v.msb
  | ld v | zd v => v.msb
  | _ => false

def magnitude (n : PrintfNumber) : Nat :=
  if n.negative then (-n.value).toNat else n.value.toNat

def digits (n : PrintfNumber) : List U8 :=
  cased n.upper (numberText n.base n.magnitude)

def sign (n : PrintfNumber) : List U8 :=
  if n.negative then [ascii '-'] else []

end PrintfNumber

/- The zeros of a number go behind its sign, spaces before it. -/
def standardNumber
    (zero : Bool)
    (width : Nat)
    (sign digits : List U8) : List U8 :=
  if zero then
    sign ++ Numerals.padTo (ascii '0') (width - sign.length) digits
  else
    Numerals.padTo (ascii ' ') width (sign ++ digits)

def stringText (s : Option CString) : List U8 :=
  s.elim nullText CString.bytes

def pointerText (v : U64) : List U8 :=
  Numerals.padTo (ascii '0') 16 (numberText 16 v.toNat)

def conversionText
    (zero : Bool)
    (width : Fin 64)
    (letters : List U8) : List U8 :=
  ascii '%' ::
    ((if zero then [ascii '0'] else []) ++
      (if width.val = 0 then [] else numberText 10 width) ++ letters)

namespace PrintfItem

/- The item in the format -/
def text : PrintfItem → List U8
  | ordinary c _ => [c]
  | percent => [ascii '%', ascii '%']
  | char zero width _ => conversionText zero width [ascii 'c']
  | string zero width _ => conversionText zero width [ascii 's']
  | number zero width n => conversionText zero width n.letters
  | pointer zero width _ => conversionText zero width [ascii 'p']

def args : PrintfItem → List PrintfArg
  | ordinary _ _ | percent => []
  | char _ _ v => [.int v]
  | string _ _ s => [.string s]
  | number _ _ n => [n.arg]
  | pointer _ _ v => [.pointer v]

/- The standard rendering -/
def rendering : PrintfItem → List U8
  | ordinary c _ => [c]
  | percent => [ascii '%']
  | char _ width v =>
      Numerals.padTo (ascii ' ') width [v.setWidth 8]
  | string _ width s =>
      Numerals.padTo (ascii ' ') width (stringText s)
  | number zero width n => standardNumber zero width n.sign n.digits
  | pointer _ width v =>
      Numerals.padTo (ascii ' ') width
        ([ascii '0', ascii 'x'] ++ pointerText v)

/- The buffer after an item that is printed right -/
def bufAfter
    (buf : Bytes) :
    PrintfItem → Bytes
  | number zero width n =>
      writeBuf (standardNumber zero width n.sign n.digits) buf
  | pointer _ _ v => writeBuf (pointerText v) buf
  | _ => buf

/-
  When an item is printed right: nothing has to be padded that
  is not, a sign has a width and no spaces behind it, and the
  buffer happens to have a NUL behind the number.
-/
def Ok (buf : Bytes) : PrintfItem → Prop
  | ordinary _ _ | percent => True
  | char _ width _ => width.val ≤ 1
  | string _ width s => width.val ≤ (stringText s).length
  | number zero width n =>
      (n.negative = true →
        0 < width.val ∧ n.value ≠ BitVec.intMin 64 ∧
          (zero = true ∨ width.val ≤ n.digits.length + 1)) ∧
        buf (standardNumber zero width n.sign n.digits).length = 0#8
  | pointer _ width _ => width.val ≤ 18 ∧ buf 16 = 0#8

/- What the function does for the item -/
def print
    (o : PrintfOutput) :
    PrintfItem → Option PrintfOutput
  | ordinary c _ => printChar o c
  | percent => printChar o (ascii '%')
  | char _ _ v => printChar o (v.setWidth 8)
  | string _ _ str => some (printString o (stringText str))
  | number zero width n =>
      printNumber o n.upper 0
        (intToStr n.value n.base width.val zero n.negative)
  | pointer _ _ v => printPointer o v

end PrintfItem

/- Every item is printed right, with what is in the buffer then. -/
def PrintfOk : Bytes → List PrintfItem → Prop
  | _, [] => True
  | buf, item :: items =>
      item.Ok buf ∧ PrintfOk (item.bufAfter buf) items

--------------------
-- Parsing
--------------------

/- Neither a digit nor a dot -/
def IsLetter (c : U8) : Prop :=
  isDecimal c = false ∧ c ≠ ascii '.'

theorem IsLetter.not_zero
    {c : U8}
    (hLetter : IsLetter c) :
    c ≠ ascii '0' := by
  rintro rfl
  have hDigit : isDecimal (ascii '0') = true := by decide
  rw [hLetter.1] at hDigit
  cases hDigit

section Parse

variable {fmt : List U8}
variable {spec : PrintfSpec}
variable {c : U8}

/- The letter ends the scan. -/
theorem printfSpec_letter
    (hLetter : IsLetter c) :
    printfSpec (c :: fmt) spec false = some (spec, c :: fmt) := by
  rw [printfSpec, if_neg (by simp), if_neg hLetter.not_zero,
    if_neg (by simp [hLetter.1]), if_neg hLetter.2]

theorem printfSpec_zero
    (hWidth : spec.width = 0) :
    printfSpec (ascii '0' :: fmt) spec false =
      printfSpec fmt { spec with leadingZeros := true } false := by
  rw [printfSpec, if_neg (by simp), if_pos rfl, if_pos hWidth]

theorem tableChar_decimal :
    ∀ d < 10, isDecimal (tableChar d) = true ∧
      decimalValue (tableChar d) = d ∧
      (tableChar d = ascii '0' ↔ d = 0) := by
  decide

/- A digit is added to a width that is small or has begun. -/
theorem printfSpec_digit
    {d : Nat}
    (hd : d < 10)
    (hBegun : spec.width ≠ 0 ∨ d ≠ 0)
    (hLow : 0 ≤ spec.width)
    (hHigh : spec.width ≤ 10000) :
    printfSpec (tableChar d :: fmt) spec false =
      printfSpec fmt { spec with width := spec.width * 10 + d }
        false := by
  rcases tableChar_decimal d hd with ⟨hDigit, hValue, hZero⟩
  have hScaled : int (spec.width * 10) = some (spec.width * 10) :=
    int_of_fits ⟨by omega, by omega⟩
  have hSum : int (spec.width * 10 + d) =
      some (spec.width * 10 + d) :=
    int_of_fits ⟨by omega, by omega⟩
  rw [printfSpec, if_neg (by simp)]
  by_cases hNone : d = 0
  · rw [if_pos (hZero.mpr hNone),
      if_neg (hBegun.resolve_right (not_not.mpr hNone)), hScaled]
    simp [hNone]
  · rw [if_neg (fun h => hNone (hZero.mp h)), if_pos hDigit, hScaled,
      hValue]
    simp [hSum]

/- A width below 64 has one digit or two. -/
theorem numberText_width
    {w : Nat}
    (hPos : 0 < w)
    (hLt : w < 64) :
    numberText 10 w =
      if w < 10 then
        [tableChar w]
      else
        [tableChar (w / 10), tableChar (w % 10)] := by
  rw [numberText, Numerals.encode, Numerals.places,
    if_neg (by omega), Nat.digits_def' (by decide) hPos]
  by_cases hSmall : w < 10
  · rw [if_pos hSmall, Nat.div_eq_of_lt hSmall,
      Nat.mod_eq_of_lt hSmall, Nat.digits_zero]
    rfl
  · rw [if_neg hSmall, Nat.digits_def' (by decide) (by omega),
      Nat.div_eq_of_lt (by omega : w / 10 < 10),
      Nat.mod_eq_of_lt (by omega : w / 10 < 10), Nat.digits_zero]
    rfl

/- The flag and the width are found in front of the letter. -/
theorem printfSpec_conversion
    (zero : Bool)
    (width : Fin 64)
    (hLetter : IsLetter c) :
    printfSpec
        ((if zero then [ascii '0'] else []) ++
          (if width.val = 0 then [] else numberText 10 width) ++
          c :: fmt) ⟨false, 0, -1⟩ false =
      some (⟨zero, width.val, -1⟩, c :: fmt) := by
  have hWidth : ∀ z : Bool,
      printfSpec
          ((if width.val = 0 then [] else numberText 10 width) ++
            c :: fmt) ⟨z, 0, -1⟩ false =
        some (⟨z, width.val, -1⟩, c :: fmt) := by
    intro z
    by_cases hNone : width.val = 0
    · rw [if_pos hNone, List.nil_append, printfSpec_letter hLetter,
        hNone]
      rfl
    · rw [if_neg hNone, numberText_width (by omega) width.isLt]
      by_cases hSmall : width.val < 10
      · rw [if_pos hSmall, List.singleton_append,
          printfSpec_digit hSmall (.inr hNone) (by simp) (by simp),
          printfSpec_letter hLetter]
        simp
      · rw [if_neg hSmall, List.cons_append, List.singleton_append,
          printfSpec_digit (by omega) (.inr (by omega)) (by simp)
            (by simp),
          printfSpec_digit (by omega) (.inl (by simp; omega))
            (by simp; omega) (by simp; omega),
          printfSpec_letter hLetter]
        simp only [Option.some.injEq, Prod.mk.injEq,
          PrintfSpec.mk.injEq, and_true, true_and]
        omega
  cases zero with
  | false => exact hWidth false
  | true =>
      rw [if_pos rfl, List.append_assoc, List.singleton_append,
        printfSpec_zero rfl]
      exact hWidth true

end Parse

--------------------
-- One Item of the Format
--------------------

section Turns

variable {fmt : List U8}
variable {args : List PrintfArg}
variable {o : PrintfOutput}

/- A conversion is read up to its first letter. -/
theorem printfTurn_conversion
    (zero : Bool)
    (width : Fin 64)
    {c : U8}
    (hLetter : IsLetter c) :
    printfTurn
        ⟨(if zero then [ascii '0'] else []) ++
          (if width.val = 0 then [] else numberText 10 width) ++
          c :: fmt, args, o⟩ (ascii '%') =
      printfConversion ⟨fmt, args, o⟩ ⟨zero, width.val, -1⟩ c := by
  rw [printfTurn, if_pos ⟨rfl, by simp⟩,
    printfSpec_conversion zero width hLetter]
  rfl

theorem isLetter_letters :
    IsLetter (ascii 'c') ∧ IsLetter (ascii 's') ∧
      IsLetter (ascii 'd') ∧ IsLetter (ascii 'i') ∧
      IsLetter (ascii 'u') ∧ IsLetter (ascii 'x') ∧
      IsLetter (ascii 'X') ∧ IsLetter (ascii 'p') ∧
      IsLetter (ascii 'l') ∧ IsLetter (ascii 'z') ∧
      IsLetter (ascii '%') := by
  unfold IsLetter
  decide

theorem printSigned_eq
    (n : PrintfNumber)
    (hUpper : n.upper = false)
    (hBase : n.base = 10)
    (hNegative : n.negative = n.value.msb)
    (zero : Bool)
    (width : Fin 64) :
    printSigned o ⟨zero, width.val, -1⟩ n.value =
      (PrintfItem.number zero width n).print o := by
  rw [PrintfItem.print, hUpper, hBase, hNegative]
  rfl

theorem printUnsigned_eq
    (n : PrintfNumber)
    (hNegative : n.negative = false)
    (zero : Bool)
    (width : Fin 64) :
    printUnsigned o ⟨zero, width.val, -1⟩ n.base n.upper n.value =
      (PrintfItem.number zero width n).print o := by
  rw [PrintfItem.print, hNegative, intToStr_positive]
  rfl

theorem msb_signExtend
    (v : U32) :
    v.msb = (v.signExtend 64).msb := by
  rw [BitVec.msb_signExtend]
  simp

theorem printfConversion_number
    (zero : Bool)
    (width : Fin 64)
    (n : PrintfNumber) :
    ∃ c more, n.letters = c :: more ∧ IsLetter c ∧
      printfConversion ⟨more ++ fmt, n.arg :: args, o⟩
          ⟨zero, width.val, -1⟩ c =
        PrintfState.printed ⟨fmt, args, o⟩
          ((PrintfItem.number zero width n).print o) := by
  rcases isLetter_letters with
    ⟨_, _, hd, hi, hu, hx, hX, _, hl, hz, _⟩
  cases n with
  | d v =>
      rw [← printSigned_eq (.d v) rfl rfl (msb_signExtend v)]
      exact ⟨_, _, rfl, hd, rfl⟩
  | i v =>
      rw [← printSigned_eq (.i v) rfl rfl (msb_signExtend v)]
      exact ⟨_, _, rfl, hi, rfl⟩
  | u v =>
      rw [← printUnsigned_eq (.u v) rfl]
      exact ⟨_, _, rfl, hu, rfl⟩
  | x v =>
      rw [← printUnsigned_eq (.x v) rfl]
      exact ⟨_, _, rfl, hx, rfl⟩
  | upperX v =>
      rw [← printUnsigned_eq (.upperX v) rfl]
      exact ⟨_, _, rfl, hX, rfl⟩
  | ld v =>
      rw [← printSigned_eq (.ld v) rfl rfl rfl]
      exact ⟨_, _, rfl, hl, rfl⟩
  | lu v =>
      rw [← printUnsigned_eq (.lu v) rfl]
      exact ⟨_, _, rfl, hl, rfl⟩
  | lx v =>
      rw [← printUnsigned_eq (.lx v) rfl]
      exact ⟨_, _, rfl, hl, rfl⟩
  | zd v =>
      rw [← printSigned_eq (.zd v) rfl rfl rfl]
      exact ⟨_, _, rfl, hz, rfl⟩
  | zu v =>
      rw [← printUnsigned_eq (.zu v) rfl]
      exact ⟨_, _, rfl, hz, rfl⟩

/- One turn prints one item. -/
theorem printfTurn_item
    (item : PrintfItem) :
    ∃ c more, item.text = c :: more ∧
      printfTurn ⟨more ++ fmt, item.args ++ args, o⟩ c =
        PrintfState.printed ⟨fmt, args, o⟩ (item.print o) := by
  rcases isLetter_letters with
    ⟨hc, hs, _, _, _, _, _, hp, _, _, hPercent⟩
  cases item with
  | ordinary c hOrdinary =>
      refine ⟨c, [], rfl, ?_⟩
      rw [printfTurn, if_neg (fun h => hOrdinary.1 h.1)]
      rfl
  | percent =>
      exact ⟨_, _, rfl, printfTurn_conversion false 0 hPercent⟩
  | char zero width v =>
      refine ⟨_, _, rfl, ?_⟩
      rw [List.append_assoc, List.singleton_append]
      exact printfTurn_conversion zero width hc
  | string zero width s =>
      refine ⟨_, _, rfl, ?_⟩
      rw [List.append_assoc, List.singleton_append]
      exact printfTurn_conversion zero width hs
  | number zero width n =>
      rcases @printfConversion_number fmt args o zero width n with
        ⟨c, more, hLetters, hLetter, hPrint⟩
      refine ⟨_, _, rfl, ?_⟩
      rw [hLetters, List.append_assoc, List.cons_append, ← hPrint]
      exact printfTurn_conversion zero width hLetter
  | pointer zero width v =>
      refine ⟨_, _, rfl, ?_⟩
      rw [List.append_assoc, List.singleton_append]
      exact printfTurn_conversion zero width hp

end Turns

/- Items printed one after another -/
def printItems :
    List PrintfItem → PrintfOutput → Option PrintfOutput
  | [], o => some o
  | item :: items, o => (item.print o).bind (printItems items)

theorem printfLoop_items
    (items : List PrintfItem)
    {turns : Nat}
    (hTurns : (items.flatMap PrintfItem.text).length ≤ turns)
    (o : PrintfOutput) :
    printfLoop turns
        ⟨items.flatMap PrintfItem.text,
          items.flatMap PrintfItem.args, o⟩ =
      (printItems items o).map fun o => ⟨[], [], o⟩ := by
  induction items generalizing turns o with
  | nil =>
      cases turns with
      | zero => rfl
      | succ turns => rfl
  | cons item items ih =>
      rcases @printfTurn_item (items.flatMap PrintfItem.text)
        (items.flatMap PrintfItem.args) o item with
        ⟨c, more, hText, hTurn⟩
      rw [List.flatMap_cons, hText] at hTurns
      rw [List.flatMap_cons, List.flatMap_cons, hText]
      simp only [List.cons_append, List.length_cons,
        List.length_append] at hTurns
      rcases Nat.exists_eq_add_of_lt
        (by omega : (items.flatMap PrintfItem.text).length < turns)
        with ⟨extra, rfl⟩
      simp only [List.cons_append, printfLoop, hTurn]
      cases hPrint : item.print o with
      | none => simp [printItems, hPrint, PrintfState.printed]
      | some t =>
          have hRest :=
            @ih ((items.flatMap PrintfItem.text).length + extra)
              (by omega) t
          simp only [printItems, hPrint, PrintfState.printed,
            Option.map_some, Option.bind_eq_bind, Option.bind_some]
          exact hRest

--------------------
-- Texts Without NUL
--------------------

theorem tableChar_ne_nul :
    ∀ d < 16, tableChar d ≠ 0#8 := by
  decide

theorem numberText_noNul
    {base : Nat}
    (hBase : NumberBase base)
    (v : Nat) :
    0#8 ∉ numberText base v := by
  intro hMem
  rcases List.mem_map.mp hMem with ⟨d, hPlace, hNul⟩
  have hLt := Numerals.places_lt hBase.range.1
    (List.mem_reverse.mp hPlace)
  exact tableChar_ne_nul d (lt_of_lt_of_le hLt hBase.range.2) hNul

theorem PrintfItem.text_noNul
    (item : PrintfItem) :
    0#8 ∉ item.text := by
  have hWidth : ∀ w, 0#8 ∉ numberText 10 w :=
    numberText_noNul (.inl rfl)
  have hConversion : ∀ (zero : Bool) (width : Fin 64) letters,
      0#8 ∉ letters → 0#8 ∉ conversionText zero width letters := by
    intro zero width letters hLetters hMem
    rcases List.mem_cons.mp hMem with hNul | hMem
    · exact absurd hNul (by decide)
    · rcases List.mem_append.mp hMem with hMem | hMem
      · rcases List.mem_append.mp hMem with hMem | hMem
        · cases zero with
          | false => cases hMem
          | true => exact absurd hMem (by decide)
        · split at hMem
          · cases hMem
          · exact hWidth _ hMem
      · exact hLetters hMem
  cases item with
  | ordinary c hOrdinary =>
      intro hMem
      exact hOrdinary.2 (List.mem_singleton.mp hMem).symm
  | percent => decide
  | char zero width v => exact hConversion zero width _ (by decide)
  | string zero width s => exact hConversion zero width _ (by decide)
  | number zero width n =>
      apply hConversion zero width
      cases n <;> simp [PrintfNumber.letters, ascii]
  | pointer zero width v => exact hConversion zero width _ (by decide)

/- The format string of the items -/
def formatOf (items : List PrintfItem) : CString where
  bytes := items.flatMap PrintfItem.text
  no_nul := by
    intro hMem
    rcases List.mem_flatMap.mp hMem with ⟨item, _, hNul⟩
    exact item.text_noNul hNul

end FeatherOS
