import FeatherOS.Console.NumberText
import FeatherOS.Fifo.Model
import FeatherOS.Hash.Strings
import FeatherOS.Library.CyclicBuffer

/-
  Formatted output of `kernel/printk.c`.

  `console_printf` prints numbers through a buffer of 64
  characters that is never cleared, and the converters write
  no NUL: what an earlier number left behind is printed too.
  There is no result where the buffer or the format is left,
  an argument does not match, or an `int` overflows.

  Key definitions include:
    * `printfSpec`
    * `printfTurn`
    * `consolePrintf`
-/

namespace FeatherOS

open CheckedInt (int)
open CyclicBuffer (front)

--------------------
-- State
--------------------

/- What `va_arg` finds -/
inductive PrintfArg where
  | int (v : U32)
  | long (v : U64)
  | string (s : Option CString)
  | pointer (v : U64)

/- `buf`, `count`, and what is printed -/
structure PrintfOutput where
  buf : Bytes
  count : U32
  out : List U8

/- What is left of the format and of the arguments -/
structure PrintfState where
  fmt : List U8
  args : List PrintfArg
  output : PrintfOutput

def popInt : List PrintfArg → Option (U32 × List PrintfArg)
  | .int v :: args => some (v, args)
  | _ => none

def popLong : List PrintfArg → Option (U64 × List PrintfArg)
  | .long v :: args => some (v, args)
  | _ => none

def popString :
    List PrintfArg → Option (Option CString × List PrintfArg)
  | .string s :: args => some (s, args)
  | _ => none

def popPointer : List PrintfArg → Option (U64 × List PrintfArg)
  | .pointer v :: args => some (v, args)
  | _ => none

--------------------
-- Output
--------------------

/- `output_char(c)` and `count++` -/
def printChar
    (o : PrintfOutput)
    (c : U8) : Option PrintfOutput :=
  if o.count = BitVec.intMax 32 then
    none
  else
    some { o with count := o.count + 1#32, out := o.out ++ [c] }

/- `count += len`, in `size_t` -/
def addSize
    (count : U32)
    (len : U64) : U32 :=
  (count.signExtend 64 + len).setWidth 32

/- `output_string(s)` and `count += strlen(s)` -/
def printString
    (o : PrintfOutput)
    (text : List U8) : PrintfOutput :=
  { o with
    count := addSize o.count (BitVec.ofNat 64 text.length)
    out := o.out ++ text }

/- The converters write from the start of the buffer. -/
def writeBuf
    (text : List U8)
    (buf : Bytes) : Bytes :=
  fun i => text[i]?.getD (buf i)

def writeText
    (text : List U8)
    (buf : Bytes) : Option Bytes :=
  if text.length > 64 then none else some (writeBuf text buf)

/- The string in the buffer, which must end in it -/
def bufString (buf : Bytes) : Option (List U8) :=
  if 0#8 ∈ front buf 64 then
    some ((front buf 64).takeWhile fun c => c ≠ 0#8)
  else
    none

def upperChar (c : U8) : U8 :=
  if c ≥ ascii 'a' ∧ c ≤ ascii 'f' then
    c - ascii 'a' + ascii 'A'
  else
    c

/- The loop of `%X` over the string in the buffer -/
def upperBuf (buf : Bytes) : Option Bytes := do
  let str ← bufString buf
  return fun i => if i < str.length then upperChar (buf i) else buf i

def casedBuf
    (upper : Bool)
    (buf : Bytes) : Option Bytes :=
  if upper then upperBuf buf else some buf

/- A number, and the `extra` characters to count with it -/
def printNumber
    (o : PrintfOutput)
    (upper : Bool)
    (extra : Nat)
    (number : Option (List U8 × U64)) : Option PrintfOutput := do
  let (text, len) ← number
  let buf ← writeText text o.buf
  let buf ← casedBuf upper buf
  let str ← bufString buf
  return { o with
    buf := buf
    count := addSize o.count (BitVec.ofNat 64 extra + len)
    out := o.out ++ str }

--------------------
-- Conversions
--------------------

/- What is parsed behind the percent sign -/
structure PrintfSpec where
  leadingZeros : Bool
  width : Int
  precision : Int

def isDecimal (c : U8) : Bool :=
  ascii '0' ≤ c && c ≤ ascii '9'

def decimalValue (c : U8) : Int :=
  c.toNat - (ascii '0').toNat

/-
  The flags, the width and the precision, in whose digits the
  loop is or not
-/
def printfSpec :
    List U8 → PrintfSpec → Bool → Option (PrintfSpec × List U8)
  | [], spec, _ => some (spec, [])
  | c :: fmt, spec, inPrecision =>
      if inPrecision && isDecimal c then do
        let scaled ← int (spec.precision * 10)
        let precision ← int (scaled + decimalValue c)
        printfSpec fmt { spec with precision := precision } true
      else if c = ascii '0' then
        if spec.width = 0 then
          printfSpec fmt { spec with leadingZeros := true } false
        else do
          let width ← int (spec.width * 10)
          printfSpec fmt { spec with width := width } false
      else if isDecimal c then do
        let scaled ← int (spec.width * 10)
        let width ← int (scaled + decimalValue c)
        printfSpec fmt { spec with width := width } false
      else if c = ascii '.' then
        printfSpec fmt { spec with precision := 0 } true
      else
        some (spec, c :: fmt)

def nullText : List U8 :=
  "(null)".toList.map ascii

def printSigned
    (o : PrintfOutput)
    (spec : PrintfSpec)
    (value : U64) : Option PrintfOutput :=
  printNumber o false 0
    (intToStr value 10 spec.width spec.leadingZeros value.msb)

def printUnsigned
    (o : PrintfOutput)
    (spec : PrintfSpec)
    (base : Nat)
    (upper : Bool)
    (value : U64) : Option PrintfOutput :=
  printNumber o upper 0
    (uintToStr value base spec.width spec.leadingZeros)

/- `count += 2 + len` behind the `0x` -/
def printPointer
    (o : PrintfOutput)
    (value : U64) : Option PrintfOutput :=
  printNumber { o with out := o.out ++ [ascii '0', ascii 'x'] } false
    2 (uintToStr value 16 16 true)

/- The state with another output -/
def PrintfState.printed
    (s : PrintfState)
    (o : Option PrintfOutput) : Option PrintfState :=
  o.map fun o => { s with output := o }

/- Behind an `l`; any other letter is left where it is. -/
def printfLong
    (s : PrintfState)
    (spec : PrintfSpec) : Option PrintfState :=
  match s.fmt with
  | [] => s.printed (printChar s.output (ascii '%'))
  | c :: fmt =>
      if c = ascii 'd' ∨ c = ascii 'i' then do
        let (v, args) ← popLong s.args
        { s with fmt := fmt, args := args }.printed
          (printSigned s.output spec v)
      else if c = ascii 'u' then do
        let (v, args) ← popLong s.args
        { s with fmt := fmt, args := args }.printed
          (printUnsigned s.output spec 10 false v)
      else if c = ascii 'x' then do
        let (v, args) ← popLong s.args
        { s with fmt := fmt, args := args }.printed
          (printUnsigned s.output spec 16 false v)
      else
        s.printed (printChar s.output (ascii '%'))

/- Behind a `z` there is no `x`. -/
def printfSize
    (s : PrintfState)
    (spec : PrintfSpec) : Option PrintfState :=
  match s.fmt with
  | [] => s.printed (printChar s.output (ascii '%'))
  | c :: fmt =>
      if c = ascii 'd' ∨ c = ascii 'i' then do
        let (v, args) ← popLong s.args
        { s with fmt := fmt, args := args }.printed
          (printSigned s.output spec v)
      else if c = ascii 'u' then do
        let (v, args) ← popLong s.args
        { s with fmt := fmt, args := args }.printed
          (printUnsigned s.output spec 10 false v)
      else
        s.printed (printChar s.output (ascii '%'))

/- The switch on the letter, with `p` behind it -/
def printfConversion
    (s : PrintfState)
    (spec : PrintfSpec)
    (c : U8) : Option PrintfState :=
  if c = ascii 'c' then do
    let (v, args) ← popInt s.args
    { s with args := args }.printed
      (printChar s.output (v.setWidth 8))
  else if c = ascii 's' then do
    let (str, args) ← popString s.args
    { s with args := args }.printed
      (some (printString s.output (str.elim nullText CString.bytes)))
  else if c = ascii 'd' ∨ c = ascii 'i' then do
    let (v, args) ← popInt s.args
    { s with args := args }.printed
      (printSigned s.output spec (v.signExtend 64))
  else if c = ascii 'u' then do
    let (v, args) ← popInt s.args
    { s with args := args }.printed
      (printUnsigned s.output spec 10 false (v.setWidth 64))
  else if c = ascii 'x' then do
    let (v, args) ← popInt s.args
    { s with args := args }.printed
      (printUnsigned s.output spec 16 false (v.setWidth 64))
  else if c = ascii 'X' then do
    let (v, args) ← popInt s.args
    { s with args := args }.printed
      (printUnsigned s.output spec 16 true (v.setWidth 64))
  else if c = ascii 'p' then do
    let (v, args) ← popPointer s.args
    { s with args := args }.printed (printPointer s.output v)
  else if c = ascii 'l' then
    printfLong s spec
  else if c = ascii 'z' then
    printfSize s spec
  else if c = ascii '%' then
    s.printed (printChar s.output (ascii '%'))
  else
    if s.output.count.toInt + 2 > 2147483647 then
      none
    else
      s.printed (some { s.output with
        count := s.output.count + 2#32
        out := s.output.out ++ [ascii '%', c] })

--------------------
-- The Loop
--------------------

/- One turn, with the first character of the format apart -/
def printfTurn
    (s : PrintfState)
    (c : U8) : Option PrintfState :=
  if c = ascii '%' ∧ s.fmt ≠ [] then do
    let (spec, fmt) ← printfSpec s.fmt ⟨false, 0, -1⟩ false
    match fmt with
    | [] => none
    | c :: fmt => printfConversion { s with fmt := fmt } spec c
  else
    s.printed (printChar s.output c)

/- Every turn takes a character of the format at least. -/
def printfLoop : Nat → PrintfState → Option PrintfState
  | 0, s => if s.fmt = [] then some s else none
  | turns + 1, s =>
      match s.fmt with
      | [] => some s
      | c :: fmt => do
          let t ← printfTurn { s with fmt := fmt } c
          printfLoop turns t

/- What is returned and what is printed -/
def consolePrintf
    (fmt : CString)
    (args : List PrintfArg)
    (buf : Bytes) : Option (Int × List U8) := do
  let s ← printfLoop fmt.bytes.length
    ⟨fmt.bytes, args, ⟨buf, 0#32, []⟩⟩
  return (s.output.count.toInt, s.output.out)

end FeatherOS
