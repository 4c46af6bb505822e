import FeatherOS.Library.CyclicBuffer
import FeatherOS.Net.AddressParse

/-
  Writing an address as a string.

  `ip_addr_to_str` of `kernel/net/tcpip.c` writes the tens of
  an octet if what is left of it has any, or, behind the
  first octet only, if the octet has.

  Key definitions include:
    * `ipAddrToStr`
    * `IpAddr.dottedText`
    * `PrintsBack`

  Key theorems include:
    * `octetDigits_first`
    * `putText_string`
    * `ipAddrToStr_prints_iff`
-/

namespace FeatherOS

open CyclicBuffer (front)

--------------------
-- Writing
--------------------

/- '0' + val -/
def digitChar (val : Nat) : U8 :=
  BitVec.ofNat 8 (0x30 + val)

/- The digits that are written of octet `i` -/
def octetDigits
    (i : Nat)
    (octet : U8) : List U8 :=
  let (text, val) :=
    if octet.toNat ≥ 100 then
      ([digitChar (octet.toNat / 100)], octet.toNat % 100)
    else
      ([], octet.toNat)
  let (text, val) :=
    if val ≥ 10 ∨ (i > 0 ∧ octet.toNat ≥ 10) then
      (text ++ [digitChar (val / 10)], val % 10)
    else
      (text, val)
  text ++ [digitChar val]

/- The loop over the octets, which ends behind `stop` characters -/
def putOctets
    (stop : Int) :
    Nat → List U8 → List U8 → List U8
  | _, [], text => text
  | i, octet :: rest, text =>
      if (text.length : Int) < stop then
        putOctets stop (i + 1) rest
          (text ++ (if i > 0 then [dot] else []) ++
            octetDigits i octet)
      else
        text

/- What is written: the text, and a NUL behind it -/
def ipAddrText
    (addr : IpAddr)
    (len : U64) : List U8 :=
  putOctets ((len.setWidth 32).toInt - 1) 0 addr.addr.toList []
    ++ [0#8]

/- The buffer afterwards -/
def ipAddrToStr
    (addr : Option IpAddr)
    (buf : Option Bytes)
    (len : U64) :
    Option Bytes :=
  match addr, buf with
  | some addr, some buf =>
      some fun i => (ipAddrText addr len)[i]?.getD (buf i)
  | _, buf => buf

--------------------
-- Dotted Decimal
--------------------

/- A number in decimal, without leading zeros -/
def decimalText (n : Nat) : List U8 :=
  (Nat.toDigits 10 n).map fun c => BitVec.ofNat 8 c.toNat

def IpAddr.dottedText (a : IpAddr) : List U8 :=
  [dot].intercalate (a.values.map decimalText)

/- The string in the first bytes of a buffer -/
def Bytes.string
    (buf : Bytes)
    (n : Nat) :
    CString where
  bytes := (front buf n).takeWhile fun c => c ≠ 0#8
  no_nul := by
    intro hMem
    have hNot := List.mem_takeWhile_imp hMem
    simp at hNot

/-
  Sixteen bytes hold the text, which is the one that the
  address has and is read back as the address.
-/
def PrintsBack
    (a : IpAddr)
    (buf : Bytes)
    (old : IpAddr) : Prop :=
  ∃ printed, ipAddrToStr (some a) (some buf) 16#64 =
      some printed ∧
    (∀ i, 16 ≤ i → printed i = buf i) ∧
    0#8 ∈ front printed 16 ∧
    (printed.string 16).bytes = a.dottedText ∧
    ipAddrFromStr (some (printed.string 16)) (some old) =
      some (0, some a)

--------------------
-- One Octet
--------------------

/- What the digits of a number are -/
theorem decimalText_octet
    (octet : U8) :
    decimalText octet.toNat ≠ [] ∧
      (∀ c ∈ decimalText octet.toNat, isDigit c = true) ∧
        number (decimalText octet.toNat) = octet.toNat := by
  have hText :
      decimalText octet.toNat ≠ [] ∧
        (decimalText octet.toNat).all isDigit = true ∧
          number (decimalText octet.toNat) = octet.toNat := by
    revert octet
    decide +kernel
  exact ⟨hText.1, List.all_eq_true.mp hText.2.1, hText.2.2⟩

/- Only the first octet is written in another way. -/
theorem octetDigits_later
    {i : Nat}
    (hi : i > 0)
    (octet : U8) :
    octetDigits i octet = decimalText octet.toNat := by
  have hOne : octetDigits i octet = octetDigits 1 octet := by
    simp only [octetDigits, hi, Nat.one_pos, gt_iff_lt]
  rw [hOne]
  clear hOne hi i
  revert octet
  decide +kernel

/- The tens of 100 to 109 and of 200 to 209 are left out. -/
theorem octetDigits_first
    (octet : U8) :
    octetDigits 0 octet = decimalText octet.toNat ↔
      ¬ (100 ≤ octet.toNat ∧ octet.toNat % 100 < 10) := by
  revert octet
  decide +kernel

theorem octetDigits_digits
    (octet : U8) :
    (octetDigits 0 octet).length ≤ 3 ∧
      (decimalText octet.toNat).length ≤ 3 ∧
        ∀ c ∈ octetDigits 0 octet, isDigit c = true := by
  have hText :
      (octetDigits 0 octet).length ≤ 3 ∧
        (decimalText octet.toNat).length ≤ 3 ∧
          (octetDigits 0 octet).all isDigit = true := by
    revert octet
    decide +kernel
  exact ⟨hText.1, hText.2.1, List.all_eq_true.mp hText.2.2⟩

--------------------
-- The Text
--------------------

section Text

variable {w x y z : U8}

/- The fields of the text -/
def printedFields (w x y z : U8) : List (List U8) :=
  [octetDigits 0 w, decimalText x.toNat, decimalText y.toNat,
    decimalText z.toNat]

theorem printedFields_digits :
    ∀ f ∈ printedFields w x y z, ∀ c ∈ f, isDigit c = true := by
  intro f hMem
  simp only [printedFields, List.mem_cons, List.not_mem_nil,
    or_false] at hMem
  rcases hMem with rfl | rfl | rfl | rfl
  · exact (octetDigits_digits w).2.2
  · exact (decimalText_octet x).2.1
  · exact (decimalText_octet y).2.1
  · exact (decimalText_octet z).2.1

theorem length_printed :
    ([dot].intercalate (printedFields w x y z)).length ≤ 15 := by
  have hw := (octetDigits_digits w).1
  have hx := (octetDigits_digits x).2.1
  have hy := (octetDigits_digits y).2.1
  have hz := (octetDigits_digits z).2.1
  simp [printedFields]
  omega

/- All four octets fit into sixteen bytes. -/
theorem ipAddrText_sixteen :
    ipAddrText ⟨#v[w, x, y, z]⟩ 16#64 =
      [dot].intercalate (printedFields w x y z) ++ [0#8] := by
  have hw := (octetDigits_digits w).1
  have hx := (octetDigits_digits x).2.1
  have hy := (octetDigits_digits y).2.1
  have hStop : ((16#64).setWidth 32).toInt - 1 = 15 := rfl
  have hOctets :
      (⟨#v[w, x, y, z]⟩ : IpAddr).addr.toList =
        [w, x, y, z] := rfl
  rw [ipAddrText, hStop, hOctets]
  simp only [putOctets, Nat.lt_irrefl, Nat.zero_lt_succ,
    gt_iff_lt, if_true, if_false, octetDigits_later]
  rw [if_pos (by simp), if_pos (by simp; omega),
    if_pos (by simp; omega), if_pos (by simp; omega)]
  simp [printedFields]

/- A character of a text is not its end. -/
theorem no_nul_of_fields
    {fs : List (List U8)}
    (hDigits : ∀ f ∈ fs, ∀ c ∈ f, isDigit c = true) :
    ∀ c ∈ [dot].intercalate fs, c ≠ 0#8 := by
  have hDigit : ∀ c : U8, isDigit c = true → c ≠ 0#8 := by
    rintro c hc rfl
    cases hc
  induction fs with
  | nil => simp
  | cons f fs ih =>
      have hFirst := hDigits f List.mem_cons_self
      by_cases hLast : fs = []
      · subst hLast
        rw [List.intercalate_singleton]
        exact fun c hMem => hDigit c (hFirst c hMem)
      · rw [List.intercalate_cons_of_ne_nil hLast]
        intro c hMem
        rcases List.mem_append.mp hMem with hMem | hMem
        · rcases List.mem_append.mp hMem with hMem | hMem
          · exact hDigit c (hFirst c hMem)
          · rw [List.mem_singleton.mp hMem]
            decide
        · exact ih (fun f hF => hDigits f (.tail _ hF)) c hMem

end Text

/- A text with its end, put at the start of a buffer -/
def putText
    (text : List U8)
    (buf : Bytes) : Bytes :=
  fun i => (text ++ [0#8])[i]?.getD (buf i)

theorem string_bytes
    (buf : Bytes)
    (n : Nat) :
    (buf.string n).bytes =
      (front buf n).takeWhile fun c => c ≠ 0#8 := rfl

theorem front_putText
    (text : List U8)
    (buf : Bytes)
    (n : Nat) :
    ∃ rest,
      front (putText text buf) (text.length + 1 + n) =
        text ++ 0#8 :: rest := by
  have hText :
      front (putText text buf) (text.length + 1) =
        text ++ [0#8] := by
    have hAll := CyclicBuffer.front_getD (text ++ [0#8]) 0#8
    rw [List.length_append, List.length_singleton] at hAll
    rw [← hAll]
    apply CyclicBuffer.front_congr
    intro i hi
    have hIn : i < (text ++ [0#8]).length := by simpa using hi
    rw [putText, List.getD_eq_getElem?_getD,
      List.getElem?_eq_getElem hIn]
    rfl
  refine ⟨front (fun i => putText text buf (text.length + 1 + i))
    n, ?_⟩
  rw [CyclicBuffer.front_add, hText, List.append_assoc]
  rfl

/- The text can be read back, and nothing else is written. -/
theorem putText_string
    {text : List U8}
    (hChars : ∀ c ∈ text, c ≠ 0#8)
    (hFits : text.length ≤ 15)
    (buf : Bytes) :
    (∀ i, 16 ≤ i → putText text buf i = buf i) ∧
      0#8 ∈ front (putText text buf) 16 ∧
        ((putText text buf).string 16).bytes = text := by
  rcases front_putText text buf (15 - text.length) with
    ⟨rest, hFront⟩
  have hSize : text.length + 1 + (15 - text.length) = 16 := by
    omega
  rw [hSize] at hFront
  refine ⟨?_, ?_, ?_⟩
  · intro i hi
    have hOut : (text ++ [0#8]).length ≤ i := by
      simp
      omega
    rw [putText, List.getElem?_eq_none hOut]
    rfl
  · rw [hFront]
    simp
  · rw [string_bytes, hFront]
    exact Fields.takeWhile_field (by simpa using hChars)
      (by simp) rest

section Print

variable {w x y z : U8}

theorem dottedText_octets :
    (⟨#v[w, x, y, z]⟩ : IpAddr).dottedText =
      [dot].intercalate
        [decimalText w.toNat, decimalText x.toNat,
          decimalText y.toNat, decimalText z.toNat] := rfl

/- The text is the right one if its first field is. -/
theorem printed_eq_iff :
    [dot].intercalate (printedFields w x y z) =
        (⟨#v[w, x, y, z]⟩ : IpAddr).dottedText ↔
      octetDigits 0 w = decimalText w.toNat := by
  constructor
  · intro hSame
    have hClosed := congrArg (fun text => text ++ [dot]) hSame
    simp only [dottedText_octets] at hClosed
    rw [Fields.intercalate_append (by simp [printedFields]),
      Fields.intercalate_append (by simp)] at hClosed
    have hFields := Fields.closed_injective isDigit_dot
      printedFields_digits
      (by
        intro f hMem
        simp only [List.mem_cons, List.not_mem_nil, or_false]
          at hMem
        rcases hMem with rfl | rfl | rfl | rfl
        all_goals exact (decimalText_octet _).2.1)
      hClosed
    exact (List.cons.inj hFields).1
  · intro hFirst
    rw [printedFields, hFirst]
    rfl

/- The canonical text is a quad. -/
theorem dottedText_quad
    (a : IpAddr) :
    IsDottedQuad a.dottedText a := by
  refine ⟨a.values.map decimalText, rfl, ?_, ?_⟩
  · intro f hMem
    simp only [IpAddr.values, List.map_map, List.mem_map,
      Function.comp_apply] at hMem
    rcases hMem with ⟨octet, _, rfl⟩
    rcases decimalText_octet octet with ⟨hSome, hDigits, hNumber⟩
    refine ⟨hSome, hDigits, ?_⟩
    have hLt := octet.isLt
    omega
  · rw [IpAddr.values, List.map_map, List.map_map]
    apply List.map_congr_left
    intro octet _
    exact (decimalText_octet octet).2.2

end Print

/-
  An address is printed and read back if and only if its
  first octet is not 100 to 109 or 200 to 209.
-/
theorem ipAddrToStr_prints_iff
    (a : IpAddr)
    (buf : Bytes)
    (old : IpAddr) :
    PrintsBack a buf old ↔
      ¬ (100 ≤ (a.addr.get 0).toNat ∧
        (a.addr.get 0).toNat % 100 < 10) := by
  rcases a.exists_octets with ⟨w, x, y, z, rfl⟩
  have hChars := no_nul_of_fields (printedFields_digits
    (w := w) (x := x) (y := y) (z := z))
  have hHolds := putText_string hChars length_printed buf
  have hPrinted :
      ipAddrToStr (some ⟨#v[w, x, y, z]⟩) (some buf) 16#64 =
        some (putText
          ([dot].intercalate (printedFields w x y z)) buf) := by
    rw [ipAddrToStr, ipAddrText_sixteen]
    rfl
  have hFirst :
      (⟨#v[w, x, y, z]⟩ : IpAddr).addr.get 0 = w := rfl
  rw [hFirst, ← octetDigits_first, ← printed_eq_iff (x := x)
    (y := y) (z := z)]
  constructor
  · rintro ⟨printed, hCall, _, _, hText, _⟩
    rw [hPrinted] at hCall
    cases hCall
    exact hHolds.2.2.symm.trans hText
  · intro hSame
    have hText := hHolds.2.2.trans hSame
    refine ⟨_, hPrinted, hHolds.1, hHolds.2.1, hText, ?_⟩
    have hQuad := dottedText_quad ⟨#v[w, x, y, z]⟩
    rw [← hText] at hQuad
    exact ipAddrFromStr_loose hQuad.loose old

/- 105.0.0.0 is written as "15.0.0.0". -/
theorem ipAddrToStr_tens :
    ¬ ∀ (a : IpAddr) (buf : Bytes) (old : IpAddr),
      PrintsBack a buf old := by
  intro hAll
  rcases hAll ⟨#v[105, 0, 0, 0]⟩ (fun _ => 0#8) ipAny with
    ⟨printed, hCall, _, _, hText, _⟩
  cases hCall
  revert hText
  decide +kernel

end FeatherOS
