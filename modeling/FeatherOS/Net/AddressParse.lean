import FeatherOS.Hash.Strings
import FeatherOS.Library.Fields
import FeatherOS.Net.Socket
import Mathlib.Data.List.TakeWhile

/-
  Reading an address from a string.

  `ip_addr_from_str` of `kernel/net/tcpip.c` reads four
  numbers, of any number of digits, and steps over one dot
  behind each of them. The digits may be missing, and the
  last dot may be there.

  Key definitions include:
    * `ipAddrFromStr`
    * `IsDottedQuad`
    * `IsLooseQuad`
    * `Overflows`

  Key theorems include:
    * `scanFields_done`
    * `scanFields_overflow`
    * `ipAddrFromStr_right_iff`
-/

namespace FeatherOS

open Fields (closed)

--------------------
-- The Scanner
--------------------

def dot : U8 := 0x2E#8

/- Between '0' and '9' -/
def isDigit (c : U8) : Bool :=
  0x30#8 ≤ c && c ≤ 0x39#8

def digitValue (c : U8) : Nat :=
  c.toNat - 0x30

/- A value that is too large for an int has no meaning. -/
def scanNumber :
    Nat → List U8 → Option (Nat × List U8)
  | val, [] => some (val, [])
  | val, c :: p =>
      if isDigit c then
        if val * 10 + digitValue c < 2 ^ 31 then
          scanNumber (val * 10 + digitValue c) p
        else
          none
      else
        some (val, c :: p)

def skipDot : List U8 → List U8
  | c :: p => if c = dot then p else c :: p
  | [] => []

/- What the loop over the fields comes to -/
inductive FieldScan where
  | overflow
  | tooLarge
  | done (values : List Nat) (rest : List U8)

def FieldScan.cons (val : Nat) : FieldScan → FieldScan
  | .done values rest => .done (val :: values) rest
  | .overflow => .overflow
  | .tooLarge => .tooLarge

def scanFields : Nat → List U8 → FieldScan
  | 0, p => .done [] p
  | _ + 1, [] => .done [] []
  | n + 1, c :: p =>
      match scanNumber 0 (c :: p) with
      | none => .overflow
      | some (val, p) =>
          if val > 255 then .tooLarge
          else (scanFields n (skipDot p)).cons val

/-
  The value that is returned and the address afterwards, or
  nothing if a number overflows.
-/
def ipAddrFromStr
    (str : Option CString)
    (addr : Option IpAddr) :
    Option (Int × Option IpAddr) :=
  match str, addr with
  | some str, some old =>
      match scanFields 4 str.bytes with
      | .overflow => none
      | .tooLarge => some (-1, some old)
      | .done [a, b, c, d] [] =>
          some (0,
            some
              ⟨#v[BitVec.ofNat 8 a, BitVec.ofNat 8 b,
                BitVec.ofNat 8 c, BitVec.ofNat 8 d]⟩)
      | .done _ _ => some (-1, some old)
  | _, _ => some (-1, addr)

--------------------
-- Dotted Quads
--------------------

def numberFrom
    (val : Nat)
    (f : List U8) : Nat :=
  f.foldl (fun val c => val * 10 + digitValue c) val

/- The value of some digits -/
def number (f : List U8) : Nat :=
  numberFrom 0 f

/- Digits, or none, with a value of at most 255 -/
structure SmallField (f : List U8) : Prop where
  digits : ∀ c ∈ f, isDigit c = true
  small : number f ≤ 255

def IpAddr.values (a : IpAddr) : List Nat :=
  a.addr.toList.map BitVec.toNat

/- Four numbers with single dots between them -/
def IsDottedQuad
    (str : List U8)
    (a : IpAddr) : Prop :=
  ∃ fs, str = [dot].intercalate fs ∧
    (∀ f ∈ fs, f ≠ [] ∧ SmallField f) ∧
      fs.map number = a.values

/-
  There is a dot behind the last field as well, unless it is
  not empty.
-/
def EndsLoosely
    (str : List U8)
    (fs : List (List U8)) : Prop :=
  str = closed dot fs ∨
    str = [dot].intercalate fs ∧ fs.getLast? ≠ some []

/- Four fields, of which any may be empty -/
def IsLooseQuad
    (str : List U8)
    (a : IpAddr) : Prop :=
  ∃ fs, EndsLoosely str fs ∧ (∀ f ∈ fs, SmallField f) ∧
    fs.map number = a.values

/- A number behind less than `n` fields is too large for an int. -/
def Overflows
    (n : Nat)
    (str : List U8) : Prop :=
  ∃ fs g rest, fs.length < n ∧ (∀ f ∈ fs, SmallField f) ∧
    (∀ c ∈ g, isDigit c = true) ∧ 2 ^ 31 ≤ number g ∧
      str = closed dot fs ++ g ++ rest

/- The quads are accepted and stored, and nothing else is. -/
structure FromStrRight
    (str : CString)
    (old : IpAddr) : Prop where
  quad : ∀ a, IsDottedQuad str.bytes a →
    ipAddrFromStr (some str) (some old) = some (0, some a)
  other : (∀ a, ¬ IsDottedQuad str.bytes a) →
    ipAddrFromStr (some str) (some old) = some (-1, some old)

--------------------
-- Numbers
--------------------

theorem isDigit_dot :
    isDigit dot = false := rfl

theorem numberFrom_append
    (val : Nat)
    (f g : List U8) :
    numberFrom val (f ++ g) = numberFrom (numberFrom val f) g :=
  List.foldl_append

theorem le_numberFrom
    (val : Nat)
    (f : List U8) :
    val ≤ numberFrom val f := by
  induction f generalizing val with
  | nil => exact Nat.le_refl _
  | cons c f ih =>
      have hRest := ih (val * 10 + digitValue c)
      rw [numberFrom, List.foldl_cons]
      exact Nat.le_trans (by omega) hRest

/- More digits make no smaller number. -/
theorem number_le_append
    (f g : List U8) :
    number f ≤ number (f ++ g) := by
  rw [number, number, numberFrom_append]
  exact le_numberFrom _ g

/- The digits in front are read, unless they overflow. -/
theorem scanNumber_eq
    (val : Nat)
    (hVal : val < 2 ^ 31)
    (p : List U8) :
    scanNumber val p =
      if numberFrom val (p.takeWhile isDigit) < 2 ^ 31 then
        some (numberFrom val (p.takeWhile isDigit),
          p.dropWhile isDigit)
      else
        none := by
  induction p generalizing val with
  | nil =>
      rw [scanNumber]
      exact (if_pos hVal).symm
  | cons c p ih =>
      rw [scanNumber]
      cases hDigit : isDigit c with
      | false =>
          have hNot : ¬ isDigit c = true := by simp [hDigit]
          rw [List.takeWhile_cons_of_neg hNot,
            List.dropWhile_cons_of_neg hNot, if_neg (by simp)]
          exact (if_pos hVal).symm
      | true =>
          rw [List.takeWhile_cons_of_pos hDigit,
            List.dropWhile_cons_of_pos hDigit, if_pos rfl]
          by_cases hNext : val * 10 + digitValue c < 2 ^ 31
          · rw [if_pos hNext, ih _ hNext]
            rfl
          · have hMore := le_numberFrom
              (val * 10 + digitValue c) (p.takeWhile isDigit)
            have hOver :
                ¬ numberFrom val
                    (c :: p.takeWhile isDigit) < 2 ^ 31 := by
              rw [numberFrom, List.foldl_cons]
              rw [numberFrom] at hMore
              omega
            rw [if_neg hNext, if_neg hOver]

--------------------
-- Fields
--------------------

section Scan

variable {n : Nat}
variable {p : List U8}

theorem scanFields_nil
    (n : Nat) :
    scanFields n [] = .done [] [] := by
  cases n <;> rfl

/- One turn of the loop -/
theorem scanFields_succ
    (hSome : p ≠ []) :
    scanFields (n + 1) p =
      if number (p.takeWhile isDigit) < 2 ^ 31 then
        if number (p.takeWhile isDigit) > 255 then .tooLarge
        else
          (scanFields n (skipDot (p.dropWhile isDigit))).cons
            (number (p.takeWhile isDigit))
      else
        .overflow := by
  cases p with
  | nil => exact absurd rfl hSome
  | cons c p =>
      have hScan := scanNumber_eq 0 (by omega) (c :: p)
      rw [scanFields]
      by_cases hFits :
          number ((c :: p).takeWhile isDigit) < 2 ^ 31
      · rw [hScan.trans (if_pos hFits), if_pos hFits]
        rfl
      · rw [hScan.trans (if_neg hFits), if_neg hFits]

variable {f : List U8}

/- A field that ends with a dot -/
theorem scanFields_field
    (hField : SmallField f)
    (q : List U8) :
    scanFields (n + 1) (f ++ dot :: q) =
      (scanFields n q).cons (number f) := by
  have hTake := Fields.takeWhile_field hField.digits isDigit_dot q
  have hDrop := Fields.dropWhile_field hField.digits isDigit_dot q
  have hSmall := hField.small
  rw [scanFields_succ (by simp), hTake, hDrop,
    if_pos (by omega), if_neg (by omega)]
  simp only [skipDot, if_true]

/- A field that ends with the string -/
theorem scanFields_last
    (hField : SmallField f)
    (hSome : f ≠ []) :
    scanFields (n + 1) f = .done [number f] [] := by
  have hTake := List.takeWhile_eq_self_iff.mpr hField.digits
  have hDrop := List.dropWhile_eq_nil_iff.mpr hField.digits
  have hSmall := hField.small
  rw [scanFields_succ hSome, hTake, hDrop,
    if_pos (by omega), if_neg (by omega)]
  simp only [skipDot, scanFields_nil, FieldScan.cons]

/- The loop does not get past any other character. -/
theorem scanFields_stuck
    {c : U8}
    (hDigit : isDigit c = false)
    (hDot : c ≠ dot)
    (q : List U8) :
    scanFields n (c :: q) =
      .done (List.replicate n 0) (c :: q) := by
  have hTake : (c :: q).takeWhile isDigit = [] :=
    List.takeWhile_cons_of_neg (by simp [hDigit])
  have hDrop : (c :: q).dropWhile isDigit = c :: q :=
    List.dropWhile_cons_of_neg (by simp [hDigit])
  induction n with
  | zero => rfl
  | succ n ih =>
      have hZero : number [] = 0 := rfl
      rw [scanFields_succ (by simp), hTake, hDrop, hZero,
        if_pos (by omega), if_neg (by omega)]
      simp only [skipDot, if_neg hDot, ih, FieldScan.cons]
      rfl

/- The first field of a string, and what is behind it -/
inductive FirstField (p : List U8) : Prop where
  | last
      (whole : p.takeWhile isDigit = p)
      (rest : p.dropWhile isDigit = [])
  | dotted
      (q : List U8)
      (whole : p.takeWhile isDigit ++ dot :: q = p)
      (rest : p.dropWhile isDigit = dot :: q)
  | stuck
      (c : U8)
      (q : List U8)
      (digit : isDigit c = false)
      (other : c ≠ dot)
      (rest : p.dropWhile isDigit = c :: q)

theorem first_field
    (p : List U8) :
    FirstField p := by
  have hSplit :=
    List.takeWhile_append_dropWhile (p := isDigit) (l := p)
  cases hRest : p.dropWhile isDigit with
  | nil =>
      rw [hRest, List.append_nil] at hSplit
      exact .last hSplit hRest
  | cons c q =>
      rw [hRest] at hSplit
      have hDigit : isDigit c = false := by
        have hHead := List.head?_dropWhile_not isDigit p
        rw [hRest] at hHead
        exact hHead
      by_cases hDot : c = dot
      · subst hDot
        exact .dotted q hSplit hRest
      · exact .stuck c q hDigit hDot hRest

theorem takeWhile_digits
    (p : List U8) :
    ∀ c ∈ p.takeWhile isDigit, isDigit c = true :=
  fun _ hMem => List.mem_takeWhile_imp hMem

theorem EndsLoosely.cons
    {fs : List (List U8)}
    (hEnd : EndsLoosely p fs)
    (f : List U8) :
    EndsLoosely (f ++ dot :: p) (f :: fs) := by
  rcases hEnd with rfl | ⟨rfl, hLast⟩
  · exact .inl (Fields.closed_cons f fs).symm
  · cases fs with
    | nil => exact .inl (Fields.closed_cons f []).symm
    | cons g fs => exact .inr ⟨by simp, by simpa using hLast⟩

theorem EndsLoosely.of_cons
    {fs : List (List U8)}
    (hEnd : EndsLoosely p (f :: fs))
    (hSome : fs ≠ []) :
    ∃ q, p = f ++ dot :: q ∧ EndsLoosely q fs := by
  rcases hEnd with rfl | ⟨rfl, hLast⟩
  · exact ⟨_, Fields.closed_cons f fs, .inl rfl⟩
  · rw [List.getLast?_cons_of_ne_nil hSome] at hLast
    rw [List.intercalate_cons_of_ne_nil hSome]
    exact ⟨_, by simp, .inr ⟨rfl, hLast⟩⟩

theorem endsLoosely_singleton
    {f : List U8} :
    EndsLoosely p [f] ↔ p = f ++ [dot] ∨ p = f ∧ f ≠ [] := by
  simp [EndsLoosely]

/- Fields that end so are read to their end. -/
theorem scanFields_of_fields
    {fs : List (List U8)}
    (hFields : ∀ f ∈ fs, SmallField f)
    (hEnd : EndsLoosely p fs) :
    scanFields fs.length p = .done (fs.map number) [] := by
  induction fs generalizing p with
  | nil =>
      rcases hEnd with rfl | ⟨rfl, _⟩
      · rfl
      · rfl
  | cons f fs ih =>
      have hField := hFields f List.mem_cons_self
      cases fs with
      | nil =>
          rcases endsLoosely_singleton.mp hEnd with
            rfl | ⟨rfl, hSome⟩
          · exact scanFields_field hField []
          · exact scanFields_last hField hSome
      | cons g fs =>
          rcases hEnd.of_cons (by simp) with ⟨q, rfl, hRest⟩
          rw [List.length_cons, scanFields_field hField,
            ih (fun f hMem => hFields f (.tail _ hMem)) hRest]
          rfl

/- What is read to its end are fields that end so. -/
theorem fields_of_scanFields
    {values : List Nat}
    (hDone : scanFields n p = .done values [])
    (hAll : values.length = n) :
    ∃ fs, fs.length = n ∧ EndsLoosely p fs ∧
      (∀ f ∈ fs, SmallField f) ∧ fs.map number = values := by
  induction n generalizing p values with
  | zero =>
      rw [scanFields] at hDone
      cases hDone
      exact ⟨[], rfl, .inl rfl, by simp, rfl⟩
  | succ n ih =>
      by_cases hSome : p = []
      · subst hSome
        cases hDone
        cases hAll
      · rw [scanFields_succ hSome] at hDone
        split_ifs at hDone with hFits hLarge
        have hField : SmallField (p.takeWhile isDigit) :=
          ⟨takeWhile_digits p, by omega⟩
        cases hNext :
            scanFields n (skipDot (p.dropWhile isDigit)) with
        | overflow =>
            rw [hNext] at hDone
            cases hDone
        | tooLarge =>
            rw [hNext] at hDone
            cases hDone
        | done rest left =>
            rw [hNext] at hDone
            cases hDone
            have hLength : rest.length = n := Nat.succ.inj hAll
            cases first_field p with
            | last hWhole hRest =>
                rw [hRest, skipDot, scanFields_nil] at hNext
                cases hNext
                subst hLength
                rw [hWhole] at hField
                refine ⟨[p], rfl, ?_, by simpa using hField, ?_⟩
                · exact endsLoosely_singleton.mpr
                    (.inr ⟨rfl, hSome⟩)
                · rw [hWhole]
                  rfl
            | dotted q hWhole hRest =>
                rw [hRest, skipDot, if_pos rfl] at hNext
                rcases ih hNext hLength with
                  ⟨fs, hCount, hEnd, hFields, hValues⟩
                refine ⟨p.takeWhile isDigit :: fs,
                  congrArg Nat.succ hCount, ?_, ?_, ?_⟩
                · have hCons := hEnd.cons (p.takeWhile isDigit)
                  rw [hWhole] at hCons
                  exact hCons
                · rintro f (_ | ⟨_, hMem⟩)
                  · exact hField
                  · exact hFields f hMem
                · rw [List.map_cons, hValues]
            | stuck c q hDigit hOther hRest =>
                rw [hRest, skipDot, if_neg hOther,
                  scanFields_stuck hDigit hOther] at hNext
                cases hNext

theorem scanFields_done
    {values : List Nat}
    (hAll : values.length = n) :
    scanFields n p = .done values [] ↔
      ∃ fs, EndsLoosely p fs ∧ (∀ f ∈ fs, SmallField f) ∧
        fs.map number = values := by
  constructor
  · intro hDone
    rcases fields_of_scanFields hDone hAll with
      ⟨fs, _, hEnd, hFields, hValues⟩
    exact ⟨fs, hEnd, hFields, hValues⟩
  · rintro ⟨fs, hEnd, hFields, rfl⟩
    rw [← hAll, List.length_map]
    exact scanFields_of_fields hFields hEnd

/- The digits of a text that begins with digits -/
theorem number_le_takeWhile
    {g : List U8}
    (hDigits : ∀ c ∈ g, isDigit c = true)
    (rest : List U8) :
    number g ≤ number ((g ++ rest).takeWhile isDigit) := by
  rw [List.takeWhile_append_of_pos hDigits]
  exact number_le_append g _

theorem scanFields_of_overflow
    (hOver : Overflows n p) :
    scanFields n p = .overflow := by
  rcases hOver with
    ⟨fs, g, rest, hCount, hFields, hDigits, hLarge, rfl⟩
  induction n generalizing fs with
  | zero => exact absurd hCount (Nat.not_lt_zero _)
  | succ n ih =>
      cases fs with
      | nil =>
          have hSome : g ++ rest ≠ [] := by
            intro hEmpty
            have hNil := (List.append_eq_nil_iff.mp hEmpty).1
            subst hNil
            exact absurd hLarge (by decide)
          have hMore := number_le_takeWhile hDigits rest
          rw [Fields.closed_nil, List.nil_append,
            scanFields_succ hSome, if_neg (by omega)]
      | cons f fs =>
          rw [Fields.closed_cons, List.append_assoc,
            List.append_assoc, List.cons_append,
            scanFields_field (hFields f List.mem_cons_self),
            ← List.append_assoc,
            ih fs (Nat.lt_of_succ_lt_succ hCount)
              fun f hMem => hFields f (.tail _ hMem)]
          rfl

theorem overflow_of_scanFields
    (hOver : scanFields n p = .overflow) :
    Overflows n p := by
  induction n generalizing p with
  | zero => cases hOver
  | succ n ih =>
      by_cases hSome : p = []
      · subst hSome
        cases hOver
      · rw [scanFields_succ hSome] at hOver
        split_ifs at hOver with hFits hLarge
        · have hField : SmallField (p.takeWhile isDigit) :=
            ⟨takeWhile_digits p, by omega⟩
          cases hNext :
              scanFields n (skipDot (p.dropWhile isDigit)) with
          | done rest left =>
              rw [hNext] at hOver
              cases hOver
          | tooLarge =>
              rw [hNext] at hOver
              cases hOver
          | overflow =>
              cases first_field p with
              | last hWhole hRest =>
                  rw [hRest, skipDot, scanFields_nil] at hNext
                  cases hNext
              | dotted q hWhole hRest =>
                  rw [hRest, skipDot, if_pos rfl] at hNext
                  rcases ih hNext with
                    ⟨fs, g, rest, hCount, hFields, hDigits,
                      hNumber, rfl⟩
                  refine ⟨p.takeWhile isDigit :: fs, g, rest,
                    Nat.succ_lt_succ hCount, ?_, hDigits,
                    hNumber, ?_⟩
                  · rintro f (_ | ⟨_, hMem⟩)
                    · exact hField
                    · exact hFields f hMem
                  · rw [Fields.closed_cons, List.append_assoc,
                      List.append_assoc, List.cons_append,
                      ← List.append_assoc (closed dot fs),
                      hWhole]
              | stuck c q hDigit hOther hRest =>
                  rw [hRest, skipDot, if_neg hOther,
                    scanFields_stuck hDigit hOther] at hNext
                  cases hNext
        · exact ⟨[], p.takeWhile isDigit, p.dropWhile isDigit,
            Nat.succ_pos n, by simp, takeWhile_digits p,
            Nat.not_lt.mp hFits, by simp⟩

/- The loop overflows at a number that it reaches. -/
theorem scanFields_overflow :
    scanFields n p = .overflow ↔ Overflows n p :=
  ⟨overflow_of_scanFields, scanFields_of_overflow⟩

end Scan

--------------------
-- Addresses
--------------------

theorem IpAddr.exists_octets
    (a : IpAddr) :
    ∃ w x y z, a = ⟨#v[w, x, y, z]⟩ := by
  rcases a with ⟨⟨⟨octets⟩, hSize⟩⟩
  match octets, hSize with
  | [w, x, y, z], _ => exact ⟨w, x, y, z, rfl⟩

theorem IpAddr.length_values
    (a : IpAddr) :
    a.values.length = 4 := by
  simp [IpAddr.values]

/- Four small values are those of an address. -/
theorem IpAddr.exists_values
    {v w x y : Nat}
    (hSmall : ∀ val ∈ [v, w, x, y], val ≤ 255) :
    ∃ a : IpAddr, a.values = [v, w, x, y] := by
  refine ⟨⟨#v[BitVec.ofNat 8 v, BitVec.ofNat 8 w,
    BitVec.ofNat 8 x, BitVec.ofNat 8 y]⟩, ?_⟩
  simp only [List.mem_cons, List.not_mem_nil, or_false,
    forall_eq_or_imp, forall_eq] at hSmall
  rcases hSmall with ⟨hv, hw, hx, hy⟩
  have hByte : ∀ val, val ≤ 255 →
      (BitVec.ofNat 8 val).toNat = val := by
    intro val hVal
    rw [BitVec.toNat_ofNat]
    omega
  simp [IpAddr.values, hByte v hv, hByte w hw, hByte x hx,
    hByte y hy]

section FromStr

variable {str : CString}
variable {old a : IpAddr}

theorem isLooseQuad_iff :
    IsLooseQuad str.bytes a ↔
      scanFields 4 str.bytes = .done a.values [] :=
  (scanFields_done a.length_values).symm

theorem IsDottedQuad.loose
    (hQuad : IsDottedQuad str.bytes a) :
    IsLooseQuad str.bytes a := by
  rcases hQuad with ⟨fs, hStr, hFields, hValues⟩
  refine ⟨fs, .inr ⟨hStr, ?_⟩,
    fun f hMem => (hFields f hMem).2, hValues⟩
  intro hLast
  exact (hFields [] (List.mem_of_getLast? hLast)).1 rfl

/- A loose quad is accepted. -/
theorem ipAddrFromStr_loose
    (hLoose : IsLooseQuad str.bytes a)
    (old : IpAddr) :
    ipAddrFromStr (some str) (some old) = some (0, some a) := by
  rcases a.exists_octets with ⟨w, x, y, z, rfl⟩
  have hScan := isLooseQuad_iff.mp hLoose
  simp only [ipAddrFromStr, hScan, IpAddr.values]
  simp

theorem ipAddrFromStr_overflow
    (hOver : Overflows 4 str.bytes)
    (old : IpAddr) :
    ipAddrFromStr (some str) (some old) = none := by
  simp only [ipAddrFromStr, scanFields_overflow.mpr hOver]

/- Everything else is not, and changes nothing. -/
theorem ipAddrFromStr_other
    (hFits : ¬ Overflows 4 str.bytes)
    (hNot : ∀ a, ¬ IsLooseQuad str.bytes a)
    (old : IpAddr) :
    ipAddrFromStr (some str) (some old) =
      some (-1, some old) := by
  simp only [ipAddrFromStr]
  split
  next hScan => exact absurd (scanFields_overflow.mp hScan) hFits
  next => rfl
  next v w x y hScan =>
    rcases fields_of_scanFields hScan rfl with
      ⟨fs, _, hEnd, hFields, hValues⟩
    have hSmall : ∀ val ∈ [v, w, x, y], val ≤ 255 := by
      rw [← hValues]
      intro val hMem
      rcases List.mem_map.mp hMem with ⟨f, hF, rfl⟩
      exact (hFields f hF).small
    rcases IpAddr.exists_values hSmall with ⟨a, ha⟩
    exact absurd ⟨fs, hEnd, hFields, hValues.trans ha.symm⟩
      (hNot a)
  next => rfl

end FromStr

/-
  A string is read as it should be if and only if no number
  overflows on the way, and it is a quad if its fields are
  those of one.
-/
theorem ipAddrFromStr_right_iff
    (str : CString)
    (old : IpAddr) :
    FromStrRight str old ↔
      ¬ Overflows 4 str.bytes ∧
        ∀ a, IsLooseQuad str.bytes a →
          IsDottedQuad str.bytes a := by
  constructor
  · intro hRight
    constructor
    · intro hOver
      have hNone := ipAddrFromStr_overflow hOver old
      by_cases hQuad : ∃ a, IsDottedQuad str.bytes a
      · rcases hQuad with ⟨a, hQuad⟩
        rw [hRight.quad a hQuad] at hNone
        cases hNone
      · rw [hRight.other (not_exists.mp hQuad)] at hNone
        cases hNone
    · intro a hLoose
      have hAccepted := ipAddrFromStr_loose hLoose old
      by_cases hQuad : ∃ a, IsDottedQuad str.bytes a
      · rcases hQuad with ⟨b, hQuad⟩
        rw [hRight.quad b hQuad] at hAccepted
        cases hAccepted
        exact hQuad
      · rw [hRight.other (not_exists.mp hQuad)] at hAccepted
        cases hAccepted
  · rintro ⟨hFits, hStrict⟩
    constructor
    · intro a hQuad
      exact ipAddrFromStr_loose hQuad.loose old
    · intro hNone
      exact ipAddrFromStr_other hFits
        (fun a hLoose => hNone a (hStrict a hLoose)) old

/- "1..2.3", which is read as 1.0.2.3 -/
def emptyField : CString :=
  ⟨[0x31#8, dot, dot, 0x32#8, dot, 0x33#8], by decide⟩

theorem ipAddrFromStr_empty_field :
    ¬ ∀ (str : CString) (old : IpAddr),
      FromStrRight str old := by
  intro hAll
  have hOther : ∀ a, ¬ IsDottedQuad emptyField.bytes a := by
    rintro a ⟨fs, hStr, hFields, hValues⟩
    have hSome : fs ≠ [] := by
      rintro rfl
      cases hStr
    have hClosed : closed dot [[0x31#8], [], [0x32#8], [0x33#8]] =
        closed dot fs := by
      rw [← Fields.intercalate_append hSome, ← hStr]
      rfl
    have hSame := Fields.closed_injective isDigit_dot
      (by decide) (fun f hMem => (hFields f hMem).2.digits) hClosed
    have hEmpty : [] ∈ fs := by
      rw [← hSame]
      decide
    exact (hFields [] hEmpty).1 rfl
  have hResult := (hAll emptyField ipAny).other hOther
  revert hResult
  decide +kernel

end FeatherOS
