import Mathlib.Data.Nat.Digits.Lemmas

/-
  Numbers as texts.

  A numeral has the most significant digit first and at least
  one digit. The characters of the digits are a parameter, and
  so are the values of characters.

  Key definitions include:
    * `Numerals.encode`
    * `Numerals.decode`
    * `Numerals.padTo`

  Key rules include:
    * `Numerals.decode_encode`
    * `Numerals.encode_leading`
    * `Numerals.length_encode_le`
-/

namespace Numerals

variable {α : Type}

/- The digits of a number, the least significant one first -/
def places (base v : Nat) : List Nat :=
  if v = 0 then [0] else Nat.digits base v

def encode
    (base : Nat)
    (char : Nat → α)
    (v : Nat) : List α :=
  (places base v).reverse.map char

/- The number that a text stands for, if all are digits -/
def decode
    (base : Nat)
    (value : α → Option Nat)
    (text : List α) : Option Nat :=
  text.foldlM (fun v c => (value c).map fun d => v * base + d) 0

/- A text on the right of `width` characters -/
def padTo
    (c : α)
    (width : Nat)
    (text : List α) : List α :=
  List.replicate (width - text.length) c ++ text

variable {base v : Nat}
variable {char : Nat → α}
variable {value : α → Option Nat}

theorem length_padTo
    (c : α)
    (width : Nat)
    (text : List α) :
    (padTo c width text).length = max width text.length := by
  rw [padTo, List.length_append, List.length_replicate]
  omega

theorem places_ne_nil
    (base v : Nat) :
    places base v ≠ [] := by
  unfold places
  split
  · simp
  · exact Nat.digits_ne_nil_iff_ne_zero.mpr ‹_›

theorem encode_ne_nil
    (base : Nat)
    (char : Nat → α)
    (v : Nat) :
    encode base char v ≠ [] := by
  unfold encode
  simp [places_ne_nil]

theorem places_lt
    (hBase : 1 < base)
    {d : Nat}
    (hMem : d ∈ places base v) :
    d < base := by
  unfold places at hMem
  split at hMem
  · rcases List.mem_singleton.mp hMem with rfl
    omega
  · exact Nat.digits_lt_base hBase hMem

theorem ofDigits_places
    (base v : Nat) :
    Nat.ofDigits base (places base v) = v := by
  unfold places
  split
  next hZero => simp [hZero]
  next => exact Nat.ofDigits_digits base v

/- Every digit adds the next lower place. -/
theorem decode_reverse
    {ds : List Nat}
    (hChar : ∀ d ∈ ds, value (char d) = some d) :
    decode base value (ds.reverse.map char) =
      some (Nat.ofDigits base ds) := by
  induction ds with
  | nil => rfl
  | cons d ds ih =>
      have hRest := ih fun e hMem =>
        hChar e (List.mem_cons_of_mem d hMem)
      rw [decode] at hRest
      rw [decode, List.reverse_cons, List.map_append,
        List.foldlM_append, hRest, Nat.ofDigits_cons]
      simp [hChar d List.mem_cons_self, Nat.add_comm, Nat.mul_comm]

/- A numeral stands for its number, -/
theorem decode_encode
    (hBase : 1 < base)
    (hChar : ∀ d < base, value (char d) = some d)
    (v : Nat) :
    decode base value (encode base char v) = some v := by
  rw [encode, decode_reverse, ofDigits_places]
  intro d hMem
  exact hChar d (places_lt hBase hMem)

/- and has no zero in front but the one of zero. -/
theorem encode_leading
    (hBase : 1 < base)
    (hChar : ∀ d < base, value (char d) = some d)
    (hLeading : (encode base char v).head? = some (char 0)) :
    encode base char v = [char 0] := by
  by_cases hZero : v = 0
  · rw [encode, places, if_pos hZero]
    rfl
  · rw [encode, places, if_neg hZero, List.head?_map,
      List.head?_reverse] at hLeading
    have hSome := Nat.digits_ne_nil_iff_ne_zero (b := base).mpr hZero
    rw [List.getLast?_eq_some_getLast hSome, Option.map_some]
      at hLeading
    have hLast := Nat.getLast_digit_ne_zero base hZero
    have hLt := Nat.digits_lt_base hBase (List.getLast_mem hSome)
    have hSame := congrArg value (Option.some.inj hLeading)
    rw [hChar _ hLt, hChar 0 (by omega)] at hSame
    exact absurd (Option.some.inj hSame) hLast

theorem length_encode_le
    (hBase : 1 < base)
    {k : Nat}
    (hk : 0 < k)
    (hLt : v < base ^ k) :
    (encode base char v).length ≤ k := by
  rw [encode, List.length_map, List.length_reverse, places]
  split
  · exact hk
  · exact (Nat.digits_length_le_iff hBase v).mpr hLt

end Numerals
