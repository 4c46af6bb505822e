import Mathlib.Data.Nat.Digits.Defs

/-
  Byte strings at an address, and reads that stay in them.

  A read of several bytes has a result if all of them belong
  to the string. Offsets count modulo the address space.

  Key definitions include:
    * `ByteImage`
    * `ByteImage.span`
    * `ByteImage.number`
    * `ByteImage.Holds`
    * `ByteImage.numberAt`

  Key rules include:
    * `ByteImage.span_at`
    * `ByteImage.number_at`
-/

structure ByteImage where
  data : BitVec 64
  bytes : List (BitVec 8)
  fits : data.toNat + bytes.length < 2 ^ 64

namespace ByteImage

variable (im : ByteImage)

def size : Nat :=
  im.bytes.length

/- The byte at an address, if the string has one there -/
def byte
    (a : BitVec 64) : Option (BitVec 8) :=
  im.bytes[(a - im.data).toNat]?

/- The `n` bytes from `a` on -/
def span : BitVec 64 → Nat → Option (List (BitVec 8))
  | _, 0 => some []
  | a, n + 1 => do
      let b ← im.byte a
      let bs ← span (a + 1#64) n
      return b :: bs

/- The number in the `n` bytes from `a` on, the lowest first -/
def number
    (a : BitVec 64)
    (n : Nat) : Option Nat := do
  let bs ← im.span a n
  return Nat.ofDigits 256 (bs.map BitVec.toNat)

--------------------
-- Offsets
--------------------

/- The `n` bytes at an offset belong to the string. -/
def Holds
    (x n : Nat) : Prop :=
  n = 0 ∨ x % 2 ^ 64 + n ≤ im.size

instance
    (x n : Nat) :
    Decidable (im.Holds x n) :=
  inferInstanceAs (Decidable (_ ∨ _))

def slice
    (x n : Nat) : List (BitVec 8) :=
  (im.bytes.drop (x % 2 ^ 64)).take n

def numberAt
    (x n : Nat) : Nat :=
  Nat.ofDigits 256 ((im.slice x n).map BitVec.toNat)

variable {im : ByteImage}
variable {x n : Nat}

theorem size_lt :
    im.data.toNat + im.size < 2 ^ 64 :=
  im.fits

theorem slice_length
    (hHolds : im.Holds x n) :
    (im.slice x n).length = n := by
  unfold Holds size at hHolds
  rw [slice, List.length_take, List.length_drop]
  omega

theorem slice_getElem
    {k : Nat}
    (hIn : k < n) :
    (im.slice x n)[k]? = im.bytes[x % 2 ^ 64 + k]? := by
  rw [slice, List.getElem?_take_of_lt hIn, List.getElem?_drop]

theorem byte_at
    (hFit : x < 2 ^ 64) :
    im.byte (im.data + BitVec.ofNat 64 x) = im.bytes[x]? := by
  have hOff :
      (im.data + BitVec.ofNat 64 x - im.data).toNat = x := by
    rw [BitVec.add_comm, BitVec.add_sub_cancel,
      BitVec.toNat_ofNat, Nat.mod_eq_of_lt hFit]
  rw [byte, hOff]

theorem span_of_lt
    (hFit : x < 2 ^ 64) :
    im.span (im.data + BitVec.ofNat 64 x) n =
      if n = 0 ∨ x + n ≤ im.size then
        some ((im.bytes.drop x).take n)
      else
        none := by
  induction n generalizing x with
  | zero => simp [span]
  | succ n ih =>
      have hNext :
          im.data + BitVec.ofNat 64 x + 1#64 =
            im.data + BitVec.ofNat 64 (x + 1) := by
        rw [BitVec.ofNat_add, BitVec.add_assoc]
      have hSize := @size_lt im
      unfold size at hSize
      rw [span, byte_at hFit, hNext]
      rcases Nat.lt_or_ge x im.bytes.length with hIn | hOut
      · have hRest := @ih (x + 1) (by omega)
        rw [List.getElem?_eq_getElem hIn, hRest,
          List.drop_eq_getElem_cons hIn, List.take_succ_cons]
        unfold size
        by_cases hAll : n = 0 ∨ x + 1 + n ≤ im.bytes.length
        · rw [if_pos hAll, if_pos (by omega)]
          rfl
        · rw [if_neg hAll, if_neg (by omega)]
          rfl
      · rw [List.getElem?_eq_none hOut, if_neg]
        · rfl
        · unfold size
          omega

/- The read at any offset -/
theorem span_at
    (im : ByteImage)
    (x n : Nat) :
    im.span (im.data + BitVec.ofNat 64 x) n =
      if im.Holds x n then
        some (im.slice x n)
      else
        none := by
  have hMod :
      BitVec.ofNat 64 x = BitVec.ofNat 64 (x % 2 ^ 64) := by
    apply BitVec.eq_of_toNat_eq
    rw [BitVec.toNat_ofNat, BitVec.toNat_ofNat, Nat.mod_mod]
  rw [hMod, span_of_lt (Nat.mod_lt _ (by decide))]
  rfl

theorem number_at
    (im : ByteImage)
    (x n : Nat) :
    im.number (im.data + BitVec.ofNat 64 x) n =
      if im.Holds x n then
        some (im.numberAt x n)
      else
        none := by
  rw [number, span_at]
  by_cases hHolds : im.Holds x n
  · rw [if_pos hHolds, if_pos hHolds]
    rfl
  · rw [if_neg hHolds, if_neg hHolds]
    rfl

theorem numberAt_lt
    (im : ByteImage)
    (x n : Nat) :
    im.numberAt x n < 256 ^ n := by
  have hDigits :
      ∀ d ∈ (im.slice x n).map BitVec.toNat, d < 256 := by
    intro d hMem
    rcases List.mem_map.mp hMem with ⟨b, -, rfl⟩
    exact b.isLt
  have hLength :
      ((im.slice x n).map BitVec.toNat).length ≤ n := by
    rw [List.length_map]
    exact List.length_take_le _ _
  calc im.numberAt x n
      < 256 ^ ((im.slice x n).map BitVec.toNat).length :=
        Nat.ofDigits_lt_base_pow_length (by decide) hDigits
    _ ≤ 256 ^ n := Nat.pow_le_pow_right (by decide) hLength

end ByteImage
