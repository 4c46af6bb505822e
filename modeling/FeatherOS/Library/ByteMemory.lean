import FeatherOS.Library.Extents
import Mathlib.Data.Nat.Basic

/-
  Byte memories with 64-bit addresses.

  A patch replaces the bytes from an address on; a store is
  the patch of the eight bytes of a word, the lowest first.

  Key definitions include:
    * `ByteMemory.patch`
    * `ByteMemory.put`
    * `ByteMemory.moved`
    * `ByteMemory.load`
    * `ByteMemory.store`

  Key theorems include:
    * `ByteMemory.load_store`
    * `ByteMemory.put_concat`
    * `ByteMemory.moved_succ`
-/

abbrev ByteMemory := BitVec 64 → BitVec 8

namespace ByteMemory

/- The `n` bytes from `a` on become `bytes`. -/
def patch
    (m : ByteMemory)
    (a : BitVec 64)
    (n : Nat)
    (bytes : Nat → BitVec 8) :
    ByteMemory :=
  fun b =>
    if (b - a).toNat < n then bytes (b - a).toNat else m b

/- The word at `a`. -/
def load
    (m : ByteMemory)
    (a : BitVec 64) :
    BitVec 64 :=
  m (a + 7#64) ++ m (a + 6#64) ++ m (a + 5#64) ++
    m (a + 4#64) ++ m (a + 3#64) ++ m (a + 2#64) ++
    m (a + 1#64) ++ m (a + 0#64)

def store
    (m : ByteMemory)
    (a word : BitVec 64) :
    ByteMemory :=
  m.patch a 8 fun i => word.extractLsb' (8 * i) 8

--------------------
-- Patches
--------------------

variable {a b : BitVec 64}
variable {m : ByteMemory}
variable {bytes : Nat → BitVec 8}
variable {n i : Nat}

/- The bytes outside a patch stay. -/
theorem patch_outside
    (hFit : a.toNat + n ≤ 2 ^ 64)
    (hOut : b.toNat < a.toNat ∨ a.toNat + n ≤ b.toNat) :
    m.patch a n bytes b = m b := by
  have hFar : ¬ (b - a).toNat < n := by
    rw [BitVec.toNat_sub]
    omega
  simp only [patch, hFar, if_false]

theorem patch_inside
    (hIn : i < n)
    (hFit : n ≤ 2 ^ 64) :
    m.patch a n bytes (a + BitVec.ofNat 64 i) = bytes i := by
  have hOff : (a + BitVec.ofNat 64 i - a).toNat = i := by
    rw [BitVec.add_comm, BitVec.add_sub_cancel,
      BitVec.toNat_ofNat]
    omega
  simp only [patch, hOff, hIn, if_true]

/- A patch and a byte at offsets from one address. -/
theorem patch_offset
    {x y n : Nat}
    (hByte : x < 2 ^ 64)
    (hEnd : y + n ≤ 2 ^ 64) :
    m.patch (a + BitVec.ofNat 64 y) n bytes
        (a + BitVec.ofNat 64 x) =
      if y ≤ x ∧ x < y + n then
        bytes (x - y)
      else
        m (a + BitVec.ofNat 64 x) := by
  have hOff :
      (a + BitVec.ofNat 64 x - (a + BitVec.ofNat 64 y)).toNat =
        (2 ^ 64 - y % 2 ^ 64 + x) % 2 ^ 64 := by
    simp only [BitVec.toNat_sub, BitVec.toNat_add,
      BitVec.toNat_ofNat]
    omega
  unfold patch
  rw [hOff]
  by_cases hIn : y ≤ x ∧ x < y + n
  · have hSub : (2 ^ 64 - y % 2 ^ 64 + x) % 2 ^ 64 = x - y := by
      omega
    rw [hSub, if_pos hIn, if_pos (by omega)]
  · rw [if_neg hIn, if_neg (by omega)]

/- A copy to a block leaves the bytes of another. -/
theorem patch_apart
    {a d : BitVec 64}
    {n size i : Nat}
    (hBytes : a.toNat + n ≤ 2 ^ 64)
    (hFit : d.toNat + size ≤ 2 ^ 64)
    (hApart : Extent.Apart ⟨a.toNat, n⟩ ⟨d.toNat, size⟩)
    (hi : i < size) :
    m.patch a n bytes (d + BitVec.ofNat 64 i) =
      m (d + BitVec.ofNat 64 i) := by
  have hAt : (d + BitVec.ofNat 64 i).toNat = d.toNat + i := by
    rw [BitVec.toNat_add, BitVec.toNat_ofNat]
    omega
  unfold Extent.Apart at hApart
  apply patch_outside hBytes
  simp only at hApart
  omega

theorem store_outside
    {a b word : BitVec 64}
    (hFit : a.toNat + 8 ≤ 2 ^ 64)
    (hOut : b.toNat < a.toNat ∨ a.toNat + 8 ≤ b.toNat) :
    m.store a word b = m b :=
  patch_outside hFit hOut

--------------------
-- Lists
--------------------

/- The bytes from `a` on become those of a list. -/
def put
    (m : ByteMemory)
    (a : BitVec 64)
    (bytes : List (BitVec 8)) :
    ByteMemory :=
  m.patch a bytes.length fun i => bytes.getD i 0#8

/- The byte of the list, if the list reaches so far -/
theorem put_apply
    (m : ByteMemory)
    (a b : BitVec 64)
    (bytes : List (BitVec 8)) :
    m.put a bytes b = bytes[(b - a).toNat]?.getD (m b) := by
  rw [put, patch]
  split
  next hIn =>
    rw [List.getD_eq_getElem?_getD, List.getElem?_eq_getElem hIn]
    rfl
  next hOut =>
    rw [List.getElem?_eq_none (Nat.not_lt.mp hOut)]
    rfl

theorem put_inside
    {bytes : List (BitVec 8)}
    (hIn : i < bytes.length)
    (hFit : bytes.length ≤ 2 ^ 64) :
    m.put a bytes (a + BitVec.ofNat 64 i) = bytes[i] := by
  rw [put, patch_inside hIn hFit, List.getD_eq_getElem?_getD,
    List.getElem?_eq_getElem hIn]
  rfl

@[simp] theorem put_nil
    (m : ByteMemory)
    (a : BitVec 64) :
    m.put a [] = m := by
  funext b
  rw [put_apply]
  rfl

/- A list that is put over the end of another one -/
theorem put_over
    {m : ByteMemory}
    {a : BitVec 64}
    {xs ys zs : List (BitVec 8)}
    (hOver : zs.length ≤ ys.length)
    (hFit : xs.length + ys.length ≤ 2 ^ 64) :
    (m.put a (xs ++ zs)).put
        (a + BitVec.ofNat 64 xs.length) ys =
      m.put a (xs ++ ys) := by
  funext b
  have hOff :
      (b - (a + BitVec.ofNat 64 xs.length)).toNat =
        (2 ^ 64 - xs.length % 2 ^ 64 + (b - a).toNat) %
          2 ^ 64 := by
    simp only [BitVec.toNat_sub, BitVec.toNat_add,
      BitVec.toNat_ofNat]
    omega
  have hLt := (b - a).isLt
  rw [put_apply, put_apply, put_apply, hOff]
  generalize (b - a).toNat = d at *
  by_cases hBefore : d < xs.length
  · have hFar :
        ys.length ≤
          (2 ^ 64 - xs.length % 2 ^ 64 + d) % 2 ^ 64 := by
      omega
    rw [List.getElem?_eq_none hFar,
      List.getElem?_append_left hBefore,
      List.getElem?_append_left hBefore]
    rfl
  · have hNear :
        (2 ^ 64 - xs.length % 2 ^ 64 + d) % 2 ^ 64 =
          d - xs.length := by
      omega
    have hBehind := Nat.not_lt.mp hBefore
    rw [hNear, List.getElem?_append_right hBehind,
      List.getElem?_append_right hBehind]
    by_cases hIn : d - xs.length < ys.length
    · rw [List.getElem?_eq_getElem hIn]
      rfl
    · have hOut := Nat.not_lt.mp hIn
      rw [List.getElem?_eq_none hOut,
        List.getElem?_eq_none (Nat.le_trans hOver hOut)]
      rfl

/- One byte that is written -/
theorem update_eq_put
    (m : ByteMemory)
    (a x) :
    Function.update m a x = m.put a [x] := by
  funext b
  rw [put_apply]
  by_cases hSame : b = a
  · subst hSame
    rw [Function.update_self, BitVec.sub_self]
    rfl
  · have hFar : [x].length ≤ (b - a).toNat := by
      rw [List.length_singleton]
      bv_omega
    rw [Function.update_of_ne hSame,
      List.getElem?_eq_none hFar]
    rfl

/- One byte more -/
theorem put_concat
    {m : ByteMemory}
    {a : BitVec 64}
    {xs : List (BitVec 8)}
    (hFit : xs.length < 2 ^ 64)
    (x : BitVec 8) :
    Function.update (m.put a xs)
        (a + BitVec.ofNat 64 xs.length) x =
      m.put a (xs ++ [x]) := by
  have hOver :=
    @put_over m a xs [x] [] (Nat.zero_le _) hFit
  rw [List.append_nil] at hOver
  rw [update_eq_put, hOver]

--------------------
-- Moves
--------------------

/- The bytes from `src` on, at the offsets of `dest` in between -/
def moved
    (m : ByteMemory)
    (dest src : BitVec 64)
    (lo hi : Nat) :
    ByteMemory :=
  fun b =>
    if lo ≤ (b - dest).toNat ∧ (b - dest).toNat < hi then
      m (src + (b - dest))
    else
      m b

section Moves

variable {m : ByteMemory}
variable {dest src : BitVec 64}
variable {lo hi : Nat}

theorem moved_none
    (n : Nat) :
    m.moved dest src n n = m := by
  funext b
  rw [moved, if_neg (by omega)]

/- A byte is moved or not. -/
theorem moved_offset
    (hFit : i < 2 ^ 64) :
    m.moved dest src lo hi (dest + BitVec.ofNat 64 i) =
      if lo ≤ i ∧ i < hi then
        m (src + BitVec.ofNat 64 i)
      else
        m (dest + BitVec.ofNat 64 i) := by
  have hOff :
      dest + BitVec.ofNat 64 i - dest = BitVec.ofNat 64 i := by
    rw [BitVec.add_comm, BitVec.add_sub_cancel]
  rw [moved, hOff, BitVec.toNat_ofNat, Nat.mod_eq_of_lt hFit]

theorem moved_outside
    (hFit : dest.toNat + hi ≤ 2 ^ 64)
    (hOut : b.toNat < dest.toNat ∨ dest.toNat + hi ≤ b.toNat) :
    m.moved dest src lo hi b = m b := by
  have hFar : ¬ (b - dest).toNat < hi := by
    rw [BitVec.toNat_sub]
    omega
  rw [moved, if_neg fun hIn => hFar hIn.2]

/- The offset of an address is that of one byte. -/
theorem sub_eq_iff
    (hFit : i < 2 ^ 64) :
    b = dest + BitVec.ofNat 64 i ↔ (b - dest).toNat = i := by
  bv_omega

/- One byte more at the end -/
theorem moved_succ
    (hLe : lo ≤ hi)
    (hFit : hi < 2 ^ 64) :
    Function.update (m.moved dest src lo hi)
        (dest + BitVec.ofNat 64 hi)
        (m (src + BitVec.ofNat 64 hi)) =
      m.moved dest src lo (hi + 1) := by
  funext b
  by_cases hHere : b = dest + BitVec.ofNat 64 hi
  · subst hHere
    rw [Function.update_self, moved_offset hFit,
      if_pos ⟨hLe, Nat.lt_succ_self hi⟩]
  · have hOff : (b - dest).toNat ≠ hi :=
      fun hOff => hHere ((sub_eq_iff hFit).mpr hOff)
    rw [Function.update_of_ne hHere, moved, moved]
    refine if_congr ?_ rfl rfl
    omega

/- One byte more at the start -/
theorem moved_pred
    (hLt : lo < hi)
    (hFit : hi ≤ 2 ^ 64) :
    Function.update (m.moved dest src (lo + 1) hi)
        (dest + BitVec.ofNat 64 lo)
        (m (src + BitVec.ofNat 64 lo)) =
      m.moved dest src lo hi := by
  have hFits : lo < 2 ^ 64 := by omega
  funext b
  by_cases hHere : b = dest + BitVec.ofNat 64 lo
  · subst hHere
    rw [Function.update_self, moved_offset hFits,
      if_pos ⟨Nat.le_refl lo, hLt⟩]
  · have hOff : (b - dest).toNat ≠ lo :=
      fun hOff => hHere ((sub_eq_iff hFits).mpr hOff)
    rw [Function.update_of_ne hHere, moved, moved]
    refine if_congr ?_ rfl rfl
    omega

end Moves

--------------------
-- Words
--------------------

/- A word depends on its eight bytes only. -/
theorem load_congr
    {m m' : ByteMemory}
    (hSame : ∀ i < 8, m' (a + BitVec.ofNat 64 i) =
      m (a + BitVec.ofNat 64 i)) :
    m'.load a = m.load a := by
  unfold load
  rw [hSame 7 (by omega), hSame 6 (by omega),
    hSame 5 (by omega), hSame 4 (by omega),
    hSame 3 (by omega), hSame 2 (by omega),
    hSame 1 (by omega), hSame 0 (by omega)]

theorem load_patch
    (hFit : a.toNat + n ≤ 2 ^ 64)
    (hFitWord : b.toNat + 8 ≤ 2 ^ 64)
    (hApart : b.toNat + 8 ≤ a.toNat ∨
      a.toNat + n ≤ b.toNat) :
    (m.patch a n bytes).load b = m.load b := by
  refine load_congr fun i hi => patch_outside hFit ?_
  have hByte : (b + BitVec.ofNat 64 i).toNat = b.toNat + i := by
    rw [BitVec.toNat_add, BitVec.toNat_ofNat]
    omega
  omega

/- Eight bytes put together again. -/
theorem append_bytes
    (word : BitVec 64) :
    (word.extractLsb' 56 8 ++ word.extractLsb' 48 8 ++
      word.extractLsb' 40 8 ++ word.extractLsb' 32 8 ++
      word.extractLsb' 24 8 ++ word.extractLsb' 16 8 ++
      word.extractLsb' 8 8 ++ word.extractLsb' 0 8 :
        BitVec 64) = word := by
  apply BitVec.eq_of_getLsbD_eq
  intro i hi
  simp only [BitVec.getLsbD_append, BitVec.getLsbD_extractLsb']
  grind

theorem load_store
    (m : ByteMemory)
    (a word : BitVec 64) :
    (m.store a word).load a = word := by
  have hByte : ∀ i < 8,
      m.store a word (a + BitVec.ofNat 64 i) =
        word.extractLsb' (8 * i) 8 := by
    intro i hi
    exact patch_inside hi (by omega)
  unfold load
  rw [hByte 7 (by omega), hByte 6 (by omega),
    hByte 5 (by omega), hByte 4 (by omega),
    hByte 3 (by omega), hByte 2 (by omega),
    hByte 1 (by omega), hByte 0 (by omega)]
  exact append_bytes word

end ByteMemory
