import FeatherOS.Hash.Strings
import FeatherOS.Library.ByteMemory

/-
  The string functions of `kernel/string.c` over a memory of
  bytes: loops that go on to a NUL or for a number of turns.

  Key definitions include:
    * `strlen`
    * `strcpy`
    * `memcpy`
    * `StringAt`

  Key theorems include:
    * `strlen_string`
    * `strcpy_string`
    * `memcpy_string`
-/

namespace FeatherOS

--------------------
-- Functions
--------------------

/- The loop of `strlen`, for at most `turns` characters -/
def strlenFrom
    (m : ByteMemory)
    (s : Addr) :
    Nat → U64 → U64
  | 0, len => len
  | turns + 1, len =>
      if m (s + len) = 0#8 then len
      else strlenFrom m s turns (len + 1)

/- A string ends before the memory does. -/
def strlen
    (m : ByteMemory)
    (s : Addr) : U64 :=
  strlenFrom m s (2 ^ 64) 0

def strcpyFrom
    (dest src : Addr) :
    Nat → U64 → ByteMemory → ByteMemory
  | 0, _, m => m
  | turns + 1, i, m =>
      if m (src + i) = 0#8 then
        Function.update m (dest + i) 0#8
      else
        strcpyFrom dest src turns (i + 1)
          (Function.update m (dest + i) (m (src + i)))

def strcpy
    (m : ByteMemory)
    (dest src : Addr) : ByteMemory :=
  strcpyFrom dest src (2 ^ 64) 0 m

/- The loop of `memcpy`, with its number of turns -/
def memcpyFrom
    (dest src : Addr) :
    Nat → U64 → ByteMemory → ByteMemory
  | 0, _, m => m
  | turns + 1, i, m =>
      memcpyFrom dest src turns (i + 1)
        (Function.update m (dest + i) (m (src + i)))

def memcpy
    (m : ByteMemory)
    (dest src : Addr)
    (n : U64) : ByteMemory :=
  memcpyFrom dest src n.toNat 0 m

--------------------
-- Strings in Memory
--------------------

/- The characters of a string and the NUL behind them -/
def CString.closed (str : CString) : List U8 :=
  str.bytes ++ [0#8]

/- A string lies at `s`, and ends before the memory does. -/
structure StringAt
    (m : ByteMemory)
    (s : Addr)
    (str : CString) : Prop where
  fits : s.toNat + str.closed.length ≤ 2 ^ 64
  holds : ∀ (i : Nat) (hi : i < str.closed.length),
    m (s + BitVec.ofNat 64 i) = str.closed[i]

/- The part of the memory that a string takes -/
def CString.extent
    (str : CString)
    (s : Addr) : Extent :=
  ⟨s.toNat, str.closed.length⟩

section Strings

variable {m : ByteMemory}
variable {s dest : Addr}
variable {str : CString}

theorem CString.length_closed :
    str.closed.length = str.bytes.length + 1 := by
  simp [CString.closed]

variable {i turns : Nat}

/- What is read at a place of the string -/
theorem StringAt.read
    (hAt : StringAt m s str)
    (hi : i < str.bytes.length) :
    m (s + BitVec.ofNat 64 i) = str.bytes[i] ∧
      str.bytes[i] ≠ 0#8 := by
  have hHolds := hAt.holds i
    (by rw [CString.length_closed]; omega)
  refine ⟨hHolds.trans ?_, ?_⟩
  · exact List.getElem_append_left hi
  · intro hNul
    exact str.no_nul (hNul ▸ List.getElem_mem hi)

theorem StringAt.nul
    (hAt : StringAt m s str) :
    m (s + BitVec.ofNat 64 str.bytes.length) = 0#8 := by
  have hHolds := hAt.holds str.bytes.length
    (by rw [CString.length_closed]; omega)
  rw [hHolds]
  simp [CString.closed]

theorem StringAt.length_lt
    (hAt : StringAt m s str) :
    str.bytes.length < 2 ^ 64 := by
  have hFits := hAt.fits
  rw [CString.length_closed] at hFits
  omega

theorem ofNat_succ
    (i : Nat) :
    BitVec.ofNat 64 i + 1 = BitVec.ofNat 64 (i + 1) :=
  (BitVec.ofNat_add ..).symm

theorem strlenFrom_string
    (hAt : StringAt m s str)
    (hTurns : str.bytes.length - i < turns)
    (hi : i ≤ str.bytes.length) :
    strlenFrom m s turns (BitVec.ofNat 64 i) =
      BitVec.ofNat 64 str.bytes.length := by
  induction turns generalizing i with
  | zero => exact absurd hTurns (Nat.not_lt_zero _)
  | succ turns ih =>
      rw [strlenFrom]
      by_cases hEnd : i = str.bytes.length
      · subst hEnd
        rw [if_pos hAt.nul]
      · have hRead := hAt.read (i := i) (by omega)
        rw [if_neg (hRead.1 ▸ hRead.2), ofNat_succ]
        exact ih (by omega) (by omega)

/- The length of the string that lies there -/
theorem strlen_string
    (hAt : StringAt m s str) :
    strlen m s = BitVec.ofNat 64 str.bytes.length :=
  strlenFrom_string hAt hAt.length_lt (Nat.zero_le _)

/- A string that lies apart from what is put stays there. -/
theorem StringAt.put
    (hAt : StringAt m s str)
    {bytes : List U8}
    (hFits : dest.toNat + bytes.length ≤ 2 ^ 64)
    (hApart :
      Extent.Apart ⟨dest.toNat, bytes.length⟩ (str.extent s)) :
    StringAt (m.put dest bytes) s str where
  fits := hAt.fits
  holds := fun i hi =>
    (ByteMemory.patch_apart hFits hAt.fits hApart hi).trans
      (hAt.holds i hi)

/- One character more of a string -/
theorem update_take
    {bytes : List U8}
    {i : Nat}
    (hi : i < bytes.length)
    (hFits : bytes.length ≤ 2 ^ 64) :
    Function.update (m.put dest (bytes.take i))
        (dest + BitVec.ofNat 64 i) bytes[i] =
      m.put dest (bytes.take (i + 1)) := by
  have hLength : (bytes.take i).length = i := by
    rw [List.length_take]
    omega
  have hConcat := @ByteMemory.put_concat m dest _
    (hLength.trans_lt (by omega)) bytes[i]
  rw [hLength] at hConcat
  rw [hConcat, List.take_append_getElem hi]

theorem strcpyFrom_string
    (hAt : StringAt m s str)
    (hFits : dest.toNat + str.closed.length ≤ 2 ^ 64)
    (hApart :
      Extent.Apart ⟨dest.toNat, str.closed.length⟩ (str.extent s))
    (hTurns : str.bytes.length - i < turns)
    (hi : i ≤ str.bytes.length) :
    strcpyFrom dest s turns (BitVec.ofNat 64 i)
        (m.put dest (str.bytes.take i)) =
      m.put dest str.closed := by
  induction turns generalizing i with
  | zero => exact absurd hTurns (Nat.not_lt_zero _)
  | succ turns ih =>
      have hLength : (str.bytes.take i).length ≤
          str.closed.length := by
        rw [List.length_take, CString.length_closed]
        omega
      have hThere :
          StringAt (m.put dest (str.bytes.take i)) s str :=
        hAt.put (by omega) (hApart.shorter hLength)
      rw [strcpyFrom]
      by_cases hEnd : i = str.bytes.length
      · subst hEnd
        rw [if_pos hThere.nul, List.take_length,
          ByteMemory.put_concat hAt.length_lt]
        rfl
      · have hRead := hThere.read (i := i) (by omega)
        have hNext := @update_take m dest str.bytes i
          (by omega) hAt.length_lt.le
        rw [if_neg (hRead.1 ▸ hRead.2), hRead.1, hNext,
          ofNat_succ]
        exact ih (by omega) (by omega)

/- The string and its NUL are copied. -/
theorem strcpy_string
    (hAt : StringAt m s str)
    (hFits : dest.toNat + str.closed.length ≤ 2 ^ 64)
    (hApart :
      Extent.Apart ⟨dest.toNat, str.closed.length⟩
        (str.extent s)) :
    strcpy m dest s = m.put dest str.closed := by
  have hCopy := strcpyFrom_string hAt hFits hApart
    (i := 0) hAt.length_lt (Nat.zero_le _)
  rw [List.take_zero, ByteMemory.put_nil] at hCopy
  exact hCopy

theorem memcpyFrom_string
    (hAt : StringAt m s str)
    (hFits : dest.toNat + str.bytes.length ≤ 2 ^ 64)
    (hApart :
      Extent.Apart ⟨dest.toNat, str.bytes.length⟩ (str.extent s))
    (hTurns : i + turns = str.bytes.length) :
    memcpyFrom dest s turns (BitVec.ofNat 64 i)
        (m.put dest (str.bytes.take i)) =
      m.put dest str.bytes := by
  induction turns generalizing i with
  | zero =>
      have hEnd : i = str.bytes.length := hTurns
      rw [memcpyFrom, hEnd, List.take_length]
  | succ turns ih =>
      have hLength : (str.bytes.take i).length ≤
          str.bytes.length :=
        List.length_take_le' _ _
      have hThere :
          StringAt (m.put dest (str.bytes.take i)) s str :=
        hAt.put (by omega) (hApart.shorter hLength)
      have hRead := hThere.read (i := i) (by omega)
      have hNext := @update_take m dest str.bytes i
        (by omega) hAt.length_lt.le
      rw [memcpyFrom, hRead.1, hNext, ofNat_succ]
      exact ih (by omega)

/- The characters are copied. -/
theorem memcpy_string
    (hAt : StringAt m s str)
    (hFits : dest.toNat + str.bytes.length ≤ 2 ^ 64)
    (hApart :
      Extent.Apart ⟨dest.toNat, str.bytes.length⟩
        (str.extent s)) :
    memcpy m dest s (BitVec.ofNat 64 str.bytes.length) =
      m.put dest str.bytes := by
  have hTurns :
      0 + (BitVec.ofNat 64 str.bytes.length).toNat =
        str.bytes.length := by
    rw [BitVec.toNat_ofNat, Nat.mod_eq_of_lt hAt.length_lt,
      Nat.zero_add]
  have hCopy := memcpyFrom_string hAt hFits hApart hTurns
  rw [List.take_zero, ByteMemory.put_nil] at hCopy
  exact hCopy

end Strings

end FeatherOS
