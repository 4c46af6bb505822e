import FeatherOS.Memory.Strings

/-
  Copying between ranges that may overlap.

  `memmove` of `kernel/string.c` copies upwards if the
  destination is below the source, and downwards otherwise.
  Either way a byte is read before it is written over.

  Key definitions include:
    * `memmoveDown`
    * `memmove`

  Key theorems include:
    * `memcpyFrom_moved`
    * `memmoveDown_moved`
    * `memmove_exact`
-/

namespace FeatherOS

/- The second loop, with the `i` bytes that are left -/
def memmoveDown
    (dest src : Addr) :
    Nat → ByteMemory → ByteMemory
  | 0, m => m
  | i + 1, m =>
      memmoveDown dest src i
        (Function.update m (dest + BitVec.ofNat 64 i)
          (m (src + BitVec.ofNat 64 i)))

/- The first loop is the one of `memcpy`. -/
def memmove
    (m : ByteMemory)
    (dest src : Addr)
    (n : U64) : ByteMemory :=
  if dest < src then
    memcpyFrom dest src n.toNat 0 m
  else
    memmoveDown dest src n.toNat m

section Loops

variable {m : ByteMemory}
variable {dest src : Addr}
variable {n i : Nat}

/- Upwards, the bytes still to be read are above the last one. -/
theorem moved_unread_up
    (hBelow : dest < src)
    (hSrc : src.toNat + n ≤ 2 ^ 64)
    (hi : i < n) :
    m.moved dest src 0 i (src + BitVec.ofNat 64 i) =
      m (src + BitVec.ofNat 64 i) := by
  have hLt := BitVec.lt_def.mp hBelow
  have hAt : (src + BitVec.ofNat 64 i).toNat = src.toNat + i := by
    rw [BitVec.toNat_add, BitVec.toNat_ofNat]
    omega
  refine ByteMemory.moved_outside (by omega) (.inr ?_)
  omega

theorem memcpyFrom_moved
    (hBelow : dest < src)
    (hSrc : src.toNat + n ≤ 2 ^ 64)
    {turns : Nat}
    (hTurns : i + turns = n) :
    memcpyFrom dest src turns (BitVec.ofNat 64 i)
        (m.moved dest src 0 i) =
      m.moved dest src 0 n := by
  induction turns generalizing i with
  | zero =>
      have hEnd : i = n := hTurns
      rw [memcpyFrom, hEnd]
  | succ turns ih =>
      have hRead := @moved_unread_up m dest src n i hBelow hSrc
        (by omega)
      rw [memcpyFrom, hRead,
        ByteMemory.moved_succ (Nat.zero_le i) (by omega),
        ofNat_succ]
      exact ih (by omega)

/- Downwards, they are below the last one. -/
theorem moved_unread_down
    (hAbove : ¬ dest < src)
    (hDest : dest.toNat + n ≤ 2 ^ 64)
    (hi : i < n) :
    m.moved dest src (i + 1) n (src + BitVec.ofNat 64 i) =
      m (src + BitVec.ofNat 64 i) := by
  have hLe : src.toNat ≤ dest.toNat :=
    Nat.not_lt.mp fun hLt => hAbove (BitVec.lt_def.mpr hLt)
  have hOff : (src + BitVec.ofNat 64 i - dest).toNat =
      (2 ^ 64 - dest.toNat + (src.toNat + i)) % 2 ^ 64 := by
    rw [BitVec.toNat_sub, BitVec.toNat_add, BitVec.toNat_ofNat]
    omega
  rw [ByteMemory.moved, if_neg]
  rw [hOff]
  omega

theorem memmoveDown_moved
    (hAbove : ¬ dest < src)
    (hDest : dest.toNat + n ≤ 2 ^ 64)
    (hi : i ≤ n) :
    memmoveDown dest src i (m.moved dest src i n) =
      m.moved dest src 0 n := by
  induction i with
  | zero => rfl
  | succ i ih =>
      have hRead := @moved_unread_down m dest src n i hAbove hDest
        hi
      rw [memmoveDown, hRead,
        ByteMemory.moved_pred hi (by omega)]
      exact ih (by omega)

end Loops

/-
  The bytes at the destination are those that the source had,
  and all others stay.
-/
theorem memmove_exact
    (m : ByteMemory)
    (dest src : Addr)
    (n : U64)
    (hDest : dest.toNat + n.toNat ≤ 2 ^ 64)
    (hSrc : src.toNat + n.toNat ≤ 2 ^ 64) :
    (∀ i < n.toNat,
      memmove m dest src n (dest + BitVec.ofNat 64 i) =
        m (src + BitVec.ofNat 64 i)) ∧
      ∀ b : Addr,
        b.toNat < dest.toNat ∨ dest.toNat + n.toNat ≤ b.toNat →
          memmove m dest src n b = m b := by
  have hMoved :
      memmove m dest src n = m.moved dest src 0 n.toNat := by
    unfold memmove
    split
    next hBelow =>
      have hCopy := @memcpyFrom_moved m dest src n.toNat 0 hBelow
        hSrc n.toNat (Nat.zero_add _)
      rw [ByteMemory.moved_none] at hCopy
      exact hCopy
    next hAbove =>
      have hCopy := @memmoveDown_moved m dest src n.toNat n.toNat
        hAbove hDest (Nat.le_refl _)
      rw [ByteMemory.moved_none] at hCopy
      exact hCopy
  rw [hMoved]
  constructor
  · intro i hi
    rw [ByteMemory.moved_offset (by omega),
      if_pos ⟨Nat.zero_le i, hi⟩]
  · intro b hOut
    exact ByteMemory.moved_outside hDest hOut

/- Three bytes are moved up by one. -/
theorem memmove_exact_three :
    (∀ i < 3,
      memmove (fun b => b.setWidth 8) 0x1001#64 0x1000#64 3#64
          (0x1001#64 + BitVec.ofNat 64 i) =
        (0x1000#64 + BitVec.ofNat 64 i).setWidth 8) ∧
      ∀ b : Addr,
        b.toNat < 0x1001 ∨ 0x1004 ≤ b.toNat →
          memmove (fun b => b.setWidth 8) 0x1001#64 0x1000#64 3#64
            b = b.setWidth 8 :=
  memmove_exact (fun b => b.setWidth 8) 0x1001#64 0x1000#64 3#64
    (by decide) (by decide)

end FeatherOS
