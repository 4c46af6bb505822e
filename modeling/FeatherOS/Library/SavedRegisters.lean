import FeatherOS.Library.WordStack
import Mathlib.Logic.Function.Basic

/-
  Registers that are saved on a stack.

  A routine pushes registers, calls other code and pops them
  in the opposite order. If the code it calls leaves the words
  above the stack pointer alone, the registers are back.

  Key definitions include:
    * `SavedRegisters.Core`
    * `SavedRegisters.save`
    * `SavedRegisters.restore`
    * `SavedRegisters.Keeps`

  Key rules include:
    * `SavedRegisters.pushWords_word`
    * `SavedRegisters.pushWords_above`
    * `SavedRegisters.save_word`
    * `SavedRegisters.restore_eq`
    * `SavedRegisters.restore_save`
-/

namespace SavedRegisters

/- The registers but the stack pointer, the stack pointer, memory -/
structure Core (R : Type) where
  regs : R → BitVec 64
  sp : BitVec 64
  mem : ByteMemory

variable {R : Type}

namespace Core

/- The words from the stack pointer on -/
def word
    (c : Core R)
    (i : Nat) : BitVec 64 :=
  c.mem.load (c.sp + BitVec.ofNat 64 (8 * i))

def push
    (c : Core R)
    (word : BitVec 64) : Core R :=
  { c with
    sp := c.sp - 8#64
    mem := c.mem.store (c.sp - 8#64) word }

def drop (c : Core R) : Core R :=
  { c with sp := c.sp + 8#64 }

def set
    [DecidableEq R]
    (c : Core R)
    (r : R)
    (word : BitVec 64) : Core R :=
  { c with regs := Function.update c.regs r word }

end Core

def pushWords
    (c : Core R)
    (words : List (BitVec 64)) : Core R :=
  words.foldl Core.push c

def save
    (rs : List R)
    (c : Core R) : Core R :=
  rs.foldl (fun c r => c.push (c.regs r)) c

def restore
    [DecidableEq R]
    (rs : List R)
    (c : Core R) : Core R :=
  rs.foldl (fun c r => (c.set r (c.word 0)).drop) c

/-
  Code that returns to its caller: the stack pointer and the
  `n` words from there on are as they were.
-/
structure Keeps
    (n : Nat)
    (c d : Core R) : Prop where
  sp : d.sp = c.sp
  word : ∀ i < n, d.word i = c.word i

--------------------
-- Pushing
--------------------

variable {r : R}
variable {i : Nat}
variable {word : BitVec 64}

section Pushing

variable {c d : Core R}
variable {words : List (BitVec 64)}
variable {rs : List R}
variable {n : Nat}

theorem Keeps.trans
    {e : Core R}
    (hFirst : Keeps n c d)
    (hNext : Keeps n d e) :
    Keeps n c e :=
  ⟨hNext.sp.trans hFirst.sp, fun i hi =>
    (hNext.word i hi).trans (hFirst.word i hi)⟩

theorem Keeps.mono
    {k : Nat}
    (hKeeps : Keeps n c d)
    (hLe : k ≤ n) :
    Keeps k c d :=
  ⟨hKeeps.sp, fun i hi => hKeeps.word i (by omega)⟩

/- Registers are not part of the frame. -/
theorem Keeps.set
    [DecidableEq R]
    (hKeeps : Keeps n c d) :
    Keeps n c (d.set r word) :=
  ⟨hKeeps.sp, hKeeps.word⟩

theorem Keeps.refl : Keeps n c c :=
  ⟨rfl, fun _ _ => rfl⟩

theorem pushWords_eq :
    pushWords c words =
      { c with
        sp := c.sp - BitVec.ofNat 64 (8 * words.length)
        mem := c.mem.pushes c.sp words } := by
  induction words generalizing c with
  | nil =>
      simp [pushWords, ByteMemory.pushes]
  | cons word words ih =>
      have hSp : c.sp - 8#64 - BitVec.ofNat 64 (8 * words.length) =
          c.sp - BitVec.ofNat 64 (8 * (words.length + 1)) := by
        rw [BitVec.sub_sub, ← BitVec.ofNat_add]
        congr 2
        omega
      have hRest := ih (c := c.push word)
      simp only [Core.push, hSp] at hRest
      rw [List.length_cons]
      exact hRest

theorem save_eq :
    save rs c = pushWords c (rs.map c.regs) := by
  induction rs generalizing c with
  | nil => rfl
  | cons r rs ih => exact ih

theorem toNat_sub_words
    {sp : BitVec 64}
    (hRoom : 8 * n ≤ sp.toNat) :
    (sp - BitVec.ofNat 64 (8 * n)).toNat = sp.toNat - 8 * n := by
  have hLt := sp.isLt
  rw [BitVec.toNat_sub, BitVec.toNat_ofNat]
  omega

/- The words that were pushed, the last one first -/
theorem pushWords_word
    (hRoom : 8 * words.length ≤ c.sp.toNat)
    (hi : i < words.reverse.length) :
    (pushWords c words).word i = words.reverse[i] := by
  have hIn : i < words.length := by
    rwa [List.length_reverse] at hi
  have hAt : c.sp - BitVec.ofNat 64 (8 * words.length) +
      BitVec.ofNat 64 (8 * i) =
      c.sp - BitVec.ofNat 64 (8 * (words.length - 1 - i + 1)) := by
    apply BitVec.eq_of_toNat_eq
    rw [toNat_sub_words (by omega), BitVec.toNat_add,
      toNat_sub_words hRoom, BitVec.toNat_ofNat]
    omega
  rw [pushWords_eq, Core.word]
  simp only [hAt]
  rw [ByteMemory.load_pushes hRoom (by omega), List.getElem_reverse]

/- and above them what was there before -/
theorem pushWords_above
    (hRoom : 8 * words.length ≤ c.sp.toNat)
    (hi : c.sp.toNat + 8 * (i + 1) ≤ 2 ^ 64) :
    (pushWords c words).word (words.length + i) = c.word i := by
  have hAt : c.sp - BitVec.ofNat 64 (8 * words.length) +
      BitVec.ofNat 64 (8 * (words.length + i)) =
      c.sp + BitVec.ofNat 64 (8 * i) := by
    apply BitVec.eq_of_toNat_eq
    rw [BitVec.toNat_add, toNat_sub_words hRoom, BitVec.toNat_add,
      BitVec.toNat_ofNat, BitVec.toNat_ofNat]
    omega
  rw [pushWords_eq, Core.word, Core.word]
  simp only [hAt]
  apply ByteMemory.load_congr
  intro k hk
  apply ByteMemory.pushes_outside hRoom
  right
  rw [BitVec.toNat_add, BitVec.toNat_add, BitVec.toNat_ofNat,
    BitVec.toNat_ofNat]
  omega

/- The same of registers that are saved -/
theorem save_word
    (hRoom : 8 * rs.length ≤ c.sp.toNat)
    (hi : i < rs.reverse.length) :
    (save rs c).word i = c.regs rs.reverse[i] := by
  have hPushes : 8 * (rs.map c.regs).length ≤ c.sp.toNat := by
    rwa [List.length_map]
  rw [save_eq, pushWords_word hPushes (by simpa using hi)]
  simp only [← List.map_reverse, List.getElem_map]

theorem save_above
    (hRoom : 8 * rs.length ≤ c.sp.toNat)
    (hi : c.sp.toNat + 8 * (i + 1) ≤ 2 ^ 64) :
    (save rs c).word (rs.length + i) = c.word i := by
  have hPushes : 8 * (rs.map c.regs).length ≤ c.sp.toNat := by
    rwa [List.length_map]
  have hAbove : (pushWords c (rs.map c.regs)).word
      ((rs.map c.regs).length + i) = c.word i :=
    pushWords_above hPushes hi
  rwa [List.length_map, ← save_eq] at hAbove

end Pushing

--------------------
-- Popping
--------------------

section Popping

variable [DecidableEq R]
variable {c d : Core R}
variable {rs : List R}

omit [DecidableEq R] in
theorem drop_word
    {i : Nat} :
    c.drop.word i = c.word (i + 1) := by
  unfold Core.word Core.drop
  rw [BitVec.add_assoc, ← BitVec.ofNat_add]
  congr 3
  omega

@[simp] theorem set_word
    {i : Nat} :
    (c.set r word).word i = c.word i :=
  rfl

@[simp] theorem set_self
    {word : BitVec 64} :
    (c.set r word).regs r = word :=
  Function.update_self _ _ _

theorem set_other
    {r s : R}
    (hOther : s ≠ r) :
    (c.set r word).regs s = c.regs s :=
  Function.update_of_ne hOther _ _

theorem restore_cons
    {r : R} :
    restore (r :: rs) c = restore rs (c.set r (c.word 0)).drop :=
  rfl

/- The frame is gone, and the words above it are there. -/
theorem restore_frame :
    (restore rs c).sp = c.sp + BitVec.ofNat 64 (8 * rs.length) ∧
      ∀ i, (restore rs c).word i = c.word (rs.length + i) := by
  induction rs generalizing c with
  | nil => simp [restore]
  | cons r rs ih =>
      have hRest := ih (c := (c.set r (c.word 0)).drop)
      rw [restore_cons, hRest.1, List.length_cons]
      constructor
      · simp only [Core.drop, Core.set]
        rw [BitVec.add_assoc, ← BitVec.ofNat_add]
        congr 2
        omega
      · intro i
        rw [hRest.2, drop_word, set_word]
        congr 1
        omega

/- Registers that are not restored stay. -/
theorem restore_other
    (hOut : r ∉ rs) :
    (restore rs c).regs r = c.regs r := by
  induction rs generalizing c with
  | nil => rfl
  | cons s rs ih =>
      rw [List.mem_cons, not_or] at hOut
      rw [restore_cons, ih hOut.2]
      exact Function.update_of_ne hOut.1 _ _

/- Each of the others has its word. -/
theorem restore_eq
    (hNodup : rs.Nodup)
    (hi : i < rs.length) :
    (restore rs c).regs rs[i] = c.word i := by
  induction rs generalizing c i with
  | nil => cases hi
  | cons r rs ih =>
      rw [List.nodup_cons] at hNodup
      rw [restore_cons]
      cases i with
      | zero =>
          rw [List.getElem_cons_zero, restore_other hNodup.1]
          exact Function.update_self _ _ _
      | succ i =>
          rw [List.length_cons] at hi
          rw [List.getElem_cons_succ, ih hNodup.2 (by omega),
            drop_word, set_word]

/-
  Code between saving and restoring that keeps the frame and
  the words above it
-/
theorem restore_save
    {above : Nat}
    (hNodup : rs.Nodup)
    (hRoom : 8 * rs.length ≤ c.sp.toNat)
    (hTop : c.sp.toNat + 8 * above ≤ 2 ^ 64)
    (hKeeps : Keeps (rs.length + above) (save rs c) d) :
    (∀ r ∈ rs, (restore rs.reverse d).regs r = c.regs r) ∧
      Keeps above c (restore rs.reverse d) := by
  constructor
  · intro r hMem
    rcases List.getElem_of_mem (List.mem_reverse.mpr hMem) with
      ⟨i, hi, hAt⟩
    have hIn : i < rs.length := by simpa using hi
    have hPopped := restore_eq (c := d) (List.nodup_reverse.mpr hNodup)
      hi
    rwa [hAt, hKeeps.word i (by omega), save_word hRoom hi, hAt]
      at hPopped
  · have hFrame :
        (restore rs.reverse d).sp =
            d.sp + BitVec.ofNat 64 (8 * rs.reverse.length) ∧
          ∀ i, (restore rs.reverse d).word i =
            d.word (rs.reverse.length + i) :=
      restore_frame
    rw [List.length_reverse] at hFrame
    rcases hFrame with ⟨hSp, hWords⟩
    constructor
    · rw [hSp, hKeeps.sp, save_eq, pushWords_eq, List.length_map]
      exact BitVec.sub_add_cancel _ _
    · intro i hi
      rw [hWords, hKeeps.word _ (by omega),
        save_above hRoom (by omega)]

end Popping

end SavedRegisters
