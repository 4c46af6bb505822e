import FeatherOS.Library.ByteMemory
import Mathlib.Tactic.IntervalCases

/-
  Blocks of words and stacks that grow downwards in a byte
  memory.

  Pushing lowers the pointer by eight bytes and stores a word
  there. The words that were pushed can be read back as long
  as the memory below the first pointer is not used otherwise.

  Key definitions include:
    * `ByteMemory.storeWords`
    * `ByteMemory.pushes`
    * `ByteMemory.shift`

  Key rules include:
    * `ByteMemory.load_eq_iff`
    * `ByteMemory.load_storeWords`
    * `ByteMemory.pushes_outside`
    * `ByteMemory.load_pushes`
-/

namespace ByteMemory

/- The words from `a` on become `words`. -/
def storeWords
    (m : ByteMemory)
    (a : BitVec 64)
    (n : Nat)
    (words : Nat → BitVec 64) :
    ByteMemory :=
  m.patch a (8 * n) fun i =>
    (words (i / 8)).extractLsb' (8 * (i % 8)) 8

/- The words pushed one after another on the stack at `sp` -/
def pushes
    (m : ByteMemory)
    (sp : BitVec 64) :
    List (BitVec 64) → ByteMemory
  | [] => m
  | word :: words =>
      pushes (m.store (sp - 8#64) word) (sp - 8#64) words

/- The bytes as seen from `a` -/
def shift
    (m : ByteMemory)
    (a : BitVec 64) : ByteMemory :=
  fun o => m (a + o)

--------------------
-- Words And Their Bytes
--------------------

theorem load_shift
    (m : ByteMemory)
    (a o : BitVec 64) :
    (m.shift a).load o = m.load (a + o) := by
  unfold load shift
  simp only [BitVec.add_assoc]

variable {m : ByteMemory}

/- A word is what its eight bytes are. -/
theorem load_eq_iff
    {a word : BitVec 64} :
    m.load a = word ↔
      ∀ i < 8, m (a + BitVec.ofNat 64 i) =
        word.extractLsb' (8 * i) 8 := by
  constructor
  · rintro rfl i hi
    apply BitVec.eq_of_getLsbD_eq
    intro j hj
    unfold load
    simp only [BitVec.getLsbD_extractLsb', BitVec.getLsbD_append]
    interval_cases i <;> grind
  · intro hBytes
    have hStore : m.load a = (m.store a word).load a := by
      refine load_congr fun i hi => ?_
      rw [hBytes i hi]
      unfold store
      rw [patch_inside hi (by omega)]
    rw [hStore, load_store]

theorem load_storeWords
    {a : BitVec 64}
    {n i : Nat}
    {words : Nat → BitVec 64}
    (hIn : i < n)
    (hFit : 8 * n ≤ 2 ^ 64) :
    (m.storeWords a n words).load
        (a + BitVec.ofNat 64 (8 * i)) =
      words i := by
  apply load_eq_iff.mpr
  intro k hk
  have hAt : a + BitVec.ofNat 64 (8 * i) + BitVec.ofNat 64 k =
      a + BitVec.ofNat 64 (8 * i + k) := by
    rw [BitVec.add_assoc, ← BitVec.ofNat_add]
  have hWord : (8 * i + k) / 8 = i := by omega
  have hByte : (8 * i + k) % 8 = k := by omega
  unfold storeWords
  rw [hAt, patch_inside (by omega) hFit, hWord, hByte]

--------------------
-- Stacks
--------------------

/- Pushing changes nothing but the room below the pointer. -/
theorem pushes_outside
    {sp b : BitVec 64}
    {words : List (BitVec 64)}
    (hRoom : 8 * words.length ≤ sp.toNat)
    (hOut : b.toNat + 8 * words.length < sp.toNat ∨
      sp.toNat ≤ b.toNat) :
    m.pushes sp words b = m b := by
  induction words generalizing m sp with
  | nil => rfl
  | cons word words ih =>
      simp only [List.length_cons] at hRoom hOut
      have hBelow : (sp - 8#64).toNat = sp.toNat - 8 := by
        rw [BitVec.toNat_sub]
        simp only [BitVec.toNat_ofNat]
        omega
      unfold pushes
      rw [ih (by omega) (by omega)]
      exact store_outside (by omega) (by omega)

/- The words that were pushed are there. -/
theorem load_pushes
    {sp : BitVec 64}
    {words : List (BitVec 64)}
    (hRoom : 8 * words.length ≤ sp.toNat)
    {i : Nat}
    (hi : i < words.length) :
    (m.pushes sp words).load
        (sp - BitVec.ofNat 64 (8 * (i + 1))) =
      words[i] := by
  induction words generalizing m sp i with
  | nil => cases hi
  | cons word words ih =>
      simp only [List.length_cons] at hRoom hi
      have hBelow : (sp - 8#64).toNat = sp.toNat - 8 := by
        rw [BitVec.toNat_sub]
        simp only [BitVec.toNat_ofNat]
        omega
      unfold pushes
      cases i with
      | zero =>
          have hTop : ∀ k < 8,
              (m.store (sp - 8#64) word).pushes (sp - 8#64) words
                  (sp - 8#64 + BitVec.ofNat 64 k) =
                m.store (sp - 8#64) word
                  (sp - 8#64 + BitVec.ofNat 64 k) := by
            intro k hk
            apply pushes_outside (by omega)
            rw [BitVec.toNat_add, hBelow, BitVec.toNat_ofNat]
            omega
          have hLoad := load_congr hTop
          rw [load_store] at hLoad
          exact hLoad
      | succ i =>
          have hAt : sp - BitVec.ofNat 64 (8 * (i + 1 + 1)) =
              sp - 8#64 - BitVec.ofNat 64 (8 * (i + 1)) := by
            rw [BitVec.sub_sub, ← BitVec.ofNat_add]
            congr 2
            omega
          rw [hAt]
          exact ih (by omega) (by omega)

end ByteMemory
