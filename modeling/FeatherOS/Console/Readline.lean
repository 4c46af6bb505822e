import FeatherOS.Kmalloc
import FeatherOS.Library.CyclicBuffer

/-
  Reading a line in `kernel/drivers/console.c`.

  `console_readline` is compared with an editor of a list of
  characters. It counts them with a `size_t` and returns an
  `int`, so a line of 2^31 characters has no right result.

  Key definitions include:
    * `readlineChar`
    * `readlineLoop`
    * `consoleReadline`
    * `editLine`
    * `LineGood`

  Key theorems include:
    * `readlineLoop_edits`
    * `readline_decided`
    * `consoleReadline_good_iff`
-/

namespace FeatherOS

open CyclicBuffer (front front_succ front_update_end
  front_dropLast)

--------------------
-- The Code
--------------------

/- The buffer, `input_len`, and what was echoed -/
structure ReadLine where
  buf : Nat → U8
  inputLen : Nat
  echoed : List U8

/- The conversion of a `size_t` to an `int` -/
def intOfSize (n : Nat) : Int :=
  (BitVec.ofNat 32 n).toInt

/- `buf[i] = c` -/
def ReadLine.store
    (s : ReadLine)
    (i : Nat)
    (c : U8) :
    ReadLine :=
  { s with buf := Function.update s.buf i c }

def ReadLine.echo
    (s : ReadLine)
    (cs : List U8) :
    ReadLine :=
  { s with echoed := s.echoed ++ cs }

/-
  One turn of the loop, with the result if it returns; `char`
  is signed.
-/
def readlineChar
    (s : ReadLine)
    (c : U8) :
    Option Int × ReadLine :=
  if c = 0x0A#8 ∨ c = 0x0D#8 then
    (some (intOfSize s.inputLen),
      (s.echo [0x0A#8]).store s.inputLen 0#8)
  else if c = 0x08#8 ∨ c = 0x7F#8 then
    if 0 < s.inputLen then
      (none,
        { s.echo [0x08#8, 0x20#8, 0x08#8] with
          inputLen := s.inputLen - 1 })
    else
      (none, s)
  else if c = 0x03#8 then
    -- Ctrl+C
    (some 0, (s.echo [0x5E#8, 0x43#8, 0x0A#8]).store 0 0#8)
  else if c = 0x04#8 then
    -- Ctrl+D
    if s.inputLen = 0 then (some (-1), s) else (none, s)
  else if c.toInt < 32 ∨ 126 < c.toInt then
    (none, s)
  else
    (none,
      { (s.store s.inputLen c).echo [c] with
        inputLen := s.inputLen + 1 })

/-
  The loop and what follows it. Without a result it waits for
  another character.
-/
def readlineLoop
    (maxLen : Nat) :
    List U8 → ReadLine → Option Int × ReadLine
  | [], s =>
      if s.inputLen < maxLen then (none, s)
      else
        (some (intOfSize s.inputLen), s.store s.inputLen 0#8)
  | c :: cs, s =>
      if s.inputLen < maxLen then
        match readlineChar s c with
        | (some ret, s) => (some ret, s)
        | (none, s) => readlineLoop maxLen cs s
      else
        (some (intOfSize s.inputLen), s.store s.inputLen 0#8)

def consoleReadline
    (buf : Nat → U8)
    (size : U64)
    (input : List U8) :
    Option Int × ReadLine :=
  if size = 0#64 then
    (some 0, ⟨buf, 0, []⟩)
  else
    readlineLoop (size - 1#64).toNat input ⟨buf, 0, []⟩

--------------------
-- The Editor
--------------------

/- How a line ends -/
inductive LineEnd where
  | line (kept : List U8)
  | interrupted
  | eof
deriving DecidableEq

def IsPrintable (c : U8) : Prop :=
  32 ≤ c.toNat ∧ c.toNat ≤ 126

instance
    (c : U8) :
    Decidable (IsPrintable c) :=
  inferInstanceAs (Decidable (_ ∧ _))

/- One character: the line ends, or some are kept. -/
def editChar
    (kept : List U8)
    (c : U8) :
    LineEnd ⊕ List U8 :=
  if c = 0x0A#8 ∨ c = 0x0D#8 then .inl (.line kept)
  else if c = 0x03#8 then .inl .interrupted
  else if c = 0x04#8 ∧ kept = [] then .inl .eof
  else if c = 0x08#8 ∨ c = 0x7F#8 then .inr kept.dropLast
  else if IsPrintable c then .inr (kept ++ [c])
  else .inr kept

/- Until the line ends or `limit` characters are kept -/
def editLine
    (limit : Nat) :
    List U8 → List U8 → Option LineEnd
  | [], kept =>
      if kept.length < limit then none else some (.line kept)
  | c :: cs, kept =>
      if kept.length < limit then
        match editChar kept c with
        | .inl lineEnd => some lineEnd
        | .inr kept => editLine limit cs kept
      else
        some (.line kept)

/- The buffer holds the characters and a NUL. -/
def HoldsLine
    (buf : Nat → U8)
    (kept : List U8) : Prop :=
  front buf kept.length = kept ∧ buf kept.length = 0#8

/- The result and the buffer are those of the editor. -/
def LineGood
    (buf : Nat → U8)
    (size : U64)
    (input : List U8) : Prop :=
  let res := consoleReadline buf size input
  (match editLine (size.toNat - 1) input [] with
    | none => res.1 = none
    | some (.line kept) =>
        res.1 = some (kept.length : Int) ∧
          HoldsLine res.2.buf kept
    | some .interrupted =>
        res.1 = some 0 ∧ HoldsLine res.2.buf []
    | some .eof => res.1 = some (-1)) ∧
  ∀ i, size.toNat ≤ i → res.2.buf i = buf i

/- The line that is kept has a length that an `int` holds. -/
def LineFits
    (size : U64)
    (input : List U8) : Prop :=
  ∀ kept, editLine (size.toNat - 1) input [] =
    some (.line kept) → kept.length < 2 ^ 31

--------------------
-- One Character
--------------------

@[simp] theorem ReadLine.store_self
    (s : ReadLine)
    (i : Nat)
    (c : U8) :
    (s.store i c).buf i = c := by
  simp [ReadLine.store]

theorem ReadLine.store_of_ne
    (s : ReadLine)
    {i j : Nat}
    (hNe : j ≠ i)
    (c : U8) :
    (s.store i c).buf j = s.buf j := by
  simp [ReadLine.store, hNe]

/- A length is returned as it is exactly below 2^31. -/
theorem intOfSize_eq_iff
    (n : Nat) :
    intOfSize n = n ↔ n < 2 ^ 31 := by
  unfold intOfSize
  constructor
  · intro hEq
    have hMax := @BitVec.toInt_lt 32 (BitVec.ofNat 32 n)
    rw [hEq] at hMax
    omega
  · intro hLt
    have hSmall : (BitVec.ofNat 32 n).toNat = n := by
      rw [BitVec.toNat_ofNat]
      exact Nat.mod_eq_of_lt (by omega)
    rw [BitVec.toInt_eq_toNat_of_lt (by omega), hSmall]

/- `char` is signed: what is above 127 lies below 32. -/
theorem not_printable_iff
    (c : U8) :
    (c.toInt < 32 ∨ 126 < c.toInt) ↔ ¬ IsPrintable c := by
  have hMax := c.isLt
  unfold IsPrintable
  rw [BitVec.toInt_eq_toNat_cond]
  split <;> omega

/- The characters kept stand in the buffer. -/
structure ReadsLine
    (buf₀ : Nat → U8)
    (maxLen : Nat)
    (s : ReadLine)
    (kept : List U8) : Prop where
  front_eq : front s.buf kept.length = kept
  len_eq : s.inputLen = kept.length
  len_le : kept.length ≤ maxLen
  outside : ∀ i, maxLen < i → s.buf i = buf₀ i

/- What `console_readline` returns for it -/
def LineEnd.returned : LineEnd → Int
  | .line kept => intOfSize kept.length
  | .interrupted => 0
  | .eof => -1

def LineEnd.Leaves
    (buf : Nat → U8) :
    LineEnd → Prop
  | .line kept => HoldsLine buf kept
  | .interrupted => HoldsLine buf []
  | .eof => True

structure EndsLine
    (buf₀ : Nat → U8)
    (maxLen : Nat)
    (lineEnd : LineEnd)
    (res : Option Int × ReadLine) : Prop where
  ret : res.1 = some lineEnd.returned
  leaves : lineEnd.Leaves res.2.buf
  outside : ∀ i, maxLen < i → res.2.buf i = buf₀ i

section OneCharacter

variable {buf₀ : Nat → U8} {maxLen : Nat}
variable {s : ReadLine} {kept : List U8}

/- The NUL goes behind the characters. -/
theorem ReadsLine.store_nul
    (hReads : ReadsLine buf₀ maxLen s kept) :
    HoldsLine (s.store s.inputLen 0#8).buf kept ∧
      ∀ i, maxLen < i →
        (s.store s.inputLen 0#8).buf i = buf₀ i := by
  have hLe := hReads.len_le
  rw [hReads.len_eq]
  refine ⟨⟨?_, s.store_self _ _⟩, fun i hi => ?_⟩
  · exact (front_update_end _ _ _).trans hReads.front_eq
  · exact (s.store_of_ne (by omega) _).trans
      (hReads.outside i hi)

theorem ReadsLine.ends_full
    (hReads : ReadsLine buf₀ maxLen s kept) :
    EndsLine buf₀ maxLen (.line kept)
      (some (intOfSize s.inputLen), s.store s.inputLen 0#8) := by
  have hNul := hReads.store_nul
  refine ⟨?_, hNul.1, hNul.2⟩
  rw [hReads.len_eq]
  rfl

theorem ReadsLine.echo
    (hReads : ReadsLine buf₀ maxLen s kept)
    (cs : List U8) :
    ReadsLine buf₀ maxLen (s.echo cs) kept :=
  ⟨hReads.front_eq, hReads.len_eq, hReads.len_le,
    hReads.outside⟩

/- A character deleted stays in the buffer, behind the end. -/
theorem ReadsLine.delete
    (hReads : ReadsLine buf₀ maxLen s kept) :
    ReadsLine buf₀ maxLen
      { s with inputLen := s.inputLen - 1 }
      kept.dropLast := by
  have hLen : kept.dropLast.length = kept.length - 1 :=
    List.length_dropLast
  have hLe := hReads.len_le
  refine ⟨?_, ?_, by omega, hReads.outside⟩
  · rw [hLen, ← front_dropLast, hReads.front_eq]
  · rw [hLen, hReads.len_eq]

theorem ReadsLine.append
    (hReads : ReadsLine buf₀ maxLen s kept)
    (hRoom : kept.length < maxLen)
    (c : U8) :
    ReadsLine buf₀ maxLen
      { s.store s.inputLen c with
        inputLen := s.inputLen + 1 }
      (kept ++ [c]) := by
  have hLen : (kept ++ [c]).length = kept.length + 1 :=
    List.length_append
  refine ⟨?_, ?_, by omega, fun i hi => ?_⟩
  · rw [hLen, hReads.len_eq]
    dsimp only [ReadLine.store]
    rw [front_succ, front_update_end, hReads.front_eq,
      Function.update_self]
  · rw [hLen, hReads.len_eq]
  · rw [hReads.len_eq]
    exact (s.store_of_ne (by omega) _).trans
      (hReads.outside i hi)

/- What `editChar` ends the line with is what is returned. -/
theorem readlineChar_ends
    {c : U8}
    {lineEnd : LineEnd}
    (hReads : ReadsLine buf₀ maxLen s kept)
    (hEnd : editChar kept c = .inl lineEnd) :
    EndsLine buf₀ maxLen lineEnd (readlineChar s c) := by
  unfold editChar at hEnd
  unfold readlineChar
  by_cases hLine : c = 0x0A#8 ∨ c = 0x0D#8
  · rw [if_pos hLine] at hEnd ⊢
    cases hEnd
    exact (hReads.echo [0x0A#8]).ends_full
  · rw [if_neg hLine] at hEnd ⊢
    by_cases hCtrlC : c = 0x03#8
    · subst hCtrlC
      cases hEnd
      refine ⟨rfl, ⟨rfl, ReadLine.store_self _ 0 _⟩, ?_⟩
      intro i hi
      exact (ReadLine.store_of_ne _ (by omega) _).trans
        (hReads.outside i hi)
    · rw [if_neg hCtrlC] at hEnd
      by_cases hCtrlD : c = 0x04#8 ∧ kept = []
      · rcases hCtrlD with ⟨rfl, rfl⟩
        cases hEnd
        have hZero : s.inputLen = 0 := hReads.len_eq
        rw [if_neg (by decide), if_neg (by decide), if_pos rfl,
          if_pos hZero]
        exact ⟨rfl, trivial, hReads.outside⟩
      · rw [if_neg hCtrlD] at hEnd
        split at hEnd
        · cases hEnd
        · split at hEnd <;> cases hEnd

/- What `editChar` keeps is what is kept. -/
theorem readlineChar_keeps
    {c : U8}
    {kept' : List U8}
    (hReads : ReadsLine buf₀ maxLen s kept)
    (hRoom : kept.length < maxLen)
    (hKeep : editChar kept c = .inr kept') :
    (readlineChar s c).1 = none ∧
      ReadsLine buf₀ maxLen (readlineChar s c).2 kept' := by
  unfold editChar at hKeep
  unfold readlineChar
  split at hKeep
  · cases hKeep
  next hLine =>
  split at hKeep
  · cases hKeep
  next hCtrlC =>
  split at hKeep
  · cases hKeep
  next hCtrlD =>
  rw [if_neg hLine]
  by_cases hDelete : c = 0x08#8 ∨ c = 0x7F#8
  · rw [if_pos hDelete] at hKeep ⊢
    cases hKeep
    by_cases hSome : 0 < s.inputLen
    · rw [if_pos hSome]
      exact ⟨rfl, (hReads.echo _).delete⟩
    · rw [if_neg hSome]
      have hNil : kept = [] := by
        apply List.eq_nil_of_length_eq_zero
        rw [← hReads.len_eq]
        omega
      subst hNil
      exact ⟨rfl, hReads⟩
  · rw [if_neg hDelete] at hKeep ⊢
    rw [if_neg hCtrlC]
    by_cases hEof : c = 0x04#8
    · have hSome : ¬ s.inputLen = 0 := by
        intro hZero
        apply hCtrlD
        refine ⟨hEof, List.eq_nil_of_length_eq_zero ?_⟩
        rw [← hReads.len_eq, hZero]
      rw [if_pos hEof, if_neg hSome]
      subst hEof
      cases hKeep
      exact ⟨rfl, hReads⟩
    · rw [if_neg hEof]
      by_cases hPrint : IsPrintable c
      · have hNot : ¬ (c.toInt < 32 ∨ 126 < c.toInt) := by
          rw [not_printable_iff]
          exact not_not_intro hPrint
        rw [if_pos hPrint] at hKeep
        rw [if_neg hNot]
        cases hKeep
        exact ⟨rfl, (hReads.append hRoom c).echo _⟩
      · rw [if_neg hPrint] at hKeep
        rw [if_pos ((not_printable_iff c).mpr hPrint)]
        cases hKeep
        exact ⟨rfl, hReads⟩

end OneCharacter

--------------------
-- The Loop
--------------------

/- By induction on the input: as `editLine` does. -/
theorem readlineLoop_edits
    {buf₀ : Nat → U8}
    {maxLen : Nat}
    {s : ReadLine}
    {kept : List U8}
    (input : List U8)
    (hReads : ReadsLine buf₀ maxLen s kept) :
    match editLine maxLen input kept with
    | none =>
        (readlineLoop maxLen input s).1 = none ∧
          ∀ i, maxLen < i →
            (readlineLoop maxLen input s).2.buf i = buf₀ i
    | some lineEnd =>
        EndsLine buf₀ maxLen lineEnd
          (readlineLoop maxLen input s) := by
  induction input generalizing s kept with
  | nil =>
      unfold editLine readlineLoop
      rw [hReads.len_eq]
      by_cases hRoom : kept.length < maxLen
      · rw [if_pos hRoom, if_pos hRoom]
        exact ⟨rfl, hReads.outside⟩
      · rw [if_neg hRoom, if_neg hRoom, ← hReads.len_eq]
        exact hReads.ends_full
  | cons c cs ih =>
      unfold editLine readlineLoop
      rw [hReads.len_eq]
      by_cases hRoom : kept.length < maxLen
      · rw [if_pos hRoom, if_pos hRoom]
        cases hTurn : editChar kept c with
        | inl lineEnd =>
            have hEnds := readlineChar_ends hReads hTurn
            rcases hRes : readlineChar s c with ⟨ret, s'⟩
            rw [hRes] at hEnds
            cases hEnds.ret
            exact hEnds
        | inr kept' =>
            have hKeeps := readlineChar_keeps hReads hRoom hTurn
            rcases hRes : readlineChar s c with ⟨ret, s'⟩
            rw [hRes] at hKeeps
            rcases hKeeps with ⟨hNone, hReads'⟩
            cases hNone
            exact ih hReads'
      · rw [if_neg hRoom, if_neg hRoom, ← hReads.len_eq]
        exact hReads.ends_full

--------------------
-- Every Input
--------------------

/- Only the `int` that is returned can be wrong. -/
theorem readline_decided
    (buf : Nat → U8)
    {size : U64}
    (input : List U8)
    (hSize : size ≠ 0#64) :
    LineGood buf size input ↔ LineFits size input := by
  have hPos : 1 ≤ size.toNat := by
    have hNe : size.toNat ≠ 0 := by
      intro hZero
      exact hSize (BitVec.eq_of_toNat_eq hZero)
    omega
  have hMax : (size - 1#64).toNat = size.toNat - 1 :=
    Words.toNat_pred hPos
  have hCall :
      consoleReadline buf size input =
        readlineLoop (size.toNat - 1) input ⟨buf, 0, []⟩ := by
    unfold consoleReadline
    rw [if_neg hSize, hMax]
  have hStart :
      ReadsLine buf (size.toNat - 1) ⟨buf, 0, []⟩ [] :=
    ⟨rfl, rfl, Nat.zero_le _, fun _ _ => rfl⟩
  have hRun := readlineLoop_edits input hStart
  rw [← hCall] at hRun
  unfold LineGood LineFits
  dsimp only
  cases hEdit : editLine (size.toNat - 1) input [] with
  | none =>
      rw [hEdit] at hRun
      constructor
      · intro _ kept hLine
        cases hLine
      · intro _
        exact ⟨hRun.1, fun i hi => hRun.2 i (by omega)⟩
  | some lineEnd =>
      rw [hEdit] at hRun
      have hOutside :
          ∀ i, size.toNat ≤ i →
            (consoleReadline buf size input).2.buf i = buf i :=
        fun i hi => hRun.outside i (by omega)
      cases lineEnd with
      | line kept =>
          have hRet :
              (consoleReadline buf size input).1 =
                some (intOfSize kept.length) := hRun.ret
          constructor
          · intro hGood kept' hLine
            cases hLine
            rw [← intOfSize_eq_iff]
            exact Option.some.inj (hRet.symm.trans hGood.1.1)
          · intro hFits
            have hInt := (intOfSize_eq_iff _).mpr (hFits kept rfl)
            rw [hInt] at hRet
            exact ⟨⟨hRet, hRun.leaves⟩, hOutside⟩
      | interrupted =>
          constructor
          · intro _ kept hLine
            cases hLine
          · intro _
            exact ⟨⟨hRun.ret, hRun.leaves⟩, hOutside⟩
      | eof =>
          constructor
          · intro _ kept hLine
            cases hLine
          · intro _
            exact ⟨hRun.ret, hOutside⟩

/- Right exactly when the line's length is an `int` -/
theorem consoleReadline_good_iff
    (buf : Nat → U8)
    (size : U64)
    (input : List U8)
    (hSize : size ≠ 0#64) :
    LineGood buf size input ↔ LineFits size input :=
  readline_decided buf input hSize

/- "a" is deleted, "b" is kept. -/
theorem consoleReadline_good_iff_edited :
    let res := consoleReadline (fun _ => 0#8) 8#64
      [0x61#8, 0x7F#8, 0x62#8, 0x0A#8]
    res.1 = some 1 ∧ HoldsLine res.2.buf [0x62#8] := by
  have hGood :=
    (consoleReadline_good_iff (fun _ => 0#8) 8#64
      [0x61#8, 0x7F#8, 0x62#8, 0x0A#8] (by decide)).mpr
      (by rintro kept ⟨⟩; decide)
  exact hGood.1

/- Printable characters are kept until there is no room. -/
theorem editLine_replicate
    {c : U8}
    (hPrint : IsPrintable c)
    (n : Nat)
    (kept : List U8) :
    editLine (kept.length + n) (List.replicate n c) kept =
      some (.line (kept ++ List.replicate n c)) := by
  have hKeep (kept : List U8) :
      editChar kept c = .inr (kept ++ [c]) := by
    unfold editChar
    rw [if_neg, if_neg, if_neg, if_neg, if_pos hPrint]
    · rintro (rfl | rfl) <;> exact absurd hPrint (by decide)
    · rintro ⟨rfl, -⟩
      exact absurd hPrint (by decide)
    · rintro rfl
      exact absurd hPrint (by decide)
    · rintro (rfl | rfl) <;> exact absurd hPrint (by decide)
  induction n generalizing kept with
  | zero => simp [editLine]
  | succ n ih =>
      have hRoom : kept.length < kept.length + (n + 1) := by
        omega
      have hRest := ih (kept ++ [c])
      rw [List.length_append, List.length_singleton,
        Nat.add_right_comm, Nat.add_assoc] at hRest
      rw [List.replicate_succ]
      unfold editLine
      rw [if_pos hRoom, hKeep]
      dsimp only
      rw [hRest, List.append_assoc, List.singleton_append]

/- 2^31 characters in a buffer that has room for them -/
theorem consoleReadline_returns_negative :
    ¬ ∀ (buf : Nat → U8) (size : U64) (input : List U8),
      size ≠ 0#64 → LineGood buf size input := by
  intro hAll
  have hGood := hAll (fun _ => 0#8) 0x80000001#64
    (List.replicate (2 ^ 31) 0x61#8) (by decide)
  have hFits := (readline_decided _ _ (by decide)).mp hGood
  have hLine :=
    @editLine_replicate 0x61#8 (by decide) (2 ^ 31) []
  have hLt := hFits _ hLine
  rw [List.nil_append, List.length_replicate] at hLt
  exact absurd hLt (Nat.lt_irrefl _)

end FeatherOS
