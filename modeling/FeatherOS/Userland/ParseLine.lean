import FeatherOS.Hash.Strings
import FeatherOS.Library.BlankRuns

/-
  The words of a command in `userland/shell/shell.c`.

  `parse_line` ends a word in place when a blank follows, and
  stores it without looking at how many there are. A word at
  the very end of the line is not stored, and the 33rd entry
  of `args` is written behind the array.

  Key definitions include:
    * `readLine`
    * `parseLine`
    * `Tokenised`

  Key theorems include:
    * `parseFrom_words`
    * `parseFrom_faults`
    * `parseLine_tokenised_iff`
-/

namespace FeatherOS

--------------------
-- Reading
--------------------

/- `char line[256]` -/
abbrev ShellLine := Vector U8 256

/- `char *args[32]`: NULL, or a pointer into the line -/
abbrev ShellArgs := Vector (Option Nat) 32

def newline : U8 := 0x0A#8

/-
  The loop, for the bytes that `read` still has: the result, the
  line and what is left. The index is never above 255.
-/
def readLineFrom :
    List U8 → Nat → ShellLine → Int × ShellLine × List U8
  | [], i, line =>
      if i < 255 then
        (-1, line, [])
      else
        (i, line.setIfInBounds i 0#8, [])
  | c :: input, i, line =>
      if i < 255 then
        if c = newline then
          (i + 1,
            (line.setIfInBounds i newline).setIfInBounds (i + 1) 0#8,
            input)
        else
          readLineFrom input (i + 1) (line.setIfInBounds i c)
      else
        (i, line.setIfInBounds i 0#8, c :: input)

def readLine
    (input : List U8)
    (line : ShellLine) : Int × ShellLine × List U8 :=
  readLineFrom input 0 line

--------------------
-- Parsing
--------------------

def isBlank (c : U8) : Bool :=
  c == 0x20#8 || c == 0x09#8 || c == newline

/- The locals of `parse_line`, and what its pointers lead to -/
structure ParseState where
  argc : Nat
  token : Nat
  inToken : Bool
  i : Nat
  line : ShellLine
  args : ShellArgs

/- `args[argc] = p`, which faults behind the array -/
def ParseState.setArg
    (s : ParseState)
    (p : Option Nat) : Option ParseState :=
  if s.argc < 32 then
    some { s with args := s.args.setIfInBounds s.argc p }
  else
    none

def parseTurn
    (s : ParseState)
    (c : U8) : Option ParseState :=
  if isBlank c then
    if s.inToken then do
      let t ← ({ s with
        line := s.line.setIfInBounds s.i 0#8 } : ParseState).setArg
          (some s.token)
      return { t with
        argc := t.argc + 1, inToken := false, i := t.i + 1 }
    else
      some { s with i := s.i + 1 }
  else
    if s.inToken then
      some { s with i := s.i + 1 }
    else
      some { s with token := s.i, inToken := true, i := s.i + 1 }

/- The loop, which faults if the line has no end -/
def parseFrom : Nat → ParseState → Option ParseState
  | 0, _ => none
  | turns + 1, s =>
      match s.line[s.i]? with
      | none => none
      | some c =>
          if c = 0#8 then
            some s
          else do
            let t ← parseTurn s c
            parseFrom turns t

def parseLine
    (line : ShellLine)
    (args : ShellArgs) : Option (Nat × ShellLine × ShellArgs) := do
  let s ← parseFrom 257 ⟨0, 0, false, 0, line, args⟩
  let t ← s.setArg none
  return (t.argc, t.line, t.args)

--------------------
-- Words in the Line
--------------------

/- The string in the line: what is in front of the first NUL -/
def ShellLine.text (line : ShellLine) : List U8 :=
  line.toList.takeWhile fun c => c ≠ 0#8

/- A pointer to `run` with a NUL behind it -/
def PointsTo
    (line : ShellLine)
    (p : Nat)
    (run : List U8) : Prop :=
  0#8 ∉ run ∧ ∃ rest, line.toList.drop p = run ++ 0#8 :: rest

/-
  The entries of `args` point to the words of `text` in order,
  and NULL follows.
-/
structure Tokenised
    (text : List U8)
    (argc : Nat)
    (line : ShellLine)
    (args : ShellArgs) : Prop where
  count : argc = (BlankRuns.runs isBlank text).length
  each : ∀ (j : Nat) run,
    (BlankRuns.runs isBlank text)[j]? = some run →
      ∃ p : Nat, args[j]? = some (some p) ∧ PointsTo line p run
  last : args[argc]? = some none

--------------------
-- The Loop
--------------------

/-
  The loop is behind `front` and the characters `cur` of a word,
  with `post` to come.
-/
structure Parsing
    (s : ParseState)
    (front cur post : List U8) : Prop where
  line : ∃ back, s.line.toList = front ++ cur ++ post ++ 0#8 :: back
  index : s.i = front.length + cur.length
  inToken : s.inToken = decide (cur ≠ [])
  token : cur ≠ [] → s.token = front.length
  noNul : 0#8 ∉ cur ++ post
  noBlank : ∀ c ∈ cur, isBlank c = false

variable {s t : ParseState}
variable {front cur post : List U8}
variable {c : U8}

theorem Parsing.current
    (hParsing : Parsing s front cur post) :
    s.line[s.i]? = some (post.headD 0#8) := by
  rcases hParsing.line with ⟨back, hLine⟩
  rw [← Vector.getElem?_toList, hLine, hParsing.index,
    List.append_assoc, List.getElem?_append_right (by simp)]
  cases post with
  | nil => simp
  | cons c post => simp

theorem parseFrom_turn
    (hParsing : Parsing s front cur (c :: post))
    (turns : Nat) :
    parseFrom (turns + 1) s =
      (parseTurn s c).bind (parseFrom turns) := by
  have hMore : c ≠ 0#8 := by
    rintro rfl
    exact hParsing.noNul (by simp)
  rw [parseFrom, hParsing.current]
  exact if_neg hMore

/- A character of a word -/
theorem parseTurn_word
    (hParsing : Parsing s front cur (c :: post))
    (hWord : isBlank c = false) :
    ∃ t, parseTurn s c = some t ∧
      Parsing t front (cur ++ [c]) post ∧
      t.argc = s.argc ∧ t.args = s.args := by
  rcases hParsing with ⟨⟨back, hLine⟩, hIndex, hIn, hToken, hNul, hCur⟩
  have hCurMore : ∀ x ∈ cur ++ [c], isBlank x = false := by
    intro x hMem
    rcases List.mem_append.mp hMem with hMem | hMem
    · exact hCur x hMem
    · rcases List.mem_singleton.mp hMem with rfl
      exact hWord
  have hLineMore : s.line.toList =
      front ++ (cur ++ [c]) ++ post ++ 0#8 :: back := by
    rw [hLine]
    simp
  have hIndexMore : s.i + 1 = front.length + (cur ++ [c]).length := by
    rw [hIndex, List.length_append]
    rfl
  have hNulMore : 0#8 ∉ cur ++ [c] ++ post := by
    simpa using hNul
  have hSome : cur ++ [c] ≠ [] := by simp
  rw [parseTurn, if_neg (by simp [hWord])]
  by_cases hNone : cur = []
  · rw [if_neg (by simp [hIn, hNone])]
    refine ⟨_, rfl, ⟨⟨back, hLineMore⟩, hIndexMore, ?_, ?_, hNulMore,
      hCurMore⟩, rfl, rfl⟩
    · simp
    · intro _
      simp [hIndex, hNone]
  · rw [if_pos (by simp [hIn, hNone])]
    refine ⟨_, rfl, ⟨⟨back, hLineMore⟩, hIndexMore, ?_, ?_, hNulMore,
      hCurMore⟩, rfl, rfl⟩
    · simp [hIn, hNone]
    · intro _
      exact hToken hNone

/- A blank that ends no word -/
theorem parseTurn_skip
    (hParsing : Parsing s front [] (c :: post))
    (hBlank : isBlank c = true) :
    ∃ t, parseTurn s c = some t ∧
      Parsing t (front ++ [c]) [] post ∧
      t.argc = s.argc ∧ t.args = s.args := by
  rcases hParsing with ⟨⟨back, hLine⟩, hIndex, hIn, _, hNul, _⟩
  rw [parseTurn, if_pos hBlank, if_neg (by simp [hIn])]
  refine ⟨_, rfl, ⟨⟨back, ?_⟩, ?_, hIn, ?_, ?_, ?_⟩, rfl, rfl⟩
  · simp [hLine]
  · simp [hIndex]
  · intro hSome
    exact absurd rfl hSome
  · intro hMem
    exact hNul (by simp_all)
  · intro x hMem
    cases hMem

/- One that ends a word, which is stored -/
theorem parseTurn_store
    (hParsing : Parsing s front cur (c :: post))
    (hSome : cur ≠ [])
    (hBlank : isBlank c = true)
    (hRoom : s.argc < 32) :
    ∃ t, parseTurn s c = some t ∧
      Parsing t (front ++ cur ++ [0#8]) [] post ∧
      t.argc = s.argc + 1 ∧
      t.args = s.args.setIfInBounds s.argc (some front.length) := by
  rcases hParsing with ⟨⟨back, hLine⟩, hIndex, hIn, hToken, hNul, _⟩
  rw [parseTurn, if_pos hBlank, if_pos (by simp [hIn, hSome]),
    ParseState.setArg, if_pos hRoom, Option.bind_eq_bind,
    Option.bind_some]
  refine ⟨_, rfl, ⟨⟨back, ?_⟩, ?_, ?_, ?_, ?_, ?_⟩, rfl, ?_⟩
  · rw [Vector.toList_setIfInBounds, hLine, hIndex]
    simp
  · simp [hIndex, Nat.add_assoc]
  · simp
  · intro hSome
    exact absurd rfl hSome
  · intro hMem
    exact hNul (by simp_all)
  · intro x hMem
    cases hMem
  · simp [hToken hSome]

theorem parseTurn_overrun
    (hParsing : Parsing s front cur (c :: post))
    (hSome : cur ≠ [])
    (hBlank : isBlank c = true)
    (hFull : ¬ s.argc < 32) :
    parseTurn s c = none := by
  rw [parseTurn, if_pos hBlank,
    if_pos (by simp [hParsing.inToken, hSome]), ParseState.setArg,
    if_neg hFull]
  rfl

/-
  With room in `args` the words that are ended are stored one
  after another; what is in front of the loop stays.
-/
theorem parseFrom_words
    (hParsing : Parsing s front cur post)
    (hRoom :
      s.argc + (BlankRuns.ended isBlank cur post).length ≤ 32)
    {turns : Nat}
    (hTurns : post.length < turns) :
    ∃ t, parseFrom turns s = some t ∧
      t.argc =
        s.argc + (BlankRuns.ended isBlank cur post).length ∧
      (∃ tail, t.line.toList = front ++ tail) ∧
      (∀ k < s.argc, t.args[k]? = s.args[k]?) ∧
      ∀ j run, (BlankRuns.ended isBlank cur post)[j]? = some run →
        ∃ p : Nat, t.args[s.argc + j]? = some (some p) ∧
          PointsTo t.line p run := by
  rcases Nat.exists_eq_add_of_lt hTurns with ⟨more, rfl⟩
  induction post generalizing s front cur with
  | nil =>
      rcases hParsing.line with ⟨back, hLine⟩
      refine ⟨s, ?_, rfl, ⟨cur ++ 0#8 :: back, ?_⟩, fun _ _ => rfl,
        ?_⟩
      · rw [parseFrom, hParsing.current]
        rfl
      · simp [hLine]
      · intro j run hRun
        cases hRun
  | cons c post ih =>
      rw [parseFrom_turn hParsing, List.length_cons,
        Nat.add_right_comm]
      cases hBlank : isBlank c with
      | false =>
          rcases parseTurn_word hParsing hBlank with
            ⟨t, hStep, hNext, hArgc, hArgs⟩
          rw [BlankRuns.ended_word hBlank] at hRoom ⊢
          have hRest := ih hNext (by rw [hArgc]; exact hRoom)
            (by omega)
          rw [hStep, ← hArgc, ← hArgs]
          exact hRest
      | true =>
          by_cases hNone : cur = []
          · subst hNone
            rcases parseTurn_skip hParsing hBlank with
              ⟨t, hStep, hNext, hArgc, hArgs⟩
            rw [BlankRuns.ended_skip hBlank] at hRoom ⊢
            rcases ih hNext (by rw [hArgc]; exact hRoom)
              (by omega) with ⟨u, hFrom, hCount, ⟨tail, hTail⟩, hRest⟩
            rw [hStep, ← hArgc, ← hArgs]
            refine ⟨u, hFrom, hCount, ⟨c :: tail, ?_⟩, hRest⟩
            rw [hTail, List.append_assoc]
            rfl
          · rw [BlankRuns.ended_store hBlank hNone] at hRoom ⊢
            rw [List.length_cons] at hRoom
            rcases parseTurn_store hParsing hNone hBlank (by omega) with
              ⟨t, hStep, hNext, hArgc, hArgs⟩
            rcases ih hNext (by omega) (by omega) with
              ⟨u, hFrom, hCount, ⟨tail, hTail⟩, hKept, hEach⟩
            rw [hStep]
            refine ⟨u, hFrom, ?_, ⟨cur ++ 0#8 :: tail, ?_⟩, ?_, ?_⟩
            · rw [hCount, hArgc, List.length_cons]
              omega
            · simp [hTail]
            · intro k hk
              rw [hKept k (by omega), hArgs,
                Vector.getElem?_setIfInBounds_ne (by omega)]
            · intro j run hRun
              cases j with
              | zero =>
                  rcases Option.some.inj hRun with rfl
                  refine ⟨front.length, ?_, ?_, tail, ?_⟩
                  · rw [Nat.add_zero, hKept s.argc (by omega), hArgs,
                      Vector.getElem?_setIfInBounds_self_of_lt
                        (by omega)]
                  · exact fun hMem =>
                      hParsing.noNul (List.mem_append_left _ hMem)
                  · simp [hTail]
              | succ j =>
                  have hAt := hEach j run hRun
                  rw [hArgc, Nat.add_assoc, Nat.add_comm 1] at hAt
                  exact hAt

/- One word more than `args` has entries is a fault. -/
theorem parseFrom_faults
    (hParsing : Parsing s front cur post)
    (hArgc : s.argc ≤ 32)
    (hOver :
      32 < s.argc + (BlankRuns.ended isBlank cur post).length)
    (turns : Nat) :
    parseFrom turns s = none := by
  induction post generalizing s front cur turns with
  | nil =>
      rw [BlankRuns.ended, List.length_nil] at hOver
      omega
  | cons c post ih =>
      cases turns with
      | zero => rfl
      | succ turns =>
          rw [parseFrom_turn hParsing]
          cases hBlank : isBlank c with
          | false =>
              rcases parseTurn_word hParsing hBlank with
                ⟨t, hStep, hNext, hSame, _⟩
              rw [BlankRuns.ended_word hBlank] at hOver
              rw [hStep]
              exact ih hNext (by omega) (by omega) turns
          | true =>
              by_cases hNone : cur = []
              · subst hNone
                rcases parseTurn_skip hParsing hBlank with
                  ⟨t, hStep, hNext, hSame, _⟩
                rw [BlankRuns.ended_skip hBlank] at hOver
                rw [hStep]
                exact ih hNext (by omega) (by omega) turns
              · rw [BlankRuns.ended_store hBlank hNone,
                  List.length_cons] at hOver
                by_cases hRoom : s.argc < 32
                · rcases parseTurn_store hParsing hNone hBlank hRoom
                    with ⟨t, hStep, hNext, hSame, _⟩
                  rw [hStep]
                  exact ih hNext (by omega) (by omega) turns
                · rw [parseTurn_overrun hParsing hNone hBlank hRoom]
                  rfl

--------------------
-- The Whole Line
--------------------

/- A line that was read has an end. -/
theorem readLineFrom_nul
    (input : List U8)
    {i : Nat}
    (hi : i ≤ 255)
    (line : ShellLine)
    (hRead : 0 ≤ (readLineFrom input i line).1) :
    0#8 ∈ (readLineFrom input i line).2.1.toList := by
  have hSet : ∀ (l : ShellLine) {k : Nat}, k < 256 →
      0#8 ∈ (l.setIfInBounds k 0#8).toList := by
    intro l k hk
    rw [Vector.toList_setIfInBounds]
    exact List.mem_set (by rw [Vector.length_toList]; exact hk) _
  induction input generalizing i line with
  | nil =>
      rw [readLineFrom] at hRead ⊢
      by_cases hMore : i < 255
      · rw [if_pos hMore] at hRead
        cases hRead
      · rw [if_neg hMore]
        exact hSet line (by omega)
  | cons c input ih =>
      rw [readLineFrom] at hRead ⊢
      by_cases hMore : i < 255
      · rw [if_pos hMore] at hRead ⊢
        by_cases hEnd : c = newline
        · rw [if_pos hEnd]
          exact hSet _ (by omega)
        · rw [if_neg hEnd] at hRead ⊢
          exact ih (by omega) _ hRead
      · rw [if_neg hMore]
        exact hSet line (by omega)

variable {line : ShellLine}

theorem parsing_start
    (args : ShellArgs)
    (hNul : 0#8 ∈ line.toList) :
    Parsing ⟨0, 0, false, 0, line, args⟩ [] [] line.text where
  line := exists_string hNul
  index := rfl
  inToken := rfl
  token := fun hSome => absurd rfl hSome
  noNul := by
    intro hMem
    have hNot := List.all_eq_true.mp List.all_takeWhile _ hMem
    simp at hNot
  noBlank := fun c hMem => by cases hMem

theorem length_text_lt
    (hNul : 0#8 ∈ line.toList) :
    line.text.length < 257 := by
  rcases exists_string hNul with ⟨back, hLine⟩
  have hText : line.toList = line.text ++ 0#8 :: back := hLine
  have hLength := congrArg List.length hText
  rw [Vector.length_toList, List.length_append] at hLength
  omega

/- The words that are ended, if there are fewer than 32, -/
theorem parseLine_stores
    (args : ShellArgs)
    (hNul : 0#8 ∈ line.toList)
    (hFew : (BlankRuns.ended isBlank [] line.text).length < 32) :
    ∃ line' args',
      parseLine line args =
          some ((BlankRuns.ended isBlank [] line.text).length,
            line', args') ∧
        (∀ (j : Nat) run,
          (BlankRuns.ended isBlank [] line.text)[j]? = some run →
            ∃ p : Nat, args'[j]? = some (some p) ∧
              PointsTo line' p run) ∧
        args'[(BlankRuns.ended isBlank [] line.text).length]? =
          some none := by
  have hStart := parsing_start args hNul
  rcases parseFrom_words hStart (by simp only; omega)
    (length_text_lt hNul) with ⟨t, hFrom, hArgc, _, _, hEach⟩
  simp only [Nat.zero_add] at hArgc hEach
  rw [← hArgc] at hFew ⊢
  refine ⟨t.line, t.args.setIfInBounds t.argc none, ?_, ?_, ?_⟩
  · rw [parseLine, hFrom, Option.bind_eq_bind, Option.bind_some,
      ParseState.setArg, if_pos hFew]
    rfl
  · intro j run hRun
    rcases hEach j run hRun with ⟨p, hArg, hPoints⟩
    rcases List.getElem?_eq_some_iff.mp hRun with ⟨hj, _⟩
    refine ⟨p, ?_, hPoints⟩
    rw [Vector.getElem?_setIfInBounds_ne (by omega)]
    exact hArg
  · exact Vector.getElem?_setIfInBounds_self_of_lt hFew

/- and with 32 of them or more the array is left. -/
theorem parseLine_overruns
    (args : ShellArgs)
    (hNul : 0#8 ∈ line.toList)
    (hMany : 32 ≤ (BlankRuns.ended isBlank [] line.text).length) :
    parseLine line args = none := by
  have hStart := parsing_start args hNul
  rcases Nat.lt_or_eq_of_le hMany with hOver | hFull
  · rw [parseLine, parseFrom_faults hStart (Nat.zero_le _)
      (by simp only; omega)]
    rfl
  · rcases parseFrom_words hStart (by simp only; omega)
      (length_text_lt hNul) with ⟨t, hFrom, hArgc, _⟩
    simp only [Nat.zero_add] at hArgc
    rw [parseLine, hFrom, Option.bind_eq_bind, Option.bind_some,
      ParseState.setArg, if_neg (by omega)]
    rfl

/-
  For every line that is read: `args` holds its words and NULL
  if and only if the line ends with a blank, or is empty, and
  has fewer than 32 words.
-/
theorem parseLine_tokenised_iff
    (input : List U8)
    (line : ShellLine)
    (args : ShellArgs)
    (hRead : 0 ≤ (readLine input line).1) :
    let read := (readLine input line).2.1
    (∃ argc line' args',
      parseLine read args = some (argc, line', args') ∧
        Tokenised read.text argc line' args') ↔
      BlankRuns.EndsBlank isBlank read.text ∧
        (BlankRuns.runs isBlank read.text).length < 32 := by
  intro read
  have hNul : 0#8 ∈ read.toList :=
    readLineFrom_nul input (by omega) line hRead
  have hRuns := @BlankRuns.runs_ended _ isBlank [] read.text
    (by simp)
  rw [List.nil_append] at hRuns
  constructor
  · rintro ⟨argc, line', args', hParse, hTokens⟩
    have hFew :
        (BlankRuns.ended isBlank [] read.text).length < 32 := by
      by_contra hMany
      rw [parseLine_overruns args hNul (by omega)] at hParse
      cases hParse
    rcases parseLine_stores args hNul hFew with
      ⟨_, _, hStores, _⟩
    rw [hStores] at hParse
    have hCount := hTokens.count
    cases hParse
    rcases hRuns with ⟨hEnds, hRuns⟩ | ⟨_, run, hRuns⟩
    · exact ⟨hEnds, hRuns ▸ hFew⟩
    · rw [hRuns, List.length_append, List.length_singleton] at hCount
      omega
  · rintro ⟨hEnds, hFew⟩
    rcases hRuns with ⟨_, hRuns⟩ | ⟨hOpen, _⟩
    · rw [hRuns] at hFew
      rcases parseLine_stores args hNul hFew with
        ⟨line', args', hStores, hEach, hLast⟩
      rw [← hRuns] at hStores hEach hLast
      exact ⟨_, line', args', hStores, rfl, hEach, hLast⟩
    · exact absurd hEnds hOpen

/- The line `ls -l` -/
theorem parseLine_tokenised_list :
    let read := (readLine
      [0x6C#8, 0x73#8, 0x20#8, 0x2D#8, 0x6C#8, newline]
      (.replicate 256 0#8)).2.1
    (∃ argc line' args',
      parseLine read (.replicate 32 none) =
          some (argc, line', args') ∧
        Tokenised read.text argc line' args') ↔
      BlankRuns.EndsBlank isBlank read.text ∧
        (BlankRuns.runs isBlank read.text).length < 32 :=
  parseLine_tokenised_iff
    [0x6C#8, 0x73#8, 0x20#8, 0x2D#8, 0x6C#8, newline]
    (.replicate 256 0#8) (.replicate 32 none) (by decide +kernel)

/- The 32nd of 32 words leaves no room for NULL. -/
theorem parseLine_overruns_args :
    let read := readLine
      ((List.replicate 32 [0x61#8, 0x20#8]).flatten ++ [newline])
      (.replicate 256 0#8)
    0 ≤ read.1 ∧
      ¬ ∃ argc line' args',
        parseLine read.2.1 (.replicate 32 none) =
            some (argc, line', args') ∧
          Tokenised read.2.1.text argc line' args' := by
  intro read
  refine ⟨by decide +kernel, ?_⟩
  have hFault : parseLine read.2.1 (.replicate 32 none) = none := by
    decide +kernel
  rintro ⟨argc, line', args', hParse, _⟩
  rw [hFault] at hParse
  cases hParse

end FeatherOS
