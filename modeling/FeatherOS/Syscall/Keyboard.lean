import FeatherOS.Kmalloc
import FeatherOS.Library.CyclicBuffer
import FeatherOS.Library.Lines
import FeatherOS.Library.Run

/-
  Keyboard input of `kernel/syscall_impl.c` as a stream.

  `keyboard_buffer_put` drops a character when the buffer is
  full. `sys_read` takes characters from the other end until
  it has enough, meets the end of a line, or nothing is left.
  It echoes what it takes.

  Key definitions include:
    * `Keyboard`
    * `keyboardBufferPut`
    * `sysRead`
    * `keyboardStep`
    * `KeyboardHolds`

  Key theorems include:
    * `readLoop_eq`
    * `keyboardStep_holds`
    * `keyboardRun_stream`
-/

namespace FeatherOS

open Lines (takeLine Longest)

--------------------
-- Calls
--------------------

/- The globals, and the characters sent to the console -/
structure Keyboard where
  buffer : Nat → U8
  head : Nat
  tail : Nat
  count : Nat
  echoed : List U8

/- KEYBOARD_BUFFER_SIZE -/
def keyboardBufferSize : Nat := 256

/- Newline or carriage return -/
def endsLine (c : U8) : Bool :=
  c = 0x0A#8 || c = 0x0D#8

def keyboardBufferPut
    (s : Keyboard)
    (c : U8) :
    Keyboard :=
  if s.count < keyboardBufferSize then
    { s with
      buffer := Function.update s.buffer s.tail c
      tail := (s.tail + 1) % keyboardBufferSize
      count := s.count + 1 }
  else
    s

/- `none` is the result -1. -/
def keyboardBufferGet
    (s : Keyboard) :
    Option U8 × Keyboard :=
  if 0 < s.count then
    (some (s.buffer s.head),
      { s with
        head := (s.head + 1) % keyboardBufferSize
        count := s.count - 1 })
  else
    (none, s)

/-
  The loop of `sys_read`: what is stored in the user's buffer
  when there is room for `room` more bytes.
-/
def readLoop :
    Nat → Keyboard → List U8 × Keyboard
  | 0, s => ([], s)
  | room + 1, s =>
      match keyboardBufferGet s with
      | (none, s) => ([], s)
      | (some c, s) =>
          let s := { s with echoed := s.echoed ++ [c] }
          if endsLine c then
            ([c], s)
          else
            let rest := readLoop room s
            (c :: rest.1, rest.2)

/- The result, and the bytes stored from `buf` on -/
def sysRead
    (s : Keyboard)
    (fd buf count : U64) :
    (U64 × List U8) × Keyboard :=
  if fd ≠ 0#64 then
    ((-1#64, []), s)
  else if buf = 0#64 ∨ count = 0#64 then
    ((0#64, []), s)
  else
    let res := readLoop count.toNat s
    ((BitVec.ofNat 64 res.1.length, res.1), res.2)

/- The characters in the buffer -/
def Keyboard.buffered (s : Keyboard) : List U8 :=
  CyclicBuffer.cells s.buffer keyboardBufferSize s.head s.count

--------------------
-- Runs
--------------------

/-
  The keyboard with the characters put while there was room
  and the bytes that reads have returned
-/
structure KeyboardSys where
  keyboard : Keyboard
  accepted : List U8
  returned : List U8

inductive KeyboardCall where
  | put (c : U8)
  | read (buf count : U64)

def keyboardStep
    (sys : KeyboardSys)
    (call : KeyboardCall)
    (sys' : KeyboardSys) : Prop :=
  match call with
  | .put c =>
      sys' =
        { keyboard := keyboardBufferPut sys.keyboard c
          accepted :=
            if sys.keyboard.count < keyboardBufferSize then
              sys.accepted ++ [c]
            else
              sys.accepted
          returned := sys.returned }
  | .read buf count =>
      sys' =
        { keyboard := (sysRead sys.keyboard 0#64 buf count).2
          accepted := sys.accepted
          returned := sys.returned ++
            (sysRead sys.keyboard 0#64 buf count).1.2 }

def keyboardBooted (buffer : Nat → U8) : KeyboardSys where
  keyboard := ⟨buffer, 0, 0, 0, []⟩
  accepted := []
  returned := []

/- The indices and the count agree. -/
structure Keyboard.Ok (s : Keyboard) : Prop where
  tail_eq : s.tail = (s.head + s.count) % keyboardBufferSize
  head_lt : s.head < keyboardBufferSize
  count_le : s.count ≤ keyboardBufferSize

/-
  What was returned and what is in the buffer is what was
  accepted. The next read returns the longest part of a line
  that it has room for; without a buffer it takes nothing.
-/
structure KeyboardGood (sys : KeyboardSys) : Prop where
  stream : sys.returned ++ sys.keyboard.buffered = sys.accepted
  tail_eq : sys.keyboard.tail =
    (sys.keyboard.head + sys.keyboard.count) % keyboardBufferSize
  longest : ∀ buf count : U64, buf ≠ 0#64 →
    Longest endsLine count.toNat sys.keyboard.buffered
      (sysRead sys.keyboard 0#64 buf count).1.2
  result : ∀ buf count : U64,
    (sysRead sys.keyboard 0#64 buf count).1.1.toNat =
      (sysRead sys.keyboard 0#64 buf count).1.2.length
  no_buffer : ∀ count : U64,
    sysRead sys.keyboard 0#64 0#64 count =
      ((0#64, []), sys.keyboard)

--------------------
-- The Buffer
--------------------

section Buffer

variable {s : Keyboard}

theorem Keyboard.length_buffered
    (s : Keyboard) :
    s.buffered.length = s.count :=
  CyclicBuffer.length_cells _ _ _ _

theorem keyboardBufferPut_spec
    (hOk : s.Ok)
    (c : U8) :
    (keyboardBufferPut s c).Ok ∧
      (keyboardBufferPut s c).buffered =
        if s.count < keyboardBufferSize then s.buffered ++ [c]
        else s.buffered := by
  rcases hOk with ⟨hTail, hHead, hCount⟩
  unfold keyboardBufferPut
  by_cases hRoom : s.count < keyboardBufferSize
  · rw [if_pos hRoom, if_pos hRoom]
    refine ⟨⟨?_, hHead, hRoom⟩, ?_⟩
    · simp only [hTail, Nat.mod_add_mod, Nat.add_assoc]
    · simp only [Keyboard.buffered, hTail]
      exact CyclicBuffer.cells_put hRoom c
  · rw [if_neg hRoom, if_neg hRoom]
    exact ⟨⟨hTail, hHead, hCount⟩, rfl⟩

/- Nothing is left, or the first character is taken. -/
theorem keyboardBufferGet_cases
    (hOk : s.Ok) :
    (keyboardBufferGet s = (none, s) ∧ s.buffered = []) ∨
      ∃ c t, keyboardBufferGet s = (some c, t) ∧ t.Ok ∧
        s.buffered = c :: t.buffered := by
  rcases hOk with ⟨hTail, hHead, hCount⟩
  unfold keyboardBufferGet
  by_cases hSome : 0 < s.count
  · rw [if_pos hSome]
    refine .inr ⟨_, _, rfl, ⟨?_, ?_, ?_⟩, ?_⟩
    · simp only [hTail, Nat.mod_add_mod]
      congr 1
      omega
    · exact Nat.mod_lt _ (by decide)
    · simp only
      omega
    · have hCons := CyclicBuffer.cells_cons s.buffer
        keyboardBufferSize s.head (s.count - 1)
      rw [Nat.sub_add_cancel hSome, Nat.mod_eq_of_lt hHead]
        at hCons
      exact hCons
  · rw [if_neg hSome]
    refine .inl ⟨rfl, ?_⟩
    rw [← List.length_eq_zero_iff, s.length_buffered]
    omega

/- The loop takes part of a line and leaves the rest. -/
theorem readLoop_eq
    (hOk : s.Ok)
    (room : Nat) :
    (readLoop room s).2.Ok ∧
      (readLoop room s).1 = takeLine endsLine room s.buffered ∧
      (readLoop room s).1 ++ (readLoop room s).2.buffered =
        s.buffered := by
  induction room generalizing s with
  | zero => exact ⟨hOk, rfl, rfl⟩
  | succ room ih =>
      unfold readLoop
      rcases keyboardBufferGet_cases hOk with
        ⟨hGet, hNil⟩ | ⟨c, t, hGet, hNext, hCons⟩
      · simp only [hGet, hNil]
        exact ⟨hOk, rfl, rfl⟩
      · simp only [hGet, hCons]
        have hEcho :
            ({ t with echoed := t.echoed ++ [c] } : Keyboard).Ok :=
          ⟨hNext.tail_eq, hNext.head_lt, hNext.count_le⟩
        rcases ih hEcho with ⟨hLast, hTake, hRest⟩
        by_cases hStop : endsLine c = true
        · rw [if_pos hStop, takeLine, if_pos hStop]
          exact ⟨hEcho, rfl, rfl⟩
        · rw [if_neg hStop, takeLine, if_neg hStop]
          exact ⟨hLast, congrArg (c :: ·) hTake,
            congrArg (c :: ·) hRest⟩

/- A read into a buffer -/
theorem sysRead_spec
    (hOk : s.Ok)
    {buf : U64}
    (hBuf : buf ≠ 0#64)
    (count : U64) :
    (sysRead s 0#64 buf count).2.Ok ∧
      (sysRead s 0#64 buf count).1.2 =
        takeLine endsLine count.toNat s.buffered ∧
      (sysRead s 0#64 buf count).1.2 ++
          (sysRead s 0#64 buf count).2.buffered =
        s.buffered ∧
      (sysRead s 0#64 buf count).1.1.toNat =
        (sysRead s 0#64 buf count).1.2.length := by
  unfold sysRead
  rw [if_neg (not_not.mpr rfl)]
  by_cases hZero : count = 0#64
  · rw [if_pos (.inr hZero), hZero]
    exact ⟨hOk, rfl, rfl, rfl⟩
  · rw [if_neg (not_or.mpr ⟨hBuf, hZero⟩)]
    rcases readLoop_eq hOk count.toNat with ⟨hLast, hTake, hRest⟩
    refine ⟨hLast, hTake, hRest, ?_⟩
    have hLength := congrArg List.length hRest
    rw [List.length_append, s.length_buffered] at hLength
    have hCount := hOk.count_le
    have hSize : keyboardBufferSize = 256 := rfl
    simp only [BitVec.toNat_ofNat]
    exact Nat.mod_eq_of_lt (by omega)

/- A read without a buffer -/
theorem sysRead_no_buffer
    (s : Keyboard)
    (count : U64) :
    sysRead s 0#64 0#64 count = ((0#64, []), s) := by
  unfold sysRead
  rw [if_neg (not_not.mpr rfl), if_pos (.inl rfl)]

end Buffer

--------------------
-- The Stream
--------------------

/- What every call keeps -/
structure KeyboardHolds (sys : KeyboardSys) : Prop where
  ok : sys.keyboard.Ok
  stream : sys.returned ++ sys.keyboard.buffered = sys.accepted

theorem KeyboardHolds.good
    {sys : KeyboardSys}
    (hHolds : KeyboardHolds sys) :
    KeyboardGood sys where
  stream := hHolds.stream
  tail_eq := hHolds.ok.tail_eq
  longest buf count hBuf := by
    rw [(sysRead_spec hHolds.ok hBuf count).2.1]
    exact Lines.takeLine_longest _ _ _
  result buf count := by
    by_cases hBuf : buf = 0#64
    · rw [hBuf, sysRead_no_buffer]
      rfl
    · exact (sysRead_spec hHolds.ok hBuf count).2.2.2
  no_buffer count := sysRead_no_buffer sys.keyboard count

theorem keyboardStep_holds
    {sys sys' : KeyboardSys}
    {call : KeyboardCall}
    (hHolds : KeyboardHolds sys)
    (hStep : keyboardStep sys call sys') :
    KeyboardHolds sys' := by
  rcases hHolds with ⟨hOk, hStream⟩
  cases call with
  | put c =>
      rcases keyboardBufferPut_spec hOk c with ⟨hNext, hPut⟩
      rw [hStep]
      refine ⟨hNext, ?_⟩
      simp only [hPut]
      by_cases hRoom : sys.keyboard.count < keyboardBufferSize
      · rw [if_pos hRoom, if_pos hRoom, ← List.append_assoc,
          hStream]
      · rw [if_neg hRoom, if_neg hRoom, hStream]
  | read buf count =>
      rw [hStep]
      by_cases hBuf : buf = 0#64
      · rw [hBuf, sysRead_no_buffer]
        refine ⟨hOk, ?_⟩
        simp only [List.append_nil]
        exact hStream
      · rcases sysRead_spec hOk hBuf count with
          ⟨hNext, _, hRest, _⟩
        refine ⟨hNext, ?_⟩
        simp only [List.append_assoc, hRest]
        exact hStream

theorem keyboardBooted_holds
    (buffer : Nat → U8) :
    KeyboardHolds (keyboardBooted buffer) := by
  have hFirst : 0 < keyboardBufferSize := by decide
  exact ⟨⟨rfl, hFirst, Nat.zero_le _⟩, rfl⟩

/- Over every run the keyboard is an ordered stream. -/
theorem keyboardRun_stream
    {buffer : Nat → U8}
    {calls : List KeyboardCall}
    {sys : KeyboardSys}
    (hRun : Run keyboardStep (keyboardBooted buffer) calls sys) :
    KeyboardGood sys := by
  have hHolds := hRun.invariant KeyboardHolds
    (fun _ _ _ hHolds hStep => keyboardStep_holds hHolds hStep)
    (keyboardBooted_holds buffer)
  exact hHolds.good

/- Two characters, one of which is read -/
theorem keyboardRun_stream_two :
    ∃ sys, Run keyboardStep (keyboardBooted fun _ => 0#8)
        [.put 0x61#8, .put 0x62#8, .read 1#64 1#64] sys ∧
      KeyboardGood sys := by
  have hRun : Run keyboardStep (keyboardBooted fun _ => 0#8)
      [.put 0x61#8, .put 0x62#8, .read 1#64 1#64] _ :=
    .cons rfl (.cons rfl (.cons rfl (.nil _)))
  exact ⟨_, hRun, keyboardRun_stream hRun⟩

/- A read without a buffer leaves what is there. -/
theorem sysRead_ignores_line :
    ¬ ∀ (calls : List KeyboardCall) (sys : KeyboardSys)
      (buf count : U64),
      Run keyboardStep (keyboardBooted fun _ => 0#8) calls sys →
      Longest endsLine count.toNat sys.keyboard.buffered
        (sysRead sys.keyboard 0#64 buf count).1.2 := by
  intro hAll
  have hRun : Run keyboardStep (keyboardBooted fun _ => 0#8)
      [.put 0x61#8] _ :=
    .cons rfl (.nil _)
  have hLongest := (hAll _ _ 0#64 1#64 hRun).longest [0x61#8]
    List.prefix_rfl (Nat.le_refl 1) nofun
  exact absurd hLongest (by decide)

end FeatherOS
