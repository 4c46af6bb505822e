import FeatherOS.Kmalloc
import FeatherOS.Library.BoundedFifo
import FeatherOS.Library.Run

/-
  The PS/2 keyboard of `kernel/drivers/keyboard.c`.

  The handler turns scancodes into characters and puts them
  into a ring of 64 cells. The prefix of an extended code is
  only noted, and a press of the A key is taken for a press of
  the Caps Lock key. The statistics are left out.

  Key definitions include:
    * `Ps2Keyboard`
    * `scancodeToAscii`
    * `keyboardInterruptHandler`
    * `Typist`

  Key theorems include:
    * `keyboard_types`
    * `keyboard_ignores_extended`
-/

namespace FeatherOS

--------------------
-- Scancodes
--------------------

def kbdScanLctrl : U8 := 0x1D#8
def kbdScanA : U8 := 0x1E#8
def kbdScanLshift : U8 := 0x2A#8
def kbdScanZ : U8 := 0x2C#8
def kbdScanRshift : U8 := 0x36#8
def kbdScanNumlock : U8 := 0x45#8
def kbdScanScrolllock : U8 := 0x46#8

/- KBD_KEY_BREAK and KBD_KEY_EXTENDED -/
def kbdKeyBreak : U8 := 0x80#8
def kbdKeyExtended : U8 := 0xE0#8

def kbdModLshift : U8 := 0x01#8
def kbdModRshift : U8 := 0x02#8
def kbdModLctrl : U8 := 0x04#8

/- KBD_CMD_SET_LEDS -/
def kbdCmdSetLeds : U8 := 0xED#8

/- KEYBOARD_BUFFER_SIZE of the driver -/
def ps2BufferSize : Nat := 64

/- A key without a character has its own scancode. -/
def kbdUsNormal : List U8 := [
  0x00, 0x01, 0x31, 0x32, 0x33, 0x34, 0x35, 0x36,
  0x37, 0x38, 0x39, 0x30, 0x2D, 0x3D, 0x08, 0x09,
  0x71, 0x77, 0x65, 0x72, 0x74, 0x79, 0x75, 0x69,
  0x6F, 0x70, 0x5B, 0x5D, 0x0A, 0x1D, 0x61, 0x73,
  0x64, 0x66, 0x67, 0x68, 0x6A, 0x6B, 0x6C, 0x3B,
  0x27, 0x60, 0x2A, 0x5C, 0x7A, 0x78, 0x63, 0x76,
  0x62, 0x6E, 0x6D, 0x2C, 0x2E, 0x2F, 0x36, 0x2A,
  0x38, 0x20, 0x3A, 0x3B, 0x3C,
  0x3D, 0x3E, 0x3F, 0x40,
  0x41, 0x42, 0x43, 0x44,
  0x45, 0x46, 0x37, 0x38, 0x39, 0x2D,
  0x34, 0x35, 0x36, 0x2B, 0x31, 0x32, 0x33, 0x30,
  0x2E, 0x00, 0x00, 0x57, 0x58]

def kbdUsShift : List U8 := [
  0x00, 0x01, 0x21, 0x40, 0x23, 0x24, 0x25, 0x5E,
  0x26, 0x2A, 0x28, 0x29, 0x5F, 0x2B, 0x08, 0x09,
  0x51, 0x57, 0x45, 0x52, 0x54, 0x59, 0x55, 0x49,
  0x4F, 0x50, 0x7B, 0x7D, 0x0A, 0x1D, 0x41, 0x53,
  0x44, 0x46, 0x47, 0x48, 0x4A, 0x4B, 0x4C, 0x3A,
  0x22, 0x7E, 0x2A, 0x7C, 0x5A, 0x58, 0x43, 0x56,
  0x42, 0x4E, 0x4D, 0x3C, 0x3E, 0x3F, 0x36, 0x2A,
  0x38, 0x20, 0x3A, 0x3B, 0x3C,
  0x3D, 0x3E, 0x3F, 0x40,
  0x41, 0x42, 0x43, 0x44,
  0x45, 0x46, 0x37, 0x38, 0x39, 0x2D,
  0x34, 0x35, 0x36, 0x2B, 0x31, 0x32, 0x33, 0x30,
  0x2E, 0x00, 0x00, 0x57, 0x58]

--------------------
-- State
--------------------

/- The keys that are held and the locks; `ports` is what was
   written to the data port -/
structure KeyState where
  modifiers : U8
  capslock : Bool
  numlock : Bool
  scrolllock : Bool
  extended : Bool
  ports : List U8

structure Ps2Keyboard where
  keys : KeyState
  ring : SpareRing U8

def KeyState.shift (s : KeyState) : Bool :=
  s.modifiers &&& (kbdModLshift ||| kbdModRshift) ≠ 0#8

def KeyState.leds (s : KeyState) : U8 :=
  (if s.scrolllock then 0x01#8 else 0#8) |||
    (if s.numlock then 0x02#8 else 0#8) |||
    (if s.capslock then 0x04#8 else 0#8)

def keyboardSetLeds
    (s : KeyState)
    (leds : U8) : KeyState :=
  { s with ports := s.ports ++ [kbdCmdSetLeds, leds] }

/- `kbd_modifiers |= mod` or `kbd_modifiers &= ~mod` -/
def KeyState.setModifier
    (s : KeyState)
    (pressed : Bool)
    (mod : U8) : KeyState :=
  { s with
    modifiers :=
      if pressed then s.modifiers ||| mod
      else s.modifiers &&& ~~~ mod }

/- The LEDs follow a lock that was changed. -/
def KeyState.relight (s : KeyState) : KeyState :=
  keyboardSetLeds s s.leds

def scancodeToAscii
    (s : KeyState)
    (scancode : U8) : U8 :=
  let shift :=
    s.shift ||
      (s.capslock && !s.shift &&
        kbdScanA ≤ scancode && scancode ≤ kbdScanZ)
  if scancode.toNat < kbdUsNormal.length then
    if shift then kbdUsShift.getD scancode.toNat 0#8
    else kbdUsNormal.getD scancode.toNat 0#8
  else
    0#8

/-
  The `switch` of the handler: the keys after a case that
  returns, `none` for any other key
-/
def keyboardSwitch
    (pressed : Bool)
    (key : U8)
    (s : KeyState) : Option KeyState :=
  if key = kbdScanLshift then
    some (s.setModifier pressed kbdModLshift)
  else if key = kbdScanRshift then
    some (s.setModifier pressed kbdModRshift)
  else if key = kbdScanLctrl then
    some (s.setModifier pressed kbdModLctrl)
  else if key = kbdScanA then
    if pressed then
      some ({ s with capslock := !s.capslock } : KeyState).relight
    else
      some s
  else if key = kbdScanNumlock then
    if pressed then
      some ({ s with numlock := !s.numlock } : KeyState).relight
    else
      some s
  else if key = kbdScanScrolllock then
    if pressed then
      some ({ s with scrolllock := !s.scrolllock } : KeyState).relight
    else
      some s
  else
    none

/- A key that is pressed, not released, and its scancode -/
def kbdPressed (scancode : U8) : Bool :=
  scancode &&& kbdKeyBreak = 0#8

def kbdKey (scancode : U8) : U8 :=
  scancode &&& ~~~ kbdKeyBreak

def keyboardInterruptHandler
    (scancode : U8)
    (s : Ps2Keyboard) : Ps2Keyboard :=
  if scancode = kbdKeyExtended then
    { s with keys := { s.keys with extended := true } }
  else
    match keyboardSwitch (kbdPressed scancode) (kbdKey scancode)
        s.keys with
    | some keys => { s with keys := keys }
    | none =>
        { keys := { s.keys with extended := false }
          ring :=
            if kbdPressed scancode then
              s.ring.put ps2BufferSize
                (scancodeToAscii s.keys (kbdKey scancode))
            else
              s.ring }

/- `none` is the result -1. -/
def keyboardGetcharNb
    (s : Ps2Keyboard) :
    Option U8 × Ps2Keyboard :=
  let got := s.ring.get ps2BufferSize
  (got.1, { s with ring := got.2 })

def keyboardClearBuffer (s : Ps2Keyboard) : Ps2Keyboard :=
  { s with ring := s.ring.clear }

/- The zeroed globals, and what the buffer happens to hold -/
def ps2Booted (buffer : Nat → U8) : Ps2Keyboard where
  keys := ⟨0#8, false, false, false, false, []⟩
  ring := ⟨buffer, 0, 0⟩

--------------------
-- Typing
--------------------

/- A call with its answer -/
inductive Ps2Call where
  | interrupt (scancode : U8)
  | getchar (c : Option U8)
  | clear

def ps2Step
    (s : Ps2Keyboard)
    (call : Ps2Call)
    (t : Ps2Keyboard) : Prop :=
  match call with
  | .interrupt scancode => t = keyboardInterruptHandler scancode s
  | .getchar c => keyboardGetcharNb s = (c, t)
  | .clear => t = keyboardClearBuffer s

/- The keys after a scancode -/
def KeyState.after
    (s : KeyState)
    (scancode : U8) : KeyState :=
  if scancode = kbdKeyExtended then
    { s with extended := true }
  else
    (keyboardSwitch (kbdPressed scancode) (kbdKey scancode) s).getD
      { s with extended := false }

/- The character that a scancode types, if it does -/
def KeyState.types
    (s : KeyState)
    (scancode : U8) : Option U8 :=
  if scancode ≠ kbdKeyExtended ∧ kbdPressed scancode ∧
      keyboardSwitch (kbdPressed scancode) (kbdKey scancode) s =
        none then
    some (scancodeToAscii s (kbdKey scancode))
  else
    none

/- The keyboard as one who types into a bounded queue -/
structure Typist where
  keys : KeyState
  fifo : BoundedFifo U8 (ps2BufferSize - 1)

/- What is typed while there is no room is lost. -/
def Typist.press
    (T : Typist)
    (scancode : U8) : Typist where
  keys := T.keys.after scancode
  fifo :=
    match T.keys.types scancode with
    | none => T.fifo
    | some c =>
        if hRoom : T.fifo.waiting.length < ps2BufferSize - 1 then
          T.fifo.push c hRoom
        else
          T.fifo

def typistStep
    (T : Typist)
    (call : Ps2Call)
    (T' : Typist) : Prop :=
  match call with
  | .interrupt scancode => T' = T.press scancode
  | .getchar c =>
      c = T.fifo.waiting.head? ∧ T' = { T with fifo := T.fifo.pop 1 }
  | .clear => T' = { T with fifo := T.fifo.drain }

def typistBooted : Typist where
  keys := (ps2Booted fun _ => 0#8).keys
  fifo := .empty

/- The ring holds what was typed. -/
structure Types
    (s : Ps2Keyboard)
    (T : Typist) : Prop where
  keys : s.keys = T.keys
  ring : SpareRing.Holds ps2BufferSize s.ring T.fifo

/- The LEDs were last set to what the locks are. -/
def KeyState.Lit (s : KeyState) : Prop :=
  (s.ports = [] ∧ s.leds = 0#8) ∨
    ∃ before, s.ports = before ++ [kbdCmdSetLeds, s.leds]

/- Everything an interrupt does -/
theorem keyboardInterruptHandler_eq
    (scancode : U8)
    (s : Ps2Keyboard) :
    keyboardInterruptHandler scancode s =
      { keys := s.keys.after scancode
        ring :=
          match s.keys.types scancode with
          | none => s.ring
          | some c => s.ring.put ps2BufferSize c } := by
  unfold KeyState.after KeyState.types keyboardInterruptHandler
  by_cases hPrefix : scancode = kbdKeyExtended
  · simp [hPrefix]
  · cases hSwitch : keyboardSwitch (kbdPressed scancode)
        (kbdKey scancode) s.keys with
    | some keys => simp [hPrefix]
    | none => cases hPressed : kbdPressed scancode <;> simp [hPrefix]

--------------------
-- Every Run
--------------------

theorem Types.press
    {s : Ps2Keyboard}
    {T : Typist}
    (hTypes : Types s T)
    (scancode : U8) :
    Types (keyboardInterruptHandler scancode s)
      (T.press scancode) := by
  rw [keyboardInterruptHandler_eq, hTypes.keys]
  refine ⟨rfl, ?_⟩
  unfold Typist.press
  cases T.keys.types scancode with
  | none => exact hTypes.ring
  | some c => exact hTypes.ring.put c

theorem Types.step
    {s t : Ps2Keyboard}
    {T : Typist}
    {call : Ps2Call}
    (hTypes : Types s T)
    (hStep : ps2Step s call t) :
    ∃ T', typistStep T call T' ∧ Types t T' := by
  cases call with
  | interrupt scancode =>
      cases hStep
      exact ⟨_, rfl, hTypes.press scancode⟩
  | getchar c =>
      cases hStep
      have hGet := hTypes.ring.get
      exact ⟨_, ⟨hGet.1, rfl⟩, hTypes.keys, hGet.2⟩
  | clear =>
      cases hStep
      refine ⟨_, rfl, hTypes.keys, ?_⟩
      exact SpareRing.holds_clear (by decide)
        (BoundedFifo.waiting_drain _)

theorem types_booted
    (buffer : Nat → U8) :
    Types (ps2Booted buffer) typistBooted where
  keys := rfl
  ring := SpareRing.holds_clear (r := ⟨buffer, 0, 0⟩) (by decide) rfl

/- No key but A has an `a`. -/
theorem scancodeToAscii_ne_a
    (s : KeyState)
    {key : U8}
    (hKey : key ≠ kbdScanA) :
    scancodeToAscii s key ≠ 0x61#8 := by
  have hTables : ∀ i < 88, i ≠ 0x1E →
      kbdUsNormal.getD i 0#8 ≠ 0x61#8 ∧
        kbdUsShift.getD i 0#8 ≠ 0x61#8 := by
    decide +kernel
  have hLength : kbdUsNormal.length = 88 := rfl
  have hNot : key.toNat ≠ 0x1E :=
    fun hSame => hKey (BitVec.eq_of_toNat_eq hSame)
  simp only [scancodeToAscii]
  by_cases hIn : key.toNat < kbdUsNormal.length
  · have hBoth := hTables _ (hLength ▸ hIn) hNot
    rw [if_pos hIn]
    split
    next => exact hBoth.2
    next => exact hBoth.1
  · rw [if_neg hIn]
    decide

theorem types_ne_a
    {s : KeyState}
    {scancode c : U8}
    (hTypes : s.types scancode = some c) :
    c ≠ 0x61#8 := by
  unfold KeyState.types at hTypes
  split at hTypes
  next hTyped =>
    cases hTypes
    apply scancodeToAscii_ne_a
    intro hKey
    have hNone := hTyped.2.2
    simp [keyboardSwitch, hKey, kbdScanA, kbdScanLshift,
      kbdScanRshift, kbdScanLctrl, hTyped.2.1] at hNone
  next => cases hTypes

theorem KeyState.Lit.relight
    (s : KeyState) :
    s.relight.Lit :=
  .inr ⟨s.ports, rfl⟩

theorem KeyState.Lit.switch
    {s t : KeyState}
    (hLit : s.Lit)
    {pressed : Bool}
    {key : U8}
    (hSwitch : keyboardSwitch pressed key s = some t) :
    t.Lit := by
  unfold keyboardSwitch at hSwitch
  split_ifs at hSwitch <;> cases hSwitch
  all_goals first | exact hLit | exact .relight _

theorem KeyState.Lit.after
    {s : KeyState}
    (hLit : s.Lit)
    (scancode : U8) :
    (s.after scancode).Lit := by
  unfold KeyState.after
  split
  next => exact hLit
  next =>
    cases hSwitch : keyboardSwitch (kbdPressed scancode)
        (kbdKey scancode) s with
    | none => exact hLit
    | some t => exact hLit.switch hSwitch

/- What one who types never does -/
structure Typist.Ok (T : Typist) : Prop where
  lit : T.keys.Lit
  no_a : 0x61#8 ∉ T.fifo.arrived

theorem typistStep_ok
    {T T' : Typist}
    {call : Ps2Call}
    (hOk : T.Ok)
    (hStep : typistStep T call T') :
    T'.Ok := by
  cases call with
  | interrupt scancode =>
      cases hStep
      refine ⟨hOk.lit.after scancode, ?_⟩
      unfold Typist.press
      cases hTyped : T.keys.types scancode with
      | none => exact hOk.no_a
      | some c =>
          dsimp only
          split
          next hRoom =>
            have hNot := types_ne_a hTyped
            simp only [BoundedFifo.push, List.mem_append,
              List.mem_singleton, not_or]
            exact ⟨hOk.no_a, hNot.symm⟩
          next => exact hOk.no_a
  | getchar c =>
      cases hStep.2
      exact ⟨hOk.lit, hOk.no_a⟩
  | clear =>
      cases hStep
      exact ⟨hOk.lit, hOk.no_a⟩

/-
  Every run of the driver is one of typing into a queue of 63
  characters, of which none is ever an `a`. The LEDs follow
  the locks.
-/
theorem keyboard_types
    (buffer : Nat → U8)
    (t : Ps2Keyboard)
    (calls : List Ps2Call)
    (hRun : Run ps2Step (ps2Booted buffer) calls t) :
    ∃ T, Run typistStep typistBooted calls T ∧ Types t T ∧
      0x61#8 ∉ T.fifo.arrived ∧ t.keys.Lit := by
  have hSame : ∃ T, Run typistStep typistBooted calls T ∧
      Types t T := by
    refine hRun.simulate Types ?_ (types_booted buffer)
    intro s T call t hTypes hStep
    exact hTypes.step hStep
  rcases hSame with ⟨T, hTyping, hTypes⟩
  have hOk : T.Ok := by
    apply hTyping.invariant Typist.Ok
    · intro _ _ _ hOk hStep
      exact typistStep_ok hOk hStep
    · exact ⟨.inl ⟨rfl, rfl⟩, nofun⟩
  refine ⟨T, hTyping, hTypes, hOk.no_a, ?_⟩
  rw [hTypes.keys]
  exact hOk.lit

/- The keys A, S and A again: one `S` is typed. -/
theorem keyboard_types_as :
    ∃ t, Run ps2Step (ps2Booted fun _ => 0#8)
        [.interrupt 0x1E#8, .interrupt 0x1F#8, .interrupt 0x1E#8,
          .getchar (some 0x53#8), .getchar none] t ∧
      t.keys.Lit := by
  have hRun :
      Run ps2Step (ps2Booted fun _ => 0#8)
        [.interrupt 0x1E#8, .interrupt 0x1F#8, .interrupt 0x1E#8,
          .getchar (some 0x53#8), .getchar none] _ :=
    .cons rfl (.cons rfl (.cons rfl (.cons rfl (.cons rfl (.nil _)))))
  rcases keyboard_types _ _ _ hRun with ⟨T, _, _, _, hLit⟩
  exact ⟨_, hRun, hLit⟩

--------------------
-- Extended Keys
--------------------

/- The keyboard but for the prefix that was noted -/
def Ps2Keyboard.forget (s : Ps2Keyboard) : Ps2Keyboard :=
  { s with keys := { s.keys with extended := false } }

theorem keyboardSwitch_forget
    (pressed : Bool)
    (key : U8)
    (s : KeyState) :
    keyboardSwitch pressed key { s with extended := false } =
      (keyboardSwitch pressed key s).map
        fun t => { t with extended := false } := by
  unfold keyboardSwitch
  split_ifs <;> rfl

theorem keyboardInterruptHandler_forget
    (scancode : U8)
    (s : Ps2Keyboard) :
    (keyboardInterruptHandler scancode s.forget).forget =
      (keyboardInterruptHandler scancode s).forget := by
  simp only [keyboardInterruptHandler, Ps2Keyboard.forget,
    keyboardSwitch_forget]
  split
  next => rfl
  next =>
    cases keyboardSwitch (kbdPressed scancode) (kbdKey scancode)
        s.keys <;> rfl

/-
  Nothing depends on the prefix of an extended code: without
  the prefixes, the same scancodes do the same.
-/
theorem keyboard_ignores_extended
    (s : Ps2Keyboard)
    (codes : List U8) :
    let press := fun s code => keyboardInterruptHandler code s
    ((codes.filter (· ≠ kbdKeyExtended)).foldl press s).forget =
      (codes.foldl press s).forget := by
  -- the same for two keyboards that differ in what they noted
  suffices hBoth : ∀ t : Ps2Keyboard, s.forget = t.forget →
      ((codes.filter (· ≠ kbdKeyExtended)).foldl
          (fun s code => keyboardInterruptHandler code s) s).forget =
        (codes.foldl
          (fun s code => keyboardInterruptHandler code s) t).forget
    from hBoth s rfl
  induction codes generalizing s with
  | nil => exact fun t hSame => hSame
  | cons code codes ih =>
      intro t hSame
      by_cases hPrefix : code = kbdKeyExtended
      · have hGone : (keyboardInterruptHandler code t).forget =
            t.forget := by
          simp only [keyboardInterruptHandler, if_pos hPrefix]
          rfl
        rw [List.filter_cons_of_neg (by simpa using hPrefix),
          List.foldl_cons]
        exact ih s _ (hSame.trans hGone.symm)
      · rw [List.filter_cons_of_pos (by simpa using hPrefix),
          List.foldl_cons, List.foldl_cons]
        apply ih
        rw [← keyboardInterruptHandler_forget, hSame,
          keyboardInterruptHandler_forget]

end FeatherOS
