import Mathlib.Data.List.Basic

/-
  Handles of one file.

  The file is a list, and every handle has a position in it
  and a mode. A call goes through one handle: a read or a
  write moves elements at the position of its handle, or at
  the end if a write appends, and the handle behind them.
  What the file itself hands out or takes, which may be less
  than what a call asks for or nothing at all, is given.

  Key definitions include:
    * `OpenFiles.Files`
    * `OpenFiles.Written`
    * `OpenFiles.Read`
    * `OpenFiles.Write`

  Key rules include:
    * `OpenFiles.Written.pos_unique`
    * `OpenFiles.read_refused_iff`
    * `OpenFiles.write_moved_iff`
-/

namespace OpenFiles

/- What a handle is open for -/
structure Mode where
  reads : Bool
  writes : Bool
  appends : Bool
deriving DecidableEq

structure Handle where
  mode : Mode
  pos : Nat
deriving DecidableEq

/- The newest handle of a name is the one that is meant. -/
structure Files (ι β : Type) where
  content : List β
  handles : List (ι × Handle)

variable {ι β : Type}

--------------------
-- Handles
--------------------

namespace Files

variable [DecidableEq ι]

def find
    (p : Files ι β)
    (f : ι) : Option Handle :=
  (p.handles.find? fun x => x.1 = f).map Prod.snd

def opened
    (p : Files ι β)
    (f : ι)
    (mode : Mode)
    (truncate : Bool) :
    Files ι β where
  content := if truncate then [] else p.content
  handles := (f, ⟨mode, 0⟩) :: p.handles

def moveTo
    (p : Files ι β)
    (f : ι)
    (pos : Nat) :
    Files ι β :=
  { p with
    handles := p.handles.map fun x =>
      if x.1 = f then (x.1, { x.2 with pos := pos }) else x }

def closed
    (p : Files ι β)
    (f : ι) :
    Files ι β :=
  { p with handles := p.handles.eraseP fun x => x.1 = f }

def withContent
    (p : Files ι β)
    (content : List β) :
    Files ι β :=
  { p with content := content }

end Files

--------------------
-- Reads And Writes
--------------------

/- The elements stand at the position, others are kept. -/
structure Written
    (content : List β)
    (pos : Nat)
    (moved content' : List β) : Prop where
  length : content'.length =
    if moved = [] then content.length
    else max content.length (pos + moved.length)
  placed : ∀ i < moved.length, content'[pos + i]? = moved[i]?
  kept : ∀ i < content.length,
    i < pos ∨ pos + moved.length ≤ i → content'[i]? = content[i]?

/- Where a write through a handle takes place -/
def Handle.start
    (h : Handle)
    (size : Nat)
    (moved : List β) : Nat :=
  if h.mode.appends = true ∧ moved ≠ [] then size else h.pos

section Calls

variable [DecidableEq ι]

/- A read of at most `count` elements, and its answer -/
inductive Read
    (p : Files ι β)
    (f : ι)
    (count : Nat)
    (given : Option (List β)) :
    Option (List β) → Files ι β → Prop
| refused
    {h : Handle}
    (hFind : p.find f = some h)
    (hMode : h.mode.reads = false) :
    Read p f count given none p
| failed
    {h : Handle}
    (hFind : p.find f = some h)
    (hMode : h.mode.reads = true)
    (hGiven : given = none) :
    Read p f count given none p
| moved
    {h : Handle}
    {bytes : List β}
    (hFind : p.find f = some h)
    (hMode : h.mode.reads = true)
    (hGiven : given = some bytes)
    (hCount : bytes.length ≤ count)
    (hBytes : bytes <+: p.content.drop h.pos) :
    Read p f count given (some bytes)
      (p.moveTo f (h.pos + bytes.length))

/- A write of some of `data`, and its answer -/
inductive Write
    (p : Files ι β)
    (f : ι)
    (data : List β)
    (given : Option (List β)) :
    Option (List β) → Files ι β → Prop
| refused
    {h : Handle}
    (hFind : p.find f = some h)
    (hMode : h.mode.writes = false) :
    Write p f data given none p
| failed
    {h : Handle}
    (hFind : p.find f = some h)
    (hMode : h.mode.writes = true)
    (hGiven : given = none) :
    Write p f data given none p
| moved
    {h : Handle}
    {bytes content : List β}
    (hFind : p.find f = some h)
    (hMode : h.mode.writes = true)
    (hGiven : given = some bytes)
    (hData : bytes <+: data)
    (hWritten : Written p.content
      (h.start p.content.length bytes) bytes content) :
    Write p f data given (some bytes)
      ((p.moveTo f
        (h.start p.content.length bytes + bytes.length))
          |>.withContent content)

--------------------
-- Rules
--------------------

theorem Written.nil
    (content : List β)
    (pos : Nat) :
    Written content pos [] content where
  length := (if_pos rfl).symm
  placed := fun i hi => absurd hi (Nat.not_lt_zero i)
  kept := fun _ _ _ => rfl

/- Only where the list ends do elements lengthen it by all. -/
theorem Written.pos_unique
    {content moved content' : List β}
    {pos : Nat}
    (hWritten : Written content pos moved content')
    (hEnd : Written content content.length moved content')
    (hSome : moved ≠ []) :
    pos = content.length := by
  have hLength := hWritten.length
  rw [hEnd.length, if_neg hSome, if_neg hSome] at hLength
  have hPos := List.length_pos_of_ne_nil hSome
  omega

variable {p : Files ι β}
variable {f : ι}
variable {h : Handle}

/- A refusal is right where the file would not answer. -/
theorem read_refused_iff
    (hFind : p.find f = some h)
    {count : Nat}
    {given : Option (List β)} :
    Read p f count given none p ↔
      (h.mode.reads = true → given = none) := by
  constructor
  · intro hRead hMode
    cases hRead with
    | refused hFind' hMode' =>
        rw [hFind] at hFind'
        cases hFind'
        rw [hMode] at hMode'
        cases hMode'
    | failed _ _ hGiven => exact hGiven
  · intro hGiven
    cases hMode : h.mode.reads with
    | false => exact .refused hFind hMode
    | true => exact .failed hFind hMode (hGiven hMode)

/- The answer is what the file took. -/
theorem Write.given_eq
    {data bytes : List β}
    {given : Option (List β)}
    {p' : Files ι β}
    (hWrite : Write p f data given (some bytes) p') :
    given = some bytes := by
  cases hWrite with
  | moved _ _ hGiven => exact hGiven

/-
  A write at the position of its handle is right unless it
  should have been at another place, which is the end.
-/
theorem write_moved_iff
    (hFind : p.find f = some h)
    (hMode : h.mode.writes = true)
    {data bytes content : List β}
    (hData : bytes <+: data)
    (hWritten : Written p.content h.pos bytes content) :
    Write p f data (some bytes) (some bytes)
        ((p.moveTo f (h.pos + bytes.length)).withContent
          content) ↔
      (h.mode.appends = true → bytes ≠ [] →
        h.pos = p.content.length) := by
  constructor
  · intro hWrite hAppends hSome
    generalize hAfter : (p.moveTo f
      (h.pos + bytes.length)).withContent content = p' at hWrite
    cases hWrite with
    | @moved h' _ content' hFind' _ _ _ hRight =>
        rw [hFind] at hFind'
        cases hFind'
        have hContent := congrArg Files.content hAfter
        cases hContent
        rw [Handle.start, if_pos ⟨hAppends, hSome⟩] at hRight
        exact hWritten.pos_unique hRight hSome
  · intro hPos
    have hStart : h.start p.content.length bytes = h.pos := by
      rw [Handle.start]
      split
      next hBoth => exact (hPos hBoth.1 hBoth.2).symm
      next => rfl
    have hMoved := @Write.moved ι β _ p f data (some bytes) h
      bytes content hFind hMode rfl hData
    rw [hStart] at hMoved
    exact hMoved hWritten

end Calls

end OpenFiles
