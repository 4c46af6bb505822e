import Mathlib.Data.List.Basic

/-
  Fields of a text between separators.

  A text whose last field has a separator too can be read
  from the front, one field at a time. A receiver that only
  takes the chunk which starts where it stands has received a
  beginning of a sequence that is cut into chunks.

  Key definitions include:
    * `Fields.closed`
    * `Chunks.start`

  Key rules include:
    * `Fields.intercalate_append`
    * `Fields.takeWhile_field`
    * `Fields.dropWhile_field`
    * `Fields.closed_injective`
    * `Chunks.extend`
-/

namespace Fields

variable {α : Type}
variable {sep : α}

/- Every field is followed by the separator. -/
def closed
    (sep : α)
    (fs : List (List α)) :
    List α :=
  fs.flatMap fun f => f ++ [sep]

@[simp] theorem closed_nil :
    closed sep [] = [] := rfl

@[simp] theorem closed_cons
    (f : List α)
    (fs : List (List α)) :
    closed sep (f :: fs) = f ++ sep :: closed sep fs := by
  simp [closed]

/- The fields with separators between them, and one behind -/
theorem intercalate_append
    {fs : List (List α)}
    (hSome : fs ≠ []) :
    [sep].intercalate fs ++ [sep] = closed sep fs := by
  induction fs with
  | nil => exact absurd rfl hSome
  | cons f fs ih =>
      cases fs with
      | nil => simp [List.intercalate]
      | cons g fs =>
          have hRest := ih (by simp)
          rw [closed_cons, ← hRest]
          simp [List.intercalate]

section Reading

variable {p : α → Bool}
variable {f : List α}

/- The field ends where `p` does. -/
theorem takeWhile_field
    (hField : ∀ x ∈ f, p x = true)
    (hSep : p sep = false)
    (rest : List α) :
    (f ++ sep :: rest).takeWhile p = f := by
  rw [List.takeWhile_append_of_pos hField,
    List.takeWhile_cons_of_neg (by simp [hSep]),
    List.append_nil]

theorem dropWhile_field
    (hField : ∀ x ∈ f, p x = true)
    (hSep : p sep = false)
    (rest : List α) :
    (f ++ sep :: rest).dropWhile p = sep :: rest := by
  rw [List.dropWhile_append_of_pos hField,
    List.dropWhile_cons_of_neg (by simp [hSep])]

/- Fields without the separator can be told apart. -/
theorem closed_injective
    {fs gs : List (List α)}
    (hSep : p sep = false)
    (hFs : ∀ f ∈ fs, ∀ x ∈ f, p x = true)
    (hGs : ∀ g ∈ gs, ∀ x ∈ g, p x = true)
    (hSame : closed sep fs = closed sep gs) :
    fs = gs := by
  induction fs generalizing gs with
  | nil =>
      cases gs with
      | nil => rfl
      | cons g gs => simp at hSame
  | cons f fs ih =>
      cases gs with
      | nil => simp at hSame
      | cons g gs =>
          rw [closed_cons, closed_cons] at hSame
          have hF := hFs f List.mem_cons_self
          have hG := hGs g List.mem_cons_self
          have hTake := congrArg (List.takeWhile p) hSame
          have hDrop := congrArg (List.dropWhile p) hSame
          rw [takeWhile_field hF hSep,
            takeWhile_field hG hSep] at hTake
          rw [dropWhile_field hF hSep,
            dropWhile_field hG hSep] at hDrop
          rw [hTake, ih
            (fun f' hMem => hFs f' (List.mem_cons_of_mem _ hMem))
            (fun g' hMem => hGs g' (List.mem_cons_of_mem _ hMem))
            (List.cons.inj hDrop).2]

end Reading

end Fields

--------------------
-- Chunks
--------------------

namespace Chunks

variable {α : Type}

/- Where a chunk starts -/
def start
    (chunks : List (List α))
    (i : Nat) :
    Nat :=
  (chunks.take i).flatten.length

/- The next chunk continues what was received. -/
theorem extend
    {chunks : List (List α)}
    {got chunk : List α}
    {i : Nat}
    (hGot : got <+: chunks.flatten)
    (hChunk : chunks[i]? = some chunk)
    (hStart : got.length = start chunks i) :
    got ++ chunk <+: chunks.flatten := by
  rcases List.getElem?_eq_some_iff.mp hChunk with ⟨hi, hAt⟩
  have hSplit :
      chunks.flatten =
        (chunks.take i).flatten ++
          (chunk ++ (chunks.drop (i + 1)).flatten) := by
    rw [← List.flatten_cons, ← List.flatten_append, ← hAt,
      ← List.drop_eq_getElem_cons hi, List.take_append_drop]
  have hBefore : (chunks.take i).flatten <+: chunks.flatten :=
    ⟨_, hSplit.symm⟩
  have hSame : got = (chunks.take i).flatten :=
    (List.prefix_of_prefix_length_le hGot hBefore
      (Nat.le_of_eq hStart)).eq_of_length hStart
  rw [hSame, hSplit, ← List.append_assoc]
  exact List.prefix_append _ _

end Chunks
