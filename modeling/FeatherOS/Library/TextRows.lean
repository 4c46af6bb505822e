import Mathlib.Data.List.Basic

/-
  Text laid out in rows of a width.

  Entries go from left to right; a new row is started right
  after the last column and at every entry that breaks the
  row. A window shows the last rows.

  Key definitions include:
    * `TextRows.rowsFrom`
    * `TextRows.rows`
    * `TextRows.shown`

  Key rules include:
    * `TextRows.rowsFrom_snoc`
    * `TextRows.shown_type`
    * `TextRows.shown_open`
    * `TextRows.shown_scroll`
-/

namespace TextRows

variable {α : Type}

/- The rows, where `cur` stands in the first one already. -/
def rowsFrom
    (width : Nat)
    (breaks : α → Bool) :
    List α → List α → List (List α)
  | cur, [] => [cur]
  | cur, c :: cs =>
      if breaks c then
        cur :: rowsFrom width breaks [] cs
      else if cur.length + 1 = width then
        (cur ++ [c]) :: rowsFrom width breaks [] cs
      else
        rowsFrom width breaks (cur ++ [c]) cs

def rows
    (width : Nat)
    (breaks : α → Bool)
    (text : List α) :
    List (List α) :=
  rowsFrom width breaks [] text

/- The entry in column `x` of row `y` of the last rows -/
def shown
    (height : Nat)
    (blank : α)
    (rows : List (List α))
    (x y : Nat) : α :=
  (((rows.drop (rows.length - height))[y]?).bind (·[x]?)).getD
    blank

section Rows

variable {width : Nat}
variable {breaks : α → Bool}
variable {cur last : List α}
variable {done : List (List α)}

/- There is always a last row. -/
theorem exists_last
    (cur text : List α) :
    ∃ done last,
      rowsFrom width breaks cur text = done ++ [last] := by
  induction text generalizing cur with
  | nil => exact ⟨[], cur, rfl⟩
  | cons c cs ih =>
      unfold rowsFrom
      by_cases hBreak : breaks c = true
      · rcases ih [] with ⟨done, last, hRows⟩
        rw [if_pos hBreak, hRows]
        exact ⟨cur :: done, last, rfl⟩
      · rw [if_neg hBreak]
        by_cases hFull : cur.length + 1 = width
        · rcases ih [] with ⟨done, last, hRows⟩
          rw [if_pos hFull, hRows]
          exact ⟨(cur ++ [c]) :: done, last, rfl⟩
        · rw [if_neg hFull]
          exact ih (cur ++ [c])

/- The rows behind the first one -/
theorem rows_behind
    {text : List α}
    {row : List α}
    (hRows : row :: rowsFrom width breaks cur text =
      done ++ [last]) :
    ∃ more, rowsFrom width breaks cur text = more ++ [last] ∧
      done = row :: more := by
  rcases exists_last cur text with ⟨more, end_, hMore⟩
  rw [hMore, ← List.cons_append] at hRows
  rcases List.append_inj' hRows rfl with ⟨hDone, hLast⟩
  rw [List.singleton_inj.mp hLast] at hMore
  exact ⟨more, hMore, hDone.symm⟩

/- One more entry goes on in the last row. -/
theorem rowsFrom_snoc
    {text : List α}
    (c : α)
    (hRows : rowsFrom width breaks cur text = done ++ [last]) :
    rowsFrom width breaks cur (text ++ [c]) =
      done ++ rowsFrom width breaks last [c] := by
  induction text generalizing cur done with
  | nil =>
      have hParts := @List.append_inj' _ [] [cur] done [last]
        hRows rfl
      rw [← hParts.1, ← List.singleton_inj.mp hParts.2]
      rfl
  | cons d ds ih =>
      rw [List.cons_append, rowsFrom]
      rw [rowsFrom] at hRows
      by_cases hBreak : breaks d = true
      · rw [if_pos hBreak] at hRows ⊢
        rcases rows_behind hRows with ⟨more, hMore, rfl⟩
        rw [ih hMore]
        rfl
      · rw [if_neg hBreak] at hRows ⊢
        by_cases hFull : cur.length + 1 = width
        · rw [if_pos hFull] at hRows ⊢
          rcases rows_behind hRows with ⟨more, hMore, rfl⟩
          rw [ih hMore]
          rfl
        · rw [if_neg hFull] at hRows ⊢
          exact ih hRows

end Rows

--------------------
-- Windows
--------------------

section Windows

variable {height : Nat}
variable {blank c : α}
variable {done : List (List α)}
variable {last : List α}

theorem shown_eq
    (rows : List (List α))
    (x y : Nat) :
    shown height blank rows x y =
      ((rows[rows.length - height + y]?).bind (·[x]?)).getD
        blank := by
  rw [shown, List.getElem?_drop]

/- An entry in the last row -/
theorem shown_type
    (hHeight : 0 < height)
    (x y : Nat) :
    shown height blank (done ++ [last ++ [c]]) x y =
      if y = min done.length (height - 1) ∧ x = last.length then
        c
      else
        shown height blank (done ++ [last]) x y := by
  rw [shown_eq, shown_eq]
  simp only [List.length_append, List.length_singleton]
  generalize hRow : done.length + 1 - height + y = row
  by_cases hLast : row = done.length
  · have hy : y = min done.length (height - 1) := by omega
    subst hLast
    rw [List.getElem?_concat_length, List.getElem?_concat_length]
    simp only [Option.bind_some, hy, true_and]
    by_cases hx : x = last.length
    · rw [if_pos hx, hx, List.getElem?_concat_length]
      rfl
    · rw [if_neg hx]
      congr 1
      rcases Nat.lt_or_gt_of_ne hx with hLt | hGt
      · rw [List.getElem?_append_left hLt]
      · rw [List.getElem?_eq_none (by simp; omega),
          List.getElem?_eq_none (by omega)]
  · have hy : ¬ (y = min done.length (height - 1) ∧
        x = last.length) := by
      rintro ⟨rfl, _⟩
      omega
    rw [if_neg hy]
    congr 2
    rcases Nat.lt_or_gt_of_ne hLast with hLt | hGt
    · rw [List.getElem?_append_left hLt,
        List.getElem?_append_left hLt]
    · rw [List.getElem?_eq_none (by simp; omega),
        List.getElem?_eq_none (by simp; omega)]

/- A new row below, where there is room for it -/
theorem shown_open
    {rows : List (List α)}
    (hRoom : rows.length < height)
    (x y : Nat) :
    shown height blank (rows ++ [[]]) x y =
      shown height blank rows x y := by
  rw [shown_eq, shown_eq, List.length_append,
    List.length_singleton]
  have hZero : rows.length + 1 - height = 0 := by omega
  have hZero' : rows.length - height = 0 := by omega
  rw [hZero, hZero', Nat.zero_add]
  rcases Nat.lt_trichotomy y rows.length with hLt | rfl | hGt
  · rw [List.getElem?_append_left hLt]
  · rw [List.getElem?_concat_length,
      List.getElem?_eq_none (Nat.le_refl _)]
    rfl
  · rw [List.getElem?_eq_none (by simp; omega),
      List.getElem?_eq_none (by omega)]

/- A new row below moves the others up. -/
theorem shown_scroll
    {rows : List (List α)}
    (hFull : height ≤ rows.length)
    (x y : Nat) :
    shown height blank (rows ++ [[]]) x y =
      if y + 1 < height then
        shown height blank rows x (y + 1)
      else
        blank := by
  rw [shown_eq, shown_eq, List.length_append,
    List.length_singleton]
  have hShift : rows.length + 1 - height + y =
      rows.length - height + (y + 1) := by
    omega
  rw [hShift]
  by_cases hIn : y + 1 < height
  · rw [if_pos hIn, List.getElem?_append_left (by omega)]
  · rw [if_neg hIn]
    by_cases hLast : rows.length - height + (y + 1) = rows.length
    · rw [hLast, List.getElem?_concat_length]
      rfl
    · rw [List.getElem?_eq_none (by simp; omega)]
      rfl

end Windows

end TextRows
