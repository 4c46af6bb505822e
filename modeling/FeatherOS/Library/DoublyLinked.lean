import FeatherOS.Library.Chain
import Mathlib.Logic.Function.Basic

/-
  Doubly linked lists through a store.

  `next` and `prev` give the two links of every cell. A
  segment is the list of cells that the forward links visit
  from a head to what comes after the last cell; the backward
  link of each cell is the cell visited before it.

  Key definitions include:
    * `Segment`

  Key rules include:
    * `Segment.append_iff`
    * `Segment.reverse`
    * `Segment.insert`
    * `Segment.remove`
    * `Segment.insertAt`
    * `Segment.removeAt`
-/

/-
  The cells from `head` on up to `after`; `before` is what
  the first cell links back to, `last` the last cell, or
  `before` where there is none.
-/
def Segment
    {α : Type}
    (next prev : α → Option α)
    (before : Option α) :
    Option α → List α → Option α → Option α → Prop
  | head, [], last, after => head = after ∧ last = before
  | head, a :: cells, last, after =>
      head = some a ∧ prev a = before ∧
        Segment next prev (some a) (next a) cells last after

/- `if (p) p->field = v;` -/
def writeIf
    {α β : Type}
    [DecidableEq α]
    (field : α → β)
    (p : Option α)
    (v : β) :
    α → β :=
  match p with
  | none => field
  | some a => Function.update field a v

theorem writeIf_apply
    {α β : Type}
    [DecidableEq α]
    (field : α → β)
    (p : Option α)
    (v : β)
    (b : α) :
    writeIf field p v b = if p = some b then v else field b := by
  cases p with
  | none => rfl
  | some a =>
      simp only [writeIf, Function.update_apply,
        Option.some.injEq, eq_comm (a := b)]

namespace Segment

variable {α : Type}
variable {next next' prev prev' : α → Option α}
variable {before head last after : Option α}
variable {cells more : List α}
variable {a : α}

@[simp] theorem nil_iff :
    Segment next prev before head [] last after ↔
      head = after ∧ last = before :=
  Iff.rfl

/- The forward links alone are a chain. -/
theorem chain
    (hList : Segment next prev before head cells last none) :
    Chain next head cells := by
  induction cells generalizing before head with
  | nil => exact hList.1
  | cons a cells ih => exact ⟨hList.1, ih hList.2.2⟩

/- Only the links of the visited cells matter. -/
theorem congr
    (hNext : ∀ a ∈ cells, next' a = next a)
    (hPrev : ∀ a ∈ cells, prev' a = prev a)
    (hList : Segment next prev before head cells last after) :
    Segment next' prev' before head cells last after := by
  induction cells generalizing before head with
  | nil => exact hList
  | cons a cells ih =>
      rcases hList with ⟨hHead, hBack, hCells⟩
      refine ⟨hHead, ?_, ?_⟩
      · rw [hPrev a List.mem_cons_self, hBack]
      · rw [hNext a List.mem_cons_self]
        exact ih
          (fun b hb => hNext b (List.mem_cons_of_mem a hb))
          (fun b hb => hPrev b (List.mem_cons_of_mem a hb))
          hCells

/- A list is cut anywhere. -/
theorem append_iff :
    Segment next prev before head (cells ++ more) last after ↔
      ∃ middle back,
        Segment next prev before head cells back middle ∧
          Segment next prev back middle more last after := by
  induction cells generalizing before head with
  | nil =>
      constructor
      · intro hList
        exact ⟨head, before, ⟨rfl, rfl⟩, hList⟩
      · rintro ⟨middle, back, ⟨rfl, rfl⟩, hList⟩
        exact hList
  | cons a cells ih =>
      constructor
      · rintro ⟨hHead, hBack, hRest⟩
        rcases ih.mp hRest with ⟨middle, back, hCells, hMore⟩
        exact ⟨middle, back, ⟨hHead, hBack, hCells⟩, hMore⟩
      · rintro ⟨middle, back, ⟨hHead, hBack, hCells⟩, hMore⟩
        exact ⟨hHead, hBack, ih.mpr ⟨middle, back, hCells, hMore⟩⟩

/- Read backwards, the links back lead on. -/
theorem reverse
    (hList : Segment next prev before head cells last after) :
    Segment prev next after last cells.reverse head before := by
  induction cells generalizing before head with
  | nil => exact ⟨hList.2, hList.1⟩
  | cons a cells ih =>
      rcases hList with ⟨hHead, hBack, hCells⟩
      rw [List.reverse_cons, append_iff]
      exact ⟨some a, next a, ih hCells, rfl, rfl, hBack, hHead⟩

/- What lies before the end is the last cell. -/
theorem last_eq
    (hList :
      Segment next prev before head (cells ++ [a]) last after) :
    last = some a := by
  rcases append_iff.mp hList with
    ⟨middle, back, _, _, _, _, hLast⟩
  exact hLast

/- The last cell of a list that ends in `some a` is `a`. -/
theorem eq_concat
    (hList : Segment next prev none head cells (some a) after) :
    ∃ ys, cells = ys ++ [a] := by
  rcases List.eq_nil_or_concat cells with rfl | ⟨ys, b, rfl⟩
  · cases hList.2
  · simp only [List.concat_eq_append] at hList ⊢
    have hLast := hList.last_eq
    injection hLast with hLast
    exact ⟨ys, by rw [hLast]⟩

/- No cell of a list links to itself. -/
theorem next_ne_self
    (hNodup : (a :: cells).Nodup)
    (hList : Segment next prev before head (a :: cells) last none) :
    next a ≠ some a := by
  intro hSelf
  have hHead := hList.2.2.chain.head_eq
  rw [hSelf] at hHead
  exact (List.nodup_cons.mp hNodup).1
    (List.mem_of_mem_head? hHead.symm)

/- A link on leads to a cell of the list. -/
theorem mem_of_next
    {b : α}
    (hList : Segment next prev before head cells last none)
    (ha : a ∈ cells)
    (hLink : next a = some b) :
    b ∈ cells := by
  induction cells generalizing before head with
  | nil => simp at ha
  | cons c cells ih =>
      rcases hList with ⟨_, _, hCells⟩
      rcases List.mem_cons.mp ha with rfl | ha
      · have hHead := hCells.chain.head_eq
        rw [hLink] at hHead
        exact List.mem_cons_of_mem a
          (List.mem_of_mem_head? hHead.symm)
      · exact List.mem_cons_of_mem c (ih hCells ha)

/- A link back leads to a cell, or to what is before them. -/
theorem mem_of_prev
    {b : α}
    (hList : Segment next prev before head cells last none)
    (ha : a ∈ cells)
    (hLink : prev a = some b) :
    before = some b ∨ b ∈ cells := by
  induction cells generalizing before head with
  | nil => simp at ha
  | cons c cells ih =>
      rcases hList with ⟨_, hBack, hCells⟩
      rcases List.mem_cons.mp ha with rfl | ha
      · left
        rw [← hBack, hLink]
      · right
        rcases ih hCells ha with hFirst | hMem
        · injection hFirst with hFirst
          rw [hFirst]
          exact List.mem_cons_self
        · exact List.mem_cons_of_mem c hMem

theorem prev_ne_self
    (hNodup : cells.Nodup)
    (hBefore : before ≠ some a)
    (hList : Segment next prev before head cells last none)
    (ha : a ∈ cells) :
    prev a ≠ some a := by
  induction cells generalizing before head with
  | nil => simp at ha
  | cons c cells ih =>
      rcases hList with ⟨_, hBack, hCells⟩
      have hParts := List.nodup_cons.mp hNodup
      by_cases hca : a = c
      · subst hca
        rw [hBack]
        exact hBefore
      · have hNe : some c ≠ some a := by
          rintro hSame
          injection hSame with hSame
          exact hca hSame.symm
        exact ih hParts.2 hNe hCells
          ((List.mem_cons.mp ha).resolve_left hca)

--------------------
-- One Link
--------------------

/- The first cell gets another link back. -/
theorem setBefore
    {before' : Option α}
    (hWrite : prev' a = before')
    (hNext : ∀ b ∈ a :: cells, next' b = next b)
    (hPrev : ∀ b ∈ cells, prev' b = prev b)
    (hList : Segment next prev before head (a :: cells) last after) :
    Segment next' prev' before' head (a :: cells) last after := by
  rcases hList with ⟨hHead, _, hCells⟩
  refine ⟨hHead, hWrite, ?_⟩
  rw [hNext a List.mem_cons_self]
  exact hCells.congr
    (fun b hb => hNext b (List.mem_cons_of_mem a hb)) hPrev

/- The last cell gets another link on. -/
theorem setAfter
    {after' : Option α}
    (hWrite : next' a = after')
    (hNext : ∀ b ∈ cells, next' b = next b)
    (hPrev : ∀ b ∈ cells ++ [a], prev' b = prev b)
    (hList :
      Segment next prev before head (cells ++ [a]) last after) :
    Segment next' prev' before head (cells ++ [a]) last after' := by
  rcases append_iff.mp hList with
    ⟨middle, back, hCells, hMiddle, hBack, _, hLast⟩
  rw [append_iff]
  refine ⟨middle, back, ?_, hMiddle, ?_, hWrite, hLast⟩
  · exact hCells.congr hNext
      fun b hb => hPrev b (List.mem_append_left [a] hb)
  · rw [hPrev a (by simp), hBack]

--------------------
-- Whole Lists
--------------------

variable [DecidableEq α]

/- A new cell in front. -/
theorem push
    (hOut : a ∉ cells)
    (hNodup : cells.Nodup)
    (hLink : next' a = head)
    (hBack : prev' a = none)
    (hNext : ∀ b, b ≠ a → next' b = next b)
    (hPrev : ∀ b, b ≠ a →
      prev' b = if head = some b then some a else prev b)
    (hList : Segment next prev none head cells last none) :
    ∃ last',
      Segment next' prev' none (some a) (a :: cells) last'
        none := by
  cases cells with
  | nil => exact ⟨some a, rfl, hBack, by rw [hLink, hList.1], rfl⟩
  | cons b cells =>
      have hHead := hList.1
      have hNe : ∀ c ∈ b :: cells, c ≠ a := by
        rintro c hc rfl
        exact hOut hc
      refine ⟨last, rfl, hBack, ?_⟩
      rw [hLink]
      apply hList.setBefore
      · rw [hPrev b (hNe b List.mem_cons_self), if_pos hHead]
      · exact fun c hc => hNext c (hNe c hc)
      · intro c hc
        rw [hPrev c (hNe c (List.mem_cons_of_mem b hc)), if_neg]
        rw [hHead]
        rintro hbc
        injection hbc with hbc
        exact (List.nodup_cons.mp hNodup).1 (hbc ▸ hc)

/- A new cell at the end. -/
theorem snoc
    (hOut : a ∉ cells)
    (hNodup : cells.Nodup)
    (hLink : next' a = none)
    (hBack : prev' a = last)
    (hNext : ∀ b, b ≠ a →
      next' b = if last = some b then some a else next b)
    (hPrev : ∀ b, b ≠ a → prev' b = prev b)
    (hList : Segment next prev none head cells last none) :
    Segment next' prev' none (if last = none then some a else head)
      (cells ++ [a]) (some a) none := by
  rcases List.eq_nil_or_concat cells with rfl | ⟨ys, q, rfl⟩
  · rcases hList with ⟨_, rfl⟩
    exact ⟨rfl, hBack, hLink, rfl⟩
  · simp only [List.concat_eq_append] at hOut hNodup hList ⊢
    have hLast := hList.last_eq
    have hNe : ∀ c ∈ ys ++ [q], c ≠ a := by
      rintro c hc rfl
      exact hOut hc
    rw [append_iff]
    refine ⟨some a, last, ?_, rfl, hBack, hLink, rfl⟩
    rw [hLast, if_neg (by simp)]
    rw [hLast] at hList
    apply hList.setAfter
    · rw [hNext q (hNe q (by simp)), if_pos hLast]
    · intro c hc
      rw [hNext c (hNe c (List.mem_append_left [q] hc)), if_neg]
      rw [hLast]
      rintro hqc
      injection hqc with hqc
      subst hqc
      simp only [List.nodup_append] at hNodup
      exact hNodup.2.2 q hc q (by simp) rfl
    · exact fun c hc => hPrev c (hNe c hc)

/- A new cell between two others, or at an end. -/
theorem insert
    {middle back : Option α}
    (hOut : a ∉ cells ++ more)
    (hNodup : (cells ++ more).Nodup)
    (hLink : next' a = middle)
    (hBack : prev' a = back)
    (hNext : ∀ b, b ≠ a →
      next' b = if back = some b then some a else next b)
    (hPrev : ∀ b, b ≠ a →
      prev' b = if middle = some b then some a else prev b)
    (hCells : Segment next prev none head cells back middle)
    (hMore : Segment next prev back middle more last none) :
    Segment next' prev' none
      (if back = none then some a else head)
      (cells ++ a :: more)
      (if middle = none then some a else last) none := by
  have hParts := List.nodup_append.mp hNodup
  have hNeCells : ∀ c ∈ cells, c ≠ a := by
    rintro c hc rfl
    exact hOut (List.mem_append_left more hc)
  have hNeMore : ∀ c ∈ more, c ≠ a := by
    rintro c hc rfl
    exact hOut (List.mem_append_right cells hc)
  rw [append_iff]
  refine ⟨some a, back, ?_, rfl, hBack, ?_⟩
  · -- the cells before it
    rcases List.eq_nil_or_concat cells with rfl | ⟨ys, q, rfl⟩
    · rcases hCells with ⟨rfl, rfl⟩
      exact ⟨rfl, rfl⟩
    · simp only [List.concat_eq_append] at *
      have hLast := hCells.last_eq
      subst hLast
      rw [if_neg (by simp)]
      apply hCells.setAfter
      · rw [hNext q (hNeCells q (by simp)), if_pos rfl]
      · intro c hc
        have hne : q ≠ c := by
          rintro rfl
          exact (List.nodup_append.mp hParts.1).2.2 q hc q
            (by simp) rfl
        rw [hNext c (hNeCells c (List.mem_append_left [q] hc)),
          if_neg (by simpa using hne)]
      · intro c hc
        rw [hPrev c (hNeCells c hc), if_neg]
        -- what comes behind the new cell is none of them
        cases more with
        | nil =>
            rw [hMore.1]
            simp
        | cons b more =>
            rw [hMore.1]
            rintro hbc
            injection hbc with hbc
            subst hbc
            exact hParts.2.2 b hc b (by simp) rfl
  · -- the cells behind it
    rw [hLink]
    cases more with
    | nil =>
        rcases hMore with ⟨rfl, rfl⟩
        exact ⟨rfl, rfl⟩
    | cons b more =>
        have hFirst := hMore.1
        subst hFirst
        rw [if_neg (by simp)]
        apply hMore.setBefore
        · rw [hPrev b (hNeMore b List.mem_cons_self), if_pos rfl]
        · intro c hc
          rw [hNext c (hNeMore c hc), if_neg]
          rintro hBackC
          rw [hBackC] at hCells
          rcases hCells.eq_concat with ⟨ys, rfl⟩
          exact hParts.2.2 c (by simp) c hc rfl
        · intro c hc
          rw [hPrev c (hNeMore c (List.mem_cons_of_mem b hc)),
            if_neg]
          rintro hbc
          injection hbc with hbc
          subst hbc
          exact (List.nodup_cons.mp hParts.2.1).1 hc

/-
  A cell is taken out by writes to the cell before it and to
  the cell behind it.
-/
theorem remove
    (hNodup : (cells ++ a :: more).Nodup)
    (hNext : ∀ b, b ≠ a →
      next' b = if prev a = some b then next a else next b)
    (hPrev : ∀ b, b ≠ a →
      prev' b = if next a = some b then prev a else prev b)
    (hList :
      Segment next prev none head (cells ++ a :: more) last none) :
    Segment next' prev' none
      (if prev a = none then next a else head)
      (cells ++ more)
      (if next a = none then prev a else last) none := by
  rcases append_iff.mp hList with
    ⟨middle, back, hCells, hMiddle, hBack, hMore⟩
  subst hMiddle
  have hParts := List.nodup_append.mp hNodup
  have hOut := List.nodup_cons.mp hParts.2.1
  have hNeCells : ∀ c ∈ cells, c ≠ a := by
    rintro c hc rfl
    exact hParts.2.2 c hc c List.mem_cons_self rfl
  have hNeMore : ∀ c ∈ more, c ≠ a := by
    rintro c hc rfl
    exact hOut.1 hc
  rw [append_iff]
  refine ⟨next a, prev a, ?_, ?_⟩
  · -- the cells before it
    rcases List.eq_nil_or_concat cells with rfl | ⟨ys, q, rfl⟩
    · rcases hCells with ⟨_, rfl⟩
      simp [hBack]
    · simp only [List.concat_eq_append] at *
      have hLast := hCells.last_eq
      rw [hBack, hLast, if_neg (by simp)]
      rw [hLast] at hCells
      apply hCells.setAfter
      · rw [hNext q (hNeCells q (by simp)), hBack, hLast, if_pos rfl]
      · intro c hc
        have hne : q ≠ c := by
          rintro rfl
          exact (List.nodup_append.mp hParts.1).2.2 q hc q
            (by simp) rfl
        rw [hNext c (hNeCells c (List.mem_append_left [q] hc)),
          hBack, hLast, if_neg (by simpa using hne)]
      · intro c hc
        rw [hPrev c (hNeCells c hc), if_neg]
        -- what comes behind `a` is none of them
        cases more with
        | nil =>
            rw [hMore.1]
            simp
        | cons b more =>
            rw [hMore.1]
            rintro hbc
            injection hbc with hbc
            subst hbc
            exact hParts.2.2 b hc b (by simp) rfl
  · -- the cells behind it
    cases more with
    | nil =>
        rcases hMore with ⟨hEnd, hLast⟩
        rw [hEnd, if_pos rfl]
        exact ⟨rfl, rfl⟩
    | cons b more =>
        have hFirst := hMore.1
        rw [if_neg (by simp [hFirst])]
        apply hMore.setBefore
        · rw [hPrev b (hNeMore b List.mem_cons_self),
            if_pos hFirst]
        · intro c hc
          rw [hNext c (hNeMore c hc), if_neg]
          rw [hBack]
          rintro hBackC
          rw [hBackC] at hCells
          rcases hCells.eq_concat with ⟨ys, rfl⟩
          exact hParts.2.2 c (by simp) c
            (List.mem_cons_of_mem a hc) rfl
        · intro c hc
          rw [hPrev c (hNeMore c (List.mem_cons_of_mem b hc)),
            if_neg]
          rw [hFirst]
          rintro hbc
          injection hbc with hbc
          subst hbc
          exact (List.nodup_cons.mp hOut.2).1 hc

/- The first cell is taken out. -/
theorem removeFirst
    (hNodup : (a :: cells).Nodup)
    (hNext : ∀ b, b ≠ a → next' b = next b)
    (hPrev : ∀ b, b ≠ a →
      prev' b = if next a = some b then none else prev b)
    (hList : Segment next prev none head (a :: cells) last none) :
    Segment next' prev' none (next a) cells
      (if next a = none then none else last) none := by
  have hBack : prev a = none := hList.2.1
  have hWhole :
      Segment next prev none head ([] ++ a :: cells) last none :=
    hList
  have hNext' : ∀ b, b ≠ a →
      next' b = if prev a = some b then next a else next b := by
    intro b hb
    simp [hNext b hb, hBack]
  have hPrev' : ∀ b, b ≠ a →
      prev' b = if next a = some b then prev a else prev b := by
    intro b hb
    rw [hPrev b hb, hBack]
  have hRest := hWhole.remove hNodup hNext' hPrev'
  rw [hBack, if_pos rfl, List.nil_append] at hRest
  exact hRest

--------------------
-- By Index
--------------------

omit [DecidableEq α] in
/- What lies before the end of a whole list -/
theorem last_eq_getLast?
    (hList : Segment next prev none head cells last after) :
    last = cells.getLast? := by
  rcases List.eq_nil_or_concat cells with rfl | ⟨ys, q, rfl⟩
  · exact hList.2
  · simp only [List.concat_eq_append] at hList ⊢
    rw [hList.last_eq, List.getLast?_concat]

omit [DecidableEq α] in
/- The cells before an index and those from it on -/
theorem cut
    (i : Nat)
    (hList : Segment next prev none head cells last none) :
    Segment next prev none head (cells.take i)
        (cells.take i).getLast? cells[i]? ∧
      Segment next prev (cells.take i).getLast? cells[i]?
        (cells.drop i) last none := by
  have hWhole := hList
  rw [← List.take_append_drop i cells, append_iff] at hWhole
  rcases hWhole with ⟨middle, back, hBefore, hBehind⟩
  have hMiddle := hBehind.chain.head_eq
  have hBack := hBefore.last_eq_getLast?
  rw [List.head?_drop] at hMiddle
  subst hMiddle
  subst hBack
  exact ⟨hBefore, hBehind⟩

variable {i : Nat}

omit [DecidableEq α] in
/- The links of the cell at an index -/
theorem links_at
    (hAt : cells[i]? = some a)
    (hList : Segment next prev none head cells last none) :
    prev a = (cells.take i).getLast? ∧ next a = cells[i + 1]? := by
  rcases List.getElem?_eq_some_iff.mp hAt with ⟨hLt, hGet⟩
  have hBehind := (hList.cut i).2
  rw [List.drop_eq_getElem_cons hLt, hGet] at hBehind
  rcases hBehind with ⟨_, hBack, hRest⟩
  have hNext := hRest.chain.head_eq
  rw [List.head?_drop] at hNext
  exact ⟨hBack, hNext⟩

omit [DecidableEq α] in
theorem insertIdx_eq_append
    (hi : i ≤ cells.length) :
    cells.insertIdx i a = cells.take i ++ a :: cells.drop i := by
  induction cells generalizing i with
  | nil =>
      have hZero : i = 0 := Nat.le_zero.mp hi
      subst hZero
      rfl
  | cons c cells ih =>
      cases i with
      | zero => rfl
      | succ i =>
          rw [List.insertIdx_succ_cons,
            ih (Nat.le_of_succ_le_succ hi)]
          rfl

theorem insertAt
    (hi : i ≤ cells.length)
    (hOut : a ∉ cells)
    (hNodup : cells.Nodup)
    (hLink : next' a = cells[i]?)
    (hBack : prev' a = (cells.take i).getLast?)
    (hNext : ∀ b, b ≠ a → next' b =
      if (cells.take i).getLast? = some b then some a else next b)
    (hPrev : ∀ b, b ≠ a →
      prev' b = if cells[i]? = some b then some a else prev b)
    (hList : Segment next prev none head cells last none) :
    Segment next' prev' none
      (if (cells.take i).getLast? = none then some a else head)
      (cells.insertIdx i a)
      (if cells[i]? = none then some a else last) none := by
  rcases hList.cut i with ⟨hBefore, hBehind⟩
  have hSplit := List.take_append_drop i cells
  rw [insertIdx_eq_append hi]
  refine insert ?_ ?_ hLink hBack hNext hPrev hBefore hBehind
  · rwa [hSplit]
  · rwa [hSplit]

theorem removeAt
    (hAt : cells[i]? = some a)
    (hNodup : cells.Nodup)
    (hNext : ∀ b, b ≠ a →
      next' b = if prev a = some b then next a else next b)
    (hPrev : ∀ b, b ≠ a →
      prev' b = if next a = some b then prev a else prev b)
    (hList : Segment next prev none head cells last none) :
    Segment next' prev' none
      (if prev a = none then next a else head)
      (cells.eraseIdx i)
      (if next a = none then prev a else last) none := by
  rcases List.getElem?_eq_some_iff.mp hAt with ⟨hLt, hGet⟩
  have hSplit : cells =
      cells.take i ++ a :: cells.drop (i + 1) := by
    rw [← hGet, ← List.drop_eq_getElem_cons hLt,
      List.take_append_drop]
  rw [List.eraseIdx_eq_take_drop_succ]
  refine remove ?_ hNext hPrev ?_
  · rwa [← hSplit]
  · rwa [← hSplit]

end Segment
