import Mathlib.Data.List.Basic

/-
  Singly linked lists through a store.

  `next` gives the link of every cell. A chain is the list of
  cells that the links visit from a head to the end.

  Key definitions include:
    * `Chain`
    * `Chain.find`

  Key rules include:
    * `Chain.congr`
    * `Chain.reaches`
    * `Chain.push`
    * `Chain.splice`
    * `Chain.find_eq`
-/

/- Following `next` from `head` visits the cells and ends. -/
def Chain
    {α : Type}
    (next : α → Option α) :
    Option α → List α → Prop
  | head, [] => head = none
  | head, a :: cells =>
      head = some a ∧ Chain next (next a) cells

namespace Chain

variable {α : Type}
variable {next next' : α → Option α}
variable {head : Option α}
variable {cells : List α}

@[simp] theorem nil_iff :
    Chain next head [] ↔ head = none :=
  Iff.rfl

@[simp] theorem cons_iff
    {a : α} :
    Chain next head (a :: cells) ↔
      head = some a ∧ Chain next (next a) cells :=
  Iff.rfl

/- The head is the first cell. -/
theorem head_eq
    (hChain : Chain next head cells) :
    head = cells.head? := by
  cases cells with
  | nil => exact hChain
  | cons a cells => exact hChain.1

/- The links visit the same cells again. -/
theorem unique
    {again : List α}
    (hChain : Chain next head cells)
    (hAgain : Chain next head again) :
    again = cells := by
  induction cells generalizing head again with
  | nil =>
      cases again with
      | nil => rfl
      | cons b again =>
          rw [nil_iff.mp hChain] at hAgain
          cases hAgain.1
  | cons a cells ih =>
      rcases hChain with ⟨rfl, hCells⟩
      cases again with
      | nil => cases hAgain
      | cons b again =>
          rcases hAgain with ⟨hHead, hAgain⟩
          injection hHead with hab
          subst hab
          rw [ih hCells hAgain]

/- Only the links of the visited cells matter. -/
theorem congr
    (hSame : ∀ a ∈ cells, next' a = next a)
    (hChain : Chain next head cells) :
    Chain next' head cells := by
  induction cells generalizing head with
  | nil => exact hChain
  | cons a cells ih =>
      refine ⟨hChain.1, ?_⟩
      rw [hSame a (by simp)]
      exact ih (fun b hb => hSame b (by simp [hb])) hChain.2

/- A write to a visited cell is met by whoever walks again. -/
theorem reaches
    {visited : List α}
    {a : α}
    (hSame : ∀ b, b ≠ a → next' b = next b)
    (hChain : Chain next head cells)
    (ha : a ∈ cells)
    (hAgain : Chain next' head visited) :
    a ∈ visited := by
  induction cells generalizing head visited with
  | nil => simp at ha
  | cons b cells ih =>
      rcases hChain with ⟨rfl, hCells⟩
      cases visited with
      | nil => simp at hAgain
      | cons c visited =>
          rcases hAgain with ⟨hHead, hVisited⟩
          injection hHead with hbc
          subst hbc
          by_cases hab : a = b
          · simp [hab]
          · have ha : a ∈ cells := by simpa [hab] using ha
            rw [hSame b (Ne.symm hab)] at hVisited
            exact List.mem_cons_of_mem b (ih hCells ha hVisited)

/- A new cell in front. -/
theorem push
    {a : α}
    (hLink : next' a = head)
    (hSame : ∀ b ∈ cells, next' b = next b)
    (hChain : Chain next head cells) :
    Chain next' (some a) (a :: cells) := by
  refine ⟨rfl, ?_⟩
  rw [hLink]
  exact hChain.congr hSame

/- The cell behind `q` is taken out by one write to `q`. -/
theorem splice
    {before after : List α}
    {p q : α}
    (hWrite : next' q = next p)
    (hSame : ∀ a, a ≠ q → next' a = next a)
    (hNodup : (before ++ q :: p :: after).Nodup)
    (hChain : Chain next head (before ++ q :: p :: after)) :
    Chain next' head (before ++ q :: after) := by
  induction before generalizing head with
  | nil =>
      simp only [List.nil_append, cons_iff] at hChain ⊢
      rcases hChain with ⟨hHead, _, hAfter⟩
      refine ⟨hHead, ?_⟩
      rw [hWrite]
      refine hAfter.congr fun a ha => hSame a ?_
      rintro rfl
      simp [ha] at hNodup
  | cons b before ih =>
      simp only [List.cons_append, List.nodup_cons] at hNodup
      refine ⟨hChain.1, ?_⟩
      have hNe : b ≠ q := by
        rintro rfl
        simp at hNodup
      rw [hSame b hNe]
      exact ih hNodup.2 hChain.2

--------------------
-- Searches
--------------------

/- The first cell that is hit, with a bound on the turns. -/
def find
    (hit : α → Bool)
    (next : α → Option α) :
    Nat → Option α → Option (Option α)
  | 0, _ => none
  | _ + 1, none => some none
  | fuel + 1, some a =>
      if hit a then some (some a) else find hit next fuel (next a)

/- A search that ends has found the first cell hit. -/
theorem eq_of_find
    {hit : α → Bool}
    {fuel : Nat}
    {r : Option α}
    (hChain : Chain next head cells)
    (hFind : find hit next fuel head = some r) :
    r = cells.find? hit := by
  induction cells generalizing head fuel with
  | nil =>
      rw [nil_iff.mp hChain] at hFind
      cases fuel with
      | zero => cases hFind
      | succ fuel =>
          cases hFind
          rfl
  | cons a cells ih =>
      rcases hChain with ⟨rfl, hCells⟩
      cases fuel with
      | zero => cases hFind
      | succ fuel =>
          unfold find at hFind
          cases hHit : hit a with
          | true =>
              rw [if_pos hHit] at hFind
              cases hFind
              rw [List.find?_cons_of_pos hHit]
          | false =>
              rw [if_neg (by simp [hHit])] at hFind
              rw [List.find?_cons_of_neg (by simp [hHit])]
              exact ih hCells hFind

/- A search with enough turns ends. -/
theorem find_eq
    {hit : α → Bool}
    {fuel : Nat}
    (hFuel : cells.length < fuel)
    (hChain : Chain next head cells) :
    find hit next fuel head = some (cells.find? hit) := by
  have hEnds : (find hit next fuel head).isSome := by
    induction cells generalizing head fuel with
    | nil =>
        rw [nil_iff.mp hChain]
        cases fuel with
        | zero => cases hFuel
        | succ fuel => rfl
    | cons a cells ih =>
        rcases hChain with ⟨rfl, hCells⟩
        cases fuel with
        | zero => cases hFuel
        | succ fuel =>
            unfold find
            by_cases hHit : hit a = true
            · rw [if_pos hHit]
              rfl
            · rw [if_neg hHit]
              exact ih (Nat.lt_of_succ_lt_succ hFuel) hCells
  rcases Option.isSome_iff_exists.mp hEnds with ⟨r, hFind⟩
  rw [hFind, eq_of_find hChain hFind]

end Chain
