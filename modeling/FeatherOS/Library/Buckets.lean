import FeatherOS.Library.Chain
import Mathlib.Logic.Function.Basic

/-
  Chained buckets through a store.

  `place` says in which bucket a cell belongs, `head` gives
  the first cell of each bucket and `next` the link of each
  cell. The lists are what the buckets hold.

  Key definitions include:
    * `Buckets`

  Key rules include:
    * `Buckets.congr`
    * `Buckets.push`
    * `Buckets.take`
    * `Buckets.removeHead`
    * `Buckets.removeNext`
-/

/- Every bucket is a chain of cells that belong to it. -/
structure Buckets
    {α β : Type}
    (next : α → Option α)
    (head : β → Option α)
    (place : α → β)
    (lists : β → List α) : Prop where
  chain : ∀ b, Chain next (head b) (lists b)
  placed : ∀ b, ∀ a ∈ lists b, place a = b
  nodup : ∀ b, (lists b).Nodup

namespace Buckets

variable {α β : Type}
variable {next next' : α → Option α}
variable {head head' : β → Option α}
variable {place place' : α → β}
variable {lists : β → List α}
variable {a : α}
variable {b c : β}

/- A cell is where it belongs or nowhere. -/
theorem mem_iff
    (hBuckets : Buckets next head place lists) :
    a ∈ lists b ↔ place a = b ∧ a ∈ lists (place a) := by
  constructor
  · intro ha
    have hPlace := hBuckets.placed b a ha
    exact ⟨hPlace, hPlace ▸ ha⟩
  · rintro ⟨hPlace, ha⟩
    exact hPlace ▸ ha

/- Only the cells in the buckets matter. -/
theorem congr
    (hBuckets : Buckets next head place lists)
    (hNext : ∀ b, ∀ a ∈ lists b, next' a = next a)
    (hHead : ∀ b, head' b = head b)
    (hPlace : ∀ b, ∀ a ∈ lists b, place' a = place a) :
    Buckets next' head' place' lists where
  chain b := by
    rw [hHead]
    exact (hBuckets.chain b).congr (hNext b)
  placed b a ha := by
    rw [hPlace b a ha]
    exact hBuckets.placed b a ha
  nodup := hBuckets.nodup

variable [DecidableEq β]

/- A new cell in front of the bucket it belongs to. -/
theorem push
    (hBuckets : Buckets next head place lists)
    (hOut : ∀ c, a ∉ lists c)
    (hPlace : place a = b)
    (hHead : head' b = some a)
    (hOther : ∀ c, c ≠ b → head' c = head c)
    (hLink : next' a = head b)
    (hNext : ∀ x, x ≠ a → next' x = next x) :
    Buckets next' head' place
      (Function.update lists b (a :: lists b)) := by
  have hSame : ∀ c, ∀ x ∈ lists c, next' x = next x := by
    intro c x hx
    apply hNext
    rintro rfl
    exact hOut c hx
  refine ⟨?_, ?_, ?_⟩
  · intro c
    by_cases hc : c = b
    · subst hc
      rw [Function.update_self, hHead]
      exact (hBuckets.chain c).push hLink (hSame c)
    · rw [Function.update_of_ne hc, hOther c hc]
      exact (hBuckets.chain c).congr (hSame c)
  · intro c x hx
    by_cases hc : c = b
    · subst hc
      rw [Function.update_self, List.mem_cons] at hx
      rcases hx with rfl | hx
      · exact hPlace
      · exact hBuckets.placed c x hx
    · rw [Function.update_of_ne hc] at hx
      exact hBuckets.placed c x hx
  · intro c
    by_cases hc : c = b
    · subst hc
      rw [Function.update_self, List.nodup_cons]
      exact ⟨hOut c, hBuckets.nodup c⟩
    · rw [Function.update_of_ne hc]
      exact hBuckets.nodup c

/- One bucket gets other cells, all of which it held before. -/
theorem shrink
    {cells : List α}
    (hBuckets : Buckets next head place lists)
    (hCells : cells.Sublist (lists b))
    (hChain : Chain next' (head' b) cells)
    (hHead : ∀ c, c ≠ b → head' c = head c)
    (hNext : ∀ c, c ≠ b → ∀ x ∈ lists c, next' x = next x) :
    Buckets next' head' place
      (Function.update lists b cells) := by
  refine ⟨?_, ?_, ?_⟩
  · intro c
    by_cases hc : c = b
    · subst hc
      rw [Function.update_self]
      exact hChain
    · rw [Function.update_of_ne hc, hHead c hc]
      exact (hBuckets.chain c).congr (hNext c hc)
  · intro c x hx
    by_cases hc : c = b
    · subst hc
      rw [Function.update_self] at hx
      exact hBuckets.placed c x (hCells.subset hx)
    · rw [Function.update_of_ne hc] at hx
      exact hBuckets.placed c x hx
  · intro c
    by_cases hc : c = b
    · subst hc
      rw [Function.update_self]
      exact (hBuckets.nodup c).sublist hCells
    · rw [Function.update_of_ne hc]
      exact hBuckets.nodup c

/- A bucket is emptied by one write to its head. -/
theorem take
    (hBuckets : Buckets next head place lists)
    (hEmpty : head' b = none)
    (hHead : ∀ c, c ≠ b → head' c = head c) :
    Buckets next head' place (Function.update lists b []) :=
  hBuckets.shrink (List.nil_sublist _) hEmpty hHead
    fun _ _ _ _ => rfl

/- The first cell of a bucket is taken out. -/
theorem removeHead
    {after : List α}
    (hBuckets : Buckets next head place lists)
    (hList : lists b = a :: after)
    (hWrite : head' b = next a)
    (hHead : ∀ c, c ≠ b → head' c = head c) :
    Buckets next head' place (Function.update lists b after) := by
  have hChain := hBuckets.chain b
  rw [hList] at hChain
  apply hBuckets.shrink _ _ hHead fun _ _ _ _ => rfl
  · rw [hList]
    exact List.sublist_cons_self a after
  · rw [hWrite]
    exact hChain.2

/- The cell behind `q` is taken out. -/
theorem removeNext
    {before after : List α}
    {q : α}
    (hBuckets : Buckets next head place lists)
    (hList : lists b = before ++ q :: a :: after)
    (hWrite : next' q = next a)
    (hNext : ∀ x, x ≠ q → next' x = next x) :
    Buckets next' head place
      (Function.update lists b (before ++ q :: after)) := by
  have hChain := hBuckets.chain b
  have hNodup := hBuckets.nodup b
  have hq : place q = b :=
    hBuckets.placed b q (by simp [hList])
  rw [hList] at hChain hNodup
  apply hBuckets.shrink _ _ (fun _ _ => rfl)
  · intro c hc x hx
    apply hNext
    rintro rfl
    exact hc ((hBuckets.placed c x hx).symm.trans hq)
  · rw [hList]
    exact ((List.sublist_cons_self a after).cons_cons q).append_left
      before
  · exact hChain.splice hWrite hNext hNodup

end Buckets
