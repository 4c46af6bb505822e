import Mathlib.Data.List.Basic

/-
  Reading one line of a stream.

  A line ends with its first stopper; a reader that takes a
  bounded number of entries may stop before it.

  Key definitions include:
    * `Lines.takeLine`
    * `Lines.OneLine`
    * `Lines.Longest`

  Key rules include:
    * `Lines.takeLine_longest`
-/

namespace Lines

variable {α : Type}

/- At most `n` entries, up to the first stopper -/
def takeLine
    (stop : α → Bool) :
    Nat → List α → List α
  | 0, _ => []
  | _ + 1, [] => []
  | n + 1, c :: cs =>
      if stop c then [c] else c :: takeLine stop n cs

/- No stopper stands before the last entry. -/
def OneLine
    (stop : α → Bool)
    (l : List α) : Prop :=
  ∀ c ∈ l.dropLast, stop c = false

/- The longest prefix of at most `n` entries on one line -/
structure Longest
    (stop : α → Bool)
    (n : Nat)
    (whole l : List α) : Prop where
  isPrefix : l <+: whole
  length_le : l.length ≤ n
  oneLine : OneLine stop l
  longest : ∀ other, other <+: whole → other.length ≤ n →
    OneLine stop other → other.length ≤ l.length

variable {stop : α → Bool}

/- Behind an entry that is no stopper the line goes on. -/
theorem oneLine_cons
    {c : α}
    {l : List α}
    (hGo : stop c = false)
    (hLine : OneLine stop l) :
    OneLine stop (c :: l) := by
  cases l with
  | nil => nofun
  | cons d l =>
      intro e he
      rw [List.dropLast_cons_cons] at he
      rcases List.mem_cons.mp he with rfl | he
      · exact hGo
      · exact hLine e he

/- Behind a stopper there is nothing on the line. -/
theorem eq_nil_of_oneLine
    {c : α}
    {l : List α}
    (hStop : stop c = true)
    (hLine : OneLine stop (c :: l)) :
    l = [] := by
  cases l with
  | nil => rfl
  | cons d l =>
      have hGo := hLine c (by simp)
      rw [hStop] at hGo
      cases hGo

theorem oneLine_tail
    {c : α}
    {l : List α}
    (hLine : OneLine stop (c :: l)) :
    OneLine stop l := by
  cases l with
  | nil => nofun
  | cons d l =>
      intro e he
      refine hLine e ?_
      rw [List.dropLast_cons_cons]
      exact List.mem_cons_of_mem c he

theorem takeLine_longest
    (stop : α → Bool)
    (n : Nat)
    (whole : List α) :
    Longest stop n whole (takeLine stop n whole) := by
  induction n generalizing whole with
  | zero =>
      exact ⟨List.nil_prefix, Nat.le_refl 0, nofun,
        fun other _ hLength _ => hLength⟩
  | succ n ih =>
      cases whole with
      | nil =>
          refine ⟨List.nil_prefix, Nat.zero_le _, nofun, ?_⟩
          intro other hOther _ _
          rw [List.prefix_nil.mp hOther]
          exact Nat.le_refl _
      | cons c cs =>
          unfold takeLine
          by_cases hStop : stop c = true
          · rw [if_pos hStop]
            refine ⟨⟨cs, rfl⟩, Nat.succ_le_succ (Nat.zero_le n),
              nofun, ?_⟩
            intro other hOther _ hLine
            cases other with
            | nil => exact Nat.zero_le _
            | cons d other =>
                have hHead := (List.cons_prefix_cons.mp hOther).1
                subst hHead
                have hNil := eq_nil_of_oneLine hStop hLine
                subst hNil
                exact Nat.le_refl _
          · rw [if_neg hStop]
            have hGo := Bool.eq_false_iff.mpr hStop
            rcases ih cs with
              ⟨hPrefix, hLength, hLine, hLongest⟩
            refine ⟨List.cons_prefix_cons.mpr ⟨rfl, hPrefix⟩,
              Nat.succ_le_succ hLength,
              oneLine_cons hGo hLine, ?_⟩
            intro other hOther hLe hOneLine
            cases other with
            | nil => exact Nat.zero_le _
            | cons d other =>
                exact Nat.succ_le_succ (hLongest other
                  (List.cons_prefix_cons.mp hOther).2
                  (Nat.le_of_succ_le_succ hLe)
                  (oneLine_tail hOneLine))

end Lines
