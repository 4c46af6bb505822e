import FeatherOS.Sched.Current
import FeatherOS.Sched.Runnable

/-
  What the queue operations do to the tasks in the tree.

  Inserting a task adds at most that task to what the links
  reach from the root, and removing one adds nothing; this
  holds whatever the links look like.

  Key theorems include:
    * `cfsEnqueue_inTree`
    * `cfsDequeue_inTree`
    * `cfsRequeue_inTree`
-/

namespace FeatherOS

section Reach

variable {s s' : SchedState}
variable {forked : Addr → Prop}
variable {p q : Addr}
variable {fuel : Nat}

/- The links of the tasks in the tree stay in the tree. -/
theorem SchedState.leads_inTree
    (s : SchedState) :
    s.Leads s.InTree := by
  intro x q hFrom hLink
  cases x with
  | root rq =>
      have hOne : Subsingleton (Fin nrCpus) :=
        inferInstanceAs (Subsingleton (Fin 1))
      rw [Subsingleton.elim rq thisCpu] at hLink
      exact .root hLink
  | left p => exact .left hFrom hLink
  | right p => exact .right hFrom hLink

/- Whatever links stay in a set, the tree is in the set. -/
theorem SchedState.Leads.of_inTree
    (hLeads : s.Leads forked)
    (hIn : s.InTree q) :
    forked q := by
  induction hIn with
  | root hRoot => exact hLeads (.root thisCpu) _ trivial hRoot
  | left _ hLeft ih => exact hLeads (.left _) _ ih hLeft
  | right _ hRight ih => exact hLeads (.right _) _ ih hRight

/- Only links matter. -/
theorem SchedState.InTree.congr
    (hLink : ∀ x, s'.link x = s.link x)
    (hIn : s'.InTree q) :
    s.InTree q := by
  have hLeads : s'.Leads s.InTree := by
    intro x r hFrom hx
    rw [hLink] at hx
    exact s.leads_inTree x r hFrom hx
  exact hLeads.of_inTree hIn

theorem cfsEnqueue_inTree
    (hCall : cfsEnqueue fuel s thisCpu p = some s')
    (hIn : s'.InTree q) :
    s.InTree q ∨ q = p := by
  rcases cfsEnqueue_link s.leads_inTree hCall with
    ⟨l, _, _, _, hLink⟩
  have hLeads : s'.Leads fun q => s.InTree q ∨ q = p := by
    intro x r hFrom hx
    rw [hLink] at hx
    by_cases hl : x = l
    · rw [if_pos hl] at hx
      exact Or.inr (Option.some.inj hx).symm
    · rw [if_neg hl] at hx
      by_cases hOwn : x = .left p ∨ x = .right p
      · simp [hOwn] at hx
      · rw [if_neg hOwn] at hx
        left
        apply s.leads_inTree x r _ hx
        cases x with
        | root rq => trivial
        | left y =>
            rcases hFrom with hOld | rfl
            · exact hOld
            · exact absurd (Or.inl rfl) hOwn
        | right y =>
            rcases hFrom with hOld | rfl
            · exact hOld
            · exact absurd (Or.inr rfl) hOwn
  exact hLeads.of_inTree hIn

/- The search goes along links of the set. -/
theorem cfsFind_from
    {m l : CfsLink}
    (hLeads : s.Leads forked)
    (hFrom : m.From forked)
    (hCall : cfsFind s p fuel m = some l) :
    l.From forked := by
  induction fuel generalizing m with
  | zero => simp [cfsFind] at hCall
  | succ fuel ih =>
      simp only [cfsFind] at hCall
      cases hLink : s.link m with
      | none =>
          simp only [hLink, Option.some.injEq] at hCall
          exact hCall ▸ hFrom
      | some q =>
          have hq : forked q := hLeads m q hFrom hLink
          simp only [hLink] at hCall
          split at hCall
          · have hEq := Option.some.inj hCall
            exact hEq ▸ hFrom
          · split at hCall
            · exact ih (m := .left q) hq hCall
            · exact ih (m := .right q) hq hCall

/- A child of the task takes a place in the set. -/
theorem cfsUnlink_leads
    {l : CfsLink}
    (hLeads : s.Leads forked)
    (hp : forked p) :
    (cfsUnlink s p l).Leads forked := by
  have hSucc : ∀ q, (s.task p).cfs.successor = some q →
      forked q := by
    intro q hq
    unfold CfsEntity.successor at hq
    split at hq
    · exact hLeads (.left p) q hp hq
    · exact hLeads (.right p) q hp hq
  have hWrite : ∀ x,
      (s.setLink (s.task p).cfs.successor x).Leads forked := by
    intro x y q hFrom hy
    rw [link_setLink] at hy
    split at hy
    · exact hSucc q hy
    · exact hLeads y q hFrom hy
  have hPass : (cfsPassOn s p l).Leads forked := by
    unfold cfsPassOn
    cases (s.task p).cfs.parent with
    | none => exact hWrite l
    | some par =>
        simp only
        split
        · exact hWrite (.left par)
        · exact hWrite (.right par)
  unfold cfsUnlink
  cases (s.task p).cfs.successor with
  | none => exact hPass
  | some q =>
      intro x r hFrom hx
      apply hPass x r hFrom
      rw [← hx]
      cases x with
      | root rq => rfl
      | left y =>
          by_cases hy : y = q
          · simp [SchedState.link, hy]
          · simp [SchedState.link, hy]
      | right y =>
          by_cases hy : y = q
          · simp [SchedState.link, hy]
          · simp [SchedState.link, hy]

theorem cfsLeave_link
    (s : SchedState)
    (p : Addr)
    (x : CfsLink) :
    (cfsLeave s thisCpu p).link x = s.link x := by
  cases x with
  | root rq => simp [cfsLeave, SchedState.link]
  | left q =>
      by_cases hq : q = p
      · simp [cfsLeave, SchedState.link, hq]
      · simp [cfsLeave, SchedState.link, hq]
  | right q =>
      by_cases hq : q = p
      · simp [cfsLeave, SchedState.link, hq]
      · simp [cfsLeave, SchedState.link, hq]

theorem cfsDequeue_inTree
    (hCall : cfsDequeue fuel s thisCpu p = some s')
    (hIn : s'.InTree q) :
    s.InTree q := by
  rcases cfsDequeue_split hCall with
    ⟨_, rfl⟩ | ⟨_, l, hFind, rfl⟩
  · exact hIn
  · have hEnd := hIn.congr fun x => (cfsLeave_link _ p x)
    split at hEnd
    next hFound =>
      have hFrom : l.From s.InTree :=
        cfsFind_from (m := .root thisCpu) s.leads_inTree trivial
          hFind
      have hp : s.InTree p := s.leads_inTree l p hFrom hFound
      exact (cfsUnlink_leads s.leads_inTree hp).of_inTree hEnd
    next => exact hEnd

/- A charge writes no link. -/
theorem updateCurrCfs_link
    (hCall : updateCurrCfs s thisCpu p = some s')
    (x : CfsLink) :
    s'.link x = s.link x := by
  rcases updateCurrCfs_step hCall with ⟨hStep, _⟩
  have hTask : ∀ q,
      (s'.task q).cfs.left = (s.task q).cfs.left ∧
        (s'.task q).cfs.right = (s.task q).cfs.right := by
    intro q
    by_cases hq : q = p
    · rw [hq, hStep.self]
      exact ⟨rfl, rfl⟩
    · rw [hStep.other q hq]
      exact ⟨rfl, rfl⟩
  cases x with
  | root rq =>
      have hOne : Subsingleton (Fin nrCpus) :=
        inferInstanceAs (Subsingleton (Fin 1))
      rw [Subsingleton.elim rq thisCpu]
      exact hStep.root
  | left q => exact (hTask q).1
  | right q => exact (hTask q).2

theorem cfsRequeue_inTree
    (hCall : cfsRequeue fuel s thisCpu p = some s')
    (hIn : s'.InTree q) :
    s.InTree q ∨ q = p := by
  rcases cfsRequeue_split hCall with
    ⟨s₁, s₂, hCharge, hOut, hEnter⟩
  rcases cfsEnqueue_inTree hEnter hIn with hIn₂ | hEq
  · left
    exact (cfsDequeue_inTree hOut hIn₂).congr
      (updateCurrCfs_link hCharge)
  · exact Or.inr hEq

/- A record is changed elsewhere. -/
theorem SchedState.link_modifyTask
    (s : SchedState)
    (p : Addr)
    (f : Task → Task)
    (hLeft : (f (s.task p)).cfs.left = (s.task p).cfs.left)
    (hRight : (f (s.task p)).cfs.right = (s.task p).cfs.right)
    (x : CfsLink) :
    (s.modifyTask p f).link x = s.link x := by
  cases x with
  | root rq => rfl
  | left q =>
      by_cases hq : q = p
      · simp [SchedState.link, hq, hLeft]
      · simp [SchedState.link, hq]
  | right q =>
      by_cases hq : q = p
      · simp [SchedState.link, hq, hRight]
      · simp [SchedState.link, hq]

end Reach

end FeatherOS
