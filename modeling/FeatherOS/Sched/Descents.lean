import FeatherOS.Sched.Reach

/-
  The descents in the tree of a run queue.

  The loops of the queue operations follow links and stop at
  an empty one. Here the links are only known to hold some
  tree; which queue the tasks name plays no part, and the
  keys need not be in order. A task that is taken out without
  its right child leaves a smaller tree.

  Key definitions include:
    * `SchedState.Meets`
    * `SchedState.Again`

  Key theorems include:
    * `cfsDequeue_rooted`
    * `cfsRequeue_rooted`
    * `cfsEnqueue_returns`
    * `pickNextCfs_head`
    * `cfsRequeue_returns`
-/

namespace FeatherOS

open LinkedTree

--------------------
-- Searching For A Place
--------------------

/- The links hold the tree, whatever `my_q` says. -/
abbrev SchedState.Rooted
    (s : SchedState)
    (t : TaskTree) : Prop :=
  Stored s.cell s.thisRq.root t

/-
  The tasks met on the way to the place of a key. The way
  goes past the task `p` to the child that replaces it.
-/
inductive SchedState.Meets
    (s : SchedState)
    (p : Addr)
    (key : U64) : Addr → Prop
| root
    {q : Addr}
    (hRoot : s.thisRq.root = some q) : Meets s p key q
| left
    {q x : Addr}
    (hMeets : Meets s p key q)
    (hNe : q ≠ p)
    (hLess : key < (s.task q).vruntime)
    (hLeft : (s.task q).cfs.left = some x) : Meets s p key x
| right
    {q x : Addr}
    (hMeets : Meets s p key q)
    (hNe : q ≠ p)
    (hMore : ¬ key < (s.task q).vruntime)
    (hRight : (s.task q).cfs.right = some x) : Meets s p key x
| past
    {x : Addr}
    (hMeets : Meets s p key p)
    (hNext : (s.task p).cfs.successor = some x) :
    Meets s p key x

/-
  The task can be put in again with the key: it is not in
  the tree, or the search for the key takes it out.
-/
def SchedState.Again
    (s : SchedState)
    (p : Addr)
    (key : U64) : Prop :=
  ¬ s.InTree p ∨
    (s.task p).cfs.myQ = some thisCpu ∧ s.Meets p key p

section Rooted

variable {s s' : SchedState}
variable {t e l r : TaskTree}
variable {c : TaskCtx}
variable {p q : Addr}
variable {d key : U64}
variable {fuel : Nat}

/- Only cells and the root matter. -/
theorem SchedState.Rooted.congr
    (hRooted : s.Rooted t)
    (hCell : ∀ q, s'.cell q = s.cell q)
    (hRoot : s'.thisRq.root = s.thisRq.root) :
    s'.Rooted t := by
  have hEq : s'.cell = s.cell := funext hCell
  unfold SchedState.Rooted
  rw [hEq, hRoot]
  exact hRooted

theorem SchedState.Meets.congr
    (hCell : ∀ q, s'.cell q = s.cell q)
    (hRoot : s'.thisRq.root = s.thisRq.root)
    (hMeets : s.Meets p key q) :
    s'.Meets p key q := by
  have hLeft : ∀ q, (s'.task q).cfs.left =
      (s.task q).cfs.left :=
    fun q => congrArg Cell.left (hCell q)
  have hRight : ∀ q, (s'.task q).cfs.right =
      (s.task q).cfs.right :=
    fun q => congrArg Cell.right (hCell q)
  have hKey : ∀ q, (s'.task q).vruntime = (s.task q).vruntime :=
    fun q => congrArg Cell.data (hCell q)
  induction hMeets with
  | root hTop => exact .root (hRoot.trans hTop)
  | left _ hNe hLess hLink ih =>
      rw [← hKey] at hLess
      exact .left ih hNe hLess ((hLeft _).trans hLink)
  | right _ hNe hMore hLink ih =>
      rw [← hKey] at hMore
      exact .right ih hNe hMore ((hRight _).trans hLink)
  | past _ hNext ih =>
      apply SchedState.Meets.past ih
      rw [← hNext]
      simp only [CfsEntity.successor, hLeft, hRight]

/- What a search meets has a place in the tree. -/
theorem SchedState.Meets.place
    (hRooted : s.Rooted t)
    (hMeets : s.Meets p key q) :
    ∃ (c : TaskCtx) (l : TaskTree) (d : U64) (r : TaskTree),
      t = c.plug (.node l q d r) ∧
        (Ctx.Admits keyLt keyLe c key ∨
          ∃ f ∈ c, f.ptr = p) := by
  induction hMeets with
  | root hRoot =>
      rw [hRooted.root_eq] at hRoot
      rcases Tree.eq_node_of_rootPtr hRoot with ⟨l, d, r, rfl⟩
      exact ⟨[], l, d, r, rfl, Or.inl (by simp)⟩
  | left _ hNe hLess hLeft ih =>
      rcases ih with ⟨c, l, d, r, rfl, hOr⟩
      have hCell := hRooted.cell_eq
      have hKey : (s.task _).vruntime = d :=
        congrArg Cell.data hCell
      have hChild : (s.task _).cfs.left = l.rootPtr :=
        congrArg Cell.left hCell
      rw [hChild] at hLeft
      rw [hKey] at hLess
      rcases Tree.eq_node_of_rootPtr hLeft with
        ⟨l', d', r', rfl⟩
      refine ⟨.left _ d r :: c, l', d', r', rfl, ?_⟩
      rcases hOr with hRoom | ⟨f, hf, hEq⟩
      · exact Or.inl (by simp [hRoom, Frame.Admits, hLess])
      · exact Or.inr ⟨f, List.mem_cons_of_mem _ hf, hEq⟩
  | right _ hNe hMore hRight ih =>
      rcases ih with ⟨c, l, d, r, rfl, hOr⟩
      have hCell := hRooted.cell_eq
      have hKey : (s.task _).vruntime = d :=
        congrArg Cell.data hCell
      have hChild : (s.task _).cfs.right = r.rootPtr :=
        congrArg Cell.right hCell
      rw [hChild] at hRight
      rw [hKey] at hMore
      have hLe : d ≤ key := BitVec.not_lt.mp hMore
      rcases Tree.eq_node_of_rootPtr hRight with
        ⟨l', d', r', rfl⟩
      refine ⟨.right l _ d :: c, l', d', r', rfl, ?_⟩
      rcases hOr with hRoom | ⟨f, hf, hEq⟩
      · exact Or.inl (by simp [hRoom, Frame.Admits, hLe])
      · exact Or.inr ⟨f, List.mem_cons_of_mem _ hf, hEq⟩
  | past _ hNext ih =>
      rcases ih with ⟨c, l, d, r, rfl, _⟩
      rw [successor_eq hRooted] at hNext
      rcases survivor_cases l r with hSame | hSame
      · rw [hSame] at hNext
        rcases Tree.eq_node_of_rootPtr hNext with
          ⟨l', d', r', rfl⟩
        exact ⟨.left p d r :: c, l', d', r', rfl,
          Or.inr ⟨_, List.mem_cons_self, rfl⟩⟩
      · rw [hSame] at hNext
        rcases Tree.eq_node_of_rootPtr hNext with
          ⟨l', d', r', rfl⟩
        exact ⟨.right l p d :: c, l', d', r', rfl,
          Or.inr ⟨_, List.mem_cons_self, rfl⟩⟩

/- The search meets the task where the key has its place. -/
theorem SchedState.Meets.found
    (hRooted : s.Rooted t)
    (hMeets : s.Meets p key p) :
    ∃ (c : TaskCtx) (l : TaskTree) (d : U64) (r : TaskTree),
      t = c.plug (.node l p d r) ∧
        Ctx.Admits keyLt keyLe c key := by
  rcases hMeets.place hRooted with ⟨c, l, d, r, rfl, hOr⟩
  refine ⟨c, l, d, r, rfl, ?_⟩
  rcases hOr with hRoom | ⟨f, hf, hEq⟩
  · exact hRoom
  · have hNe := (SchedState.frame_key hRooted hf).2 p (by simp)
    exact absurd hEq hNe

/-
  The search meets the frames around a place with room for
  the key; the induction goes down the inner context.
-/
theorem SchedState.Meets.frames
    {c₁ : TaskCtx}
    (hRooted : s.Rooted (Ctx.plug (c₁ ++ c) e))
    (hTop : ∀ q, (c₁.plug e).rootPtr = some q →
      s.Meets p key q)
    (hRoom : Ctx.Admits keyLt keyLe c₁ key)
    (hOut : ∀ f ∈ c₁, f.ptr ≠ p) :
    (∀ f ∈ c₁, s.Meets p key f.ptr) ∧
      ∀ q, e.rootPtr = some q → s.Meets p key q := by
  induction c₁ generalizing e with
  | nil => exact ⟨by simp, hTop⟩
  | cons f c₁ ih =>
      rw [Ctx.admits_cons] at hRoom
      have hOuter := ih (e := f.fill e) hRooted hTop hRoom.2
        fun g hg => hOut g (List.mem_cons_of_mem _ hg)
      have hf : s.Meets p key f.ptr :=
        hOuter.2 f.ptr (Frame.rootPtr_fill e f)
      have hNe := hOut f List.mem_cons_self
      have hCell : s.cell f.ptr = f.cell e.rootPtr _ :=
        (((rep_plug_iff (f :: (c₁ ++ c)) e).mp
          hRooted.rep).1).top
      constructor
      · intro g hg
        rcases List.mem_cons.mp hg with rfl | hg
        · exact hf
        · exact hOuter.1 g hg
      · intro q hq
        cases f with
        | left x d r =>
            have hKey : (s.task x).vruntime = d :=
              congrArg Cell.data hCell
            have hLink : (s.task x).cfs.left = e.rootPtr :=
              congrArg Cell.left hCell
            apply SchedState.Meets.left hf hNe
            · rw [Frame.ptr_left, hKey]
              exact hRoom.1
            · exact hLink.trans hq
        | right l x d =>
            have hKey : (s.task x).vruntime = d :=
              congrArg Cell.data hCell
            have hLink : (s.task x).cfs.right = e.rootPtr :=
              congrArg Cell.right hCell
            apply SchedState.Meets.right hf hNe
            · rw [Frame.ptr_right, hKey]
              exact BitVec.not_lt.mpr hRoom.1
            · exact hLink.trans hq

/- From the root the search gets to a place in this way. -/
theorem SchedState.Meets.around
    (hRooted : s.Rooted (c.plug e))
    (hRoom : Ctx.Admits keyLt keyLe c key)
    (hOut : ∀ f ∈ c, f.ptr ≠ p) :
    (∀ f ∈ c, s.Meets p key f.ptr) ∧
      ∀ q, e.rootPtr = some q → s.Meets p key q := by
  have hAll : s.Rooted (Ctx.plug (c ++ []) e) := by
    rw [List.append_nil]
    exact hRooted
  apply SchedState.Meets.frames hAll _ hRoom hOut
  intro q hq
  exact .root (hRooted.root_eq.trans hq)

/- And from the task on to a place in what replaces it. -/
theorem SchedState.Meets.beneath
    {c₁ : TaskCtx}
    (hRooted : s.Rooted (c.plug (.node l p d r)))
    (hMeets : s.Meets p key p)
    (hBelow : survivor l r = c₁.plug e)
    (hRoom : Ctx.Admits keyLt keyLe c₁ key)
    (hOut : ∀ f ∈ c₁, f.ptr ≠ p) :
    ∀ f ∈ c₁, s.Meets p key f.ptr := by
  have hChild : ∀ q, (c₁.plug e).rootPtr = some q →
      s.Meets p key q := by
    intro q hq
    apply SchedState.Meets.past hMeets
    rw [successor_eq hRooted, hBelow]
    exact hq
  rcases survivor_cases l r with hSame | hSame
  · have hLeft : s.Rooted
        (Ctx.plug (c₁ ++ .left p d r :: c) e) := by
      rw [Ctx.plug_append, ← hBelow, hSame]
      exact hRooted
    exact (SchedState.Meets.frames hLeft hChild hRoom hOut).1
  · have hRight : s.Rooted
        (Ctx.plug (c₁ ++ .right l p d :: c) e) := by
      rw [Ctx.plug_append, ← hBelow, hSame]
      exact hRooted
    exact (SchedState.Meets.frames hRight hChild hRoom hOut).1

/- A subtree that takes a place is no larger. -/
theorem survivor_size
    (c : TaskCtx)
    (l r : TaskTree)
    (p : Addr)
    (d : U64) :
    (c.plug (survivor l r)).size ≤
      (c.plug (.node l p d r)).size := by
  rw [Ctx.size_plug, Ctx.size_plug, Tree.size_node]
  rcases survivor_cases l r with hSame | hSame
  · rw [hSame]
    omega
  · rw [hSame]
    omega

/- The task is not below its own place. -/
theorem not_mem_survivor
    (hNodup : (c.plug (.node l p d r)).nodes.Nodup) :
    p ∉ (c.plug (survivor l r)).nodes := by
  rw [Ctx.nodup_plug_iff] at hNodup
  rcases hNodup with ⟨_, hInner, hOuter⟩
  rw [Ctx.mem_plug_iff, not_or]
  refine ⟨fun hc => hOuter p hc (by simp), ?_⟩
  simp only [Tree.nodes_node, List.nodup_append,
    List.nodup_cons] at hInner
  rcases survivor_cases l r with hSame | hSame
  · rw [hSame]
    exact fun hl => hInner.2.2 p hl p (by simp) rfl
  · rw [hSame]
    exact hInner.2.1.1

--------------------
-- Taking A Task Out
--------------------

/- The search stops at a link of the tree. -/
theorem cfsFind_place
    {link : CfsLink}
    (hRooted : s.Rooted (c.plug t))
    (hCall : cfsFind s p fuel (ctxLink c) = some link) :
    ∃ (c' : TaskCtx) (e : TaskTree),
      c.plug t = c'.plug e ∧ link = ctxLink c' := by
  induction t generalizing c fuel with
  | nil =>
      cases fuel with
      | zero => simp [cfsFind] at hCall
      | succ fuel =>
          have hLink := SchedState.link_ctxLink hRooted
          simp only [cfsFind, hLink, Tree.rootPtr_nil,
            Option.some.injEq] at hCall
          exact ⟨c, .nil, rfl, hCall.symm⟩
  | node l q d r ihl ihr =>
      cases fuel with
      | zero => simp [cfsFind] at hCall
      | succ fuel =>
          have hLink := SchedState.link_ctxLink hRooted
          simp only [cfsFind, hLink, Tree.rootPtr_node] at hCall
          split at hCall
          · exact ⟨c, .node l q d r, rfl,
              (Option.some.inj hCall).symm⟩
          · split at hCall
            · exact ihl (c := .left q d r :: c) hRooted hCall
            · exact ihr (c := .right l q d :: c) hRooted hCall

/- Whatever is taken out, a tree that is no larger is left. -/
theorem cfsDequeue_rooted
    (hRooted : s.Rooted t)
    (hCall : cfsDequeue fuel s thisCpu p = some s') :
    ∃ u : TaskTree, s'.Rooted u ∧ u.size ≤ t.size := by
  rcases cfsDequeue_split hCall with
    ⟨_, rfl⟩ | ⟨_, link, hFind, rfl⟩
  · exact ⟨t, hRooted, Nat.le_refl _⟩
  · rcases cfsFind_place (c := []) hRooted hFind with
      ⟨c, e, hPlug, rfl⟩
    have hEq : t = c.plug e := hPlug
    subst hEq
    rw [SchedState.link_ctxLink hRooted]
    by_cases hHere : e.rootPtr = some p
    · rw [if_pos hHere]
      rcases Tree.eq_node_of_rootPtr hHere with ⟨l, d, r, rfl⟩
      exact ⟨_, cfsLeave_stored (cfsUnlink_survivor hRooted),
        survivor_size c l r p d⟩
    · rw [if_neg hHere]
      exact ⟨_, cfsLeave_stored hRooted, Nat.le_refl _⟩

/- A task that is not in the tree is not taken out. -/
theorem cfsDequeue_absent
    (hRooted : s.Rooted t)
    (hOut : p ∉ t.nodes)
    (hCall : cfsDequeue fuel s thisCpu p = some s') :
    s'.Rooted t := by
  rcases cfsDequeue_split hCall with
    ⟨_, rfl⟩ | ⟨_, link, hFind, rfl⟩
  · exact hRooted
  · rcases cfsFind_place (c := []) hRooted hFind with
      ⟨c, e, hPlug, rfl⟩
    have hEq : t = c.plug e := hPlug
    subst hEq
    have hNot : e.rootPtr ≠ some p := by
      intro hHere
      apply hOut
      rw [Ctx.mem_plug_iff]
      exact Or.inr (Tree.mem_nodes_of_rootPtr hHere)
    rw [SchedState.link_ctxLink hRooted, if_neg hNot]
    exact cfsLeave_stored hRooted

--------------------
-- Putting A Task In Again
--------------------

/-
  A charged task that can be put in again is out of the tree
  once it has been dequeued. A place with room for the key is
  then one its search has led to before.
-/
theorem SchedState.Again.freed
    {s₁ : SchedState}
    (hRooted : s.Rooted t)
    (hAgain : s.Again p (chargedVruntime s.clock (s.task p)))
    (hStep : ChargeStep p s s₁) :
    ∃ t₁ : TaskTree, s₁.Rooted t₁ ∧ t₁.size = t.size ∧
      ∀ {fuel : Nat} {s₂ : SchedState},
        cfsDequeue fuel s₁ thisCpu p = some s₂ →
          ∃ u : TaskTree, s₂.Rooted u ∧ p ∉ u.nodes ∧
            u.size ≤ t.size ∧
            ∀ c : TaskCtx, u = c.plug .nil →
              Ctx.Admits keyLt keyLe c
                (chargedVruntime s.clock (s.task p)) →
              ∀ f ∈ c, s.Meets p
                (chargedVruntime s.clock (s.task p)) f.ptr := by
  generalize hKey : chargedVruntime s.clock (s.task p) = key
    at hAgain ⊢
  rcases hAgain with hOut | ⟨hQ, hMeets⟩
  · rw [inTree_iff hRooted] at hOut
    have hCharged := hStep.stored_out hRooted hOut
    refine ⟨t, hCharged, rfl, ?_⟩
    intro fuel s₂ hCall
    refine ⟨t, cfsDequeue_absent hCharged hOut hCall, hOut,
      Nat.le_refl _, ?_⟩
    rintro c rfl hRoom
    apply (SchedState.Meets.around hRooted hRoom _).1
    exact fun f hf => Ctx.ptr_ne_of_not_mem hOut hf
  · rcases hMeets.found hRooted with ⟨c, l, d, r, rfl, hPlace⟩
    have hCharged := hStep.stored hRooted
    have hOwn : (s₁.task p).vruntime = key := by
      rw [hStep.self]
      exact hKey
    have hGone : p ∉ (c.plug (survivor l r)).nodes :=
      not_mem_survivor hRooted.nodup
    refine ⟨_, hCharged, ?_, ?_⟩
    · rw [Ctx.size_plug, Ctx.size_plug, Tree.size_node,
        Tree.size_node]
    · intro fuel s₂ hCall
      rw [← hOwn] at hPlace
      have hEnd := cfsDequeue_found hCharged
        ((hStep.myQ p).trans hQ) hPlace hCall
      rw [hOwn] at hPlace
      refine ⟨c.plug (survivor l r), ?_, hGone,
        survivor_size c l r p d, ?_⟩
      · rw [hEnd]
        exact cfsLeave_stored (cfsUnlink_survivor hCharged)
      · intro c' hEq hRoom
        -- the new place is below the place that was left
        rcases Ctx.exists_append_of_admits
            (fun x hLt => BitVec.not_le.mpr hLt) hEq hPlace
            hRoom with
          ⟨c₁, rfl, hBelow⟩
        have hNe : ∀ f ∈ c₁ ++ c, f.ptr ≠ p :=
          fun f hf => Ctx.ptr_ne_of_not_mem (hEq ▸ hGone) hf
        intro f hf
        rcases List.mem_append.mp hf with hf | hf
        · apply SchedState.Meets.beneath hRooted hMeets hBelow
            _ _ f hf
          · exact fun g hg =>
              hRoom g (List.mem_append_left _ hg)
          · exact fun g hg =>
              hNe g (List.mem_append_left _ hg)
        · apply (SchedState.Meets.around hRooted hPlace _).1
            f hf
          exact fun g hg =>
            hNe g (List.mem_append_right _ hg)

/- A task that is put in again is a leaf of the tree. -/
theorem cfsRequeue_rooted
    (hRooted : s.Rooted t)
    (hAgain : s.Again p (chargedVruntime s.clock (s.task p)))
    (hCall : cfsRequeue fuel s thisCpu p = some s') :
    ∃ c : TaskCtx,
      s'.Rooted
        (c.plug
          (.node .nil p (chargedVruntime s.clock (s.task p))
            .nil)) ∧
      Ctx.Admits keyLt keyLe c
        (chargedVruntime s.clock (s.task p)) ∧
      (∀ f ∈ c, s.Meets p
        (chargedVruntime s.clock (s.task p)) f.ptr) ∧
      (c.plug
        (.node .nil p (chargedVruntime s.clock (s.task p))
          .nil)).size ≤ t.size + 1 := by
  rcases cfsRequeue_split hCall with
    ⟨s₁, s₂, hCharge, hOutCall, hIn⟩
  rcases updateCurrCfs_step hCharge with ⟨hStep, _⟩
  rcases hAgain.freed hRooted hStep with
    ⟨t₁, _, _, hFreed⟩
  rcases hFreed hOutCall with ⟨u, hGone, hNot, hSize, hMeets⟩
  rcases cfsEnqueue_stored hGone hNot hIn with
    ⟨c, rfl, hRoom, hBack⟩
  have hKey : (s₂.task p).vruntime =
      chargedVruntime s.clock (s.task p) := by
    rw [(cfsDequeue_step hOutCall).vruntime, hStep.self]
  rw [hKey] at hRoom hBack
  refine ⟨c, hBack, hRoom, hMeets c rfl hRoom, ?_⟩
  have hNil : (.nil : TaskTree).size = 0 := rfl
  rw [Ctx.size_plug] at hSize ⊢
  rw [Tree.size_node]
  omega

--------------------
-- Loops That End
--------------------

/- The descent goes down a tree that is not too large. -/
theorem cfsDescend_returns
    {par : Option Addr}
    (hRooted : s.Rooted (c.plug t))
    (hFuel : t.size < fuel) :
    ∃ r, cfsDescend s p fuel (ctxLink c) par = some r := by
  induction t generalizing c fuel par with
  | nil =>
      cases fuel with
      | zero => exact absurd hFuel (Nat.not_lt_zero _)
      | succ fuel =>
          have hLink := SchedState.link_ctxLink hRooted
          simp [cfsDescend, hLink]
  | node l q d r ihl ihr =>
      cases fuel with
      | zero => exact absurd hFuel (Nat.not_lt_zero _)
      | succ fuel =>
          rw [Tree.size_node] at hFuel
          have hLink := SchedState.link_ctxLink hRooted
          simp only [cfsDescend, hLink, Tree.rootPtr_node]
          split
          · exact ihl (c := .left q d r :: c) hRooted (by omega)
          · exact ihr (c := .right l q d :: c) hRooted (by omega)

theorem cfsFind_returns
    (hRooted : s.Rooted (c.plug t))
    (hFuel : t.size < fuel) :
    ∃ link, cfsFind s p fuel (ctxLink c) = some link := by
  induction t generalizing c fuel with
  | nil =>
      cases fuel with
      | zero => exact absurd hFuel (Nat.not_lt_zero _)
      | succ fuel =>
          have hLink := SchedState.link_ctxLink hRooted
          simp [cfsFind, hLink]
  | node l q d r ihl ihr =>
      cases fuel with
      | zero => exact absurd hFuel (Nat.not_lt_zero _)
      | succ fuel =>
          rw [Tree.size_node] at hFuel
          have hLink := SchedState.link_ctxLink hRooted
          simp only [cfsFind, hLink, Tree.rootPtr_node]
          split
          · exact ⟨_, rfl⟩
          · split
            · exact ihl (c := .left q d r :: c) hRooted
                (by omega)
            · exact ihr (c := .right l q d :: c) hRooted
                (by omega)

/- The leftmost task is the first in order. -/
theorem cfsLeftmost_head
    {par : Option Addr}
    (hRep : Rep s.cell par (.node l p d r))
    (hFuel : l.size < fuel) :
    cfsLeftmost s fuel p =
      (LinkedTree.Tree.node l p d r).nodes.head? := by
  induction l generalizing par p d r fuel with
  | nil =>
      cases fuel with
      | zero => exact absurd hFuel (Nat.not_lt_zero _)
      | succ fuel =>
          have hLeft : (s.task p).cfs.left = none :=
            congrArg Cell.left hRep.1
          simp [cfsLeftmost, hLeft]
  | node ll q dq lr ihl _ =>
      cases fuel with
      | zero => exact absurd hFuel (Nat.not_lt_zero _)
      | succ fuel =>
          rw [Tree.size_node] at hFuel
          have hLeft : (s.task p).cfs.left = some q :=
            congrArg Cell.left hRep.1
          simp only [cfsLeftmost, hLeft]
          rw [ihl hRep.2.1 (by omega)]
          simp

theorem cfsEnqueue_returns
    (p : Addr)
    (hRooted : s.Rooted t)
    (hFuel : t.size < fuel) :
    ∃ s', cfsEnqueue fuel s thisCpu p = some s' := by
  have hJoined : (cfsJoin s thisCpu p).Rooted t := by
    apply hRooted.congr
    · exact cfsJoin_cell s p
    · rw [cfsJoin_rq]
  rcases cfsDescend_returns (c := []) hJoined hFuel with
    ⟨⟨link, par⟩, hDescend⟩
  have hCall : cfsDescend (cfsJoin s thisCpu p) p fuel
      (.root thisCpu) none = some (link, par) := hDescend
  simp [cfsEnqueue, hCall]

theorem cfsDequeue_returns
    (p : Addr)
    (hRooted : s.Rooted t)
    (hFuel : t.size < fuel) :
    ∃ s', cfsDequeue fuel s thisCpu p = some s' := by
  rcases cfsFind_returns (c := []) hRooted hFuel with
    ⟨link, hFind⟩
  have hCall : cfsFind s p fuel (.root thisCpu) = some link :=
    hFind
  unfold cfsDequeue
  cases (s.task p).cfs.myQ with
  | none => exact ⟨s, rfl⟩
  | some rq => simp [hCall]

theorem pickNextCfs_head
    (hStored : Stored s.cell s.thisRq.root t)
    (hFuel : t.size ≤ fuel) :
    pickNextCfs fuel s thisCpu = some t.nodes.head? := by
  have hRoot : (s.runQueues thisCpu).root = t.rootPtr :=
    hStored.root_eq
  unfold pickNextCfs
  rw [hRoot]
  cases t with
  | nil => rfl
  | node l p d r =>
      rw [Tree.size_node] at hFuel
      simp only [Tree.rootPtr_node]
      rw [cfsLeftmost_head hStored.rep (by omega)]
      simp

theorem pickNextCfs_returns
    (hRooted : s.Rooted t)
    (hFuel : t.size < fuel) :
    ∃ next, pickNextCfs fuel s thisCpu = some next :=
  ⟨_, pickNextCfs_head hRooted (Nat.le_of_lt hFuel)⟩

theorem cfsRequeue_returns
    (hRooted : s.Rooted t)
    (hAgain : s.Again p (chargedVruntime s.clock (s.task p)))
    (hLoad : (s.task p).cfs.loadWeight ≠ 0#64)
    (hFuel : t.size < fuel) :
    ∃ s', cfsRequeue fuel s thisCpu p = some s' := by
  rcases updateCurrCfs_returns hLoad with ⟨s₁, hCharge⟩
  rcases updateCurrCfs_step hCharge with ⟨hStep, _⟩
  rcases hAgain.freed hRooted hStep with
    ⟨t₁, hCharged, hSame, hFreed⟩
  rcases cfsDequeue_returns p hCharged (hSame ▸ hFuel) with
    ⟨s₂, hOut⟩
  rcases hFreed hOut with ⟨u, hGone, _, hSize, _⟩
  rcases cfsEnqueue_returns p hGone
      (Nat.lt_of_le_of_lt hSize hFuel) with
    ⟨s', hIn⟩
  refine ⟨s', ?_⟩
  simp [cfsRequeue, hCharge, hOut, hIn]

end Rooted

end FeatherOS
