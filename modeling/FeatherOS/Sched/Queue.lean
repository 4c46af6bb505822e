import FeatherOS.Library.SearchTree
import FeatherOS.Library.TreeRemoval
import FeatherOS.Sched.Frame

/-
  The tree of a run queue.

  The tasks of a queue hang together by the links of their
  `cfs` parts; the key of a task is its `vruntime`. A smaller
  key goes to the left, any other to the right.

  Key definitions include:
    * `SchedState.cell`
    * `SchedState.Linked`
    * `SchedState.Movable`

  Key theorems include:
    * `cfsEnqueue_linked`
    * `cfsDequeue_linked`
    * `cfsRequeue_queue`
-/

namespace FeatherOS

open LinkedTree

--------------------
-- The Tree Of The Queue
--------------------

abbrev TaskTree := Tree Addr U64
abbrev TaskCtx := Ctx Addr U64

/- The order of the keys, to the left and to the right. -/
abbrev keyLt (x y : U64) : Prop := x < y
abbrev keyLe (x y : U64) : Prop := x ≤ y

/- The link the hole of a context hangs on. -/
def ctxLink : TaskCtx → CfsLink
  | [] => .root thisCpu
  | .left p _ _ :: _ => .left p
  | .right _ p _ :: _ => .right p

namespace SchedState

/- A task as a cell of the tree. -/
def cell
    (s : SchedState)
    (p : Addr) :
    Cell Addr U64 where
  left := (s.task p).cfs.left
  right := (s.task p).cfs.right
  parent := (s.task p).cfs.parent
  data := (s.task p).vruntime

/-
  The queue holds the tree `t`, and the tasks in it are those
  that name the queue.
-/
structure Linked
    (s : SchedState)
    (t : TaskTree) : Prop where
  stored : Stored s.cell s.thisRq.root t
  members : ∀ p,
    p ∈ t.nodes ↔ (s.task p).cfs.myQ = some thisCpu

variable {s s' : SchedState}
variable {t u : TaskTree}
variable {c : TaskCtx}
variable {p q : Addr}

/- A state holds one tree. -/
theorem Linked.unique
    (hLinked : s.Linked t)
    (hOther : s.Linked u) :
    t = u :=
  hLinked.stored.unique hOther.stored

/- Only cells, the root and `myQ` matter. -/
theorem Linked.congr
    (hLinked : s.Linked t)
    (hCell : ∀ q, s'.cell q = s.cell q)
    (hRoot : s'.thisRq.root = s.thisRq.root)
    (hQ : ∀ q, (s'.task q).cfs.myQ = (s.task q).cfs.myQ) :
    s'.Linked t where
  stored := by
    have hEq : s'.cell = s.cell := funext hCell
    rw [hEq, hRoot]
    exact hLinked.stored
  members q := by
    rw [hQ]
    exact hLinked.members q

/- A task outside the queue is not in the tree. -/
theorem Linked.not_mem
    (hLinked : s.Linked t)
    (hOut : (s.task p).cfs.myQ = none) :
    p ∉ t.nodes := by
  rw [hLinked.members, hOut]
  simp

@[simp] theorem cell_modifyRq
    (s : SchedState)
    (rq : Fin nrCpus)
    (f : CfsRq → CfsRq)
    (q : Addr) :
    (s.modifyRq rq f).cell q = s.cell q := rfl

@[simp] theorem cell_modifyCfs
    (s : SchedState)
    (p q : Addr)
    (f : CfsEntity → CfsEntity) :
    (s.modifyCfs p f).cell q =
      if q = p then
        { left := (f (s.task p).cfs).left
          right := (f (s.task p).cfs).right
          parent := (f (s.task p).cfs).parent
          data := (s.task p).vruntime }
      else s.cell q := by
  by_cases hq : q = p
  · simp [cell, hq]
  · simp [cell, hq]

/- What hangs on the link of a context. -/
theorem link_ctxLink
    (hStored : Stored s.cell s.thisRq.root (c.plug t)) :
    s.link (ctxLink c) = t.rootPtr := by
  cases c with
  | nil => exact hStored.root_eq
  | cons f c =>
      have hTop := (((rep_plug_iff _ _).mp hStored.rep).1).top
      cases f with
      | left q d r => exact congrArg Cell.left hTop
      | right l q d => exact congrArg Cell.right hTop

--------------------
-- Writing A Link
--------------------

/- What a write to the link of a context changes. -/
structure Relinked
    (c : TaskCtx)
    (hole : Option Addr)
    (s s' : SchedState) : Prop where
  rest : ∀ q, c.parentPtr ≠ some q → s'.cell q = s.cell q
  top : ∀ f rest, c = f :: rest →
    s'.cell f.ptr = f.cell hole (s.cell f.ptr).parent
  root_nil : c = [] → s'.thisRq.root = hole
  root_cons : c ≠ [] → s'.thisRq.root = s.thisRq.root

theorem setLink_relinked
    {old : Option Addr}
    (v : Option Addr)
    (hTop : ∀ f rest, c = f :: rest →
      s.cell f.ptr = f.cell old (s.cell f.ptr).parent) :
    Relinked c v s (s.setLink v (ctxLink c)) := by
  cases c with
  | nil =>
      refine ⟨fun q _ => rfl, ?_, ?_, ?_⟩
      · intro f rest hc
        cases hc
      · intro _
        simp [ctxLink, setLink]
      · intro hc
        exact absurd rfl hc
  | cons f c =>
      have hCell := hTop f c rfl
      cases f with
      | left p d r =>
          refine ⟨?_, ?_, ?_, fun _ => rfl⟩
          · intro q hq
            have hNe : q ≠ p := fun h => hq (by simp [h])
            simp [ctxLink, setLink, hNe]
          · intro f rest hc
            cases hc
            have hRight : (s.task p).cfs.right = r.rootPtr :=
              congrArg Cell.right hCell
            have hData : (s.task p).vruntime = d :=
              congrArg Cell.data hCell
            simp [ctxLink, setLink, Frame.cell, cell, hRight,
              hData]
          · intro hc
            cases hc
      | right l p d =>
          refine ⟨?_, ?_, ?_, fun _ => rfl⟩
          · intro q hq
            have hNe : q ≠ p := fun h => hq (by simp [h])
            simp [ctxLink, setLink, hNe]
          · intro f rest hc
            cases hc
            have hLeft : (s.task p).cfs.left = l.rootPtr :=
              congrArg Cell.left hCell
            have hData : (s.task p).vruntime = d :=
              congrArg Cell.data hCell
            simp [ctxLink, setLink, Frame.cell, cell, hLeft,
              hData]
          · intro hc
            cases hc

end SchedState

open SchedState

--------------------
-- Inserting A Task
--------------------

section Insert

variable {s s' : SchedState}
variable {t : TaskTree}
variable {c : TaskCtx}
variable {p : Addr}
variable {fuel : Nat}

/- The descent ends at a free place with room for the key. -/
theorem cfsDescend_spec
    {l : CfsLink}
    {par : Option Addr}
    (hStored : Stored s.cell s.thisRq.root (c.plug t))
    (hRoom : Ctx.Admits keyLt keyLe c (s.task p).vruntime)
    (hCall :
      cfsDescend s p fuel (ctxLink c) c.parentPtr =
        some (l, par)) :
    ∃ c' : TaskCtx, c.plug t = c'.plug .nil ∧
      l = ctxLink c' ∧ par = c'.parentPtr ∧
      Ctx.Admits keyLt keyLe c' (s.task p).vruntime := by
  induction t generalizing c fuel with
  | nil =>
      cases fuel with
      | zero => simp [cfsDescend] at hCall
      | succ fuel =>
          have hLink := link_ctxLink hStored
          simp only [cfsDescend, hLink, Tree.rootPtr_nil,
            Option.some.injEq, Prod.mk.injEq] at hCall
          exact ⟨c, rfl, hCall.1.symm, hCall.2.symm, hRoom⟩
  | node l q d r ihl ihr =>
      cases fuel with
      | zero => simp [cfsDescend] at hCall
      | succ fuel =>
          have hLink := link_ctxLink hStored
          have hKey : (s.task q).vruntime = d :=
            congrArg Cell.data hStored.cell_eq
          simp only [cfsDescend, hLink, Tree.rootPtr_node, hKey]
            at hCall
          by_cases hLt : (s.task p).vruntime < d
          · simp only [hLt, if_true] at hCall
            have hDown : Ctx.Admits keyLt keyLe
                (.left q d r :: c) (s.task p).vruntime := by
              simp [hRoom, Frame.Admits, hLt]
            exact ihl (c := .left q d r :: c) hStored hDown hCall
          · simp only [hLt, if_false] at hCall
            have hLe : d ≤ (s.task p).vruntime :=
              BitVec.not_lt.mp hLt
            have hDown : Ctx.Admits keyLt keyLe
                (.right l q d :: c) (s.task p).vruntime := by
              simp [hRoom, Frame.Admits, hLe]
            exact ihr (c := .right l q d :: c) hStored hDown hCall

/- Linking a task at a free place. -/
theorem cfsAttach_stored
    (hStored : Stored s.cell s.thisRq.root (c.plug .nil))
    (hOut : p ∉ (c.plug .nil : TaskTree).nodes) :
    Stored
      (cfsAttach s p (ctxLink c) c.parentPtr).cell
      (cfsAttach s p (ctxLink c) c.parentPtr).thisRq.root
      (c.plug (.node .nil p (s.task p).vruntime .nil)) := by
  have hFrame : ∀ f rest, c = f :: rest → f.ptr ≠ p := by
    rintro f rest rfl
    exact Ctx.ptr_ne_of_not_mem hOut List.mem_cons_self
  have hPar : c.parentPtr ≠ some p := by
    intro hPar
    cases c with
    | nil => cases hPar
    | cons f c => exact hFrame f c rfl (Option.some.inj hPar)
  unfold cfsAttach
  generalize hMid :
    s.modifyCfs p (fun e =>
      { e with parent := c.parentPtr, left := none, right := none })
        = s₁
  have hSelf :
      s₁.cell p =
        { left := none, right := none
          parent := c.parentPtr
          data := (s.task p).vruntime } := by
    rw [← hMid]
    simp
  have hOther : ∀ q, q ≠ p → s₁.cell q = s.cell q := by
    intro q hq
    rw [← hMid]
    simp [hq]
  have hRoot : s₁.thisRq.root = s.thisRq.root := by
    rw [← hMid]
    rfl
  have hTop : ∀ f rest, c = f :: rest →
      s₁.cell f.ptr = f.cell none (s₁.cell f.ptr).parent := by
    intro f rest hc
    rw [hOther _ (hFrame f rest hc)]
    subst hc
    have hCell := (((rep_plug_iff _ _).mp hStored.rep).1).top
    rw [hCell, Frame.parent_cell]
    rfl
  have hWrite := setLink_relinked (some p) hTop
  apply hStored.attach hOut
  · rw [hWrite.rest p hPar, hSelf]
  · intro f rest hc
    rw [hWrite.top f rest hc, hOther _ (hFrame f rest hc)]
  · intro q hq hqc
    rw [hWrite.rest q hqc, hOther q hq]
  · exact hWrite.root_nil
  · intro hc
    rw [hWrite.root_cons hc, hRoot]

theorem cfsJoin_cell
    (s : SchedState)
    (p q : Addr) :
    (cfsJoin s thisCpu p).cell q = s.cell q := by
  rcases s.myQ_eq p with hQ | hQ
  · simp only [cfsJoin, hQ]
    by_cases hq : q = p
    · simp [hq, cell]
    · simp [hq]
  · simp [cfsJoin, hQ]

/- A task outside the tree becomes a leaf of it. -/
theorem cfsEnqueue_stored
    (hStored : Stored s.cell s.thisRq.root t)
    (hOut : p ∉ t.nodes)
    (hCall : cfsEnqueue fuel s thisCpu p = some s') :
    ∃ c : TaskCtx, t = c.plug .nil ∧
      Ctx.Admits keyLt keyLe c (s.task p).vruntime ∧
      Stored s'.cell s'.thisRq.root
        (c.plug (.node .nil p (s.task p).vruntime .nil)) := by
  simp only [cfsEnqueue, Option.bind_eq_bind,
    Option.bind_eq_some_iff, Option.some.injEq, Prod.exists]
    at hCall
  rcases hCall with ⟨l, par, hDescend, rfl⟩
  have hKey := (cfsJoin_step s p).vruntime p
  have hJoined :
      Stored (cfsJoin s thisCpu p).cell
        (cfsJoin s thisCpu p).thisRq.root t := by
    rw [funext (cfsJoin_cell s p), cfsJoin_rq]
    exact hStored
  rcases cfsDescend_spec (c := []) hJoined (by simp)
      hDescend with
    ⟨c, hPlug, rfl, rfl, hRoom⟩
  have hEq : t = c.plug .nil := hPlug
  subst hEq
  have hAttach := cfsAttach_stored hJoined hOut
  rw [hKey] at hAttach hRoom
  refine ⟨c, rfl, hRoom, ?_⟩
  generalize cfsAttach (cfsJoin s thisCpu p) p (ctxLink c)
    c.parentPtr = s₁ at hAttach ⊢
  have hCells : (cfsAccount s₁ thisCpu p).cell = s₁.cell :=
    funext (cell_modifyRq s₁ thisCpu _)
  rw [hCells]
  simpa [cfsAccount] using hAttach

/- A task that was in no queue becomes a leaf of the tree. -/
theorem cfsEnqueue_linked
    (hLinked : s.Linked t)
    (hOut : (s.task p).cfs.myQ = none)
    (hCall : cfsEnqueue fuel s thisCpu p = some s') :
    ∃ c : TaskCtx, t = c.plug .nil ∧
      Ctx.Admits keyLt keyLe c (s.task p).vruntime ∧
      s'.Linked
        (c.plug (.node .nil p (s.task p).vruntime .nil)) ∧
      s'.thisRq.nrRunning = s.thisRq.nrRunning + 1#32 := by
  have hStep := cfsEnqueue_step hCall
  rcases cfsEnqueue_stored hLinked.stored
      (hLinked.not_mem hOut) hCall with
    ⟨c, rfl, hRoom, hAttach⟩
  refine ⟨c, rfl, hRoom, ⟨hAttach, ?_⟩, ?_⟩
  · intro q
    by_cases hq : q = p
    · subst hq
      rw [hStep.self, Ctx.mem_plug_iff]
      simp
    · rw [hStep.other q hq, ← hLinked.members,
        Ctx.mem_plug_iff, Ctx.mem_plug_iff]
      simp [hq]
  · have hCount := congrArg CfsRq.nrRunning (cfsEnqueue_rq hCall)
    exact hCount

end Insert

--------------------
-- Removing A Task
--------------------

section Remove

variable {s s' : SchedState}
variable {l r e : TaskTree}
variable {c : TaskCtx}
variable {p : Addr}
variable {d : U64}
variable {fuel : Nat}

/-
  The search ends at a task whose key belongs to its place;
  the induction goes down from the root.
-/
theorem cfsFind_spec
    {c₁ : TaskCtx}
    {link : CfsLink}
    (hStored :
      Stored s.cell s.thisRq.root
        (c.plug (c₁.plug (.node l p d r))))
    (hRoom : Ctx.Admits keyLt keyLe c₁ (s.task p).vruntime)
    (hCall : cfsFind s p fuel (ctxLink c) = some link) :
    link = ctxLink (c₁ ++ c) := by
  induction c₁ using List.reverseRecOn generalizing c fuel with
  | nil =>
      cases fuel with
      | zero => simp [cfsFind] at hCall
      | succ fuel =>
          have hLink := link_ctxLink hStored
          simp only [cfsFind, hLink, Ctx.plug_nil,
            Tree.rootPtr_node, if_true, Option.some.injEq]
            at hCall
          exact hCall.symm
  | append_singleton c₁ f ih =>
      cases fuel with
      | zero => simp [cfsFind] at hCall
      | succ fuel =>
          rw [Ctx.plug_append] at hStored
          have hDown :
              Stored s.cell s.thisRq.root
                (Ctx.plug (f :: c)
                  (Ctx.plug c₁ (.node l p d r))) := hStored
          have hLink := link_ctxLink hStored
          have hNe : f.ptr ≠ p := by
            intro hEq
            have hIn := Ctx.mem_plug_node c₁ l r p d
            exact hDown.parentPtr_ne hIn (by simp [hEq])
          have hKey : (s.task f.ptr).vruntime = f.data := by
            have hTop := (((rep_plug_iff _ _).mp hDown.rep).1).top
            have hData := congrArg Cell.data hTop
            cases f with
            | left q dq rq => exact hData
            | right lq q dq => exact hData
          have hSide : f.Admits keyLt keyLe (s.task p).vruntime :=
            hRoom f (by simp)
          have hRest :
              Ctx.Admits keyLt keyLe c₁ (s.task p).vruntime :=
            fun g hg => hRoom g (by simp [hg])
          simp only [cfsFind, hLink, Ctx.plug_cons, Ctx.plug_nil,
            Frame.rootPtr_fill, hNe, if_false, hKey] at hCall
          rw [List.append_assoc]
          cases f with
          | left q dq rq =>
              have hLt : (s.task p).vruntime < dq := hSide
              simp only [Frame.data, hLt, if_true] at hCall
              exact ih hDown hRest hCall
          | right lq q dq =>
              have hNotLt : ¬ (s.task p).vruntime < dq :=
                BitVec.not_lt.mpr hSide
              simp only [Frame.data, hNotLt, if_false] at hCall
              exact ih hDown hRest hCall

/- The link above a task is the one that is written. -/
theorem cfsPassOn_eq
    (hStored :
      Stored s.cell s.thisRq.root (c.plug (.node l p d r))) :
    cfsPassOn s p (ctxLink c) =
      s.setLink (s.task p).cfs.successor (ctxLink c) := by
  have hPar : (s.task p).cfs.parent = c.parentPtr :=
    congrArg Cell.parent hStored.cell_eq
  unfold cfsPassOn
  simp only [hPar]
  cases c with
  | nil => rfl
  | cons f c =>
      have hTop := (((rep_plug_iff _ _).mp hStored.rep).1).top
      have hSib := hStored.sibling_ne (p := p) rfl
      cases f with
      | left q dq rq =>
          have hLeft : (s.task q).cfs.left = some p :=
            congrArg Cell.left hTop
          simp only [Ctx.parentPtr_cons, Frame.ptr_left, hLeft,
            if_true]
          rfl
      | right lq q dq =>
          have hLeft : (s.task q).cfs.left = lq.rootPtr :=
            congrArg Cell.left hTop
          have hNe : lq.rootPtr ≠ some p := hSib
          simp only [Ctx.parentPtr_cons, Frame.ptr_right, hLeft,
            hNe, if_false]
          rfl

/- The subtree that takes the place of a task. -/
def survivor : TaskTree → TaskTree → TaskTree
  | .nil, r => r
  | .node l p d r, _ => .node l p d r

theorem survivor_cases
    (l r : TaskTree) :
    survivor l r = l ∨ survivor l r = r := by
  cases l with
  | nil => exact Or.inr rfl
  | node => exact Or.inl rfl

theorem successor_eq
    (hStored :
      Stored s.cell s.thisRq.root (c.plug (.node l p d r))) :
    (s.task p).cfs.successor = (survivor l r).rootPtr := by
  have hCell := hStored.cell_eq
  have hLeft : (s.task p).cfs.left = l.rootPtr :=
    congrArg Cell.left hCell
  have hRight : (s.task p).cfs.right = r.rootPtr :=
    congrArg Cell.right hCell
  simp only [CfsEntity.successor, hLeft, hRight]
  cases l with
  | nil => rfl
  | node => rfl

/- The left subtree takes the place, or else the right one. -/
theorem cfsUnlink_survivor
    (hStored :
      Stored s.cell s.thisRq.root (c.plug (.node l p d r))) :
    Stored
      (cfsUnlink s p (ctxLink c)).cell
      (cfsUnlink s p (ctxLink c)).thisRq.root
      (c.plug (survivor l r)) := by
  have hCell := hStored.cell_eq
  have hSucc := successor_eq hStored
  have hChild := survivor_cases l r
  generalize survivor l r = e at hSucc hChild ⊢
  have hIn : ∀ q, e.rootPtr = some q →
      q ∈ (LinkedTree.Tree.node l p d r).nodes := by
    intro q hq
    have hMem := Tree.mem_nodes_of_rootPtr hq
    rcases hChild with rfl | rfl
    · simp [hMem]
    · simp [hMem]
  have hPar : ∀ q, e.rootPtr = some q → c.parentPtr ≠ some q :=
    fun q hq => hStored.parentPtr_ne (hIn q hq)
  have hTop : ∀ f rest, c = f :: rest →
      s.cell f.ptr = f.cell (some p) (s.cell f.ptr).parent := by
    rintro f rest rfl
    have hFrame := (((rep_plug_iff _ _).mp hStored.rep).1).top
    rw [hFrame, Frame.parent_cell]
    rfl
  have hWrite := setLink_relinked e.rootPtr hTop
  have hOwn :
      (s.setLink e.rootPtr (ctxLink c)).cell p = s.cell p :=
    hWrite.rest p (hStored.parentPtr_ne (by simp))
  have hOwnPar :
      ((s.setLink e.rootPtr (ctxLink c)).task p).cfs.parent =
        c.parentPtr :=
    (congrArg Cell.parent hOwn).trans
      (congrArg Cell.parent hCell)
  unfold cfsUnlink
  simp only [cfsPassOn_eq hStored, hSucc]
  generalize s.setLink e.rootPtr (ctxLink c) = s₁
    at hWrite hOwn hOwnPar ⊢
  cases hRoot : e.rootPtr with
  | none =>
      apply hStored.promote hChild
      · intro q hq
        rw [hRoot] at hq
        cases hq
      · intro f rest hc
        exact hWrite.top f rest hc
      · intro q _ _ hqc
        exact hWrite.rest q hqc
      · exact hWrite.root_nil
      · exact hWrite.root_cons
  | some x =>
      apply hStored.promote hChild
      · intro q hq
        have hEq : x = q := by
          rw [hRoot] at hq
          exact Option.some.inj hq
        subst hEq
        have hKept := hWrite.rest x (hPar x hRoot)
        simp only [cell_modifyCfs, if_true, hOwnPar]
        rw [← hKept]
        rfl
      · intro f rest hc
        have hNe : f.ptr ≠ x := by
          intro hEq
          exact hPar x hRoot (by simp [hc, hEq])
        simp only [cell_modifyCfs, hNe, if_false]
        exact hWrite.top f rest hc
      · intro q _ hqe hqc
        have hNe : q ≠ x := by
          rintro rfl
          exact hqe hRoot
        simp only [cell_modifyCfs, hNe, if_false]
        exact hWrite.rest q hqc
      · exact hWrite.root_nil
      · exact hWrite.root_cons

/- A task with at most one child gives its place to that. -/
theorem cfsUnlink_stored
    (hStored :
      Stored s.cell s.thisRq.root (c.plug (.node l p d r)))
    (hChild : e = l ∧ r = .nil ∨ e = r ∧ l = .nil) :
    Stored
      (cfsUnlink s p (ctxLink c)).cell
      (cfsUnlink s p (ctxLink c)).thisRq.root
      (c.plug e) := by
  have hSame : survivor l r = e := by
    rcases hChild with ⟨rfl, rfl⟩ | ⟨rfl, rfl⟩
    · cases e with
      | nil => rfl
      | node => rfl
    · rfl
  have hUnlink := cfsUnlink_survivor hStored
  rw [hSame] at hUnlink
  exact hUnlink

/- Leaving the queue writes no link and no key. -/
theorem cfsLeave_stored
    {t : TaskTree}
    (hStored : Stored s.cell s.thisRq.root t) :
    Stored (cfsLeave s thisCpu p).cell
      (cfsLeave s thisCpu p).thisRq.root t := by
  have hCells : (cfsLeave s thisCpu p).cell = s.cell := by
    funext q
    by_cases hq : q = p
    · simp [cfsLeave, hq, cell]
    · simp [cfsLeave, hq]
  rw [hCells]
  simpa [cfsLeave] using hStored

/- A task is found where its key belongs to its place. -/
theorem cfsDequeue_found
    (hStored :
      Stored s.cell s.thisRq.root (c.plug (.node l p d r)))
    (hQ : (s.task p).cfs.myQ = some thisCpu)
    (hRoom : Ctx.Admits keyLt keyLe c (s.task p).vruntime)
    (hCall : cfsDequeue fuel s thisCpu p = some s') :
    s' = cfsLeave (cfsUnlink s p (ctxLink c)) thisCpu p := by
  rcases cfsDequeue_split hCall with
    ⟨hNone, _⟩ | ⟨_, link, hFind, rfl⟩
  · rw [hQ] at hNone
    cases hNone
  · have hLink := cfsFind_spec (c := []) hStored hRoom hFind
    rw [List.append_nil] at hLink
    subst hLink
    have hHere : s.link (ctxLink c) = some p :=
      link_ctxLink hStored
    rw [if_pos hHere]

/-
  A queued task with at most one child leaves the tree when
  its key belongs to its place.
-/
theorem cfsDequeue_linked
    (hLinked : s.Linked (c.plug (.node l p d r)))
    (hRoom : Ctx.Admits keyLt keyLe c (s.task p).vruntime)
    (hChild : e = l ∧ r = .nil ∨ e = r ∧ l = .nil)
    (hCall : cfsDequeue fuel s thisCpu p = some s') :
    s'.Linked (c.plug e) ∧
      s'.thisRq.nrRunning = s.thisRq.nrRunning - 1#32 := by
  have hStep := cfsDequeue_step hCall
  have hStored := hLinked.stored
  have hQ := (hLinked.members p).mp
    (Ctx.mem_plug_node c l r p d)
  have hCount :=
    congrArg CfsRq.nrRunning (cfsDequeue_rq hCall)
  rw [hQ] at hCount
  have hEnd := cfsDequeue_found hStored hQ hRoom hCall
  subst hEnd
  refine ⟨⟨cfsLeave_stored (cfsUnlink_stored hStored hChild),
    ?_⟩, hCount⟩
  intro q
  have hNodup := hStored.nodup
  rw [Ctx.nodup_plug_iff] at hNodup
  simp only [Tree.nodes_node, List.nodup_append,
    List.nodup_cons, List.mem_append, List.mem_cons] at hNodup
  have hMembers := hLinked.members q
  rw [Ctx.mem_plug_iff] at hMembers ⊢
  simp only [Tree.nodes_node, List.mem_append, List.mem_cons]
    at hMembers ⊢
  by_cases hq : q = p
  · subst hq
    rw [hStep.self]
    have hOut : q ∉ c.nodes := fun hc =>
      hNodup.2.2 q hc (Or.inr (Or.inl rfl))
    have hInner : q ∉ e.nodes := by
      rcases hChild with ⟨rfl, _⟩ | ⟨rfl, _⟩
      · exact fun hl => hNodup.2.1.2.2 q hl q (Or.inl rfl) rfl
      · exact hNodup.2.1.2.1.1
    simp [hOut, hInner]
  · rw [hStep.other q hq, ← hMembers]
    rcases hChild with ⟨rfl, rfl⟩ | ⟨rfl, rfl⟩
    · simp [hq]
    · simp [hq]

end Remove

--------------------
-- The Queue Of A State
--------------------

/- The tree is a search tree and its nodes are counted. -/
structure SchedState.Keyed
    (s : SchedState)
    (t : TaskTree) : Prop where
  ordered : t.Ordered keyLt keyLe
  count_eq : s.thisRq.nrRunning.toNat = t.size

/-
  The queue holds the tree; where `keyed` is asked for, keys
  and counter agree with it as well.
-/
structure SchedState.Queue
    (keyed : Prop)
    (s : SchedState)
    (t : TaskTree) : Prop where
  linked : s.Linked t
  keyed : keyed → s.Keyed t

/- One more task can be counted. -/
def SchedState.Room (s : SchedState) : Prop :=
  s.thisRq.nrRunning.toNat + 1 < 2 ^ 32

instance (s : SchedState) : Decidable s.Room :=
  inferInstanceAs (Decidable (_ < _))

/-
  The search for a key ends at the task, if it is queued,
  and the task has at most one child.
-/
def SchedState.Movable
    (s : SchedState)
    (p : Addr)
    (key : U64) : Prop :=
  (s.task p).cfs.myQ = none ∨
    ∃ (c : TaskCtx) (l : TaskTree) (d : U64) (r : TaskTree),
      s.Linked (c.plug (.node l p d r)) ∧
        Ctx.Admits keyLt keyLe c key ∧ (l = .nil ∨ r = .nil)

section Queue

variable {keyed : Prop}
variable {s s' : SchedState}
variable {t l r e : TaskTree}
variable {c : TaskCtx}
variable {p : Addr}
variable {d : U64}
variable {fuel : Nat}

/- A root without left child can be moved anywhere. -/
theorem SchedState.Linked.movable_root
    (hLinked : s.Linked t)
    (hRoot : s.thisRq.root = some p)
    (hLeft : (s.task p).cfs.left = none)
    (key : U64) :
    s.Movable p key := by
  have hTop := hLinked.stored.root_eq
  rw [hRoot] at hTop
  rcases Tree.eq_node_of_rootPtr hTop.symm with ⟨l, d, r, rfl⟩
  have hCell := congrArg Cell.left hLinked.stored.rep.1
  have hNil : l = .nil :=
    Tree.eq_nil_of_rootPtr (hCell.symm.trans hLeft)
  exact .inr ⟨[], l, d, r, hLinked, by simp, .inl hNil⟩

theorem SchedState.Queue.congr
    (hQueue : s.Queue keyed t)
    (hCell : ∀ q, s'.cell q = s.cell q)
    (hRoot : s'.thisRq.root = s.thisRq.root)
    (hCount : s'.thisRq.nrRunning = s.thisRq.nrRunning)
    (hQ : ∀ q, (s'.task q).cfs.myQ = (s.task q).cfs.myQ) :
    s'.Queue keyed t where
  linked := hQueue.linked.congr hCell hRoot hQ
  keyed hKeyed := by
    rcases hQueue.keyed hKeyed with ⟨hOrd, hSize⟩
    exact ⟨hOrd, hCount ▸ hSize⟩

/- One of the subtrees of a task with at most one child. -/
theorem exists_child
    (hChild : l = .nil ∨ r = .nil) :
    ∃ e : TaskTree, (e = l ∧ r = .nil ∨ e = r ∧ l = .nil) ∧
      (c.plug (.node l p d r)).size = (c.plug e).size + 1 := by
  rcases hChild with rfl | rfl
  · refine ⟨r, Or.inr ⟨rfl, rfl⟩, ?_⟩
    rw [Ctx.size_plug, Ctx.size_plug]
    simp [Tree.size, Nat.add_assoc]
  · refine ⟨l, Or.inl ⟨rfl, rfl⟩, ?_⟩
    rw [Ctx.size_plug, Ctx.size_plug]
    simp [Tree.size, Nat.add_assoc]

theorem cfsEnqueue_queue
    (hQueue : s.Queue keyed t)
    (hOut : (s.task p).cfs.myQ = none)
    (hRoom : keyed → s.Room)
    (hCall : cfsEnqueue fuel s thisCpu p = some s') :
    ∃ c : TaskCtx,
      s'.Queue keyed
        (c.plug (.node .nil p (s.task p).vruntime .nil)) ∧
      Ctx.Admits keyLt keyLe c (s.task p).vruntime := by
  rcases cfsEnqueue_linked hQueue.linked hOut hCall with
    ⟨c, rfl, hPlace, hLinked, hCount⟩
  refine ⟨c, ⟨hLinked, ?_⟩, hPlace⟩
  intro hKeyed
  rcases hQueue.keyed hKeyed with ⟨hOrd, hSize⟩
  have hFit := hRoom hKeyed
  refine ⟨hOrd.attach hPlace, ?_⟩
  have hGrow :
      (c.plug (.node .nil p (s.task p).vruntime .nil)).size =
        (c.plug .nil : TaskTree).size + 1 := by
    simp [Tree.size, Ctx.entries_plug]
    omega
  rw [hCount, hGrow, BitVec.toNat_add, ← hSize]
  unfold SchedState.Room at hFit
  exact Nat.mod_eq_of_lt hFit

/-
  Dequeuing a task whose key belongs to its place. Before a
  removal the keys need to be in order but for that task.
-/
theorem cfsDequeue_queue
    (hLinked : s.Linked (c.plug (.node l p d r)))
    (hKeyed : keyed →
      s.thisRq.nrRunning.toNat = (c.plug (.node l p d r)).size ∧
        ∃ d', (c.plug (.node l p d' r)).Ordered keyLt keyLe)
    (hPlace : Ctx.Admits keyLt keyLe c (s.task p).vruntime)
    (hChild : l = .nil ∨ r = .nil)
    (hCall : cfsDequeue fuel s thisCpu p = some s') :
    ∃ e : TaskTree, s'.Queue keyed (c.plug e) ∧
      (keyed → s'.Room) := by
  rcases exists_child (c := c) (p := p) (d := d) hChild with
    ⟨e, hOne, hSize⟩
  rcases cfsDequeue_linked hLinked hPlace hOne hCall with
    ⟨hLinked', hCount⟩
  have hLess : keyed →
      s'.thisRq.nrRunning.toNat = (c.plug e).size := by
    intro h
    rw [hCount, BitVec.toNat_sub_of_le]
    · rw [(hKeyed h).1, hSize]
      rfl
    · rw [BitVec.le_def, (hKeyed h).1, hSize]
      exact Nat.le_add_left 1 _
  refine ⟨e, ⟨hLinked', ?_⟩, ?_⟩
  · intro h
    rcases (hKeyed h).2 with ⟨d', hOrd⟩
    refine ⟨hOrd.splice ?_, hLess h⟩
    rcases hOne with ⟨hEq, _⟩ | ⟨hEq, _⟩
    · exact Or.inl hEq
    · exact Or.inr hEq
  · intro h
    have hMax := s.thisRq.nrRunning.isLt
    have hOld := (hKeyed h).1
    unfold SchedState.Room
    rw [hLess h]
    omega

/- A charged task keeps its place in the tree. -/
theorem ChargeStep.stored
    (hStep : ChargeStep p s s')
    (hStored :
      Stored s.cell s.thisRq.root (c.plug (.node l p d r))) :
    Stored s'.cell s'.thisRq.root
      (c.plug
        (.node l p (chargedVruntime s.clock (s.task p)) r)) := by
  rw [hStep.root]
  apply hStored.setData
  · simp only [SchedState.cell, hStep.self]
  · intro q hq
    simp only [SchedState.cell, hStep.other q hq]

/- A task outside the tree is charged. -/
theorem ChargeStep.stored_out
    (hStep : ChargeStep p s s')
    (hStored : Stored s.cell s.thisRq.root t)
    (hOut : p ∉ t.nodes) :
    Stored s'.cell s'.thisRq.root t := by
  rw [hStep.root]
  refine ⟨hStored.rep.congr ?_, hStored.root_eq, hStored.nodup⟩
  intro q hq
  have hNe : q ≠ p := by
    rintro rfl
    exact hOut hq
  simp only [SchedState.cell, hStep.other q hNe]

theorem ChargeStep.linked
    (hStep : ChargeStep p s s')
    (hLinked : s.Linked (c.plug (.node l p d r))) :
    s'.Linked
      (c.plug
        (.node l p (chargedVruntime s.clock (s.task p)) r)) where
  stored := hStep.stored hLinked.stored
  members q := by
    rw [hStep.myQ, ← hLinked.members, Ctx.mem_plug_iff,
      Ctx.mem_plug_iff]
    simp

/- A task outside the queue is charged. -/
theorem ChargeStep.queue_out
    (hStep : ChargeStep p s s')
    (hQueue : s.Queue keyed t)
    (hOut : (s.task p).cfs.myQ = none) :
    s'.Queue keyed t where
  linked := by
    have hNotMem := hQueue.linked.not_mem hOut
    refine ⟨hStep.stored_out hQueue.linked.stored hNotMem, ?_⟩
    intro q
    rw [hStep.myQ]
    exact hQueue.linked.members q
  keyed hKeyed := by
    rcases hQueue.keyed hKeyed with ⟨hOrd, hSize⟩
    exact ⟨hOrd, hStep.nrRunning ▸ hSize⟩

/- A charged task that can be moved goes to a new place. -/
theorem cfsRequeue_queue
    (hQueue : s.Queue keyed t)
    (hMove : s.Movable p (chargedVruntime s.clock (s.task p)))
    (hRoom : keyed → (s.task p).cfs.myQ = none → s.Room)
    (hCall : cfsRequeue fuel s thisCpu p = some s') :
    ∃ c : TaskCtx,
      s'.Queue keyed
        (c.plug
          (.node .nil p (chargedVruntime s.clock (s.task p))
            .nil)) ∧
      Ctx.Admits keyLt keyLe c
        (chargedVruntime s.clock (s.task p)) := by
  rcases cfsRequeue_split hCall with
    ⟨s₁, s₂, hCharge, hOutCall, hIn⟩
  rcases updateCurrCfs_step hCharge with ⟨hStep, _⟩
  have hKey :
      (s₁.task p).vruntime =
        chargedVruntime s.clock (s.task p) := by
    rw [hStep.self]
  have hOutStep := cfsDequeue_step hOutCall
  have hKey₂ := (hOutStep.vruntime p).trans hKey
  have hFree : ∃ u : TaskTree, s₂.Queue keyed u ∧
      (keyed → s₂.Room) := by
    rcases hMove with hOut | ⟨c, l, d, r, hHere, hPlace, hChild⟩
    · have hOut₁ := (hStep.myQ p).trans hOut
      have hEq := cfsDequeue_out hOut₁ hOutCall
      subst hEq
      refine ⟨t, hStep.queue_out hQueue hOut, ?_⟩
      intro hKeyed
      have hFit := hRoom hKeyed hOut
      unfold SchedState.Room at hFit ⊢
      rw [hStep.nrRunning]
      exact hFit
    · have hTree := hQueue.linked.unique hHere
      subst hTree
      have hOrder : keyed →
          s₁.thisRq.nrRunning.toNat =
              (c.plug (.node l p
                (chargedVruntime s.clock (s.task p)) r)).size ∧
            ∃ d', (c.plug (.node l p d' r)).Ordered
              keyLt keyLe := by
        intro hKeyed
        rcases hQueue.keyed hKeyed with ⟨hOrd, hSize⟩
        refine ⟨?_, d, hOrd⟩
        rw [hStep.nrRunning, hSize]
        simp [Tree.size, Ctx.entries_plug]
      rcases cfsDequeue_queue (hStep.linked hHere) hOrder
          (hKey ▸ hPlace) hChild hOutCall with
        ⟨e, hGone, hFit⟩
      exact ⟨_, hGone, hFit⟩
  rcases hFree with ⟨u, hGone, hFit⟩
  rcases cfsEnqueue_queue hGone hOutStep.self hFit hIn with
    ⟨c, hBack, hPlace⟩
  rw [hKey₂] at hBack hPlace
  exact ⟨c, hBack, hPlace⟩

end Queue

end FeatherOS
