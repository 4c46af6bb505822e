import FeatherOS.Sched.Sorting

/-
  What `cfs_dequeue` leaves of the tree of a queue.

  The search finds every task of a search tree, also among
  equal keys. The left child takes the place of the task, or
  else the right one. With two children the right subtree is
  lost: its tasks still name the queue, but no link leads to
  them.

  Key definitions include:
    * `DequeuesOne`

  Key theorems include:
    * `cfsDequeue_tree`
    * `cfsDequeue_dequeuesOne_iff`
-/

namespace FeatherOS

open LinkedTree

/-
  The call returns and leaves a search tree with the tasks of
  the old one but for `p`, in the same order; the counters
  drop by one and by the weight of `p`.
-/
def DequeuesOne
    (fuel : Nat)
    (s : SchedState)
    (t : TaskTree)
    (p : Addr) : Prop :=
  ∃ s' t', cfsDequeue fuel s thisCpu p = some s' ∧
    s'.QueueTree t' ∧
    t'.nodes = t.nodes.filter (fun q => q ≠ p) ∧
    s'.thisRq.nrRunning = s.thisRq.nrRunning - 1#32 ∧
    s'.thisRq.loadWeight =
      s.thisRq.loadWeight - (s.task p).cfs.loadWeight

section Dequeue

variable {s s' : SchedState}
variable {t l r : TaskTree}
variable {c : TaskCtx}
variable {p : Addr}
variable {d : U64}
variable {fuel : Nat}

/- The key of a task belongs to its place in a search tree. -/
theorem SchedState.QueueTree.admits
    (hTree : s.QueueTree (c.plug (.node l p d r))) :
    Ctx.Admits keyLt keyLe c (s.task p).vruntime := by
  have hKey : (s.task p).vruntime = d :=
    congrArg Cell.data hTree.stored.cell_eq
  rw [hKey]
  exact ((ordered_plug_iff c _).mp hTree.ordered).2.2 d
    (by simp)

/- Whatever hangs below it, the task is found and taken out. -/
theorem cfsDequeue_tree
    (hTree : s.QueueTree (c.plug (.node l p d r)))
    (hFuel : (c.plug (.node l p d r)).size < fuel) :
    ∃ s', cfsDequeue fuel s thisCpu p = some s' ∧
      s'.QueueTree (c.plug (survivor l r)) ∧
      s'.thisRq.nrRunning = s.thisRq.nrRunning - 1#32 ∧
      s'.thisRq.loadWeight =
        s.thisRq.loadWeight - (s.task p).cfs.loadWeight := by
  rcases cfsDequeue_returns p hTree.stored hFuel with
    ⟨s', hCall⟩
  have hQ := hTree.queued p (Ctx.mem_plug_node c l r p d)
  have hStep := cfsDequeue_step hCall
  have hCounters := cfsDequeue_rq hCall
  rw [if_neg (by simp [hQ])] at hCounters
  have hEnd :=
    cfsDequeue_found hTree.stored hQ hTree.admits hCall
  have hStored : Stored s'.cell s'.thisRq.root
      (c.plug (survivor l r)) := by
    rw [hEnd]
    exact cfsLeave_stored (cfsUnlink_survivor hTree.stored)
  refine ⟨s', hCall, ⟨hStored, ?_, ?_⟩,
    congrArg CfsRq.nrRunning hCounters,
    congrArg CfsRq.loadWeight hCounters⟩
  · exact hTree.ordered.splice (survivor_cases l r)
  · intro q hq
    have hNe : q ≠ p := by
      rintro rfl
      exact not_mem_survivor hTree.stored.nodup hq
    rw [hStep.other q hNe]
    apply hTree.queued
    rw [Ctx.mem_plug_iff] at hq ⊢
    rcases hq with hOut | hIn
    · exact Or.inl hOut
    · right
      rcases survivor_cases l r with hSame | hSame
      · rw [hSame] at hIn
        simp [hIn]
      · rw [hSame] at hIn
        simp [hIn]

/- The surviving subtree has all the tasks but for lost ones. -/
theorem survivor_nodes_iff
    (l r : TaskTree) :
    (survivor l r).nodes = l.nodes ++ r.nodes ↔
      l = .nil ∨ r = .nil := by
  constructor
  · intro hNodes
    cases l with
    | nil => exact Or.inl rfl
    | node ll q dq lr =>
        -- the left subtree alone has as many tasks as both
        right
        have hLen := congrArg List.length hNodes
        rw [List.length_append, Tree.length_nodes,
          Tree.length_nodes, Tree.length_nodes] at hLen
        simp only [survivor] at hLen
        cases r with
        | nil => rfl
        | node rl q' dq' rr =>
            rw [Tree.size_node rl] at hLen
            omega
  · rintro (rfl | rfl)
    · rfl
    · cases l with
      | nil => rfl
      | node => simp [survivor]

/- The order of the other tasks, if none of them is lost. -/
theorem dequeued_nodes_iff
    (hTree : s.QueueTree (c.plug (.node l p d r))) :
    (c.plug (survivor l r)).nodes =
        (c.plug (.node l p d r)).nodes.filter
          (fun q => q ≠ p) ↔
      (s.task p).cfs.left = none ∨
        (s.task p).cfs.right = none := by
  have hCell := hTree.stored.cell_eq
  have hLeft : (s.task p).cfs.left = l.rootPtr :=
    congrArg Cell.left hCell
  have hRight : (s.task p).cfs.right = r.rootPtr :=
    congrArg Cell.right hCell
  rw [Ctx.filter_nodes_plug hTree.stored.nodup, Ctx.nodes_plug,
    List.append_left_inj, List.append_right_inj,
    survivor_nodes_iff, hLeft, hRight]
  constructor
  · rintro (rfl | rfl)
    · exact Or.inl rfl
    · exact Or.inr rfl
  · rintro (hNone | hNone)
    · exact Or.inl (Tree.eq_nil_of_rootPtr hNone)
    · exact Or.inr (Tree.eq_nil_of_rootPtr hNone)

/- Exactly one task goes if and only if no other is lost. -/
theorem dequeuesOne_iff_nodes
    (hTree : s.QueueTree (c.plug (.node l p d r)))
    (hFuel : (c.plug (.node l p d r)).size < fuel) :
    DequeuesOne fuel s (c.plug (.node l p d r)) p ↔
      (c.plug (survivor l r)).nodes =
        (c.plug (.node l p d r)).nodes.filter
          (fun q => q ≠ p) := by
  rcases cfsDequeue_tree hTree hFuel with
    ⟨s₁, hCall₁, hTree₁, hCount₁, hLoad₁⟩
  constructor
  · rintro ⟨s', t', hCall, hTree', hSame, _⟩
    rw [hCall₁] at hCall
    cases hCall
    rw [hTree₁.stored.unique hTree'.stored]
    exact hSame
  · intro hSame
    exact ⟨s₁, _, hCall₁, hTree₁, hSame, hCount₁, hLoad₁⟩

/-
  From a search tree exactly the task is taken out if and only
  if it has at most one child.
-/
theorem cfsDequeue_dequeuesOne_iff
    (hTree : s.QueueTree t)
    (hMem : p ∈ t.nodes)
    (hFuel : t.size < fuel) :
    DequeuesOne fuel s t p ↔
      (s.task p).cfs.left = none ∨
        (s.task p).cfs.right = none := by
  rcases Tree.exists_plug_of_mem hMem with ⟨c, l, d, r, rfl⟩
  rw [dequeuesOne_iff_nodes hTree hFuel,
    dequeued_nodes_iff hTree]

end Dequeue

/- Three tasks, the first of them above the other two. -/
theorem exists_threeTasks :
    ∃ s t, cfsEnqueueAll 3 SchedState.byAddress threeTasks =
        some s ∧
      s.QueueTree t ∧ (∀ p, p ∈ t.nodes ↔ p ∈ threeTasks) ∧
      t.size = 3 ∧
      (s.task (taskAt 1)).cfs.left = some (taskAt 0) ∧
      (s.task (taskAt 1)).cfs.right = some (taskAt 2) := by
  have hNodup : threeTasks.Nodup := by decide
  rcases SchedState.byAddress_none.enqueueAll hNodup
      (Nat.le_refl 3) with
    ⟨s, t, hCall, hEnq⟩
  have hLinks :
      (cfsEnqueueAll 3 SchedState.byAddress threeTasks).map
          (fun s => ((s.task (taskAt 1)).cfs.left,
            (s.task (taskAt 1)).cfs.right)) =
        some (some (taskAt 0), some (taskAt 2)) := by
    decide
  rw [hCall] at hLinks
  simp only [Option.map_some, Option.some.injEq,
    Prod.mk.injEq] at hLinks
  refine ⟨s, t, hCall, hEnq.tree,
    fun p => hEnq.sorted.mem_iff, ?_, hLinks⟩
  rw [← Tree.length_nodes, hEnq.sorted.perm.length_eq]
  rfl

theorem cfsDequeue_dequeuesOne_iff_three :
    ∃ s t, cfsEnqueueAll 3 SchedState.byAddress threeTasks =
        some s ∧
      (DequeuesOne 4 s t (taskAt 2) ↔
        (s.task (taskAt 2)).cfs.left = none ∨
          (s.task (taskAt 2)).cfs.right = none) := by
  rcases exists_threeTasks with
    ⟨s, t, hCall, hTree, hMem, hSize, _⟩
  exact ⟨s, t, hCall, cfsDequeue_dequeuesOne_iff hTree
    ((hMem (taskAt 2)).mpr (by decide)) (by omega)⟩

/- Taking out the task above the others loses the third. -/
theorem dequeued_subtree_lost :
    ¬ ∀ (s : SchedState) (t : TaskTree) (p : Addr)
      (fuel : Nat), s.QueueTree t → p ∈ t.nodes →
        t.size < fuel → DequeuesOne fuel s t p := by
  intro hAll
  rcases exists_threeTasks with
    ⟨s, t, _, hTree, hMem, hSize, hLeft, hRight⟩
  have hOne := hAll s t (taskAt 1) 4 hTree
    ((hMem (taskAt 1)).mpr (by decide))
    (by omega)
  rcases Tree.exists_plug_of_mem
      ((hMem (taskAt 1)).mpr (by decide)) with
    ⟨c, l, d, r, rfl⟩
  rw [dequeuesOne_iff_nodes hTree (by omega),
    dequeued_nodes_iff hTree, hLeft, hRight] at hOne
  rcases hOne with hNone | hNone
  · cases hNone
  · cases hNone

end FeatherOS
