import FeatherOS.Library.StableSort
import FeatherOS.Sched.Descents

/-
  Enqueuing tasks one after another sorts them.

  A task goes behind all tasks whose `vruntime` is not
  greater, so the tree of a queue that was empty holds the
  stable sort of the tasks that came, and its leftmost task
  is the first of them. The counters are words of 32 and 64
  bits and count modulo their size.

  Key definitions include:
    * `SchedState.QueueTree`
    * `cfsEnqueueAll`
    * `Enqueued`

  Key theorems include:
    * `Enqueued.step`
    * `cfsEnqueueAll_sorted`
-/

namespace FeatherOS

open LinkedTree

--------------------
-- Tasks In A Queue
--------------------

/-
  The run queue holds a search tree on `vruntime` with
  consistent links, and its tasks name the queue.
-/
structure SchedState.QueueTree
    (s : SchedState)
    (t : TaskTree) : Prop where
  stored : Stored s.cell s.thisRq.root t
  ordered : t.Ordered keyLt keyLe
  queued : ∀ p ∈ t.nodes, (s.task p).cfs.myQ = some thisCpu

/- An empty run queue. -/
structure SchedState.NoneQueued
    (s : SchedState) : Prop where
  root : s.thisRq.root = none
  nrRunning : s.thisRq.nrRunning = 0#32
  loadWeight : s.thisRq.loadWeight = 0#64

/- `cfs_enqueue` for one task after another. -/
def cfsEnqueueAll
    (fuel : Nat)
    (s : SchedState) :
    List Addr → Option SchedState
| [] => some s
| p :: ps => do
    let s ← cfsEnqueue fuel s thisCpu p
    cfsEnqueueAll fuel s ps

/- The weights of tasks. -/
def SchedState.weightOf
    (s : SchedState)
    (ps : List Addr) : Nat :=
  (ps.map fun p => (s.task p).cfs.loadWeight.toNat).sum

/- What enqueuing the tasks `ps` has made of the state `s₀`. -/
structure Enqueued
    (s₀ : SchedState)
    (ps : List Addr)
    (s : SchedState)
    (t : TaskTree) : Prop where
  tree : s.QueueTree t
  sorted : StableSort
    (fun p => (s₀.task p).vruntime.toNat) ps t.nodes
  vruntime : ∀ p, (s.task p).vruntime = (s₀.task p).vruntime
  weight : ∀ p,
    (s.task p).cfs.loadWeight = (s₀.task p).cfs.loadWeight
  nrRunning : s.thisRq.nrRunning = BitVec.ofNat 32 ps.length
  loadWeight :
    s.thisRq.loadWeight = BitVec.ofNat 64 (s₀.weightOf ps)

section Enqueue

variable {s₀ s s' : SchedState}
variable {t : TaskTree}
variable {c : TaskCtx}
variable {ps : List Addr}
variable {p : Addr}
variable {fuel : Nat}

theorem SchedState.NoneQueued.enqueued
    (hNone : s.NoneQueued) :
    Enqueued s [] s .nil where
  tree :=
    { stored := ⟨trivial, hNone.root, by simp⟩
      ordered := trivial
      queued := by simp }
  sorted := .nil _
  vruntime _ := rfl
  weight _ := rfl
  nrRunning := hNone.nrRunning
  loadWeight := hNone.loadWeight

theorem keyLt_of_lt_of_le
    (a b d : U64)
    (hLt : keyLt a b)
    (hLe : keyLe b d) :
    keyLt a d := by
  rw [keyLt, BitVec.lt_def] at *
  rw [keyLe, BitVec.le_def] at hLe
  omega

/- A leaf where there is room for it sorts one task more. -/
theorem sorted_attach
    (hStored : Stored s.cell s.thisRq.root (c.plug .nil))
    (hOrd : (c.plug .nil : TaskTree).Ordered keyLt keyLe)
    (hRoom : Ctx.Admits keyLt keyLe c (s.task p).vruntime)
    (hSorted : StableSort
      (fun q => (s.task q).vruntime.toNat) ps
        (c.plug .nil : TaskTree).nodes) :
    StableSort (fun q => (s.task q).vruntime.toNat) (ps ++ [p])
      (c.plug (.node .nil p (s.task p).vruntime .nil)).nodes := by
  have hData : ∀ e ∈ (c.plug .nil : TaskTree).entries,
      (s.task e.1).vruntime = e.2 :=
    fun e he => hStored.rep.data_of_mem he
  rw [Ctx.entries_plug, Tree.entries_nil, List.append_nil]
    at hData
  rw [Ctx.nodes_plug, Tree.nodes_nil, List.append_nil] at hSorted
  rcases Ctx.Ordered.around keyLt_of_lt_of_le
      (fun a b d h h' =>
        BitVec.le_of_lt (keyLt_of_lt_of_le a b d h h'))
      ((ordered_plug_iff c .nil).mp hOrd).1 hRoom with
    ⟨hBefore, hAfter⟩
  rw [Ctx.nodes_plug, Tree.nodes_node, Tree.nodes_nil,
    List.nil_append, List.append_assoc, List.singleton_append]
  apply hSorted.concat
  · intro q hq
    rcases List.mem_map.mp hq with ⟨e, he, rfl⟩
    have hKey := hData e (List.mem_append_left _ he)
    have hLe := hBefore e he
    rw [← hKey, keyLe, BitVec.le_def] at hLe
    exact hLe
  · intro q hq
    rcases List.mem_map.mp hq with ⟨e, he, rfl⟩
    have hKey := hData e (List.mem_append_right _ he)
    have hLt := hAfter e he
    rw [← hKey, keyLt, BitVec.lt_def] at hLt
    exact hLt

/- One more task is enqueued. -/
theorem Enqueued.step
    (hEnq : Enqueued s₀ ps s t)
    (hNew : p ∉ ps)
    (hFuel : ps.length < fuel) :
    ∃ s' t', cfsEnqueue fuel s thisCpu p = some s' ∧
      Enqueued s₀ (ps ++ [p]) s' t' := by
  have hOut : p ∉ t.nodes := fun hp =>
    hNew (hEnq.sorted.mem_iff.mp hp)
  have hSize : t.size = ps.length := by
    rw [← Tree.length_nodes, hEnq.sorted.perm.length_eq]
  rcases cfsEnqueue_returns p hEnq.tree.stored
      (hSize ▸ hFuel) with
    ⟨s', hCall⟩
  have hStep := cfsEnqueue_step hCall
  have hCounters := cfsEnqueue_rq hCall
  rcases cfsEnqueue_stored hEnq.tree.stored hOut hCall with
    ⟨c, rfl, hRoom, hStored⟩
  have hSorted := hEnq.sorted
  simp only [← hEnq.vruntime] at hSorted
  refine ⟨s', _, hCall, ⟨hStored, ?_, ?_⟩, ?_, ?_, ?_, ?_, ?_⟩
  · exact hEnq.tree.ordered.attach hRoom
  · intro q hq
    by_cases hqp : q = p
    · subst hqp
      exact hStep.self
    · rw [hStep.other q hqp]
      apply hEnq.tree.queued
      rw [Ctx.mem_plug_iff] at hq ⊢
      simpa [hqp] using hq
  · have hMore := sorted_attach hEnq.tree.stored
      hEnq.tree.ordered hRoom hSorted
    simp only [hEnq.vruntime] at hMore
    simp only [hEnq.vruntime]
    exact hMore
  · intro q
    rw [hStep.vruntime, hEnq.vruntime]
  · intro q
    rw [hStep.loadWeight, hEnq.weight]
  · have hCount := congrArg CfsRq.nrRunning hCounters
    have hOne : s'.thisRq.nrRunning =
        s.thisRq.nrRunning + 1#32 := hCount
    rw [hOne, hEnq.nrRunning, List.length_append,
      BitVec.ofNat_add]
    rfl
  · have hLoad := congrArg CfsRq.loadWeight hCounters
    have hMore : s'.thisRq.loadWeight =
        s.thisRq.loadWeight + (s.task p).cfs.loadWeight := hLoad
    rw [hMore, hEnq.loadWeight, hEnq.weight]
    simp [SchedState.weightOf, BitVec.ofNat_add]

/- All tasks are enqueued; `done` are those that were before. -/
theorem Enqueued.all
    {done : List Addr}
    (hEnq : Enqueued s₀ done s t)
    (hNodup : (done ++ ps).Nodup)
    (hFuel : (done ++ ps).length ≤ fuel) :
    ∃ s' t', cfsEnqueueAll fuel s ps = some s' ∧
      Enqueued s₀ (done ++ ps) s' t' := by
  induction ps generalizing done s t with
  | nil =>
      rw [List.append_nil]
      exact ⟨s, t, rfl, hEnq⟩
  | cons p ps ih =>
      have hNew : p ∉ done := by
        intro hp
        rw [List.nodup_append] at hNodup
        exact hNodup.2.2 p hp p (by simp) rfl
      have hRoom : done.length < fuel := by
        rw [List.length_append, List.length_cons] at hFuel
        omega
      rcases hEnq.step hNew hRoom with ⟨s₁, t₁, hCall, hEnq₁⟩
      have hSplit : done ++ p :: ps = (done ++ [p]) ++ ps := by
        simp
      rw [hSplit] at hNodup hFuel ⊢
      rcases ih hEnq₁ hNodup hFuel with ⟨s', t', hRest, hAll⟩
      exact ⟨s', t', by simp [cfsEnqueueAll, hCall, hRest], hAll⟩

theorem SchedState.NoneQueued.enqueueAll
    (hNone : s.NoneQueued)
    (hNodup : ps.Nodup)
    (hFuel : ps.length ≤ fuel) :
    ∃ s' t, cfsEnqueueAll fuel s ps = some s' ∧
      Enqueued s ps s' t := by
  exact hNone.enqueued.all hNodup hFuel

/-
  Any tasks, enqueued one after another into an empty queue,
  stand in its tree in the order of a stable sort by
  `vruntime`, and the first of them is picked. The counters
  are their number and weight as far as the words can hold
  them.
-/
theorem cfsEnqueueAll_sorted
    (hNone : s.NoneQueued)
    (hNodup : ps.Nodup)
    (hFuel : ps.length ≤ fuel) :
    ∃ s' t, cfsEnqueueAll fuel s ps = some s' ∧
      s'.QueueTree t ∧
      t.nodes = ps.mergeSort (fun p q =>
        decide ((s.task p).vruntime ≤ (s.task q).vruntime)) ∧
      pickNextCfs fuel s' thisCpu = some t.nodes.head? ∧
      s'.thisRq.nrRunning.toNat = ps.length % 2 ^ 32 ∧
      s'.thisRq.loadWeight.toNat = s.weightOf ps % 2 ^ 64 := by
  rcases hNone.enqueueAll hNodup hFuel with
    ⟨s', t, hCall, hEnq⟩
  have hSize : t.size = ps.length := by
    rw [← Tree.length_nodes, hEnq.sorted.perm.length_eq]
  refine ⟨s', t, hCall, hEnq.tree, ?_, ?_, ?_, ?_⟩
  · rw [hEnq.sorted.eq_mergeSort]
    simp only [BitVec.le_def]
  · exact pickNextCfs_head hEnq.tree.stored (hSize ▸ hFuel)
  · rw [hEnq.nrRunning, BitVec.toNat_ofNat]
  · rw [hEnq.loadWeight, BitVec.toNat_ofNat]

end Enqueue

/- Nothing is queued; the `vruntime` of a task is its address. -/
def SchedState.byAddress : SchedState :=
  SchedState.boot
    (ProcState.boot fun p => { Task.zero with vruntime := p })
    (fun _ => ⟨none, none⟩) Heap.initial

theorem SchedState.byAddress_none :
    SchedState.byAddress.NoneQueued :=
  ⟨rfl, rfl, rfl⟩

/- The tasks of an array of task_struct. -/
def taskAt (i : Nat) : Addr :=
  BitVec.ofNat 64 (1256 * (i + 1))

def threeTasks : List Addr :=
  [taskAt 1, taskAt 0, taskAt 2]

theorem cfsEnqueueAll_sorted_three :
    ∃ s t, cfsEnqueueAll 3 SchedState.byAddress threeTasks =
        some s ∧
      s.QueueTree t ∧
      t.nodes = threeTasks.mergeSort (fun p q =>
        decide ((SchedState.byAddress.task p).vruntime ≤
          (SchedState.byAddress.task q).vruntime)) ∧
      pickNextCfs 3 s thisCpu = some t.nodes.head? ∧
      s.thisRq.nrRunning.toNat = 3 % 2 ^ 32 ∧
      s.thisRq.loadWeight.toNat =
        SchedState.byAddress.weightOf threeTasks % 2 ^ 64 :=
  cfsEnqueueAll_sorted SchedState.byAddress_none (by decide)
    (by decide)

theorem toNat_taskAt
    {i : Nat}
    (hi : i < 2 ^ 32) :
    (taskAt i).toNat = 1256 * (i + 1) := by
  rw [taskAt, BitVec.toNat_ofNat]
  apply Nat.mod_eq_of_lt
  omega

theorem tasks_nodup
    {n : Nat}
    (hFit : n ≤ 2 ^ 32) :
    ((List.range n).map taskAt).Nodup := by
  refine List.nodup_range.map_on ?_
  intro i hi j hj hEq
  have hNat :=
    toNat_taskAt ((List.mem_range.mp hi).trans_le hFit)
  rw [hEq, toNat_taskAt ((List.mem_range.mp hj).trans_le hFit)]
    at hNat
  omega

/- A queue of 2^32 tasks counts none. -/
theorem nrRunning_wraps :
    ¬ ∀ (s : SchedState) (ps : List Addr) (fuel : Nat),
      s.NoneQueued → ps.Nodup →
      (∀ p ∈ ps, (s.task p).cfs.myQ = none) →
      ps.length ≤ fuel →
        ∃ s', cfsEnqueueAll fuel s ps = some s' ∧
          s'.thisRq.nrRunning.toNat = ps.length ∧
          s'.thisRq.loadWeight.toNat = s.weightOf ps := by
  intro hAll
  have hNodup := tasks_nodup (Nat.le_refl (2 ^ 32))
  have hNone := SchedState.byAddress_none
  rcases hAll SchedState.byAddress _ _ hNone hNodup
      (fun _ _ => rfl) (Nat.le_refl _) with
    ⟨s', hCall, hCount, _⟩
  rcases hNone.enqueueAll hNodup (Nat.le_refl _) with
    ⟨s₁, t, hCall₁, hEnq⟩
  rw [hCall] at hCall₁
  cases hCall₁
  rw [hEnq.nrRunning, List.length_map, List.length_range,
    BitVec.toNat_ofNat, Nat.mod_self] at hCount
  omega

end FeatherOS
