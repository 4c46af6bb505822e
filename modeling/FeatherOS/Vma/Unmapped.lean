import FeatherOS.Vma.Walks

/-
  What `vma_munmap` leaves of a tree of disjoint areas.

  The loop takes out the area at the start of the range and
  stops there: the search for the next one only finds areas
  that cover the start. A range that begins in a gap is not
  looked at, an area that is cut is taken out as a whole, and
  the walk to the successor may change which node is erased.

  Key definitions include:
    * `Unmapped`
    * `MunmapFits`

  Key theorems include:
    * `vmaRbErase_stored`
    * `vmaMunmap_iff_fits`
    * `vmaMunmap_gap_not_unmapped`
-/

namespace FeatherOS

open LinkedTree

--------------------
-- Erasing From A Stored Tree
--------------------

/- Two children, and the right one has no left child. -/
def DirectHeir (l r : AreaTree) : Prop :=
  l ≠ .nil ∧ ∃ x dx e, r = .node .nil x dx e

/- One area is missing. -/
def LeavesOut
    (t t' : AreaTree)
    (a : Addr) : Prop :=
  ∃ xs ys v, areas t = xs ++ (a, v) :: ys ∧
    areas t' = xs ++ ys

variable {x : Addr}
variable {e : AreaTree}
variable {dx : Color × Vma}

section Erase

variable {m : VmaRbTree}
variable {c : AreaCtx}
variable {t t' l r : AreaTree}
variable {a : Addr}
variable {d : Color × Vma}
variable {fuel : Nat}

theorem LeavesOut.sublist
    (hOut : LeavesOut t t' a) :
    (areas t').Sublist (areas t) := by
  rcases hOut with ⟨xs, ys, v, hAreas, hAreas'⟩
  rw [hAreas, hAreas']
  exact (List.sublist_cons_self _ _).append_left xs

theorem LeavesOut.mem_areas
    (hNodup : t.nodes.Nodup)
    (hOut : LeavesOut t t' a)
    (e : Addr × Vma) :
    e ∈ areas t' ↔ e ∈ areas t ∧ e.1 ≠ a := by
  rcases hOut with ⟨xs, ys, v, hAreas, hAreas'⟩
  rw [← map_fst_areas, hAreas] at hNodup
  rw [hAreas, hAreas']
  simp only [List.map_append, List.map_cons,
    List.nodup_append, List.nodup_cons, List.mem_cons,
    List.mem_append, List.mem_map] at hNodup ⊢
  constructor
  · rintro (he | he)
    · exact ⟨Or.inl he, fun hea =>
        hNodup.2.2 e.1 ⟨e, he, rfl⟩ a (Or.inl rfl) hea⟩
    · exact ⟨Or.inr (Or.inr he), fun hea =>
        hNodup.2.1.1 ⟨e, he, hea⟩⟩
  · rintro ⟨he | rfl | he, hea⟩
    · exact Or.inl he
    · exact absurd rfl hea
    · exact Or.inr he

theorem LeavesOut.mem_nodes
    (hNodup : t.nodes.Nodup)
    (hOut : LeavesOut t t' a)
    (z : Addr) :
    z ∈ t'.nodes ↔ z ∈ t.nodes ∧ z ≠ a := by
  rw [← map_fst_areas, ← map_fst_areas, List.mem_map,
    List.mem_map]
  constructor
  · rintro ⟨e, he, rfl⟩
    have hMem := (hOut.mem_areas hNodup e).mp he
    exact ⟨⟨e, hMem.1, rfl⟩, hMem.2⟩
  · rintro ⟨⟨e, he, rfl⟩, hea⟩
    exact ⟨e, (hOut.mem_areas hNodup e).mpr ⟨he, hea⟩, rfl⟩

/- A subtree that lost its root node, in its context. -/
theorem leavesOut_plug
    {s : AreaTree}
    (hAreas : areas s = areas l ++ areas r) :
    LeavesOut (c.plug (.node l a d r)) (c.plug s) a := by
  refine ⟨c.before.map (fun e => (e.1, e.2.2)) ++ areas l,
    areas r ++ c.after.map (fun e => (e.1, e.2.2)), d.2, ?_, ?_⟩
  · simp [areas_plug]
  · simp [areas_plug, hAreas]

theorem VmaRbTree.In.of_holds
    (hHolds : m.Holds t')
    (hNodup : t.nodes.Nodup)
    (hOut : LeavesOut t t' a) :
    m.In fun z => z ∈ t.nodes ∧ z ≠ a := by
  have hClosed : m.In fun z => z ∈ t'.nodes :=
    Stored.closed hHolds
  simpa only [hOut.mem_nodes hNodup] using hClosed

/-
  The heir is its own right child, so the memory holds no
  tree; still no pointer leads to the erased node.
-/
theorem heir_stored
    {m' : VmaRbTree}
    (hHolds : m.Holds
      (c.plug (.node l a d (.node .nil x dx e))))
    (hFixed :
      ((m'.setRight x e.rootPtr).setParent x
        c.parentPtr).Holds
          (c.plug (.node l x (d.1, dx.2) e)))
    (hRight : (m'.cell x).right = some x)
    (hParent : (m'.cell x).parent = some x) :
    m'.In (fun z =>
        z ∈ (c.plug (.node l a d
          (.node .nil x dx e))).nodes ∧ z ≠ a) ∧
      ∀ t', ¬ m'.Holds t' := by
  have hOut :
      LeavesOut (c.plug (.node l a d (.node .nil x dx e)))
        (c.plug (.node l x (d.1, dx.2) e)) a := by
    apply leavesOut_plug
    simp
  have hIn :=
    VmaRbTree.In.of_holds hFixed hHolds.nodup hOut
  have hOther : ∀ q, q ≠ x →
      ((m'.setRight x e.rootPtr).setParent x
        c.parentPtr).cell q = m'.cell q := by
    intro q hq
    simp [hq]
  have hx := (hOut.mem_nodes hHolds.nodup x).mp
    (Ctx.mem_plug_node _ _ _ x _)
  constructor
  · refine VmaRbTree.In.of_cells hIn.root_in fun q hq => ?_
    by_cases hqx : q = x
    · subst hqx
      have hLeft := hIn.left_in q hq
      rw [VmaRbTree.cell_setParent, if_pos rfl,
        VmaRbTree.cell_setRight, if_pos rfl] at hLeft
      rw [hRight, hParent]
      exact ⟨hLeft, within_some.mpr hq, within_some.mpr hq⟩
    · rw [← hOther q hqx]
      exact ⟨hIn.left_in q hq, hIn.right_in q hq,
        hIn.parent_in q hq⟩
  · intro t' hHolds'
    have hCtx := ((rep_plug_iff c _).mp hFixed.rep).1
    have hNodup := hFixed.nodup
    rw [Ctx.nodup_plug_iff] at hNodup
    have hCtx' : RepCtx m'.cell (some x) c := by
      refine hCtx.congr fun q hq => (hOther q ?_).symm
      rintro rfl
      exact hNodup.2.2 q hq (by simp)
    have hRoot : m'.root =
        (c.plug (.node .nil x d .nil)).rootPtr := by
      have hTop := hFixed.root_eq
      rw [VmaRbTree.root_setParent,
        VmaRbTree.root_setRight] at hTop
      rw [hTop]
      exact Ctx.rootPtr_plug_congr c rfl
    exact hHolds'.not_loop
      (hHolds'.mem_of_repCtx hCtx' hRoot) hRight

/-
  Erasing a node of a stored tree: no pointer leads to it any
  more, and the memory holds the tree without it unless its
  right child is its heir.
-/
theorem vmaRbErase_stored
    (hHolds : m.Holds (c.plug (.node l a d r)))
    (hFuel : r.size < fuel) :
    ∃ m', vmaRbErase fuel m a = some m' ∧
      m'.In (fun z =>
        z ∈ (c.plug (.node l a d r)).nodes ∧ z ≠ a) ∧
      (¬ DirectHeir l r → ∃ t', m'.Holds t' ∧
        LeavesOut (c.plug (.node l a d r)) t' a) ∧
      (DirectHeir l r → ∀ t', ¬ m'.Holds t') := by
  have hRep := ((rep_plug_iff c _).mp hHolds.rep).2
  rcases rep_links hRep with ⟨hLeft, hRight, _, _⟩
  have hSplice : ∀ {s : AreaTree},
      (s = l ∧ r = .nil ∨ s = r ∧ l = .nil) →
        ∃ m', some (vmaRbSplice m a) = some m' ∧
          m'.In (fun z =>
            z ∈ (c.plug (.node l a d r)).nodes ∧ z ≠ a) ∧
          (¬ DirectHeir l r → ∃ t', m'.Holds t' ∧
            LeavesOut (c.plug (.node l a d r)) t' a) ∧
          (DirectHeir l r → ∀ t', ¬ m'.Holds t') := by
    intro s hs
    have hHolds' := vmaRbSplice_blackens hHolds hs
    have hOut :
        LeavesOut (c.plug (.node l a d r))
          (c.plug (blackenRoot s)) a := by
      apply leavesOut_plug
      rcases hs with ⟨rfl, rfl⟩ | ⟨rfl, rfl⟩
      · simp
      · simp
    refine ⟨_, rfl,
      VmaRbTree.In.of_holds hHolds' hHolds.nodup hOut,
      fun _ => ⟨_, hHolds', hOut⟩, ?_⟩
    rintro ⟨hl, x, dx, e, hr⟩
    rcases hs with ⟨_, hNil⟩ | ⟨_, hNil⟩
    · rw [hr] at hNil
      cases hNil
    · exact absurd hNil hl
  unfold vmaRbErase
  rw [hLeft, hRight]
  cases l with
  | nil => exact hSplice (Or.inr ⟨rfl, rfl⟩)
  | node ll lp ld lr =>
      cases r with
      | nil => exact hSplice (Or.inl ⟨rfl, rfl⟩)
      | node rl rp rd rr =>
          have hFuel' : rl.size < fuel := by
            simp only [Tree.size, Tree.entries_node,
              List.length_append, List.length_cons] at hFuel ⊢
            omega
          rcases vmaRbMin_spec hRep.2.2 hFuel' with
            ⟨c', x, dx, e, hPlug, hLeftmost, hMin⟩
          simp only [Tree.rootPtr_node, hMin,
            Option.bind_eq_bind, Option.bind_some]
          rw [hPlug] at hHolds ⊢
          refine ⟨_, rfl, ?_⟩
          cases c' with
          | nil =>
              rcases vmaRbTakeOver_loop hHolds with
                ⟨hFixed, hRight', hParent'⟩
              have hHeir :=
                heir_stored hHolds hFixed hRight' hParent'
              refine ⟨hHeir.1, ?_, fun _ => hHeir.2⟩
              intro hNot
              exact absurd
                ⟨by simp, x, dx, e, rfl⟩ hNot
          | cons f c' =>
              rcases hLeftmost f (by simp) with
                ⟨q, dq, rq, rfl⟩
              have hHolds' := vmaRbTakeOver_holds hHolds
              have hOut :
                  LeavesOut
                    (c.plug (.node (.node ll lp ld lr) a d
                      (Ctx.plug (.left q dq rq :: c')
                        (.node .nil x dx e))))
                    (c.plug (.node (.node ll lp ld lr) x
                      (d.1, dx.2)
                      (Ctx.plug (.left q dq rq :: c') e))) a := by
                apply leavesOut_plug
                rw [areas_node, areas_plug, areas_plug,
                  hLeftmost.before_eq]
                simp
              refine ⟨VmaRbTree.In.of_holds hHolds'
                hHolds.nodup hOut, fun _ => ⟨_, hHolds', hOut⟩,
                ?_⟩
              rintro ⟨_, x', dx', e', hEq⟩
              rcases hLeftmost.left_ne_nil
                  (t := .node .nil x dx e) (by simp) with
                ⟨l', p', d', r', hNode, hNe⟩
              rw [hNode] at hEq
              cases hEq
              exact absurd rfl hNe

end Erase

--------------------
-- What Is Left Of A Range
--------------------

/- The area and the range share an address. -/
def Vma.meets
    (v : Vma)
    (start stop : U64) : Bool :=
  decide (v.start < v.endAddr ∧ start < stop ∧
    v.start < stop ∧ start < v.endAddr)

variable {v : Vma}

theorem Vma.meets_iff
    {start stop : U64} :
    v.meets start stop = true ↔
      ∃ addr : U64, v.covers addr = true ∧
        start ≤ addr ∧ addr < stop := by
  simp only [Vma.meets, decide_eq_true_eq, Vma.covers_iff,
    BitVec.lt_def, BitVec.le_def]
  constructor
  · rintro ⟨hArea, hRange, hBelow, hAbove⟩
    by_cases hLe : v.start.toNat ≤ start.toNat
    · exact ⟨start, ⟨hLe, hAbove⟩, Nat.le_refl _, hRange⟩
    · exact ⟨v.start, ⟨Nat.le_refl _, hArea⟩, by omega, hBelow⟩
  · rintro ⟨addr, ⟨hStart, hEnd⟩, hFrom, hTo⟩
    omega

/-
  The range is covered by nothing, the rest as before, and
  the result and the count are right.
-/
structure Unmapped
    (t t' : AreaTree)
    (start stop : U64)
    (count : U32)
    (result : Int) : Prop where
  clear : ∀ e ∈ areas t', ∀ addr : U64,
    start ≤ addr → addr < stop → e.2.covers addr = false
  keep : ∀ addr : U64, addr < start ∨ stop ≤ addr →
    ((∃ e ∈ areas t', e.2.covers addr = true) ↔
      ∃ e ∈ areas t, e.2.covers addr = true)
  result_eq : result =
    (areas t).countP fun e => e.2.meets start stop
  count_eq : count.toNat = t'.size

/- The call returns and leaves a tree as it should be. -/
def Unmaps
    (s : MmapState)
    (t : AreaTree)
    (manager : Addr)
    (addr length : U64) : Prop :=
  ∃ fuel result s' t',
    vmaMunmap fuel s (some manager) addr length =
        some (result, s') ∧
      s'.vma.tree.Holds t' ∧
      Unmapped t t' (munmapStart addr)
        (munmapStop addr length) s'.vma.count result

/-
  What the loop can take out: one area that lies in the range
  from its first address on and is alone there. If its node
  has no right child it must not be one itself, or the walk
  to the successor ends at another node.
-/
structure TakesOut
    (c : AreaCtx)
    (l : AreaTree)
    (p : Addr)
    (d : Color × Vma)
    (r : AreaTree)
    (start stop : U64) : Prop where
  start_eq : d.2.start = start
  nonempty : start < d.2.endAddr
  inside : d.2.endAddr ≤ stop
  alone : ∀ e ∈ areas (c.plug (.node l p d r)), e.1 ≠ p →
    e.2.meets start stop = false
  climb : r = .nil →
    ∀ l' q d' rest, c ≠ .right l' q d' :: rest
  heir : ¬ DirectHeir l r

/- The requests that are served as they should be. -/
def MunmapFits
    (t : AreaTree)
    (start stop : U64) : Prop :=
  (∀ e ∈ areas t, e.2.covers start = false ∧
      e.2.meets start stop = false) ∨
    (start = stop ∧
      ∃ e ∈ areas t, e.2.covers start = true ∧
        e.2.start = start) ∨
    ∃ c l p d r, t = c.plug (.node l p d r) ∧
      TakesOut c l p d r start stop

/- A sum that does not wrap is rounded to a later page. -/
theorem munmap_bounds
    {addr length : U64}
    (hNoWrap : addr.toNat + length.toNat + 4095 < 2 ^ 64) :
    (munmapStart addr).toNat ≤
        (munmapStop addr length).toNat ∧
      (munmapStop addr length).toNat + 4096 ≤ 2 ^ 64 := by
  have hStart : (munmapStart addr).toNat =
      addr.toNat / 2 ^ 12 * 2 ^ 12 :=
    Words.toNat_and_not_low addr 12
  have hStop : (munmapStop addr length).toNat =
      (addr + length + pageSize - 1#64).toNat / 2 ^ 12 *
        2 ^ 12 :=
    Words.toNat_and_not_low _ 12
  have hSum : (addr + length + pageSize - 1#64).toNat =
      addr.toNat + length.toNat + 4095 := by
    have hSize : pageSize.toNat = 4096 := rfl
    rw [BitVec.toNat_sub, BitVec.toNat_add, BitVec.toNat_add,
      hSize]
    simp only [BitVec.toNat_ofNat]
    omega
  rw [hStart, hStop, hSum]
  omega

/- The pages of a range below the last one. -/
theorem unmapPages_returns
    {stop : U64}
    (hStop : stop.toNat + 4096 ≤ 2 ^ 64)
    (fuel : Nat)
    (tables : PageTables)
    (a : U64)
    (hFuel : stop.toNat < a.toNat + fuel)
    (hPos : 0 < fuel) :
    ∃ tables', unmapPages stop fuel tables a =
      some tables' := by
  induction fuel generalizing tables a with
  | zero => omega
  | succ fuel ih =>
      unfold unmapPages
      by_cases hLt : a < stop
      · rw [if_pos hLt]
        rw [BitVec.lt_def] at hLt
        have hNext : (a + pageSize).toNat = a.toNat + 4096 := by
          have hSize : pageSize.toNat = 4096 := rfl
          rw [BitVec.toNat_add, hSize]
          omega
        exact ih _ _ (by omega) (by omega)
      · rw [if_neg hLt]
        exact ⟨tables, rfl⟩

--------------------
-- One Turn
--------------------

variable {turns : Nat}

section Turn

variable {fuel : Nat}
variable {s s' : MmapState}
variable {manager : Addr}
variable {start stop : U64}
variable {node : Addr}
variable {next : Option Addr}

/- What one turn does, when it comes to an end. -/
theorem munmapTurn_cases
    (hTurn : munmapTurn fuel s (some manager) start stop node =
      some (s', next)) :
    ∃ a after,
      vmaRbNext fuel s.vma.tree node = some (a, after) ∧
        vmaRbErase fuel s.vma.tree a = some s'.vma.tree ∧
        (after = none ∧ next = none ∨
          ∃ x, after = some x ∧
            vmaRbFind s'.vma.tree start fuel none (some x) =
              some next) ∧
        s'.vma.count = s.vma.count - 1 := by
  unfold munmapTurn at hTurn
  simp only [Option.bind_eq_bind, Option.bind_eq_some_iff,
    Option.bind_some] at hTurn
  rcases hTurn with
    ⟨tables, _, ⟨a, after⟩, hNext, tree, hErase, hRes⟩
  cases after with
  | none =>
      cases hRes
      exact ⟨a, none, hNext, hErase, Or.inl ⟨rfl, rfl⟩, rfl⟩
  | some x =>
      rcases Option.bind_eq_some_iff.mp hRes with
        ⟨found, hFind, hRes⟩
      cases hRes
      exact ⟨a, some x, hNext, hErase, Or.inr ⟨x, rfl, hFind⟩,
        rfl⟩

variable {N : Addr → Prop}

/- A turn stays in a closed set of nodes. -/
theorem munmapTurn_within
    (hTurn : munmapTurn fuel s (some manager) start stop node =
      some (s', next))
    (hIn : s.vma.tree.In N)
    (hNode : N node) :
    s'.vma.tree.In N ∧ Within N next := by
  rcases munmapTurn_cases hTurn with
    ⟨a, after, hNext, hErase, hFind, _⟩
  have hBoth := vmaRbNext_within hIn hNode hNext
  have hIn' := vmaRbErase_within hIn hBoth.1 hErase
  refine ⟨hIn', ?_⟩
  rcases hFind with ⟨_, rfl⟩ | ⟨x, rfl, hFind⟩
  · exact within_none
  · exact vmaRbFind_within hIn' within_none hBoth.2 hFind

/-
  The loop stays in a closed set of nodes, leaves the areas
  alone and takes from the count what it adds to the result.
-/
theorem munmapLoop_within
    {count result : Int}
    (hLoop : munmapLoop fuel (some manager) start stop turns s
      count next = some (result, s'))
    (hIn : s.vma.tree.In N)
    (hNext : Within N next) :
    s'.vma.tree.In N ∧
      (∀ z, (s'.vma.tree.nodes z).vma =
        (s.vma.tree.nodes z).vma) ∧
      ∃ j : Nat, result = count + j ∧
        s'.vma.count = s.vma.count - BitVec.ofNat 32 j := by
  induction turns generalizing s count next with
  | zero => simp [munmapLoop] at hLoop
  | succ turns ih =>
      cases next with
      | none =>
          simp only [munmapLoop, Option.some.injEq,
            Prod.mk.injEq] at hLoop
          rcases hLoop with ⟨rfl, rfl⟩
          exact ⟨hIn, fun _ => rfl, 0, by simp, by simp⟩
      | some node =>
          simp only [munmapLoop] at hLoop
          split at hLoop
          · rcases Option.bind_eq_some_iff.mp hLoop with
              ⟨⟨s₁, next₁⟩, hTurn, hRest⟩
            have hStay :=
              munmapTurn_within hTurn hIn (hNext node rfl)
            rcases munmapTurn_cases hTurn with
              ⟨_, _, _, hErase, _, hCount⟩
            rcases ih hRest hStay.1 hStay.2 with
              ⟨hIn', hVma, j, hResult, hLeft⟩
            refine ⟨hIn', ?_, j + 1, ?_, ?_⟩
            · intro z
              rw [hVma, vmaRbErase_vma hErase]
            · rw [hResult]
              push_cast
              omega
            · rw [hLeft, hCount, BitVec.ofNat_add,
                BitVec.sub_sub, BitVec.add_comm]
              rfl
          · simp only [Option.some.injEq, Prod.mk.injEq] at hLoop
            rcases hLoop with ⟨rfl, rfl⟩
            exact ⟨hIn, fun _ => rfl, 0, by simp, by simp⟩

end Turn

--------------------
-- The First Turn
--------------------

section First

variable {m m' : VmaRbTree}
variable {c : AreaCtx}
variable {t l r : AreaTree}
variable {p : Addr}
variable {d : Color × Vma}
variable {addr : U64}
variable {fuel fuel' : Nat}

theorem vmaRbNext_mono
    {res : Addr × Option Addr}
    (hNext : vmaRbNext fuel m p = some res)
    (hLe : fuel ≤ fuel') :
    vmaRbNext fuel' m p = some res := by
  unfold vmaRbNext at hNext ⊢
  cases hRight : (m.nodes p).right with
  | none =>
      simp only [hRight] at hNext ⊢
      exact vmaRbClimb_mono hNext hLe
  | some q =>
      simp only [hRight] at hNext ⊢
      rcases Option.bind_eq_some_iff.mp hNext with
        ⟨x, hMin, hRes⟩
      rw [Option.bind_eq_bind, vmaRbMin_mono hMin hLe]
      exact hRes

theorem vmaRbErase_mono
    (hErase : vmaRbErase fuel m p = some m')
    (hLe : fuel ≤ fuel') :
    vmaRbErase fuel' m p = some m' := by
  unfold vmaRbErase at hErase ⊢
  split
  · rename_i hLeft hRight
    simp only [hLeft, hRight] at hErase
    rcases Option.bind_eq_some_iff.mp hErase with
      ⟨x, hMin, hRes⟩
    rw [Option.bind_eq_bind, vmaRbMin_mono hMin hLe]
    exact hRes
  · rename_i hNot
    split at hErase
    · rename_i hLeft hRight
      exact absurd hRight (hNot _ _ hLeft)
    · exact hErase

/-
  The successor of a node, and the node that is erased. It is
  another one when the node hangs on the right and has no
  right child: then the walk up goes on over it.
-/
theorem vmaRbNext_spec
    (hHolds : m.Holds (c.plug (.node l p d r)))
    (hFuel : (c.plug (.node l p d r)).size < fuel) :
    ∃ (c₂ : AreaCtx) (la : AreaTree) (a : Addr)
      (da : Color × Vma) (ra : AreaTree)
      (after : Option Addr),
      c.plug (.node l p d r) = c₂.plug (.node la a da ra) ∧
        vmaRbNext fuel m p = some (a, after) ∧
        (∀ z, after = some z →
          z ∈ (c.plug (.node l p d r)).nodes ∧ z ≠ a) ∧
        (a = p ∧ (r = .nil →
            ∀ l' q d' rest, c ≠ .right l' q d' :: rest) ∨
          p ∈ ra.nodes ∧ r = .nil ∧
            ∃ l' q d' rest, c = .right l' q d' :: rest) := by
  have hRep := ((rep_plug_iff c _).mp hHolds.rep).2
  rcases rep_links hRep with ⟨_, hRight, hParent, _⟩
  cases r with
  | nil =>
      have hLen : c.length < fuel := by
        have hSize :=
          Ctx.length_le_size_plug c (.node l p d .nil)
        omega
      have hEq : vmaRbNext fuel m p =
          vmaRbClimb m fuel p c.parentPtr := by
        simp [vmaRbNext, hRight, hParent]
      rw [hEq]
      rcases vmaRbClimb_spec hHolds hLen with
        ⟨c₂, la, a, da, ra, hPlug, hClimb, hWhere⟩
      refine ⟨c₂, la, a, da, ra, _, hPlug, hClimb, ?_, ?_⟩
      · intro z hz
        rw [hPlug] at hHolds ⊢
        constructor
        · cases c₂ with
          | nil => cases hz
          | cons f c₂ =>
              have hf : f.ptr = z := by simpa using hz
              rw [Ctx.mem_plug_iff,
                (Ctx.nodes_cons_perm f c₂).mem_iff, hf]
              simp
        · rintro rfl
          exact hHolds.parentPtr_ne (by simp) hz
      · rcases hWhere with ⟨_, rfl, _, hHead⟩ | ⟨hHead, hIn⟩
        · exact Or.inl ⟨rfl, fun _ => hHead⟩
        · exact Or.inr ⟨hIn p (by simp), rfl, hHead⟩
  | node rl q rd rr =>
      have hSize : rl.size < fuel := by
        have hWhole := Ctx.size_le_plug c
          (.node l p d (.node rl q rd rr))
        simp only [Tree.size, Tree.entries_node,
          List.length_append, List.length_cons]
          at hWhole hFuel ⊢
        omega
      rcases vmaRbMin_spec hRep.2.2 hSize with
        ⟨c', x, dx, e, hPlug, _, hMin⟩
      refine ⟨c, l, p, d, .node rl q rd rr, some x, rfl, ?_,
        ?_, Or.inl ⟨rfl, by simp⟩⟩
      · simp [vmaRbNext, hRight, hMin]
      · rintro z ⟨⟩
        have hx : x ∈ (LinkedTree.Tree.node rl q rd rr).nodes := by
          rw [hPlug]
          exact Ctx.mem_plug_node _ _ _ x _
        constructor
        · rw [Ctx.mem_plug_iff, Tree.nodes_node]
          exact Or.inr
            (List.mem_append_right _ (List.mem_cons_of_mem _ hx))
        · rintro rfl
          have hNodup := hHolds.nodup
          rw [Ctx.nodup_plug_iff] at hNodup
          have hInner := hNodup.2.1
          rw [Tree.nodes_node, List.nodup_append,
            List.nodup_cons] at hInner
          exact hInner.2.1.1 hx

/- A search from any node for an address nothing covers. -/
theorem vmaRbFind_none
    {z : Addr}
    (hHolds : m.Holds t)
    (hSeq : Sequential t)
    (hNone : ∀ e ∈ areas t, e.2.covers addr = false)
    (hz : z ∈ t.nodes)
    (hFuel : t.size < fuel) :
    vmaRbFind m addr fuel none (some z) = some none := by
  rcases Tree.exists_plug_of_mem hz with ⟨c, l, d, r, rfl⟩
  have hRep := ((rep_plug_iff c _).mp hHolds.rep).2
  have hSize : (LinkedTree.Tree.node l z d r).size < fuel :=
    Nat.lt_of_le_of_lt (Ctx.size_le_plug c _) hFuel
  rcases @vmaRbFind_spec m _ _ addr _ none hRep hSeq.focus
      hSize with
    ⟨e, he, hCovers, _⟩ | ⟨_, hFind⟩
  · rw [hNone e (mem_areas_plug he)] at hCovers
    cases hCovers
  · exact hFind

/- Below a heir that is its own right child. -/
theorem vmaRbFind_heir
    (hHolds : m.Holds
      (c.plug (.node l p d (.node .nil x dx e))))
    (hSeq : Sequential
      (c.plug (.node l p d (.node .nil x dx e))))
    (hCovers : d.2.covers addr = true)
    (hFuel : l.size + 1 < fuel) :
    vmaRbFind (vmaRbTakeOver m p x) addr fuel none (some x) =
      some none := by
  have hFixed := (vmaRbTakeOver_loop hHolds).1
  have hx := hFixed.cell_eq
  have hNodup := hFixed.nodup
  rw [Ctx.nodup_plug_iff, Tree.nodes_node, List.nodup_append]
    at hNodup
  have hRep : Rep (vmaRbTakeOver m p x).cell (some x) l := by
    have hRepL := ((rep_plug_iff c _).mp hFixed.rep).2.2.1
    refine hRepL.congr fun q hq => ?_
    have hqx : q ≠ x :=
      hNodup.2.1.2.2 q hq x (by simp)
    simp [hqx]
  have hLeft : ((vmaRbTakeOver m p x).nodes x).left =
      l.rootPtr := by
    have hEq := congrArg Cell.left hx
    rw [VmaRbTree.cell_setParent, if_pos rfl,
      VmaRbTree.cell_setRight, if_pos rfl] at hEq
    exact hEq
  have hVma : ((vmaRbTakeOver m p x).nodes x).vma = dx.2 := by
    have hEq := congrArg (fun z => z.data.2) hx
    simp only [VmaRbTree.cell_setParent, if_pos,
      VmaRbTree.cell_setRight] at hEq
    exact hEq
  rcases hSeq.focus.node with ⟨hSeqL, _, _, hBelow, hAbove⟩
  have hIn := Vma.covers_iff.mp hCovers
  have hStart : d.2.endAddr.toNat ≤ dx.2.start.toNat :=
    hAbove (x, dx.2) (by simp)
  cases fuel with
  | zero => omega
  | succ fuel =>
      have hNot : dx.2.covers addr = false :=
        Vma.covers_eq_false.mpr (by omega)
      have hLt : addr < dx.2.start :=
        BitVec.lt_def.mpr (by omega)
      simp only [vmaRbFind, hVma, hNot, Bool.false_eq_true,
        if_false, if_pos hLt, hLeft]
      rcases @vmaRbFind_spec _ _ _ addr _ none hRep hSeqL
          (show l.size < fuel by omega) with
        ⟨e, he, hOther, _⟩ | ⟨_, hFind⟩
      · have hEnd := hBelow e he
        have hOther := Vma.covers_iff.mp hOther
        omega
      · exact hFind

/-
  A turn at the node of the area that covers the address: it
  is the node that is erased, and no other is found.
-/
theorem vmaRbErase_next
    (hHolds : m.Holds (c.plug (.node l p d r)))
    (hSeq : Sequential (c.plug (.node l p d r)))
    (hCovers : d.2.covers addr = true)
    (hClimb : r = .nil →
      ∀ l' q d' rest, c ≠ .right l' q d' :: rest)
    (hFuel : (c.plug (.node l p d r)).size < fuel) :
    ∃ m' after, vmaRbNext fuel m p = some (p, after) ∧
      vmaRbErase fuel m p = some m' ∧
      (∀ x, after = some x →
        vmaRbFind m' addr fuel none (some x) = some none) ∧
      (¬ DirectHeir l r → ∃ t', m'.Holds t' ∧
        LeavesOut (c.plug (.node l p d r)) t' p) ∧
      (DirectHeir l r → ∀ t', ¬ m'.Holds t') := by
  have hSub := Ctx.size_le_plug c (.node l p d r)
  have hSize : l.size + r.size + 1 < fuel := by
    simp only [Tree.size, Tree.entries_node,
      List.length_append, List.length_cons] at hSub hFuel ⊢
    omega
  rcases vmaRbErase_stored hHolds
      (show r.size < fuel by omega) with
    ⟨m', hErase, _, hStored, hLoop⟩
  rcases vmaRbNext_spec hHolds hFuel with
    ⟨_, _, a, _, _, after, _, hNext, hAfter,
      ⟨hSelf, _⟩ | ⟨_, hr, l', q, d', rest, hc⟩⟩
  · rw [hSelf] at hNext
    simp only [hSelf] at hAfter
    refine ⟨m', after, hNext, hErase, ?_, hStored, hLoop⟩
    intro z hz
    subst hz
    by_cases hHeir : DirectHeir l r
    · rcases hHeir with ⟨hl, x, dx, e, rfl⟩
      have hRep := ((rep_plug_iff c _).mp hHolds.rep).2
      rcases rep_links hRep with ⟨hLeft, hRight, _, _⟩
      have hxLeft := (rep_links hRep.2.2).1
      have hMin : vmaRbMin m fuel x = some x := by
        cases fuel with
        | zero => omega
        | succ fuel => simp [vmaRbMin, hxLeft]
      have hzx : z = x := by
        unfold vmaRbNext at hNext
        simp only [hRight, Tree.rootPtr_node, hMin,
          Option.bind_eq_bind, Option.bind_some,
          Option.some.injEq, Prod.mk.injEq, true_and]
          at hNext
        exact hNext.symm
      have hm' : m' = vmaRbTakeOver m p x := by
        cases l with
        | nil => exact absurd rfl hl
        | node ll lp ld lr =>
            unfold vmaRbErase at hErase
            simp only [hLeft, hRight, Tree.rootPtr_node, hMin,
              Option.bind_eq_bind, Option.bind_some,
              Option.some.injEq] at hErase
            exact hErase.symm
      rw [hzx, hm']
      exact vmaRbFind_heir hHolds hSeq hCovers (by omega)
    · rcases hStored hHeir with ⟨t', hHolds', hOut⟩
      have hNodup := hHolds.nodup
      refine vmaRbFind_none hHolds'
        (hSeq.of_sublist hOut.sublist) ?_
        ((hOut.mem_nodes hNodup z).mpr (hAfter z rfl)) ?_
      · intro e he
        rcases (hOut.mem_areas hNodup e).mp he with
          ⟨hMem, hep⟩
        rw [← Bool.not_eq_true]
        intro hOther
        have hHere : (p, d.2) ∈
            areas (c.plug (.node l p d r)) :=
          mem_areas_plug (by simp)
        have hEq :=
          hSeq.eq_of_covers hMem hHere hOther hCovers
        exact hep (congrArg Prod.fst hEq)
      · have hLen := hOut.sublist.length_le
        rw [length_areas, length_areas] at hLen
        omega
  · exact absurd hc (hClimb hr l' q d' rest)

end First

--------------------
-- The Call
--------------------

section Call

variable {s : MmapState}
variable {t t' : AreaTree}
variable {manager : Addr}
variable {addr length start stop : U64}
variable {count : U32}
variable {result : Int}

/- No area that is left meets the range. -/
theorem Unmapped.not_meets
    (hUn : Unmapped t t' start stop count result)
    {e : Addr × Vma}
    (he : e ∈ areas t') :
    e.2.meets start stop = false := by
  rw [← Bool.not_eq_true, Vma.meets_iff]
  rintro ⟨addr, hCovers, hFrom, hTo⟩
  rw [hUn.clear e he addr hFrom hTo] at hCovers
  cases hCovers

/- What was taken out lay in the range. -/
theorem Unmapped.taken
    (hUn : Unmapped t t' start stop count result)
    (hSeq : Sequential t)
    (hNodup' : t'.nodes.Nodup)
    (hSub : ∀ e ∈ areas t', e ∈ areas t)
    (hSize : t'.size +
      (areas t).countP (fun e => e.2.meets start stop) =
        t.size)
    {e : Addr × Vma}
    (he : e ∈ areas t)
    (he' : e ∉ areas t') :
    e.2.meets start stop = true ∧ start ≤ e.2.start ∧
      e.2.endAddr ≤ stop := by
  have hMeets : e.2.meets start stop = true := by
    by_contra hNot
    have hAll : areas t' ⊆ (areas t).filter
        fun e => !e.2.meets start stop := by
      intro x hx
      simp [hSub x hx, hUn.not_meets hx]
    have hLen : ((areas t).filter
        fun e => !e.2.meets start stop).length =
          (areas t').length := by
      have hSum := (areas t).length_eq_countP_add_countP
        (fun e => e.2.meets start stop)
      rw [← List.countP_eq_length_filter, length_areas]
      rw [length_areas] at hSum
      simp only [Bool.not_eq_true] at hSum
      have hSame :
          (areas t).countP (fun e => !e.2.meets start stop) =
            (areas t).countP fun e =>
              decide (e.2.meets start stop = false) := by
        congr 1
        funext x
        cases x.2.meets start stop <;> rfl
      omega
    have hPerm :=
      (List.subperm_of_subset (areas_nodup hNodup')
        hAll).perm_of_length_le (Nat.le_of_eq hLen)
    refine he' (hPerm.mem_iff.mpr ?_)
    simpa [he] using hNot
  have hSome := hMeets
  simp only [Vma.meets, decide_eq_true_eq, BitVec.lt_def]
    at hSome
  -- an address it covers outside the range is still covered
  have hEdge : ∀ addr : U64, e.2.covers addr = true →
      ¬ (addr < start ∨ stop ≤ addr) := by
    intro addr hCovers hOut
    rcases (hUn.keep addr hOut).mpr ⟨e, he, hCovers⟩ with
      ⟨x, hx, hOther⟩
    have hEq :=
      hSeq.eq_of_covers (hSub x hx) he hOther hCovers
    exact he' (hEq ▸ hx)
  refine ⟨hMeets, ?_, ?_⟩
  · have hStart := hEdge e.2.start
      (Vma.covers_iff.mpr ⟨Nat.le_refl _, hSome.1⟩)
    rw [BitVec.lt_def] at hStart
    rw [BitVec.le_def]
    omega
  · rw [BitVec.le_def]
    by_contra hNot
    have hStop := hEdge stop
      (Vma.covers_iff.mpr ⟨by omega, by omega⟩)
    exact hStop (Or.inr (BitVec.le_def.mpr (Nat.le_refl _)))

variable {fuel : Nat}
variable {next : Option Addr}

/- The loop has nothing to do. -/
theorem munmapLoop_done
    (hDone : ∀ node, next = some node →
      ¬ (s.vma.tree.nodes node).vma.start < stop)
    (count : Int) :
    munmapLoop fuel (some manager) start stop (turns + 1) s
      count next = some (count, s) := by
  cases next with
  | none => rfl
  | some node =>
      simp only [munmapLoop, if_neg (hDone node rfl)]

/- A turn after which no other area is found. -/
theorem munmapTurn_eq
    {fuel : Nat}
    {node a : Addr}
    {after : Option Addr}
    {tree : VmaRbTree}
    (hStop : stop.toNat + 4096 ≤ 2 ^ 64)
    (hFuel : stop.toNat < fuel)
    (hNext : vmaRbNext fuel s.vma.tree node = some (a, after))
    (hErase : vmaRbErase fuel s.vma.tree a = some tree)
    (hFind : ∀ x, after = some x →
      vmaRbFind tree start fuel none (some x) = some none) :
    ∃ s', munmapTurn fuel s (some manager) start stop node =
        some (s', none) ∧
      s'.vma.tree = tree ∧
      s'.vma.count = s.vma.count - 1 := by
  have hEnd :
      (if stop < (s.vma.tree.nodes node).vma.endAddr then stop
        else (s.vma.tree.nodes node).vma.endAddr).toNat ≤
          stop.toNat := by
    split
    · exact Nat.le_refl _
    · rename_i hNot
      rw [BitVec.lt_def] at hNot
      omega
  rcases unmapPages_returns (Nat.le_trans
        (Nat.add_le_add_right hEnd 4096) hStop) fuel s.tables
      (if (s.vma.tree.nodes node).vma.start < start then start
        else (s.vma.tree.nodes node).vma.start)
      (by omega) (by omega) with ⟨tables, hPages⟩
  unfold munmapTurn
  simp only [hPages, hNext, hErase, Option.bind_eq_bind,
    Option.bind_some]
  cases after with
  | none => exact ⟨_, rfl, rfl, rfl⟩
  | some x =>
      simp only [hFind x rfl, Option.bind_some]
      exact ⟨_, rfl, rfl, rfl⟩

/- Nothing changed, and nothing had to. -/
theorem unmapped_same
    (hCount : count.toNat = t.size)
    (hNone : ∀ e ∈ areas t, e.2.meets start stop = false) :
    Unmapped t t start stop count 0 where
  clear := by
    intro e he addr hFrom hTo
    rw [← Bool.not_eq_true]
    intro hCovers
    have hMeets :=
      Vma.meets_iff.mpr ⟨addr, hCovers, hFrom, hTo⟩
    rw [hNone e he] at hMeets
    cases hMeets
  keep _ _ := Iff.rfl
  result_eq := by
    symm
    simpa using hNone
  count_eq := hCount

/- A range without addresses. -/
theorem Vma.meets_self
    (v : Vma)
    (start : U64) :
    v.meets start start = false := by
  simp [Vma.meets]

variable {p : Addr}
variable {l r : AreaTree}
variable {d : Color × Vma}
variable {c : AreaCtx}

/- The area that was alone in the range is gone. -/
theorem TakesOut.unmapped
    (hTakes : TakesOut c l p d r start stop)
    (hNodup : (c.plug (.node l p d r)).nodes.Nodup)
    (hCount : count.toNat = (c.plug (.node l p d r)).size)
    (hOut : LeavesOut (c.plug (.node l p d r)) t' p) :
    Unmapped (c.plug (.node l p d r)) t' start stop
      (count - 1) 1 := by
  have hMem := hOut.mem_areas hNodup
  have hHere : (p, d.2) ∈ areas (c.plug (.node l p d r)) :=
    mem_areas_plug (by simp)
  have hMine : ∀ e ∈ areas (c.plug (.node l p d r)),
      e.1 = p → e = (p, d.2) := by
    rw [← map_fst_areas] at hNodup
    exact fun e he hep =>
      List.inj_on_of_nodup_map hNodup he hHere hep
  have hStart := hTakes.start_eq
  have hNonempty := BitVec.lt_def.mp hTakes.nonempty
  have hInside := BitVec.le_def.mp hTakes.inside
  have hMeets : d.2.meets start stop = true := by
    rw [Vma.meets_iff]
    exact ⟨start, Vma.covers_iff.mpr (by rw [hStart]; omega),
      BitVec.le_def.mpr (Nat.le_refl _),
      BitVec.lt_def.mpr (by omega)⟩
  constructor
  · intro e he addr hFrom hTo
    rcases (hMem e).mp he with ⟨heIn, hep⟩
    rw [← Bool.not_eq_true]
    intro hCovers
    have hOther :=
      Vma.meets_iff.mpr ⟨addr, hCovers, hFrom, hTo⟩
    rw [hTakes.alone e heIn hep] at hOther
    cases hOther
  · intro addr hRange
    constructor
    · rintro ⟨e, he, hCovers⟩
      exact ⟨e, ((hMem e).mp he).1, hCovers⟩
    · rintro ⟨e, he, hCovers⟩
      refine ⟨e, (hMem e).mpr ⟨he, fun hep => ?_⟩, hCovers⟩
      rw [hMine e he hep] at hCovers
      have hIn := Vma.covers_iff.mp hCovers
      rw [BitVec.lt_def, BitVec.le_def] at hRange
      simp only [hStart] at hIn
      omega
  · rcases hOut with ⟨xs, ys, v, hAreas, hAreas'⟩
    have hv : v = d.2 := by
      have hEq := hMine (p, v) (by simp [hAreas]) rfl
      exact congrArg Prod.snd hEq
    have hLeft : ∀ e ∈ xs ++ ys,
        e.2.meets start stop = false := by
      intro e he
      rw [← hAreas'] at he
      exact hTakes.alone e ((hMem e).mp he).1
        ((hMem e).mp he).2
    have hXs : xs.countP
        (fun e => e.2.meets start stop) = 0 := by
      rw [List.countP_eq_zero]
      intro e he
      simp [hLeft e (List.mem_append_left _ he)]
    have hYs : ys.countP
        (fun e => e.2.meets start stop) = 0 := by
      rw [List.countP_eq_zero]
      intro e he
      simp [hLeft e (List.mem_append_right _ he)]
    rw [hAreas, List.countP_append, List.countP_cons, hXs, hYs,
      hv, hMeets]
    rfl
  · rcases hOut with ⟨xs, ys, v, hAreas, hAreas'⟩
    rw [← length_areas, hAreas, List.length_append,
      List.length_cons] at hCount
    rw [← length_areas, hAreas', List.length_append,
      BitVec.toNat_sub, hCount]
    have hLt := count.isLt
    have hOne : (1 : U32).toNat = 1 := rfl
    rw [hOne]
    omega

/- The requests that fit are served. -/
theorem MunmapFits.unmaps
    (hHolds : s.vma.tree.Holds t)
    (hSeq : Sequential t)
    (hCount : s.vma.count.toNat = t.size)
    (hStop : (munmapStop addr length).toNat + 4096 ≤ 2 ^ 64)
    (hFits : MunmapFits t (munmapStart addr)
      (munmapStop addr length)) :
    Unmaps s t manager addr length := by
  let fuel := t.size + (munmapStop addr length).toNat + 2
  have hFind := @vmaRbFind_spec _ _ _ (munmapStart addr) fuel
    none hHolds.rep hSeq (by omega)
  rw [← hHolds.root_eq] at hFind
  have hDone : ∀ next : Option Addr,
      vmaRbFind s.vma.tree (munmapStart addr) fuel none
          s.vma.tree.root = some next →
        (∀ node, next = some node →
          ¬ (s.vma.tree.nodes node).vma.start <
            munmapStop addr length) →
        (∀ e ∈ areas t,
          e.2.meets (munmapStart addr)
            (munmapStop addr length) = false) →
        Unmaps s t manager addr length := by
    intro next hSome hNot hNone
    refine ⟨fuel, 0, s, t, ?_, hHolds,
      unmapped_same hCount hNone⟩
    unfold vmaMunmap
    simp only [hSome, Option.bind_eq_bind, Option.bind_some]
    exact munmapLoop_done hNot 0
  rcases hFits with hNone | ⟨hEq, e, he, hCovers, hStart⟩ |
    ⟨c, l, p, d, r, rfl, hTakes⟩
  · rcases hFind with ⟨e, he, hCovers, _⟩ | ⟨_, hFind⟩
    · rw [(hNone e he).1] at hCovers
      cases hCovers
    · exact hDone none hFind (by simp)
        fun e he => (hNone e he).2
  · rcases hFind with ⟨e', he', hCovers', hFind⟩ | ⟨hNone, _⟩
    · have hSame := hSeq.eq_of_covers he he' hCovers hCovers'
      subst hSame
      refine hDone _ hFind ?_ ?_
      · rintro node ⟨⟩
        rw [((mem_areas_iff hHolds).mp he).2, hStart, hEq]
        exact BitVec.lt_irrefl _
      · intro x _
        rw [hEq]
        exact x.2.meets_self _
    · rw [hNone e he] at hCovers
      cases hCovers
  · have hHere : (p, d.2) ∈ areas (c.plug (.node l p d r)) :=
      mem_areas_plug (by simp)
    have hMine := hTakes.start_eq
    have hCovers : d.2.covers (munmapStart addr) = true := by
      rw [Vma.covers_iff, hMine]
      exact ⟨Nat.le_refl _, BitVec.lt_def.mp hTakes.nonempty⟩
    rcases hFind with ⟨e, he, hOther, hFind⟩ | ⟨hNone, _⟩
    · have hSame := hSeq.eq_of_covers he hHere hOther hCovers
      subst hSame
      rcases vmaRbErase_next hHolds hSeq hCovers hTakes.climb
          (show _ < fuel by omega) with
        ⟨tree, after, hNext, hErase, hNone, hStored, _⟩
      rcases hStored hTakes.heir with ⟨t', hHolds', hOut⟩
      rcases @munmapTurn_eq s manager _ _ _ _ _ _ _ hStop
          (show _ < fuel by omega) hNext hErase hNone with
        ⟨s', hTurn, hTree, hLeft⟩
      refine ⟨fuel, 1, s', t', ?_, hTree.symm ▸ hHolds', ?_⟩
      · have hVma : (s.vma.tree.nodes p).vma = d.2 :=
          ((mem_areas_iff hHolds).mp hHere).2
        have hLt : (s.vma.tree.nodes p).vma.start <
            munmapStop addr length := by
          have hNonempty := BitVec.lt_def.mp hTakes.nonempty
          have hInside := BitVec.le_def.mp hTakes.inside
          rw [hVma, hMine, BitVec.lt_def]
          omega
        unfold vmaMunmap
        simp only [hFind, Option.bind_eq_bind,
          Option.bind_some]
        change munmapLoop fuel _ _ _ (_ + 1 + 1) s 0 _ = _
        rw [munmapLoop, if_pos hLt, Option.bind_eq_bind, hTurn,
          Option.bind_some]
        exact munmapLoop_done (by simp) 1
      · rw [hLeft]
        exact hTakes.unmapped hHolds.nodup hCount hOut
    · rw [hNone _ hHere] at hCovers
      cases hCovers

/-
  After a turn that erased a node, what the call leaves is
  without it, and by the counts nothing else is missing but
  areas of the range.
-/
theorem Unmapped.erased
    {a : Addr}
    {s₁ s' : MmapState}
    (hHolds : s.vma.tree.Holds t)
    (hSeq : Sequential t)
    (hCount : s.vma.count.toNat = t.size)
    (hIn : s₁.vma.tree.In fun z => z ∈ t.nodes ∧ z ≠ a)
    (hNext : Within (fun z => z ∈ t.nodes ∧ z ≠ a) next)
    (hSame : ∀ z, (s₁.vma.tree.nodes z).vma =
      (s.vma.tree.nodes z).vma)
    (hLeft : s₁.vma.count = s.vma.count - 1)
    (hLoop : munmapLoop fuel (some manager) start stop turns s₁
      1 next = some (result, s'))
    (hHolds' : s'.vma.tree.Holds t')
    (hUn : Unmapped t t' start stop s'.vma.count result)
    (ha : (a, v) ∈ areas t) :
    v.meets start stop = true ∧ start ≤ v.start ∧
      v.endAddr ≤ stop := by
  rcases munmapLoop_within hLoop hIn hNext with
    ⟨hIn', hVma, j, hResult, hLeft'⟩
  have hNodes := hIn'.mem_of_stored hHolds'
  have hSub : ∀ e ∈ areas t', e ∈ areas t := by
    intro e he
    rcases (mem_areas_iff hHolds').mp he with ⟨hMem, hEq⟩
    rw [hVma, hSame] at hEq
    exact (mem_areas_iff hHolds).mpr ⟨(hNodes _ hMem).1, hEq⟩
  refine hUn.taken hSeq hHolds'.nodup hSub ?_ ha ?_
  · have hAll := (areas t).countP_le_length
      (p := fun e => e.2.meets start stop)
    rw [length_areas] at hAll
    have hCountP := hUn.result_eq
    have hTotal := hUn.count_eq
    have hLt := s.vma.count.isLt
    have hSum : (areas t).countP
        (fun e => e.2.meets start stop) = j + 1 := by
      omega
    rw [hSum] at hAll ⊢
    rw [← hTotal, hLeft', hLeft, BitVec.toNat_sub,
      BitVec.toNat_sub, BitVec.toNat_ofNat, hCount]
    have hOne : (1 : U32).toNat = 1 := rfl
    rw [hOne]
    omega
  · intro he
    rcases (mem_areas_iff hHolds').mp he with ⟨hMem, _⟩
    exact (hNodes _ hMem).2 rfl

/-
  The first turn of a call that left the tree as it should
  be took out the only area of the range.
-/
theorem Unmapped.takesOut
    {s' : MmapState}
    (hHolds : s.vma.tree.Holds (c.plug (.node l p d r)))
    (hSeq : Sequential (c.plug (.node l p d r)))
    (hCount : s.vma.count.toNat =
      (c.plug (.node l p d r)).size)
    (hCovers : d.2.covers start = true)
    (hLt : d.2.start < stop)
    (hLoop : munmapLoop fuel (some manager) start stop turns s
      0 (some p) = some (result, s'))
    (hHolds' : s'.vma.tree.Holds t')
    (hUn : Unmapped (c.plug (.node l p d r)) t' start stop
      s'.vma.count result) :
    TakesOut c l p d r start stop := by
  have hHere : (p, d.2) ∈ areas (c.plug (.node l p d r)) :=
    mem_areas_plug (by simp)
  have hVma : (s.vma.tree.nodes p).vma = d.2 :=
    ((mem_areas_iff hHolds).mp hHere).2
  have hStart := Vma.covers_iff.mp hCovers
  cases turns with
  | zero => simp [munmapLoop] at hLoop
  | succ turns =>
  rw [munmapLoop, hVma, if_pos hLt] at hLoop
  rcases Option.bind_eq_some_iff.mp hLoop with
    ⟨⟨s₁, next⟩, hTurn, hRest⟩
  rcases munmapTurn_cases hTurn with
    ⟨a, after, hNext, hErase, hFind, hLeft⟩
  let more := max fuel ((c.plug (.node l p d r)).size + 1)
  have hMore : (c.plug (.node l p d r)).size < more := by
    omega
  have hLe : fuel ≤ more := by omega
  have hNext' := vmaRbNext_mono hNext hLe
  have hErase' := vmaRbErase_mono hErase hLe
  rcases vmaRbNext_spec hHolds hMore with
    ⟨c₂, la, a', da, ra, after', hPlug, hNext₂, hAfter, hWhere⟩
  rw [hNext'] at hNext₂
  cases hNext₂
  have hHoldsA := hHolds
  have hSeqA := hSeq
  have hHereA := hHere
  rw [hPlug] at hHoldsA hSeqA hHereA
  have hRa : ra.size < more := by
    have hSub := Ctx.size_le_plug c₂ (.node la a da ra)
    rw [← hPlug] at hSub
    simp only [Tree.size, Tree.entries_node,
      List.length_append, List.length_cons] at hSub hMore ⊢
    omega
  rcases vmaRbErase_stored hHoldsA hRa with
    ⟨m', hErased, hIn, _, _⟩
  rw [hErase'] at hErased
  cases hErased
  rw [← hPlug] at hIn
  have hWithin : Within
      (fun z => z ∈ (c.plug (.node l p d r)).nodes ∧ z ≠ a)
      next := by
    rcases hFind with ⟨_, rfl⟩ | ⟨x, rfl, hFind⟩
    · exact within_none
    · exact vmaRbFind_within hIn within_none
        (within_some.mpr (hAfter x rfl)) hFind
  have hA : (a, da.2) ∈ areas (c.plug (.node l p d r)) := by
    rw [hPlug]
    exact mem_areas_plug (by simp)
  rcases Unmapped.erased hHolds hSeq hCount hIn hWithin
      (vmaRbErase_vma hErase) hLeft hRest hHolds' hUn hA with
    ⟨hMeets, hFrom, hTo⟩
  rcases hWhere with ⟨rfl, hClimb⟩ | ⟨hBelow, _, _⟩
  · have hda : da.2 = d.2 := by
      have hOne := ((mem_areas_iff hHolds).mp hA).2
      rw [hVma] at hOne
      exact hOne.symm
    rw [hda] at hMeets hFrom hTo
    rw [BitVec.le_def] at hFrom
    rcases vmaRbErase_next hHolds hSeq hCovers hClimb hMore with
      ⟨tree, after₂, hNext₂, hErase₂, hNone, hStored, hLoop'⟩
    rw [hNext'] at hNext₂
    rw [hErase'] at hErase₂
    cases hNext₂
    cases hErase₂
    have hEnd : next = none := by
      rcases hFind with ⟨_, rfl⟩ | ⟨x, rfl, hFind⟩
      · rfl
      · have hMono := vmaRbFind_mono hFind hLe
        rw [hNone x rfl] at hMono
        cases hMono
        rfl
    subst hEnd
    have hSame : s' = s₁ := by
      cases turns with
      | zero => simp [munmapLoop] at hRest
      | succ turns =>
          cases hRest
          rfl
    subst hSame
    have hHeir : ¬ DirectHeir l r := fun hHeir =>
      hLoop' hHeir t' hHolds'
    rcases hStored hHeir with ⟨t₁, hHolds₁, hOut⟩
    refine ⟨?_, ?_, hTo, ?_, hClimb, hHeir⟩
    · exact BitVec.eq_of_toNat_eq (by omega)
    · exact BitVec.lt_def.mpr hStart.2
    · intro e he hep
      refine hUn.not_meets ((hHolds₁.areas_iff hHolds' e).mpr ?_)
      exact (hOut.mem_areas hHolds.nodup e).mpr ⟨he, hep⟩
  · exfalso
    rcases hSeqA.focus.node with ⟨_, _, _, _, hAbove⟩
    have hpRa : (p, d.2) ∈ areas ra := by
      rw [← map_fst_areas] at hBelow
      rcases List.mem_map.mp hBelow with ⟨e, he, hep⟩
      have heIn : e ∈ areas (c.plug (.node l p d r)) := by
        rw [hPlug]
        refine mem_areas_plug ?_
        simp [he]
      have hEq := ((mem_areas_iff hHolds).mp heIn).2
      rw [hep, hVma] at hEq
      have hSame : e = (p, d.2) := by rw [← hep, hEq]
      exact hSame ▸ he
    have hApart : da.2.endAddr.toNat ≤ d.2.start.toNat :=
      hAbove (p, d.2) hpRa
    simp only [Vma.meets, decide_eq_true_eq, BitVec.lt_def]
      at hMeets
    omega

/-
  Over any stored search tree of disjoint areas: the call
  does what it should exactly when the request fits.
-/
theorem vmaMunmap_iff_fits
    (hHolds : s.vma.tree.Holds t)
    (hOrd : t.Ordered startLt startLt)
    (hAreas : AreasDisjoint t)
    (hCount : s.vma.count.toNat = t.size)
    (hNoWrap : addr.toNat + length.toNat + 4095 < 2 ^ 64) :
    Unmaps s t manager addr length ↔
      MunmapFits t (munmapStart addr)
        (munmapStop addr length) := by
  have hSeq := hAreas.sequential hOrd
  rcases munmap_bounds hNoWrap with ⟨hRange, hStop⟩
  constructor
  · rintro ⟨fuel, result, s', t', hCall, hHolds', hUn⟩
    rcases Option.bind_eq_some_iff.mp hCall with
      ⟨node, hSome, hLoop⟩
    have hMore := vmaRbFind_mono hSome
      (Nat.le_max_left fuel (t.size + 1))
    rw [hHolds.root_eq] at hMore
    cases fuel with
    | zero => simp [vmaRbFind] at hSome
    | succ fuel =>
    rcases vmaRbFind_spec none hHolds.rep hSeq
        (show t.size < max (fuel + 1) (t.size + 1) by omega) with
      ⟨e, he, hCovers, hFind⟩ | ⟨hNone, hFind⟩
    · rw [hMore] at hFind
      cases hFind
      by_cases hLt : e.2.start < munmapStop addr length
      · right
        right
        have hMem := ((mem_areas_iff hHolds).mp he)
        rcases Tree.exists_plug_of_mem hMem.1 with
          ⟨c, l, d, r, rfl⟩
        have hHere : (e.1, d.2) ∈
            areas (c.plug (.node l e.1 d r)) :=
          mem_areas_plug (by simp)
        have hVma := ((mem_areas_iff hHolds).mp hHere).2
        rw [hMem.2] at hVma
        rw [hVma] at hCovers hLt
        exact ⟨c, l, e.1, d, r, rfl,
          Unmapped.takesOut hHolds hSeq hCount hCovers hLt
            hLoop hHolds' hUn⟩
      · have hFrom := (Vma.covers_iff.mp hCovers).1
        rw [BitVec.lt_def] at hLt
        exact Or.inr (Or.inl
          ⟨BitVec.eq_of_toNat_eq (by omega), e, he, hCovers,
            BitVec.eq_of_toNat_eq (by omega)⟩)
    · rw [hMore] at hFind
      cases hFind
      left
      rw [munmapLoop_done (by simp) 0] at hLoop
      cases hLoop
      intro e he
      exact ⟨hNone e he,
        hUn.not_meets ((hHolds.areas_iff hHolds' e).mpr he)⟩
  · exact fun hFits => hFits.unmaps hHolds hSeq hCount hStop

end Call

/- One area from 0x1000 to 0x2000, after `vma_mmap` made it. -/
def MmapState.oneArea : MmapState where
  vma :=
    { tree :=
        { nodes := fun _ =>
            { vmaNewNode (areaAt 0x1000#64) with
              color := .black }
          root := some 0x200040#64 }
      count := 1
      numVmas := fun _ => 1
      idCounter := 1
      heap :=
        { heapPtr := 0x2000A0#64
          heapLeft := BitVec.ofNat 64 (heapSize - 160)
          adds_up := by decide } }
  tables := MmapState.boot.tables
  memManager := none

/- Its tree. -/
def oneAreaTree : AreaTree :=
  .node .nil 0x200040#64 (.black, areaAt 0x1000#64) .nil

theorem MmapState.oneArea_inv :
    MmapState.oneArea.vma.Inv oneAreaTree where
  holds :=
    { rep := ⟨rfl, trivial, trivial⟩
      root_eq := rfl
      nodup := by simp [oneAreaTree] }
  ordered := by simp [oneAreaTree, Tree.Ordered]
  balanced := ⟨1, .black rfl .nil .nil⟩
  count_eq := rfl
  below := by
    intro p hp
    have hEq : p = 0x200040#64 := by
      simpa [oneAreaTree] using hp
    rw [hEq]
    decide
  room := by decide

theorem areasDisjoint_oneArea :
    AreasDisjoint oneAreaTree := by
  constructor
  · intro d hd
    have hEq : d = (.black, areaAt 0x1000#64) := by
      simpa [oneAreaTree] using hd
    rw [hEq]
    decide
  · simp [oneAreaTree]

/- Of four areas, the one at 0x3000 is unmapped. -/
theorem vmaMunmap_iff_fits_fourAreas :
    Unmaps MmapState.fourAreas fourAreasTree 0x1000#64
      0x3000#64 0x1000#64 := by
  have hInv := VmaState.fourAreas_inv
  have hHolds : MmapState.fourAreas.vma.tree.Holds
      fourAreasTree :=
    hInv.holds
  refine (vmaMunmap_iff_fits hHolds hInv.ordered
    areasDisjoint_fourAreas hInv.count_eq (by decide)).mpr ?_
  refine Or.inr (Or.inr
    ⟨[.right (.node .nil 0x200060#64 (.black, areaAt 0x1000)
          .nil) 0x200000#64 (.black, areaAt 0x2000)],
      .nil, 0x2000C0#64, (.black, areaAt 0x3000),
      .node .nil 0x200120#64 (.red, areaAt 0x4000) .nil, rfl,
      ?_⟩)
  constructor
  · decide
  · decide
  · decide
  · decide
  · intro hNil
    cases hNil
  · exact fun hHeir => hHeir.1 rfl

/-
  The range from 0 to 0x3000 starts in a gap, so its area is
  not found.
-/
theorem vmaMunmap_gap_not_unmapped :
    ¬ ∀ (s : MmapState) (t : AreaTree) (manager : Addr)
      (addr length : U64),
      s.vma.Inv t → AreasDisjoint t →
      addr.toNat + length.toNat + 4095 < 2 ^ 64 →
      Unmaps s t manager addr length := by
  intro hAll
  have hInv := MmapState.oneArea_inv
  rcases hAll MmapState.oneArea oneAreaTree 0#64 0#64
      0x3000#64 hInv areasDisjoint_oneArea (by decide) with
    ⟨fuel, result, s', t', hCall, hHolds', hUn⟩
  have hSame : s' = MmapState.oneArea := by
    match fuel with
    | 0 => cases hCall
    | 1 => cases hCall
    | fuel + 2 =>
        cases hCall
        rfl
  subst hSame
  have hHere : (0x200040#64, areaAt 0x1000#64) ∈
      areas oneAreaTree := by
    simp [oneAreaTree]
  have hNot := hUn.not_meets
    ((hInv.holds.areas_iff hHolds' _).mpr hHere)
  exact absurd hNot (by decide)

end FeatherOS
