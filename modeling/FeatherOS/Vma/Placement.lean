import FeatherOS.Vma.Insert
import FeatherOS.Vma.Mmap

/-
  Where `vma_mmap` puts an area.

  The search for a free region runs down the right spine of
  the tree and stops at the first gap that is wide enough. It
  never looks into the left subtree of the node it stops at,
  so an area in there may lie in the gap. An address that is
  given without VMA_FIXED is compared with no area at all,
  and one that is given with VMA_FIXED is not used.

  Key definitions include:
    * `Vma.Apart`
    * `AreasDisjoint`
    * `FirstGap`
    * `GoodArea`
    * `PlacedWell`

  Key theorems include:
    * `vmaFindGap_firstGap`
    * `vmaMmap_outcome`
    * `vmaMmap_returns`
    * `vmaMmap_good_iff_placedWell`
-/

namespace FeatherOS

open LinkedTree

--------------------
-- Disjoint Areas
--------------------

/- One area ends before the other starts. -/
def Vma.Apart (a b : Vma) : Prop :=
  a.endAddr ≤ b.start ∨ b.endAddr ≤ a.start

/- A tree of intervals that are pairwise disjoint. -/
structure AreasDisjoint (t : AreaTree) : Prop where
  interval : ∀ d ∈ t.values, d.2.start ≤ d.2.endAddr
  apart : t.values.Pairwise fun a b => Vma.Apart a.2 b.2

/- In the order of a search tree, areas end before the next. -/
def InSequence (values : List (Color × Vma)) : Prop :=
  values.Pairwise fun a b =>
    a.2.endAddr.toNat ≤ b.2.start.toNat

variable {t : AreaTree}

theorem AreasDisjoint.inSequence
    (hAreas : AreasDisjoint t)
    (hOrd : t.Ordered startLt startLt) :
    InSequence t.values := by
  rw [ordered_iff_pairwise startLt startLt_trans] at hOrd
  have hBoth := hOrd.and hAreas.apart
  refine List.Pairwise.imp_of_mem ?_ hBoth
  intro a b ha hb hab
  have hLt := BitVec.lt_def.mp hab.1
  have hInterval := BitVec.le_def.mp (hAreas.interval b hb)
  rcases hab.2 with hEnd | hEnd
  · exact BitVec.le_def.mp hEnd
  · have hEnd := BitVec.le_def.mp hEnd
    omega

--------------------
-- The First Gap
--------------------

/-
  Down the right spine of a tree, all of which lies above
  `low`: the first gap of `len` bytes starts at `g`, and
  `hidden` are the areas in the left subtree of the node
  above that gap. With no node above it, nothing is hidden.
-/
inductive FirstGap (len : U64) :
    U64 → AreaTree → U64 → List (Color × Vma) → Prop
| off (low : U64) : FirstGap len low .nil low []
| stop
    {low : U64}
    {l r : AreaTree}
    {p : Addr}
    {d : Color × Vma}
    (hWide :
      low.toNat + len.toNat ≤ d.2.start.toNat) :
    FirstGap len low (.node l p d r) low l.values
| pass
    {low g : U64}
    {l r : AreaTree}
    {p : Addr}
    {d : Color × Vma}
    {hidden : List (Color × Vma)}
    (hTight :
      d.2.start.toNat < low.toNat + len.toNat)
    (hRest : FirstGap len d.2.endAddr r g hidden) :
    FirstGap len low (.node l p d r) g hidden

variable {g g' len low : U64}
variable {hidden hidden' : List (Color × Vma)}

theorem FirstGap.unique
    (hGap : FirstGap len low t g hidden)
    (hGap' : FirstGap len low t g' hidden') :
    g = g' ∧ hidden = hidden' := by
  induction hGap with
  | off low =>
      cases hGap' with
      | off => exact ⟨rfl, rfl⟩
  | stop hWide =>
      cases hGap' with
      | stop => exact ⟨rfl, rfl⟩
      | pass hTight _ => omega
  | pass hTight _ ih =>
      cases hGap' with
      | stop hWide => omega
      | pass _ hRest => exact ih hRest

variable {hidden : List (Color × Vma)}

/-
  Around the first gap: what was passed ends below it, what
  is neither passed nor hidden starts above it.
-/
theorem FirstGap.around
    (hGap : FirstGap len low t g hidden)
    (hSeq : InSequence t.values)
    (hInterval : ∀ d ∈ t.values, d.2.start ≤ d.2.endAddr)
    (hLow : ∀ d ∈ t.values, low.toNat ≤ d.2.start.toNat) :
    low.toNat ≤ g.toNat ∧
      (∀ d ∈ t.values,
        d.2.endAddr.toNat ≤ g.toNat ∨
          g.toNat + len.toNat ≤ d.2.start.toNat ∨
          d ∈ hidden) ∧
      ∀ d ∈ hidden,
        d ∈ t.values ∧ g.toNat ≤ d.2.start.toNat := by
  induction hGap with
  | off low => simp
  | @stop low l r p d hWide =>
      unfold InSequence at hSeq
      simp only [Tree.values_node, List.pairwise_append,
        List.pairwise_cons] at hSeq
      simp only [Tree.values_node, List.mem_append,
        List.mem_cons] at hInterval hLow ⊢
      refine ⟨Nat.le_refl _, ?_, ?_⟩
      · intro x hx
        rcases hx with hx | rfl | hx
        · exact Or.inr (Or.inr hx)
        · exact Or.inr (Or.inl hWide)
        · have hNext := hSeq.2.1.1 x hx
          have hSelf := BitVec.le_def.mp
            (hInterval d (Or.inr (Or.inl rfl)))
          exact Or.inr (Or.inl (by omega))
      · intro x hx
        exact ⟨Or.inl hx, hLow x (Or.inl hx)⟩
  | @pass low g l r p d hidden hTight hRest ih =>
      unfold InSequence at hSeq ih
      simp only [Tree.values_node, List.pairwise_append,
        List.pairwise_cons] at hSeq
      simp only [Tree.values_node, List.mem_append,
        List.mem_cons] at hInterval hLow ⊢
      have hSelf := BitVec.le_def.mp
        (hInterval d (Or.inr (Or.inl rfl)))
      have hStart := hLow d (Or.inr (Or.inl rfl))
      rcases ih hSeq.2.1.2
          (fun x hx => hInterval x (Or.inr (Or.inr hx)))
          (fun x hx => hSeq.2.1.1 x hx) with
        ⟨hUp, hAll, hHidden⟩
      refine ⟨by omega, ?_, ?_⟩
      · intro x hx
        rcases hx with hx | rfl | hx
        · have hNext := hSeq.2.2 x hx d (by simp)
          exact Or.inl (by omega)
        · exact Or.inl hUp
        · exact hAll x hx
      · intro x hx
        rcases hHidden x hx with ⟨hMem, hLe⟩
        exact ⟨Or.inr (Or.inr hMem), hLe⟩

variable {fuel : Nat}
variable {m : VmaRbTree}
variable {c : AreaCtx}

/- The loop of `vma_mmap` finds the first gap. -/
theorem vmaFindGap_firstGap
    (hHolds : m.Holds (c.plug t))
    (hSeq : InSequence t.values)
    (hInterval : ∀ d ∈ t.values, d.2.start ≤ d.2.endAddr)
    (hLow : ∀ d ∈ t.values, low.toNat ≤ d.2.start.toNat)
    (hFind : vmaFindGap m len fuel low t.rootPtr = some g) :
    ∃ hidden, FirstGap len low t g hidden := by
  induction t generalizing c low fuel with
  | nil =>
      cases fuel with
      | zero => simp [vmaFindGap] at hFind
      | succ fuel =>
          simp only [Tree.rootPtr_nil, vmaFindGap,
            Option.some.injEq] at hFind
          subst hFind
          exact ⟨[], .off low⟩
  | node l p d r _ ihr =>
      have hCell := hHolds.cell_eq
      have hVma : (m.nodes p).vma = d.2 := by
        rw [VmaRbTree.vma_eq_cell, hCell]
      have hRight : (m.nodes p).right = r.rootPtr := by
        rw [VmaRbTree.right_eq_cell, hCell]
      have hSelf := hInterval d (by simp)
      have hStart := hLow d (by simp)
      have hSub :
          (d.2.start - low).toNat =
            d.2.start.toNat - low.toNat :=
        BitVec.toNat_sub_of_le (BitVec.le_def.mpr hStart)
      cases fuel with
      | zero => simp [vmaFindGap] at hFind
      | succ fuel =>
          simp only [Tree.rootPtr_node, vmaFindGap, hVma,
            hRight, BitVec.le_def, hSub] at hFind
          by_cases hWide :
              len.toNat ≤ d.2.start.toNat - low.toNat
          · rw [if_pos hWide] at hFind
            cases hFind
            exact ⟨l.values, .stop (by omega)⟩
          · rw [if_neg hWide,
              if_pos (BitVec.le_def.mp hSelf)] at hFind
            unfold InSequence at hSeq
            simp only [Tree.values_node, List.pairwise_append,
              List.pairwise_cons] at hSeq
            rcases ihr (c := .right l p d :: c) hHolds
                hSeq.2.1.2
                (fun x hx => hInterval x (by simp [hx]))
                (fun x hx => hSeq.2.1.1 x hx) hFind with
              ⟨hidden, hRest⟩
            exact ⟨hidden, .pass (by omega) hRest⟩

--------------------
-- Insertion Into A Search Tree Of Any Shape
--------------------

/-
  The tree is a search tree whose nodes came from `kmalloc`;
  its colours are of no importance here.
-/
structure VmaState.SearchTree
    (s : VmaState)
    (t : AreaTree) : Prop where
  holds : s.tree.Holds t
  ordered : t.Ordered startLt startLt
  below : ∀ p ∈ t.nodes, p.toNat < s.heap.heapPtr.toNat

variable {r : Int}

/- `vma_rb_insert`, when it returns, tells of duplicates. -/
theorem vmaRbInsert_result
    {m m' : VmaRbTree}
    {node : Addr}
    (hHolds : m.Holds t)
    (hOrd : t.Ordered startLt startLt)
    (hCall : vmaRbInsert fuel m node = some (r, m')) :
    (r = -1 ∧
        ∃ e ∈ areas t, e.2.start = (m.nodes node).vma.start) ∨
      (r = 0 ∧
        ∀ e ∈ areas t,
          e.2.start ≠ (m.nodes node).vma.start) := by
  have hMore :=
    vmaRbInsert_mono hCall (Nat.le_max_left fuel (t.size + 1))
  have hEnough : t.size < max fuel (t.size + 1) := by omega
  have hRoot : m.root = t.rootPtr := hHolds.root_eq
  generalize max fuel (t.size + 1) = enough at hMore hEnough
  unfold vmaRbInsert at hMore
  rcases vmaRbDescend_spec (c := []) (d := (m.cell node).data)
      hHolds (by simp) hEnough with
    ⟨hDescend, hDup⟩ | ⟨c, hDescend, hPlug, hAdmits⟩
  · simp only [Ctx.parentPtr_nil, ← hRoot] at hDescend
    simp only [VmaRbTree.vma_eq_cell, hDescend,
      Option.bind_eq_bind, Option.bind_some,
      Option.some.injEq, Prod.mk.injEq] at hMore
    exact Or.inl ⟨hMore.1.symm, hDup⟩
  · simp only [Ctx.parentPtr_nil, ← hRoot] at hDescend
    simp only [VmaRbTree.vma_eq_cell, hDescend,
      Option.bind_eq_bind, Option.bind_some] at hMore
    cases hFix : vmaRbInsertFixup enough
        (vmaRbAttach m node c.parentPtr) node with
    | none => simp [hFix] at hMore
    | some m₁ =>
        simp only [hFix, Option.bind_some, Option.some.injEq,
          Prod.mk.injEq] at hMore
        refine Or.inr ⟨hMore.1.symm, ?_⟩
        have hPlug' : t = c.plug .nil := hPlug
        subst hPlug'
        apply @start_ne_of_ordered c node (m.cell node).data
        rw [ordered_plug_iff] at hOrd ⊢
        refine ⟨hOrd.1, by simp [Tree.Ordered], ?_⟩
        intro x hx
        have hEq : x = (m.cell node).data := by
          simpa using hx
        exact hEq ▸ hAdmits

variable {manager : Option Addr}
variable {vma : Vma}

/- The same for `vma_insert`. -/
theorem VmaState.SearchTree.insert_result
    {s s' : VmaState}
    (hTree : s.SearchTree t)
    (hCall :
      vmaInsert fuel s manager (some vma) = some (r, s')) :
    (r = -1 ∧
        (manager = none ∨
          (kmalloc s.heap sizeofVmaRbNode).1 = none ∨
          ∃ e ∈ areas t, e.2.start = vma.start)) ∨
      (r = 0 ∧ manager ≠ none ∧
        (kmalloc s.heap sizeofVmaRbNode).1 ≠ none ∧
        ∀ e ∈ areas t, e.2.start ≠ vma.start) := by
  cases manager with
  | none =>
      simp only [vmaInsert, Option.some.injEq,
        Prod.mk.injEq] at hCall
      exact Or.inl ⟨hCall.1.symm, Or.inl rfl⟩
  | some manager =>
      simp only [vmaInsert] at hCall
      cases hBlock : kmalloc s.heap sizeofVmaRbNode with
      | mk block heap =>
          cases block with
          | none =>
              simp only [hBlock, Option.some.injEq,
                Prod.mk.injEq] at hCall
              exact Or.inl
                ⟨hCall.1.symm, Or.inr (Or.inl rfl)⟩
          | some node =>
              have hNode := (kmalloc_node_heapPtr hBlock).1
              have hFresh : node ∉ t.nodes := by
                intro hMem
                have hLt := hTree.below node hMem
                rw [hNode] at hLt
                omega
              have hHolds :=
                hTree.holds.update_fresh hFresh
                  (vmaNewNode vma)
              simp only [hBlock] at hCall
              cases hInsert : vmaRbInsert fuel
                  { s.tree with
                    nodes := Function.update s.tree.nodes node
                      (vmaNewNode vma) } node with
              | none => simp [hInsert] at hCall
              | some result =>
                  rcases result with ⟨r₁, m₁⟩
                  have hVma :
                      ((Function.update s.tree.nodes node
                        (vmaNewNode vma)) node).vma = vma := by
                    simp [vmaNewNode]
                  have hResult :=
                    vmaRbInsert_result hHolds hTree.ordered
                      hInsert
                  simp only [hVma] at hResult
                  rcases hResult with
                    ⟨rfl, hDup⟩ | ⟨rfl, hNew⟩
                  · simp [hInsert] at hCall
                    exact Or.inl
                      ⟨hCall.1.symm, Or.inr (Or.inr hDup)⟩
                  · simp [hInsert] at hCall
                    exact Or.inr
                      ⟨hCall.1.symm, by simp, by simp, hNew⟩

--------------------
-- What The Call Does
--------------------

/-
  The start address that a request leads to, and the areas
  that it is never compared with.
-/
def MmapRequest.Leads
    (req : MmapRequest)
    (t : AreaTree)
    (g : U64)
    (hidden : List (Color × Vma)) : Prop :=
  if req.searches then
    FirstGap (alignedLen req.length) userVirtStart t g hidden
  else
    g = req.addr ∧ hidden = t.values

/-
  Nothing is inserted at `g`: there is no manager, the heap
  has no room for the two records, the end-of-space test
  stops the call, or an area starts there already.
-/
def MmapRefused
    (s : VmaState)
    (t : AreaTree)
    (manager : Option Addr)
    (req : MmapRequest)
    (g : U64) : Prop :=
  manager = none ∨ s.heap.heapLeft.toNat < 160 ∨
    userVirtEnd - alignedLen req.length ≤ g ∨
    ∃ d ∈ t.values, d.2.start = g

variable {req : MmapRequest}
variable {g : U64}
variable {s : VmaState}

/- The address that the first part of the call arrives at. -/
theorem leads_of_start
    (hTree : s.SearchTree t)
    (hAreas : AreasDisjoint t)
    (hStart : mmapStart fuel s.tree req = some g) :
    ∃ hidden, req.Leads t g hidden := by
  unfold mmapStart at hStart
  unfold MmapRequest.Leads
  by_cases hSearch : req.searches = true
  · rw [if_pos hSearch] at hStart
    rw [hTree.holds.root_eq] at hStart
    simp only [if_pos hSearch]
    exact vmaFindGap_firstGap (c := []) hTree.holds
      (hAreas.inSequence hTree.ordered) hAreas.interval
      (fun d _ => Nat.zero_le _) hStart
  · rw [if_neg hSearch] at hStart
    simp only [if_neg hSearch]
    exact ⟨t.values, (Option.some.inj hStart).symm, rfl⟩

/- The areas of a tree with and without addresses. -/
theorem exists_area_iff
    (t : AreaTree)
    (g : U64) :
    (∃ e ∈ areas t, e.2.start = g) ↔
      ∃ d ∈ t.values, d.2.start = g := by
  unfold areas Tree.values
  simp only [List.mem_map, exists_exists_and_eq_and]

/-
  A call that returns has led to one start address. Either it
  was refused there or it inserted the rounded length.
-/
theorem vmaMmap_outcome
    {s s' : MmapState}
    {res : MmapResult}
    (hTree : s.vma.SearchTree t)
    (hAreas : AreasDisjoint t)
    (hCall : vmaMmap fuel s manager req = some (res, s')) :
    ∃ g hidden, req.Leads t g hidden ∧
      ((MmapRefused s.vma t manager req g ∧
          res.area = none) ∨
        (¬ MmapRefused s.vma t manager req g ∧
          ∃ vma, res.area = some vma ∧ vma.start = g ∧
            vma.endAddr = g + alignedLen req.length)) := by
  unfold vmaMmap at hCall
  rcases Option.bind_eq_some_iff.mp hCall with
    ⟨g, hStart, hRest⟩
  rcases leads_of_start hTree hAreas hStart with
    ⟨hidden, hLeads⟩
  refine ⟨g, hidden, hLeads, ?_⟩
  unfold vmaMmapAt at hRest
  by_cases hSpace : userVirtEnd - alignedLen req.length ≤ g
  · rw [if_pos hSpace] at hRest
    cases hRest
    exact Or.inl ⟨Or.inr (Or.inr (Or.inl hSpace)), rfl⟩
  rw [if_neg hSpace] at hRest
  have hArea : sizeofVma.toNat = 64 := by decide
  have hNode : sizeofVmaRbNode.toNat = 96 := by decide
  unfold vmaCreate at hRest
  rcases @kmalloc_record s.vma.heap sizeofVma (by decide)
      (by decide) with
    ⟨hLeft, hNone⟩ | ⟨hLeft, heap, hSome, hLeft', hPtr⟩
  · simp only [hNone, Option.some.injEq, Prod.mk.injEq]
      at hRest
    refine Or.inl ⟨Or.inr (Or.inl (by omega)), ?_⟩
    rw [← hRest.1]
    rfl
  simp only [hSome] at hRest
  rcases Option.bind_eq_some_iff.mp hRest with
    ⟨⟨r, v⟩, hInsert, hEnd⟩
  have hTree' :
      ({ s.vma with
        heap := heap
        idCounter := s.vma.idCounter + 1 } :
          VmaState).SearchTree t := by
    refine ⟨hTree.holds, hTree.ordered, ?_⟩
    intro p hp
    have hLt := hTree.below p hp
    simp only
    omega
  have hResult := hTree'.insert_result hInsert
  simp only [exists_area_iff] at hResult
  rcases @kmalloc_record heap sizeofVmaRbNode (by decide)
      (by decide) with
    ⟨hFull, hNone⟩ | ⟨hFits, heap', hBlock, _, _⟩
  · rcases hResult with ⟨rfl, _⟩ | ⟨_, _, hBlock, _⟩
    · simp at hEnd
      refine Or.inl ⟨Or.inr (Or.inl (by omega)), ?_⟩
      rw [← hEnd.1]
      rfl
    · simp [hNone] at hBlock
  · rcases hResult with ⟨rfl, hWhy⟩ | ⟨rfl, hMgr, _, hNew⟩
    · simp at hEnd
      refine Or.inl ⟨?_, ?_⟩
      · rcases hWhy with hMgr | hNoBlock | hDup
        · exact Or.inl hMgr
        · simp [hBlock] at hNoBlock
        · exact Or.inr (Or.inr (Or.inr hDup))
      · rw [← hEnd.1]
        rfl
    · simp at hEnd
      refine Or.inr ⟨?_, _, by rw [← hEnd.1], rfl, rfl⟩
      intro hRefused
      rcases hRefused with hNoMgr | hHeap | hFar | hDup
      · exact hMgr hNoMgr
      · omega
      · exact hSpace hFar
      · rcases (exists_area_iff t g).mpr hDup with
          ⟨e, he, hEq⟩
        exact hNew e he hEq

--------------------
-- The Call On A Red-Black Tree
--------------------

/- What a caller may expect of the area it is given. -/
structure GoodArea
    (t : AreaTree)
    (req : MmapRequest)
    (vma : Vma) : Prop where
  aligned : vma.start.toNat % 4096 = 0
  long :
    vma.start.toNat + req.length.toNat ≤ vma.endAddr.toNat
  inside : ∀ x : U64, vma.start ≤ x → x < vma.endAddr →
    userVirtStart ≤ x ∧ x ≤ userVirtEnd
  apart : ∀ d ∈ t.values, Vma.Apart vma d.2
  fixed : hasFlag req.flags vmaFixed = true →
    req.addr ≠ 0#64 → vma.start = req.addr

/-
  The request fits at `g`: its rounded length has not wrapped
  and ends inside the user half, `g` is a page and the address
  that was asked for, and the areas that `g` was never
  compared with keep out of the way.
-/
structure MmapFits
    (req : MmapRequest)
    (g : U64)
    (hidden : List (Color × Vma)) : Prop where
  noWrap : req.length.toNat ≤ (alignedLen req.length).toNat
  room :
    g.toNat + (alignedLen req.length).toNat ≤
      userVirtEnd.toNat + 1
  aligned : g.toNat % 4096 = 0
  fixed : hasFlag req.flags vmaFixed = true →
    req.addr ≠ 0#64 → g = req.addr
  clear : ∀ d ∈ hidden,
    g.toNat + (alignedLen req.length).toNat ≤
        d.2.start.toNat ∨
      d.2.endAddr.toNat ≤ g.toNat

/- The request inserts nothing, or fits where it leads. -/
def PlacedWell
    (s : VmaState)
    (t : AreaTree)
    (manager : Option Addr)
    (req : MmapRequest) : Prop :=
  ∃ g hidden, req.Leads t g hidden ∧
    (MmapRefused s t manager req g ∨ MmapFits req g hidden)

theorem MmapRequest.Leads.unique
    (hLeads : req.Leads t g hidden)
    (hLeads' : req.Leads t g' hidden') :
    g = g' ∧ hidden = hidden' := by
  unfold MmapRequest.Leads at hLeads hLeads'
  by_cases hSearch : req.searches = true
  · rw [if_pos hSearch] at hLeads hLeads'
    exact hLeads.unique hLeads'
  · rw [if_neg hSearch] at hLeads hLeads'
    exact ⟨hLeads.1.trans hLeads'.1.symm,
      hLeads.2.trans hLeads'.2.symm⟩

/- The areas that are not hidden are clear of the place. -/
theorem MmapRequest.Leads.around
    (hLeads : req.Leads t g hidden)
    (hAreas : AreasDisjoint t)
    (hOrd : t.Ordered startLt startLt) :
    (∀ d ∈ t.values,
        d.2.endAddr.toNat ≤ g.toNat ∨
          g.toNat + (alignedLen req.length).toNat ≤
            d.2.start.toNat ∨
          d ∈ hidden) ∧
      ∀ d ∈ hidden, d ∈ t.values := by
  unfold MmapRequest.Leads at hLeads
  by_cases hSearch : req.searches = true
  · rw [if_pos hSearch] at hLeads
    rcases hLeads.around (hAreas.inSequence hOrd)
        hAreas.interval (fun d _ => Nat.zero_le _) with
      ⟨_, hAll, hHidden⟩
    exact ⟨hAll, fun d hd => (hHidden d hd).1⟩
  · rw [if_neg hSearch] at hLeads
    rw [hLeads.2]
    exact ⟨fun d hd => Or.inr (Or.inr hd), fun d hd => hd⟩

/- An area of `length` bytes or more inside the user half. -/
theorem length_inside_iff
    {start len length : U64}
    (hLength : 1 ≤ length.toNat) :
    (start.toNat + length.toNat ≤ (start + len).toNat ∧
        ∀ x : U64, start ≤ x → x < start + len →
          userVirtStart ≤ x ∧ x ≤ userVirtEnd) ↔
      length.toNat ≤ len.toNat ∧
        start.toNat + len.toNat ≤ userVirtEnd.toNat + 1 := by
  have hEnd : userVirtEnd.toNat = 0x7FFFFFFFFFFF := by decide
  have hStart := start.isLt
  have hLen := len.isLt
  rw [BitVec.toNat_add]
  constructor
  · intro h
    rcases h with ⟨hLong, hInside⟩
    have hSum :
        (start.toNat + len.toNat) % 2 ^ 64 =
          start.toNat + len.toNat := by
      omega
    rw [hSum] at hLong
    have hLast : (start + (len - 1#64)).toNat =
        start.toNat + len.toNat - 1 := by
      rw [BitVec.toNat_add, BitVec.toNat_sub]
      simp
      omega
    have hBound := hInside (start + (len - 1#64))
      (by rw [BitVec.le_def, hLast]; omega)
      (by rw [BitVec.lt_def, hLast, BitVec.toNat_add]; omega)
    have hTop := BitVec.le_def.mp hBound.2
    rw [hLast] at hTop
    exact ⟨by omega, by omega⟩
  · intro h
    rcases h with ⟨hLong, hRoom⟩
    have hSum :
        (start.toNat + len.toNat) % 2 ^ 64 =
          start.toNat + len.toNat := by
      omega
    refine ⟨by omega, ?_⟩
    intro x _ hx
    rw [BitVec.lt_def, BitVec.toNat_add, hSum] at hx
    exact ⟨BitVec.le_def.mpr (Nat.zero_le _),
      BitVec.le_def.mpr (by omega)⟩

/- An inserted area is good exactly when the request fits. -/
theorem goodArea_iff_fits
    (hLength : 1 ≤ req.length.toNat)
    (hAreas : AreasDisjoint t)
    (hOrd : t.Ordered startLt startLt)
    (hLeads : req.Leads t g hidden)
    (hStart : vma.start = g)
    (hEnd : vma.endAddr = g + alignedLen req.length) :
    GoodArea t req vma ↔ MmapFits req g hidden := by
  have hSize :=
    @length_inside_iff g (alignedLen req.length) req.length
      hLength
  rcases hLeads.around hAreas hOrd with ⟨hAround, hHidden⟩
  have hTop : userVirtEnd.toNat = 0x7FFFFFFFFFFF := by decide
  constructor
  · intro hGood
    have hInside := hGood.inside
    have hLong := hGood.long
    rw [hStart, hEnd] at hInside hLong
    rcases hSize.mp ⟨hLong, hInside⟩ with ⟨hNoWrap, hRoom⟩
    refine ⟨hNoWrap, hRoom, hStart ▸ hGood.aligned,
      fun hFlag hAddr => hStart ▸ hGood.fixed hFlag hAddr, ?_⟩
    intro d hd
    rcases hGood.apart d (hHidden d hd) with hAbove | hBelow
    · left
      rw [hEnd, BitVec.le_def, BitVec.toNat_add] at hAbove
      omega
    · right
      rw [hStart] at hBelow
      exact BitVec.le_def.mp hBelow
  · intro hFits
    rcases hSize.mpr ⟨hFits.noWrap, hFits.room⟩ with
      ⟨hLong, hInside⟩
    have hRoom := hFits.room
    have hSum :
        (g + alignedLen req.length).toNat =
          g.toNat + (alignedLen req.length).toNat := by
      rw [BitVec.toNat_add]
      omega
    refine ⟨?_, ?_, ?_, ?_, ?_⟩
    · rw [hStart]
      exact hFits.aligned
    · rw [hStart, hEnd]
      exact hLong
    · rw [hStart, hEnd]
      exact hInside
    · intro d hd
      unfold Vma.Apart
      rw [hStart, hEnd, BitVec.le_def, BitVec.le_def, hSum]
      rcases hAround d hd with hBelow | hAbove | hIn
      · exact Or.inr hBelow
      · exact Or.inl hAbove
      · exact hFits.clear d hIn
    · rw [hStart]
      exact hFits.fixed

/-
  Over any search tree of disjoint areas, and for any call
  that returns: what is inserted is good exactly when the
  request was placed well.
-/
theorem vmaMmap_good_iff_placedWell
    {s s' : MmapState}
    {t : AreaTree}
    {fuel : Nat}
    {manager : Option Addr}
    {req : MmapRequest}
    {res : MmapResult}
    (hTree : s.vma.SearchTree t)
    (hAreas : AreasDisjoint t)
    (hLength : 1 ≤ req.length.toNat)
    (hCall : vmaMmap fuel s manager req = some (res, s')) :
    (∀ vma, res.area = some vma → GoodArea t req vma) ↔
      PlacedWell s.vma t manager req := by
  rcases vmaMmap_outcome hTree hAreas hCall with
    ⟨g, hidden, hLeads, hRefused | hInserted⟩
  · constructor
    · intro _
      exact ⟨g, hidden, hLeads, Or.inl hRefused.1⟩
    · intro _ vma hArea
      rw [hRefused.2] at hArea
      cases hArea
  · rcases hInserted with ⟨hOpen, vma, hArea, hStart, hEnd⟩
    have hIff :=
      goodArea_iff_fits hLength hAreas hTree.ordered hLeads
        hStart hEnd
    constructor
    · intro hAll
      exact ⟨g, hidden, hLeads,
        Or.inr (hIff.mp (hAll vma hArea))⟩
    · intro hPlaced other hOther
      rw [hArea] at hOther
      cases hOther
      rcases hPlaced with ⟨g', hidden', hLeads', hWhy⟩
      rcases hLeads.unique hLeads' with ⟨rfl, rfl⟩
      rcases hWhy with hRefused | hFits
      · exact absurd hRefused hOpen
      · exact hIff.mpr hFits

/- Zeroed memory and no physical memory manager. -/
def MmapState.boot : MmapState where
  vma := VmaState.boot
  tables :=
    { pml4 := 0x1000#64
      memory := fun _ _ => 0#64 }
  memManager := none

/- A request for one page, anywhere. -/
def onePage : MmapRequest where
  addr := 0#64
  length := 4096#64
  prot := vmaRead
  flags := vmaPrivate
  name := none

theorem MmapState.boot_searchTree :
    MmapState.boot.vma.SearchTree .nil := by
  have hInv : VmaState.boot.Inv .nil :=
    VmaState.inv_of_empty ⟨rfl, rfl⟩
  exact ⟨hInv.holds, hInv.ordered, hInv.below⟩

theorem areasDisjoint_nil :
    AreasDisjoint .nil := by
  constructor
  · simp
  · simp

/- Four areas, and memory as it is at the start -/
def MmapState.fourAreas : MmapState :=
  { MmapState.boot with vma := VmaState.fourAreas }

theorem areasDisjoint_fourAreas :
    AreasDisjoint fourAreasTree := by
  constructor
  · simp [fourAreasTree, areaAt]
  · simp [fourAreasTree, areaAt, Vma.Apart]

/- Three pages, anywhere -/
def threePages : MmapRequest :=
  { onePage with length := 0x3000#64 }

/- The search goes down behind the last area. -/
theorem vmaMmap_good_iff_placedWell_threePages :
    ∃ res s',
      vmaMmap 5 MmapState.fourAreas (some 0x1000#64)
          threePages = some (res, s') ∧
        res.area.map Vma.start = some 0x5000#64 ∧
        ∀ vma, res.area = some vma →
          GoodArea fourAreasTree threePages vma := by
  have hSome :
      ((vmaMmap 5 MmapState.fourAreas (some 0x1000#64)
        threePages).map fun out => out.1.area.map Vma.start) =
        some (some 0x5000#64) := by
    decide
  rcases Option.map_eq_some_iff.mp hSome with
    ⟨⟨res, s'⟩, hCall, hArea⟩
  have hInv := VmaState.fourAreas_inv
  have hTree : MmapState.fourAreas.vma.SearchTree
      fourAreasTree :=
    ⟨hInv.holds, hInv.ordered, hInv.below⟩
  have hPlaced :
      PlacedWell MmapState.fourAreas.vma fourAreasTree
        (some 0x1000#64) threePages := by
    refine ⟨0x5000#64, [], ?_, Or.inr ?_⟩
    · exact .pass (by decide)
        (.pass (by decide) (.pass (by decide) (.off _)))
    · constructor
      · decide
      · decide
      · decide
      · intro hFlag
        exact absurd hFlag (by decide)
      · simp
  exact ⟨res, s', hCall, hArea,
    (vmaMmap_good_iff_placedWell hTree
      areasDisjoint_fourAreas (by decide) hCall).mpr hPlaced⟩

/-
  A fixed request at 0x400000 in the empty address space is
  placed at 0.
-/
theorem vmaMmap_fixed_not_honoured :
    ¬ ∀ (s s' : MmapState) (t : AreaTree) (fuel : Nat)
      (manager : Option Addr) (req : MmapRequest)
      (res : MmapResult),
      s.vma.SearchTree t → AreasDisjoint t →
      1 ≤ req.length.toNat →
      vmaMmap fuel s manager req = some (res, s') →
      ∀ vma, res.area = some vma → GoodArea t req vma := by
  intro hAll
  let req : MmapRequest :=
    { onePage with
      addr := 0x400000#64
      flags := vmaPrivate ||| vmaFixed }
  have hZero :
      ((vmaMmap 2 MmapState.boot (some 0x1000#64) req).map
        fun out => out.1.area.map Vma.start) =
          some (some 0#64) := by
    decide
  rcases Option.map_eq_some_iff.mp hZero with
    ⟨⟨res, s'⟩, hCall, hStart⟩
  rcases Option.map_eq_some_iff.mp hStart with
    ⟨vma, hArea, hAt⟩
  have hGood :=
    hAll MmapState.boot s' .nil 2 (some 0x1000#64) req res
      MmapState.boot_searchTree areasDisjoint_nil (by decide)
      hCall vma hArea
  have hFixed := hGood.fixed (by decide) (by decide)
  rw [hAt] at hFixed
  exact absurd hFixed (by decide)

end FeatherOS
