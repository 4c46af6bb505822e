import FeatherOS.Vma.Unmapped

/-
  `vma_find` on a stored search tree.

  The loop goes on to the left after a match, so what it
  returns is the last match on its way down. In a search tree
  of disjoint areas there is at most one.

  Key definitions include:
    * `vmaFind`
    * `SearchAreas`

  Key theorems include:
    * `vmaFind_spec`
-/

namespace FeatherOS

open LinkedTree

/-
  `vma_find`; the result points into the node found, to the
  area that is the node's first member. The manager is not
  looked at.
-/
def vmaFind
    (fuel : Nat)
    (s : VmaState)
    (_manager : Option Addr)
    (addr : U64) : Option (Option (Addr × Vma)) := do
  let node ← vmaRbFind s.tree addr fuel none s.tree.root
  some (node.map fun p => (p, (s.tree.nodes p).vma))

/- A search tree of nonempty, pairwise disjoint intervals. -/
structure SearchAreas (t : AreaTree) : Prop where
  ordered : t.Ordered startLt startLt
  nonempty : ∀ e ∈ areas t, e.2.start < e.2.endAddr
  apart : (areas t).Pairwise fun a b => Vma.Apart a.2 b.2

theorem SearchAreas.sequential
    {t : AreaTree}
    (hSearch : SearchAreas t) :
    Sequential t := by
  refine AreasDisjoint.sequential ⟨?_, ?_⟩ hSearch.ordered
  · intro d hd
    rcases List.mem_map.mp hd with ⟨e, he, rfl⟩
    have hIn : (e.1, e.2.2) ∈ areas t :=
      List.mem_map.mpr ⟨e, he, rfl⟩
    exact BitVec.le_of_lt (hSearch.nonempty _ hIn)
  · have hApart := hSearch.apart
    unfold areas at hApart
    rw [List.pairwise_map] at hApart
    unfold Tree.values
    rw [List.pairwise_map]
    exact hApart

section Find

variable {s : VmaState}
variable {t : AreaTree}
variable {fuel fuel' : Nat}
variable {manager : Option Addr}
variable {addr : U64}

/- More turns than are needed change nothing. -/
theorem vmaFind_mono
    {found : Option (Addr × Vma)}
    (hFind : vmaFind fuel s manager addr = some found)
    (hLe : fuel ≤ fuel') :
    vmaFind fuel' s manager addr = some found := by
  rcases Option.bind_eq_some_iff.mp hFind with
    ⟨node, hNode, hFound⟩
  unfold vmaFind
  rw [vmaRbFind_mono hNode hLe]
  exact hFound

/-
  The call returns, and it returns an area if and only if it
  is in the tree and contains the address.
-/
theorem vmaFind_spec
    (hHolds : s.tree.Holds t)
    (hSearch : SearchAreas t)
    (manager : Option Addr)
    (addr : U64) :
    ∃ found,
      (∀ fuel, t.size < fuel →
        vmaFind fuel s manager addr = some found) ∧
      (∀ fuel found', vmaFind fuel s manager addr =
        some found' → found' = found) ∧
      ∀ e, found = some e ↔
        e ∈ areas t ∧ e.2.covers addr = true := by
  have hSeq := hSearch.sequential
  have hCall : ∃ found,
      vmaFind (t.size + 1) s manager addr = some found ∧
        ∀ e, found = some e ↔
          e ∈ areas t ∧ e.2.covers addr = true := by
    unfold vmaFind
    rw [hHolds.root_eq]
    rcases vmaRbFind_spec none hHolds.rep hSeq
        (Nat.lt_succ_self _) with
      ⟨e, he, hCovers, hFind⟩ | ⟨hNone, hFind⟩
    · rw [hFind]
      refine ⟨_, rfl, ?_⟩
      have hVma := ((mem_areas_iff hHolds).mp he).2
      intro e'
      simp only [Option.map_some, hVma, Option.some.injEq]
      constructor
      · rintro rfl
        exact ⟨he, hCovers⟩
      · rintro ⟨he', hCovers'⟩
        exact hSeq.eq_of_covers he he' hCovers hCovers'
    · rw [hFind]
      refine ⟨_, rfl, ?_⟩
      intro e
      simp only [Option.map_none, reduceCtorEq, false_iff]
      rintro ⟨he, hCovers⟩
      rw [hNone e he] at hCovers
      cases hCovers
  rcases hCall with ⟨found, hFind, hFound⟩
  refine ⟨found, ?_, ?_, hFound⟩
  · intro fuel hFuel
    exact vmaFind_mono hFind hFuel
  · intro fuel found' hFind'
    have h₁ := vmaFind_mono hFind
      (Nat.le_max_left (t.size + 1) fuel)
    have h₂ := vmaFind_mono hFind'
      (Nat.le_max_right (t.size + 1) fuel)
    rw [h₁] at h₂
    exact (Option.some.inj h₂).symm

end Find

/- Of four areas, the last one is found at its last byte. -/
theorem vmaFind_spec_fourAreas :
    vmaFind 5 VmaState.fourAreas (some 0x1000#64) 0x4FFF#64 =
      some (some (0x200120#64, areaAt 0x4000)) := by
  have hInv := VmaState.fourAreas_inv
  have hSearch : SearchAreas fourAreasTree :=
    { ordered := hInv.ordered
      nonempty := by decide
      apart := by
        simp [areas, fourAreasTree, areaAt, Vma.Apart] }
  rcases vmaFind_spec hInv.holds hSearch (some 0x1000#64)
      0x4FFF#64 with
    ⟨found, hAll, _, hFound⟩
  rw [hAll 5 (by decide)]
  congr 1
  exact (hFound _).mpr ⟨by decide, by decide⟩

end FeatherOS
