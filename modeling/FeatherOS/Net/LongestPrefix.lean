import FeatherOS.Library.RunningBest
import FeatherOS.Net.Routes
import Mathlib.Order.Bounds.Basic

/-
  The route that a lookup chooses.

  The bits of a mask are counted one by one, and the search
  keeps the best route so far, so that what is found is the
  first of the routes with the longest mask.

  Key definitions include:
    * `IpAddr.ones`
    * `RouteTable.BestMatch`

  Key theorems include:
    * `prefixLen_ones`
    * `routeSearch_scan`
    * `routeLookup_longest`
-/

namespace FeatherOS

open RunningBest (scan scan_none scan_some)

--------------------
-- The Bits of a Mask
--------------------

def onesBelow
    (n : Nat)
    (mask : U8) : Nat :=
  (List.range n).countP mask.getLsbD

/- The number of one bits -/
def IpAddr.ones (a : IpAddr) : Nat :=
  (a.addr.toList.map (onesBelow 8)).sum

theorem onesBelow_zero
    (n : Nat) :
    onesBelow n 0#8 = 0 := by
  rw [onesBelow, List.countP_eq_zero]
  intro i _
  simp

theorem onesBelow_succ
    (n : Nat)
    (mask : U8) :
    onesBelow (n + 1) mask =
      (mask &&& 1#8).toNat + onesBelow n (mask >>> 1) := by
  have hLow : (mask &&& 1#8).toNat = (mask.getLsbD 0).toNat := by
    rw [BitVec.and_one_eq_setWidth_ofBool_getLsbD]
    cases mask.getLsbD 0 <;> rfl
  have hRest : (mask.getLsbD ∘ Nat.succ) =
      (mask >>> 1).getLsbD := by
    funext i
    rw [BitVec.getLsbD_ushiftRight, Nat.add_comm]
    rfl
  rw [onesBelow, List.range_succ_eq_map, List.countP_cons,
    List.countP_map, hRest, hLow, Nat.add_comm, onesBelow]
  cases mask.getLsbD 0 <;> rfl

/- Eight turns are enough for the eight bits of a mask. -/
theorem countBits_ones
    (turns len : Nat)
    (mask : U8) :
    countBits len turns mask = len + onesBelow turns mask := by
  induction turns generalizing len mask with
  | zero => rfl
  | succ turns ih =>
      rw [countBits]
      split
      next hZero => rw [hZero, onesBelow_zero, Nat.add_zero]
      next => rw [ih, onesBelow_succ, Nat.add_assoc]

theorem foldl_countBits
    (len : Nat)
    (masks : List U8) :
    masks.foldl (fun len mask => countBits len 8 mask) len =
      len + (masks.map (onesBelow 8)).sum := by
  induction masks generalizing len with
  | nil => rfl
  | cons mask masks ih =>
      rw [List.foldl_cons, ih, countBits_ones, List.map_cons,
        List.sum_cons, Nat.add_assoc]

/- The prefix length is the number of one bits. -/
theorem prefixLen_ones
    (route : Route) :
    route.prefixLen = route.netmask.ones :=
  (foldl_countBits 0 _).trans (Nat.zero_add _)

--------------------
-- The Search
--------------------

/- The route matches, with a mask that is longest. -/
structure RouteTable.BestMatch
    (t : RouteTable)
    (addr : IpAddr)
    (i : Nat) : Prop where
  inTable : i < t.routeCount
  covers : (t.routes i).covers addr
  longest : ∀ j < t.routeCount, (t.routes j).covers addr →
    (t.routes j).netmask.ones ≤ (t.routes i).netmask.ones

/- What a route counts for in the search -/
def RouteTable.score
    (t : RouteTable)
    (addr : IpAddr)
    (i : Nat) : Option Int :=
  if (t.routes i).covers addr then
    some (t.routes i).netmask.ones
  else
    none

/- The smaller indices come first. -/
theorem mem_front
    {n i j : Nat}
    {front back : List Nat}
    (hRange : List.range n = front ++ i :: back)
    (hBefore : j < i) :
    j ∈ front := by
  have hPlace : (List.range n)[front.length]? = some i := by
    rw [hRange]
    simp
  rcases List.getElem?_eq_some_iff.mp hPlace with ⟨hn, hValue⟩
  rw [List.getElem_range] at hValue
  rw [List.length_range] at hn
  have hThere : (List.range n)[j]? = some j :=
    List.getElem?_range (by omega)
  rw [hRange, List.getElem?_append_left (by omega)] at hThere
  exact List.mem_of_getElem? hThere

section Search

variable {t : RouteTable}
variable {addr : IpAddr}

theorem score_some
    {i : Nat}
    {s : Int} :
    t.score addr i = some s ↔
      (t.routes i).covers addr ∧
        (t.routes i).netmask.ones = s := by
  rw [RouteTable.score]
  split
  next hCovers => simp [hCovers]
  next hCovers => simp [hCovers]

/- The loop keeps the best route, beginning below zero. -/
theorem routeSearch_scan
    (n : Nat) :
    routeSearch t addr n =
      scan (t.score addr) (-1) (List.range n) := by
  induction n with
  | zero => rfl
  | succ n ih =>
      rw [List.range_succ, RunningBest.scan_concat, ← ih,
        routeSearch, RunningBest.step, RouteTable.score]
      by_cases hCovers : (t.routes n).covers addr
      · simp only [hCovers, true_and, if_true, prefixLen_ones,
          gt_iff_lt]
      · simp only [hCovers, false_and, if_false]

theorem routeLookup_none :
    routeLookup t (some addr) = none ↔
      ∀ i < t.routeCount, ¬ (t.routes i).covers addr := by
  simp only [routeLookup, Option.bind_some, routeSearch_scan,
    scan_none, List.mem_range]
  refine forall_congr' fun i => forall_congr' fun hi => ?_
  constructor
  · intro hAll hCovers
    have hLow := hAll _ (score_some.mpr ⟨hCovers, rfl⟩)
    omega
  · intro hCovers s hScore
    exact absurd (score_some.mp hScore).1 hCovers

/- The route found is the first of the best. -/
theorem routeLookup_isLeast
    {i : Nat}
    (hFound : routeLookup t (some addr) = some i) :
    IsLeast {i | t.BestMatch addr i} i := by
  simp only [routeLookup, Option.bind_some, routeSearch_scan]
    at hFound
  have hBest := scan_some hFound
  rcases score_some.mp hBest.scores with ⟨hCovers, hOnes⟩
  refine ⟨⟨List.mem_range.mp hBest.mem, hCovers, ?_⟩, ?_⟩
  · intro j hj hMatch
    have hLe := hBest.highest (List.mem_range.mpr hj)
      (score_some.mpr ⟨hMatch, rfl⟩)
    omega
  · intro j hj
    -- A best route ahead of the one found would be below it.
    rcases hBest.first with ⟨front, back, hRange, hFront, _⟩
    by_contra hBefore
    have hBelow := hFront j
      (mem_front hRange (not_le.mp hBefore)) _
      (score_some.mpr ⟨hj.covers, rfl⟩)
    have hTop := hj.longest i (List.mem_range.mp hBest.mem) hCovers
    omega

end Search

/-
  The lookup gives the route of least index among those that
  match with the longest mask, and none exactly when no route
  matches.
-/
theorem routeLookup_longest
    (t : RouteTable)
    (addr : IpAddr) :
    (∀ i, routeLookup t (some addr) = some i ↔
      IsLeast {i | t.BestMatch addr i} i) ∧
      (routeLookup t (some addr) = none ↔
        ∀ i < t.routeCount, ¬ (t.routes i).covers addr) := by
  refine ⟨fun i => ⟨routeLookup_isLeast, fun hLeast => ?_⟩,
    routeLookup_none⟩
  cases hFound : routeLookup t (some addr) with
  | none =>
      have hNot := routeLookup_none.mp hFound i hLeast.1.inTable
      exact absurd hLeast.1.covers hNot
  | some j =>
      rw [(routeLookup_isLeast hFound).unique hLeast]

end FeatherOS
