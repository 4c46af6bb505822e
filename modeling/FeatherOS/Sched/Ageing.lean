import FeatherOS.Sched.Weights

/-
  How fast tasks age.

  A charge adds the elapsed time over the load weight to the
  key of a task. `sched_fork` gives a task of nice value 0
  the weight 1024 and `sys_nice` gives it 64, and the weight
  of nice value 19 is 0.

  Key definitions include:
    * `SchedState.Ages`
    * `NeverFaster`
    * `WeighedInOrder`

  Key theorems include:
    * `neverFaster_iff_loads`
    * `load_inOrder_iff`
    * `weighedRun_neverFaster_iff`
-/

namespace FeatherOS

--------------------
-- The Property
--------------------

/- A charge after the time `delta` adds `d` to the key. -/
def SchedState.Ages
    (s : SchedState)
    (p : Addr)
    (delta d : U64) : Prop :=
  ∃ s',
    updateCurrCfs
        { s with clock := (s.task p).cfs.execStart + delta }
        thisCpu p = some s' ∧
      (s'.task p).vruntime = (s.task p).vruntime + d

/- Charged for one time, `p` gets no more than `q`. -/
def NeverFaster
    (s : SchedState)
    (p : Addr)
    (s' : SchedState)
    (q : Addr) : Prop :=
  ∀ delta, ∃ d d',
    s.Ages p delta d ∧ s'.Ages q delta d' ∧ d ≤ d'

/-
  The second task is not at 19. If it was forked at 0, the
  first is at -13 or below or was forked at 0 as well.
-/
def WeighedInOrder
    (last : WeightSource)
    (a : Int)
    (last' : WeightSource)
    (b : Int) : Prop :=
  b ≠ 19 ∧
    (last' = .fork → b = 0 → a ≤ -13 ∨ (a = 0 ∧ last = .fork))

--------------------
-- The Weights
--------------------

section Weights

variable {a b : Int}

/- A nice value is a place in the table. -/
theorem exists_nice
    (hLow : -20 ≤ a)
    (hHigh : a ≤ 19) :
    ∃ i : Fin 40, a = (i.val : Int) - 20 := by
  refine ⟨⟨(a + 20).toNat, ?_⟩, ?_⟩
  · omega
  · simp only
    omega

theorem niceToLoad_lt
    (hLow : -20 ≤ a)
    (hHigh : a ≤ 19) :
    (niceToLoad a).toNat < 2 ^ 13 := by
  have hTable : ∀ i : Fin 40,
      (niceToLoad ((i.val : Int) - 20)).toNat < 2 ^ 13 := by
    decide +kernel
  rcases exists_nice hLow hHigh with ⟨i, rfl⟩
  exact hTable i

/- The table falls. -/
theorem niceToLoad_le
    (hLow : -20 ≤ a)
    (hLe : a ≤ b)
    (hHigh : b ≤ 19) :
    niceToLoad b ≤ niceToLoad a := by
  have hTable : ∀ i j : Fin 40, i ≤ j →
      niceToLoad ((j.val : Int) - 20) ≤
        niceToLoad ((i.val : Int) - 20) := by
    decide +kernel
  rcases exists_nice hLow (hLe.trans hHigh) with ⟨i, rfl⟩
  rcases exists_nice (hLow.trans hLe) hHigh with ⟨j, rfl⟩
  apply hTable i j
  rw [Fin.le_def]
  omega

theorem niceToLoad_eq_zero_iff
    (hLow : -20 ≤ a)
    (hHigh : a ≤ 19) :
    niceToLoad a = 0#64 ↔ a = 19 := by
  have hTable : ∀ i : Fin 40,
      niceToLoad ((i.val : Int) - 20) = 0#64 ↔
        (i.val : Int) - 20 = 19 := by
    decide +kernel
  rcases exists_nice hLow hHigh with ⟨i, rfl⟩
  exact hTable i

theorem nice0Load_le_iff
    (hLow : -20 ≤ a)
    (hHigh : a ≤ 19) :
    nice0Load ≤ niceToLoad a ↔ a ≤ -13 := by
  have hTable : ∀ i : Fin 40,
      nice0Load ≤ niceToLoad ((i.val : Int) - 20) ↔
        (i.val : Int) - 20 ≤ -13 := by
    decide +kernel
  rcases exists_nice hLow hHigh with ⟨i, rfl⟩
  exact hTable i

/- Only a fork at 0 gives another weight than the table. -/
theorem WeightSource.load_eq
    (last : WeightSource)
    (a : Int) :
    last.load a =
      if last = .fork ∧ a = 0 then nice0Load
      else niceToLoad a := by
  cases last with
  | fork => simp [WeightSource.load, forkLoad]
  | nice => simp [WeightSource.load]

theorem WeightSource.load_lt
    (last : WeightSource)
    (hLow : -20 ≤ a)
    (hHigh : a ≤ 19) :
    (last.load a).toNat < 2 ^ 13 := by
  rw [last.load_eq]
  split
  · decide
  · exact niceToLoad_lt hLow hHigh

theorem WeightSource.niceToLoad_le_load
    (last : WeightSource)
    (a : Int) :
    niceToLoad a ≤ last.load a := by
  rw [last.load_eq]
  split
  next hZero =>
    rw [hZero.2]
    decide
  next => exact BitVec.le_refl _

/- When the weights are in the order of the nice values. -/
theorem load_inOrder_iff
    (last last' : WeightSource)
    (hLow : -20 ≤ a)
    (hLe : a ≤ b)
    (hHigh : b ≤ 19) :
    (last'.load b ≠ 0#64 ∧ last'.load b ≤ last.load a) ↔
      WeighedInOrder last a last' b := by
  unfold WeighedInOrder
  rw [last'.load_eq b]
  by_cases hZero : last' = .fork ∧ b = 0
  · rcases hZero with ⟨rfl, rfl⟩
    have hOne : nice0Load ≠ 0#64 := by decide
    have hFork :
        nice0Load ≤ last.load a ↔
          a ≤ -13 ∨ (a = 0 ∧ last = .fork) := by
      rw [last.load_eq a]
      by_cases hBoth : last = .fork ∧ a = 0
      · simp [hBoth]
      · rw [if_neg hBoth, nice0Load_le_iff hLow (by omega)]
        constructor
        · exact Or.inl
        · rintro (hFar | ⟨ha, hl⟩)
          · exact hFar
          · exact absurd ⟨hl, ha⟩ hBoth
    simp [hOne, hFork]
  · rw [if_neg hZero, ne_eq,
      niceToLoad_eq_zero_iff (hLow.trans hLe) hHigh]
    have hFree : last' = .fork → b = 0 →
        a ≤ -13 ∨ (a = 0 ∧ last = .fork) :=
      fun hl hb => absurd ⟨hl, hb⟩ hZero
    have hOrder : niceToLoad b ≤ last.load a :=
      BitVec.le_trans (niceToLoad_le hLow hLe hHigh)
        (last.niceToLoad_le_load a)
    constructor
    · exact fun h => ⟨h.1, hFree⟩
    · exact fun h => ⟨h.1, hOrder⟩

end Weights

--------------------
-- Charges
--------------------

section Charges

variable {s s' : SchedState}
variable {p q : Addr}
variable {delta d : U64}

theorem ages_iff :
    s.Ages p delta d ↔
      (s.task p).cfs.loadWeight ≠ 0#64 ∧
        d = delta * nice0Load / (s.task p).cfs.loadWeight := by
  have hElapsed :
      (s.task p).cfs.execStart + delta -
        (s.task p).cfs.execStart = delta := by
    rw [BitVec.add_comm]
    exact BitVec.add_sub_cancel _ _
  constructor
  · rintro ⟨s', hCharge, hKey⟩
    rcases updateCurrCfs_step hCharge with ⟨hStep, hLoad⟩
    refine ⟨hLoad, ?_⟩
    rw [hStep.self] at hKey
    change chargedVruntime
      ((s.task p).cfs.execStart + delta) (s.task p) = _ at hKey
    rw [chargedVruntime, hElapsed] at hKey
    exact ((BitVec.add_right_inj _).mp hKey).symm
  · rintro ⟨hLoad, rfl⟩
    let s₁ : SchedState :=
      { s with clock := (s.task p).cfs.execStart + delta }
    have hSome : (updateCurrCfs s₁ thisCpu p).isSome := by
      have hLoad₁ : (s₁.task p).cfs.loadWeight ≠ 0#64 := hLoad
      simp [updateCurrCfs, hLoad₁]
    rcases Option.isSome_iff_exists.mp hSome with ⟨s', hCharge⟩
    refine ⟨s', hCharge, ?_⟩
    rcases updateCurrCfs_step hCharge with ⟨hStep, _⟩
    rw [hStep.self]
    change chargedVruntime
      ((s.task p).cfs.execStart + delta) (s.task p) = _
    rw [chargedVruntime, hElapsed]

/- A smaller divisor gives no smaller quotient. -/
theorem udiv_le_udiv
    {n w v : U64}
    (hZero : v ≠ 0#64)
    (hLe : v ≤ w) :
    n / w ≤ n / v := by
  have hPos : 0 < v.toNat := by
    apply Nat.pos_of_ne_zero
    intro h
    exact hZero (BitVec.eq_of_toNat_eq h)
  rw [BitVec.le_def] at hLe ⊢
  rw [BitVec.toNat_udiv, BitVec.toNat_udiv]
  exact Nat.div_le_div_left hLe hPos

/- The time `v * w` tells two small weights apart. -/
theorem udiv_of_mul
    {v w : U64}
    (hv : v.toNat < 2 ^ 13)
    (hw : w.toNat < 2 ^ 13)
    (hZero : w ≠ 0#64) :
    (v * w * nice0Load / w).toNat = v.toNat * 1024 := by
  have hPos : 0 < w.toNat := by
    apply Nat.pos_of_ne_zero
    intro h
    exact hZero (BitVec.eq_of_toNat_eq h)
  have hMul : v.toNat * w.toNat < 2 ^ 13 * 2 ^ 13 :=
    Nat.mul_lt_mul'' hv hw
  have hLoad : nice0Load.toNat = 1024 := rfl
  have hFirst : (v * w).toNat = v.toNat * w.toNat := by
    rw [BitVec.toNat_mul]
    apply Nat.mod_eq_of_lt
    omega
  have hSecond : (v * w * nice0Load).toNat =
      v.toNat * 1024 * w.toNat := by
    rw [BitVec.toNat_mul, hFirst, hLoad,
      Nat.mod_eq_of_lt (by omega)]
    exact Nat.mul_right_comm _ _ _
  rw [BitVec.toNat_udiv, hSecond]
  exact Nat.mul_div_cancel _ hPos

/- For small weights the order of ageing is theirs. -/
theorem neverFaster_iff_loads
    (hp : (s.task p).cfs.loadWeight.toNat < 2 ^ 13)
    (hq : (s'.task q).cfs.loadWeight.toNat < 2 ^ 13) :
    NeverFaster s p s' q ↔
      (s'.task q).cfs.loadWeight ≠ 0#64 ∧
        (s'.task q).cfs.loadWeight ≤
          (s.task p).cfs.loadWeight := by
  unfold NeverFaster
  simp only [ages_iff]
  generalize (s.task p).cfs.loadWeight = w at hp ⊢
  generalize (s'.task q).cfs.loadWeight = v at hq ⊢
  constructor
  · intro hAll
    rcases hAll (v * w) with
      ⟨_, _, ⟨hw, rfl⟩, ⟨hv, rfl⟩, hLe⟩
    refine ⟨hv, ?_⟩
    have hLeft := udiv_of_mul hq hp hw
    have hRight := udiv_of_mul hp hq hv
    rw [BitVec.mul_comm w v] at hRight
    rw [BitVec.le_def, hLeft, hRight] at hLe
    rw [BitVec.le_def]
    omega
  · rintro ⟨hv, hLe⟩ delta
    have hw : w ≠ 0#64 := by
      rintro rfl
      exact hv (BitVec.le_zero_iff.mp hLe)
    exact ⟨_, _, ⟨hw, rfl⟩, ⟨hv, rfl⟩, udiv_le_udiv hv hLe⟩

end Charges

--------------------
-- Histories
--------------------

/-
  Two tasks, weighed in any two histories: exactly when the
  one with the lower nice value never ages faster.
-/
theorem weighedRun_neverFaster_iff
    {s₀ s₀' s s' : SchedState}
    {source source' : Addr → Option WeightSource}
    {ops ops' : List (Option Addr × SchedCall)}
    {p q : Addr}
    {last last' : WeightSource}
    (hRun : Run weighedStep (s₀, fun _ => none) ops (s, source))
    (hRun' :
      Run weighedStep (s₀', fun _ => none) ops' (s', source'))
    (hLast : source p = some last)
    (hLast' : source' q = some last')
    (hLow : -20 ≤ (s.task p).priority)
    (hLe : (s.task p).priority ≤ (s'.task q).priority)
    (hHigh : (s'.task q).priority ≤ 19) :
    NeverFaster s p s' q ↔
      WeighedInOrder last (s.task p).priority
        last' (s'.task q).priority := by
  have hp := weighedRun_load hRun hLast
  have hq := weighedRun_load hRun' hLast'
  rw [neverFaster_iff_loads, hp, hq]
  · exact load_inOrder_iff last last' hLow hLe hHigh
  · rw [hp]
    exact last.load_lt hLow (hLe.trans hHigh)
  · rw [hq]
    exact last'.load_lt (hLow.trans hLe) hHigh

/- A task is niced and another one forked at 0. -/
def niceThenFork
    (increment : Int) :
    List (Option Addr × SchedCall) :=
  [(none, .fork (some taskA)), (some taskA, .nice increment),
    (none, .fork (some taskB))]

theorem weighedRun_neverFaster_iff_far :
    ∃ s, Run schedStepAs SchedState.ready (niceThenFork (-20)) s ∧
      NeverFaster s taskA s taskB := by
  have hEnd :
      (schedCalls 4 SchedState.ready (niceThenFork (-20))).map
        (fun s => ((s.task taskA).priority,
          (s.task taskB).priority)) =
      some (-20, 0) := by
    decide +kernel
  rcases Option.map_eq_some_iff.mp hEnd with
    ⟨s, hCalls, hFacts⟩
  simp only [Prod.mk.injEq] at hFacts
  rcases hFacts with ⟨hA, hB⟩
  have hRun := weighedRun_of_schedCalls (fun _ => none) hCalls
  refine ⟨s, run_of_schedCalls hCalls, ?_⟩
  rw [weighedRun_neverFaster_iff (p := taskA) (q := taskB)
    hRun hRun rfl rfl (by rw [hA]) (by rw [hA, hB]; decide)
    (by rw [hB]; decide), hA, hB]
  exact ⟨by decide, fun _ _ => Or.inl (by decide)⟩

/- A task at -5 ages faster than one that was forked at 0. -/
theorem niced_ages_faster :
    ¬ ∀ (s₀ s₀' s s' : SchedState)
        (source source' : Addr → Option WeightSource)
        (ops ops' : List (Option Addr × SchedCall))
        (p q : Addr),
      Run weighedStep (s₀, fun _ => none) ops (s, source) →
        Run weighedStep (s₀', fun _ => none) ops' (s', source') →
        source p ≠ none → source' q ≠ none →
        -20 ≤ (s.task p).priority →
        (s.task p).priority ≤ (s'.task q).priority →
        (s'.task q).priority ≤ 19 →
        NeverFaster s p s' q := by
  intro hAll
  have hEnd :
      (schedCalls 4 SchedState.ready (niceThenFork (-5))).map
        (fun s => ((s.task taskA).priority,
          (s.task taskA).cfs.loadWeight,
          (s.task taskB).priority,
          (s.task taskB).cfs.loadWeight)) =
      some (-5, 195#64, 0, 1024#64) := by
    decide +kernel
  rcases Option.map_eq_some_iff.mp hEnd with
    ⟨s, hCalls, hFacts⟩
  simp only [Prod.mk.injEq] at hFacts
  rcases hFacts with ⟨hA, hLoadA, hB, hLoadB⟩
  have hRun := weighedRun_of_schedCalls (fun _ => none) hCalls
  have hNever := hAll SchedState.ready SchedState.ready s s _ _
    _ _ taskA taskB hRun hRun (by decide) (by decide)
    (by rw [hA]; decide) (by rw [hA, hB]; decide)
    (by rw [hB]; decide)
  rw [neverFaster_iff_loads (by rw [hLoadA]; decide)
    (by rw [hLoadB]; decide), hLoadA, hLoadB] at hNever
  revert hNever
  decide

end FeatherOS
