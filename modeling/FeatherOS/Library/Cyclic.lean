import Mathlib.Data.Nat.Basic

/-
  Positions counted around a cycle.

  `Cyclic.slot n start d` is the position `d` steps after
  `start` among `n` positions.

  Key definitions include:
    * `Cyclic.slot`

  Key rules include:
    * `Cyclic.slot_ne`
    * `Cyclic.slot_inj`
    * `Cyclic.exists_slot`
    * `Cyclic.slot_eq_start_iff`
-/

namespace Cyclic

variable {n start d e : Nat}

def slot
    (n start d : Nat) : Nat :=
  (start + d) % n

theorem slot_lt
    (hPos : 0 < n) :
    slot n start d < n :=
  Nat.mod_lt _ hPos

theorem slot_zero
    (hStart : start < n) :
    slot n start 0 = start :=
  Nat.mod_eq_of_lt hStart

/- One step further. -/
theorem slot_succ :
    (slot n start d + 1) % n = slot n start (d + 1) := by
  unfold slot
  rw [Nat.mod_add_mod, Nat.add_assoc]

/- Positions less than a whole turn apart are different. -/
theorem slot_ne
    (hLt : d < e)
    (hTurn : e < d + n) :
    slot n start d ≠ slot n start e := by
  intro hEq
  have hZero := Nat.sub_mod_eq_zero_of_mod_eq hEq.symm
  have hDiff : start + e - (start + d) = e - d := by omega
  rw [hDiff] at hZero
  have hDvd : n ∣ e - d := Nat.dvd_of_mod_eq_zero hZero
  have hLe := Nat.le_of_dvd (by omega) hDvd
  omega

theorem slot_inj
    (hd : d < n)
    (he : e < n)
    (hEq : slot n start d = slot n start e) :
    d = e := by
  rcases Nat.lt_trichotomy d e with hLt | hSame | hLt
  · exact absurd hEq (slot_ne hLt (by omega))
  · exact hSame
  · exact absurd hEq.symm (slot_ne hLt (by omega))

/- Every position is met within one turn. -/
theorem exists_slot
    {i : Nat}
    (hStart : start < n)
    (hi : i < n) :
    ∃ d < n, slot n start d = i := by
  by_cases hLe : start ≤ i
  · refine ⟨i - start, by omega, ?_⟩
    unfold slot
    rw [Nat.add_sub_cancel' hLe, Nat.mod_eq_of_lt hi]
  · refine ⟨n - start + i, by omega, ?_⟩
    have hSum : start + (n - start + i) = n + i := by omega
    unfold slot
    rw [hSum, Nat.add_mod_left, Nat.mod_eq_of_lt hi]

/- Only a whole turn leads back. -/
theorem slot_eq_start_iff
    (hStart : start < n)
    (hPos : 0 < d)
    (hTurn : d ≤ n) :
    slot n start d = start ↔ d = n := by
  unfold slot
  by_cases hEnd : start + d < n
  · rw [Nat.mod_eq_of_lt hEnd]
    omega
  · rw [Nat.mod_eq_sub_mod (Nat.le_of_not_lt hEnd),
      Nat.mod_eq_of_lt (by omega)]
    omega

/- One turn from `start` comes back to `start`. -/
theorem slot_eq_start
    (hStart : start < n)
    (hd : d < n)
    (hEq : slot n start (d + 1) = start) :
    d + 1 = n :=
  (slot_eq_start_iff hStart (Nat.succ_pos d) hd).mp hEq

end Cyclic
