import FeatherOS.Library.Cyclic
import Mathlib.Data.List.Range
import Mathlib.Logic.Function.Basic

/-
  Cells of a buffer read and written around its end.

  `cells buf size start n` lists the `n` cells from `start`
  on, going on at cell 0 behind the last one. A block written
  around the end is described by what it leaves in the
  buffer, not by the copies that write it.

  Key definitions include:
    * `CyclicBuffer.copy`
    * `CyclicBuffer.cells`
    * `CyclicBuffer.Puts`

  Key rules include:
    * `CyclicBuffer.front_copy_behind`
    * `CyclicBuffer.copy_puts`
    * `CyclicBuffer.copy_copy_puts`
    * `CyclicBuffer.Puts.cells_append`
-/

namespace CyclicBuffer

variable {α : Type}

--------------------
-- Copies
--------------------

/- `n` cells of `src` from `offset` on, put at `start`. -/
def copy
    (dest : Nat → α)
    (start : Nat)
    (src : Nat → α)
    (offset n : Nat) :
    Nat → α :=
  fun i =>
    if start ≤ i ∧ i < start + n then src (offset + (i - start))
    else dest i

theorem copy_inside
    {dest src : Nat → α}
    {start offset n i : Nat}
    (hLt : i < n) :
    copy dest start src offset n (start + i) =
      src (offset + i) := by
  have hIn : start ≤ start + i ∧ start + i < start + n := by
    omega
  simp only [copy, if_pos hIn, Nat.add_sub_cancel_left]

theorem copy_outside
    {dest src : Nat → α}
    {start offset n i : Nat}
    (hOut : i < start ∨ start + n ≤ i) :
    copy dest start src offset n i = dest i := by
  have hNot : ¬ (start ≤ i ∧ i < start + n) := by omega
  simp only [copy, if_neg hNot]

@[simp] theorem copy_zero
    (dest src : Nat → α)
    (start offset : Nat) :
    copy dest start src offset 0 = dest := by
  funext i
  exact copy_outside (by omega)

/- One cell more -/
theorem copy_succ
    (dest src : Nat → α)
    (start offset n : Nat) :
    copy dest start src offset (n + 1) =
      Function.update (copy dest start src offset n)
        (start + n) (src (offset + n)) := by
  funext i
  rw [Function.update_apply]
  by_cases hi : i = start + n
  · subst hi
    rw [if_pos rfl, copy_inside (by omega)]
  · rw [if_neg hi]
    by_cases hIn : start ≤ i ∧ i < start + n
    · have hLonger : start ≤ i ∧ i < start + (n + 1) := by omega
      simp only [copy, if_pos hIn, if_pos hLonger]
    · rw [copy_outside (by omega), copy_outside (by omega)]

--------------------
-- Reading Around The End
--------------------

/- The first `n` cells of a buffer. -/
def front
    (buf : Nat → α)
    (n : Nat) :
    List α :=
  (List.range n).map buf

@[simp] theorem length_front
    (buf : Nat → α)
    (n : Nat) :
    (front buf n).length = n := by
  simp [front]

variable {n size start : Nat}

theorem front_congr
    {buf buf' : Nat → α}
    (hEq : ∀ i < n, buf i = buf' i) :
    front buf n = front buf' n :=
  List.map_congr_left fun i hi =>
    hEq i (List.mem_range.mp hi)

/- The cells that hold a list -/
theorem front_getD
    (l : List α)
    (d : α) :
    front (fun i => l.getD i d) l.length = l := by
  apply List.ext_getElem
  · exact length_front _ _
  · intro i _ hi
    simp [front, hi]

/- The first cells and those behind them. -/
theorem front_add
    (buf : Nat → α)
    (m n : Nat) :
    front buf (m + n) =
      front buf m ++ front (fun i => buf (m + i)) n := by
  unfold front
  rw [List.range_add, List.map_append, List.map_map]
  rfl

theorem front_succ
    (buf : Nat → α)
    (n : Nat) :
    front buf (n + 1) = front buf n ++ [buf n] :=
  front_add buf n 1

/- A cell of the front is written. -/
theorem front_update
    (buf : Nat → α)
    (n i : Nat)
    (x : α) :
    front (Function.update buf i x) n = (front buf n).set i x := by
  apply List.ext_getElem?
  intro j
  rw [List.getElem?_set]
  simp only [front, List.getElem?_map, List.length_map,
    List.length_range]
  grind [Function.update_apply]

/- The cell behind the front is written. -/
theorem front_update_end
    (buf : Nat → α)
    (n : Nat)
    (x : α) :
    front (Function.update buf n x) n = front buf n := by
  rw [front_update]
  exact List.set_eq_of_length_le (length_front buf n).le

theorem front_dropLast
    (buf : Nat → α)
    (n : Nat) :
    (front buf n).dropLast = front buf (n - 1) := by
  cases n with
  | zero => rfl
  | succ n =>
      rw [front_succ, List.dropLast_concat]
      rfl

/- A block copied to the front -/
theorem front_copy_zero
    (dest src : Nat → α)
    (offset n : Nat) :
    front (copy dest 0 src offset n) n =
      front (fun i => src (offset + i)) n := by
  refine front_congr fun i hi => ?_
  have hCopy := @copy_inside _ dest src 0 offset n i hi
  rwa [Nat.zero_add] at hCopy

/- A block copied behind the first cells -/
theorem front_copy_behind
    (dest src : Nat → α)
    (start offset n : Nat) :
    front (copy dest start src offset n) (start + n) =
      front dest start ++ front (fun i => src (offset + i)) n := by
  rw [front_add]
  congr 1
  · exact front_congr fun i hi => copy_outside (.inl hi)
  · exact front_congr fun i hi => copy_inside hi

/- The `n` cells from `start` on, around the end. -/
def cells
    (buf : Nat → α)
    (size start n : Nat) :
    List α :=
  front (fun i => buf ((start + i) % size)) n

@[simp] theorem length_cells
    (buf : Nat → α)
    (size start n : Nat) :
    (cells buf size start n).length = n :=
  length_front _ _

/- The first cells and the rest. -/
theorem cells_add
    (buf : Nat → α)
    (size start m n : Nat) :
    cells buf size start (m + n) =
      cells buf size start m ++
        cells buf size ((start + m) % size) n := by
  unfold cells front
  rw [List.range_add, List.map_append, List.map_map]
  congr 1
  refine List.map_congr_left fun i _ => ?_
  simp only [Function.comp_apply, Nat.mod_add_mod,
    Nat.add_assoc]

/- The first cell and the rest -/
theorem cells_cons
    (buf : Nat → α)
    (size start n : Nat) :
    cells buf size start (n + 1) =
      buf (start % size) ::
        cells buf size ((start + 1) % size) n := by
  rw [Nat.add_comm n 1, cells_add]
  rfl

/- Before the end nothing wraps. -/
theorem cells_eq_front
    {buf : Nat → α}
    (hFits : start + n ≤ size) :
    cells buf size start n =
      front (fun i => buf (start + i)) n := by
  refine front_congr fun i hi => ?_
  rw [Nat.mod_eq_of_lt (by omega)]

/- One copy reads a block before the end. -/
theorem front_copy
    {dest src : Nat → α}
    (hFits : start + n ≤ size) :
    front (copy dest 0 src start n) n =
      cells src size start n := by
  rw [cells_eq_front hFits]
  exact front_copy_zero dest src start n

/- Two copies read a block that wraps. -/
theorem front_copy_copy
    {dest src : Nat → α}
    (hStart : start < size)
    (hFits : n ≤ size) :
    front
        (copy (copy dest 0 src start (size - start))
          (size - start) src 0 (n - (size - start)))
        n =
      cells src size start n := by
  refine front_congr fun i hi => ?_
  by_cases hFirst : i < size - start
  · have hCopy :=
      @copy_inside _ dest src 0 start (size - start) i hFirst
    rw [Nat.zero_add] at hCopy
    rw [copy_outside (Or.inl hFirst), hCopy,
      Nat.mod_eq_of_lt (by omega)]
  · rcases Nat.exists_eq_add_of_le (Nat.le_of_not_lt hFirst)
      with ⟨k, rfl⟩
    have hSum : start + (size - start + k) = size + k := by
      omega
    rw [copy_inside (by omega), hSum, Nat.add_mod_left,
      Nat.mod_eq_of_lt (by omega), Nat.zero_add]

--------------------
-- Writing Around The End
--------------------

/-
  `buf'` is `buf` with `n` cells of `src` written from
  `start` on, around the end.
-/
structure Puts
    (buf buf' : Nat → α)
    (size start n : Nat)
    (src : Nat → α) : Prop where
  new : ∀ i < n, buf' ((start + i) % size) = src i
  old : ∀ j < size, (∀ i < n, (start + i) % size ≠ j) →
    buf' j = buf j

/- One copy is enough before the end. -/
theorem copy_puts
    {buf src : Nat → α}
    (hFits : start + n ≤ size) :
    Puts buf (copy buf start src 0 n) size start n src where
  new i hi := by
    rw [Nat.mod_eq_of_lt (by omega), copy_inside hi,
      Nat.zero_add]
  old j _ hNot := by
    refine copy_outside ?_
    by_contra hIn
    refine hNot (j - start) (by omega) ?_
    rw [Nat.mod_eq_of_lt (by omega)]
    omega

/- Two copies write a block that wraps. -/
theorem copy_copy_puts
    {buf src : Nat → α}
    (hStart : start < size)
    (hWraps : size < start + n)
    (hFits : n ≤ size) :
    Puts buf
      (copy (copy buf start src 0 (size - start)) 0 src
        (size - start) (n - (size - start)))
      size start n src where
  new i hi := by
    by_cases hFirst : start + i < size
    · rw [Nat.mod_eq_of_lt hFirst,
        copy_outside (by omega), copy_inside (by omega),
        Nat.zero_add]
    · have hMod : (start + i) % size =
          0 + (i - (size - start)) := by
        rw [Nat.mod_eq_sub_mod (by omega),
          Nat.mod_eq_of_lt (by omega)]
        omega
      rw [hMod, copy_inside (by omega)]
      congr 1
      omega
  old j hj hNot := by
    have hLow : n - (size - start) ≤ j := by
      by_contra hIn
      refine hNot (j + (size - start)) (by omega) ?_
      have hSum : start + (j + (size - start)) = size + j := by
        omega
      rw [hSum, Nat.add_mod_left, Nat.mod_eq_of_lt hj]
    have hHigh : j < start := by
      by_contra hIn
      refine hNot (j - start) (by omega) ?_
      rw [Nat.mod_eq_of_lt (by omega)]
      omega
    rw [copy_outside (by omega), copy_outside (by omega)]

namespace Puts

variable {buf buf' src : Nat → α}
variable {size start len n : Nat}

/- A block written behind the cells in use joins them. -/
theorem cells_append
    (hSize : 0 < size)
    (hRoom : len + n ≤ size)
    (hPuts :
      Puts buf buf' size ((start + len) % size) n src) :
    cells buf' size start (len + n) =
      cells buf size start len ++ front src n := by
  rw [cells_add]
  congr 1
  · refine front_congr fun i hi => ?_
    refine hPuts.old _ (Nat.mod_lt _ hSize) fun j hj => ?_
    rw [Nat.mod_add_mod, Nat.add_assoc]
    exact (Cyclic.slot_ne (by omega) (by omega)).symm
  · exact front_congr hPuts.new

end Puts

/- One cell is written behind the cells in use. -/
theorem cells_put
    {buf : Nat → α}
    {size start len : Nat}
    (hRoom : len < size)
    (x : α) :
    cells (Function.update buf ((start + len) % size) x) size
        start (len + 1) =
      cells buf size start len ++ [x] := by
  have hLast : cells (Function.update buf ((start + len) % size) x)
      size ((start + len) % size) 1 = [x] := by
    rw [cells_cons, Nat.mod_mod, Function.update_self]
    rfl
  rw [cells_add, hLast]
  congr 1
  refine front_congr fun i hi => Function.update_of_ne ?_ _ _
  exact Cyclic.slot_ne hi (by omega)

end CyclicBuffer
