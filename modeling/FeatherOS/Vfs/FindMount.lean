import FeatherOS.Library.RunningBest
import FeatherOS.Vfs.Model

/-
  The mount that a path is looked up below.

  `vfs_find_mount` compares strings, so that a target that
  ends inside of a component of the path counts as well.

  Key definitions include:
    * `AtBoundary`
    * `Above`
    * `FindMountRight`

  Key theorems include:
    * `strncmp_prefix`
    * `vfsFindMount_some`
    * `vfsFindMount_right_iff`
-/

namespace FeatherOS

open RunningBest (scan)

variable {W : Type}

--------------------
-- Ancestors
--------------------

/- No component of the path is cut behind the target. -/
def AtBoundary
    (target path : List U8) : Prop :=
  target = [slash] ∨ target = path ∨
    (path.drop target.length).head? = some slash

instance (target path : List U8) :
    Decidable (AtBoundary target path) :=
  inferInstanceAs (Decidable (_ ∨ _ ∨ _))

/- The target is a prefix of the path at a boundary. -/
def Above
    (target path : List U8) : Prop :=
  target <+: path ∧ AtBoundary target path

/- A path from the root, as a string -/
structure AbsolutePath (target : List U8) : Prop where
  absolute : target.head? = some slash
  no_nul : 0#8 ∉ target

/- The mount with the longest target above the path -/
structure IsLongestAbove
    (mounts : List (Mount W))
    (path : List U8)
    (m : Mount W) : Prop where
  mem : m ∈ mounts
  above : Above m.target path
  longest : ∀ n ∈ mounts, Above n.target path →
    n.target.length ≤ m.target.length

structure FindMountRight
    (mounts : List (Mount W))
    (path : List U8) : Prop where
  found : ∀ m, vfsFindMount mounts path = some m →
    IsLongestAbove mounts path m
  missing : vfsFindMount mounts path = none →
    ∀ m ∈ mounts, ¬ Above m.target path

/-
  A target that ends inside of a component of the path is
  shorter than some target above the path.
-/
def FindMountOk
    (mounts : List (Mount W))
    (path : List U8) : Prop :=
  ∀ m ∈ mounts, m.target <+: path →
    ¬ AtBoundary m.target path →
      ∃ n ∈ mounts, Above n.target path ∧
        m.target.length < n.target.length

--------------------
-- Comparing
--------------------

/- The whole target is compared. -/
theorem strncmp_prefix
    {target : List U8}
    (hNul : 0#8 ∉ target)
    (path : List U8) :
    strncmp path target target.length = 0 ↔ target <+: path := by
  induction target generalizing path with
  | nil => simp [strncmp]
  | cons d target ih =>
      have hd : d ≠ 0#8 := by
        rintro rfl
        exact hNul List.mem_cons_self
      have hRest := ih fun hMem => hNul (.tail _ hMem)
      have hPos : d.toNat ≠ 0 := fun hZero =>
        hd (BitVec.eq_of_toNat_eq hZero)
      cases path with
      | nil =>
          have hNe : (0#8) ≠ d := Ne.symm hd
          have hValue : strncmp [] (d :: target) (d :: target).length =
              (0#8).toNat - d.toNat :=
            if_pos (.inl hNe)
          have hZero : (0#8).toNat = 0 := rfl
          rw [hValue, hZero]
          exact iff_of_false (by omega) (by simp)
      | cons c path =>
          have hStep :
              strncmp (c :: path) (d :: target)
                  (d :: target).length =
                if c ≠ d ∨ c = 0#8 then
                  (c.toNat - d.toNat : Int)
                else
                  strncmp path target target.length :=
            rfl
          rw [hStep, List.cons_prefix_cons]
          by_cases hSame : c = d
          · subst hSame
            have hNot : ¬ (c ≠ c ∨ c = 0#8) :=
              not_or.mpr ⟨not_not.mpr rfl, hd⟩
            rw [if_neg hNot, hRest]
            exact (and_iff_right rfl).symm
          · have hValue : c.toNat ≠ d.toNat := fun hEq =>
              hSame (BitVec.eq_of_toNat_eq hEq)
            rw [if_pos (Or.inl hSame)]
            exact iff_of_false (by omega)
              fun h => hSame h.1.symm

--------------------
-- The Search
--------------------

/- What a mount counts for in the search -/
def mountScore
    (path : List U8)
    (m : Mount W) : Option Int :=
  if strncmp path m.target m.target.length = 0 then
    some m.target.length
  else
    none

/- The loop keeps the longest target, above no characters. -/
theorem vfsFindMount_scan
    (mounts : List (Mount W))
    (path : List U8) :
    vfsFindMount mounts path =
      (scan (mountScore path) 0 mounts).1 := by
  have hFold : ∀ (best : Option (Mount W) × Nat),
      mounts.foldl (RunningBest.step (mountScore path))
          (best.1, (best.2 : Int)) =
        let last := mounts.foldl
          (fun best m =>
            if best.2 < m.target.length ∧
                strncmp path m.target m.target.length = 0 then
              (some m, m.target.length)
            else
              best) best
        (last.1, (last.2 : Int)) := by
    induction mounts with
    | nil => exact fun _ => rfl
    | cons m mounts ih =>
        intro best
        have hStep :
            RunningBest.step (mountScore path)
                (best.1, (best.2 : Int)) m =
              let next :=
                if best.2 < m.target.length ∧
                    strncmp path m.target m.target.length =
                      0 then
                  (some m, m.target.length)
                else
                  best
              (next.1, (next.2 : Int)) := by
          simp only [RunningBest.step, mountScore]
          by_cases hSame :
              strncmp path m.target m.target.length = 0
          · by_cases hLonger : best.2 < m.target.length
            · simp [hSame, hLonger]
            · simp [hSame, hLonger]
          · simp [hSame]
        simp only [List.foldl_cons]
        rw [hStep]
        exact ih _
  have hAll := hFold (none, 0)
  exact congrArg Prod.fst hAll.symm

section Search

variable {mounts : List (Mount W)}
variable {path : List U8}

theorem mountScore_some
    {m : Mount W}
    (hTarget : AbsolutePath m.target)
    {n : Int} :
    mountScore path m = some n ↔
      m.target <+: path ∧ (m.target.length : Int) = n := by
  rw [mountScore, ← strncmp_prefix hTarget.no_nul path]
  split
  next hSame => simp [hSame]
  next hSame => simp [hSame]

theorem AbsolutePath.length_pos
    {target : List U8}
    (hTarget : AbsolutePath target) :
    0 < target.length := by
  cases target with
  | nil => cases hTarget.absolute
  | cons c target => exact Nat.succ_pos _

/- The mount found is the first of those with the longest prefix. -/
theorem vfsFindMount_some
    (hTargets : ∀ m ∈ mounts, AbsolutePath m.target)
    {m : Mount W}
    (hFound : vfsFindMount mounts path = some m) :
    m ∈ mounts ∧ m.target <+: path ∧
      ∀ n ∈ mounts, n.target <+: path →
        n.target.length ≤ m.target.length := by
  rw [vfsFindMount_scan] at hFound
  have hBest := RunningBest.scan_some hFound
  have hMem := hBest.mem
  rcases (mountScore_some (hTargets m hMem)).mp hBest.scores with
    ⟨hPrefix, hLength⟩
  refine ⟨hMem, hPrefix, fun n hn hOther => ?_⟩
  have hLe := hBest.highest hn
    ((mountScore_some (hTargets n hn)).mpr ⟨hOther, rfl⟩)
  omega

theorem vfsFindMount_none
    (hTargets : ∀ m ∈ mounts, AbsolutePath m.target) :
    vfsFindMount mounts path = none ↔
      ∀ m ∈ mounts, ¬ m.target <+: path := by
  rw [vfsFindMount_scan, RunningBest.scan_none]
  refine forall₂_congr fun m hm => ?_
  have hPos := (hTargets m hm).length_pos
  constructor
  · intro hAll hPrefix
    have hLe := hAll _
      ((mountScore_some (hTargets m hm)).mpr ⟨hPrefix, rfl⟩)
    omega
  · intro hNot n hScore
    exact absurd
      ((mountScore_some (hTargets m hm)).mp hScore).1 hNot

/- Prefixes of one length are the same. -/
theorem prefix_unique
    {s t : List U8}
    (hs : s <+: path)
    (ht : t <+: path)
    (hLength : s.length = t.length) :
    s = t := by
  rw [List.prefix_iff_eq_take.mp hs,
    List.prefix_iff_eq_take.mp ht, hLength]

end Search

/-
  The right mount is found if and only if every target that
  ends inside of a component is shorter than one that is
  above the path.
-/
theorem vfsFindMount_right_iff
    {mounts : List (Mount W)}
    {path : List U8}
    (hTargets : ∀ m ∈ mounts, AbsolutePath m.target) :
    FindMountRight mounts path ↔ FindMountOk mounts path := by
  constructor
  · intro hRight m hm hPrefix hInside
    cases hFound : vfsFindMount mounts path with
    | none =>
        exact absurd hPrefix
          ((vfsFindMount_none hTargets).mp hFound m hm)
    | some best =>
        have hBest := hRight.found best hFound
        rcases vfsFindMount_some hTargets hFound with
          ⟨_, hLong, hAll⟩
        refine ⟨best, hBest.mem, hBest.above,
          lt_of_le_of_ne (hAll m hm hPrefix) fun hLength => ?_⟩
        have hSame := prefix_unique hPrefix hLong hLength
        exact hInside (hSame ▸ hBest.above.2)
  · intro hOk
    constructor
    · intro m hFound
      rcases vfsFindMount_some hTargets hFound with
        ⟨hMem, hPrefix, hAll⟩
      refine ⟨hMem, ⟨hPrefix, ?_⟩,
        fun n hn hAbove => hAll n hn hAbove.1⟩
      by_contra hInside
      rcases hOk m hMem hPrefix hInside with
        ⟨n, hn, hAbove, hLonger⟩
      exact absurd (hAll n hn hAbove.1) (Nat.not_le.mpr hLonger)
    · intro hNone m hm hAbove
      exact (vfsFindMount_none hTargets).mp hNone m hm hAbove.1

/- A filesystem that has nothing to say, mounted at "/mnt" -/
def silentFs : Filesystem Unit where
  name := ⟨[], by decide⟩
  mount := fun _ _ _ kernel => (-1, none, kernel)
  unmount := none
  root := fun _ kernel => (none, kernel)

def mntMount : Mount Unit where
  target := [slash, 0x6D#8, 0x6E#8, 0x74#8]
  sb := ⟨0x1000#64, silentFs, 0x2000#64⟩

/- A mount at "/m", whose target ends inside of "/mnt" -/
def shortMount : Mount Unit :=
  { mntMount with target := [slash, 0x6D#8] }

/- "/mnt/x" is below the longer mount. -/
theorem vfsFindMount_right_longer :
    FindMountRight [shortMount, mntMount]
      (mntMount.target ++ [slash, 0x78#8]) := by
  have hTargets : ∀ m ∈ [shortMount, mntMount],
      AbsolutePath m.target := by
    simp only [List.forall_mem_cons, List.not_mem_nil,
      false_implies, implies_true, and_true]
    exact ⟨⟨rfl, by decide⟩, ⟨rfl, by decide⟩⟩
  refine (vfsFindMount_right_iff hTargets).mpr ?_
  intro m hMem _ hInside
  have hLonger : m.target.length < mntMount.target.length := by
    rcases List.mem_pair.mp hMem with rfl | rfl
    · decide
    · exact absurd (by decide) hInside
  exact ⟨mntMount, List.mem_pair.mpr (.inr rfl),
    ⟨List.prefix_append _ _, by decide⟩, hLonger⟩

/- "/mntx" is not, but the mount is found. -/
theorem vfsFindMount_inside :
    ¬ ∀ (mounts : List (Mount Unit)) (path : List U8),
      (∀ m ∈ mounts, AbsolutePath m.target) →
      AbsolutePath path → FindMountRight mounts path := by
  intro hAll
  have hRight := hAll [mntMount] (mntMount.target ++ [0x78#8])
    (List.forall_mem_singleton.mpr ⟨rfl, by decide⟩)
    ⟨rfl, by decide⟩
  have hFound :
      vfsFindMount [mntMount] (mntMount.target ++ [0x78#8]) =
        some mntMount := rfl
  have hInside := (hRight.found _ hFound).above.2
  revert hInside
  decide

end FeatherOS
