import Mathlib.Logic.Function.Basic

/-
  Slots that cache the values of a store.

  A slot that has a key shows the current value of the key:
  the latest one written, or else what is stored. A slot that
  is dirty may be ahead of the store; the value of a key
  without a slot is stored.

  Key definitions include:
    * `CachedStore`
    * `CachedStore.Coherent`

  Key rules include:
    * `CachedStore.Coherent.writeBack`
    * `CachedStore.Coherent.evict`
    * `CachedStore.Coherent.fill`
    * `CachedStore.Coherent.claim`
    * `CachedStore.Coherent.modify`
-/

/- `B` are slots, `K` are keys and `X` are values. -/
@[ext] structure CachedStore (B K X : Type) where
  key : B → Option K
  value : B → Option X
  dirty : B → Prop
  latest : K → Option X
  stored : K → X

namespace CachedStore

variable {B K X : Type}

/- The latest value written, or else the one stored. -/
def current
    (c : CachedStore B K X)
    (k : K) : X :=
  (c.latest k).getD (c.stored k)

structure Coherent (c : CachedStore B K X) : Prop where
  unique : ∀ b b' k,
    c.key b = some k → c.key b' = some k → b = b'
  shown : ∀ b k, c.key b = some k → c.value b = some (c.current k)
  kept : ∀ k, (∀ b, c.key b ≠ some k) →
    ∀ x, c.latest k = some x → c.stored k = x
  dirtied : ∀ b k, c.key b = some k → c.dirty b →
    c.latest k ≠ none

namespace Coherent

variable {c : CachedStore B K X}
variable {k : K}

/- A value without a slot is the one stored. -/
theorem current_of_uncached
    (hCoherent : c.Coherent)
    (hOut : ∀ b, c.key b ≠ some k) :
    c.current k = c.stored k := by
  unfold current
  cases hLatest : c.latest k with
  | none => rfl
  | some x =>
      rw [Option.getD_some]
      exact (hCoherent.kept k hOut x hLatest).symm

/- Slots may become clean. -/
theorem clean
    (hCoherent : c.Coherent)
    {dirty : B → Prop}
    (hLess : ∀ b, dirty b → c.dirty b) :
    Coherent { c with dirty := dirty } where
  unique := hCoherent.unique
  shown := hCoherent.shown
  kept := hCoherent.kept
  dirtied := by
    intro b k hKey hDirty
    exact hCoherent.dirtied b k hKey (hLess b hDirty)

variable {b : B}

/- A write to the store for a slot that is dirty. -/
theorem writeBack
    [DecidableEq K]
    (hCoherent : c.Coherent)
    (hKey : c.key b = some k)
    (hDirty : c.dirty b)
    (x : X) :
    Coherent
      { c with stored := Function.update c.stored k x } where
  unique := hCoherent.unique
  shown := by
    intro b' k' hKey'
    have hShown := hCoherent.shown b' k' hKey'
    by_cases hk : k' = k
    · subst hk
      have hLatest := hCoherent.dirtied b k' hKey hDirty
      rcases Option.ne_none_iff_exists'.mp hLatest with ⟨y, hy⟩
      simp only [current, hy, Option.getD_some] at hShown ⊢
      exact hShown
    · simp only [current, Function.update_of_ne hk]
      exact hShown
  kept := by
    intro k' hOut y hLatest
    have hk : k' ≠ k := by
      rintro rfl
      exact hOut b hKey
    simp only [Function.update_of_ne hk]
    exact hCoherent.kept k' hOut y hLatest
  dirtied := hCoherent.dirtied

variable [DecidableEq B]

/- The slot is given up when its value is stored. -/
theorem evict
    (hCoherent : c.Coherent)
    (hStored : ∀ k, c.key b = some k →
      c.value b = some (c.stored k)) :
    Coherent { c with key := Function.update c.key b none } := by
  have hOther : ∀ b' k,
      Function.update c.key b none b' = some k →
        b' ≠ b ∧ c.key b' = some k := by
    intro b' k hKey
    rw [Function.update_apply] at hKey
    split at hKey
    · cases hKey
    next hb => exact ⟨hb, hKey⟩
  constructor
  · intro b₁ b₂ k h₁ h₂
    exact hCoherent.unique b₁ b₂ k (hOther b₁ k h₁).2
      (hOther b₂ k h₂).2
  · intro b' k hKey
    exact hCoherent.shown b' k (hOther b' k hKey).2
  · intro k hOut x hLatest
    by_cases hThis : c.key b = some k
    · have hShown := hCoherent.shown b k hThis
      rw [hStored k hThis] at hShown
      injection hShown with hShown
      rw [hShown, current, hLatest, Option.getD_some]
    · apply hCoherent.kept k _ x hLatest
      intro b' hKey
      by_cases hb : b' = b
      · exact hThis (hb ▸ hKey)
      · apply hOut b'
        simp only [Function.update_of_ne hb]
        exact hKey
  · intro b' k hKey
    exact hCoherent.dirtied b' k (hOther b' k hKey).2

/- A slot takes over a key that no slot has. -/
theorem take
    (hCoherent : c.Coherent)
    {x : X}
    {latest : K → Option X}
    {dirty : Prop}
    (hFree : c.key b = none)
    (hOut : ∀ b', c.key b' ≠ some k)
    (hOther : ∀ k', k' ≠ k → latest k' = c.latest k')
    (hValue : (latest k).getD (c.stored k) = x)
    (hDirty : dirty → latest k ≠ none) :
    Coherent
      { c with
        key := Function.update c.key b (some k)
        value := Function.update c.value b (some x)
        dirty := Function.update c.dirty b dirty
        latest := latest } := by
  have hCases : ∀ b' k',
      Function.update c.key b (some k) b' = some k' →
        (b' = b ∧ k' = k) ∨
          (b' ≠ b ∧ k' ≠ k ∧ c.key b' = some k') := by
    intro b' k' hKey
    rw [Function.update_apply] at hKey
    split at hKey
    next hb =>
      injection hKey with hKey
      exact .inl ⟨hb, hKey.symm⟩
    next hb =>
      refine .inr ⟨hb, ?_, hKey⟩
      rintro rfl
      exact hOut b' hKey
  constructor
  · intro b₁ b₂ k' h₁ h₂
    rcases hCases b₁ k' h₁ with ⟨hb₁, hk₁⟩ | ⟨_, hk₁, hOld₁⟩
    · rcases hCases b₂ k' h₂ with ⟨hb₂, _⟩ | ⟨_, hk₂, _⟩
      · rw [hb₁, hb₂]
      · exact absurd hk₁ hk₂
    · rcases hCases b₂ k' h₂ with ⟨_, hk₂⟩ | ⟨_, _, hOld₂⟩
      · exact absurd hk₂ hk₁
      · exact hCoherent.unique b₁ b₂ k' hOld₁ hOld₂
  · intro b' k' hKey
    rcases hCases b' k' hKey with ⟨rfl, rfl⟩ | ⟨hb, hk, hOld⟩
    · simp only [Function.update_self, current]
      rw [hValue]
    · simp only [Function.update_of_ne hb, current, hOther k' hk]
      exact hCoherent.shown b' k' hOld
  · intro k' hNone y hLatest
    have hk : k' ≠ k := by
      rintro rfl
      exact hNone b (Function.update_self b (some k') c.key)
    simp only [hOther k' hk] at hLatest
    apply hCoherent.kept k' _ y hLatest
    intro b' hKey
    apply hNone b'
    have hb : b' ≠ b := by
      rintro rfl
      rw [hFree] at hKey
      cases hKey
    simp only [Function.update_of_ne hb]
    exact hKey
  · intro b' k' hKey hIs
    rcases hCases b' k' hKey with ⟨rfl, rfl⟩ | ⟨hb, hk, hOld⟩
    · simp only [Function.update_self] at hIs
      exact hDirty hIs
    · simp only [Function.update_of_ne hb] at hIs
      simp only [hOther k' hk]
      exact hCoherent.dirtied b' k' hOld hIs

/- The stored value of the key is read into the slot. -/
theorem fill
    (hCoherent : c.Coherent)
    (hFree : c.key b = none)
    (hOut : ∀ b', c.key b' ≠ some k) :
    Coherent
      { c with
        key := Function.update c.key b (some k)
        value := Function.update c.value b (some (c.stored k))
        dirty := Function.update c.dirty b False } :=
  hCoherent.take hFree hOut (fun _ _ => rfl)
    (hCoherent.current_of_uncached hOut) False.elim

variable [DecidableEq K]

/- What the slot holds counts as written for the key. -/
theorem claim
    (hCoherent : c.Coherent)
    {x : X}
    (hFree : c.key b = none)
    (hOut : ∀ b', c.key b' ≠ some k) :
    Coherent
      { c with
        key := Function.update c.key b (some k)
        value := Function.update c.value b (some x)
        dirty := Function.update c.dirty b True
        latest := Function.update c.latest k (some x) } :=
  hCoherent.take hFree hOut
    (fun k' hk => Function.update_of_ne hk (some x) c.latest)
    (by rw [Function.update_self, Option.getD_some])
    (by simp)

/- A new value is written into the slot of a key. -/
theorem modify
    (hCoherent : c.Coherent)
    (hKey : c.key b = some k)
    (dirty : B → Prop)
    (hDirty : ∀ b', b' ≠ b → dirty b' → c.dirty b')
    (x : X) :
    Coherent
      { c with
        value := Function.update c.value b (some x)
        dirty := dirty
        latest := Function.update c.latest k (some x) } := by
  have hOther : ∀ b' k', b' ≠ b → c.key b' = some k' → k' ≠ k := by
    intro b' k' hb hKey' hk
    exact hb (hCoherent.unique b' b k (hk ▸ hKey') hKey)
  constructor
  · exact hCoherent.unique
  · intro b' k' hKey'
    by_cases hb : b' = b
    · subst hb
      rw [hKey] at hKey'
      injection hKey' with hKey'
      subst hKey'
      simp only [current, Function.update_self, Option.getD_some]
    · have hk := hOther b' k' hb hKey'
      simp only [current, Function.update_of_ne hb,
        Function.update_of_ne hk]
      exact hCoherent.shown b' k' hKey'
  · intro k' hOut y hLatest
    have hk : k' ≠ k := by
      rintro rfl
      exact hOut b hKey
    simp only [Function.update_of_ne hk] at hLatest
    exact hCoherent.kept k' hOut y hLatest
  · intro b' k' hKey' hIs
    by_cases hk : k' = k
    · subst hk
      simp only [Function.update_self]
      exact Option.some_ne_none x
    · simp only [Function.update_of_ne hk]
      apply hCoherent.dirtied b' k' hKey' (hDirty b' _ hIs)
      rintro rfl
      rw [hKey] at hKey'
      injection hKey' with hKey'
      exact hk hKey'.symm

end Coherent

end CachedStore
