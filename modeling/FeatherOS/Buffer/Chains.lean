import FeatherOS.Buffer.Model
import FeatherOS.Library.Buckets
import FeatherOS.Library.Run

/-
  The hash chains of the buffer cache.

  A buffer that is used for another sector is put on the
  chain of that sector and not taken off the one it is on.
  The chains are lists of buffers exactly as long as every
  lookup that misses finds a free buffer that is new.

  Key definitions include:
    * `BufferState.Structured`
    * `FreshOk`

  Key theorems include:
    * `bufferStep_structured_iff`
    * `bufferRun_structured_iff`
-/

namespace FeatherOS

section Chains

variable {W : Type}
variable {devices : Addr → BlockDevice W}

--------------------
-- The Property
--------------------

/- The chains hold the lists, by the sectors of the buffers. -/
def BufferState.Held
    (s : BufferState W)
    (lists : U32 → List BufferPtr) : Prop :=
  Buckets (fun b => (s.cache b).next) s.hashtable
    (fun b => hashSector (s.cache b).sector) lists

/-
  Every chain ends, visits no buffer twice and holds buffers
  whose sector has its hash.
-/
def BufferState.Structured (s : BufferState W) : Prop :=
  ∃ lists, s.Held lists

/- No free buffer that would be taken has been used before. -/
def BufferState.FreeIsNew (s : BufferState W) : Prop :=
  ∀ i, freeBuffer s = some i → (s.cache i).flags = 0#32

/- A lookup that misses gets a buffer that is new. -/
def FreshOk
    (devices : Addr → BlockDevice W)
    (s : BufferState W) :
    BufferCall → Prop
  | .bread dev sector _ =>
      Attached devices dev →
        (∃ b, (s.cache b).Holds sector) ∨ s.FreeIsNew
  | .getblk dev sector _ =>
      Attached devices dev →
        (∃ b, (s.cache b).Names sector ∧
          (s.cache b).flags ≠ 0#32) ∨ s.FreeIsNew
  | .brelse _ => True

/- What `buffer_cache_init` leaves. -/
def BufferState.Started (s : BufferState W) : Prop :=
  ∃ s₀, s = bufferCacheInit s₀

--------------------
-- Reading Changed States
--------------------

namespace BufferState

@[simp] theorem cache_modifyHead
    (s : BufferState W)
    (p q : BufferPtr)
    (f : BufferHead → BufferHead) :
    (s.modifyHead p f).cache q =
      if q = p then f (s.cache p) else s.cache q := by
  simp [modifyHead, Function.update_apply]

@[simp] theorem hashtable_modifyHead
    (s : BufferState W)
    (p : BufferPtr)
    (f : BufferHead → BufferHead) :
    (s.modifyHead p f).hashtable = s.hashtable := rfl

end BufferState

/- What a free buffer becomes; the other buffers stay. -/
structure UseSpec
    (s : BufferState W)
    (bh : BufferPtr)
    (sector : U64)
    (s' : BufferState W) : Prop where
  named : (s'.cache bh).sector = sector
  used : (s'.cache bh).flags ≠ 0#32
  next : (s'.cache bh).next = s.hashtable (hashSector sector)
  other : ∀ q, q ≠ bh → s'.cache q = s.cache q
  table : s'.hashtable =
    Function.update s.hashtable (hashSector sector) (some bh)

theorem writeBack_cache
    (devices : Addr → BlockDevice W)
    (s : BufferState W)
    (dev : Option Addr)
    (bh : BufferPtr) :
    (writeBack devices s dev bh).cache = s.cache ∧
      (writeBack devices s dev bh).hashtable = s.hashtable := by
  unfold writeBack
  split
  · exact ⟨rfl, rfl⟩
  · exact ⟨rfl, rfl⟩

theorem ensureData_frame
    (s : BufferState W)
    (bh q : BufferPtr) :
    ((ensureData s bh).cache q).sector = (s.cache q).sector ∧
      ((ensureData s bh).cache q).flags = (s.cache q).flags ∧
      (q ≠ bh → (ensureData s bh).cache q = s.cache q) ∧
      (ensureData s bh).hashtable = s.hashtable := by
  unfold ensureData
  cases (s.cache bh).data with
  | some data => exact ⟨rfl, rfl, fun _ => rfl, rfl⟩
  | none =>
      by_cases hq : q = bh
      · simp [hq]
      · simp [hq]

theorem setupBuffer_frame
    (devices : Addr → BlockDevice W)
    (s : BufferState W)
    (dev : Option Addr)
    (bh : BufferPtr)
    (sector : U64)
    (size flags : U32) :
    ((setupBuffer devices s dev bh sector size flags).cache
        bh).sector = sector ∧
      ((setupBuffer devices s dev bh sector size flags).cache
        bh).flags = flags ∧
      (∀ q, q ≠ bh →
        (setupBuffer devices s dev bh sector size flags).cache q =
          s.cache q) ∧
      (setupBuffer devices s dev bh sector size
        flags).hashtable = s.hashtable := by
  rcases writeBack_cache devices s dev bh with
    ⟨hCache, hTable⟩
  unfold setupBuffer
  refine ⟨?_, ?_, ?_, ?_⟩
  · rw [(ensureData_frame _ bh bh).1]
    simp
  · rw [(ensureData_frame _ bh bh).2.1]
    simp
  · intro q hq
    rw [(ensureData_frame _ bh q).2.2.1 hq]
    simp [hq, hCache]
  · rw [(ensureData_frame _ bh bh).2.2.2]
    simp [hTable]

variable {sector : U64}
variable {bh : BufferPtr}

theorem linkBuffer_use
    {s s₁ : BufferState W}
    (hSector : (s₁.cache bh).sector = sector)
    (hFlags : (s₁.cache bh).flags ≠ 0#32)
    (hOther : ∀ q, q ≠ bh → s₁.cache q = s.cache q)
    (hTable : s₁.hashtable = s.hashtable) :
    UseSpec s bh sector
      (linkBuffer s₁ (hashSector sector) bh) where
  named := by simp [linkBuffer, hSector]
  used := by simp [linkBuffer, hFlags]
  next := by simp [linkBuffer, hTable]
  other q hq := by simp [linkBuffer, hq, hOther q hq]
  table := by simp [linkBuffer, hTable]

theorem fillBuffer_frame
    (devices : Addr → BlockDevice W)
    (s : BufferState W)
    (dev : Option Addr)
    (bh : BufferPtr)
    (sector : U64) :
    ((fillBuffer devices s dev bh sector).cache bh).sector =
        (s.cache bh).sector ∧
      ((fillBuffer devices s dev bh sector).cache bh).flags =
        (s.cache bh).flags ||| bufferValid ∧
      (∀ q, q ≠ bh →
        (fillBuffer devices s dev bh sector).cache q =
          s.cache q) ∧
      (fillBuffer devices s dev bh sector).hashtable =
        s.hashtable := by
  unfold fillBuffer
  refine ⟨by simp, by simp, ?_, rfl⟩
  intro q hq
  simp [hq]

--------------------
-- Walking A Chain
--------------------

section Walks

variable {s : BufferState W}
variable {wanted : BufferHead → Bool}
variable {head : Option BufferPtr}
variable {cells : List BufferPtr}

/- The loop ends at the first wanted buffer of the chain. -/
theorem findBuffer_eq_find
    (hChain : Chain (fun b => (s.cache b).next) head cells)
    {fuel : Nat}
    {found : Option BufferPtr}
    (hFound : findBuffer wanted s fuel head = some found) :
    found = cells.find? fun b => wanted (s.cache b) := by
  induction cells generalizing fuel head with
  | nil =>
      rw [Chain.nil_iff] at hChain
      subst hChain
      cases fuel with
      | zero => simp [findBuffer] at hFound
      | succ fuel =>
          simpa [findBuffer] using hFound.symm
  | cons b cells ih =>
      rcases hChain with ⟨rfl, hCells⟩
      cases fuel with
      | zero => simp [findBuffer] at hFound
      | succ fuel =>
          rw [findBuffer] at hFound
          split at hFound
          next hWanted =>
            simpa [hWanted] using hFound.symm
          next hWanted =>
            simpa [hWanted] using ih hCells hFound

/- It has a turn for every buffer and one for the end. -/
theorem findBuffer_returns
    (wanted : BufferHead → Bool)
    (hChain : Chain (fun b => (s.cache b).next) head cells) :
    ∃ found,
      findBuffer wanted s (cells.length + 1) head =
        some found := by
  induction cells generalizing head with
  | nil =>
      rw [Chain.nil_iff] at hChain
      subst hChain
      exact ⟨none, rfl⟩
  | cons b cells ih =>
      rcases hChain with ⟨rfl, hCells⟩
      rw [List.length_cons, findBuffer]
      split
      · exact ⟨some b, rfl⟩
      · exact ih hCells

end Walks

--------------------
-- Using A Free Buffer
--------------------

/- The chains hold exactly the buffers that were used. -/
structure BufferState.Ok
    (s : BufferState W)
    (lists : U32 → List BufferPtr) : Prop where
  held : s.Held lists
  used : ∀ b,
    (s.cache b).flags ≠ 0#32 ↔
      b ∈ lists (hashSector (s.cache b).sector)

section Uses

variable {s s' : BufferState W}
variable {lists : U32 → List BufferPtr}
variable {bh : BufferPtr}
variable {sector : U64}

theorem BufferState.Ok.not_mem
    (hOk : s.Ok lists)
    (hNew : (s.cache bh).flags = 0#32)
    (c : U32) :
    bh ∉ lists c := by
  intro hMem
  have hPlace := hOk.held.placed c bh hMem
  rw [← hPlace] at hMem
  exact (hOk.used bh).mpr hMem hNew

/- A new buffer comes in front of its chain. -/
theorem BufferState.Ok.use_new
    (hOk : s.Ok lists)
    (hUse : UseSpec s bh sector s')
    (hNew : (s.cache bh).flags = 0#32) :
    s'.Ok
      (Function.update lists (hashSector sector)
        (bh :: lists (hashSector sector))) := by
  have hOut := hOk.not_mem hNew
  have hPlaced :
      Buckets (fun b => (s.cache b).next) s.hashtable
        (fun b => hashSector (s'.cache b).sector) lists := by
    apply hOk.held.congr
    · exact fun _ _ _ => rfl
    · exact fun _ => rfl
    · intro c q hq
      have hNe : q ≠ bh := fun h => hOut c (h ▸ hq)
      rw [hUse.other q hNe]
  constructor
  · apply hPlaced.push hOut
    · rw [hUse.named]
    · simp [hUse.table]
    · intro c hc
      simp [hUse.table, hc]
    · exact hUse.next
    · intro q hq
      rw [hUse.other q hq]
  · intro q
    by_cases hq : q = bh
    · subst hq
      simp [hUse.used, hUse.named]
    · rw [hUse.other q hq, hOk.used q]
      by_cases hHash :
          hashSector (s.cache q).sector = hashSector sector
      · simp [hHash, hq]
      · simp [hHash]

/-
  A buffer that is on a chain is reached from its new place
  and from its old one.
-/
theorem BufferState.Ok.use_linked
    (hOk : s.Ok lists)
    (hUse : UseSpec s bh sector s')
    (hOld : (s.cache bh).flags ≠ 0#32) :
    ¬ s'.Structured := by
  rintro ⟨lists', hHeld⟩
  have hMem := (hOk.used bh).mp hOld
  have hSame : ∀ q, q ≠ bh →
      (s'.cache q).next = (s.cache q).next := by
    intro q hq
    rw [hUse.other q hq]
  by_cases hHash :
      hashSector (s.cache bh).sector = hashSector sector
  · -- its new link leads back to it
    rw [hHash] at hMem
    have hChain := hHeld.chain (hashSector sector)
    have hNodup := hHeld.nodup (hashSector sector)
    rw [hUse.table, Function.update_self] at hChain
    cases hList : lists' (hashSector sector) with
    | nil => simp [hList] at hChain
    | cons q rest =>
        rw [hList] at hChain hNodup
        rcases hChain with ⟨hHead, hRest⟩
        injection hHead with hHead
        subst hHead
        change Chain _ ((s'.cache bh).next) rest at hRest
        rw [hUse.next] at hRest
        have hAgain : bh ∈ rest :=
          (hOk.held.chain _).reaches hSame hMem hRest
        exact (List.nodup_cons.mp hNodup).1 hAgain
  · -- its old chain still leads to it
    have hChain :=
      hHeld.chain (hashSector (s.cache bh).sector)
    rw [hUse.table, Function.update_of_ne hHash] at hChain
    have hAgain :=
      (hOk.held.chain _).reaches hSame hMem hChain
    have hPlace := hHeld.placed _ bh hAgain
    change hashSector (s'.cache bh).sector = _ at hPlace
    rw [hUse.named] at hPlace
    exact hHash hPlace.symm

/- Holding a buffer changes no chain. -/
theorem BufferState.Ok.modify_refCount
    (hOk : s.Ok lists)
    (f : U32 → U32) :
    (s.modifyHead bh fun b =>
      { b with refCount := f b.refCount }).Ok lists := by
  have hKeep : ∀ q,
      (((s.modifyHead bh fun b =>
          { b with refCount := f b.refCount }).cache q).next =
        (s.cache q).next) ∧
      (((s.modifyHead bh fun b =>
          { b with refCount := f b.refCount }).cache q).sector =
        (s.cache q).sector) ∧
      (((s.modifyHead bh fun b =>
          { b with refCount := f b.refCount }).cache q).flags =
        (s.cache q).flags) := by
    intro q
    by_cases hq : q = bh
    · simp [hq]
    · simp [hq]
  constructor
  · apply hOk.held.congr
    · exact fun _ q _ => (hKeep q).1
    · exact fun _ => rfl
    · intro _ q _
      rw [(hKeep q).2.1]
  · intro q
    rw [(hKeep q).2.1, (hKeep q).2.2]
    exact hOk.used q

end Uses

--------------------
-- The Calls
--------------------

section Lookups

variable {s s' : BufferState W}
variable {lists : U32 → List BufferPtr}
variable {wanted : BufferHead → Bool}
variable {use : BufferState W → BufferPtr → BufferState W}
variable {fuel : Nat}
variable {dev : Option Addr}
variable {sector : U64}
variable {answer : Option BufferPtr}

/- A lookup is refused, finds its buffer or takes a free one. -/
theorem lookupBuffer_split
    (hCall :
      lookupBuffer devices wanted use fuel s dev sector =
        some (answer, s')) :
    (¬ Attached devices dev ∧ answer = none ∧ s' = s) ∨
    Attached devices dev ∧
      ∃ found,
        findBuffer wanted s fuel
            (s.hashtable (hashSector sector)) = some found ∧
        ((∃ bh, found = some bh ∧ answer = some bh ∧
            s' = s.modifyHead bh fun b =>
              { b with refCount := b.refCount + 1#32 }) ∨
          (found = none ∧ freeBuffer s = none ∧ answer = none ∧
            s' = s) ∨
          ∃ bh, found = none ∧ freeBuffer s = some bh ∧
            answer = some bh ∧ s' = use s bh) := by
  unfold lookupBuffer at hCall
  cases dev with
  | none =>
      left
      simp only [Option.some.injEq, Prod.mk.injEq] at hCall
      exact ⟨by simp [Attached], hCall.1.symm, hCall.2.symm⟩
  | some p =>
      simp only at hCall
      split at hCall
      next hNull =>
        left
        simp only [Option.some.injEq, Prod.mk.injEq] at hCall
        exact ⟨by simp [Attached, hNull], hCall.1.symm,
          hCall.2.symm⟩
      next hData =>
        right
        refine ⟨⟨p, rfl, hData⟩, ?_⟩
        simp only [Option.bind_eq_bind,
          Option.bind_eq_some_iff] at hCall
        rcases hCall with ⟨found, hFound, hRest⟩
        refine ⟨found, hFound, ?_⟩
        cases found with
        | some bh =>
            left
            simp only [Option.some.injEq, Prod.mk.injEq] at hRest
            exact ⟨bh, rfl, hRest.1.symm, hRest.2.symm⟩
        | none =>
            right
            cases hFree : freeBuffer s with
            | none =>
                left
                simp only [hFree, Option.some.injEq,
                  Prod.mk.injEq] at hRest
                exact ⟨rfl, rfl, hRest.1.symm, hRest.2.symm⟩
            | some bh =>
                right
                simp only [hFree, Option.some.injEq,
                  Prod.mk.injEq] at hRest
                exact ⟨bh, rfl, rfl, hRest.1.symm, hRest.2.symm⟩

/- A wanted buffer that was used is on the chain searched. -/
theorem BufferState.Ok.find_some
    (hOk : s.Ok lists)
    (hWanted : ∀ b, wanted b = true → b.sector = sector) :
    (∃ bh,
      (lists (hashSector sector)).find?
        (fun b => wanted (s.cache b)) = some bh) ↔
    ∃ bh, wanted (s.cache bh) = true ∧
      (s.cache bh).flags ≠ 0#32 := by
  constructor
  · rintro ⟨bh, hFind⟩
    have hMem := List.mem_of_find?_eq_some hFind
    have hFits : wanted (s.cache bh) = true := by
      simpa using List.find?_some hFind
    refine ⟨bh, hFits, ?_⟩
    rw [hOk.used bh, hWanted _ hFits]
    exact hMem
  · rintro ⟨bh, hFits, hUsed⟩
    rw [hOk.used bh, hWanted _ hFits] at hUsed
    have hSome :
        ((lists (hashSector sector)).find?
          (fun b => wanted (s.cache b))).isSome := by
      rw [List.find?_isSome]
      exact ⟨bh, hUsed, hFits⟩
    exact Option.isSome_iff_exists.mp hSome

/- A buffer is found, or the free one that is used is new. -/
theorem lookupBuffer_ok
    (hOk : s.Ok lists)
    (hWanted : ∀ b, wanted b = true → b.sector = sector)
    (hUse : ∀ bh, UseSpec s bh sector (use s bh))
    (hCall :
      lookupBuffer devices wanted use fuel s dev sector =
        some (answer, s'))
    (hFresh : Attached devices dev →
      (∃ b, wanted (s.cache b) = true ∧
        (s.cache b).flags ≠ 0#32) ∨ s.FreeIsNew) :
    ∃ lists', s'.Ok lists' := by
  rcases lookupBuffer_split hCall with
    ⟨_, _, rfl⟩ |
    ⟨hDev, found, hFound,
      ⟨bh, _, _, rfl⟩ | ⟨_, _, _, rfl⟩ | ⟨bh, rfl, hFree, _, rfl⟩⟩
  · exact ⟨lists, hOk⟩
  · exact ⟨lists, hOk.modify_refCount (· + 1#32)⟩
  · exact ⟨lists, hOk⟩
  · have hMiss := findBuffer_eq_find (hOk.held.chain _) hFound
    rcases hFresh hDev with hHit | hNew
    · rcases (hOk.find_some hWanted).mpr hHit with ⟨q, hq⟩
      rw [hq] at hMiss
      simp at hMiss
    · exact ⟨_, hOk.use_new (hUse bh) (hNew bh hFree)⟩

/- A free buffer that is not new breaks the chains. -/
theorem lookupBuffer_fresh
    (hOk : s.Ok lists)
    (hWanted : ∀ b, wanted b = true → b.sector = sector)
    (hUse : ∀ bh, UseSpec s bh sector (use s bh))
    (hCall :
      lookupBuffer devices wanted use fuel s dev sector =
        some (answer, s'))
    (hKept : s'.Structured)
    (hDev : Attached devices dev) :
    (∃ b, wanted (s.cache b) = true ∧
      (s.cache b).flags ≠ 0#32) ∨ s.FreeIsNew := by
  rcases lookupBuffer_split hCall with
    ⟨hNot, _⟩ |
    ⟨_, found, hFound,
      ⟨bh, rfl, _⟩ | ⟨_, hFree, _⟩ | ⟨bh, _, hFree, _, rfl⟩⟩
  · exact absurd hDev hNot
  · left
    rw [← hOk.find_some hWanted]
    exact ⟨bh,
      (findBuffer_eq_find (hOk.held.chain _) hFound).symm⟩
  · right
    intro i hi
    rw [hFree] at hi
    cases hi
  · right
    intro i hi
    rw [hFree] at hi
    injection hi with hi
    subst hi
    by_contra hOld
    exact hOk.use_linked (hUse bh) hOld hKept

/- A lookup in chains that end returns. -/
theorem lookupBuffer_returns
    (s : BufferState W)
    (use : BufferState W → BufferPtr → BufferState W)
    (wanted : BufferHead → Bool)
    (dev : Option Addr)
    (sector : U64)
    (hKept : s.Structured) :
    ∃ fuel answer s',
      lookupBuffer devices wanted use fuel s dev sector =
        some (answer, s') := by
  rcases hKept with ⟨lists, hHeld⟩
  cases dev with
  | none => exact ⟨0, none, s, rfl⟩
  | some p =>
      by_cases hNull : (devices p).privateData = none
      · exact ⟨0, none, s, by simp [lookupBuffer, hNull]⟩
      · rcases findBuffer_returns wanted
          (hHeld.chain (hashSector sector)) with
          ⟨found, hFound⟩
        refine ⟨(lists (hashSector sector)).length + 1, ?_⟩
        simp only [lookupBuffer, hNull, if_false, hFound]
        cases found with
        | some bh => exact ⟨_, _, rfl⟩
        | none =>
            cases hFree : freeBuffer s with
            | none => exact ⟨none, s, by simp⟩
            | some bh =>
                exact ⟨some bh, use s bh, by simp⟩

end Lookups

--------------------
-- Steps
--------------------

section Steps

variable {s s' : BufferState W}
variable {lists : U32 → List BufferPtr}
variable {call : BufferCall}

theorem bread_use
    (devices : Addr → BlockDevice W)
    (s : BufferState W)
    (dev : Option Addr)
    (bh : BufferPtr)
    (sector : U64)
    (size : U32) :
    UseSpec s bh sector
      (linkBuffer
        (fillBuffer devices
          (setupBuffer devices s dev bh sector size 0#32)
          dev bh sector)
        (hashSector sector) bh) := by
  rcases setupBuffer_frame devices s dev bh sector size 0#32 with
    ⟨hSector, hFlags, hOther, hTable⟩
  rcases fillBuffer_frame devices
    (setupBuffer devices s dev bh sector size 0#32)
    dev bh sector with
    ⟨hSector', hFlags', hOther', hTable'⟩
  apply linkBuffer_use
  · rw [hSector', hSector]
  · rw [hFlags', hFlags]
    decide
  · intro q hq
    rw [hOther' q hq, hOther q hq]
  · rw [hTable', hTable]

theorem getblk_use
    (devices : Addr → BlockDevice W)
    (s : BufferState W)
    (dev : Option Addr)
    (bh : BufferPtr)
    (sector : U64)
    (size : U32) :
    UseSpec s bh sector
      (linkBuffer
        (setupBuffer devices s dev bh sector size bufferDirty)
        (hashSector sector) bh) := by
  rcases setupBuffer_frame devices s dev bh sector size
    bufferDirty with
    ⟨hSector, hFlags, hOther, hTable⟩
  apply linkBuffer_use hSector _ hOther hTable
  rw [hFlags]
  decide

/- A miss that is counted. -/
theorem UseSpec.count
    {sector misses : U64}
    (hUse : UseSpec s bh sector s') :
    UseSpec s bh sector { s' with cacheMisses := misses } :=
  ⟨hUse.named, hUse.used, hUse.next, hUse.other, hUse.table⟩

theorem holds_sector
    (b : BufferHead)
    (hWanted : decide (b.Holds sector) = true) :
    b.sector = sector :=
  (of_decide_eq_true hWanted).1

theorem names_sector
    (b : BufferHead)
    (hWanted : decide (b.Names sector) = true) :
    b.sector = sector :=
  of_decide_eq_true hWanted

/- A valid buffer was used. -/
theorem exists_holds_iff
    {sector : U64} :
    (∃ b, decide ((s.cache b).Holds sector) = true ∧
      (s.cache b).flags ≠ 0#32) ↔
    ∃ b, (s.cache b).Holds sector := by
  constructor
  · rintro ⟨b, hHolds, _⟩
    exact ⟨b, of_decide_eq_true hHolds⟩
  · rintro ⟨b, hHolds⟩
    refine ⟨b, decide_eq_true hHolds, ?_⟩
    intro hZero
    apply hHolds.2
    rw [hZero]
    decide

/- What `bread` and `getblk` do is one lookup. -/
structure IsLookup
    (devices : Addr → BlockDevice W)
    (s : BufferState W)
    (call : BufferCall)
    (dev : Option Addr)
    (sector : U64)
    (wanted : BufferHead → Bool)
    (use : BufferState W → BufferPtr → BufferState W) :
    Prop where
  looks : ∀ fuel,
    bufferCall devices fuel s call =
      (lookupBuffer devices wanted use fuel s dev sector).map
        Prod.snd
  named : ∀ b, wanted b = true → b.sector = sector
  uses : ∀ bh, UseSpec s bh sector (use s bh)
  fresh : FreshOk devices s call ↔
    (Attached devices dev →
      (∃ b, wanted (s.cache b) = true ∧
        (s.cache b).flags ≠ 0#32) ∨ s.FreeIsNew)

theorem bufferCall_cases
    (devices : Addr → BlockDevice W)
    (s : BufferState W)
    (call : BufferCall) :
    (∃ bh, call = .brelse bh) ∨
      ∃ dev sector wanted use,
        IsLookup devices s call dev sector wanted use := by
  cases call with
  | bread dev sector size =>
      right
      refine ⟨dev, sector, _, _, fun _ => rfl, holds_sector, ?_,
        ?_⟩
      · intro bh
        exact (bread_use devices s dev bh sector size).count
      · rw [exists_holds_iff]
        rfl
  | getblk dev sector size =>
      right
      refine ⟨dev, sector, _, _, fun _ => rfl, names_sector, ?_,
        ?_⟩
      · intro bh
        exact getblk_use devices s dev bh sector size
      · simp only [decide_eq_true_eq]
        rfl
  | brelse bh => exact .inl ⟨bh, rfl⟩

theorem BufferState.Ok.brelse
    (hOk : s.Ok lists)
    (bh : Option BufferPtr) :
    (brelse s bh).Ok lists := by
  cases bh with
  | none => exact hOk
  | some bh => exact hOk.modify_refCount (· - 1#32)

theorem BufferState.Ok.step
    (hOk : s.Ok lists)
    (hStep : bufferStep devices s call s')
    (hFresh : FreshOk devices s call) :
    ∃ lists', s'.Ok lists' := by
  rcases hStep with ⟨_, fuel, hCall⟩
  rcases bufferCall_cases devices s call with
    ⟨bh, rfl⟩ | ⟨dev, sector, wanted, use, hLookup⟩
  · injection hCall with hCall
    subst hCall
    exact ⟨lists, hOk.brelse bh⟩
  · rw [hLookup.looks] at hCall
    rcases Option.map_eq_some_iff.mp hCall with
      ⟨⟨answer, s''⟩, hLook, rfl⟩
    exact lookupBuffer_ok hOk hLookup.named hLookup.uses hLook
      (hLookup.fresh.mp hFresh)

/- One call keeps the chains if and only if it is fresh. -/
theorem bufferStep_structured_iff
    (hOk : s.Ok lists)
    (hStep : bufferStep devices s call s') :
    s'.Structured ↔ FreshOk devices s call := by
  constructor
  · intro hKept
    rcases hStep with ⟨_, fuel, hCall⟩
    rcases bufferCall_cases devices s call with
      ⟨bh, rfl⟩ | ⟨dev, sector, wanted, use, hLookup⟩
    · trivial
    · rw [hLookup.looks] at hCall
      rcases Option.map_eq_some_iff.mp hCall with
        ⟨⟨answer, s''⟩, hLook, rfl⟩
      rw [hLookup.fresh]
      exact lookupBuffer_fresh hOk hLookup.named hLookup.uses
        hLook hKept
  · intro hFresh
    rcases hOk.step hStep hFresh with ⟨lists', hOk'⟩
    exact ⟨lists', hOk'.held⟩

/- Calls on chains that end return. -/
theorem bufferCall_returns
    (hKept : s.Structured)
    (call : BufferCall) :
    ∃ fuel s', bufferCall devices fuel s call = some s' := by
  rcases bufferCall_cases devices s call with
    ⟨bh, rfl⟩ | ⟨dev, sector, wanted, use, hLookup⟩
  · exact ⟨0, brelse s bh, rfl⟩
  · rcases lookupBuffer_returns s use wanted dev sector hKept with
      ⟨fuel, answer, s', hCall⟩
    refine ⟨fuel, s', ?_⟩
    rw [hLookup.looks, hCall]
    rfl

end Steps

--------------------
-- Runs
--------------------

section Runs

variable {s₀ s : BufferState W}
variable {calls : List BufferCall}

/- After the initialisation no buffer is on a chain. -/
theorem BufferState.Started.ok
    (hStart : s.Started) :
    s.Ok fun _ => [] := by
  rcases hStart with ⟨s₀, rfl⟩
  constructor
  · exact ⟨fun _ => rfl, fun _ _ h => absurd h List.not_mem_nil,
      fun _ => List.nodup_nil⟩
  · intro b
    simp [bufferCacheInit]

/- The runs that keep the chains are those that stay fresh. -/
theorem BufferState.Ok.run_iff
    {lists : U32 → List BufferPtr}
    (hOk : s₀.Ok lists) :
    Run
        (fun s call s' =>
          bufferStep devices s call s' ∧ s'.Structured)
        s₀ calls s ↔
      Run (Guarded (FreshOk devices) (bufferStep devices))
        s₀ calls s := by
  apply Run.guarded_iff fun s => ∃ lists, s.Ok lists
  · rintro s call s' ⟨_, hOk⟩ hFresh hStep
    exact hOk.step hStep hFresh
  · rintro s call s' ⟨_, hOk⟩ hStep
    exact bufferStep_structured_iff hOk hStep
  · exact ⟨lists, hOk⟩

/-
  The chains are in order in every state of a run, and its
  lookups return, if and only if every lookup that misses
  gets a buffer that is new.
-/
theorem bufferRun_structured_iff
    (hStart : s₀.Started) :
    (Run
        (fun s call s' =>
          bufferStep devices s call s' ∧ s'.Structured)
        s₀ calls s ↔
      Run (Guarded (FreshOk devices) (bufferStep devices))
        s₀ calls s) ∧
    (Run (Guarded (FreshOk devices) (bufferStep devices))
        s₀ calls s →
      s.Structured ∧
        ∀ call, ∃ fuel s',
          bufferCall devices fuel s call = some s') := by
  refine ⟨hStart.ok.run_iff, ?_⟩
  intro hRun
  have hOk := hRun.invariant (fun s => ∃ lists, s.Ok lists)
    (fun _ _ _ ⟨_, hOk⟩ hStep => hOk.step hStep.2 hStep.1)
    ⟨_, hStart.ok⟩
  rcases hOk with ⟨lists, hOk⟩
  exact ⟨⟨lists, hOk.held⟩, bufferCall_returns ⟨lists, hOk.held⟩⟩

end Runs

end Chains

/- One disk; its driver does nothing. -/
def plainDevice : Addr → BlockDevice Unit :=
  fun _ =>
    { privateData := some 0x1000#64, read := none, write := none }

/- The buffers before `buffer_cache_init`. -/
def bufferBoot : BufferState Unit where
  cache := fun _ => ⟨none, 0#64, 0#32, 0#32, none, 0⟩
  hashtable := fun _ => none
  cacheMisses := 0#64
  heap := Heap.initial
  world := ()

/- `&buffer_cache[0]` -/
def firstBuffer : BufferPtr := ⟨0, by decide⟩

/- The state after a call, if it returns. -/
def bufferAfter
    (s : BufferState Unit)
    (call : BufferCall) :
    BufferState Unit :=
  (bufferCall plainDevice 4 s call).getD s

/- Sector 0 is read. -/
def readBuffer : BufferState Unit :=
  bufferAfter (bufferCacheInit bufferBoot)
    (.bread (some 0x2000#64) 0#64 512#32)

/- Sector 64 gets another buffer of the same chain. -/
def chainedBuffers : BufferState Unit :=
  bufferAfter readBuffer (.getblk (some 0x2000#64) 64#64 512#32)

theorem bufferRun_structured_iff_chain :
    (bufferAfter chainedBuffers
      (.brelse (some firstBuffer))).Structured := by
  have hFree : freeBuffer readBuffer = some ⟨1, by decide⟩ := by
    decide +kernel
  have hNew : readBuffer.FreeIsNew := by
    intro i hi
    rw [hFree] at hi
    cases hi
    decide
  have hRun :
      Run (Guarded (FreshOk plainDevice) (bufferStep plainDevice))
        (bufferCacheInit bufferBoot)
        [.bread (some 0x2000#64) 0#64 512#32,
          .getblk (some 0x2000#64) 64#64 512#32,
          .brelse (some firstBuffer)]
        (bufferAfter chainedBuffers
          (.brelse (some firstBuffer))) := by
    refine .cons ⟨fun _ => .inr fun _ _ => rfl, nofun, 4, rfl⟩
      (.cons ⟨fun _ => .inr hNew, nofun, 4, rfl⟩
        (.cons ⟨trivial, ?_, 4, rfl⟩ (.nil _)))
    rintro bh hCall
    cases hCall
    decide +kernel
  exact ((bufferRun_structured_iff ⟨bufferBoot, rfl⟩).2 hRun).1

/-
  Sector 0 is read and released, and the buffer is used for
  sector 64, whose chain is the same.
-/
theorem bufferRun_loops :
    ¬ ∀ (s₀ s : BufferState Unit) (calls : List BufferCall),
      s₀.Started →
        Run (bufferStep plainDevice) s₀ calls s →
          s.Structured := by
  intro hAll
  let s₀ := bufferCacheInit bufferBoot
  let s₁ := readBuffer
  let s₂ := bufferAfter s₁ (.brelse (some firstBuffer))
  have hStart : s₀.Started := ⟨bufferBoot, rfl⟩
  have hStep₁ :
      bufferStep plainDevice s₀
        (.bread (some 0x2000#64) 0#64 512#32) s₁ :=
    ⟨nofun, 4, rfl⟩
  have hStep₂ :
      bufferStep plainDevice s₁ (.brelse (some firstBuffer)) s₂ := by
    refine ⟨?_, 4, rfl⟩
    intro bh hCall
    injection hCall with hCall
    injection hCall with hCall
    subst hCall
    decide
  have hFresh :
      FreshOk plainDevice s₀
        (.bread (some 0x2000#64) 0#64 512#32) := by
    intro _
    right
    intro i _
    rfl
  rcases hStart.ok.step hStep₁ hFresh with ⟨_, hOk₁⟩
  rcases hOk₁.step hStep₂ trivial with ⟨_, hOk₂⟩
  rcases bufferCall_returns ⟨_, hOk₂.held⟩
    (.bread (some 0x2000#64) 64#64 512#32) with
    ⟨fuel, s₃, hCall⟩
  have hStep₃ :
      bufferStep plainDevice s₂
        (.bread (some 0x2000#64) 64#64 512#32) s₃ :=
    ⟨nofun, fuel, hCall⟩
  have hKept := hAll s₀ s₃ _ hStart
    (.cons hStep₁ (.cons hStep₂ (.cons hStep₃ (.nil _))))
  rcases (bufferStep_structured_iff hOk₂ hStep₃).mp hKept
      ⟨0x2000#64, rfl, by decide⟩ with
    ⟨b, hHolds⟩ | hNew
  · revert hHolds
    revert b
    decide
  · have hZero := hNew firstBuffer (by decide)
    revert hZero
    decide

end FeatherOS
