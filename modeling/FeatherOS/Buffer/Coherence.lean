import FeatherOS.Buffer.WriteBack
import FeatherOS.Library.CachedStore

/-
  What the buffers of the cache hold.

  A buffer has no device. It is one of its sector on one of
  the devices as long as lookups find buffers that were given
  out for their own device, and set a free one up only for a
  sector that has none. Then the cache is one of a store of
  sectors: a buffer shows the last data written for its
  sector, or else what is on the disk.

  Key definitions include:
    * `DeviceLaws`
    * `CoherentOk`
    * `cacheOf`
    * `CoherentInvariant`

  Key theorems include:
    * `CoherentInvariant.step`
    * `sessionRun_coherent`
-/

namespace FeatherOS

section Coherence

variable {V : Type}

--------------------
-- Devices
--------------------

variable (devices : Addr → FlushDevice (DiskWorld V))
variable (content : V → Addr → U64 → SectorData)

/-
  A device reads and writes its own sectors; a read stores
  into the buffer only, and a write changes its sector only.
-/
structure DeviceLaws : Prop where
  read : ∀ p read, (devices p).read = some read →
    ∀ lba data w,
      content (read lba 1#32 (some data) w).2.disks =
          content w.disks ∧
        ∃ bytes,
          (read lba 1#32 (some data) w).2.memory =
              storeSector w.memory data bytes ∧
            ((read lba 1#32 (some data) w).1 = 0 →
              bytes = content w.disks p lba)
  write : ∀ p write, (devices p).write = some write →
    ∀ lba buffer w,
      (write lba 1#32 buffer w).2.memory = w.memory ∧
        (∀ q t, (q, t) ≠ (p, lba) →
          content (write lba 1#32 buffer w).2.disks q t =
            content w.disks q t) ∧
        ((write lba 1#32 buffer w).1 = 0 →
          ∃ data, buffer = some data ∧
            content (write lba 1#32 buffer w).2.disks p lba =
              sectorAt w.memory data)
  flush : ∀ p flush, (devices p).flush = some flush →
    ∀ w, (flush w).2.memory = w.memory ∧
      content (flush w).2.disks = content w.disks

--------------------
-- The Property
--------------------

/- The buffer was given out for this sector of this device. -/
def BufferSession.Cached
    (s : BufferSession V)
    (p : Addr)
    (sector : U64)
    (bh : BufferPtr) : Prop :=
  p ∈ s.owners bh ∧ (s.cache bh).sector = sector

/- Held buffers are the same as their sectors are. -/
def HeldAlike (s : BufferSession V) : Prop :=
  ∀ h₁ ∈ s.holds, ∀ h₂ ∈ s.holds,
    (h₁.dev = h₂.dev ∧ h₁.sector = h₂.sector) ↔ h₁.bh = h₂.bh

/- The last data written, or else what is on the disk. -/
def BufferSession.current
    (s : BufferSession V)
    (p : Addr)
    (sector : U64) :
    SectorData :=
  (s.latest p sector).getD (content s.world.disks p sector)

/- The buffer has these data. -/
def Shows
    (s : BufferSession V)
    (p : Addr)
    (sector : U64)
    (bh : BufferPtr) : Prop :=
  ∃ data, (s.cache bh).data = some data ∧
    sectorAt s.world.memory data = s.current content p sector

--------------------
-- The Condition
--------------------

/-
  A dirty buffer is written back to the device it was given
  out for; of a clean one the data are on the disk.
-/
def EvictOk
    (s : BufferSession V)
    (p : Addr)
    (bh : BufferPtr) : Prop :=
  ((s.cache bh).Dirty →
      (∀ q ∈ s.owners bh, q = p) ∧
        (blockWrite (cacheDevices devices) (some p)
          (s.cache bh).sector 1#32 (s.cache bh).data
          s.world).1 = 0) ∧
    (¬ (s.cache bh).Dirty →
      ∀ q ∈ s.owners bh, ∀ data, (s.cache bh).data = some data →
        content s.world.disks q (s.cache bh).sector =
          sectorAt s.world.memory data)

/- There is memory for the data, and the disk can be read. -/
def SetupOk
    (s : BufferSession V)
    (kind : BufferLookup)
    (p : Addr)
    (sector : U64)
    (bh : BufferPtr) : Prop :=
  ∃ data,
    ((s.cache bh).data = some data ∨
        (s.cache bh).data = none ∧
          (kmalloc s.heap 512#64).1 = some data) ∧
      (kind = .bread →
        (blockRead (cacheDevices devices) (some p) sector 1#32
          (some data)
          (writeBack (cacheDevices devices) s.toBufferState
            (some p) bh).world).1 = 0)

/-
  A lookup finds a buffer of its device, whose count does not
  wrap around; or it misses, no other buffer has the sector,
  and the free one can be used.
-/
def LookupOk
    (s : BufferSession V)
    (kind : BufferLookup)
    (p : Addr)
    (sector : U64) : Prop :=
  (∃ bh, s.Finds kind sector bh ∧ p ∈ s.owners bh ∧
      (s.cache bh).refCount + 1#32 ≠ 0#32) ∨
    s.Misses kind sector ∧
      ∀ bh, freeBuffer s.toBufferState = some bh →
        (∀ q, s.Cached p sector q → q = bh) ∧
          EvictOk devices content s p bh ∧
          SetupOk devices s kind p sector bh

def CoherentOk
    (s : BufferSession V) :
    BufferUse → Prop
  | .lookup kind (some p) sector _ =>
      (devices p).privateData ≠ none →
        LookupOk devices content s kind p sector
  | .syncDev (some p) =>
      ∀ bh, (s.cache bh).Dirty → ∀ q ∈ s.owners bh, q = p
  | _ => True

--------------------
-- The Cache Of A Store
--------------------

/- The buffers as slots for the sectors of all devices. -/
def cacheOf
    (s : BufferSession V) :
    CachedStore BufferPtr (Addr × U64) SectorData where
  key bh := (s.owners bh).head?.map fun p =>
    (p, (s.cache bh).sector)
  value bh := (s.cache bh).data.map (sectorAt s.world.memory)
  dirty bh := (s.cache bh).Dirty
  latest k := s.latest k.1 k.2
  stored k := content s.world.disks k.1 k.2

/- The blocks of the buffers. -/
def bufferExtent
    (cache : BufferPtr → BufferHead)
    (bh : BufferPtr) :
    Option Extent :=
  (cache bh).data.map fun data => ⟨data.toNat, sectorSize⟩

/- What every call keeps. -/
structure CoherentInvariant (s : BufferSession V) : Prop where
  counted : ∀ bh,
    (s.cache bh).refCount.toNat =
      s.holds.countP fun h => h.bh = bh
  held : ∀ h ∈ s.holds,
    (cacheOf content s).key h.bh = some (h.dev, h.sector)
  single : ∀ bh, ∀ p ∈ s.owners bh, ∀ q ∈ s.owners bh, p = q
  used : ∀ bh, s.owners bh = [] → ¬ (s.cache bh).Dirty
  placed : Extents.Placed (bufferExtent s.cache)
    s.heap.heapPtr.toNat
  coherent : (cacheOf content s).Coherent

variable {devices content}
variable {W : Type}
variable {bh : BufferPtr}
variable {kind : BufferLookup}
variable {p : Addr}
variable {t : BufferState W}
variable {wanted : BufferHead → Bool}

section Facts

variable {s s' : BufferSession V}

theorem CoherentInvariant.key_iff
    (hInv : CoherentInvariant content s)
    {sector : U64}
    {bh : BufferPtr} :
    (cacheOf content s).key bh = some (p, sector) ↔
      s.Cached p sector bh := by
  simp only [cacheOf, BufferSession.Cached, Option.map_eq_some_iff,
    Prod.mk.injEq]
  constructor
  · rintro ⟨q, hHead, rfl, hSector⟩
    exact ⟨List.mem_of_mem_head? hHead, hSector⟩
  · rintro ⟨hOwner, hSector⟩
    cases hOwners : s.owners bh with
    | nil =>
        rw [hOwners] at hOwner
        cases hOwner
    | cons q rest =>
        have hq : q ∈ s.owners bh := by
          rw [hOwners]
          exact List.mem_cons_self
        exact ⟨q, rfl, hInv.single bh q hq p hOwner, hSector⟩

/- A held buffer is one of the sector it was asked for. -/
theorem CoherentInvariant.heldAlike
    (hInv : CoherentInvariant content s) :
    HeldAlike s := by
  intro h₁ hMem₁ h₂ hMem₂
  have hKey₁ := hInv.held h₁ hMem₁
  have hKey₂ := hInv.held h₂ hMem₂
  constructor
  · rintro ⟨hDev, hSector⟩
    rw [← hDev, ← hSector] at hKey₂
    exact hInv.coherent.unique h₁.bh h₂.bh _ hKey₁ hKey₂
  · intro hSame
    rw [← hSame, hKey₁] at hKey₂
    injection hKey₂ with hKey
    exact Prod.mk.inj hKey

theorem CoherentInvariant.shows
    (hInv : CoherentInvariant content s)
    {sector : U64}
    (hKey : (cacheOf content s).key bh = some (p, sector)) :
    Shows content s p sector bh := by
  have hShown := hInv.coherent.shown bh _ hKey
  exact Option.map_eq_some_iff.mp hShown

/- A dirty buffer that is only of one device. -/
theorem CoherentInvariant.dirty_key
    (hInv : CoherentInvariant content s)
    (hDirty : (s.cache bh).Dirty)
    (hDevice : ∀ q ∈ s.owners bh, q = p) :
    (cacheOf content s).key bh =
      some (p, (s.cache bh).sector) := by
  rw [hInv.key_iff]
  cases hOwners : s.owners bh with
  | nil => exact absurd hDirty (hInv.used bh hOwners)
  | cons q rest =>
      have hq : q ∈ s.owners bh := by
        rw [hOwners]
        exact List.mem_cons_self
      rw [hDevice q hq] at hq
      exact ⟨hq, rfl⟩

/- The search ends at a buffer that is wanted. -/
theorem findBuffer_wanted
    {n : Nat}
    {head : Option BufferPtr}
    (hFound : findBuffer wanted t n head = some (some bh)) :
    wanted (t.cache bh) = true := by
  induction n generalizing head with
  | zero => simp [findBuffer] at hFound
  | succ n ih =>
      cases head with
      | none => simp [findBuffer] at hFound
      | some b =>
          simp only [findBuffer] at hFound
          split at hFound
          next hWanted =>
            simp only [Option.some.injEq] at hFound
            rw [← hFound]
            exact hWanted
          next => exact ih hFound

theorem BufferSession.Finds.sector
    {sector : U64}
    (hFinds : s.Finds kind sector bh) :
    (s.cache bh).sector = sector := by
  rcases hFinds with ⟨fuel, hSearch⟩
  have hWanted := findBuffer_wanted hSearch
  cases kind with
  | bread => exact holds_sector _ hWanted
  | getblk => exact names_sector _ hWanted

end Facts

--------------------
-- Holding And Releasing
--------------------

variable {hold : BufferHold}

section Counts

variable {s s' : BufferSession V}

/- Only the counts of the buffers change. -/
structure Recounted (s s' : BufferSession V) : Prop where
  cache : ∀ b, ∃ n, s'.cache b = { s.cache b with refCount := n }
  heads : ∀ b, (s'.owners b).head? = (s.owners b).head?
  latest : s'.latest = s.latest
  world : s'.world = s.world
  heap : s'.heap = s.heap

theorem Recounted.cacheOf_eq
    (hSame : Recounted s s') :
    cacheOf content s' = cacheOf content s := by
  apply CachedStore.ext
  · funext b
    rcases hSame.cache b with ⟨n, hb⟩
    simp only [cacheOf, hSame.heads, hb]
  · funext b
    rcases hSame.cache b with ⟨n, hb⟩
    simp only [cacheOf, hSame.world, hb]
  · funext b
    rcases hSame.cache b with ⟨n, hb⟩
    simp only [cacheOf, BufferHead.Dirty, hb]
  · simp only [cacheOf, hSame.latest]
  · simp only [cacheOf, hSame.world]

theorem CoherentInvariant.recount
    (hInv : CoherentInvariant content s)
    (hSame : Recounted s s')
    (hCounted : ∀ bh,
      (s'.cache bh).refCount.toNat =
        s'.holds.countP fun h => h.bh = bh)
    (hHeld : ∀ h ∈ s'.holds,
      (cacheOf content s).key h.bh = some (h.dev, h.sector))
    (hSingle : ∀ bh, ∀ p ∈ s'.owners bh, ∀ q ∈ s'.owners bh,
      p = q) :
    CoherentInvariant content s' where
  counted := hCounted
  held := by
    rw [hSame.cacheOf_eq]
    exact hHeld
  single := hSingle
  used := by
    intro bh hNone hDirty
    have hOld : s.owners bh = [] := by
      have hHead := hSame.heads bh
      rw [hNone, List.head?_nil] at hHead
      exact List.head?_eq_none_iff.mp hHead.symm
    apply hInv.used bh hOld
    rcases hSame.cache bh with ⟨n, hb⟩
    rw [hb] at hDirty
    exact hDirty
  placed := by
    rw [hSame.heap]
    refine hInv.placed.mono (Nat.le_refl _) ?_
    intro b extent hExtent
    rcases hSame.cache b with ⟨n, hb⟩
    simp only [bufferExtent, hb] at hExtent
    exact hExtent
  coherent := by
    rw [hSame.cacheOf_eq]
    exact hInv.coherent

theorem modifyHead_refCount
    (t : BufferState W)
    (bh b : BufferPtr)
    (f : U32 → U32) :
    ∃ n,
      (t.modifyHead bh fun b =>
          { b with refCount := f b.refCount }).cache b =
        { t.cache b with refCount := n } := by
  rw [BufferState.cache_modifyHead]
  split
  next hb =>
    rw [hb]
    exact ⟨_, rfl⟩
  next => exact ⟨(t.cache b).refCount, rfl⟩

theorem CoherentInvariant.hit
    (hInv : CoherentInvariant content s)
    {sector : U64}
    (hFinds : s.Finds kind sector bh)
    (hOwner : p ∈ s.owners bh)
    (hCount : (s.cache bh).refCount + 1#32 ≠ 0#32) :
    CoherentInvariant content (s.hit bh p sector) := by
  have hKey : (cacheOf content s).key bh = some (p, sector) :=
    hInv.key_iff.mpr ⟨hOwner, hFinds.sector⟩
  have hMember : ∀ b, ∀ q ∈ (s.hit bh p sector).owners b,
      q ∈ s.owners b := by
    intro b q hq
    simp only [BufferSession.hit, Function.update_apply] at hq
    split at hq
    next hb =>
      rw [hb]
      rcases List.mem_cons.mp hq with rfl | hq
      · exact hOwner
      · exact hq
    next => exact hq
  refine hInv.recount ⟨?_, ?_, rfl, rfl, rfl⟩ ?_ ?_ ?_
  · intro b
    exact modifyHead_refCount s.toBufferState bh b (· + 1#32)
  · intro b
    simp only [BufferSession.hit, Function.update_apply]
    split
    next hb =>
      rw [hb]
      simp only [cacheOf, Option.map_eq_some_iff, Prod.mk.injEq]
        at hKey
      rcases hKey with ⟨q, hHead, rfl, _⟩
      exact hHead.symm
    next => rfl
  · intro b
    simp only [BufferSession.hit, BufferState.cache_modifyHead,
      List.countP_cons]
    by_cases hb : b = bh
    · subst hb
      have hNext : ((s.cache b).refCount + 1#32).toNat =
          (s.cache b).refCount.toNat + 1 := by
        bv_omega
      simp [hNext, hInv.counted]
    · simp [hb, Ne.symm hb, hInv.counted]
  · intro h hMem
    rcases List.mem_cons.mp hMem with rfl | hMem
    · exact hKey
    · exact hInv.held h hMem
  · intro b q hq q' hq'
    exact hInv.single b q (hMember b q hq) q' (hMember b q' hq')

theorem CoherentInvariant.release
    (hInv : CoherentInvariant content s)
    (hHold : hold ∈ s.holds) :
    CoherentInvariant content
      { s with
        toBufferState := brelse s.toBufferState (some hold.bh)
        holds := s.holds.erase hold } := by
  refine hInv.recount ⟨?_, fun _ => rfl, rfl, rfl, rfl⟩ ?_ ?_
    hInv.single
  · intro b
    exact modifyHead_refCount s.toBufferState hold.bh b (· - 1#32)
  · intro b
    have hPerm := (List.perm_cons_erase hHold).countP_eq
      fun h => decide (h.bh = b)
    have hOld := hInv.counted b
    rw [List.countP_cons] at hPerm
    simp only [brelse, BufferState.cache_modifyHead]
    by_cases hb : b = hold.bh
    · subst hb
      simp only [decide_true, if_true] at hPerm ⊢
      rw [Words.toNat_pred (by omega)]
      omega
    · simp only [Ne.symm hb, decide_false, Bool.false_eq_true,
        if_false] at hPerm
      rw [if_neg hb]
      omega
  · intro h hMem
    exact hInv.held h (List.mem_of_mem_erase hMem)

end Counts

--------------------
-- Drivers
--------------------

section Drivers

/- Storing what is there changes nothing. -/
theorem storeSector_same
    (m : ByteMemory)
    (data : Addr) :
    storeSector m data (sectorAt m data) = m := by
  funext b
  unfold storeSector ByteMemory.patch
  split
  next hIn =>
    have hBack : data + (b - data) = b := by
      rw [BitVec.add_comm, BitVec.sub_add_cancel]
    simp only [hIn, dite_true, sectorAt, BitVec.ofNat_toNat,
      BitVec.setWidth_eq, hBack]
  next => rfl

theorem sectorAt_storeSector
    (m : ByteMemory)
    (data : Addr)
    (bytes : SectorData) :
    sectorAt (storeSector m data bytes) data = bytes := by
  funext i
  unfold sectorAt storeSector
  rw [ByteMemory.patch_inside i.isLt (by decide)]
  simp

/- Blocks that lie apart have data of their own. -/
theorem sectorAt_storeSector_apart
    (m : ByteMemory)
    {data other : Addr}
    (bytes : SectorData)
    (hFit : data.toNat + sectorSize ≤ 2 ^ 64)
    (hOther : other.toNat + sectorSize ≤ 2 ^ 64)
    (hApart :
      Extent.Apart ⟨data.toNat, sectorSize⟩
        ⟨other.toNat, sectorSize⟩) :
    sectorAt (storeSector m data bytes) other =
      sectorAt m other := by
  funext i
  unfold sectorAt storeSector
  exact ByteMemory.patch_apart hFit hOther hApart i.isLt

theorem blockWrite_laws
    (hLaws : DeviceLaws devices content)
    (p : Addr)
    (lba : U64)
    (buffer : Option Addr)
    (w : LoggedWorld V) :
    (blockWrite (cacheDevices devices) (some p) lba 1#32 buffer
        w).2.memory = w.memory ∧
      (∀ q t, (q, t) ≠ (p, lba) →
        content
            (blockWrite (cacheDevices devices) (some p) lba 1#32
              buffer w).2.disks q t =
          content w.disks q t) ∧
      ((blockWrite (cacheDevices devices) (some p) lba 1#32 buffer
          w).1 = 0 →
        ∃ data, buffer = some data ∧
          content
              (blockWrite (cacheDevices devices) (some p) lba 1#32
                buffer w).2.disks p lba =
            sectorAt w.memory data) := by
  cases hWrite : (devices p).write with
  | none =>
      simp [blockWrite, cacheDevices, blockDevices, loggedDevices,
        hWrite]
  | some write =>
      have hLaw := hLaws.write p write hWrite lba buffer
        w.toDiskWorld
      simpa only [blockWrite, cacheDevices, blockDevices,
        loggedDevices, hWrite, Option.map_some, loggedWrite]
        using hLaw

theorem blockRead_laws
    (hLaws : DeviceLaws devices content)
    (p : Addr)
    (lba : U64)
    (data : Addr)
    (w : LoggedWorld V) :
    content
          (blockRead (cacheDevices devices) (some p) lba 1#32
            (some data) w).2.disks =
        content w.disks ∧
      ∃ bytes,
        (blockRead (cacheDevices devices) (some p) lba 1#32
            (some data) w).2.memory =
          storeSector w.memory data bytes ∧
        ((blockRead (cacheDevices devices) (some p) lba 1#32
            (some data) w).1 = 0 →
          bytes = content w.disks p lba) := by
  cases hRead : (devices p).read with
  | none =>
      refine ⟨?_, sectorAt w.memory data, ?_, ?_⟩
      · simp [blockRead, cacheDevices, blockDevices, loggedDevices,
          hRead]
      · simp [blockRead, cacheDevices, blockDevices, loggedDevices,
          hRead, storeSector_same]
      · simp [blockRead, cacheDevices, blockDevices, loggedDevices,
          hRead]
  | some read =>
      have hLaw := hLaws.read p read hRead lba data w.toDiskWorld
      simpa only [blockRead, cacheDevices, blockDevices,
        loggedDevices, hRead, Option.map_some, unlogged]
        using hLaw

theorem blockFlush_laws
    (hLaws : DeviceLaws devices content)
    (p : Addr)
    (w : LoggedWorld V) :
    (blockFlush (loggedDevices devices) (some p) w).2.memory =
        w.memory ∧
      content (blockFlush (loggedDevices devices) (some p)
          w).2.disks =
        content w.disks := by
  cases hFlush : (devices p).flush with
  | none => simp [blockFlush, loggedDevices, hFlush]
  | some flush =>
      have hLaw := hLaws.flush p flush hFlush w.toDiskWorld
      simpa only [blockFlush, loggedDevices, hFlush,
        Option.map_some, unlogged] using hLaw

end Drivers

--------------------
-- Cleaning
--------------------

section Cleaning

variable {s s' : BufferSession V}

/- Buffers become clean, and the disks may change. -/
structure Cleaned (s s' : BufferSession V) : Prop where
  cache : ∀ b,
    s'.cache b = s.cache b ∨ s'.cache b = (s.cache b).clean
  owners : s'.owners = s.owners
  holds : s'.holds = s.holds
  latest : s'.latest = s.latest
  heap : s'.heap = s.heap
  memory : s'.world.memory = s.world.memory

theorem Cleaned.dirty
    (hSame : Cleaned s s')
    {b : BufferPtr}
    (hDirty : (s'.cache b).Dirty) :
    (s.cache b).Dirty := by
  rcases hSame.cache b with hb | hb
  · rw [hb] at hDirty
    exact hDirty
  · rw [hb] at hDirty
    exact absurd hDirty (clean_not_dirty (s.cache b))

theorem CoherentInvariant.cleaned
    (hInv : CoherentInvariant content s)
    (hSame : Cleaned s s')
    {stored : Addr × U64 → SectorData}
    (hDisks : ∀ k, content s'.world.disks k.1 k.2 = stored k)
    (hStored :
      CachedStore.Coherent
        { cacheOf content s with stored := stored }) :
    CoherentInvariant content s' := by
  have hFields : ∀ b,
      (s'.cache b).sector = (s.cache b).sector ∧
        (s'.cache b).data = (s.cache b).data ∧
        (s'.cache b).refCount = (s.cache b).refCount := by
    intro b
    rcases hSame.cache b with hb | hb
    · rw [hb]
      exact ⟨rfl, rfl, rfl⟩
    · rw [hb]
      exact ⟨rfl, rfl, rfl⟩
  have hKey :
      (cacheOf content s').key = (cacheOf content s).key := by
    funext b
    simp only [cacheOf, hSame.owners, (hFields b).1]
  constructor
  · intro b
    rw [(hFields b).2.2, hSame.holds]
    exact hInv.counted b
  · rw [hSame.holds, hKey]
    exact hInv.held
  · rw [hSame.owners]
    exact hInv.single
  · intro b hNone hDirty
    rw [hSame.owners] at hNone
    exact hInv.used b hNone (hSame.dirty hDirty)
  · rw [hSame.heap]
    refine hInv.placed.mono (Nat.le_refl _) ?_
    intro b extent hExtent
    simp only [bufferExtent, (hFields b).2.1] at hExtent
    exact hExtent
  · have hCache :
        cacheOf content s' =
          { { cacheOf content s with stored := stored } with
            dirty := (cacheOf content s').dirty } := by
      apply CachedStore.ext
      · exact hKey
      · funext b
        simp only [cacheOf, (hFields b).2.1, hSame.memory]
      · rfl
      · simp only [cacheOf, hSame.latest]
      · exact funext hDisks
    rw [hCache]
    exact hStored.clean fun b hDirty => hSame.dirty hDirty

theorem CoherentInvariant.bwrite
    (hInv : CoherentInvariant content s)
    (bh : Option BufferPtr) :
    CoherentInvariant content
      { s with
        toBufferState := (bwrite s.toBufferState bh).2 } := by
  cases bh with
  | none => exact hInv
  | some bh =>
      cases hData : (s.cache bh).data with
      | none =>
          simp only [FeatherOS.bwrite, hData, if_true]
          exact hInv
      | some data =>
          simp only [FeatherOS.bwrite, hData, reduceCtorEq,
            if_false]
          refine hInv.cleaned ⟨?_, rfl, rfl, rfl, rfl, rfl⟩
            (fun _ => rfl) hInv.coherent
          intro b
          rw [BufferState.cache_modifyHead]
          split
          next hb =>
            rw [hb]
            exact .inr rfl
          next => exact .inl rfl

/- One turn of `sync_dev` with the device of the buffer. -/
theorem CoherentInvariant.syncBuffer
    (hLaws : DeviceLaws devices content)
    (hInv : CoherentInvariant content s)
    (hDevice : ∀ b, (s.cache b).Dirty → ∀ q ∈ s.owners b, q = p)
    (bh : BufferPtr) :
    let t := syncBuffer (loggedDevices devices) (some p)
      s.toBufferState bh
    CoherentInvariant content { s with toBufferState := t } ∧
      ∀ b, (t.cache b).Dirty → ∀ q ∈ s.owners b, q = p := by
  unfold FeatherOS.syncBuffer
  by_cases hDirty : (s.cache bh).Dirty
  · rw [if_pos hDirty]
    have hLaw := blockWrite_laws hLaws p (s.cache bh).sector
      (s.cache bh).data s.world
    rcases hLaw with ⟨hMemory, hOther, _⟩
    have hKey := hInv.dirty_key hDirty (hDevice bh hDirty)
    have hSame : Cleaned s
        { s with
          toBufferState :=
            BufferState.modifyHead
              { s.toBufferState with
                world :=
                  (blockWrite (cacheDevices devices) (some p)
                    (s.cache bh).sector 1#32 (s.cache bh).data
                    s.world).2 } bh BufferHead.clean } := by
      refine ⟨?_, rfl, rfl, rfl, rfl, hMemory⟩
      intro b
      rw [BufferState.cache_modifyHead]
      split
      next hb =>
        rw [hb]
        exact .inr rfl
      next => exact .inl rfl
    have hWritten := hInv.coherent.writeBack hKey hDirty
      (content
        (blockWrite (cacheDevices devices) (some p)
          (s.cache bh).sector 1#32 (s.cache bh).data
          s.world).2.disks p (s.cache bh).sector)
    refine ⟨hInv.cleaned hSame ?_ hWritten, ?_⟩
    · intro k
      by_cases hk : k = (p, (s.cache bh).sector)
      · rw [hk, Function.update_self]
        rfl
      · rw [Function.update_of_ne hk]
        exact hOther k.1 k.2 hk
    · intro b hStill
      exact hDevice b (hSame.dirty hStill)
  · rw [if_neg hDirty]
    exact ⟨hInv, hDevice⟩

theorem CoherentInvariant.syncDev
    (hLaws : DeviceLaws devices content)
    (hInv : CoherentInvariant content s)
    {dev : Option Addr}
    (hOk : CoherentOk devices content s (.syncDev dev)) :
    CoherentInvariant content
      { s with
        toBufferState :=
          syncDev (loggedDevices devices) s.toBufferState
            dev } := by
  cases dev with
  | none => exact hInv
  | some p =>
      have hLoop : ∀ (cells : List BufferPtr)
          (t : BufferState (LoggedWorld V)),
          CoherentInvariant content { s with toBufferState := t } →
          (∀ b, (t.cache b).Dirty → ∀ q ∈ s.owners b, q = p) →
          CoherentInvariant content
            { s with
              toBufferState :=
                cells.foldl
                  (FeatherOS.syncBuffer (loggedDevices devices)
                    (some p)) t } := by
        intro cells
        induction cells with
        | nil => exact fun _ hInv _ => hInv
        | cons bh cells ih =>
            intro t hInv hDevice
            have hTurn := hInv.syncBuffer hLaws hDevice bh
            exact ih _ hTurn.1 hTurn.2
      have hAll := hLoop (List.finRange bufferCacheSize)
        s.toBufferState hInv hOk
      have hFlush := blockFlush_laws hLaws p
        ((List.finRange bufferCacheSize).foldl
          (FeatherOS.syncBuffer (loggedDevices devices) (some p))
          s.toBufferState).world
      refine hAll.cleaned
        ⟨fun _ => .inl rfl, rfl, rfl, rfl, rfl, hFlush.1⟩ ?_
        hAll.coherent
      intro k
      exact congrFun (congrFun hFlush.2 k.1) k.2

end Cleaning

--------------------
-- Modifying
--------------------

variable {data : Addr}

/- A store into the block of a buffer changes its data only. -/
theorem values_storeSector
    {cache : BufferPtr → BufferHead}
    {top : Nat}
    (hTop : top ≤ 2 ^ 64)
    (hPlaced : Extents.Placed (bufferExtent cache) top)
    (hData : (cache bh).data = some data)
    (m : ByteMemory)
    (bytes : SectorData) :
    (fun b => (cache b).data.map
        (sectorAt (storeSector m data bytes))) =
      Function.update (fun b => (cache b).data.map (sectorAt m)) bh
        (some bytes) := by
  have hExtent : ∀ b d, (cache b).data = some d →
      bufferExtent cache b = some ⟨d.toNat, sectorSize⟩ := by
    intro b d hd
    rw [bufferExtent, hd, Option.map_some]
  have hFit : ∀ b d, (cache b).data = some d →
      d.toNat + sectorSize ≤ 2 ^ 64 := by
    intro b d hd
    exact Nat.le_trans (hPlaced.below b _ (hExtent b d hd)) hTop
  funext b
  by_cases hb : b = bh
  · subst hb
    rw [Function.update_self, hData, Option.map_some,
      sectorAt_storeSector]
  · rw [Function.update_of_ne hb]
    cases hOther : (cache b).data with
    | none => rfl
    | some d =>
        rw [Option.map_some, Option.map_some,
          sectorAt_storeSector_apart m bytes (hFit bh data hData)
            (hFit b d hOther)
            (hPlaced.apart bh b _ _ (Ne.symm hb)
              (hExtent bh data hData) (hExtent b d hOther))]

section Changes

variable {s : BufferSession V}

theorem CoherentInvariant.modified
    (hInv : CoherentInvariant content s)
    (hHold : hold ∈ s.holds)
    (hData : (s.cache hold.bh).data = some data)
    (bytes : SectorData)
    (dirty : Bool) :
    CoherentInvariant content
      (s.modified hold data bytes dirty) := by
  have hFields : ∀ b,
      ((s.modified hold data bytes dirty).cache b).sector =
          (s.cache b).sector ∧
        ((s.modified hold data bytes dirty).cache b).data =
          (s.cache b).data ∧
        ((s.modified hold data bytes dirty).cache b).refCount =
          (s.cache b).refCount ∧
        (b ≠ hold.bh →
          (s.modified hold data bytes dirty).cache b =
            s.cache b) := by
    intro b
    simp only [BufferSession.modified, BufferState.cache_modifyHead]
    split
    next hb =>
      rw [hb]
      exact ⟨rfl, rfl, rfl, fun hNe => absurd rfl hNe⟩
    next => exact ⟨rfl, rfl, rfl, fun _ => rfl⟩
  have hKey :
      (cacheOf content (s.modified hold data bytes dirty)).key =
        (cacheOf content s).key := by
    funext b
    simp only [cacheOf, (hFields b).1]
    rfl
  constructor
  · intro b
    rw [(hFields b).2.2.1]
    exact hInv.counted b
  · rw [hKey]
    exact hInv.held
  · exact hInv.single
  · intro b hNone hDirty
    have hb : b ≠ hold.bh := by
      rintro rfl
      have hHeld := hInv.held hold hHold
      rw [hInv.key_iff] at hHeld
      have hOwner := hHeld.1
      rw [show s.owners hold.bh = [] from hNone] at hOwner
      cases hOwner
    rw [(hFields b).2.2.2 hb] at hDirty
    exact hInv.used b hNone hDirty
  · refine hInv.placed.mono (Nat.le_refl _) ?_
    intro b extent hExtent
    simp only [bufferExtent, (hFields b).2.1] at hExtent
    exact hExtent
  · have hWritten := hInv.coherent.modify (hInv.held hold hHold)
      (fun b =>
        ((s.modified hold data bytes dirty).cache b).Dirty)
      (fun b hb hDirty => by
        rw [(hFields b).2.2.2 hb] at hDirty
        exact hDirty) bytes
    have hCache :
        cacheOf content (s.modified hold data bytes dirty) =
          { cacheOf content s with
            value :=
              Function.update (cacheOf content s).value hold.bh
                (some bytes)
            dirty := fun b =>
              ((s.modified hold data bytes dirty).cache b).Dirty
            latest :=
              Function.update (cacheOf content s).latest
                (hold.dev, hold.sector) (some bytes) } := by
      apply CachedStore.ext
      · exact hKey
      · have hValues := values_storeSector s.heap.heapPtr.isLt.le
          hInv.placed hData s.world.memory bytes
        simp only [cacheOf, ← hValues, (hFields _).2.1]
        rfl
      · rfl
      · funext k
        rcases k with ⟨q, t⟩
        simp only [cacheOf, BufferSession.modified,
          Function.update_apply, Prod.mk.injEq]
        by_cases hq : q = hold.dev
        · subst hq
          simp [Function.update_apply]
        · simp [hq]
      · rfl
    rw [hCache]
    exact hWritten

end Changes

--------------------
-- Setting Up
--------------------

/- A free buffer after it is set up. -/
structure SetUp
    (devices : Addr → FlushDevice (DiskWorld V))
    (content : V → Addr → U64 → SectorData)
    (s : BufferSession V)
    (kind : BufferLookup)
    (p : Addr)
    (sector : U64)
    (bh : BufferPtr)
    (t : BufferState (LoggedWorld V)) : Prop where
  named : (t.cache bh).sector = sector
  refCount : (t.cache bh).refCount = 1#32
  other : ∀ b, b ≠ bh → t.cache b = s.cache b
  placed : Extents.Placed (bufferExtent t.cache)
    t.heap.heapPtr.toNat
  disks : content t.world.disks =
    content
      (writeBack (cacheDevices devices) s.toBufferState (some p)
        bh).world.disks
  dirty : (t.cache bh).Dirty ↔ kind = .getblk
  values : ∃ x,
    (fun b => (t.cache b).data.map (sectorAt t.world.memory)) =
        Function.update
          (fun b => (s.cache b).data.map (sectorAt s.world.memory))
          bh (some x) ∧
      (kind = .bread → x = content t.world.disks p sector)

section Setups

variable {s : BufferSession V}
variable {p : Addr}
variable {sector : U64}
variable {bh : BufferPtr}

theorem writeBack_memory
    (hLaws : DeviceLaws devices content)
    (t : BufferState (LoggedWorld V))
    (p : Addr)
    (bh : BufferPtr) :
    (writeBack (cacheDevices devices) t (some p)
      bh).world.memory = t.world.memory := by
  unfold writeBack
  split
  · exact (blockWrite_laws hLaws p (t.cache bh).sector
      (t.cache bh).data t.world).1
  · rfl

/- A buffer without data gets a block above all others. -/
theorem ensureData_placed
    (hData :
      (t.cache bh).data = some data ∨
        (t.cache bh).data = none ∧
          (kmalloc t.heap 512#64).1 = some data)
    (hPlaced :
      Extents.Placed (bufferExtent t.cache)
        t.heap.heapPtr.toNat) :
    (ensureData t bh).cache bh =
        { t.cache bh with data := some data } ∧
      (∀ b, b ≠ bh → (ensureData t bh).cache b = t.cache b) ∧
      Extents.Placed (bufferExtent (ensureData t bh).cache)
        (ensureData t bh).heap.heapPtr.toNat := by
  refine ⟨?_, fun b => (ensureData_frame t bh b).2.2.1, ?_⟩
  · rcases hData with hSome | ⟨hNone, hGiven⟩
    · simp only [ensureData, hSome]
      rw [← hSome]
    · simp [ensureData, hNone, hGiven]
  · rcases hData with hSome | ⟨hNone, hGiven⟩
    · simp only [ensureData, hSome]
      exact hPlaced
    · cases hCall : kmalloc t.heap 512#64 with
      | mk given heap =>
          rw [hCall] at hGiven
          simp only at hGiven
          subst hGiven
          rcases kmalloc_some hCall with ⟨rfl, _, _, hPtr⟩
          have hSize : (alignUp8 512#64).toNat = sectorSize := by
            decide
          have hEnd :
              t.heap.heapPtr.toNat + sectorSize ≤
                heap.heapPtr.toNat := by
            omega
          simp only [ensureData, hNone, hCall]
          refine hPlaced.place (i := bh) (Nat.le_refl _) hEnd ?_ ?_
          · simp [bufferExtent]
          · intro b extent hb hExtent
            simpa [bufferExtent, hb] using hExtent

/- The part that `bread` and `getblk` share. -/
theorem setupBuffer_placed
    (hInv : CoherentInvariant content s)
    {data : Addr}
    (hData :
      (s.cache bh).data = some data ∨
        (s.cache bh).data = none ∧
          (kmalloc s.heap 512#64).1 = some data)
    (size flags : U32) :
    let t := setupBuffer (cacheDevices devices) s.toBufferState
      (some p) bh sector size flags
    (∃ next, t.cache bh =
        ⟨next, sector, size, flags, some data, 1#32⟩) ∧
      (∀ b, b ≠ bh → t.cache b = s.cache b) ∧
      Extents.Placed (bufferExtent t.cache)
        t.heap.heapPtr.toNat := by
  have hCache := (writeBack_cache (cacheDevices devices)
    s.toBufferState (some p) bh).1
  have hHeap :
      (writeBack (cacheDevices devices) s.toBufferState (some p)
        bh).heap = s.heap := by
    unfold writeBack
    split
    · rfl
    · rfl
  intro t
  have hNamed : t =
      ensureData
        ((writeBack (cacheDevices devices) s.toBufferState (some p)
            bh).modifyHead bh fun b =>
          { b with
            sector := sector, size := size, flags := flags,
            refCount := 1#32 }) bh := rfl
  revert hNamed
  generalize hState :
    (writeBack (cacheDevices devices) s.toBufferState (some p)
        bh).modifyHead bh (fun b =>
      { b with
        sector := sector, size := size, flags := flags,
        refCount := 1#32 }) = u
  intro hNamed
  have hThis : u.cache bh =
      { s.cache bh with
        sector := sector, size := size, flags := flags,
        refCount := 1#32 } := by
    rw [← hState, BufferState.cache_modifyHead, if_pos rfl, hCache]
  have hOther : ∀ b, b ≠ bh → u.cache b = s.cache b := by
    intro b hb
    rw [← hState, BufferState.cache_modifyHead, if_neg hb, hCache]
  have hTop : u.heap = s.heap := by
    rw [← hState]
    exact hHeap
  have hPlaced : Extents.Placed (bufferExtent u.cache)
      u.heap.heapPtr.toNat := by
    rw [hTop]
    refine hInv.placed.mono (Nat.le_refl _) ?_
    intro b extent hExtent
    by_cases hb : b = bh
    · subst hb
      simpa only [bufferExtent, hThis] using hExtent
    · simpa only [bufferExtent, hOther b hb] using hExtent
  rw [hNamed]
  have hBlock :
      (u.cache bh).data = some data ∨
        (u.cache bh).data = none ∧
          (kmalloc u.heap 512#64).1 = some data := by
    rw [hThis, hTop]
    exact hData
  rcases ensureData_placed hBlock hPlaced with
    ⟨hData', hOther', hPlaced'⟩
  refine ⟨⟨(s.cache bh).next, ?_⟩, ?_, hPlaced'⟩
  · rw [hData', hThis]
  · intro b hb
    rw [hOther' b hb, hOther b hb]

/- The values of the slots when one of them is set. -/
theorem values_update
    {cache cache' : BufferPtr → BufferHead}
    {m : ByteMemory}
    {data : Addr}
    (hData : (cache' bh).data = some data)
    (hOther : ∀ b, b ≠ bh → cache' b = cache b) :
    (fun b => (cache' b).data.map (sectorAt m)) =
      Function.update (fun b => (cache b).data.map (sectorAt m)) bh
        (some (sectorAt m data)) := by
  funext b
  by_cases hb : b = bh
  · subst hb
    rw [Function.update_self, hData, Option.map_some]
  · rw [Function.update_of_ne hb, hOther b hb]

theorem getblk_setUp
    (hLaws : DeviceLaws devices content)
    (hInv : CoherentInvariant content s)
    (size : U32)
    (hOk : SetupOk devices s .getblk p sector bh) :
    SetUp devices content s .getblk p sector bh
      (BufferLookup.getblk.use (cacheDevices devices) (some p)
        sector size s.toBufferState bh) := by
  rcases hOk with ⟨data, hData, _⟩
  have hSetup := @setupBuffer_placed V devices content s p sector bh
    hInv data hData size bufferDirty
  have hWorld := setupBuffer_world (cacheDevices devices)
    s.toBufferState (some p) bh sector size bufferDirty
  simp only [BufferLookup.use]
  revert hSetup hWorld
  generalize setupBuffer (cacheDevices devices) s.toBufferState
    (some p) bh sector size bufferDirty = u
  rintro ⟨⟨next, hThis⟩, hOther, hPlaced⟩ hWorld
  have hMemory : u.world.memory = s.world.memory := by
    rw [hWorld]
    exact writeBack_memory hLaws s.toBufferState p bh
  have hLinked : ∀ b,
      ((linkBuffer u (hashSector sector) bh).cache b).data =
        (u.cache b).data := by
    intro b
    simp only [linkBuffer, BufferState.cache_modifyHead]
    split
    next hb => rw [hb]
    next => rfl
  constructor
  · simp [linkBuffer, hThis]
  · simp [linkBuffer, hThis]
  · intro b hb
    simp [linkBuffer, hb, hOther b hb]
  · refine hPlaced.mono (Nat.le_refl _) ?_
    intro b extent hExtent
    simpa only [bufferExtent, hLinked b] using hExtent
  · exact congrArg content (congrArg (fun w => w.disks) hWorld)
  · simp only [linkBuffer, BufferState.cache_modifyHead, if_true,
      BufferHead.Dirty, hThis, iff_true]
    decide
  · refine ⟨sectorAt s.world.memory data, ?_, by simp⟩
    simp only [hLinked]
    have hValues := @values_update bh s.cache u.cache
      s.world.memory data (by rw [hThis]) hOther
    rw [← hValues, ← hMemory]
    rfl

theorem bread_setUp
    (hLaws : DeviceLaws devices content)
    (hInv : CoherentInvariant content s)
    (size : U32)
    (hOk : SetupOk devices s .bread p sector bh) :
    SetUp devices content s .bread p sector bh
      (BufferLookup.bread.use (cacheDevices devices) (some p) sector
        size s.toBufferState bh) := by
  rcases hOk with ⟨data, hData, hRead⟩
  have hSetup := @setupBuffer_placed V devices content s p sector bh
    hInv data hData size 0#32
  have hWorld := setupBuffer_world (cacheDevices devices)
    s.toBufferState (some p) bh sector size 0#32
  simp only [BufferLookup.use]
  revert hSetup hWorld
  generalize setupBuffer (cacheDevices devices) s.toBufferState
    (some p) bh sector size 0#32 = u
  rintro ⟨⟨next, hThis⟩, hOther, hPlaced⟩ hWorld
  have hMemory : u.world.memory = s.world.memory := by
    rw [hWorld]
    exact writeBack_memory hLaws s.toBufferState p bh
  have hZero := hRead rfl
  rw [← hWorld] at hZero
  have hBlock : (u.cache bh).data = some data := by rw [hThis]
  rcases blockRead_laws hLaws p sector data u.world with
    ⟨hDisks, bytes, hStored, hBytes⟩
  have hFilled : ∀ b,
      ((linkBuffer
          (fillBuffer (cacheDevices devices) u (some p) bh sector)
          (hashSector sector) bh).cache b).data =
        (u.cache b).data := by
    intro b
    simp only [linkBuffer, fillBuffer, BufferState.cache_modifyHead]
    split
    next hb =>
      rw [hb]
      rfl
    next => rfl
  constructor
  · simp [linkBuffer, fillBuffer, hThis]
  · simp [linkBuffer, fillBuffer, hThis]
  · intro b hb
    simp [linkBuffer, fillBuffer, hb, hOther b hb]
  · refine hPlaced.mono (Nat.le_refl _) ?_
    intro b extent hExtent
    simpa only [bufferExtent, hFilled b] using hExtent
  · simp only [linkBuffer, fillBuffer, hBlock,
      BufferState.modifyHead, ← hWorld]
    exact hDisks
  · simp only [linkBuffer, fillBuffer, BufferState.cache_modifyHead,
      if_true, BufferHead.Dirty, hThis]
    decide
  · refine ⟨bytes, ?_, fun _ => ?_⟩
    · simp only [hFilled]
      have hValues := values_storeSector u.heap.heapPtr.isLt.le
        hPlaced hBlock u.world.memory bytes
      have hSet := @values_update bh s.cache u.cache
        s.world.memory data hBlock hOther
      rw [hMemory, hSet, Function.update_idem, ← hMemory,
        ← hStored] at hValues
      simp only [linkBuffer, fillBuffer, hBlock,
        BufferState.modifyHead]
      rw [← hMemory]
      exact hValues
    · rw [hBytes hZero]
      simp only [linkBuffer, fillBuffer, hBlock,
        BufferState.modifyHead]
      exact (congrFun (congrFun hDisks p) sector).symm

/- The buffer is given up, after its data are on the disk. -/
theorem CoherentInvariant.evicted
    (hLaws : DeviceLaws devices content)
    (hInv : CoherentInvariant content s)
    (hOk : EvictOk devices content s p bh) :
    CachedStore.Coherent
      { cacheOf content s with
        key := Function.update (cacheOf content s).key bh none
        stored := fun k =>
          content
            (writeBack (cacheDevices devices) s.toBufferState
              (some p) bh).world.disks k.1 k.2 } := by
  by_cases hDirty : (s.cache bh).Dirty
  · rcases hOk.1 hDirty with ⟨hDevice, hRet⟩
    have hKey := hInv.dirty_key hDirty hDevice
    rcases blockWrite_laws hLaws p (s.cache bh).sector
        (s.cache bh).data s.world with
      ⟨_, hOther, hDone⟩
    rcases hDone hRet with ⟨data, hData, hWritten⟩
    have hWorld :
        (writeBack (cacheDevices devices) s.toBufferState (some p)
            bh).world =
          (blockWrite (cacheDevices devices) (some p)
            (s.cache bh).sector 1#32 (s.cache bh).data
            s.world).2 := by
      have hTest : (s.cache bh).flags &&& bufferDirty ≠ 0#32 :=
        hDirty
      simp only [writeBack, hTest, ne_eq, not_false_eq_true,
        if_true]
    have hStored :
        (fun k : Addr × U64 =>
          content
            (writeBack (cacheDevices devices) s.toBufferState
              (some p) bh).world.disks k.1 k.2) =
          Function.update (cacheOf content s).stored
            (p, (s.cache bh).sector)
            (sectorAt s.world.memory data) := by
      funext k
      rw [hWorld]
      by_cases hk : k = (p, (s.cache bh).sector)
      · rw [hk, Function.update_self]
        exact hWritten
      · rw [Function.update_of_ne hk]
        exact hOther k.1 k.2 hk
    rw [hStored]
    apply (hInv.coherent.writeBack hKey hDirty
      (sectorAt s.world.memory data)).evict
    intro k hThis
    have hk : k = (p, (s.cache bh).sector) := by
      have hSame := hKey.symm.trans hThis
      injection hSame with hSame
      exact hSame.symm
    rw [hk]
    simp only [cacheOf, hData, Option.map_some,
      Function.update_self]
  · have hWorld :
        (writeBack (cacheDevices devices) s.toBufferState (some p)
          bh).world = s.world := by
      have hTest : ¬ (s.cache bh).flags &&& bufferDirty ≠ 0#32 :=
        hDirty
      simp only [writeBack, hTest, if_false]
    rw [hWorld]
    apply hInv.coherent.evict
    rintro ⟨q, t⟩ hKey
    rcases hInv.shows hKey with ⟨data, hData, _⟩
    rcases hInv.key_iff.mp hKey with ⟨hOwner, rfl⟩
    have hSaved := hOk.2 hDirty q hOwner data hData
    simp only [cacheOf, hData, Option.map_some, hSaved]

theorem freeBuffer_idle
    (hFree : freeBuffer t = some bh) :
    (t.cache bh).refCount = 0#32 := by
  have hIdle := List.find?_some hFree
  exact of_decide_eq_true hIdle

variable {t : BufferState (LoggedWorld V)}

/- The buffer is named anew, and no other buffer is. -/
theorem reused_key
    (hUp : SetUp devices content s kind p sector bh t) :
    (cacheOf content (s.reused bh p sector t)).key =
      Function.update
        (Function.update (cacheOf content s).key bh none) bh
        (some (p, sector)) := by
  funext b
  rw [Function.update_idem]
  by_cases hb : b = bh
  · subst hb
    simp only [cacheOf, BufferSession.reused,
      Function.update_self, List.head?_cons, Option.map_some,
      hUp.named]
  · simp only [cacheOf, BufferSession.reused,
      Function.update_of_ne hb, hUp.other b hb]

/-
  Evicting the old content, and then filling or claiming the
  buffer, is what the look-up did.
-/
theorem CoherentInvariant.reused_coherent
    (hLaws : DeviceLaws devices content)
    (hInv : CoherentInvariant content s)
    (hAlone : ∀ q, s.Cached p sector q → q = bh)
    (hEvict : EvictOk devices content s p bh)
    (hUp : SetUp devices content s kind p sector bh t) :
    (cacheOf content (s.reused bh p sector t)).Coherent := by
  have hGiven := hInv.evicted hLaws hEvict
  have hFreed :
      Function.update (cacheOf content s).key bh none bh =
        none := by
    rw [Function.update_self]
  have hOut : ∀ b,
      Function.update (cacheOf content s).key bh none b ≠
        some (p, sector) := by
    intro b hSome
    by_cases hb : b = bh
    · rw [hb, Function.update_self] at hSome
      cases hSome
    · rw [Function.update_of_ne hb] at hSome
      exact hb (hAlone b (hInv.key_iff.mp hSome))
  have hDirty : ∀ new : Prop, ((t.cache bh).Dirty ↔ new) →
      (fun b => (t.cache b).Dirty) =
        Function.update (cacheOf content s).dirty bh new := by
    intro new hNew
    funext b
    by_cases hb : b = bh
    · rw [hb, Function.update_self]
      exact propext hNew
    · rw [Function.update_of_ne hb, hUp.other b hb]
      rfl
  have hStored :
      (fun k : Addr × U64 => content t.world.disks k.1 k.2) =
        fun k =>
          content
            (writeBack (cacheDevices devices) s.toBufferState
              (some p) bh).world.disks k.1 k.2 := by
    rw [hUp.disks]
  rcases hUp.values with ⟨x, hValues, hBread⟩
  cases kind with
  | bread =>
      have hClean : ¬ (t.cache bh).Dirty := by
        simp [hUp.dirty]
      have hFilled := hGiven.fill (b := bh) hFreed hOut
      convert hFilled using 1
      apply CachedStore.ext
      · exact reused_key hUp
      · rw [hBread rfl, hUp.disks] at hValues
        exact hValues
      · exact hDirty False (iff_false_intro hClean)
      · simp only [cacheOf, BufferSession.reused,
          BufferSession.latestFor, hClean, if_false]
      · exact hStored
  | getblk =>
      have hIs : (t.cache bh).Dirty := hUp.dirty.mpr rfl
      have hClaimed := hGiven.claim (b := bh) (x := x) hFreed
        hOut
      convert hClaimed using 1
      have hSome :
          (t.cache bh).data.map (sectorAt t.world.memory) =
            some x := by
        have hThis := congrFun hValues bh
        rw [Function.update_self] at hThis
        exact hThis
      apply CachedStore.ext
      · exact reused_key hUp
      · exact hValues
      · exact hDirty True (iff_true_intro hIs)
      · funext k
        rcases k with ⟨q, u⟩
        simp only [cacheOf, BufferSession.reused,
          BufferSession.latestFor, hIs, if_true, hSome,
          hUp.named, Function.update_apply, Prod.mk.injEq]
        by_cases hq : q = p
        · simp [hq, Function.update_apply]
        · simp [hq]
      · exact hStored

/- The free buffer becomes one of the sector. -/
theorem CoherentInvariant.reused
    (hLaws : DeviceLaws devices content)
    (hInv : CoherentInvariant content s)
    (hFree : freeBuffer s.toBufferState = some bh)
    (hAlone : ∀ q, s.Cached p sector q → q = bh)
    (hEvict : EvictOk devices content s p bh)
    (hUp : SetUp devices content s kind p sector bh t) :
    CoherentInvariant content (s.reused bh p sector t) := by
  have hNone : (s.holds.countP fun h => h.bh = bh) = 0 := by
    have hIdle := freeBuffer_idle hFree
    rw [← hInv.counted bh, hIdle]
    rfl
  rw [List.countP_eq_zero] at hNone
  constructor
  · intro b
    simp only [BufferSession.reused, List.countP_cons]
    by_cases hb : b = bh
    · subst hb
      have hZero : (s.holds.countP fun h => h.bh = b) = 0 :=
        List.countP_eq_zero.mpr hNone
      simp [hUp.refCount, hZero]
    · rw [hUp.other b hb, hInv.counted b]
      simp [Ne.symm hb]
  · intro h hMem
    rw [reused_key hUp]
    rcases List.mem_cons.mp hMem with rfl | hOld
    · exact Function.update_self bh _ _
    · have hNe : h.bh ≠ bh := by
        simpa using hNone h hOld
      rw [Function.update_of_ne hNe, Function.update_of_ne hNe]
      exact hInv.held h hOld
  · intro b q hq q' hq'
    simp only [BufferSession.reused, Function.update_apply]
      at hq hq'
    split at hq
    · rw [List.mem_singleton] at hq
      next hb =>
        rw [if_pos hb, List.mem_singleton] at hq'
        rw [hq, hq']
    next hb =>
      rw [if_neg hb] at hq'
      exact hInv.single b q hq q' hq'
  · intro b hOwners hDirty
    by_cases hb : b = bh
    · subst hb
      simp [BufferSession.reused] at hOwners
    · simp only [BufferSession.reused, Function.update_of_ne hb]
        at hOwners hDirty
      rw [hUp.other b hb] at hDirty
      exact hInv.used b hOwners hDirty
  · exact hUp.placed
  · exact hInv.reused_coherent hLaws hAlone hEvict hUp

end Setups

--------------------
-- Steps And Runs
--------------------

section Runs

variable {s s' : BufferSession V}

theorem BufferSession.Finds.unique
    {sector : U64}
    {b c : BufferPtr}
    (hFirst : s.Finds kind sector b)
    (hSecond : s.Finds kind sector c) :
    b = c := by
  rcases hFirst with ⟨_, hb⟩
  rcases hSecond with ⟨_, hc⟩
  exact Option.some.inj (findBuffer_unique hb hc)

theorem use_setUp
    (hLaws : DeviceLaws devices content)
    (hInv : CoherentInvariant content s)
    {sector : U64}
    (size : U32)
    (hOk : SetupOk devices s kind p sector bh) :
    SetUp devices content s kind p sector bh
      (kind.use (cacheDevices devices) (some p) sector size
        s.toBufferState bh) := by
  cases kind with
  | bread => exact bread_setUp hLaws hInv size hOk
  | getblk => exact getblk_setUp hLaws hInv size hOk

theorem CoherentInvariant.step
    (hLaws : DeviceLaws devices content)
    (hInv : CoherentInvariant content s)
    {call : BufferUse}
    (hOk : CoherentOk devices content s call)
    (hStep : sessionStep devices s call s') :
    CoherentInvariant content s' := by
  cases call with
  | lookup kind dev sector size =>
      rcases lookup_cases hStep with
        ⟨_, rfl⟩ | ⟨p, rfl, hDev, hRest⟩
      · exact hInv
      · have hData : (devices p).privateData ≠ none := by
          rcases hDev with ⟨q, hq, hData⟩
          injection hq with hq
          rw [hq]
          exact hData
        rcases hRest with
          ⟨bh, hFinds, rfl⟩ | ⟨_, _, rfl⟩ |
            ⟨bh, hMiss, hFree, rfl⟩
        · rcases hOk hData with
            ⟨c, hFinds', hOwner, hCount⟩ | ⟨hMiss, _⟩
          · rw [hFinds.unique hFinds']
            exact hInv.hit hFinds' hOwner hCount
          · exact absurd hMiss hFinds.not_misses
        · exact hInv
        · rcases hOk hData with ⟨c, hFinds, _⟩ | ⟨_, hUse⟩
          · exact absurd hMiss hFinds.not_misses
          · rcases hUse bh hFree with ⟨hAlone, hEvict, hSetup⟩
            exact hInv.reused hLaws hFree hAlone hEvict
              (use_setUp hLaws hInv size hSetup)
  | brelse hold =>
      rcases hStep with ⟨hHold, rfl⟩
      exact hInv.release hHold
  | bwrite bh =>
      have hState : s' = { s with
          toBufferState := (FeatherOS.bwrite s.toBufferState
            bh).2 } := hStep
      rw [hState]
      exact hInv.bwrite bh
  | syncDev dev =>
      have hState : s' = { s with
          toBufferState :=
            FeatherOS.syncDev (loggedDevices devices)
              s.toBufferState dev } := hStep
      rw [hState]
      exact hInv.syncDev hLaws hOk
  | modify hold bytes dirty =>
      rcases hStep with ⟨hHold, data, hData, rfl⟩
      exact hInv.modified hHold hData bytes dirty

theorem BufferSession.Started.coherent
    (hStart : s.Started) :
    CoherentInvariant content s := by
  rcases hStart with
    ⟨⟨s₀, hInit⟩, hHolds, hOwners, hLatest, _⟩
  have hKey : ∀ b, (cacheOf content s).key b = none := by
    intro b
    simp [cacheOf, hOwners]
  constructor
  · intro b
    rw [hInit, hHolds]
    rfl
  · intro h hMem
    rw [hHolds] at hMem
    cases hMem
  · intro b p hp
    rw [hOwners] at hp
    cases hp
  · intro b _ hDirty
    rw [hInit] at hDirty
    exact hDirty BitVec.zero_and
  · have hNone : ∀ b, bufferExtent s.cache b = none := by
      intro b
      rw [hInit]
      rfl
    constructor
    · intro b extent hExtent
      rw [hNone] at hExtent
      cases hExtent
    · intro b c extent _ _ hExtent
      rw [hNone] at hExtent
      cases hExtent
  · constructor
    · intro b c k hb
      rw [hKey] at hb
      cases hb
    · intro b k hb
      rw [hKey] at hb
      cases hb
    · intro k _ x hx
      simp [cacheOf, hLatest] at hx
    · intro b k hb
      rw [hKey] at hb
      cases hb

/-
  `bread` returns. It gives no buffer when all are held, and
  else one that shows the current data of the sector.
-/
def BreadShows
    (devices : Addr → FlushDevice (DiskWorld V))
    (content : V → Addr → U64 → SectorData)
    (s : BufferSession V)
    (p : Addr)
    (sector : U64)
    (size : U32) : Prop :=
  ∃ fuel answer,
    bread (cacheDevices devices) fuel s.toBufferState (some p)
        sector size = some answer ∧
      match answer.1 with
      | none => ∀ bh, (s.cache bh).refCount ≠ 0#32
      | some bh =>
          Shows content { s with toBufferState := answer.2 } p
            sector bh

/- What a lookup returns after its search. -/
def lookupAnswer
    {W : Type}
    (use : BufferState W → BufferPtr → BufferState W)
    (t : BufferState W) :
    Option BufferPtr → Option BufferPtr × BufferState W
  | some bh =>
      (some bh,
        t.modifyHead bh fun b =>
          { b with refCount := b.refCount + 1#32 })
  | none =>
      match freeBuffer t with
      | none => (none, t)
      | some bh => (some bh, use t bh)

variable {found : Option BufferPtr}
variable {fuel : Nat}

theorem lookupBuffer_found
    {drivers : Addr → BlockDevice W}
    {sector : U64}
    (use : BufferState W → BufferPtr → BufferState W)
    (hData : (drivers p).privateData ≠ none)
    (hFound :
      findBuffer wanted t fuel (t.hashtable (hashSector sector)) =
        some found) :
    lookupBuffer drivers wanted use fuel t (some p) sector =
      some (lookupAnswer use t found) := by
  simp only [lookupBuffer, hData, if_false, hFound,
    Option.bind_eq_bind, Option.bind_some]
  cases found with
  | some bh => rfl
  | none =>
      simp only [lookupAnswer]
      cases freeBuffer t with
      | none => rfl
      | some bh => rfl

theorem bread_found
    {sector : U64}
    (hData : (devices p).privateData ≠ none)
    (hFound : s.search .bread sector fuel = some found)
    (size : U32) :
    bread (cacheDevices devices) fuel s.toBufferState (some p)
        sector size =
      some
        (lookupAnswer
          (fun t bh =>
            BufferLookup.bread.use (cacheDevices devices) (some p)
              sector size t bh)
          s.toBufferState found) :=
  lookupBuffer_found _ hData hFound

theorem CoherentInvariant.bread
    (hLaws : DeviceLaws devices content)
    (hInv : CoherentInvariant content s)
    {sector : U64}
    (hData : (devices p).privateData ≠ none)
    (hOk : LookupOk devices content s .bread p sector)
    (size : U32) :
    BreadShows devices content s p sector size := by
  rcases hOk with ⟨bh, hFinds, hOwner, _⟩ | ⟨⟨fuel, hMiss⟩, hUse⟩
  · have hKey := hInv.key_iff.mpr ⟨hOwner, hFinds.sector⟩
    rcases hInv.shows hKey with ⟨data, hBlock, hShown⟩
    rcases hFinds with ⟨fuel, hFound⟩
    refine ⟨fuel, _, bread_found hData hFound size, data, ?_,
      hShown⟩
    simp [lookupAnswer, hBlock]
  · refine ⟨fuel, _, bread_found hData hMiss size, ?_⟩
    cases hFree : freeBuffer s.toBufferState with
    | none =>
        simp only [lookupAnswer, hFree]
        intro bh hIdle
        have hBusy := List.find?_eq_none.mp hFree bh
          (List.mem_finRange bh)
        exact hBusy (decide_eq_true hIdle)
    | some bh =>
        rcases hUse bh hFree with ⟨hAlone, hEvict, hSetup⟩
        have hUp := use_setUp hLaws hInv size hSetup
        have hAfter := hInv.reused hLaws hFree hAlone hEvict hUp
        rcases hAfter.shows
            (hAfter.held ⟨bh, p, sector⟩ List.mem_cons_self) with
          ⟨data, hBlock, hShown⟩
        simp only [lookupAnswer, hFree]
        refine ⟨data, hBlock, ?_⟩
        -- a buffer that is read is not dirty
        have hClean := hUp.dirty.not.mpr (by simp)
        simpa only [BufferSession.current, BufferSession.reused,
          BufferSession.latestFor, hClean, if_false] using hShown

/-
  In a run of calls that meet the condition held buffers are
  the same as their sectors, and every further `bread` that
  meets it shows the current data.
-/
theorem sessionRun_coherent
    (hLaws : DeviceLaws devices content)
    {calls : List BufferUse}
    (hStart : s.Started)
    (hRun :
      Run (Guarded (CoherentOk devices content)
        (sessionStep devices)) s calls s') :
    HeldAlike s' ∧
      ∀ p sector size, (devices p).privateData ≠ none →
        LookupOk devices content s' .bread p sector →
          BreadShows devices content s' p sector size := by
  have hInv : CoherentInvariant content s' := by
    apply hRun.invariant (CoherentInvariant content)
    · intro t call t' hInv hStep
      exact hInv.step hLaws hStep.1 hStep.2
    · exact hStart.coherent
  refine ⟨hInv.heldAlike, ?_⟩
  intro p sector size hData hOk
  exact hInv.bread hLaws hData hOk size

end Runs

end Coherence

--------------------
-- Two Sessions
--------------------

theorem plainDisks_laws :
    DeviceLaws plainDisks fun disks => disks where
  read := by
    intro p read hRead lba data w
    injection hRead with hRead
    subst hRead
    exact ⟨rfl, _, rfl, fun _ => rfl⟩
  write := by
    intro p write hWrite lba buffer w
    injection hWrite with hWrite
    subst hWrite
    cases buffer with
    | none => exact ⟨rfl, fun _ _ _ => rfl, by simp⟩
    | some data =>
        refine ⟨rfl, ?_, fun _ => ⟨data, rfl, by simp⟩⟩
        intro q t hOther
        simp only [Function.update_apply]
        split
        next hq =>
          have ht : t ≠ lba := by
            rintro rfl
            exact hOther (by rw [hq])
          rw [Function.update_of_ne ht, hq]
        next => rfl
  flush := by
    intro p flush hFlush
    cases hFlush

/- The sector 0 of a disk is read. -/
def readSector : BufferSession Disks :=
  sessionLookup .bread emptyCache 0x2000#64 0#64

def readHold : BufferHold :=
  ⟨firstBuffer, 0x2000#64, 0#64⟩

/- Its buffer is written. -/
def writtenSector : BufferSession Disks :=
  readSector.modified readHold 0x200000#64 (fun _ => 7#8) true

/- And then it is released. -/
def releasedSector : BufferSession Disks :=
  { writtenSector with
    toBufferState :=
      brelse writtenSector.toBufferState (some firstBuffer)
    holds := writtenSector.holds.erase readHold }

theorem sessionRun_coherent_written :
    HeldAlike releasedSector ∧
      BreadShows plainDisks (fun disks => disks) releasedSector
        0x2000#64 0#64 512#32 := by
  have hFree :
      freeBuffer emptyCache.toBufferState = some firstBuffer := by
    decide
  have hOk :
      CoherentOk plainDisks (fun disks => disks) emptyCache
        (.lookup .bread (some 0x2000#64) 0#64 512#32) := by
    intro _
    refine .inr ⟨⟨1, rfl⟩, ?_⟩
    intro bh hbh
    rw [hFree] at hbh
    injection hbh with hbh
    subst hbh
    refine ⟨?_, ⟨?_, ?_⟩, 0x200000#64, .inr ⟨rfl, rfl⟩, ?_⟩
    · intro q hq
      cases hq.1
    · intro hDirty
      exact absurd BitVec.zero_and hDirty
    · intro _ q hq
      cases hq
    · intro _
      rfl
  have hRun :
      Run
        (Guarded (CoherentOk plainDisks fun disks => disks)
          (sessionStep plainDisks)) emptyCache
        [.lookup .bread (some 0x2000#64) 0#64 512#32,
          .modify readHold (fun _ => 7#8) true,
          .brelse readHold]
        releasedSector :=
    .cons ⟨hOk, 4, _, rfl, rfl⟩
      (.cons ⟨trivial, List.mem_singleton_self _, _, rfl, rfl⟩
        (.cons ⟨trivial, List.mem_singleton_self _, rfl⟩
          (.nil _)))
  have hBoth := sessionRun_coherent plainDisks_laws
    emptyCache_started hRun
  refine ⟨hBoth.1, hBoth.2 _ _ _ (by decide) (.inl ?_)⟩
  exact ⟨firstBuffer, ⟨1, by decide +kernel⟩,
    List.mem_singleton_self _, by decide +kernel⟩

/- `&buffer_cache[1]` -/
def secondBuffer : BufferPtr := ⟨1, by decide⟩

/-
  `bread` does not take the buffer that `getblk` set up for
  the sector, since it is not valid, and sets up another.
-/
theorem getblk_bread_two_buffers :
    ¬ ∀ (devices : Addr → FlushDevice (DiskWorld Disks))
        (content : Disks → Addr → U64 → SectorData)
        (s t : BufferSession Disks) (calls : List BufferUse),
      DeviceLaws devices content → s.Started →
        Run (sessionStep devices) s calls t → HeldAlike t := by
  intro hAll
  let both : BufferSession Disks :=
    sessionLookup .bread gotSector 0x2000#64 0#64
  have hRun :
      Run (sessionStep plainDisks) emptyCache
        [.lookup .getblk (some 0x2000#64) 0#64 512#32,
          .lookup .bread (some 0x2000#64) 0#64 512#32] both :=
    .cons gotSector_step (.cons ⟨4, _, rfl, rfl⟩ (.nil _))
  have hAlike := hAll plainDisks (fun disks => disks) emptyCache
    both _ plainDisks_laws emptyCache_started hRun
  have hHolds :
      both.holds =
        [⟨secondBuffer, 0x2000#64, 0#64⟩,
          ⟨firstBuffer, 0x2000#64, 0#64⟩] := by
    decide +kernel
  have hSame := (hAlike ⟨secondBuffer, 0x2000#64, 0#64⟩
    (by simp [hHolds]) ⟨firstBuffer, 0x2000#64, 0#64⟩
    (by simp [hHolds])).mp ⟨rfl, rfl⟩
  revert hSame
  decide

end FeatherOS
