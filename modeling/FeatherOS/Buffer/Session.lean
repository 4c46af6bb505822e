import FeatherOS.Buffer.Chains
import FeatherOS.Buffer.Model
import FeatherOS.Library.ByteMemory

/-
  Sessions with the buffer cache.

  `bwrite` and `sync_dev` of `kernel/drivers/ata.c`, and runs
  of all calls. The drivers work on a byte memory and a store
  of their own; every sector that `block_write` writes is
  logged. A session remembers who holds which buffer, for
  which devices a buffer was given out since it was set up,
  and the last data written for every sector.

  Key definitions include:
    * `bwrite`
    * `syncDev`
    * `loggedDevices`
    * `BufferSession`
    * `sessionStep`

  Key theorems include:
    * `findBuffer_unique`
    * `lookup_cases`
-/

namespace FeatherOS

--------------------
-- Writing Buffers
--------------------

section Writing

variable {W : Type}

/- `flags & BUFFER_DIRTY` -/
def BufferHead.Dirty (b : BufferHead) : Prop :=
  b.flags &&& bufferDirty ≠ 0#32

instance
    (b : BufferHead) :
    Decidable b.Dirty :=
  inferInstanceAs (Decidable (_ ≠ _))

/- `flags &= ~BUFFER_DIRTY` -/
def BufferHead.clean (b : BufferHead) : BufferHead :=
  { b with flags := b.flags &&& ~~~bufferDirty }

/- Nothing is written to the disk here. -/
def bwrite
    (s : BufferState W)
    (bh : Option BufferPtr) :
    Int × BufferState W :=
  match bh with
  | none => (-1, s)
  | some bh =>
      if (s.cache bh).data = none then
        (-1, s)
      else
        (0, s.modifyHead bh BufferHead.clean)

theorem clean_not_dirty
    (b : BufferHead) :
    ¬ b.clean.Dirty := by
  have hMask : ~~~bufferDirty &&& bufferDirty = 0#32 := by decide
  simp only [BufferHead.Dirty, BufferHead.clean, BitVec.and_assoc,
    hMask, BitVec.and_zero, ne_eq, not_true_eq_false,
    not_false_eq_true]

theorem or_dirty
    (flags : U32) :
    (flags ||| bufferDirty) &&& bufferDirty ≠ 0#32 := by
  intro hZero
  have hBit := congrArg (fun x => BitVec.getLsbD x 0) hZero
  simp [bufferDirty] at hBit

variable (devices : Addr → FlushDevice W)

/- One turn of the loop of `sync_dev`. -/
def syncBuffer
    (dev : Option Addr)
    (s : BufferState W)
    (bh : BufferPtr) :
    BufferState W :=
  if (s.cache bh).Dirty then
    let s :=
      { s with
        world :=
          (blockWrite (blockDevices devices) dev
            (s.cache bh).sector 1#32 (s.cache bh).data s.world).2 }
    s.modifyHead bh BufferHead.clean
  else
    s

def syncDev
    (s : BufferState W)
    (dev : Option Addr) :
    BufferState W :=
  match dev with
  | none => s
  | some p =>
      let s :=
        (List.finRange bufferCacheSize).foldl
          (syncBuffer devices (some p)) s
      { s with world := (blockFlush devices (some p) s.world).2 }

end Writing

--------------------
-- Sectors
--------------------

/- SECTOR_SIZE -/
def sectorSize : Nat := 512

abbrev SectorData := Fin sectorSize → U8

/- The block of a buffer in memory. -/
def sectorAt
    (m : ByteMemory)
    (data : Addr) :
    SectorData :=
  fun i => m (data + BitVec.ofNat 64 i)

def storeSector
    (m : ByteMemory)
    (data : Addr)
    (bytes : SectorData) :
    ByteMemory :=
  m.patch data sectorSize fun i =>
    if h : i < sectorSize then bytes ⟨i, h⟩ else 0#8

/- A sector that was written, and from where. -/
structure SectorWrite where
  dev : Addr
  lba : U64
  buffer : Option Addr
  data : Option SectorData

/- What drivers work on: memory, and what is on the disks. -/
structure DiskWorld (V : Type) where
  memory : ByteMemory
  disks : V

structure LoggedWorld (V : Type) extends DiskWorld V where
  writes : List SectorWrite

section Logging

variable {V : Type}

/- A driver that leaves the log alone. -/
def unlogged
    {α : Type}
    (f : DiskWorld V → α × DiskWorld V)
    (w : LoggedWorld V) :
    α × LoggedWorld V :=
  match f w.toDiskWorld with
  | (a, world) => (a, { w with toDiskWorld := world })

/- A write that returns 0 is logged. The cache writes one sector. -/
def loggedWrite
    (p : Addr)
    (write :
      U64 → U32 → Option Addr → DiskWorld V → Int × DiskWorld V)
    (lba : U64)
    (count : U32)
    (buffer : Option Addr)
    (w : LoggedWorld V) :
    Int × LoggedWorld V :=
  match write lba count buffer w.toDiskWorld with
  | (ret, world) =>
      (ret,
        { toDiskWorld := world
          writes :=
            if ret = 0 then
              w.writes ++
                [⟨p, lba, buffer, buffer.map (sectorAt w.memory)⟩]
            else
              w.writes })

def loggedDevices
    (devices : Addr → FlushDevice (DiskWorld V))
    (p : Addr) :
    FlushDevice (LoggedWorld V) where
  privateData := (devices p).privateData
  read := (devices p).read.map fun read lba count buffer =>
    unlogged (read lba count buffer)
  write := (devices p).write.map (loggedWrite p)
  flush := (devices p).flush.map unlogged

end Logging

--------------------
-- Sessions
--------------------

/- A buffer that is held was asked for as this sector. -/
structure BufferHold where
  bh : BufferPtr
  dev : Addr
  sector : U64
deriving DecidableEq

structure BufferSession (V : Type) extends
    BufferState (LoggedWorld V) where
  holds : List BufferHold
  owners : BufferPtr → List Addr
  latest : Addr → U64 → Option SectorData

/- The two functions that look buffers up. -/
inductive BufferLookup where
  | bread
  | getblk
deriving DecidableEq

variable {W : Type}

namespace BufferLookup

def wanted
    (sector : U64) :
    BufferLookup → BufferHead → Bool
  | .bread => fun b => b.Holds sector
  | .getblk => fun b => b.Names sector

def call
    {W : Type}
    (devices : Addr → BlockDevice W)
    (fuel : Nat)
    (s : BufferState W)
    (dev : Option Addr)
    (sector : U64)
    (size : U32) :
    BufferLookup → Option (Option BufferPtr × BufferState W)
  | .bread => FeatherOS.bread devices fuel s dev sector size
  | .getblk => FeatherOS.getblk devices fuel s dev sector size

/- What is done with a free buffer. -/
def use
    {W : Type}
    (devices : Addr → BlockDevice W)
    (dev : Option Addr)
    (sector : U64)
    (size : U32)
    (s : BufferState W)
    (bh : BufferPtr) :
    BufferLookup → BufferState W
  | .bread =>
      let s := setupBuffer devices s dev bh sector size 0#32
      let s := fillBuffer devices s dev bh sector
      let s := linkBuffer s (hashSector sector) bh
      { s with cacheMisses := s.cacheMisses + 1#64 }
  | .getblk =>
      let s :=
        setupBuffer devices s dev bh sector size bufferDirty
      linkBuffer s (hashSector sector) bh

theorem call_eq
    (devices : Addr → BlockDevice W)
    (fuel : Nat)
    (s : BufferState W)
    (dev : Option Addr)
    (sector : U64)
    (size : U32)
    (kind : BufferLookup) :
    kind.call devices fuel s dev sector size =
      lookupBuffer devices (kind.wanted sector)
        (fun s bh => kind.use devices dev sector size s bh) fuel s
        dev sector := by
  cases kind with
  | bread => rfl
  | getblk => rfl

end BufferLookup

inductive BufferUse where
  | lookup
      (kind : BufferLookup)
      (dev : Option Addr)
      (sector : U64)
      (size : U32)
  | brelse (hold : BufferHold)
  | bwrite (bh : Option BufferPtr)
  | syncDev (dev : Option Addr)
  | modify (hold : BufferHold) (bytes : SectorData) (dirty : Bool)

namespace BufferSession

variable {V : Type}

/- The search for a buffer of this sector. -/
def search
    (s : BufferSession V)
    (kind : BufferLookup)
    (sector : U64)
    (fuel : Nat) :
    Option (Option BufferPtr) :=
  findBuffer (kind.wanted sector) s.toBufferState fuel
    (s.hashtable (hashSector sector))

/- The data of a dirty buffer count as written. -/
def latestFor
    (s : BufferSession V)
    (dev : Addr)
    (bh : BufferPtr)
    (t : BufferState (LoggedWorld V)) :
    Addr → U64 → Option SectorData :=
  if (t.cache bh).Dirty then
    Function.update s.latest dev
      (Function.update (s.latest dev) (t.cache bh).sector
        ((t.cache bh).data.map (sectorAt t.world.memory)))
  else
    s.latest

/- The buffer was found, or set up anew. -/
def answered
    (s : BufferSession V)
    (found : Option BufferPtr)
    (dev : Option Addr)
    (sector : U64)
    (answer : Option BufferPtr × BufferState (LoggedWorld V)) :
    BufferSession V :=
  match dev, answer.1 with
  | some p, some bh =>
      { toBufferState := answer.2
        holds := ⟨bh, p, sector⟩ :: s.holds
        owners :=
          Function.update s.owners bh
            (p :: if found = none then [] else s.owners bh)
        latest :=
          if found = none then s.latestFor p bh answer.2
          else s.latest }
  | _, _ => { s with toBufferState := answer.2 }

/- The holder stores into the data, and may mark it dirty. -/
def modified
    (s : BufferSession V)
    (hold : BufferHold)
    (data : Addr)
    (bytes : SectorData)
    (dirty : Bool) :
    BufferSession V :=
  let t :=
    s.toBufferState.modifyHead hold.bh fun b =>
      { b with
        flags := if dirty then b.flags ||| bufferDirty else b.flags }
  { s with
    toBufferState :=
      { t with
        world :=
          { t.world with
            memory := storeSector s.world.memory data bytes } }
    latest :=
      Function.update s.latest hold.dev
        (Function.update (s.latest hold.dev) hold.sector
          (some bytes)) }

end BufferSession

section Steps

variable {V : Type}
variable (devices : Addr → FlushDevice (DiskWorld V))

/- The drivers as the cache calls them. -/
def cacheDevices : Addr → BlockDevice (LoggedWorld V) :=
  blockDevices (loggedDevices devices)

def sessionStep
    (s : BufferSession V)
    (call : BufferUse)
    (s' : BufferSession V) : Prop :=
  match call with
  | .lookup kind dev sector size =>
      ∃ fuel answer,
        kind.call (cacheDevices devices) fuel s.toBufferState dev
            sector size = some answer ∧
          s' = s.answered ((s.search kind sector fuel).getD none)
            dev sector answer
  | .brelse hold =>
      hold ∈ s.holds ∧
        s' =
          { s with
            toBufferState := brelse s.toBufferState (some hold.bh)
            holds := s.holds.erase hold }
  | .bwrite bh =>
      s' = { s with
        toBufferState := (bwrite s.toBufferState bh).2 }
  | .syncDev dev =>
      s' =
        { s with
          toBufferState :=
            syncDev (loggedDevices devices) s.toBufferState dev }
  | .modify hold bytes dirty =>
      hold ∈ s.holds ∧
        ∃ data, (s.cache hold.bh).data = some data ∧
          s' = s.modified hold data bytes dirty

/- After `buffer_cache_init` no buffer was given out. -/
def BufferSession.Started (s : BufferSession V) : Prop :=
  s.toBufferState.Started ∧ s.holds = [] ∧
    (∀ bh, s.owners bh = []) ∧
    (∀ dev sector, s.latest dev sector = none) ∧
    s.world.writes = []

end Steps

--------------------
-- What A Lookup Does
--------------------

section Lookups

variable {V : Type}
variable {devices : Addr → FlushDevice (DiskWorld V)}
variable {s s' : BufferSession V}
variable {kind : BufferLookup}
variable {dev : Option Addr}
variable {sector : U64}
variable {size : U32}

theorem ensureData_world
    (s : BufferState W)
    (bh : BufferPtr) :
    (ensureData s bh).world = s.world := by
  unfold ensureData
  split
  · rfl
  · rfl

theorem setupBuffer_world
    (devices : Addr → BlockDevice W)
    (s : BufferState W)
    (dev : Option Addr)
    (bh : BufferPtr)
    (sector : U64)
    (size flags : U32) :
    (setupBuffer devices s dev bh sector size flags).world =
      (writeBack devices s dev bh).world := by
  exact ensureData_world _ bh

theorem use_spec
    (devices : Addr → BlockDevice W)
    (kind : BufferLookup)
    (s : BufferState W)
    (dev : Option Addr)
    (bh : BufferPtr)
    (sector : U64)
    (size : U32) :
    UseSpec s bh sector
      (kind.use devices dev sector size s bh) := by
  cases kind with
  | bread => exact (bread_use devices s dev bh sector size).count
  | getblk => exact getblk_use devices s dev bh sector size

/- The answer of a search does not depend on the turns. -/
theorem findBuffer_unique
    {t : BufferState W}
    {wanted : BufferHead → Bool}
    {n m : Nat}
    {head answer answer' : Option BufferPtr}
    (hFirst : findBuffer wanted t n head = some answer)
    (hSecond : findBuffer wanted t m head = some answer') :
    answer = answer' := by
  induction n generalizing m head with
  | zero => simp [findBuffer] at hFirst
  | succ n ih =>
      cases m with
      | zero => simp [findBuffer] at hSecond
      | succ m =>
          cases head with
          | none =>
              simp only [findBuffer, Option.some.injEq]
                at hFirst hSecond
              rw [← hFirst, ← hSecond]
          | some bh =>
              simp only [findBuffer] at hFirst hSecond
              split at hFirst
              next hWanted =>
                rw [if_pos hWanted] at hSecond
                rw [hSecond] at hFirst
                injection hFirst with hSame
                exact hSame.symm
              next hWanted =>
                rw [if_neg hWanted] at hSecond
                exact ih hFirst hSecond

namespace BufferSession

/- A buffer that is found is held once more. -/
def hit
    (s : BufferSession V)
    (bh : BufferPtr)
    (p : Addr)
    (sector : U64) :
    BufferSession V :=
  { s with
    toBufferState :=
      s.toBufferState.modifyHead bh fun b =>
        { b with refCount := b.refCount + 1#32 }
    holds := ⟨bh, p, sector⟩ :: s.holds
    owners := Function.update s.owners bh (p :: s.owners bh) }

/- A free buffer is set up. -/
def reused
    (s : BufferSession V)
    (bh : BufferPtr)
    (p : Addr)
    (sector : U64)
    (t : BufferState (LoggedWorld V)) :
    BufferSession V where
  toBufferState := t
  holds := ⟨bh, p, sector⟩ :: s.holds
  owners := Function.update s.owners bh [p]
  latest := s.latestFor p bh t

/- The search ends without a buffer. -/
def Misses
    (s : BufferSession V)
    (kind : BufferLookup)
    (sector : U64) : Prop :=
  ∃ fuel, s.search kind sector fuel = some none

/- The search ends at this buffer. -/
def Finds
    (s : BufferSession V)
    (kind : BufferLookup)
    (sector : U64)
    (bh : BufferPtr) : Prop :=
  ∃ fuel, s.search kind sector fuel = some (some bh)

theorem Finds.not_misses
    {bh : BufferPtr}
    (hFinds : s.Finds kind sector bh) :
    ¬ s.Misses kind sector := by
  rintro ⟨_, hNone⟩
  rcases hFinds with ⟨_, hSome⟩
  cases findBuffer_unique hSome hNone

end BufferSession

theorem lookup_cases
    (hStep :
      sessionStep devices s (.lookup kind dev sector size) s') :
    (¬ Attached (cacheDevices devices) dev ∧ s' = s) ∨
    ∃ p, dev = some p ∧ Attached (cacheDevices devices) dev ∧
      ((∃ bh, s.Finds kind sector bh ∧ s' = s.hit bh p sector) ∨
        (s.Misses kind sector ∧
          freeBuffer s.toBufferState = none ∧ s' = s) ∨
        ∃ bh, s.Misses kind sector ∧
          freeBuffer s.toBufferState = some bh ∧
          s' = s.reused bh p sector
            (kind.use (cacheDevices devices) dev sector size
              s.toBufferState bh)) := by
  rcases hStep with ⟨fuel, ⟨answer, t⟩, hCall, rfl⟩
  rw [BufferLookup.call_eq] at hCall
  rcases lookupBuffer_split hCall with
    ⟨hNot, rfl, rfl⟩ | ⟨hDev, found, hFound, hRest⟩
  · left
    refine ⟨hNot, ?_⟩
    cases dev with
    | none => rfl
    | some p => rfl
  · right
    rcases hDev with ⟨p, rfl, hData⟩
    refine ⟨p, rfl, ⟨p, rfl, hData⟩, ?_⟩
    have hSearch : s.search kind sector fuel = some found := hFound
    rw [hSearch, Option.getD_some]
    rcases hRest with
      ⟨bh, rfl, rfl, rfl⟩ | ⟨rfl, hFree, rfl, rfl⟩ |
        ⟨bh, rfl, hFree, rfl, rfl⟩
    · exact .inl ⟨bh, ⟨fuel, hSearch⟩, rfl⟩
    · exact .inr (.inl ⟨⟨fuel, hSearch⟩, hFree, rfl⟩)
    · exact .inr (.inr ⟨bh, ⟨fuel, hSearch⟩, hFree, rfl⟩)

end Lookups

end FeatherOS
