import FeatherOS.Kmalloc
import Mathlib.Data.List.FinRange
import Mathlib.Logic.Function.Basic

/-
  The buffer cache of `kernel/drivers/ata.c`.

  The 32 buffer heads are kept in a map from their numbers.
  A device driver works on a world of its own, which holds
  disks and memory. The loop of a lookup gets a number of
  turns and gives `none` when they are used up. `ref_count`
  is an integer.

  Key definitions include:
    * `BufferState`
    * `bread`
    * `getblk`
    * `brelse`
    * `bufferCall`
    * `blockFlush`
-/

namespace FeatherOS

--------------------
-- Devices
--------------------

/- block_device_t; `ops.read` and `ops.write` may be NULL. -/
structure BlockDevice (W : Type) where
  privateData : Option Addr
  read : Option (U64 → U32 → Option Addr → W → Int × W)
  write : Option (U64 → U32 → Option Addr → W → Int × W)

section Devices

variable {W : Type}
variable (devices : Addr → BlockDevice W)

def blockRead
    (dev : Option Addr)
    (lba : U64)
    (count : U32)
    (buffer : Option Addr)
    (world : W) :
    Int × W :=
  match dev with
  | none => (-1, world)
  | some dev =>
      match (devices dev).read with
      | none => (-1, world)
      | some read => read lba count buffer world

def blockWrite
    (dev : Option Addr)
    (lba : U64)
    (count : U32)
    (buffer : Option Addr)
    (world : W) :
    Int × W :=
  match dev with
  | none => (-1, world)
  | some dev =>
      match (devices dev).write with
      | none => (-1, world)
      | some write => write lba count buffer world

/- `dev && dev->private_data` -/
def Attached (dev : Option Addr) : Prop :=
  ∃ p, dev = some p ∧ (devices p).privateData ≠ none

end Devices

--------------------
-- State
--------------------

/- BUFFER_DIRTY -/
def bufferDirty : U32 := 0x01#32

/- BUFFER_VALID -/
def bufferValid : U32 := 0x04#32

/- BUFFER_CACHE_SIZE -/
def bufferCacheSize : Nat := 32

/- A pointer into `buffer_cache`. -/
abbrev BufferPtr := Fin bufferCacheSize

/- buffer_head_t -/
structure BufferHead where
  next : Option BufferPtr
  sector : U64
  size : U32
  flags : U32
  data : Option Addr
  refCount : U32

/- The globals and what the drivers work on. -/
structure BufferState (W : Type) where
  cache : BufferPtr → BufferHead
  hashtable : U32 → Option BufferPtr
  cacheMisses : U64
  heap : Heap
  world : W

namespace BufferState

variable {W : Type}

def modifyHead
    (s : BufferState W)
    (bh : BufferPtr)
    (f : BufferHead → BufferHead) :
    BufferState W :=
  { s with cache := Function.update s.cache bh (f (s.cache bh)) }

end BufferState

def bufferCacheInit
    {W : Type}
    (s : BufferState W) :
    BufferState W :=
  { s with
    cache := fun i =>
      { s.cache i with data := none, flags := 0#32, refCount := 0#32 }
    hashtable := fun _ => none }

--------------------
-- Looking Up
--------------------

def hashSector (sector : U64) : U32 :=
  (sector &&& 0x3F#64).setWidth 32

/- The buffers `bread` and `getblk` look for. -/
def BufferHead.Holds
    (sector : U64)
    (b : BufferHead) : Prop :=
  b.sector = sector ∧ b.flags &&& bufferValid ≠ 0#32

def BufferHead.Names
    (sector : U64)
    (b : BufferHead) : Prop :=
  b.sector = sector

instance
    (sector : U64)
    (b : BufferHead) :
    Decidable (b.Holds sector) :=
  inferInstanceAs (Decidable (_ ∧ _))

instance
    (sector : U64)
    (b : BufferHead) :
    Decidable (b.Names sector) :=
  inferInstanceAs (Decidable (_ = _))

section Calls

variable {W : Type}
variable (devices : Addr → BlockDevice W)

/- The loop along a chain, to the first wanted buffer. -/
def findBuffer
    (wanted : BufferHead → Bool)
    (s : BufferState W) :
    Nat → Option BufferPtr → Option (Option BufferPtr)
  | 0, _ => none
  | _ + 1, none => some none
  | fuel + 1, some bh =>
      if wanted (s.cache bh) then
        some (some bh)
      else
        findBuffer wanted s fuel (s.cache bh).next

/- The first buffer that no one holds. -/
def freeBuffer (s : BufferState W) : Option BufferPtr :=
  (List.finRange bufferCacheSize).find? fun i =>
    (s.cache i).refCount = 0#32

--------------------
-- Using A Free Buffer
--------------------

/- A dirty buffer is written to the device of the call. -/
def writeBack
    (s : BufferState W)
    (dev : Option Addr)
    (bh : BufferPtr) :
    BufferState W :=
  if (s.cache bh).flags &&& bufferDirty ≠ 0#32 then
    { s with
      world :=
        (blockWrite devices dev (s.cache bh).sector 1#32
          (s.cache bh).data s.world).2 }
  else
    s

/- The data buffer is allocated once. -/
def ensureData
    (s : BufferState W)
    (bh : BufferPtr) :
    BufferState W :=
  match (s.cache bh).data with
  | some _ => s
  | none =>
      match kmalloc s.heap 512#64 with
      | (data, heap) =>
          { s with heap := heap }.modifyHead bh fun b =>
            { b with data := data }

/- What both functions do with a free buffer. -/
def setupBuffer
    (s : BufferState W)
    (dev : Option Addr)
    (bh : BufferPtr)
    (sector : U64)
    (size flags : U32) :
    BufferState W :=
  let s := writeBack devices s dev bh
  let s := s.modifyHead bh fun b =>
    { b with
      sector := sector, size := size, flags := flags,
      refCount := 1#32 }
  ensureData s bh

/- `bh` comes first in a chain. -/
def linkBuffer
    (s : BufferState W)
    (hash : U32)
    (bh : BufferPtr) :
    BufferState W :=
  let s := s.modifyHead bh fun b =>
    { b with next := s.hashtable hash }
  { s with
    hashtable := Function.update s.hashtable hash (some bh) }

/- The read from the disk; its answer is not looked at. -/
def fillBuffer
    (s : BufferState W)
    (dev : Option Addr)
    (bh : BufferPtr)
    (sector : U64) :
    BufferState W :=
  let s :=
    { s with
      world :=
        (blockRead devices dev sector 1#32 (s.cache bh).data
          s.world).2 }
  s.modifyHead bh fun b =>
    { b with flags := b.flags ||| bufferValid }

/-
  The part `bread` and `getblk` share: a buffer that is found
  is held once more, or else a free one is used.
-/
def lookupBuffer
    (wanted : BufferHead → Bool)
    (use : BufferState W → BufferPtr → BufferState W)
    (fuel : Nat)
    (s : BufferState W)
    (dev : Option Addr)
    (sector : U64) :
    Option (Option BufferPtr × BufferState W) :=
  match dev with
  | none => some (none, s)
  | some p =>
      if (devices p).privateData = none then
        some (none, s)
      else do
        let found ←
          findBuffer wanted s fuel (s.hashtable (hashSector sector))
        match found with
        | some bh =>
            some
              (some bh,
                s.modifyHead bh fun b =>
                  { b with refCount := b.refCount + 1#32 })
        | none =>
            match freeBuffer s with
            | none => some (none, s)
            | some bh => some (some bh, use s bh)

def bread
    (fuel : Nat)
    (s : BufferState W)
    (dev : Option Addr)
    (sector : U64)
    (size : U32) :
    Option (Option BufferPtr × BufferState W) :=
  lookupBuffer devices (fun b => b.Holds sector)
    (fun s bh =>
      let s := setupBuffer devices s dev bh sector size 0#32
      let s := fillBuffer devices s dev bh sector
      let s := linkBuffer s (hashSector sector) bh
      { s with cacheMisses := s.cacheMisses + 1#64 })
    fuel s dev sector

def getblk
    (fuel : Nat)
    (s : BufferState W)
    (dev : Option Addr)
    (sector : U64)
    (size : U32) :
    Option (Option BufferPtr × BufferState W) :=
  lookupBuffer devices (fun b => b.Names sector)
    (fun s bh =>
      let s :=
        setupBuffer devices s dev bh sector size bufferDirty
      linkBuffer s (hashSector sector) bh)
    fuel s dev sector

def brelse
    (s : BufferState W)
    (bh : Option BufferPtr) :
    BufferState W :=
  match bh with
  | none => s
  | some bh =>
      s.modifyHead bh fun b =>
        { b with refCount := b.refCount - 1#32 }

--------------------
-- Calls
--------------------

inductive BufferCall where
  | bread (dev : Option Addr) (sector : U64) (size : U32)
  | getblk (dev : Option Addr) (sector : U64) (size : U32)
  | brelse (bh : Option BufferPtr)

def bufferCall
    (fuel : Nat)
    (s : BufferState W) :
    BufferCall → Option (BufferState W)
  | .bread dev sector size =>
      (bread devices fuel s dev sector size).map Prod.snd
  | .getblk dev sector size =>
      (getblk devices fuel s dev sector size).map Prod.snd
  | .brelse bh => some (brelse s bh)

/- The call returns; only buffers that are held are released. -/
def bufferStep
    (s : BufferState W)
    (call : BufferCall)
    (s' : BufferState W) : Prop :=
  (∀ bh, call = .brelse (some bh) →
      (s.cache bh).refCount ≠ 0#32) ∧
    ∃ fuel, bufferCall devices fuel s call = some s'

end Calls

--------------------
-- Devices That Are Flushed
--------------------

section Flush

/- block_device_t with its `ops.flush`. -/
structure FlushDevice (W : Type) extends BlockDevice W where
  flush : Option (W → Int × W)

variable {W : Type}
variable (devices : Addr → FlushDevice W)

/- The operations `bread` and `getblk` use. -/
def blockDevices (p : Addr) : BlockDevice W :=
  (devices p).toBlockDevice

def blockFlush
    (dev : Option Addr)
    (world : W) :
    Int × W :=
  match dev with
  | none => (-1, world)
  | some dev =>
      match (devices dev).flush with
      | none => (-1, world)
      | some flush => flush world

end Flush

end FeatherOS
