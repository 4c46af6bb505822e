import FeatherOS.Fifo.Model
import FeatherOS.Hash.Strings
import FeatherOS.Library.ByteMemory
import FeatherOS.Library.Run
import Mathlib.Logic.Function.Basic

/-
  The RAM disks of `kernel/fs/ramdisk.c`.

  The records of the disks are kept in a map from their
  addresses and their data in a byte memory. `kfree` gives
  nothing back. The lock, `major` and `registered` are left
  out.

  Key definitions include:
    * `Ramdisk`
    * `RamdiskState`
    * `ramdiskCreate`
    * `ramdiskDelete`
    * `ramdiskGet`
    * `ramdiskRead`
    * `ramdiskWrite`
-/

namespace FeatherOS

--------------------
-- Disks
--------------------

/- RAMDISK_MAX_DEVICES -/
def ramdiskMaxDevices : Nat := 8

/- RAMDISK_BLOCK_SIZE -/
def ramdiskBlockSize : U32 := 512#32

/- sizeof(ramdisk_t) -/
def sizeofRamdisk : U64 := 64#64

/- ramdisk_t; its data ends in the address space. -/
structure Ramdisk where
  name : CString
  data : Addr
  size : U32
  blockCount : U32
  minor : Int
  fits : data.toNat + size.toNat ≤ 2 ^ 64

/- The counters of ramdisk_stats_t for RAM disks. -/
structure RamdiskStats where
  ramdiskReads : U64
  ramdiskWrites : U64
  ramdiskReadBytes : U64
  ramdiskWriteBytes : U64

/- The globals, the records, the data and the heap. -/
structure RamdiskState where
  ramdisks : Nat → Option Addr
  ramdiskCount : Int
  disks : Addr → Ramdisk
  memory : ByteMemory
  heap : Heap
  stats : RamdiskStats

--------------------
-- Registry
--------------------

/- What `strncpy` with the bound `n` leaves, if a NUL follows. -/
def CString.take
    (s : CString)
    (n : Nat) :
    CString where
  bytes := s.bytes.take n
  no_nul h := s.no_nul (List.mem_of_mem_take h)

/- A block of the kernel heap ends in the address space. -/
theorem kmalloc_fits
    {h h' : Heap}
    {size : U32}
    {data : Addr}
    (hCall : kmalloc h (size.setWidth 64) = (some data, h')) :
    data.toNat + size.toNat ≤ 2 ^ 64 := by
  rcases kmalloc_some hCall with ⟨rfl, _, _, _⟩
  have hPtr := h.heapPtr_le
  have hBound : heapStart + heapSize < 2 ^ 32 := by decide
  have hSize := size.isLt
  omega

/-
  `kfree` of the record gives nothing back when there is no
  memory for the data.
-/
def ramdiskCreate
    (s : RamdiskState)
    (name : Option CString)
    (size : U32) :
    Option Addr × RamdiskState :=
  match name with
  | none => (none, s)
  | some name =>
      if ramdiskMaxDevices ≤ s.ramdiskCount then
        (none, s)
      else
        match kmalloc s.heap sizeofRamdisk with
        | (none, heap) => (none, { s with heap := heap })
        | (some dev, heap) =>
            match hData : kmalloc heap (size.setWidth 64) with
            | (none, heap) => (none, { s with heap := heap })
            | (some data, heap) =>
                let disk : Ramdisk :=
                  { name := name.take 31
                    data := data
                    size := size
                    blockCount := size / ramdiskBlockSize
                    minor := s.ramdiskCount
                    fits := kmalloc_fits hData }
                (some dev,
                  { s with
                    ramdisks :=
                      Function.update s.ramdisks
                        s.ramdiskCount.toNat (some dev)
                    ramdiskCount := s.ramdiskCount + 1
                    disks := Function.update s.disks dev disk
                    memory :=
                      s.memory.patch data size.toNat fun _ => 0#8
                    heap := heap })

/- The first slot that points to `dev`. -/
def slotOf
    (s : RamdiskState)
    (dev : Addr) :
    Option Nat :=
  (List.range ramdiskMaxDevices).find? fun i =>
    s.ramdisks i = some dev

def ramdiskDelete
    (s : RamdiskState)
    (dev : Option Addr) :
    Int × RamdiskState :=
  match dev with
  | none => (-1, s)
  | some dev =>
      match slotOf s dev with
      | none => (0, s)
      | some i =>
          (0,
            { s with
              ramdisks := Function.update s.ramdisks i none
              ramdiskCount := s.ramdiskCount - 1 })

/- The slot holds a disk of that name. -/
def SlotNamed
    (s : RamdiskState)
    (name : CString)
    (i : Nat) : Bool :=
  match s.ramdisks i with
  | none => false
  | some dev =>
      strcmp (s.disks dev).name.bytes name.bytes = 0

def ramdiskGet
    (s : RamdiskState)
    (name : Option CString) :
    Option Addr :=
  match name with
  | none => none
  | some name =>
      match (List.range ramdiskMaxDevices).find?
          (SlotNamed s name) with
      | none => none
      | some i => s.ramdisks i

--------------------
-- Transfers
--------------------

/- The return value, the caller's buffer and the state. -/
@[ext] structure RamdiskAnswer where
  ret : Int
  buffer : Bytes
  state : RamdiskState

/- `memcpy` to a caller's buffer. -/
def copyOut
    (m : ByteMemory)
    (src : Addr)
    (n : Nat)
    (buffer : Bytes) :
    Bytes :=
  fun i => if i < n then m (src + BitVec.ofNat 64 i) else buffer i

/- All products and the sum are 32-bit. -/
def ramdiskRead
    (s : RamdiskState)
    (dev : Option Addr)
    (sector count : U32)
    (buffer : Option Bytes) :
    RamdiskAnswer :=
  match dev, buffer with
  | some dev, some buffer =>
      let disk := s.disks dev
      let offset := sector * ramdiskBlockSize
      if disk.size < offset + count * ramdiskBlockSize then
        ⟨-1, buffer, s⟩
      else
        let bytes := count * ramdiskBlockSize
        ⟨0,
          copyOut s.memory (disk.data + offset.setWidth 64)
            bytes.toNat buffer,
          { s with
            stats :=
              { s.stats with
                ramdiskReads := s.stats.ramdiskReads + 1#64
                ramdiskReadBytes :=
                  s.stats.ramdiskReadBytes + bytes.setWidth 64 } }⟩
  | _, buffer => ⟨-1, buffer.getD fun _ => 0#8, s⟩

def ramdiskWrite
    (s : RamdiskState)
    (dev : Option Addr)
    (sector count : U32)
    (buffer : Option Bytes) :
    RamdiskAnswer :=
  match dev, buffer with
  | some dev, some buffer =>
      let disk := s.disks dev
      let offset := sector * ramdiskBlockSize
      if disk.size < offset + count * ramdiskBlockSize then
        ⟨-1, buffer, s⟩
      else
        let bytes := count * ramdiskBlockSize
        ⟨0, buffer,
          { s with
            memory :=
              s.memory.patch (disk.data + offset.setWidth 64)
                bytes.toNat buffer
            stats :=
              { s.stats with
                ramdiskWrites := s.stats.ramdiskWrites + 1#64
                ramdiskWriteBytes :=
                  s.stats.ramdiskWriteBytes +
                    bytes.setWidth 64 } }⟩
  | _, buffer => ⟨-1, buffer.getD fun _ => 0#8, s⟩

end FeatherOS
