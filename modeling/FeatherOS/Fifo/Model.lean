import FeatherOS.Kmalloc
import FeatherOS.Library.CyclicBuffer

/-
  The named pipes of `kernel/fs/ramdisk.c`.

  A call that finds its pipe neither ready nor closed waits
  for other callers; such a call answers `none`. The name,
  the lock and the list of all pipes are left out.

  Key definitions include:
    * `Fifo`
    * `fifoRead`
    * `fifoWrite`
    * `fifoDelete`
-/

namespace FeatherOS

--------------------
-- Pipes
--------------------

/- Bytes behind a pointer. -/
abbrev Bytes := Nat → U8

/- fifo_t -/
structure Fifo where
  buffer : Bytes
  size : U32
  readPos : U32
  writePos : U32
  dataLen : U32
  closed : Bool
  refcount : Int

/- The counters of ramdisk_stats_t for pipes. -/
structure FifoStats where
  fifoCreates : U64
  fifoReads : U64
  fifoWrites : U64

structure FifoState where
  fifo : Fifo
  stats : FifoStats

/-
  The return value, what is stored through the count pointer,
  if anything, the caller's buffer and the state.
-/
structure FifoAnswer where
  ret : Int
  moved : Option U32
  buf : Bytes
  state : FifoState

/- A new pipe of `fifo->size` bytes. -/
def fifoCreate
    (stats : FifoStats)
    (size : U32)
    (buffer : Bytes) :
    FifoState where
  fifo :=
    { buffer := buffer
      size := size
      readPos := 0#32
      writePos := 0#32
      dataLen := 0#32
      closed := false
      refcount := 1 }
  stats := { stats with fifoCreates := stats.fifoCreates + 1#64 }

/- The pipe is gone when its last user deletes it. -/
def fifoDelete (s : FifoState) : Option FifoState :=
  let fifo :=
    { s.fifo with
      closed := true
      refcount := s.fifo.refcount - 1 }
  if fifo.refcount ≤ 0 then none else some { s with fifo := fifo }

/- What `fifo_get` does to the pipe it finds. -/
def fifoGet (s : FifoState) : FifoState :=
  { s with fifo := { s.fifo with refcount := s.fifo.refcount + 1 } }

--------------------
-- Reading
--------------------

open CyclicBuffer (copy)

/- The copies out of the pipe, and the new `read_pos`. -/
def readData
    (fifo : Fifo)
    (buf : Bytes)
    (toRead : U32) :
    Bytes × U32 :=
  let firstPart := fifo.size - fifo.readPos
  if toRead ≤ firstPart then
    (copy buf 0 fifo.buffer fifo.readPos.toNat toRead.toNat,
      (fifo.readPos + toRead) % fifo.size)
  else
    (copy
        (copy buf 0 fifo.buffer fifo.readPos.toNat
          firstPart.toNat)
        firstPart.toNat fifo.buffer 0
        (toRead - firstPart).toNat,
      toRead - firstPart)

def fifoRead
    (s : FifoState)
    (buf : Option Bytes)
    (count : U32) :
    Option FifoAnswer :=
  match buf with
  | none => some ⟨-1, none, fun _ => 0#8, s⟩
  | some buf =>
      if s.fifo.dataLen = 0#32 then
        if s.fifo.closed then
          some ⟨0, some 0#32, buf, s⟩
        else
          none
      else
        let toRead :=
          if count < s.fifo.dataLen then count
          else s.fifo.dataLen
        let data := readData s.fifo buf toRead
        some
          ⟨0, some toRead, data.1,
            { fifo :=
                { s.fifo with
                  readPos := data.2
                  dataLen := s.fifo.dataLen - toRead }
              stats :=
                { s.stats with
                  fifoReads := s.stats.fifoReads + 1#64 } }⟩

--------------------
-- Writing
--------------------

/- The copies into the pipe, and the new `write_pos`. -/
def writeData
    (fifo : Fifo)
    (buf : Bytes)
    (toWrite : U32) :
    Bytes × U32 :=
  let firstPart := fifo.size - fifo.writePos
  if toWrite ≤ firstPart then
    (copy fifo.buffer fifo.writePos.toNat buf 0 toWrite.toNat,
      (fifo.writePos + toWrite) % fifo.size)
  else
    (copy
        (copy fifo.buffer fifo.writePos.toNat buf 0
          firstPart.toNat)
        0 buf firstPart.toNat (toWrite - firstPart).toNat,
      toWrite - firstPart)

def fifoWrite
    (s : FifoState)
    (buf : Option Bytes)
    (count : U32) :
    Option FifoAnswer :=
  match buf with
  | none => some ⟨-1, none, fun _ => 0#8, s⟩
  | some buf =>
      if s.fifo.closed then
        some ⟨-1, none, buf, s⟩
      else if s.fifo.dataLen = s.fifo.size then
        none
      else
        let toWrite :=
          if s.fifo.size - s.fifo.dataLen < count then
            s.fifo.size - s.fifo.dataLen
          else
            count
        let data := writeData s.fifo buf toWrite
        some
          ⟨0, some toWrite, buf,
            { fifo :=
                { s.fifo with
                  buffer := data.1
                  writePos := data.2
                  dataLen := s.fifo.dataLen + toWrite }
              stats :=
                { s.stats with
                  fifoWrites := s.stats.fifoWrites + 1#64 } }⟩

end FeatherOS
