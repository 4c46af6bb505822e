import FeatherOS.Buffer.Model

/-
  The ATA driver of `kernel/drivers/ata.c`.

  A channel has the task-file registers that its two drives
  share. A drive executes a read or write command with the
  registers as they are, and then moves one sector after the
  other; it does so when the last status that was read shows
  DRQ. What the status register answers is a parameter.

  Key definitions include:
    * `AtaState`
    * `ataRead`
    * `ataWrite`
    * `ataBlockDevice`
-/

namespace FeatherOS

--------------------
-- Drives
--------------------

/- The registers, as offsets from the base of a channel. -/
def ataRegData : U16 := 0x00#16
def ataRegSeccount : U16 := 0x02#16
def ataRegLbaLo : U16 := 0x03#16
def ataRegLbaMid : U16 := 0x04#16
def ataRegLbaHi : U16 := 0x05#16
def ataRegDrive : U16 := 0x06#16
def ataRegStatus : U16 := 0x07#16
def ataRegCommand : U16 := 0x07#16

/- The bits of the status register. -/
def ataStatusErr : U8 := 0x01#8
def ataStatusDrq : U8 := 0x08#8
def ataStatusDrdy : U8 := 0x40#8
def ataStatusBsy : U8 := 0x80#8

def ataCmdReadPio : U8 := 0x20#8
def ataCmdWritePio : U8 := 0x30#8

/- A sector of the master or the slave of a channel. -/
structure AtaSector where
  base : U16
  slave : Bool
  lba : Nat
deriving DecidableEq

/- A sector that was moved from or to the buffer. -/
structure AtaTransfer where
  sector : AtaSector
  write : Bool
  buffer : Addr
deriving DecidableEq

/-
  The registers, the sectors of the command that are still to
  be moved, the status reads since the last of them, and
  whether the last status read showed DRQ.
-/
structure AtaChannel where
  seccount : U8
  lbaLo : U8
  lbaMid : U8
  lbaHi : U8
  drive : U8
  pending : List AtaSector
  write : Bool
  polls : Nat
  ready : Bool

/- The 28-bit sector number in the registers. -/
def AtaChannel.lba (c : AtaChannel) : Nat :=
  c.lbaLo.toNat + c.lbaMid.toNat * 2 ^ 8 +
    c.lbaHi.toNat * 2 ^ 16 + (c.drive &&& 0x0F#8).toNat * 2 ^ 24

/- A count of 0 asks for 256 sectors. -/
def AtaChannel.sectors (c : AtaChannel) : Nat :=
  if c.seccount = 0#8 then 256 else c.seccount.toNat

/- A read or write command of the drive that is selected. -/
def AtaChannel.start
    (c : AtaChannel)
    (base : U16)
    (write : Bool) :
    AtaChannel :=
  { c with
    pending :=
      (List.range c.sectors).map fun k =>
        ⟨base, c.drive &&& 0x10#8 ≠ 0#8, c.lba + k⟩
    write := write
    polls := 0
    ready := false }

def AtaChannel.execute
    (c : AtaChannel)
    (base : U16)
    (command : U8) :
    AtaChannel :=
  if command = ataCmdReadPio then
    c.start base false
  else if command = ataCmdWritePio then
    c.start base true
  else
    c

/- A write to one of the registers. -/
def AtaChannel.store
    (c : AtaChannel)
    (base reg : U16)
    (value : U8) :
    AtaChannel :=
  if reg = ataRegSeccount then { c with seccount := value }
  else if reg = ataRegLbaLo then { c with lbaLo := value }
  else if reg = ataRegLbaMid then { c with lbaMid := value }
  else if reg = ataRegLbaHi then { c with lbaHi := value }
  else if reg = ataRegDrive then { c with drive := value }
  else if reg = ataRegCommand then c.execute base value
  else c

--------------------
-- Ports
--------------------

/- The counters of ata_stats_t for PIO transfers. -/
structure AtaStats where
  reads : U64
  writes : U64
  readBytes : U64
  writeBytes : U64

/- The channels by their bases, and what was moved. -/
structure AtaState where
  channels : U16 → AtaChannel
  transfers : List AtaTransfer
  stats : AtaStats

/- A port is a base, a multiple of 8, and a register. -/
def portBase (port : U16) : U16 :=
  port &&& 0xFFF8#16

def portReg (port : U16) : U16 :=
  port &&& 0x0007#16

def AtaState.setChannel
    (s : AtaState)
    (base : U16)
    (c : AtaChannel) :
    AtaState :=
  { s with channels := Function.update s.channels base c }

def outb
    (s : AtaState)
    (port : U16)
    (value : U8) :
    AtaState :=
  s.setChannel (portBase port)
    ((s.channels (portBase port)).store (portBase port)
      (portReg port) value)

/- `insw` and `outsw` of the 256 words of a sector. -/
def moveWords
    (s : AtaState)
    (write : Bool)
    (port : U16)
    (buffer : Addr) :
    AtaState :=
  let c := s.channels (portBase port)
  match c.pending with
  | [] => s
  | sector :: pending =>
      if c.ready && (c.write == write) then
        { s.setChannel (portBase port)
            { c with pending := pending, polls := 0, ready := false }
          with
          transfers := s.transfers ++ [⟨sector, write, buffer⟩] }
      else
        s

section Driver

variable (status : U16 → AtaChannel → U8)

/- `inb` of the status register. -/
def inbStatus
    (s : AtaState)
    (port : U16) :
    U8 × AtaState :=
  let c := s.channels (portBase port)
  let answer := status (portBase port) c
  (answer,
    s.setChannel (portBase port)
      { c with
        polls := c.polls + 1
        ready := answer &&& ataStatusDrq ≠ 0#8 })

--------------------
-- Waiting
--------------------

/- The result is not looked at where the driver calls it. -/
def ataWaitReady
    (base : U16) :
    Nat → AtaState → AtaState
  | 0, s => s
  | turns + 1, s =>
      match inbStatus status s (base + ataRegStatus) with
      | (answer, s) =>
          if answer &&& ataStatusErr ≠ 0#8 then s
          else if answer &&& ataStatusDrdy ≠ 0#8 then s
          else if answer &&& ataStatusBsy = 0#8 then s
          else ataWaitReady base turns s

def ataWaitNotBusy
    (base : U16) :
    Nat → AtaState → Int × AtaState
  | 0, s => (-1, s)
  | turns + 1, s =>
      match inbStatus status s (base + ataRegStatus) with
      | (answer, s) =>
          if answer &&& ataStatusBsy = 0#8 then (0, s)
          else ataWaitNotBusy base turns s

/- The loop goes on to the data when its turns are used up. -/
def waitDrq
    (base : U16) :
    Nat → AtaState → Int × AtaState
  | 0, s => (0, s)
  | turns + 1, s =>
      match inbStatus status s (base + ataRegStatus) with
      | (answer, s) =>
          if answer &&& ataStatusErr ≠ 0#8 then (-1, s)
          else if answer &&& ataStatusDrq ≠ 0#8 then (0, s)
          else waitDrq base turns s

--------------------
-- Reading And Writing
--------------------

/- The loop over the sectors, from the sector `i` on. -/
def moveSectors
    (write : Bool)
    (base : U16)
    (buffer : Addr) :
    Nat → Nat → AtaState → Int × AtaState
  | 0, _, s => (0, s)
  | count + 1, i, s =>
      match waitDrq status base 10000 s with
      | (ret, s) =>
          if ret ≠ 0 then
            (-1, s)
          else
            moveSectors write base buffer count (i + 1)
              (moveWords s write (base + ataRegData)
                (buffer + BitVec.ofNat 64 (i * 512)))

/- ata_device_t, as far as transfers use it. -/
structure AtaDevice where
  ioBase : U16
  lba : Bool

/- The registers and the command of a transfer. -/
def sendCommand
    (s : AtaState)
    (base : U16)
    (lba : U32)
    (count command : U8) :
    AtaState :=
  let s := outb s (base + ataRegSeccount) count
  let s := outb s (base + ataRegLbaLo)
    ((lba &&& 0xFF#32).setWidth 8)
  let s := outb s (base + ataRegLbaMid)
    (((lba >>> 8) &&& 0xFF#32).setWidth 8)
  let s := outb s (base + ataRegLbaHi)
    (((lba >>> 16) &&& 0xFF#32).setWidth 8)
  outb s (base + ataRegCommand) command

/- What `ata_read` and `ata_write` share, up to the counters. -/
def ataMove
    (write : Bool)
    (s : AtaState)
    (dev : Option AtaDevice)
    (lba : U32)
    (count : U8)
    (buffer : Option Addr) :
    Int × AtaState :=
  match dev, buffer with
  | some dev, some buffer =>
      if count = 0#8 then
        (-1, s)
      else if !dev.lba then
        (-1, s)
      else
        match ataWaitNotBusy status dev.ioBase 100000 s with
        | (ret, s) =>
            if ret ≠ 0 then
              (-1, s)
            else
              let s := outb s (dev.ioBase + ataRegDrive)
                (0xE0#8 ||| ((lba >>> 24) &&& 0x0F#32).setWidth 8)
              let s := ataWaitReady status dev.ioBase 100000 s
              let s := sendCommand s dev.ioBase lba count
                (if write then ataCmdWritePio else ataCmdReadPio)
              moveSectors status write dev.ioBase buffer
                count.toNat 0 s
  | _, _ => (-1, s)

/- The counters after a transfer that returned 0. -/
def countTransfer
    (write : Bool)
    (count : U8)
    (answer : Int × AtaState) :
    Int × AtaState :=
  if answer.1 ≠ 0 then
    answer
  else
    let bytes := count.setWidth 64 * 512#64
    let stats := answer.2.stats
    (0,
      { answer.2 with
        stats :=
          if write then
            { stats with
              writes := stats.writes + 1#64
              writeBytes := stats.writeBytes + bytes }
          else
            { stats with
              reads := stats.reads + 1#64
              readBytes := stats.readBytes + bytes } })

def ataRead
    (s : AtaState)
    (dev : Option AtaDevice)
    (lba : U32)
    (count : U8)
    (buffer : Option Addr) :
    Int × AtaState :=
  countTransfer false count
    (ataMove status false s dev lba count buffer)

def ataWrite
    (s : AtaState)
    (dev : Option AtaDevice)
    (lba : U32)
    (count : U8)
    (buffer : Option Addr) :
    Int × AtaState :=
  countTransfer true count
    (ataMove status true s dev lba count buffer)

--------------------
-- Block Devices
--------------------

/- The sector number is cut to 32 bits, the count to 8. -/
def ataBlockRead
    (ata : Option AtaDevice)
    (lba : U64)
    (count : U32)
    (buffer : Option Addr)
    (s : AtaState) :
    Int × AtaState :=
  ataRead status s ata (lba.setWidth 32) (count.setWidth 8) buffer

def ataBlockWrite
    (ata : Option AtaDevice)
    (lba : U64)
    (count : U32)
    (buffer : Option Addr)
    (s : AtaState) :
    Int × AtaState :=
  ataWrite status s ata (lba.setWidth 32) (count.setWidth 8) buffer

/- ATA_PRIMARY_BASE and ATA_SECONDARY_BASE -/
def ataPrimaryBase : U16 := 0x1F0#16
def ataSecondaryBase : U16 := 0x170#16

/-
  `ata_devices[i]`: the master and the slave of the primary
  channel, then those of the secondary one. Whether a drive
  knows LBA is found out by IDENTIFY.
-/
def ataDevice
    (lba : Fin 4 → Bool)
    (i : Fin 4) :
    AtaDevice where
  ioBase := if i < 2 then ataPrimaryBase else ataSecondaryBase
  lba := lba i

/- The block device that `ata_init` makes of a drive. -/
def ataBlockDevice
    (lba : Fin 4 → Bool)
    (privateData : Addr)
    (i : Fin 4) :
    BlockDevice AtaState where
  privateData := some privateData
  read := some (ataBlockRead status (some (ataDevice lba i)))
  write := some (ataBlockWrite status (some (ataDevice lba i)))

end Driver

end FeatherOS
