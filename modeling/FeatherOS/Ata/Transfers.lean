import FeatherOS.Ata.Model
import FeatherOS.Library.Words

/-
  What a block read or write of an ATA drive transfers.

  The driver cuts the sector number to 28 bits and the count
  to 8 and always selects the master. Where a drive does not
  show DRQ in 10000 status reads the loop goes on without
  it, and a sector is missing.

  Key definitions include:
    * `sectorTransfers`
    * `DrqInTime`

  Key theorems include:
    * `ataMove_transfers`
    * `blockTransfer_exact_iff`
-/

namespace FeatherOS

--------------------
-- The Property
--------------------

/- The sectors from `lba + i` on, with their places in memory. -/
def sectorTransfers
    (base : U16)
    (slave write : Bool)
    (lba : Nat)
    (buffer : Addr)
    (i n : Nat) :
    List AtaTransfer :=
  (List.range' i n).map fun k =>
    ⟨⟨base, slave, lba + k⟩, write,
      buffer + BitVec.ofNat 64 (k * 512)⟩

/-
  The channel while the sector `i` of a command is awaited
  and the status has been read `j` times.
-/
def awaited
    (base : U16)
    (lba : U32)
    (count : U8)
    (write : Bool)
    (i j : Nat) :
    AtaChannel where
  seccount := count
  lbaLo := (lba &&& 0xFF#32).setWidth 8
  lbaMid := ((lba >>> 8) &&& 0xFF#32).setWidth 8
  lbaHi := ((lba >>> 16) &&& 0xFF#32).setWidth 8
  drive := 0xE0#8 ||| ((lba >>> 24) &&& 0x0F#32).setWidth 8
  pending :=
    (List.range' i (count.toNat - i)).map fun k =>
      ⟨base, false, lba.toNat % 2 ^ 28 + k⟩
  write := write
  polls := j
  ready := false

section Conditions

variable (status : U16 → AtaChannel → U8)

/- One of the status reads for the sector `i` shows DRQ. -/
def DrqShown
    (base : U16)
    (lba : U32)
    (count : U8)
    (write : Bool)
    (i : Nat) : Prop :=
  ∃ j < 10000,
    status base (awaited base lba count write i j) &&&
      ataStatusDrq ≠ 0#8

def DrqInTime
    (base : U16)
    (lba : U32)
    (count : U8)
    (write : Bool) : Prop :=
  ∀ i < count.toNat, DrqShown status base lba count write i

end Conditions

--------------------
-- Registers
--------------------

/- The base of a channel. -/
def IsAtaBase (base : U16) : Prop :=
  base = ataPrimaryBase ∨ base = ataSecondaryBase

theorem ataDevice_base
    (lba : Fin 4 → Bool)
    (i : Fin 4) :
    IsAtaBase (ataDevice lba i).ioBase := by
  unfold ataDevice IsAtaBase
  split
  · exact .inl rfl
  · exact .inr rfl

/- The registers that the driver uses. -/
def ataRegs : List U16 :=
  [ataRegData, ataRegSeccount, ataRegLbaLo, ataRegLbaMid,
    ataRegLbaHi, ataRegDrive, ataRegCommand]

variable {base reg : U16}

theorem port_decode
    (hBase : IsAtaBase base)
    (hReg : reg ∈ ataRegs) :
    portBase (base + reg) = base ∧ portReg (base + reg) = reg := by
  simp only [ataRegs, List.mem_cons, List.not_mem_nil,
    or_false] at hReg
  rcases hBase with rfl | rfl
  · rcases hReg with rfl | rfl | rfl | rfl | rfl | rfl | rfl
    all_goals decide
  · rcases hReg with rfl | rfl | rfl | rfl | rfl | rfl | rfl
    all_goals decide

section Words

variable (lba : U32)

theorem toNat_lbaLo :
    ((lba &&& 0xFF#32).setWidth 8 : U8).toNat =
      lba.toNat % 2 ^ 8 := by
  have hLow := Words.toNat_and_low lba 8 (by decide)
  simp only [BitVec.toNat_setWidth]
  rw [show (0xFF#32 : U32) = BitVec.ofNat 32 (2 ^ 8 - 1) from rfl,
    hLow]
  omega

/- The four bits in the drive register; it selects the master. -/
theorem toNat_lbaTop :
    ((0xE0#8 ||| ((lba >>> 24) &&& 0x0F#32).setWidth 8) &&&
        0x0F#8 : U8).toNat =
      lba.toNat / 2 ^ 24 % 2 ^ 4 ∧
    ((0xE0#8 ||| ((lba >>> 24) &&& 0x0F#32).setWidth 8) &&&
        0x10#8 : U8) = 0#8 := by
  have hLow := Words.toNat_and_low (lba >>> 24) 4 (by decide)
  have hByte : ∀ x : U8, x.toNat < 16 →
      ((0xE0#8 ||| x) &&& 0x0F#8).toNat = x.toNat ∧
        (0xE0#8 ||| x) &&& 0x10#8 = 0#8 := by
    decide
  have hTop :
      (((lba >>> 24) &&& 0x0F#32).setWidth 8 : U8).toNat =
        lba.toNat / 2 ^ 24 % 2 ^ 4 := by
    rw [BitVec.toNat_setWidth,
      show (0x0F#32 : U32) = BitVec.ofNat 32 (2 ^ 4 - 1) from rfl,
      hLow, BitVec.toNat_ushiftRight, Nat.shiftRight_eq_div_pow]
    omega
  rw [← hTop]
  apply hByte
  rw [hTop]
  omega

/- The registers hold the low 28 bits. -/
theorem awaited_lba
    (base : U16)
    (count : U8)
    (write : Bool)
    (i j : Nat) :
    (awaited base lba count write i j).lba =
      lba.toNat % 2 ^ 28 := by
  have hMid := toNat_lbaLo (lba >>> 8)
  have hHi := toNat_lbaLo (lba >>> 16)
  rw [BitVec.toNat_ushiftRight, Nat.shiftRight_eq_div_pow]
    at hMid hHi
  simp only [AtaChannel.lba, awaited, toNat_lbaLo, hMid, hHi,
    (toNat_lbaTop lba).1]
  omega

end Words

--------------------
-- Ports
--------------------

variable {count : U8}
variable {write : Bool}

section Ports

variable {status : U16 → AtaChannel → U8}
variable {base : U16}

namespace AtaState

@[simp] theorem channels_setChannel
    (s : AtaState)
    (base : U16)
    (c : AtaChannel) :
    (s.setChannel base c).channels base = c := by
  simp [setChannel]

@[simp] theorem transfers_setChannel
    (s : AtaState)
    (base : U16)
    (c : AtaChannel) :
    (s.setChannel base c).transfers = s.transfers := rfl

end AtaState

theorem outb_reg
    (hBase : IsAtaBase base)
    (hReg : reg ∈ ataRegs)
    (s : AtaState)
    (value : U8) :
    outb s (base + reg) value =
      s.setChannel base
        ((s.channels base).store base reg value) := by
  rcases port_decode hBase hReg with ⟨hPort, hOffset⟩
  simp only [outb, hPort, hOffset]

/- A status read is counted, and DRQ is remembered. -/
theorem inbStatus_reg
    (hBase : IsAtaBase base)
    (s : AtaState) :
    inbStatus status s (base + ataRegStatus) =
      (status base (s.channels base),
        s.setChannel base
          { s.channels base with
            polls := (s.channels base).polls + 1
            ready :=
              status base (s.channels base) &&& ataStatusDrq ≠
                0#8 }) := by
  have hReg : ataRegStatus ∈ ataRegs := by decide
  simp only [inbStatus, (port_decode hBase hReg).1]

theorem moveWords_reg
    (hBase : IsAtaBase base)
    (s : AtaState)
    (write : Bool)
    (buffer : Addr) :
    (moveWords s write (base + ataRegData) buffer).transfers =
        s.transfers ++
          match (s.channels base).pending with
          | [] => []
          | sector :: _ =>
              if (s.channels base).ready &&
                  ((s.channels base).write == write) then
                [⟨sector, write, buffer⟩]
              else
                [] := by
  have hReg : ataRegData ∈ ataRegs := by decide
  simp only [moveWords, (port_decode hBase hReg).1]
  cases (s.channels base).pending with
  | nil => simp
  | cons sector pending =>
      simp only
      split
      · rfl
      · simp

/- Waiting before a command changes no register. -/
structure Waited
    (base : U16)
    (s s' : AtaState) : Prop where
  drive : (s'.channels base).drive = (s.channels base).drive
  transfers : s'.transfers = s.transfers

theorem Waited.step
    {s s' : AtaState}
    {polls : Nat}
    {ready : Bool}
    (hRest :
      Waited base
        (s.setChannel base
          { s.channels base with polls := polls, ready := ready })
        s') :
    Waited base s s' := by
  constructor
  · rw [hRest.drive]
    simp
  · rw [hRest.transfers]
    rfl

variable (status) in
theorem ataWaitReady_waited
    (hBase : IsAtaBase base)
    (turns : Nat)
    (s : AtaState) :
    Waited base s (ataWaitReady status base turns s) := by
  induction turns generalizing s with
  | zero => exact ⟨rfl, rfl⟩
  | succ turns ih =>
      simp only [ataWaitReady, inbStatus_reg hBase]
      apply Waited.step
      split
      · exact ⟨rfl, rfl⟩
      · split
        · exact ⟨rfl, rfl⟩
        · split
          · exact ⟨rfl, rfl⟩
          · exact ih _

variable (status) in
theorem ataWaitNotBusy_waited
    (hBase : IsAtaBase base)
    (turns : Nat)
    (s : AtaState) :
    Waited base s (ataWaitNotBusy status base turns s).2 := by
  induction turns generalizing s with
  | zero => exact ⟨rfl, rfl⟩
  | succ turns ih =>
      simp only [ataWaitNotBusy, inbStatus_reg hBase]
      apply Waited.step
      split
      · exact ⟨rfl, rfl⟩
      · exact ih _

/- Either command starts the drive. -/
theorem store_command
    (c : AtaChannel)
    (base : U16)
    (write : Bool) :
    c.store base ataRegCommand
        (if write then ataCmdWritePio else ataCmdReadPio) =
      c.start base write := by
  cases write with
  | false => rfl
  | true => rfl

variable {c : AtaChannel}

/- The registers of a transfer make the drive await a sector. -/
theorem start_awaited
    (base : U16)
    (lba : U32)
    (hCount : count ≠ 0#8)
    (write : Bool)
    (hCountReg : c.seccount = count)
    (hLo : c.lbaLo = (lba &&& 0xFF#32).setWidth 8)
    (hMid : c.lbaMid = ((lba >>> 8) &&& 0xFF#32).setWidth 8)
    (hHi : c.lbaHi = ((lba >>> 16) &&& 0xFF#32).setWidth 8)
    (hDrive :
      c.drive =
        0xE0#8 ||| ((lba >>> 24) &&& 0x0F#32).setWidth 8) :
    c.start base write = awaited base lba count write 0 0 := by
  have hLba : c.lba = lba.toNat % 2 ^ 28 := by
    rw [← awaited_lba lba base count write 0 0]
    simp only [AtaChannel.lba, awaited, hLo, hMid, hHi, hDrive]
  have hSectors : c.sectors = count.toNat := by
    rw [AtaChannel.sectors, hCountReg, if_neg hCount]
  have hMaster := (toNat_lbaTop lba).2
  rw [← hDrive] at hMaster
  simp only [AtaChannel.start, awaited, hCountReg, hLo, hMid, hHi,
    hLba, hSectors, hMaster, List.range_eq_range', Nat.sub_zero]
  rw [hDrive]
  rfl

theorem sendCommand_transfers
    (s : AtaState)
    (base : U16)
    (lba : U32)
    (count command : U8) :
    (sendCommand s base lba count command).transfers =
      s.transfers := rfl

variable {s : AtaState}
variable {lba : U32}

/- The command makes the drive await the first sector. -/
theorem sendCommand_awaited
    (hBase : IsAtaBase base)
    (hDrive :
      (s.channels base).drive =
        0xE0#8 ||| ((lba >>> 24) &&& 0x0F#32).setWidth 8)
    (hCount : count ≠ 0#8)
    (write : Bool) :
    (sendCommand s base lba count
        (if write then ataCmdWritePio else
          ataCmdReadPio)).channels base =
      awaited base lba count write 0 0 := by
  simp only [sendCommand]
  rw [outb_reg hBase (by decide), outb_reg hBase (by decide),
    outb_reg hBase (by decide), outb_reg hBase (by decide),
    outb_reg hBase (by decide)]
  simp only [AtaState.channels_setChannel, store_command]
  apply start_awaited base lba hCount write
  · rfl
  · rfl
  · rfl
  · rfl
  · exact hDrive

--------------------
-- The Loops
--------------------

/- The channel after `j` more status reads without DRQ. -/
def AtaChannel.polled
    (c : AtaChannel)
    (j : Nat) :
    AtaChannel :=
  { c with polls := c.polls + j }

theorem AtaChannel.polled_polled
    (c : AtaChannel)
    (j : Nat) :
    (c.polled 1).polled j = c.polled (j + 1) := by
  simp only [polled, Nat.add_assoc, Nat.add_comm 1 j]

/- The drive shows DRQ, or the turns are used up without it. -/
theorem waitDrq_cases
    (hBase : IsAtaBase base)
    (turns : Nat)
    (hChannel : s.channels base = c)
    (hReady : c.ready = false) :
    (waitDrq status base turns s).1 ≠ 0 ∨
    (waitDrq status base turns s).1 = 0 ∧
      (waitDrq status base turns s).2.transfers = s.transfers ∧
      ((∃ j < turns,
          status base (c.polled j) &&& ataStatusDrq ≠ 0#8 ∧
            (waitDrq status base turns s).2.channels base =
              { c.polled (j + 1) with ready := true }) ∨
        (∀ j < turns,
            status base (c.polled j) &&& ataStatusDrq = 0#8) ∧
          (waitDrq status base turns s).2.channels base =
            c.polled turns) := by
  induction turns generalizing s c with
  | zero =>
      refine .inr ⟨rfl, rfl, .inr ⟨?_, hChannel⟩⟩
      exact fun j hj => absurd hj (by omega)
  | succ turns ih =>
      by_cases hErr : status base c &&& ataStatusErr = 0#8
      · by_cases hDrq : status base c &&& ataStatusDrq = 0#8
        · -- the next status read is the first of the rest
          have hNext :
              (s.setChannel base
                { c with
                  polls := c.polls + 1
                  ready := false }).channels base =
                c.polled 1 := by
            rw [AtaState.channels_setChannel]
            simp only [AtaChannel.polled, hReady]
          simp only [waitDrq, inbStatus_reg hBase, hChannel, hErr,
            hDrq, ne_eq, not_true_eq_false, if_false, decide_false]
          rcases ih hNext hReady with
            hFail | ⟨hRet, hMoved, hRest⟩
          · exact .inl hFail
          · refine .inr ⟨hRet, hMoved, ?_⟩
            rcases hRest with
              ⟨j, hj, hShown, hAfter⟩ | ⟨hNever, hAfter⟩
            · rw [c.polled_polled] at hShown hAfter
              exact .inl ⟨j + 1, by omega, hShown, hAfter⟩
            · rw [c.polled_polled] at hAfter
              refine .inr ⟨?_, hAfter⟩
              intro j hj
              cases j with
              | zero => exact hDrq
              | succ j =>
                  have hSame := hNever j (by omega)
                  rw [c.polled_polled] at hSame
                  exact hSame
        · right
          simp only [waitDrq, inbStatus_reg hBase, hChannel, hErr,
            hDrq, ne_eq, not_true_eq_false, if_false,
            not_false_eq_true, if_true, decide_true]
          refine ⟨trivial, rfl, .inl ⟨0, by omega, hDrq, ?_⟩⟩
          rw [AtaState.channels_setChannel]
          rfl
      · left
        simp [waitDrq, inbStatus_reg hBase, hChannel, hErr]

/- A sector is shown, or the loop goes on without it. -/
theorem waitDrq_awaited
    (hBase : IsAtaBase base)
    {i : Nat}
    (hChannel :
      s.channels base = awaited base lba count write i 0)
    (hRet : (waitDrq status base 10000 s).1 = 0) :
    (waitDrq status base 10000 s).2.transfers = s.transfers ∧
    (DrqShown status base lba count write i ∧
        (∃ j, (waitDrq status base 10000 s).2.channels base =
          { awaited base lba count write i j with
            ready := true }) ∨
      ¬ DrqShown status base lba count write i ∧
        ((waitDrq status base 10000 s).2.channels base).ready =
          false) := by
  have hPolled : ∀ j,
      (awaited base lba count write i 0).polled j =
        awaited base lba count write i j := by
    intro j
    simp [AtaChannel.polled, awaited]
  rcases waitDrq_cases hBase 10000 hChannel rfl with
    hFail | ⟨_, hMoved, hRest⟩
  · exact absurd hRet hFail
  · refine ⟨hMoved, ?_⟩
    rcases hRest with ⟨j, hj, hShown, hAfter⟩ | ⟨hNever, hAfter⟩
    · rw [hPolled] at hShown hAfter
      exact .inl ⟨⟨j, hj, hShown⟩, j + 1, hAfter⟩
    · right
      constructor
      · rintro ⟨j, hj, hShown⟩
        apply hShown
        rw [← hPolled]
        exact hNever j hj
      · rw [hAfter]
        rfl

/- A sector that is shown is moved, and the next is awaited. -/
theorem moveWords_awaited
    (hBase : IsAtaBase base)
    {i j : Nat}
    (hMore : i < count.toNat)
    (hChannel :
      s.channels base =
        { awaited base lba count write i j with ready := true })
    (buffer : Addr) :
    (moveWords s write (base + ataRegData) buffer).channels base =
        awaited base lba count write (i + 1) 0 ∧
      (moveWords s write (base + ataRegData) buffer).transfers =
        s.transfers ++
          [⟨⟨base, false, lba.toNat % 2 ^ 28 + i⟩, write,
            buffer⟩] := by
  have hReg : ataRegData ∈ ataRegs := by decide
  have hPending :
      (awaited base lba count write i j).pending =
        ⟨base, false, lba.toNat % 2 ^ 28 + i⟩ ::
          (awaited base lba count write (i + 1) 0).pending := by
    simp only [awaited]
    rw [show count.toNat - i = count.toNat - (i + 1) + 1 by omega,
      List.range'_succ, List.map_cons]
  have hWrite :
      (awaited base lba count write i j).write = write := rfl
  simp only [moveWords, (port_decode hBase hReg).1, hChannel,
    hPending, hWrite, beq_self_eq_true, Bool.and_self, if_true,
    AtaState.channels_setChannel, and_true]
  rfl

/- No more than one sector is moved at a time. -/
theorem moveWords_length_le
    (hBase : IsAtaBase base)
    (s : AtaState)
    (write : Bool)
    (buffer : Addr) :
    (moveWords s write (base + ataRegData)
        buffer).transfers.length ≤
      s.transfers.length + 1 := by
  rw [moveWords_reg hBase, List.length_append]
  split
  · simp
  · split
    · simp
    · simp

/- Without DRQ nothing is moved. -/
theorem moveWords_not_ready
    (hBase : IsAtaBase base)
    (hReady : (s.channels base).ready = false)
    (write : Bool)
    (buffer : Addr) :
    (moveWords s write (base + ataRegData) buffer).transfers =
      s.transfers := by
  rw [moveWords_reg hBase, hReady]
  split
  · simp
  · simp

variable (status) in
theorem waitDrq_transfers
    (hBase : IsAtaBase base)
    (turns : Nat)
    (s : AtaState) :
    (waitDrq status base turns s).2.transfers = s.transfers := by
  induction turns generalizing s with
  | zero => rfl
  | succ turns ih =>
      simp only [waitDrq, inbStatus_reg hBase]
      split
      · rfl
      · split
        · rfl
        · rw [ih]
          rfl

variable (status) in
theorem moveSectors_length_le
    (hBase : IsAtaBase base)
    (write : Bool)
    (buffer : Addr)
    (n i : Nat)
    (s : AtaState) :
    (moveSectors status write base buffer n i
        s).2.transfers.length ≤
      s.transfers.length + n := by
  induction n generalizing i s with
  | zero => exact Nat.le_refl _
  | succ n ih =>
      have hWaited :=
        waitDrq_transfers status hBase 10000 s
      simp only [moveSectors]
      split
      · rw [hWaited]
        omega
      · apply Nat.le_trans (ih _ _)
        have hMoved :=
          moveWords_length_le hBase
            (waitDrq status base 10000 s).2 write
            (buffer + BitVec.ofNat 64 (i * 512))
        rw [hWaited] at hMoved
        omega

theorem sectorTransfers_succ
    (base : U16)
    (slave write : Bool)
    (lba : Nat)
    (buffer : Addr)
    (i n : Nat) :
    sectorTransfers base slave write lba buffer i (n + 1) =
      ⟨⟨base, slave, lba + i⟩, write,
          buffer + BitVec.ofNat 64 (i * 512)⟩ ::
        sectorTransfers base slave write lba buffer (i + 1) n := by
  simp only [sectorTransfers, List.range'_succ, List.map_cons]

@[simp] theorem length_sectorTransfers
    (base : U16)
    (slave write : Bool)
    (lba : Nat)
    (buffer : Addr)
    (i n : Nat) :
    (sectorTransfers base slave write lba buffer i n).length =
      n := by
  simp [sectorTransfers]

/- A loop that returns 0 misses the sectors without DRQ. -/
theorem moveSectors_transfers
    (hBase : IsAtaBase base)
    (buffer : Addr)
    {n i : Nat}
    (hLeft : i + n = count.toNat)
    (hChannel :
      s.channels base = awaited base lba count write i 0)
    (hRet : (moveSectors status write base buffer n i s).1 = 0) :
    (∀ k, i ≤ k → k < count.toNat →
        DrqShown status base lba count write k) ∧
      (moveSectors status write base buffer n i s).2.transfers =
        s.transfers ++
          sectorTransfers base false write (lba.toNat % 2 ^ 28)
            buffer i n ∨
    ¬ (∀ k, i ≤ k → k < count.toNat →
        DrqShown status base lba count write k) ∧
      (moveSectors status write base buffer n i
          s).2.transfers.length <
        s.transfers.length + n := by
  induction n generalizing i s with
  | zero =>
      left
      constructor
      · intro k hFrom hTo
        omega
      · simp [moveSectors, sectorTransfers]
  | succ n ih =>
      by_cases hWaited : (waitDrq status base 10000 s).1 = 0
      · simp only [moveSectors, hWaited, ne_eq, not_true_eq_false,
          if_false] at hRet ⊢
        rcases waitDrq_awaited hBase hChannel hWaited with
          ⟨hSame, ⟨hShown, j, hReady⟩ | ⟨hShown, hReady⟩⟩
        · -- the sector is moved, and the rest is as before
          rcases moveWords_awaited hBase (by omega) hReady
              (buffer + BitVec.ofNat 64 (i * 512)) with
            ⟨hNext, hMoved⟩
          rw [hSame] at hMoved
          rcases ih (by omega) hNext hRet with
            ⟨hAll, hRest⟩ | ⟨hAll, hRest⟩
          · left
            constructor
            · intro k hFrom hTo
              rcases Nat.eq_or_lt_of_le hFrom with rfl | hLater
              · exact hShown
              · exact hAll k hLater hTo
            · rw [hRest, hMoved, sectorTransfers_succ,
                List.append_assoc, List.singleton_append]
          · right
            constructor
            · intro hEvery
              apply hAll
              intro k hFrom hTo
              exact hEvery k (by omega) hTo
            · rw [hMoved, List.length_append] at hRest
              simp only [List.length_singleton] at hRest
              omega
        · -- the sector is missing, and at most `n` others follow
          right
          constructor
          · intro hEvery
            exact hShown (hEvery i (Nat.le_refl _) (by omega))
          · have hBound :=
              moveSectors_length_le status hBase write
                buffer n (i + 1)
                (moveWords (waitDrq status base 10000 s).2 write
                  (base + ataRegData)
                  (buffer + BitVec.ofNat 64 (i * 512)))
            rw [moveWords_not_ready hBase hReady, hSame] at hBound
            omega
      · simp [moveSectors, hWaited] at hRet

/- A transfer that returns 0 used the master and 28 bits. -/
theorem ataMove_transfers
    {dev : AtaDevice}
    (hBase : IsAtaBase dev.ioBase)
    {buffer : Option Addr}
    (hRet :
      (ataMove status write s (some dev) lba count buffer).1 =
        0) :
    count ≠ 0#8 ∧
    ∃ start, buffer = some start ∧
      (DrqInTime status dev.ioBase lba count write ∧
          (ataMove status write s (some dev) lba count
              buffer).2.transfers =
            s.transfers ++
              sectorTransfers dev.ioBase false write
                (lba.toNat % 2 ^ 28) start 0 count.toNat ∨
        ¬ DrqInTime status dev.ioBase lba count write ∧
          (ataMove status write s (some dev) lba count
              buffer).2.transfers.length <
            s.transfers.length + count.toNat) := by
  cases buffer with
  | none => simp [ataMove] at hRet
  | some start =>
      by_cases hCount : count = 0#8
      · simp [ataMove, hCount] at hRet
      by_cases hLba : dev.lba
      · by_cases hBusy :
            (ataWaitNotBusy status dev.ioBase 100000 s).1 = 0
        · refine ⟨hCount, start, rfl, ?_⟩
          simp only [ataMove, hCount, hLba, hBusy, if_false,
            Bool.not_true, Bool.false_eq_true, ne_eq,
            not_true_eq_false] at hRet ⊢
          have hIdle :=
            (ataWaitNotBusy_waited status hBase 100000
              s).transfers
          have hReg : ataRegDrive ∈ ataRegs := by decide
          rw [outb_reg hBase hReg] at hRet ⊢
          have hWaited :=
            ataWaitReady_waited status hBase 100000
              ((ataWaitNotBusy status dev.ioBase 100000
                s).2.setChannel dev.ioBase
                  (((ataWaitNotBusy status dev.ioBase 100000
                    s).2.channels dev.ioBase).store dev.ioBase
                      ataRegDrive
                      (0xE0#8 |||
                        ((lba >>> 24) &&& 0x0F#32).setWidth 8)))
          have hDrive := hWaited.drive
          rw [AtaState.channels_setChannel] at hDrive
          have hMoved := hWaited.transfers
          rw [AtaState.transfers_setChannel, hIdle] at hMoved
          have hSent :=
            sendCommand_awaited hBase hDrive hCount write
          have hResult :=
            moveSectors_transfers hBase start (Nat.zero_add _)
              hSent hRet
          rw [sendCommand_transfers, hMoved] at hResult
          simpa only [DrqInTime, Nat.zero_le, forall_const]
            using hResult
        · simp [ataMove, hCount, hLba, hBusy] at hRet
      · simp [ataMove, hCount, hLba] at hRet

end Ports

--------------------
-- Block Transfers
--------------------

/- `block_read` or `block_write` -/
def blockTransfer
    {W : Type}
    (devices : Addr → BlockDevice W)
    (write : Bool) :
    Option Addr → U64 → U32 → Option Addr → W → Int × W :=
  if write then blockWrite devices else blockRead devices

/- The devices 1 and 3 are the slaves of their channels. -/
def ataSlave (i : Fin 4) : Bool :=
  i.val % 2 == 1

section BlockTransfers

variable {status : U16 → AtaChannel → U8}
variable {known : Fin 4 → Bool}
variable {privateData : Addr}

theorem countTransfer_transfers
    {answer : Int × AtaState}
    (hRet : (countTransfer write count answer).1 = 0) :
    answer.1 = 0 ∧
      (countTransfer write count answer).2.transfers =
        answer.2.transfers := by
  by_cases hAnswer : answer.1 = 0
  · simp [countTransfer, hAnswer]
  · simp [countTransfer, hAnswer] at hRet

/- The three layers, with what each of them cuts off. -/
theorem blockTransfer_ata
    {devices : Addr → BlockDevice AtaState}
    {dev : Addr}
    {i : Fin 4}
    (hDev :
      devices dev = ataBlockDevice status known privateData i)
    (write : Bool)
    (lba : U64)
    (count : U32)
    (buffer : Option Addr)
    (s : AtaState) :
    blockTransfer devices write (some dev) lba count buffer s =
      countTransfer write (count.setWidth 8)
        (ataMove status write s (some (ataDevice known i))
          (lba.setWidth 32) (count.setWidth 8) buffer) := by
  cases write with
  | false =>
      simp only [blockTransfer, Bool.false_eq_true, if_false,
        blockRead, hDev]
      rfl
  | true =>
      simp only [blockTransfer, if_true, blockWrite, hDev]
      rfl

/- Equal transfers are of one drive, sector and number. -/
theorem sectorTransfers_inj
    {slave slave' write : Bool}
    {lba lba' : Nat}
    {buffer : Addr}
    {n n' : Nat}
    (hSome : 0 < n)
    (hSame :
      sectorTransfers base slave write lba buffer 0 n =
        sectorTransfers base slave' write lba' buffer 0 n') :
    slave = slave' ∧ lba = lba' ∧ n = n' := by
  have hLength := congrArg List.length hSame
  simp only [length_sectorTransfers] at hLength
  rw [← hLength] at hSame
  cases n with
  | zero => omega
  | succ n =>
      rw [sectorTransfers_succ, sectorTransfers_succ] at hSame
      have hHead := (List.cons.inj hSame).1
      simp only [AtaTransfer.mk.injEq, AtaSector.mk.injEq,
        Nat.add_zero, true_and, and_true] at hHead
      exact ⟨hHead.1, hHead.2, hLength⟩

/- A transfer that returns 0 moved what was asked for. -/
theorem blockTransfer_exact_iff
    {devices : Addr → BlockDevice AtaState}
    {dev : Addr}
    {i : Fin 4}
    (hDev :
      devices dev = ataBlockDevice status known privateData i)
    {write : Bool}
    {lba : U64}
    {count : U32}
    {buffer : Option Addr}
    {s : AtaState}
    (hRet :
      (blockTransfer devices write (some dev) lba count buffer
        s).1 = 0) :
    ∃ start, buffer = some start ∧
      ((blockTransfer devices write (some dev) lba count buffer
            s).2.transfers =
          s.transfers ++
            sectorTransfers (ataDevice known i).ioBase (ataSlave i)
              write lba.toNat start 0 count.toNat ↔
        ataSlave i = false ∧ lba.toNat < 2 ^ 28 ∧
          count.toNat < 256 ∧
          DrqInTime status (ataDevice known i).ioBase
            (lba.setWidth 32) (count.setWidth 8) write) := by
  rw [blockTransfer_ata hDev] at hRet ⊢
  rcases countTransfer_transfers hRet with ⟨hMove, hSame⟩
  rcases ataMove_transfers (ataDevice_base known i) hMove with
    ⟨hSome, start, hStart, hMoved⟩
  have hLba :
      (lba.setWidth 32 : U32).toNat % 2 ^ 28 =
        lba.toNat % 2 ^ 28 := by
    rw [BitVec.toNat_setWidth]
    omega
  have hCount :
      (count.setWidth 8 : U8).toNat = count.toNat % 256 := by
    rw [BitVec.toNat_setWidth]
  have hPositive : 0 < (count.setWidth 8 : U8).toNat := by
    rw [Nat.pos_iff_ne_zero]
    intro hZero
    exact hSome (BitVec.eq_of_toNat_eq hZero)
  refine ⟨start, hStart, ?_⟩
  rw [hSame]
  rw [hLba] at hMoved
  rcases hMoved with ⟨hInTime, hMoved⟩ | ⟨hLate, hFewer⟩
  · rw [hMoved, List.append_cancel_left_eq]
    constructor
    · intro hExact
      rcases sectorTransfers_inj hPositive hExact with
        ⟨hMaster, hFull, hNumber⟩
      refine ⟨hMaster.symm, ?_, ?_, hInTime⟩
      · omega
      · omega
    · rintro ⟨hMaster, hSmall, hFew, _⟩
      rw [hMaster, hCount, Nat.mod_eq_of_lt hSmall,
        Nat.mod_eq_of_lt hFew]
  · constructor
    · intro hExact
      rw [hExact, List.length_append, length_sectorTransfers,
        hCount] at hFewer
      omega
    · rintro ⟨_, _, _, hInTime⟩
      exact absurd hInTime hLate

--------------------
-- A Run
--------------------

/- A drive that is never busy and always has DRQ. -/
def promptStatus
    (_base : U16)
    (_c : AtaChannel) :
    U8 :=
  ataStatusDrdy ||| ataStatusDrq

def idleAta : AtaState where
  channels := fun _ => ⟨0#8, 0#8, 0#8, 0#8, 0#8, [], false, 0, false⟩
  transfers := []
  stats := ⟨0#64, 0#64, 0#64, 0#64⟩

def promptDevices (i : Fin 4) : Addr → BlockDevice AtaState :=
  fun _ => ataBlockDevice promptStatus (fun _ => true) 0x1000#64 i

theorem blockTransfer_exact_iff_master :
    (blockTransfer (promptDevices 0) true (some 0x1000#64) 5#64
        2#32 (some 0x2000#64) idleAta).2.transfers =
      sectorTransfers ataPrimaryBase false true 5 0x2000#64 0 2 := by
  have hRet :
      (blockTransfer (promptDevices 0) true (some 0x1000#64) 5#64
        2#32 (some 0x2000#64) idleAta).1 = 0 := by
    decide +kernel
  have hMaster :
      promptDevices 0 0x1000#64 =
        ataBlockDevice promptStatus (fun _ => true) 0x1000#64 0 :=
    rfl
  rcases blockTransfer_exact_iff hMaster hRet with
    ⟨start, hStart, hExact⟩
  cases hStart
  apply hExact.mpr
  refine ⟨rfl, by decide, by decide, ?_⟩
  intro k _
  refine ⟨0, by decide, ?_⟩
  simp only [promptStatus]
  decide

/- A write to the slave reaches the master. -/
theorem blockWrite_reaches_master :
    (blockTransfer (promptDevices 1) true (some 0x1000#64) 5#64
        1#32 (some 0x2000#64) idleAta).1 = 0 ∧
      (blockTransfer (promptDevices 1) true (some 0x1000#64) 5#64
          1#32 (some 0x2000#64) idleAta).2.transfers =
        [⟨⟨ataPrimaryBase, false, 5⟩, true, 0x2000#64⟩] ∧
      (blockTransfer (promptDevices 1) true (some 0x1000#64) 5#64
          1#32 (some 0x2000#64) idleAta).2.transfers ≠
        sectorTransfers
          (ataDevice (fun _ => true) 1).ioBase (ataSlave 1) true 5
          0x2000#64 0 1 := by
  decide +kernel

end BlockTransfers

end FeatherOS
