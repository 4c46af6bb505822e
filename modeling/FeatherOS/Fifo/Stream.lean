import FeatherOS.Fifo.Model
import FeatherOS.Library.Run
import FeatherOS.Library.Words

/-
  A pipe is a lossless byte stream.

  The bytes that writes accepted are, in order, those that
  reads delivered and those that lie in the buffer between
  the two positions.

  Key definitions include:
    * `FifoSys`
    * `FifoStep`
    * `FifoSys.Inv`

  Key theorems include:
    * `readData_spec`
    * `writeData_spec`
    * `fifo_run_stream`
-/

namespace FeatherOS

open CyclicBuffer (cells front Puts)

--------------------
-- Histories
--------------------

/-
  A pipe beside the bytes accepted and the bytes delivered
  so far.
-/
structure FifoSys where
  state : FifoState
  accepted : List U8
  delivered : List U8

/- The first bytes of a buffer, as many as were moved. -/
def movedBytes
    (buf : Bytes)
    (moved : Option U32) :
    List U8 :=
  front buf (moved.getD 0#32).toNat

inductive FifoCall where
  | read (buf : Option Bytes) (count : U32)
  | write (buf : Option Bytes) (count : U32)
  | get
  | delete

/- Only calls that do not block are steps. -/
inductive FifoStep :
    FifoSys → FifoCall → FifoSys → Prop
| read
    {sys : FifoSys}
    {buf : Option Bytes}
    {count : U32}
    {answer : FifoAnswer}
    (hCall : fifoRead sys.state buf count = some answer) :
    FifoStep sys (.read buf count)
      { sys with
        state := answer.state
        delivered :=
          sys.delivered ++ movedBytes answer.buf answer.moved }
| write
    {sys : FifoSys}
    {buf : Option Bytes}
    {count : U32}
    {answer : FifoAnswer}
    (hCall : fifoWrite sys.state buf count = some answer) :
    FifoStep sys (.write buf count)
      { sys with
        state := answer.state
        accepted :=
          sys.accepted ++ movedBytes answer.buf answer.moved }
| get
    (sys : FifoSys) :
    FifoStep sys .get { sys with state := fifoGet sys.state }
| delete
    {sys : FifoSys}
    {s : FifoState}
    (hCall : fifoDelete sys.state = some s) :
    FifoStep sys .delete { sys with state := s }

/- A new pipe. -/
def FifoSys.create
    (stats : FifoStats)
    (size : U32)
    (buffer : Bytes) :
    FifoSys where
  state := fifoCreate stats size buffer
  accepted := []
  delivered := []

--------------------
-- The Invariant
--------------------

/- The bytes in the pipe. -/
def Fifo.pending (fifo : Fifo) : List U8 :=
  cells fifo.buffer fifo.size.toNat fifo.readPos.toNat
    fifo.dataLen.toNat

structure Fifo.Ok (fifo : Fifo) : Prop where
  read_lt : fifo.readPos.toNat < fifo.size.toNat
  len_le : fifo.dataLen.toNat ≤ fifo.size.toNat
  write_eq :
    fifo.writePos.toNat =
      (fifo.readPos.toNat + fifo.dataLen.toNat) %
        fifo.size.toNat

structure FifoSys.Inv (sys : FifoSys) : Prop where
  ok : sys.state.fifo.Ok
  stream :
    sys.accepted = sys.delivered ++ sys.state.fifo.pending

section Positions

variable {size pos n : U32}

/- The bytes between a position and the end. -/
theorem toNat_firstPart
    (hPos : pos.toNat < size.toNat) :
    (size - pos).toNat = size.toNat - pos.toNat :=
  BitVec.toNat_sub_of_le (by rw [BitVec.le_def]; omega)

/- A position moved without a wrap. -/
theorem toNat_advance
    (hFits : pos.toNat + n.toNat ≤ size.toNat) :
    ((pos + n) % size).toNat =
      (pos.toNat + n.toNat) % size.toNat := by
  have hSize := size.isLt
  have hSum : (pos + n).toNat = pos.toNat + n.toNat := by
    rw [BitVec.toNat_add, Nat.mod_eq_of_lt (by omega)]
  rw [BitVec.toNat_umod, hSum]

/- A position moved around the end. -/
theorem toNat_wrap
    (hPos : pos.toNat < size.toNat)
    (hLe : n.toNat ≤ size.toNat)
    (hWraps : size.toNat < pos.toNat + n.toNat) :
    (n - (size - pos)).toNat =
      (pos.toNat + n.toNat) % size.toNat := by
  have hFirst := toNat_firstPart hPos
  rw [BitVec.toNat_sub_of_le (by rw [BitVec.le_def]; omega),
    hFirst, Nat.mod_eq_sub_mod (by omega),
    Nat.mod_eq_of_lt (by omega)]
  omega

end Positions

--------------------
-- Reading
--------------------

/- The buffer gets the next bytes, and the position moves. -/
theorem readData_spec
    {fifo : Fifo}
    {buf : Bytes}
    {n : U32}
    (hPos : fifo.readPos.toNat < fifo.size.toNat)
    (hLe : n.toNat ≤ fifo.size.toNat) :
    front (readData fifo buf n).1 n.toNat =
        cells fifo.buffer fifo.size.toNat fifo.readPos.toNat
          n.toNat ∧
      (readData fifo buf n).2.toNat =
        (fifo.readPos.toNat + n.toNat) % fifo.size.toNat := by
  have hFirst := toNat_firstPart hPos
  unfold readData
  by_cases hFits : n ≤ fifo.size - fifo.readPos
  · rw [if_pos hFits]
    rw [BitVec.le_def, hFirst] at hFits
    exact ⟨CyclicBuffer.front_copy (by omega),
      toNat_advance (by omega)⟩
  · rw [if_neg hFits]
    rw [BitVec.le_def, hFirst] at hFits
    have hRest :
        (n - (fifo.size - fifo.readPos)).toNat =
          n.toNat - (fifo.size.toNat - fifo.readPos.toNat) := by
      rw [BitVec.toNat_sub_of_le
        (by rw [BitVec.le_def]; omega), hFirst]
    refine ⟨?_, toNat_wrap hPos hLe (by omega)⟩
    rw [hRest, hFirst]
    exact CyclicBuffer.front_copy_copy hPos hLe

/- A read takes bytes from the front of the pipe. -/
theorem fifoRead_spec
    {s : FifoState}
    {buf : Option Bytes}
    {count : U32}
    {answer : FifoAnswer}
    (hOk : s.fifo.Ok)
    (hCall : fifoRead s buf count = some answer) :
    answer.state.fifo.Ok ∧
      s.fifo.pending =
        movedBytes answer.buf answer.moved ++
          answer.state.fifo.pending := by
  unfold fifoRead at hCall
  cases buf with
  | none =>
      cases hCall
      exact ⟨hOk, rfl⟩
  | some buf =>
      simp only at hCall
      by_cases hEmpty : s.fifo.dataLen = 0#32
      · rw [if_pos hEmpty] at hCall
        by_cases hClosed : s.fifo.closed = true
        · rw [if_pos hClosed] at hCall
          cases hCall
          exact ⟨hOk, rfl⟩
        · rw [if_neg hClosed] at hCall
          simp at hCall
      · rw [if_neg hEmpty] at hCall
        cases hCall
        have hLen := hOk.len_le
        generalize hRead :
          (if count < s.fifo.dataLen then count
            else s.fifo.dataLen) = toRead
        have hLe : toRead.toNat ≤ s.fifo.dataLen.toNat := by
          rw [← hRead]
          split
          · rename_i hLt
            rw [BitVec.lt_def] at hLt
            omega
          · exact Nat.le_refl _
        have hRest :
            (s.fifo.dataLen - toRead).toNat =
              s.fifo.dataLen.toNat - toRead.toNat :=
          BitVec.toNat_sub_of_le
            (by rw [BitVec.le_def]; exact hLe)
        rcases @readData_spec s.fifo buf toRead hOk.read_lt
            (by omega) with
          ⟨hBytes, hPos⟩
        have hSize : 0 < s.fifo.size.toNat :=
          Nat.lt_of_le_of_lt (Nat.zero_le _) hOk.read_lt
        refine ⟨⟨?_, ?_, ?_⟩, ?_⟩
        · simp only [hPos]
          exact Nat.mod_lt _ hSize
        · simp only [hRest]
          omega
        · simp only [hPos, hRest, hOk.write_eq,
            Nat.mod_add_mod]
          congr 1
          omega
        · have hSplit :
              s.fifo.dataLen.toNat =
                toRead.toNat +
                  (s.fifo.dataLen.toNat - toRead.toNat) := by
            omega
          simp only [Fifo.pending, movedBytes, Option.getD_some,
            hPos, hRest, hBytes]
          rw [← CyclicBuffer.cells_add, ← hSplit]

--------------------
-- Writing
--------------------

/- The block is put behind the bytes in the pipe. -/
theorem writeData_spec
    {fifo : Fifo}
    {buf : Bytes}
    {n : U32}
    (hPos : fifo.writePos.toNat < fifo.size.toNat)
    (hLe : n.toNat ≤ fifo.size.toNat) :
    Puts fifo.buffer (writeData fifo buf n).1
        fifo.size.toNat fifo.writePos.toNat n.toNat buf ∧
      (writeData fifo buf n).2.toNat =
        (fifo.writePos.toNat + n.toNat) % fifo.size.toNat := by
  have hFirst := toNat_firstPart hPos
  unfold writeData
  by_cases hFits : n ≤ fifo.size - fifo.writePos
  · rw [if_pos hFits]
    rw [BitVec.le_def, hFirst] at hFits
    exact ⟨CyclicBuffer.copy_puts (by omega),
      toNat_advance (by omega)⟩
  · rw [if_neg hFits]
    rw [BitVec.le_def, hFirst] at hFits
    have hRest :
        (n - (fifo.size - fifo.writePos)).toNat =
          n.toNat - (fifo.size.toNat - fifo.writePos.toNat) := by
      rw [BitVec.toNat_sub_of_le
        (by rw [BitVec.le_def]; omega), hFirst]
    refine ⟨?_, toNat_wrap hPos hLe (by omega)⟩
    rw [hRest, hFirst]
    exact CyclicBuffer.copy_copy_puts hPos (by omega) hLe

/- A write adds bytes behind those in the pipe. -/
theorem fifoWrite_spec
    {s : FifoState}
    {buf : Option Bytes}
    {count : U32}
    {answer : FifoAnswer}
    (hOk : s.fifo.Ok)
    (hCall : fifoWrite s buf count = some answer) :
    answer.state.fifo.Ok ∧
      answer.state.fifo.pending =
        s.fifo.pending ++
          movedBytes answer.buf answer.moved := by
  unfold fifoWrite at hCall
  cases buf with
  | none =>
      cases hCall
      exact ⟨hOk, (List.append_nil _).symm⟩
  | some buf =>
      simp only at hCall
      by_cases hClosed : s.fifo.closed = true
      · rw [if_pos hClosed] at hCall
        cases hCall
        exact ⟨hOk, (List.append_nil _).symm⟩
      rw [if_neg hClosed] at hCall
      by_cases hFull : s.fifo.dataLen = s.fifo.size
      · rw [if_pos hFull] at hCall
        simp at hCall
      rw [if_neg hFull] at hCall
      cases hCall
      have hLen := hOk.len_le
      have hRoom :
          (s.fifo.size - s.fifo.dataLen).toNat =
            s.fifo.size.toNat - s.fifo.dataLen.toNat :=
        BitVec.toNat_sub_of_le
          (by rw [BitVec.le_def]; exact hLen)
      generalize hWrite :
        (if s.fifo.size - s.fifo.dataLen < count then
          s.fifo.size - s.fifo.dataLen else count) = toWrite
      have hLe :
          s.fifo.dataLen.toNat + toWrite.toNat ≤
            s.fifo.size.toNat := by
        rw [← hWrite]
        split
        · omega
        · rename_i hLt
          rw [BitVec.lt_def, hRoom] at hLt
          omega
      have hSize : 0 < s.fifo.size.toNat :=
        Nat.lt_of_le_of_lt (Nat.zero_le _) hOk.read_lt
      have hMax := s.fifo.size.isLt
      have hSum :
          (s.fifo.dataLen + toWrite).toNat =
            s.fifo.dataLen.toNat + toWrite.toNat := by
        rw [BitVec.toNat_add, Nat.mod_eq_of_lt (by omega)]
      have hWritePos :
          s.fifo.writePos.toNat < s.fifo.size.toNat := by
        rw [hOk.write_eq]
        exact Nat.mod_lt _ hSize
      rcases @writeData_spec s.fifo buf toWrite hWritePos
          (by omega) with
        ⟨hPuts, hPos⟩
      rw [hOk.write_eq] at hPuts
      refine ⟨⟨hOk.read_lt, ?_, ?_⟩, ?_⟩
      · simp only [hSum]
        exact hLe
      · simp only [hPos, hSum, hOk.write_eq, Nat.mod_add_mod,
          Nat.add_assoc]
      · simp only [Fifo.pending, movedBytes, Option.getD_some,
          hSum]
        exact hPuts.cells_append hSize hLe

--------------------
-- Every Run
--------------------

theorem fifoStep_inv
    {sys sys' : FifoSys}
    {call : FifoCall}
    (hInv : sys.Inv)
    (hStep : FifoStep sys call sys') :
    sys'.Inv := by
  cases hStep with
  | read hCall =>
      rcases fifoRead_spec hInv.ok hCall with ⟨hOk, hBytes⟩
      refine ⟨hOk, ?_⟩
      simp only [hInv.stream, hBytes, List.append_assoc]
  | write hCall =>
      rcases fifoWrite_spec hInv.ok hCall with ⟨hOk, hBytes⟩
      refine ⟨hOk, ?_⟩
      simp only [hInv.stream, hBytes, List.append_assoc]
  | get =>
      exact ⟨⟨hInv.ok.read_lt, hInv.ok.len_le,
        hInv.ok.write_eq⟩, hInv.stream⟩
  | delete hCall =>
      simp only [fifoDelete] at hCall
      split at hCall
      · simp at hCall
      · cases hCall
        exact ⟨⟨hInv.ok.read_lt, hInv.ok.len_le,
          hInv.ok.write_eq⟩, hInv.stream⟩

/-
  After any calls that do not block, the bytes delivered are
  a prefix of those accepted, the rest is what the pipe
  holds, and the positions agree with its length.
-/
theorem fifo_run_stream
    {stats : FifoStats}
    {size : U32}
    {buffer : Bytes}
    {calls : List FifoCall}
    {sys : FifoSys}
    (hSize : 0 < size.toNat)
    (hRun : Run FifoStep (FifoSys.create stats size buffer)
      calls sys) :
    (∃ rest, sys.accepted = sys.delivered ++ rest ∧
        rest.length = sys.state.fifo.dataLen.toNat) ∧
      sys.state.fifo.dataLen.toNat ≤
        sys.state.fifo.size.toNat ∧
      sys.state.fifo.writePos.toNat =
        (sys.state.fifo.readPos.toNat +
            sys.state.fifo.dataLen.toNat) %
          sys.state.fifo.size.toNat ∧
      sys.state.fifo.readPos.toNat <
        sys.state.fifo.size.toNat ∧
      sys.state.fifo.writePos.toNat <
        sys.state.fifo.size.toNat := by
  have hStart : (FifoSys.create stats size buffer).Inv :=
    ⟨⟨hSize, Nat.zero_le _, (Nat.zero_mod _).symm⟩, rfl⟩
  have hInv :=
    hRun.invariant FifoSys.Inv
      (fun _ _ _ hInv hStep => fifoStep_inv hInv hStep) hStart
  refine ⟨⟨_, hInv.stream, CyclicBuffer.length_cells _ _ _ _⟩,
    hInv.ok.len_le, hInv.ok.write_eq, hInv.ok.read_lt, ?_⟩
  rw [hInv.ok.write_eq]
  exact Nat.mod_lt _ (Nat.lt_of_le_of_lt (Nat.zero_le _)
    hInv.ok.read_lt)

theorem fifo_run_stream_four_bytes :
    ∃ sys,
      Run FifoStep
          (FifoSys.create ⟨0#64, 0#64, 0#64⟩ 4#32
            fun _ => 0#8)
          [.write (some fun i => BitVec.ofNat 8 i) 3#32,
            .read (some fun _ => 0#8) 2#32,
            .write (some fun _ => 7#8) 9#32] sys ∧
        ∃ rest, sys.accepted = sys.delivered ++ rest ∧
          rest.length = sys.state.fifo.dataLen.toNat := by
  have hRun :
      Run FifoStep
        (FifoSys.create ⟨0#64, 0#64, 0#64⟩ 4#32 fun _ => 0#8)
        [.write (some fun i => BitVec.ofNat 8 i) 3#32,
          .read (some fun _ => 0#8) 2#32,
          .write (some fun _ => 7#8) 9#32] _ :=
    .cons (.write rfl) (.cons (.read rfl)
      (.cons (.write rfl) (.nil _)))
  exact ⟨_, hRun, (fifo_run_stream (by decide) hRun).1⟩

end FeatherOS
