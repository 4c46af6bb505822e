import FeatherOS.Library.Run
import FeatherOS.Net.Records

/-
  The buffers of the sockets.

  Sums of 32-bit lengths wrap before they are compared with
  the size of a buffer, and a length in a header may be
  smaller or larger than what the packet holds.

  Key definitions include:
    * `NetFits`
    * `NetGood`
    * `NetCallOk`

  Key theorems include:
    * `appendCopies_inBounds_iff`
    * `netStep_decided`
    * `netRun_bounded_iff`
-/

namespace FeatherOS

--------------------
-- The Property
--------------------

/- A copy stays inside what is read and what is written. -/
structure Copy.InBounds (c : Copy) : Prop where
  read : c.readAt + c.length ≤ c.source
  write : c.writeAt + c.length ≤ c.target

structure Socket.Fits (sock : Socket) : Prop where
  recv : sock.recvLen.toNat ≤ tcpRcvBufSize.toNat
  send : sock.sendLen.toNat ≤ tcpSndBufSize.toNat

abbrev NetFits (s : NetState) : Prop :=
  AllSockets Socket.Fits s

structure NetGood
    (s : NetState)
    (call : NetCall)
    (t : NetState) : Prop where
  fits : NetFits t
  inBounds : ∀ copies, netCall s call = some (copies, t) →
    ∀ c ∈ copies, c.InBounds

/-
  The data of a segment, seen from what the buffer holds. The
  data may start behind the end of the segment.
-/
def TcpFits
    (sock : Socket)
    (skb : Packet) : Prop :=
  let offset := skb.tcpHeader.offset.toNat
  if offset ≤ skb.len.toNat then
    sock.recvLen.toNat + (skb.len.toNat - offset) < 2 ^ 32
  else
    sock.recvLen.toNat + skb.len.toNat < offset

/-
  The length in a datagram covers its header. Where the data
  has room, the datagram is as long as it says.
-/
def UdpFits
    (sock : Socket)
    (skb : Packet) : Prop :=
  let length := (ipNtohs skb.udpHeader.length).toNat
  if sizeofUdpHeader.toNat ≤ length then
    sock.recvLen.toNat + (length - sizeofUdpHeader.toNat) ≤
        tcpRcvBufSize.toNat →
      length ≤ skb.len.toNat
  else
    sock.recvLen.toNat + length < sizeofUdpHeader.toNat

/- The calls that copy inside the buffers. -/
def NetCallOk
    (s : NetState) :
    NetCall → Prop
  | .tcpSend (some p) (some _) len =>
      (s.socket p).tcpState = .established ∨
          (s.socket p).tcpState = .closeWait →
        (s.socket p).sendLen.toNat + len.toNat < 2 ^ 32
  | .tcpRx (some skb) =>
      sizeofTcpHeader.toNat ≤ skb.len.toNat →
        ∀ p, tcpTarget s skb = some p →
          ¬ skb.tcpHeader.Has tcpRst →
            skb.tcpHeader.Has tcpPsh → TcpFits (s.socket p) skb
  | .udpRx (some skb) =>
      sizeofUdpHeader.toNat ≤ skb.len.toNat →
        ∀ p, udpTarget s skb = some p → UdpFits (s.socket p) skb
  | _ => True

theorem Socket.Fits.of_follows
    {new old : Socket}
    (hFollows : new.Follows old)
    (hFits : old.Fits) :
    new.Fits := by
  refine ⟨?_, ?_⟩
  · rw [hFollows.recvLen]
    exact hFits.recv
  · rw [hFollows.sendLen]
    exact hFits.send

--------------------
-- Data At The End Of A Buffer
--------------------

section Append

variable {sock : Socket}
variable {skb : Packet}
variable {offset : Nat}
variable {dataLen : U32}

/- The sum does not wrap, and what has room was received. -/
def AppendFits
    (sock : Socket)
    (skb : Packet)
    (offset : Nat)
    (dataLen : U32) : Prop :=
  sock.recvLen.toNat + dataLen.toNat < 2 ^ 32 ∧
    (sock.recvLen.toNat + dataLen.toNat ≤
        tcpRcvBufSize.toNat →
      offset + dataLen.toNat ≤ skb.len.toNat)

theorem recv_sum_le_iff
    (hWrap : sock.recvLen.toNat + dataLen.toNat < 2 ^ 32) :
    sock.recvLen + dataLen ≤ tcpRcvBufSize ↔
      sock.recvLen.toNat + dataLen.toNat ≤
        tcpRcvBufSize.toNat := by
  rw [BitVec.le_def, BitVec.toNat_add, Nat.mod_eq_of_lt hWrap]

/- A sum that wraps is small. -/
theorem recv_sum_wraps
    (hFits : sock.Fits)
    (hWrap : ¬ sock.recvLen.toNat + dataLen.toNat < 2 ^ 32) :
    sock.recvLen + dataLen ≤ tcpRcvBufSize := by
  have hRecv := hFits.recv
  have hSize : tcpRcvBufSize.toNat = 65536 := by decide
  rw [BitVec.le_def, BitVec.toNat_add]
  omega

theorem appendCopies_inBounds_iff
    (hFits : sock.Fits) :
    (∀ c ∈ appendCopies sock skb offset dataLen, c.InBounds) ↔
      AppendFits sock skb offset dataLen := by
  have hSize : tcpRcvBufSize.toNat = 65536 := by decide
  by_cases hWrap :
      sock.recvLen.toNat + dataLen.toNat < 2 ^ 32
  · simp only [appendCopies, AppendFits, hWrap, true_and,
      recv_sum_le_iff hWrap]
    split
    next hRoom =>
      rw [List.forall_mem_singleton]
      constructor
      · intro hIn _
        exact hIn.read
      · intro hRead
        exact ⟨hRead hRoom, hRoom⟩
    next hFull =>
      exact iff_of_true nofun fun hRoom => absurd hRoom hFull
  · simp only [appendCopies, if_pos (recv_sum_wraps hFits hWrap)]
    rw [List.forall_mem_singleton]
    refine iff_of_false ?_ fun h => hWrap h.1
    intro hIn
    have hWrite := hIn.write
    simp only at hWrite
    omega

/- The length stays small even where the sum wrapped. -/
theorem Socket.Fits.append
    (hFits : sock.Fits)
    (data : Bytes) :
    (sock.append data offset dataLen).Fits := by
  unfold Socket.append
  split
  next hRoom =>
    refine ⟨?_, hFits.send⟩
    rw [BitVec.le_def] at hRoom
    exact hRoom
  next => exact hFits

theorem Socket.Fits.keptByData :
    KeptByData Socket.Fits where
  fresh _ _ _ _ _ _ := ⟨Nat.zero_le _, Nat.zero_le _⟩
  follows := Socket.Fits.of_follows
  append data _ _ hFits := hFits.append data

end Append

variable {sock : Socket}

/- The two conditions on headers say that the data fits. -/
theorem tcpFits_iff
    (hFits : sock.Fits)
    (skb : Packet) :
    TcpFits sock skb ↔
      AppendFits sock skb skb.tcpHeader.offset.toNat
        (tcpDataLen skb) := by
  have hRecv := hFits.recv
  have hSize : tcpRcvBufSize.toNat = 65536 := by decide
  have hOffset := skb.tcpHeader.offset.isLt
  have hLen := skb.len.isLt
  have hData :
      (tcpDataLen skb).toNat =
        (2 ^ 32 - skb.tcpHeader.offset.toNat + skb.len.toNat) %
          2 ^ 32 := by
    rw [tcpDataLen, BitVec.toNat_sub, BitVec.toNat_setWidth]
    omega
  simp only [TcpFits, AppendFits]
  split
  · have hDiff :
        (tcpDataLen skb).toNat =
          skb.len.toNat - skb.tcpHeader.offset.toNat := by
      omega
    rw [hDiff]
    omega
  · omega

variable {skb : Packet}

/- A segment without data fits. -/
theorem tcpFits_of_empty
    (hFits : sock.Fits)
    (hEmpty : ¬ 0#32 < tcpDataLen skb) :
    TcpFits sock skb := by
  have hRecv := hFits.recv
  have hSize : tcpRcvBufSize.toNat = 65536 := by decide
  have hOffset := skb.tcpHeader.offset.isLt
  have hLen := skb.len.isLt
  rw [tcpDataLen, BitVec.lt_def, BitVec.toNat_sub,
    BitVec.toNat_setWidth, BitVec.toNat_ofNat] at hEmpty
  simp only [TcpFits]
  split <;> omega

theorem udpFits_iff
    (hFits : sock.Fits)
    (skb : Packet) :
    UdpFits sock skb ↔
      AppendFits sock skb sizeofUdpHeader.toNat
        (udpDataLen skb) := by
  have hRecv := hFits.recv
  have hSize : tcpRcvBufSize.toNat = 65536 := by decide
  have hHeader : sizeofUdpHeader.toNat = 8 := by decide
  have hLength := (ipNtohs skb.udpHeader.length).isLt
  have hData :
      (udpDataLen skb).toNat =
        (2 ^ 32 - 8 + (ipNtohs skb.udpHeader.length).toNat) %
          2 ^ 32 := by
    rw [udpDataLen, BitVec.toNat_sub, BitVec.toNat_setWidth,
      hHeader]
    omega
  simp only [UdpFits, AppendFits, hSize, hHeader]
  split
  · have hDiff :
        (udpDataLen skb).toNat =
          (ipNtohs skb.udpHeader.length).toNat - 8 := by
      omega
    rw [hDiff]
    omega
  · omega

--------------------
-- The Copies Of A Call
--------------------

section Copies

variable {s : NetState}

/- The copies are in bounds if and only if the call is ok. -/
def NetDecided
    (s : NetState)
    (call : NetCall)
    (copies : List Copy)
    (t : NetState) : Prop :=
  ((∀ c ∈ copies, c.InBounds) ↔ NetCallOk s call) ∧ NetFits t

abbrev CopiesDecided
    (s : NetState)
    (call : NetCall)
    (answer : NetAnswer) : Prop :=
  NetDecided s call answer.copies answer.state

variable {call : NetCall}

/- Nothing is copied and nothing is changed. -/
theorem copiesDecided_refused
    (hFits : NetFits s)
    {ret : Int}
    (hOk : NetCallOk s call) :
    CopiesDecided s call ⟨ret, [], s⟩ :=
  ⟨iff_of_true nofun hOk, hFits⟩

/- The room is kept to if and only if the sum did not wrap. -/
theorem sendCount_spec
    (hFits : sock.Fits)
    (len : U32) :
    (sock.sendLen.toNat + (sock.sendCount len).toNat ≤
        tcpSndBufSize.toNat ↔
      sock.sendLen.toNat + len.toNat < 2 ^ 32) ∧
    (sock.sendCount len).toNat ≤ len.toNat ∧
    (sock.sendLen + sock.sendCount len).toNat ≤
      tcpSndBufSize.toNat := by
  have hSend := hFits.send
  have hSize : tcpSndBufSize.toNat = 65536 := by decide
  have hLen := len.isLt
  unfold Socket.sendCount
  split
  next hMore =>
    rw [gt_iff_lt, BitVec.lt_def, BitVec.toNat_add] at hMore
    rw [BitVec.toNat_add, BitVec.toNat_sub]
    omega
  next hRoom =>
    rw [gt_iff_lt, BitVec.lt_def, BitVec.toNat_add] at hRoom
    rw [BitVec.toNat_add]
    omega

theorem tcpSend_decided
    (hFits : NetFits s)
    (sock : Option Addr)
    (hKnown : ∀ p, sock = some p → p ∈ s.sockets)
    (data : Option Bytes)
    (len : U32) :
    CopiesDecided s (.tcpSend sock data len)
      (tcpSend s sock data len) := by
  cases sock with
  | none => exact copiesDecided_refused hFits trivial
  | some p =>
      cases data with
      | none => exact copiesDecided_refused hFits trivial
      | some data =>
          have hSock := hFits p (hKnown p rfl)
          have hSpec := sendCount_spec hSock len
          simp only [tcpSend]
          split
          next hState =>
            apply copiesDecided_refused hFits
            rintro (hOpen | hWait)
            · exact absurd hOpen hState.1
            · exact absurd hWait hState.2
          next hState =>
            have hState :
                (s.socket p).tcpState = .established ∨
                  (s.socket p).tcpState = .closeWait := by
              by_cases hOpen : (s.socket p).tcpState = .established
              · exact .inl hOpen
              · exact .inr (not_not.mp fun hWait =>
                  hState ⟨hOpen, hWait⟩)
            split
            next hZero =>
              apply copiesDecided_refused hFits
              intro _
              have hSend := hSock.send
              rw [hZero] at hSpec
              exact hSpec.1.mp hSend
            next =>
              refine ⟨?_, ?_⟩
              · rw [List.forall_mem_singleton]
                constructor
                · intro hIn _
                  exact hSpec.1.mp hIn.write
                · intro hOk
                  refine ⟨?_, hSpec.1.mpr (hOk hState)⟩
                  rw [Nat.zero_add]
                  exact hSpec.2.1
              · exact hFits.modify fun h => ⟨h.recv, hSpec.2.2⟩

theorem recvCount_le
    (sock : Socket)
    (len : U32) :
    (sock.recvCount len).toNat ≤ sock.recvLen.toNat ∧
      (sock.recvCount len).toNat ≤ len.toNat := by
  unfold Socket.recvCount
  split
  next hMore => exact ⟨Nat.le_refl _, Nat.le_of_lt hMore⟩
  next hLess => exact ⟨Nat.not_lt.mp hLess, Nat.le_refl _⟩

theorem takeCopies_inBounds
    {room count : U32}
    (hFits : sock.Fits)
    (hCount : count.toNat ≤ sock.recvLen.toNat)
    (hRoom : count.toNat ≤ room.toNat) :
    ∀ c ∈ takeCopies sock room count, c.InBounds := by
  have hRecv := hFits.recv
  have hRest := BitVec.toNat_sub_of_le (BitVec.le_def.mpr hCount)
  simp only [takeCopies, List.forall_mem_cons]
  refine ⟨⟨?_, ?_⟩, ?_⟩
  · simp only
    omega
  · simp only
    omega
  · split
    next =>
      rw [List.forall_mem_singleton]
      constructor <;>
        simp only [hRest] <;>
        omega
    next => exact nofun

theorem Socket.Fits.take
    {count : U32}
    (hFits : sock.Fits)
    (hCount : count.toNat ≤ sock.recvLen.toNat) :
    (sock.take count).Fits := by
  have hRecv := hFits.recv
  have hRest := BitVec.toNat_sub_of_le (BitVec.le_def.mpr hCount)
  refine ⟨?_, hFits.send⟩
  simp only [Socket.take, hRest]
  omega

/- Taking bytes off copies inside the buffer. -/
theorem receive_decided
    (hFits : NetFits s)
    (sock : Option Addr)
    (hKnown : ∀ p, sock = some p → p ∈ s.sockets)
    (buf : Option Bytes)
    (len : U32) :
    (∀ c ∈ (receive s sock buf len).2.copies, c.InBounds) ∧
      NetFits (receive s sock buf len).2.state := by
  cases sock with
  | none => exact ⟨nofun, hFits⟩
  | some p =>
      cases buf with
      | none => exact ⟨nofun, hFits⟩
      | some buf =>
          have hSock := hFits p (hKnown p rfl)
          have hCount := recvCount_le (s.socket p) len
          simp only [receive]
          split
          next => exact ⟨nofun, hFits⟩
          next =>
            exact
              ⟨takeCopies_inBounds hSock hCount.1 hCount.2,
                hFits.modify fun h => h.take hCount.1⟩

/- What a packet's socket is -/
theorem tcpTarget_mem
    {p : Addr}
    (hTarget : tcpTarget s skb = some p) :
    p ∈ s.sockets :=
  List.mem_of_find?_eq_some hTarget

theorem udpTarget_mem
    {p : Addr}
    (hTarget : udpTarget s skb = some p) :
    p ∈ s.sockets :=
  List.mem_of_find?_eq_some hTarget

theorem tcpRx_decided
    (hFits : NetFits s)
    (skb : Option Packet) :
    CopiesDecided s (.tcpRx skb) (tcpRx s skb) := by
  refine ⟨?_, hFits.tcpRx Socket.Fits.keptByData skb⟩
  cases skb with
  | none => exact iff_of_true nofun trivial
  | some skb =>
      have hGiven := tcpRx_delivery s skb
      generalize tcpRx s (some skb) = answer at hGiven ⊢
      cases hGiven with
      | dropped hNone =>
          refine iff_of_true nofun fun hLong p hTarget => ?_
          rw [hNone hLong] at hTarget
          cases hTarget
      | reset p _ _ hRst =>
          refine iff_of_true nofun fun _ q _ hNoRst => ?_
          exact absurd hRst hNoRst
      | taken p hLong hTarget hNoRst =>
          have hSock := hFits p (tcpTarget_mem hTarget)
          have hData := tcpFits_iff hSock skb
          split
          next hPush =>
            rw [appendCopies_inBounds_iff hSock, ← hData]
            constructor
            · intro hFit _ q hSame _ _
              rw [hTarget] at hSame
              cases hSame
              exact hFit
            · intro hOk
              exact hOk hLong p hTarget hNoRst hPush.2
          next hNoPush =>
            refine iff_of_true nofun ?_
            intro _ q hSame _ hPsh
            rw [hTarget] at hSame
            cases hSame
            exact tcpFits_of_empty hSock
              (fun hSome => hNoPush ⟨hSome, hPsh⟩)

theorem udpRx_decided
    (hFits : NetFits s)
    (skb : Option Packet) :
    CopiesDecided s (.udpRx skb) (udpRx s skb) := by
  refine ⟨?_, hFits.udpRx Socket.Fits.keptByData skb⟩
  cases skb with
  | none => exact iff_of_true nofun trivial
  | some skb =>
      have hGiven := udpRx_delivery s skb
      generalize udpRx s (some skb) = answer at hGiven ⊢
      cases hGiven with
      | dropped hNone =>
          refine iff_of_true nofun fun hLong p hTarget => ?_
          rw [hNone hLong] at hTarget
          cases hTarget
      | taken p hLong hTarget =>
          have hSock := hFits p (udpTarget_mem hTarget)
          rw [appendCopies_inBounds_iff hSock,
            ← udpFits_iff hSock skb]
          constructor
          · intro hFit _ q hSame
            rw [hTarget] at hSame
            cases hSame
            exact hFit
          · intro hOk
            exact hOk hLong p hTarget

theorem netCallOk_of_control
    (hControl : call.IsControl) :
    NetCallOk s call := by
  cases call with
  | tcpSend _ _ _ => exact hControl.elim
  | tcpRx _ => exact hControl.elim
  | udpRx _ => exact hControl.elim
  | _ => trivial

theorem netCall_decided
    {t : NetState}
    {copies : List Copy}
    (hFits : NetFits s)
    (hKnown : ∀ p, call.sock = some p → p ∈ s.sockets)
    (hCall : netCall s call = some (copies, t)) :
    NetDecided s call copies t := by
  by_cases hControl : call.IsControl
  · rcases hFits.control Socket.Fits.keptByData.toKeptByControl
      hControl hCall with ⟨rfl, hAfter⟩
    refine ⟨iff_of_true nofun ?_, hAfter⟩
    exact netCallOk_of_control hControl
  cases call with
  | tcpSend sock data len =>
      cases hCall
      exact tcpSend_decided hFits sock hKnown data len
  | tcpRecv sock buf len =>
      cases hCall
      have hTake := receive_decided hFits sock hKnown buf len
      exact ⟨iff_of_true hTake.1 trivial, hTake.2⟩
  | udpRecvfrom sock buf len =>
      cases hCall
      have hTake := receive_decided hFits sock hKnown buf len
      exact ⟨iff_of_true hTake.1 trivial, hTake.2⟩
  | tcpRx skb =>
      cases hCall
      exact tcpRx_decided hFits skb
  | udpRx skb =>
      cases hCall
      exact udpRx_decided hFits skb
  | _ => exact absurd trivial hControl

theorem netStep_decided
    {t : NetState}
    (hFits : NetFits s)
    (hStep : netStep s call t) :
    (NetGood s call t ↔ NetCallOk s call) ∧ NetFits t := by
  rcases hStep with ⟨hKnown, copies, hCall⟩
  have hDecided := netCall_decided hFits hKnown hCall
  refine ⟨⟨?_, ?_⟩, hDecided.2⟩
  · intro hGood
    exact hDecided.1.mp (hGood.inBounds copies hCall)
  · intro hOk
    refine ⟨hDecided.2, ?_⟩
    intro copies' hSame
    rw [hCall] at hSame
    cases hSame
    exact hDecided.1.mpr hOk

end Copies

/-
  The copies of a run stay inside the buffers if and only if
  no sum of lengths wraps, no segment starts its data behind
  its end after data that is still held, and no datagram that
  has room is longer in its header than it is.
-/
theorem netRun_bounded_iff
    {s t : NetState}
    {calls : List NetCall}
    (hStart : s.sockets = []) :
    Run (fun s call t => netStep s call t ∧ NetGood s call t)
        s calls t ↔
      Run (Guarded NetCallOk netStep) s calls t := by
  apply Run.guarded_iff NetFits
  · intro s call t hFits _ hStep
    exact (netStep_decided hFits hStep).2
  · intro s call t hFits hStep
    exact (netStep_decided hFits hStep).1
  · intro p hp
    rw [hStart] at hp
    cases hp

theorem boundRun_ok :
    Run (Guarded NetCallOk netStep) netBooted boundCalls
      (netAfter boundCalls) := by
  refine .cons ⟨trivial, nofun, _, rfl⟩
    (.cons ⟨trivial, ?_, _, rfl⟩ (.nil _))
  rintro p ⟨⟩
  decide +kernel

/- One byte is received and read. -/
theorem netRun_bounded_iff_byte :
    ∃ t, Run
      (fun s call t => netStep s call t ∧ NetGood s call t)
      netBooted
      (boundCalls ++
        [.tcpRx (some (portSegment 0x50#8 tcpPsh 21#32)),
          .tcpRecv (some 0x200000#64) (some fun _ => 0#8) 9#32])
      t := by
  refine ⟨_, (netRun_bounded_iff rfl).mpr
    (boundRun_ok.append (.cons ⟨?_, nofun, _, rfl⟩
      (.cons ⟨trivial, ?_, _, rfl⟩ (.nil _))))⟩
  · intro _ p hTarget _ _
    have hSock :
        tcpTarget (netAfter boundCalls)
          (portSegment 0x50#8 tcpPsh 21#32) = some 0x200000#64 := by
      decide +kernel
    rw [hSock] at hTarget
    cases hTarget
    unfold TcpFits
    decide +kernel
  · rintro p ⟨⟩
    decide +kernel

/-
  One byte is held, and a segment of 20 bytes says that its
  data starts at byte 21: the copy has 2^32 - 1 bytes.
-/
theorem tcpRx_copies_beyond :
    ¬ ∀ (s t : NetState) (calls : List NetCall) (call : NetCall),
      Run netStep netBooted calls s → netStep s call t →
        NetGood s call t := by
  intro hAll
  have hRun :
      Run netStep netBooted
        (boundCalls ++
          [.tcpRx (some (portSegment 0x50#8 tcpPsh 21#32))])
        (netAfter
          (boundCalls ++
            [.tcpRx (some (portSegment 0x50#8 tcpPsh 21#32))])) :=
    boundRun.append
      (.cons ⟨nofun, _, rfl⟩ (.nil _))
  have hGood := hAll _ _ _
    (.tcpRx (some (portSegment 0x54#8 tcpPsh 20#32))) hRun
    ⟨nofun, _, rfl⟩
  have hIn := hGood.inBounds _ rfl
    ⟨20, 21, 65536, 1, 2 ^ 32 - 1⟩ (by decide +kernel)
  have hRead := hIn.read
  revert hRead
  decide

end FeatherOS
