import FeatherOS.Net.Stream

/-
  What a socket receives from well-formed traffic, and what
  its reader gets.

  The bytes returned and the bytes held are those that were
  accepted, unless the length of a segment is so large that
  its sum with what is held wraps at 2^32.

  Key definitions include:
    * `Packet.WellFormedTcp`
    * `Packet.WellFormedUdp`
    * `trafficStep`
    * `Lossless`
    * `TrafficOk`

  Key theorems include:
    * `append_lossless_iff`
    * `trafficRun_lossless_iff`
-/

namespace FeatherOS

open CyclicBuffer (front)

--------------------
-- Well-Formed Traffic
--------------------

/- The data offset of a segment, in words of four bytes -/
def TcpHeader.words (hdr : TcpHeader) : Nat :=
  (hdr.dataOffset >>> 4).toNat

structure Packet.WellFormedTcp (skb : Packet) : Prop where
  words : 5 ≤ skb.tcpHeader.words
  reserved : skb.tcpHeader.dataOffset &&& 0x0F#8 = 0#8
  within : 4 * skb.tcpHeader.words ≤ skb.len.toNat

def Packet.tcpPayload (skb : Packet) : List U8 :=
  front (fun i => skb.data (4 * skb.tcpHeader.words + i))
    (skb.len.toNat - 4 * skb.tcpHeader.words)

/- The length in the header of a datagram -/
def UdpHeader.size (hdr : UdpHeader) : Nat :=
  (ipNtohs hdr.length).toNat

structure Packet.WellFormedUdp (skb : Packet) : Prop where
  header : sizeofUdpHeader.toNat ≤ skb.udpHeader.size
  within : skb.udpHeader.size ≤ skb.len.toNat

def Packet.udpPayload (skb : Packet) : List U8 :=
  front (fun i => skb.data (sizeofUdpHeader.toNat + i))
    (skb.udpHeader.size - sizeofUdpHeader.toNat)

/- The payload, where it fits in the remaining space -/
def Socket.accepts
    (sock : Socket)
    (payload : List U8) :
    List U8 :=
  if sock.recvLen.toNat + payload.length ≤
      tcpRcvBufSize.toNat then
    payload
  else
    []

/- The segment has data to be given to the reader. -/
def Packet.Delivers (skb : Packet) : Prop :=
  skb.tcpPayload ≠ [] ∧ skb.tcpHeader.Has tcpPsh ∧
    ¬ skb.tcpHeader.Has tcpRst

instance (skb : Packet) : Decidable skb.Delivers :=
  inferInstanceAs
    (Decidable
      (skb.tcpPayload ≠ [] ∧ skb.tcpHeader.Has tcpPsh ∧
        ¬ skb.tcpHeader.Has tcpRst))

--------------------
-- Runs
--------------------

/- What the reader got, and all payloads that were accepted -/
structure TrafficState where
  stream : StreamState
  accepted : List U8

def TrafficState.sock
    (s : TrafficState)
    (p : Addr) :
    Socket :=
  s.stream.net.socket p

inductive TrafficCall where
  | segment (skb : Packet)
  | datagram (skb : Packet)
  | tcpRecv (buf : Bytes) (len : U32)
  | udpRecvfrom (buf : Bytes) (len : U32)

/- The same as `StreamState.recv` for the other protocol -/
def StreamState.recvfrom
    (s : StreamState)
    (p : Addr)
    (buf : Bytes)
    (len : U32) :
    StreamState :=
  let answer := udpRecvfrom s.net (some p) (some buf) len
  ⟨answer.2.state,
    s.returned ++ front (answer.1.getD buf) answer.2.ret.toNat⟩

/- The packets that are delivered are given to the socket. -/
def trafficStep
    (p : Addr)
    (s : TrafficState) :
    TrafficCall → TrafficState → Prop
  | .segment skb, t =>
      skb.WellFormedTcp ∧
        tcpTarget s.stream.net skb = some p ∧
        t =
          ⟨⟨(tcpRx s.stream.net (some skb)).state,
            s.stream.returned⟩,
            s.accepted ++
              if skb.Delivers then
                (s.sock p).accepts skb.tcpPayload
              else
                []⟩
  | .datagram skb, t =>
      skb.WellFormedUdp ∧
        udpTarget s.stream.net skb = some p ∧
        t =
          ⟨⟨(udpRx s.stream.net (some skb)).state,
            s.stream.returned⟩,
            s.accepted ++ (s.sock p).accepts skb.udpPayload⟩
  | .tcpRecv buf len, t =>
      t = ⟨s.stream.recv p buf len, s.accepted⟩
  | .udpRecvfrom buf len, t =>
      t = ⟨s.stream.recvfrom p buf len, s.accepted⟩

/- Nothing was lost, nothing came twice or in another order. -/
def Lossless
    (p : Addr)
    (s : TrafficState) : Prop :=
  s.stream.returned ++ (s.sock p).held = s.accepted

/- The sum that is compared with the size does not wrap. -/
def TrafficOk
    (p : Addr)
    (s : TrafficState) :
    TrafficCall → Prop
  | .segment skb =>
      skb.Delivers →
        (s.sock p).recvLen.toNat + skb.tcpPayload.length < 2 ^ 32
  | _ => True

--------------------
-- Headers
--------------------

section Headers

variable {skb : Packet}

/- The offset of the source is the header length in bytes. -/
theorem offset_eq_words
    (hSkb : skb.WellFormedTcp) :
    skb.tcpHeader.offset.toNat = 4 * skb.tcpHeader.words := by
  have hLow := congrArg BitVec.toNat hSkb.reserved
  have hMask := Words.toNat_and_low skb.tcpHeader.dataOffset 4
    (by omega)
  have hZero : skb.tcpHeader.dataOffset.toNat % 2 ^ 4 = 0 := by
    rw [← hMask]
    exact hLow
  simp only [TcpHeader.offset, TcpHeader.words,
    BitVec.toNat_ushiftRight, Nat.shiftRight_eq_div_pow]
  omega

theorem tcpDataLen_wellFormed
    (hSkb : skb.WellFormedTcp) :
    (tcpDataLen skb).toNat = skb.tcpPayload.length := by
  have hOffset := offset_eq_words hSkb
  have hWithin := hSkb.within
  have hLen := skb.len.isLt
  rw [Packet.tcpPayload, CyclicBuffer.length_front, tcpDataLen,
    BitVec.toNat_sub, BitVec.toNat_setWidth, hOffset]
  omega

theorem udpDataLen_wellFormed
    (hSkb : skb.WellFormedUdp) :
    (udpDataLen skb).toNat = skb.udpPayload.length := by
  have hHeader := hSkb.header
  have hEight : sizeofUdpHeader.toNat = 8 := rfl
  have hSize := (ipNtohs skb.udpHeader.length).isLt
  rw [Packet.udpPayload, CyclicBuffer.length_front, udpDataLen,
    BitVec.toNat_sub, BitVec.toNat_setWidth]
  simp only [UdpHeader.size] at *
  omega

end Headers

--------------------
-- One Payload
--------------------

section Append

variable {sock : Socket}

theorem held_append_accepts
    {data : Bytes}
    {offset : Nat}
    {dataLen : U32}
    (hWrap : sock.recvLen.toNat + dataLen.toNat < 2 ^ 32) :
    (sock.append data offset dataLen).held =
      sock.held ++
        sock.accepts
          (front (fun i => data (offset + i)) dataLen.toNat) := by
  rw [append_held hWrap, Socket.accepts,
    CyclicBuffer.length_front]
  split
  next => rfl
  next => rw [List.append_nil]

/-
  A sum that wraps leaves less in the buffer than there was,
  so exactly those that do not wrap lose nothing.
-/
theorem append_lossless_iff
    (hFits : sock.recvLen.toNat ≤ tcpRcvBufSize.toNat)
    (data : Bytes)
    (offset : Nat)
    (dataLen : U32) :
    (sock.append data offset dataLen).held =
        sock.held ++
          sock.accepts
            (front (fun i => data (offset + i)) dataLen.toNat) ↔
      sock.recvLen.toNat + dataLen.toNat < 2 ^ 32 := by
  have hSize : tcpRcvBufSize.toNat = 65536 := by decide
  have hLen := dataLen.isLt
  refine ⟨?_, held_append_accepts⟩
  intro hHeld
  by_contra hWrap
  have hSmall : sock.recvLen + dataLen ≤ tcpRcvBufSize := by
    rw [BitVec.le_def, BitVec.toNat_add]
    omega
  have hCount := congrArg List.length hHeld
  rw [List.length_append, length_held, length_held,
    Socket.append, if_pos hSmall] at hCount
  simp only [BitVec.toNat_add] at hCount
  omega

/- The flags do not touch what is held. -/
theorem onSegment_held_eq
    (skb : Packet) :
    (sock.onSegment skb).held = (sock.onPush skb).held := by
  have hFin : ∀ sock : Socket,
      (sock.onFin skb.tcpHeader).held = sock.held := by
    intro sock
    unfold Socket.onFin
    split <;> rfl
  have hSyn : ∀ sock : Socket,
      ((sock.onSyn skb.tcpHeader).onPush skb).held =
        (sock.onPush skb).held := by
    intro sock
    unfold Socket.onSyn
    split
    next =>
      simp only [Socket.onPush, Socket.append]
      split_ifs <;> rfl
    next => rfl
  have hAck : ∀ sock : Socket,
      ((sock.onAck skb.tcpHeader).onPush skb).held =
        (sock.onPush skb).held := by
    intro sock
    unfold Socket.onAck
    split
    next =>
      simp only [Socket.onPush, Socket.append]
      split_ifs <;> rfl
    next => rfl
  simp only [Socket.onSegment, hFin, hAck, hSyn]

end Append

--------------------
-- One Step
--------------------

structure Receiving
    (p : Addr)
    (s : TrafficState) : Prop where
  fits : (s.sock p).recvLen.toNat ≤ tcpRcvBufSize.toNat
  lossless : Lossless p s

section Step

variable {p : Addr}
variable {s t : TrafficState}

/- Only what is held decides about a packet. -/
theorem lossless_packet_iff
    (hLossless : Lossless p s)
    (net : NetState)
    (payload : List U8) :
    Lossless p
        ⟨⟨net, s.stream.returned⟩, s.accepted ++ payload⟩ ↔
      (net.socket p).held = (s.sock p).held ++ payload := by
  rw [Lossless, ← hLossless, List.append_assoc]
  exact List.append_right_inj s.stream.returned

theorem accepts_fits
    {sock : Socket}
    (hFits : sock.recvLen.toNat ≤ tcpRcvBufSize.toNat)
    (payload : List U8) :
    sock.recvLen.toNat + (sock.accepts payload).length ≤
      tcpRcvBufSize.toNat := by
  unfold Socket.accepts
  split
  next hRoom => exact hRoom
  next => exact hFits

variable {net : NetState}

/- What is held after a packet still fits. -/
theorem Receiving.packet
    (hReceiving : Receiving p s)
    {payload : List U8}
    (hFits : (s.sock p).recvLen.toNat + payload.length ≤
      tcpRcvBufSize.toNat)
    (hHeld : (net.socket p).held = (s.sock p).held ++ payload) :
    Receiving p
      ⟨⟨net, s.stream.returned⟩, s.accepted ++ payload⟩ := by
  refine ⟨?_, ?_⟩
  · have hCount := congrArg List.length hHeld
    rw [List.length_append, length_held, length_held] at hCount
    change (net.socket p).recvLen.toNat ≤ tcpRcvBufSize.toNat
    rw [hCount]
    exact hFits
  · exact (lossless_packet_iff hReceiving.lossless _ _).mpr hHeld

variable {skb : Packet}

/- A well-formed segment is delivered if it is pushed. -/
theorem delivers_iff
    (hSkb : skb.WellFormedTcp) :
    skb.Delivers ↔ skb.Pushes ∧ ¬ skb.tcpHeader.Has tcpRst := by
  have hSome : skb.tcpPayload ≠ [] ↔ 0#32 < tcpDataLen skb := by
    rw [BitVec.lt_def, tcpDataLen_wellFormed hSkb,
      ← List.length_pos_iff]
    rfl
  rw [Packet.Delivers, Packet.Pushes, hSome, and_assoc]

theorem tcpRx_held
    (hSkb : skb.WellFormedTcp)
    (hTarget : tcpTarget net skb = some p) :
    ((tcpRx net (some skb)).state.socket p).held =
      if skb.Delivers then
        ((net.socket p).append skb.data
          (4 * skb.tcpHeader.words) (tcpDataLen skb)).held
      else
        (net.socket p).held := by
  have hLong : ¬ skb.len < sizeofTcpHeader := by
    have hWords := hSkb.words
    have hWithin := hSkb.within
    have hTwenty : sizeofTcpHeader.toNat = 20 := rfl
    rw [BitVec.lt_def]
    omega
  simp only [tcpRx, if_neg hLong, hTarget, delivers_iff hSkb]
  by_cases hRst : skb.tcpHeader.Has tcpRst
  · have hNot :
        ¬ (skb.Pushes ∧ ¬ skb.tcpHeader.Has tcpRst) :=
      fun h => h.2 hRst
    rw [if_pos hRst, if_neg hNot, tcpSetState_eq,
      NetState.modifySocket_self]
    rfl
  · rw [if_neg hRst, NetState.modifySocket_self,
      onSegment_held_eq, Socket.onPush,
      offset_eq_words hSkb]
    by_cases hPush : skb.Pushes
    · rw [if_pos hPush, if_pos ⟨hPush, hRst⟩]
    · rw [if_neg hPush, if_neg fun h => hPush h.1]

theorem udpRx_held
    (hSkb : skb.WellFormedUdp)
    (hTarget : udpTarget net skb = some p) :
    ((udpRx net (some skb)).state.socket p).held =
      ((net.socket p).append skb.data sizeofUdpHeader.toNat
        (udpDataLen skb)).held := by
  have hLong : ¬ skb.len < sizeofUdpHeader :=
    Nat.not_lt.mpr (Nat.le_trans hSkb.header hSkb.within)
  simp only [udpRx, if_neg hLong, hTarget,
    NetState.modifySocket_self]

/- A segment loses nothing if and only if no sum wraps. -/
theorem segment_held_iff
    (hReceiving : Receiving p s)
    (hSkb : skb.WellFormedTcp)
    (hTarget : tcpTarget s.stream.net skb = some p) :
    ((tcpRx s.stream.net (some skb)).state.socket p).held =
        ((s.sock p).held ++
          if skb.Delivers then
            (s.sock p).accepts skb.tcpPayload
          else
            []) ↔
      TrafficOk p s (.segment skb) := by
  have hLen := tcpDataLen_wellFormed hSkb
  rw [tcpRx_held hSkb hTarget]
  by_cases hDelivers : skb.Delivers
  · have hPayload :
        front (fun i => skb.data (4 * skb.tcpHeader.words + i))
            (tcpDataLen skb).toNat =
          skb.tcpPayload := by
      rw [hLen, Packet.tcpPayload, CyclicBuffer.length_front]
    have hIff := append_lossless_iff hReceiving.fits skb.data
      (4 * skb.tcpHeader.words) (tcpDataLen skb)
    rw [hPayload, hLen] at hIff
    rw [if_pos hDelivers, if_pos hDelivers]
    exact hIff.trans ⟨fun h _ => h, fun h => h hDelivers⟩
  · rw [if_neg hDelivers, if_neg hDelivers, List.append_nil]
    exact iff_of_true rfl fun h => absurd h hDelivers

/- The length of a datagram is too small to wrap. -/
theorem datagram_held
    (hReceiving : Receiving p s)
    (hSkb : skb.WellFormedUdp)
    (hTarget : udpTarget s.stream.net skb = some p) :
    ((udpRx s.stream.net (some skb)).state.socket p).held =
      (s.sock p).held ++ (s.sock p).accepts skb.udpPayload := by
  have hFits := hReceiving.fits
  have hSize : tcpRcvBufSize.toNat = 65536 := by decide
  have hLen := udpDataLen_wellFormed hSkb
  have hShort : skb.udpPayload.length < 2 ^ 16 := by
    have hLength := (ipNtohs skb.udpHeader.length).isLt
    rw [Packet.udpPayload, CyclicBuffer.length_front,
      UdpHeader.size]
    omega
  have hPayload :
      front (fun i => skb.data (sizeofUdpHeader.toNat + i))
          (udpDataLen skb).toNat =
        skb.udpPayload := by
    rw [hLen, Packet.udpPayload, CyclicBuffer.length_front]
  rw [udpRx_held hSkb hTarget, ← hPayload]
  apply held_append_accepts
  rw [hLen]
  change (s.sock p).recvLen.toNat + _ < _
  omega

/- What is returned was held before. -/
theorem Receiving.recv
    (hReceiving : Receiving p s)
    (buf : Bytes)
    (len : U32) :
    Receiving p ⟨s.stream.recv p buf len, s.accepted⟩ := by
  have hFits := hReceiving.fits
  rcases recv_cases hFits buf len with
    hSame | ⟨count, hCount, hTaken⟩
  · rw [hSame]
    exact hReceiving
  · have hRest :=
      BitVec.toNat_sub_of_le (BitVec.le_def.mpr hCount)
    rw [hTaken]
    constructor
    · simp only [TrafficState.sock, NetState.modifySocket_self,
        Socket.take, hRest]
      change (s.sock p).recvLen.toNat - _ ≤ _
      omega
    · have hHeld := hReceiving.lossless
      rw [Lossless, TrafficState.sock, take_held hCount] at hHeld
      simp only [Lossless, TrafficState.sock,
        NetState.modifySocket_self]
      rw [List.append_assoc]
      exact hHeld

theorem trafficStep_decided
    {call : TrafficCall}
    (hReceiving : Receiving p s)
    (hStep : trafficStep p s call t) :
    (Lossless p t ↔ TrafficOk p s call) ∧
      (TrafficOk p s call → Receiving p t) := by
  cases call with
  | segment skb =>
      rcases hStep with ⟨hSkb, hTarget, rfl⟩
      have hIff := segment_held_iff hReceiving hSkb hTarget
      refine ⟨?_, ?_⟩
      · rw [lossless_packet_iff hReceiving.lossless]
        exact hIff
      · intro hOk
        refine hReceiving.packet ?_ (hIff.mpr hOk)
        split
        next => exact accepts_fits hReceiving.fits _
        next => exact hReceiving.fits
  | datagram skb =>
      rcases hStep with ⟨hSkb, hTarget, rfl⟩
      have hHeld := datagram_held hReceiving hSkb hTarget
      have hNext := hReceiving.packet
        (accepts_fits hReceiving.fits _) hHeld
      exact ⟨iff_of_true hNext.lossless trivial, fun _ => hNext⟩
  | tcpRecv buf len =>
      subst hStep
      have hNext := hReceiving.recv buf len
      exact ⟨iff_of_true hNext.lossless trivial, fun _ => hNext⟩
  | udpRecvfrom buf len =>
      subst hStep
      have hNext := hReceiving.recv buf len
      exact ⟨iff_of_true hNext.lossless trivial, fun _ => hNext⟩

end Step

/-
  The bytes returned and then the bytes held are the accepted
  payloads in every state of a run if and only if no delivered
  segment has a length whose sum with what is held wraps.
-/
theorem trafficRun_lossless_iff
    {p : Addr}
    {s t : TrafficState}
    {calls : List TrafficCall}
    (hEmpty : (s.sock p).recvLen = 0#32)
    (hReturned : s.stream.returned = [])
    (hAccepted : s.accepted = []) :
    Run (fun s call t => trafficStep p s call t ∧ Lossless p t)
        s calls t ↔
      Run (Guarded (TrafficOk p) (trafficStep p)) s calls t := by
  apply Run.guarded_iff (Receiving p)
  · intro s call t hReceiving hOk hStep
    exact (trafficStep_decided hReceiving hStep).2 hOk
  · intro s call t hReceiving hStep
    exact (trafficStep_decided hReceiving hStep).1
  · refine ⟨?_, ?_⟩
    · rw [hEmpty]
      exact Nat.zero_le _
    · rw [Lossless, hReturned, hAccepted, Socket.held, hEmpty]
      rfl

theorem peerSegment_words
    (seqNum flags : U8)
    (len : U32) :
    (peerSegment seqNum flags len).tcpHeader.words = 5 := by
  change (0x50#8 >>> 4).toNat = 5
  decide

theorem peerSegment_wellFormed
    (seqNum flags : U8)
    (len : U32)
    (hLen : 20 ≤ len.toNat) :
    (peerSegment seqNum flags len).WellFormedTcp where
  words := by
    rw [peerSegment_words]
  reserved := by
    change 0x50#8 &&& 0x0F#8 = 0#8
    decide
  within := by
    rw [peerSegment_words]
    exact hLen

theorem peerSegment_payload
    (seqNum flags : U8)
    (len : U32) :
    (peerSegment seqNum flags len).tcpPayload.length =
      len.toNat - 20 := by
  rw [Packet.tcpPayload, CyclicBuffer.length_front,
    peerSegment_words]
  rfl

theorem peerSegment_delivers
    (seqNum : U8)
    (len : U32)
    (hLen : 20 < len.toNat) :
    (peerSegment seqNum tcpPsh len).Delivers := by
  have hFlags :
      (peerSegment seqNum tcpPsh len).tcpHeader.flags = tcpPsh :=
    rfl
  refine ⟨?_, ?_, ?_⟩
  · apply List.ne_nil_of_length_pos
    rw [peerSegment_payload]
    omega
  all_goals
    unfold TcpHeader.Has
    rw [hFlags]
    decide

/- The connection of `connectedState`, with nothing received -/
def idleTraffic : TrafficState :=
  ⟨connectedState, []⟩

/- Two bytes are received and read one by one. -/
theorem trafficRun_lossless_iff_two :
    ∃ t, Run
      (fun s call t =>
        trafficStep 0x200000#64 s call t ∧
          Lossless 0x200000#64 t)
      idleTraffic
      [.segment (peerSegment 100#8 tcpPsh 22#32),
        .tcpRecv (fun _ => 0#8) 1#32,
        .udpRecvfrom (fun _ => 0#8) 9#32] t := by
  have hSkb := peerSegment_wellFormed 100#8 tcpPsh 22#32
    (by decide)
  have hRun : ∃ t, Run
      (Guarded (TrafficOk 0x200000#64)
        (trafficStep 0x200000#64))
      idleTraffic
      [.segment (peerSegment 100#8 tcpPsh 22#32),
        .tcpRecv (fun _ => 0#8) 1#32,
        .udpRecvfrom (fun _ => 0#8) 9#32] t := by
    refine ⟨_, .cons ⟨?_, hSkb, ?_, rfl⟩ (.cons ⟨trivial, rfl⟩
      (.cons ⟨trivial, rfl⟩ (.nil _)))⟩
    · intro _
      rw [peerSegment_payload]
      decide +kernel
    · decide +kernel
  rcases hRun with ⟨t, hRun⟩
  exact ⟨t, (trafficRun_lossless_iff (by decide +kernel) rfl
    rfl).mpr hRun⟩

/- After 21 bytes a segment of 2^32 - 1 bytes is delivered. -/
theorem large_segment_loses :
    ¬ ∀ (p : Addr) (s t : TrafficState)
        (calls : List TrafficCall),
      (s.sock p).recvLen = 0#32 → s.stream.returned = [] →
        s.accepted = [] → Run (trafficStep p) s calls t →
          Lossless p t := by
  intro hAll
  have hIdle : Receiving 0x200000#64 idleTraffic :=
    ⟨by decide +kernel, by unfold Lossless; decide +kernel⟩
  have hFirst := peerSegment_wellFormed 100#8 tcpPsh 41#32
    (by decide)
  have hLarge := peerSegment_wellFormed 121#8 tcpPsh
    0xFFFFFFFF#32 (by decide)
  have hStep : ∃ t, trafficStep 0x200000#64 idleTraffic
      (.segment (peerSegment 100#8 tcpPsh 41#32)) t ∧
      (t.sock 0x200000#64).recvLen = 21#32 ∧
      tcpTarget t.stream.net
          (peerSegment 121#8 tcpPsh 0xFFFFFFFF#32) =
        some 0x200000#64 := by
    refine ⟨_, ⟨hFirst, ?_, rfl⟩, ?_, ?_⟩ <;> decide +kernel
  rcases hStep with ⟨t, hStep, hRecv, hTarget⟩
  have hReceiving : Receiving 0x200000#64 t := by
    apply (trafficStep_decided hIdle hStep).2
    intro _
    rw [peerSegment_payload]
    decide +kernel
  have hNext : ∃ u, trafficStep 0x200000#64 t
      (.segment (peerSegment 121#8 tcpPsh 0xFFFFFFFF#32)) u :=
    ⟨_, hLarge, hTarget, rfl⟩
  rcases hNext with ⟨u, hNext⟩
  have hLossless := hAll 0x200000#64 idleTraffic u _
    (by decide +kernel) rfl rfl
    (.cons hStep (.cons hNext (.nil u)))
  have hOk :=
    (trafficStep_decided hReceiving hNext).1.mp hLossless
  have hSum := hOk (peerSegment_delivers _ _ (by decide))
  rw [hRecv, peerSegment_payload] at hSum
  revert hSum
  decide

end FeatherOS
