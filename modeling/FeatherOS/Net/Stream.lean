import FeatherOS.Library.Fields
import FeatherOS.Net.Bounds

/-
  What a connected socket hands to its reader.

  `tcp_rx` puts the data of every segment that has room behind
  what is held; it never compares the number of the segment
  with the next one expected.

  Key definitions include:
    * `Sender`
    * `streamStep`
    * `InOrder`
    * `Streaming`

  Key theorems include:
    * `streaming_step`
    * `streamRun_prefix`
-/

namespace FeatherOS

open CyclicBuffer (front)

--------------------
-- The Sender
--------------------

/- The data of a segment -/
def Packet.payload (skb : Packet) : List U8 :=
  front (fun i => skb.data (skb.tcpHeader.offset.toNat + i))
    (skb.len.toNat - skb.tcpHeader.offset.toNat)

/- A segment that only carries data -/
structure Packet.IsData (skb : Packet) : Prop where
  header : sizeofTcpHeader.toNat ≤ skb.len.toNat
  offset : skb.tcpHeader.offset.toNat ≤ skb.len.toNat
  push : skb.tcpHeader.Has tcpPsh
  noRst : ¬ skb.tcpHeader.Has tcpRst
  noSyn : ¬ skb.tcpHeader.Has tcpSyn
  noFin : ¬ skb.tcpHeader.Has tcpFin

def stream (segments : List Packet) : List U8 :=
  (segments.map Packet.payload).flatten

/- Where the data of a segment starts in the stream -/
def segmentStart
    (segments : List Packet)
    (i : Nat) :
    Nat :=
  Chunks.start (segments.map Packet.payload) i

/- The segments are numbered from `irs + 1` on. -/
structure Sender
    (irs : U32)
    (segments : List Packet) : Prop where
  data : ∀ skb ∈ segments, skb.IsData
  numbered : ∀ i skb, segments[i]? = some skb →
    skb.tcpHeader.seqNum =
      irs + 1#32 + BitVec.ofNat 32 (segmentStart segments i)

--------------------
-- The Network And The Reader
--------------------

structure StreamState where
  net : NetState
  returned : List U8

/- A copy of a segment arrives, or the reader reads. -/
inductive StreamCall where
  | deliver (i : Nat)
  | recv (buf : Bytes) (len : U32)

/- The bytes that one call returns are added. -/
def StreamState.recv
    (s : StreamState)
    (p : Addr)
    (buf : Bytes)
    (len : U32) :
    StreamState :=
  let answer := tcpRecv s.net (some p) (some buf) len
  ⟨answer.2.state,
    s.returned ++ front (answer.1.getD buf) answer.2.ret.toNat⟩

def streamStep
    (segments : List Packet)
    (p : Addr)
    (s : StreamState) :
    StreamCall → StreamState → Prop
  | .deliver i, t =>
      ∃ skb, segments[i]? = some skb ∧
        t = ⟨(tcpRx s.net (some skb)).state, s.returned⟩
  | .recv buf len, t => t = s.recv p buf len

/- The bytes received so far -/
def StreamState.received
    (s : StreamState)
    (p : Addr) :
    Nat :=
  s.returned.length + (s.net.socket p).recvLen.toNat

/-
  A segment with data that has room is the next one of the
  stream, and no sum of lengths wraps.
-/
def InOrder
    (segments : List Packet)
    (p : Addr)
    (s : StreamState) :
    StreamCall → Prop
  | .deliver i =>
      ∀ skb, segments[i]? = some skb → skb.payload ≠ [] →
        let sum :=
          (s.net.socket p).recvLen.toNat + skb.payload.length
        sum < 2 ^ 32 ∧
          (sum ≤ tcpRcvBufSize.toNat →
            s.received p = segmentStart segments i)
  | .recv _ _ => True

--------------------
-- One Socket
--------------------

/- The bytes a socket holds -/
def Socket.held (sock : Socket) : List U8 :=
  front sock.recvBuf sock.recvLen.toNat

/- Both ends of a socket are what they were. -/
structure Socket.SameEnds (new old : Socket) : Prop where
  localAddr : new.localAddr = old.localAddr
  localPort : new.localPort = old.localPort
  remoteAddr : new.remoteAddr = old.remoteAddr
  remotePort : new.remotePort = old.remotePort

section Socket

variable {sock : Socket}
variable {skb : Packet}

/- A segment that only carries data -/
theorem onSegment_data
    (hData : skb.IsData) :
    sock.onSegment skb =
      (sock.onAck skb.tcpHeader).onPush skb := by
  simp only [Socket.onSegment, Socket.onSyn, Socket.onFin,
    if_neg hData.noSyn, if_neg hData.noFin]

theorem onSegment_sameEnds
    (hData : skb.IsData) :
    (sock.onSegment skb).SameEnds sock := by
  rw [onSegment_data hData]
  unfold Socket.onPush Socket.append Socket.onAck
  split_ifs <;> exact ⟨rfl, rfl, rfl, rfl⟩

theorem onAck_held
    (hdr : TcpHeader) :
    (sock.onAck hdr).held = sock.held := by
  unfold Socket.onAck
  split <;> rfl

theorem length_held :
    sock.held.length = sock.recvLen.toNat :=
  CyclicBuffer.length_front _ _

theorem tcpDataLen_eq
    (hData : skb.IsData) :
    (tcpDataLen skb).toNat = skb.payload.length := by
  have hOffset := hData.offset
  have hLen := skb.len.isLt
  rw [Packet.payload, CyclicBuffer.length_front, tcpDataLen,
    BitVec.toNat_sub, BitVec.toNat_setWidth]
  omega

/- What is held after data has arrived -/
theorem append_held
    {data : Bytes}
    {offset : Nat}
    {dataLen : U32}
    (hWrap : sock.recvLen.toNat + dataLen.toNat < 2 ^ 32) :
    (sock.append data offset dataLen).held =
      if sock.recvLen.toNat + dataLen.toNat ≤
          tcpRcvBufSize.toNat then
        sock.held ++
          front (fun i => data (offset + i)) dataLen.toNat
      else
        sock.held := by
  unfold Socket.append
  simp only [recv_sum_le_iff hWrap]
  split
  next =>
    simp only [Socket.held, BitVec.toNat_add,
      Nat.mod_eq_of_lt hWrap]
    exact CyclicBuffer.front_copy_behind ..
  next => rfl

/- Its data joins what is held, where it has room. -/
theorem onSegment_held
    (hData : skb.IsData)
    (hWrap : skb.payload ≠ [] →
      sock.recvLen.toNat + skb.payload.length < 2 ^ 32) :
    (sock.onSegment skb).held =
      if sock.recvLen.toNat + skb.payload.length ≤
          tcpRcvBufSize.toNat then
        sock.held ++ skb.payload
      else
        sock.held := by
  have hLen := tcpDataLen_eq hData
  have hRecv := (Socket.onAck_follows sock skb.tcpHeader).recvLen
  rw [onSegment_data hData, Socket.onPush]
  by_cases hEmpty : skb.payload = []
  · have hNoPush : ¬ skb.Pushes := by
      rintro ⟨hSome, _⟩
      rw [BitVec.lt_def, hLen, hEmpty] at hSome
      exact Nat.lt_irrefl 0 hSome
    rw [if_neg hNoPush, onAck_held, hEmpty, List.append_nil,
      ite_self]
  · have hPush : skb.Pushes := by
      refine ⟨?_, hData.push⟩
      rw [BitVec.lt_def, hLen]
      exact List.length_pos_of_ne_nil hEmpty
    have hSum := hWrap hEmpty
    rw [← hLen, ← hRecv] at hSum
    have hPayload :
        front
            (fun i => skb.data (skb.tcpHeader.offset.toNat + i))
            skb.payload.length =
          skb.payload := by
      simp only [Packet.payload, CyclicBuffer.length_front]
    rw [if_pos hPush, append_held hSum, hRecv, hLen, onAck_held,
      hPayload]

/- What is taken and what is then held was held before. -/
theorem take_held
    {count : U32}
    (hCount : count.toNat ≤ sock.recvLen.toNat) :
    sock.held =
      front sock.recvBuf count.toNat ++ (sock.take count).held := by
  have hRest := BitVec.toNat_sub_of_le (BitVec.le_def.mpr hCount)
  have hSum :
      sock.recvLen.toNat =
        count.toNat + (sock.recvLen - count).toNat := by
    omega
  rw [Socket.held, hSum, CyclicBuffer.front_add]
  congr 1
  simp only [Socket.held, Socket.take]
  split
  next => exact (CyclicBuffer.front_copy_zero ..).symm
  next hNone =>
    have hZero : (sock.recvLen - count).toNat = 0 := by
      rw [gt_iff_lt, BitVec.lt_def] at hNone
      exact Nat.eq_zero_of_not_pos hNone
    simp only [hZero]
    rfl

end Socket

--------------------
-- One Step
--------------------

/- The segments get to the socket, in order so far. -/
structure Streaming
    (segments : List Packet)
    (p : Addr)
    (s : StreamState) : Prop where
  reaches : ∀ skb ∈ segments, tcpTarget s.net skb = some p
  fits : (s.net.socket p).recvLen.toNat ≤ tcpRcvBufSize.toNat
  begins : s.returned ++ (s.net.socket p).held <+: stream segments

section Step

variable {segments : List Packet}
variable {p : Addr}
variable {s t : StreamState}

/- The search only looks at the ends of the sockets. -/
theorem tcpTarget_modify
    {net : NetState}
    {f : Socket → Socket}
    (hEnds : ∀ sock, (f sock).SameEnds sock)
    (skb : Packet) :
    tcpTarget (net.modifySocket p f) skb = tcpTarget net skb := by
  unfold tcpTarget socketLookup
  congr 1
  funext q
  by_cases hSame : q = p
  · subst hSame
    have hQ := hEnds (net.socket q)
    apply decide_eq_decide.mpr
    simp only [NetState.modifySocket_self, SocketMatches,
      hQ.localAddr, hQ.localPort, hQ.remoteAddr, hQ.remotePort]
  · rw [NetState.modifySocket_ne net f hSame]

/- A segment of the sender changes its socket only. -/
theorem tcpRx_data
    {net : NetState}
    {skb : Packet}
    (hData : skb.IsData)
    (hTarget : tcpTarget net skb = some p) :
    (tcpRx net (some skb)).state =
      net.modifySocket p fun sock => sock.onSegment skb := by
  have hLong : ¬ skb.len < sizeofTcpHeader :=
    Nat.not_lt.mpr hData.header
  simp only [tcpRx, if_neg hLong, hTarget, if_neg hData.noRst]

theorem streaming_deliver
    {skb : Packet}
    {i : Nat}
    (hStreaming : Streaming segments p s)
    (hData : skb.IsData)
    (hAt : segments[i]? = some skb)
    (hOrder : InOrder segments p s (.deliver i)) :
    Streaming segments p
      ⟨(tcpRx s.net (some skb)).state, s.returned⟩ := by
  have hTarget :=
    hStreaming.reaches skb (List.mem_of_getElem? hAt)
  have hWrap : skb.payload ≠ [] →
      (s.net.socket p).recvLen.toNat + skb.payload.length <
        2 ^ 32 :=
    fun hSome => (hOrder skb hAt hSome).1
  have hHeld := onSegment_held hData hWrap
  rw [tcpRx_data hData hTarget]
  constructor
  · intro other hOther
    rw [tcpTarget_modify fun sock => onSegment_sameEnds hData]
    exact hStreaming.reaches other hOther
  · rw [NetState.modifySocket_self, ← length_held, hHeld]
    split
    next hRoom =>
      rw [List.length_append, length_held]
      exact hRoom
    next =>
      rw [length_held]
      exact hStreaming.fits
  · rw [NetState.modifySocket_self, hHeld]
    split
    next hRoom =>
      by_cases hEmpty : skb.payload = []
      · rw [hEmpty, List.append_nil]
        exact hStreaming.begins
      · have hStart := (hOrder skb hAt hEmpty).2 hRoom
        rw [← List.append_assoc]
        apply Chunks.extend hStreaming.begins
        · rw [List.getElem?_map, hAt, Option.map_some]
        · rw [List.length_append, length_held]
          exact hStart
    next => exact hStreaming.begins

/- Nothing is held, or its first bytes are returned. -/
theorem recv_cases
    (hFits : (s.net.socket p).recvLen.toNat ≤
      tcpRcvBufSize.toNat)
    (buf : Bytes)
    (len : U32) :
    s.recv p buf len = s ∨
      ∃ count : U32,
        count.toNat ≤ (s.net.socket p).recvLen.toNat ∧
          s.recv p buf len =
            ⟨s.net.modifySocket p fun sock => sock.take count,
              s.returned ++
                front (s.net.socket p).recvBuf count.toNat⟩ := by
  have hCount := (recvCount_le (s.net.socket p) len).1
  have hSize : tcpRcvBufSize.toNat = 65536 := by decide
  have hInt :
      ((s.net.socket p).recvCount len).toInt.toNat =
        ((s.net.socket p).recvCount len).toNat := by
    rw [BitVec.toInt_eq_toNat_of_lt (by omega)]
    rfl
  simp only [StreamState.recv, tcpRecv, receive]
  split
  next =>
    left
    rw [Int.toNat_zero, front, List.range_zero, List.map_nil,
      List.append_nil]
  next =>
    right
    refine ⟨(s.net.socket p).recvCount len, hCount, ?_⟩
    simp only [hInt, Option.getD_some,
      CyclicBuffer.front_copy_zero, Nat.zero_add]

theorem streaming_recv
    (hStreaming : Streaming segments p s)
    (buf : Bytes)
    (len : U32) :
    Streaming segments p (s.recv p buf len) := by
  have hFits := hStreaming.fits
  rcases recv_cases hFits buf len with
    hSame | ⟨count, hCount, hTaken⟩
  · rw [hSame]
    exact hStreaming
  · have hRest :=
      BitVec.toNat_sub_of_le (BitVec.le_def.mpr hCount)
    rw [hTaken]
    constructor
    · intro skb hSkb
      have hEnds : ∀ sock : Socket,
          (sock.take count).SameEnds sock :=
        fun sock => ⟨rfl, rfl, rfl, rfl⟩
      rw [tcpTarget_modify hEnds]
      exact hStreaming.reaches skb hSkb
    · rw [NetState.modifySocket_self]
      simp only [Socket.take, hRest]
      omega
    · rw [NetState.modifySocket_self, List.append_assoc,
        ← take_held hCount]
      exact hStreaming.begins

theorem streaming_step
    {irs : U32}
    {call : StreamCall}
    (hSender : Sender irs segments)
    (hStreaming : Streaming segments p s)
    (hOrder : InOrder segments p s call)
    (hStep : streamStep segments p s call t) :
    Streaming segments p t := by
  cases call with
  | deliver i =>
      rcases hStep with ⟨skb, hAt, rfl⟩
      have hData := hSender.data skb (List.mem_of_getElem? hAt)
      exact streaming_deliver hStreaming hData hAt hOrder
  | recv buf len =>
      subst hStep
      exact streaming_recv hStreaming buf len

end Step

/-
  If every segment that has room is the next one, whatever is
  lost or comes twice, the bytes returned are the beginning of
  the stream.
-/
theorem streamRun_prefix
    {segments : List Packet}
    {p : Addr}
    {s t : StreamState}
    {calls : List StreamCall}
    (hSender : Sender (s.net.socket p).irs segments)
    (hConnected : ∀ skb ∈ segments, tcpTarget s.net skb = some p)
    (hEmpty : (s.net.socket p).recvLen = 0#32)
    (hReturned : s.returned = [])
    (hRun : Run (Guarded (InOrder segments p)
      (streamStep segments p)) s calls t) :
    t.returned <+: stream segments := by
  have hStart : Streaming segments p s := by
    refine ⟨hConnected, ?_, ?_⟩
    · rw [hEmpty]
      exact Nat.zero_le _
    · rw [hReturned, Socket.held, hEmpty]
      exact List.nil_prefix
  have hEnd : Streaming segments p t := by
    apply hRun.invariant (Streaming segments p)
    · intro s call t hStreaming hStep
      exact streaming_step hSender hStreaming hStep.1 hStep.2
    · exact hStart
  exact (List.prefix_append _ _).trans hEnd.begins

/- A segment from port 1234 to port 7, with up to two bytes -/
def peerSegment
    (seqNum flags : U8)
    (len : U32) :
    Packet where
  data := fun i =>
    match i with
    | 0 => 0xD2#8
    | 1 => 0x04#8
    | 2 => 7#8
    | 4 => seqNum
    | 12 => 0x50#8
    | 13 => flags
    | 20 => 0x41#8
    | 21 => 0x42#8
    | _ => 0#8
  len := len

theorem peerSegment_isData
    (seqNum : U8)
    {len : U32}
    (hLen : 20 ≤ len.toNat) :
    (peerSegment seqNum tcpPsh len).IsData := by
  have hOffset :
      (peerSegment seqNum tcpPsh len).tcpHeader.offset.toNat =
        20 := by
    change (0x50#8 >>> 2).toNat = 20
    decide
  refine ⟨hLen, ?_, ?_, ?_, ?_, ?_⟩
  · rw [hOffset]
    exact hLen
  all_goals
    have hFlags :
        (peerSegment seqNum tcpPsh len).tcpHeader.flags =
          tcpPsh := rfl
    unfold TcpHeader.Has
    rw [hFlags]
    decide

/- A connection to port 1234, whose SYN has the number 99 -/
def connectedCalls : List NetCall :=
  boundCalls ++
    [.connect (some 0x200000#64) (some ipAny) 1234#16,
      .tcpRx (some (peerSegment 99#8 tcpSyn 20#32))]

def connectedState : StreamState :=
  ⟨netAfter connectedCalls, []⟩

/- The bytes 0x41 and 0x42, and then 0x41 -/
def twoSegments : List Packet :=
  [peerSegment 100#8 tcpPsh 22#32, peerSegment 102#8 tcpPsh 21#32]

theorem twoSegments_sender :
    Sender (connectedState.net.socket 0x200000#64).irs
      twoSegments where
  data := by
    simp only [twoSegments, List.forall_mem_cons]
    exact ⟨peerSegment_isData _ (by decide),
      peerSegment_isData _ (by decide), nofun⟩
  numbered := by
    intro i skb hAt
    match i with
    | 0 =>
        cases hAt
        decide +kernel
    | 1 =>
        cases hAt
        decide +kernel
    | i + 2 => cases hAt

theorem twoSegments_connected :
    ∀ skb ∈ twoSegments,
      tcpTarget connectedState.net skb = some 0x200000#64 := by
  decide +kernel

/- One byte is read before the second segment comes. -/
theorem streamRun_prefix_two :
    ∃ t, Run (streamStep twoSegments 0x200000#64) connectedState
        [.deliver 0, .recv (fun _ => 0#8) 1#32, .deliver 1,
          .recv (fun _ => 0#8) 9#32] t ∧
      t.returned <+: stream twoSegments := by
  have hRun :
      ∃ t, Run
        (Guarded (InOrder twoSegments 0x200000#64)
          (streamStep twoSegments 0x200000#64))
        connectedState
        [.deliver 0, .recv (fun _ => 0#8) 1#32, .deliver 1,
          .recv (fun _ => 0#8) 9#32] t := by
    refine ⟨_, .cons ⟨?_, _, rfl, rfl⟩ (.cons ⟨trivial, rfl⟩
      (.cons ⟨?_, _, rfl, rfl⟩ (.cons ⟨trivial, rfl⟩
        (.nil _))))⟩
    · rintro skb ⟨⟩ _
      decide +kernel
    · rintro skb ⟨⟩ _
      decide +kernel
  rcases hRun with ⟨t, hRun⟩
  exact ⟨t, hRun.of_guarded,
    streamRun_prefix twoSegments_sender twoSegments_connected
      (by decide +kernel) rfl hRun⟩

/- The first segment arrives twice, and is returned twice. -/
theorem duplicate_returned :
    ¬ ∀ (segments : List Packet) (p : Addr)
        (s t : StreamState) (calls : List StreamCall),
      Sender (s.net.socket p).irs segments →
        (∀ skb ∈ segments, tcpTarget s.net skb = some p) →
          (s.net.socket p).recvLen = 0#32 → s.returned = [] →
            Run (streamStep segments p) s calls t →
              t.returned <+: stream segments := by
  intro hAll
  have hPrefix := hAll twoSegments 0x200000#64 connectedState _
    [.deliver 0, .deliver 0, .recv (fun _ => 0#8) 9#32]
    twoSegments_sender twoSegments_connected (by decide +kernel)
    rfl
    (.cons ⟨_, rfl, rfl⟩ (.cons ⟨_, rfl, rfl⟩
      (.cons rfl (.nil _))))
  have hLen := hPrefix.length_le
  revert hLen
  decide +kernel

end FeatherOS
