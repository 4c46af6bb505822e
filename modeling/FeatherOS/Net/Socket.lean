import FeatherOS.Fifo.Model

/-
  The sockets of `kernel/net/tcpip.c`.

  The open sockets are a list of addresses, the newest first,
  and a map to the records. The copies a call makes are part
  of its answer. Statistics and messages are left out, and so
  is the buffer of a packet, which every path frees. A call
  that follows a null pointer answers `none`.

  Key definitions include:
    * `Socket`
    * `NetState`
    * `socketLookup`
    * `tcpRx`
    * `udpRx`
    * `netCall`
    * `netStep`

  Key theorems include:
    * `tcpSetState_eq`
-/

namespace FeatherOS

--------------------
-- Constants
--------------------

/- TCP_FIN and the other flags that are looked at -/
def tcpFin : U8 := 0x01#8
def tcpSyn : U8 := 0x02#8
def tcpRst : U8 := 0x04#8
def tcpPsh : U8 := 0x08#8
def tcpAck : U8 := 0x10#8

def ipProtoTcp : Int := 6
def ipProtoUdp : Int := 17

/- TCP_SND_WND and TCP_RCV_WND -/
def tcpWnd : U32 := 65535#32

/- TCP_SND_BUF_SIZE and TCP_RCV_BUF_SIZE -/
def tcpSndBufSize : U32 := 65536#32
def tcpRcvBufSize : U32 := 65536#32

def sizeofTcpHeader : U32 := 20#32
def sizeofUdpHeader : U32 := 8#32
def sizeofSocket : U64 := 272#64

def socketTypeStream : Int := 1
def socketTypeDgram : Int := 2
def socketFamilyInet : Int := 2

def socketStateAlloc : Int := 1
def socketStateBound : Int := 2
def socketStateListen : Int := 3
def socketStateConnect : Int := 4
def socketStateOpen : Int := 5

--------------------
-- State
--------------------

/- ip_addr_t -/
structure IpAddr where
  addr : Vector U8 4
  deriving DecidableEq

/- IP_ANY_ADDR -/
def ipAny : IpAddr := ⟨#v[0, 0, 0, 0]⟩

/- tcp_state_t -/
inductive TcpState where
  | closed
  | listen
  | synSent
  | synReceived
  | established
  | closeWait
  | finWait1
  | closing
  | lastAck
  | finWait2
  | timeWait
  deriving DecidableEq

/- tcp_window_t, without what is never written -/
structure TcpWindow where
  una : U32
  nxt : U32
  wnd : U32

/- socket_t, without its link -/
structure Socket where
  fd : Int
  type : Int
  family : Int
  protocol : Int
  state : Int
  localAddr : IpAddr
  localPort : U16
  remoteAddr : IpAddr
  remotePort : U16
  tcpState : TcpState
  sndWnd : TcpWindow
  rcvWnd : TcpWindow
  iss : U32
  irs : U32
  sendBuf : Bytes
  sendLen : U32
  recvBuf : Bytes
  recvLen : U32
  acceptQueue : Nat → Option Addr
  acceptCount : Int
  refcount : Int

structure NetState where
  heap : Heap
  sockets : List Addr
  socket : Addr → Socket
  nextFd : Int
  tcpIsn : U32

/- The data of a buffer that was received -/
structure Packet where
  data : Bytes
  len : U32

/- A copy of `length` bytes, and the sizes of both sides -/
structure Copy where
  source : Nat
  readAt : Nat
  target : Nat
  writeAt : Nat
  length : Nat
  deriving DecidableEq

/- The return value, the copies made and the state -/
structure NetAnswer where
  ret : Int
  copies : List Copy
  state : NetState

def NetState.modifySocket
    (s : NetState)
    (p : Addr)
    (f : Socket → Socket) :
    NetState :=
  { s with socket := Function.update s.socket p (f (s.socket p)) }

theorem NetState.modifySocket_self
    (s : NetState)
    (p : Addr)
    (f : Socket → Socket) :
    (s.modifySocket p f).socket p = f (s.socket p) :=
  Function.update_self ..

theorem NetState.modifySocket_ne
    (s : NetState)
    {p q : Addr}
    (f : Socket → Socket)
    (hNe : q ≠ p) :
    (s.modifySocket p f).socket q = s.socket q :=
  Function.update_of_ne hNe ..

/- Bytes copied to a place in a buffer -/
abbrev copyBytes
    (dest : Bytes)
    (start : Nat)
    (src : Bytes)
    (offset n : Nat) :
    Bytes :=
  CyclicBuffer.copy dest start src offset n

--------------------
-- Headers
--------------------

/- The numbers of a packet, the lowest byte first -/
def Bytes.u16
    (b : Bytes)
    (i : Nat) :
    U16 :=
  b (i + 1) ++ b i

def Bytes.u32
    (b : Bytes)
    (i : Nat) :
    U32 :=
  b (i + 3) ++ b (i + 2) ++ b (i + 1) ++ b i

/- The bytes of a number swapped, as `ip_htons` does too. -/
def ipNtohs (x : U16) : U16 :=
  ((x &&& 0xFF#16) <<< 8) ||| ((x >>> 8) &&& 0xFF#16)

/- tcp_header_t, as far as it is read -/
structure TcpHeader where
  srcPort : U16
  destPort : U16
  seqNum : U32
  ackNum : U32
  dataOffset : U8
  flags : U8

def Packet.tcpHeader (skb : Packet) : TcpHeader where
  srcPort := Bytes.u16 skb.data 0
  destPort := Bytes.u16 skb.data 2
  seqNum := Bytes.u32 skb.data 4
  ackNum := Bytes.u32 skb.data 8
  dataOffset := skb.data 12
  flags := skb.data 13

/- udp_header_t, as far as it is read -/
structure UdpHeader where
  srcPort : U16
  destPort : U16
  length : U16

def Packet.udpHeader (skb : Packet) : UdpHeader where
  srcPort := Bytes.u16 skb.data 0
  destPort := Bytes.u16 skb.data 2
  length := Bytes.u16 skb.data 4

/- A flag of a segment is set. -/
def TcpHeader.Has
    (hdr : TcpHeader)
    (flag : U8) : Prop :=
  hdr.flags &&& flag ≠ 0#8

instance
    (hdr : TcpHeader)
    (flag : U8) :
    Decidable (hdr.Has flag) :=
  inferInstanceAs (Decidable (hdr.flags &&& flag ≠ 0#8))

/- Where the data of a segment starts -/
def TcpHeader.offset (hdr : TcpHeader) : U8 :=
  hdr.dataOffset >>> 2

--------------------
-- The List Of Sockets
--------------------

/- A new record around two buffers -/
def newSocket
    (sendBuf recvBuf : Bytes)
    (fd family type protocol : Int) :
    Socket where
  fd := fd
  type := type
  family := family
  protocol := protocol
  state := socketStateAlloc
  localAddr := ipAny
  localPort := 0#16
  remoteAddr := ipAny
  remotePort := 0#16
  tcpState := .closed
  sndWnd := ⟨0#32, 0#32, 0#32⟩
  rcvWnd := ⟨0#32, 0#32, 0#32⟩
  iss := 0#32
  irs := 0#32
  sendBuf := sendBuf
  sendLen := 0#32
  recvBuf := recvBuf
  recvLen := 0#32
  acceptQueue := fun _ => none
  acceptCount := 0
  refcount := 1

/- The new buffers hold what was there before. -/
def socketCreate
    (s : NetState)
    (family type protocol : Int) :
    Option Addr × NetState :=
  match kmalloc s.heap sizeofSocket with
  | (none, heap) => (none, { s with heap := heap })
  | (some p, heap) =>
      let sendBuf := kmalloc heap (tcpSndBufSize.setWidth 64)
      let recvBuf :=
        kmalloc sendBuf.2 (tcpRcvBufSize.setWidth 64)
      let s :=
        { s with
          heap := recvBuf.2
          socket :=
            Function.update s.socket p
              (newSocket (s.socket p).sendBuf (s.socket p).recvBuf
                s.nextFd family type protocol)
          nextFd := s.nextFd + 1 }
      if sendBuf.1 = none ∨ recvBuf.1 = none then
        (none, s)
      else
        (some p, { s with sockets := p :: s.sockets })

def tcpSocket
    (s : NetState)
    (type protocol : Int) :
    Option Addr × NetState :=
  match socketCreate s socketFamilyInet type protocol with
  | (none, s) => (none, s)
  | (some p, s) =>
      (some p,
        s.modifySocket p fun sock =>
          { sock with
            tcpState := .closed
            sndWnd := { sock.sndWnd with wnd := tcpWnd }
            rcvWnd := { sock.rcvWnd with wnd := tcpWnd } })

def udpSocket
    (s : NetState)
    (type protocol : Int) :
    Option Addr × NetState :=
  socketCreate s socketFamilyInet type protocol

def socketBind
    (s : NetState)
    (sock : Option Addr)
    (addr : Option IpAddr)
    (port : U16) :
    Int × NetState :=
  match sock with
  | none => (-1, s)
  | some p =>
      (0,
        s.modifySocket p fun sock =>
          { sock with
            localAddr := addr.getD sock.localAddr
            localPort := port
            state := socketStateBound })

/- The last user takes the socket out of the list. -/
def socketClose
    (s : NetState)
    (sock : Option Addr) :
    Int × NetState :=
  match sock with
  | none => (-1, s)
  | some p =>
      let s :=
        s.modifySocket p fun sock =>
          { sock with refcount := sock.refcount - 1 }
      if (s.socket p).refcount > 0 then
        (0, s)
      else
        (0, { s with sockets := s.sockets.erase p })

/- The test that `socket_lookup` makes of one socket. -/
def SocketMatches
    (sock : Socket)
    (localIp : Option IpAddr)
    (localPort : U16)
    (remoteIp : Option IpAddr)
    (remotePort : U16) : Prop :=
  (sock.localPort = localPort ∧
      ∀ ip, localIp = some ip → sock.localAddr = ip) ∧
    (remotePort = 0#16 ∨
      sock.remotePort = remotePort ∧
        ∀ ip, remoteIp = some ip → sock.remoteAddr = ip)

instance
    (sock : Socket)
    (localIp : Option IpAddr)
    (localPort : U16)
    (remoteIp : Option IpAddr)
    (remotePort : U16) :
    Decidable
      (SocketMatches sock localIp localPort remoteIp remotePort) :=
  inferInstanceAs
    (Decidable
      ((sock.localPort = localPort ∧
          ∀ ip, localIp = some ip → sock.localAddr = ip) ∧
        (remotePort = 0#16 ∨
          sock.remotePort = remotePort ∧
            ∀ ip, remoteIp = some ip → sock.remoteAddr = ip)))

/- The protocol is not looked at. -/
def socketLookup
    (s : NetState)
    (localIp : Option IpAddr)
    (localPort : U16)
    (remoteIp : Option IpAddr)
    (remotePort : U16)
    (_protocol : Int) :
    Option Addr :=
  s.sockets.find? fun p =>
    SocketMatches (s.socket p) localIp localPort remoteIp
      remotePort

--------------------
-- Connections
--------------------

def tcpSetState
    (s : NetState)
    (p : Addr)
    (state : TcpState) :
    NetState :=
  if (s.socket p).tcpState ≠ state then
    s.modifySocket p fun sock => { sock with tcpState := state }
  else
    s

theorem tcpSetState_eq
    (s : NetState)
    (p : Addr)
    (state : TcpState) :
    tcpSetState s p state =
      s.modifySocket p fun sock =>
        { sock with tcpState := state } := by
  unfold tcpSetState
  split
  next => rfl
  next hSame =>
    rw [not_not] at hSame
    subst hSame
    simp only [NetState.modifySocket, Function.update_eq_self]

def tcpListen
    (s : NetState)
    (sock : Option Addr)
    (_backlog : Int) :
    Int × NetState :=
  match sock with
  | none => (-1, s)
  | some p =>
      (0,
        (tcpSetState s p .listen).modifySocket p fun sock =>
          { sock with
            state := socketStateListen
            acceptCount := 0 })

/- The queue without its first socket -/
def Socket.shiftQueue (sock : Socket) : Socket :=
  { sock with
    acceptQueue := fun i =>
      if (i : Int) < sock.acceptCount - 1 then
        sock.acceptQueue (i + 1)
      else
        sock.acceptQueue i
    acceptCount := sock.acceptCount - 1 }

/- A queued null pointer is followed. -/
def tcpAccept
    (s : NetState)
    (sock : Option Addr) :
    Option (Option Addr × NetState) :=
  match sock with
  | none => some (none, s)
  | some p =>
      if (s.socket p).tcpState ≠ .listen then
        some (none, s)
      else if (s.socket p).acceptCount ≤ 0 then
        some (none, s)
      else
        match (s.socket p).acceptQueue 0 with
        | none => none
        | some q =>
            let s := s.modifySocket p Socket.shiftQueue
            let s := tcpSetState s q .established
            some (some q,
              s.modifySocket q fun sock =>
                { sock with state := socketStateOpen })

/- The numbers of what is sent start at `isn`. -/
def Socket.sendFrom
    (sock : Socket)
    (isn : U32) :
    Socket :=
  { sock with
    iss := isn
    sndWnd := ⟨isn, isn, tcpWnd⟩ }

def tcpConnect
    (s : NetState)
    (sock : Option Addr)
    (addr : Option IpAddr)
    (port : U16) :
    Int × NetState :=
  match sock, addr with
  | some p, some addr =>
      let s :=
        s.modifySocket p fun sock =>
          { sock with remoteAddr := addr, remotePort := port }
      let s := tcpSetState s p .synSent
      let isn := s.tcpIsn + 1#32
      (0,
        { s.modifySocket p fun sock => sock.sendFrom isn with
          tcpIsn := isn })
  | _, _ => (-1, s)

def socketConnect
    (s : NetState)
    (sock : Option Addr)
    (addr : Option IpAddr)
    (port : U16) :
    Option (Int × NetState) :=
  match sock with
  | none => some (-1, s)
  | some p =>
      if (s.socket p).type = socketTypeStream then
        some (tcpConnect s (some p) addr port)
      else
        addr.map fun addr =>
          (0,
            s.modifySocket p fun sock =>
              { sock with
                remoteAddr := addr
                remotePort := port
                state := socketStateConnect })

/- The state that a close leads to -/
def TcpState.close : TcpState → TcpState
  | .listen => .closed
  | .synSent => .closed
  | .established => .finWait1
  | .closeWait => .lastAck
  | state => state

def tcpClose
    (s : NetState)
    (sock : Option Addr) :
    Int × NetState :=
  match sock with
  | none => (-1, s)
  | some p =>
      socketClose
        (tcpSetState s p (s.socket p).tcpState.close) (some p)

--------------------
-- Data Sent And Read
--------------------

/- As much of `len` bytes as there is room for -/
def Socket.sendCount
    (sock : Socket)
    (len : U32) :
    U32 :=
  if sock.sendLen + len > tcpSndBufSize then
    tcpSndBufSize - sock.sendLen
  else
    len

def tcpSend
    (s : NetState)
    (sock : Option Addr)
    (data : Option Bytes)
    (len : U32) :
    NetAnswer :=
  match sock, data with
  | some p, some data =>
      let sock := s.socket p
      if sock.tcpState ≠ .established ∧
          sock.tcpState ≠ .closeWait then
        ⟨-1, [], s⟩
      else
        let count := sock.sendCount len
        if count = 0#32 then
          ⟨-1, [], s⟩
        else
          ⟨count.toInt,
            [⟨len.toNat, 0, tcpSndBufSize.toNat,
              sock.sendLen.toNat, count.toNat⟩],
            s.modifySocket p fun sock =>
              { sock with
                sendBuf :=
                  copyBytes sock.sendBuf sock.sendLen.toNat data
                    0 count.toNat
                sendLen := sock.sendLen + count }⟩
  | _, _ => ⟨-1, [], s⟩

/- As much of `len` bytes as the buffer holds -/
def Socket.recvCount
    (sock : Socket)
    (len : U32) :
    U32 :=
  if sock.recvLen < len then sock.recvLen else len

/- The first bytes are taken and the rest is moved up. -/
def Socket.take
    (sock : Socket)
    (len : U32) :
    Socket :=
  let rest := sock.recvLen - len
  { sock with
    recvLen := rest
    recvBuf :=
      if rest > 0#32 then
        copyBytes sock.recvBuf 0 sock.recvBuf len.toNat
          rest.toNat
      else
        sock.recvBuf }

/- The copies that take `len` bytes for a caller of `room` -/
def takeCopies
    (sock : Socket)
    (room len : U32) :
    List Copy :=
  let size := tcpRcvBufSize.toNat
  let rest := sock.recvLen - len
  ⟨size, 0, room.toNat, 0, len.toNat⟩ ::
    if rest > 0#32 then
      [⟨size, len.toNat, size, 0, rest.toNat⟩]
    else
      []

/- What `tcp_recv` and `udp_recvfrom` both do. -/
def receive
    (s : NetState)
    (sock : Option Addr)
    (buf : Option Bytes)
    (len : U32) :
    Option Bytes × NetAnswer :=
  match sock, buf with
  | some p, some buf =>
      let sock := s.socket p
      if sock.recvLen = 0#32 then
        (some buf, ⟨0, [], s⟩)
      else
        let count := sock.recvCount len
        (some (copyBytes buf 0 sock.recvBuf 0 count.toNat),
          ⟨count.toInt, takeCopies sock len count,
            s.modifySocket p fun sock => sock.take count⟩)
  | _, buf => (buf, ⟨-1, [], s⟩)

def tcpRecv
    (s : NetState)
    (sock : Option Addr)
    (buf : Option Bytes)
    (len : U32) :
    Option Bytes × NetAnswer :=
  receive s sock buf len

/- The address of the sender is not stored. -/
def udpRecvfrom
    (s : NetState)
    (sock : Option Addr)
    (buf : Option Bytes)
    (len : U32) :
    Option Bytes × NetAnswer :=
  receive s sock buf len

--------------------
-- Packets
--------------------

/- Data behind what is in the buffer, if the sum is small -/
def Socket.append
    (sock : Socket)
    (data : Bytes)
    (offset : Nat)
    (dataLen : U32) :
    Socket :=
  if sock.recvLen + dataLen ≤ tcpRcvBufSize then
    { sock with
      recvBuf :=
        copyBytes sock.recvBuf sock.recvLen.toNat data offset
          dataLen.toNat
      recvLen := sock.recvLen + dataLen }
  else
    sock

def appendCopies
    (sock : Socket)
    (skb : Packet)
    (offset : Nat)
    (dataLen : U32) :
    List Copy :=
  if sock.recvLen + dataLen ≤ tcpRcvBufSize then
    [⟨skb.len.toNat, offset, tcpRcvBufSize.toNat,
      sock.recvLen.toNat, dataLen.toNat⟩]
  else
    []

def tcpDataLen (skb : Packet) : U32 :=
  skb.len - skb.tcpHeader.offset.setWidth 32

/- The segment has data and asks for its delivery. -/
def Packet.Pushes (skb : Packet) : Prop :=
  0#32 < tcpDataLen skb ∧ skb.tcpHeader.Has tcpPsh

instance (skb : Packet) : Decidable skb.Pushes :=
  inferInstanceAs
    (Decidable
      (0#32 < tcpDataLen skb ∧ skb.tcpHeader.Has tcpPsh))

/- What a segment does to its socket, flag by flag -/
def Socket.onSyn
    (sock : Socket)
    (hdr : TcpHeader) :
    Socket :=
  if hdr.Has tcpSyn then
    { sock with
      irs := hdr.seqNum
      rcvWnd := { sock.rcvWnd with nxt := hdr.seqNum + 1#32 }
      tcpState := .synReceived }
  else
    sock

def Socket.onAck
    (sock : Socket)
    (hdr : TcpHeader) :
    Socket :=
  if hdr.Has tcpAck then
    { sock with sndWnd := { sock.sndWnd with una := hdr.ackNum } }
  else
    sock

def Socket.onPush
    (sock : Socket)
    (skb : Packet) :
    Socket :=
  if skb.Pushes then
    sock.append skb.data skb.tcpHeader.offset.toNat
      (tcpDataLen skb)
  else
    sock

def Socket.onFin
    (sock : Socket)
    (hdr : TcpHeader) :
    Socket :=
  if hdr.Has tcpFin then
    { sock with tcpState := .closeWait }
  else
    sock

/- A segment without RST -/
def Socket.onSegment
    (sock : Socket)
    (skb : Packet) :
    Socket :=
  let hdr := skb.tcpHeader
  (((sock.onSyn hdr).onAck hdr).onPush skb).onFin hdr

/- The socket that a segment or a datagram is given to -/
def tcpTarget
    (s : NetState)
    (skb : Packet) :
    Option Addr :=
  socketLookup s (some ipAny) skb.tcpHeader.destPort
    (some ipAny) skb.tcpHeader.srcPort ipProtoTcp

def udpTarget
    (s : NetState)
    (skb : Packet) :
    Option Addr :=
  socketLookup s (some ipAny) skb.udpHeader.destPort
    (some ipAny) skb.udpHeader.srcPort ipProtoUdp

def tcpRx
    (s : NetState)
    (skb : Option Packet) :
    NetAnswer :=
  match skb with
  | none => ⟨-1, [], s⟩
  | some skb =>
      if skb.len < sizeofTcpHeader then
        ⟨-1, [], s⟩
      else
        match tcpTarget s skb with
        | none => ⟨-1, [], s⟩
        | some p =>
            if skb.tcpHeader.Has tcpRst then
              ⟨-1, [], tcpSetState s p .closed⟩
            else
              ⟨0,
                if skb.Pushes then
                  appendCopies (s.socket p) skb
                    skb.tcpHeader.offset.toNat (tcpDataLen skb)
                else
                  [],
                s.modifySocket p fun sock => sock.onSegment skb⟩

def udpDataLen (skb : Packet) : U32 :=
  (ipNtohs skb.udpHeader.length).setWidth 32 - sizeofUdpHeader

def udpRx
    (s : NetState)
    (skb : Option Packet) :
    NetAnswer :=
  match skb with
  | none => ⟨-1, [], s⟩
  | some skb =>
      if skb.len < sizeofUdpHeader then
        ⟨-1, [], s⟩
      else
        match udpTarget s skb with
        | none => ⟨-1, [], s⟩
        | some p =>
            ⟨0,
              appendCopies (s.socket p) skb sizeofUdpHeader.toNat
                (udpDataLen skb),
              s.modifySocket p fun sock =>
                sock.append skb.data sizeofUdpHeader.toNat
                  (udpDataLen skb)⟩

--------------------
-- Calls
--------------------

inductive NetCall where
  | tcpSocket (type protocol : Int)
  | udpSocket (type protocol : Int)
  | bind
      (sock : Option Addr)
      (addr : Option IpAddr)
      (port : U16)
  | listen (sock : Option Addr) (backlog : Int)
  | accept (sock : Option Addr)
  | tcpConnect
      (sock : Option Addr)
      (addr : Option IpAddr)
      (port : U16)
  | connect
      (sock : Option Addr)
      (addr : Option IpAddr)
      (port : U16)
  | tcpSend
      (sock : Option Addr)
      (data : Option Bytes)
      (len : U32)
  | tcpRecv
      (sock : Option Addr)
      (buf : Option Bytes)
      (len : U32)
  | udpRecvfrom
      (sock : Option Addr)
      (buf : Option Bytes)
      (len : U32)
  | tcpClose (sock : Option Addr)
  | close (sock : Option Addr)
  | tcpRx (skb : Option Packet)
  | udpRx (skb : Option Packet)

/- The socket that a call gets -/
def NetCall.sock : NetCall → Option Addr
  | .tcpSocket _ _ => none
  | .udpSocket _ _ => none
  | .bind sock _ _ => sock
  | .listen sock _ => sock
  | .accept sock => sock
  | .tcpConnect sock _ _ => sock
  | .connect sock _ _ => sock
  | .tcpSend sock _ _ => sock
  | .tcpRecv sock _ _ => sock
  | .udpRecvfrom sock _ _ => sock
  | .tcpClose sock => sock
  | .close sock => sock
  | .tcpRx _ => none
  | .udpRx _ => none

/- The copies of a call and the state it leaves -/
def netCall
    (s : NetState) :
    NetCall → Option (List Copy × NetState)
  | .tcpSocket type protocol =>
      some ([], (tcpSocket s type protocol).2)
  | .udpSocket type protocol =>
      some ([], (udpSocket s type protocol).2)
  | .bind sock addr port =>
      some ([], (socketBind s sock addr port).2)
  | .listen sock backlog =>
      some ([], (tcpListen s sock backlog).2)
  | .accept sock =>
      (tcpAccept s sock).map fun answer => ([], answer.2)
  | .tcpConnect sock addr port =>
      some ([], (tcpConnect s sock addr port).2)
  | .connect sock addr port =>
      (socketConnect s sock addr port).map fun answer =>
        ([], answer.2)
  | .tcpSend sock data len =>
      let answer := tcpSend s sock data len
      some (answer.copies, answer.state)
  | .tcpRecv sock buf len =>
      let answer := (tcpRecv s sock buf len).2
      some (answer.copies, answer.state)
  | .udpRecvfrom sock buf len =>
      let answer := (udpRecvfrom s sock buf len).2
      some (answer.copies, answer.state)
  | .tcpClose sock => some ([], (tcpClose s sock).2)
  | .close sock => some ([], (socketClose s sock).2)
  | .tcpRx skb =>
      let answer := tcpRx s skb
      some (answer.copies, answer.state)
  | .udpRx skb =>
      let answer := udpRx s skb
      some (answer.copies, answer.state)

/- The state that `socket_init` leaves -/
def netBooted : NetState where
  heap := Heap.initial
  sockets := []
  socket := fun _ =>
    newSocket (fun _ => 0#8) (fun _ => 0#8) 0 0 0 0
  nextFd := 1
  tcpIsn := 0x10000000#32

/- A call on an open socket, or on NULL. -/
def netStep
    (s : NetState)
    (call : NetCall)
    (t : NetState) : Prop :=
  (∀ p, call.sock = some p → p ∈ s.sockets) ∧
    ∃ copies, netCall s call = some (copies, t)

end FeatherOS
