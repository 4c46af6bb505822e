import FeatherOS.Library.Run
import FeatherOS.Net.Socket

/-
  What the calls do to the records of the sockets.

  A property of records that a new record has, and that does
  not depend on names, states and addresses, is kept by all
  calls but those that move data.

  Key definitions include:
    * `Socket.Follows`
    * `AllSockets`
    * `KeptByControl`
    * `TcpDelivery`

  Key theorems include:
    * `tcpRx_delivery`
    * `AllSockets.control`
    * `AllSockets.tcpRx`
-/

namespace FeatherOS

--------------------
-- Records
--------------------

/- The lengths are the same, and no connection was queued. -/
structure Socket.Follows (new old : Socket) : Prop where
  recvLen : new.recvLen = old.recvLen
  sendLen : new.sendLen = old.sendLen
  acceptCount :
    new.acceptCount ≤ old.acceptCount ∨ new.acceptCount = 0

structure KeptByControl (P : Socket → Prop) : Prop where
  fresh : ∀ sendBuf recvBuf fd family type protocol,
    P (newSocket sendBuf recvBuf fd family type protocol)
  follows : ∀ {new old : Socket}, new.Follows old → P old → P new

/- It does not depend on what the receive buffer holds either. -/
structure KeptByData (P : Socket → Prop) : Prop
    extends KeptByControl P where
  append : ∀ {sock : Socket} (data : Bytes) (offset : Nat)
    (dataLen : U32),
    P sock → P (sock.append data offset dataLen)

def AllSockets
    (P : Socket → Prop)
    (s : NetState) : Prop :=
  ∀ p ∈ s.sockets, P (s.socket p)

/- A record whose other fields have changed -/
theorem Socket.Follows.same
    {new old : Socket}
    (hRecv : new.recvLen = old.recvLen)
    (hSend : new.sendLen = old.sendLen)
    (hCount : new.acceptCount = old.acceptCount) :
    new.Follows old :=
  ⟨hRecv, hSend, .inl (Int.le_of_eq hCount)⟩

section Flags

variable (sock : Socket)
variable (hdr : TcpHeader)

theorem Socket.onSyn_follows : (sock.onSyn hdr).Follows sock := by
  unfold Socket.onSyn
  split
  next => exact .same rfl rfl rfl
  next => exact .same rfl rfl rfl

theorem Socket.onAck_follows : (sock.onAck hdr).Follows sock := by
  unfold Socket.onAck
  split
  next => exact .same rfl rfl rfl
  next => exact .same rfl rfl rfl

theorem Socket.onFin_follows : (sock.onFin hdr).Follows sock := by
  unfold Socket.onFin
  split
  next => exact .same rfl rfl rfl
  next => exact .same rfl rfl rfl

end Flags

--------------------
-- The Calls
--------------------

namespace AllSockets

variable {P : Socket → Prop}
variable {s : NetState}
variable {p : Addr}

theorem modify
    (hAll : AllSockets P s)
    {f : Socket → Socket}
    (hKeep : P (s.socket p) → P (f (s.socket p))) :
    AllSockets P (s.modifySocket p f) := by
  intro q hq
  by_cases hSame : q = p
  · subst hSame
    rw [NetState.modifySocket_self]
    exact hKeep (hAll q hq)
  · rw [NetState.modifySocket_ne s f hSame]
    exact hAll q hq

/- A new record, in the list or not. -/
theorem insert
    (hAll : AllSockets P s)
    {t : NetState}
    {sock : Socket}
    (hNew : P sock)
    (hSocket : t.socket = Function.update s.socket p sock)
    (hSockets : ∀ q ∈ t.sockets, q = p ∨ q ∈ s.sockets) :
    AllSockets P t := by
  intro q hq
  rw [hSocket, Function.update_apply]
  split
  next => exact hNew
  next hNe => exact hAll q ((hSockets q hq).resolve_left hNe)

variable (hKept : KeptByControl P)
include hKept

/- One record gets new names, states or addresses. -/
theorem follow
    (hAll : AllSockets P s)
    {f : Socket → Socket}
    (hFollows : ∀ sock, (f sock).Follows sock) :
    AllSockets P (s.modifySocket p f) :=
  hAll.modify (hKept.follows (hFollows _))

theorem setState
    (hAll : AllSockets P s)
    (p : Addr)
    (state : TcpState) :
    AllSockets P (tcpSetState s p state) := by
  rw [tcpSetState_eq]
  exact hAll.follow hKept fun sock => .same rfl rfl rfl

theorem create
    (hAll : AllSockets P s)
    (family type protocol : Int) :
    AllSockets P (socketCreate s family type protocol).2 := by
  unfold socketCreate
  split
  next => exact hAll
  next p heap _ =>
    have hNew := hKept.fresh (s.socket p).sendBuf
      (s.socket p).recvBuf s.nextFd family type protocol
    dsimp only
    split
    next => exact hAll.insert hNew rfl fun q hq => .inr hq
    next =>
      refine hAll.insert hNew rfl fun q hq => ?_
      exact List.mem_cons.mp hq

theorem tcpSocket
    (hAll : AllSockets P s)
    (type protocol : Int) :
    AllSockets P (tcpSocket s type protocol).2 := by
  have hCreate :=
    hAll.create hKept socketFamilyInet type protocol
  unfold FeatherOS.tcpSocket
  split
  next hCall =>
    rw [hCall] at hCreate
    exact hCreate
  next hCall =>
    rw [hCall] at hCreate
    exact hCreate.follow hKept fun sock => .same rfl rfl rfl

theorem bind
    (hAll : AllSockets P s)
    (sock : Option Addr)
    (addr : Option IpAddr)
    (port : U16) :
    AllSockets P (socketBind s sock addr port).2 := by
  cases sock with
  | none => exact hAll
  | some p =>
      exact hAll.follow hKept fun sock => .same rfl rfl rfl

/- A listening socket has no queue. -/
theorem listen
    (hAll : AllSockets P s)
    (sock : Option Addr)
    (backlog : Int) :
    AllSockets P (tcpListen s sock backlog).2 := by
  cases sock with
  | none => exact hAll
  | some p =>
      exact (hAll.setState hKept p .listen).follow hKept
        fun sock => ⟨rfl, rfl, .inr rfl⟩

theorem accept
    (hAll : AllSockets P s)
    {sock : Option Addr}
    {answer : Option Addr × NetState}
    (hCall : tcpAccept s sock = some answer) :
    AllSockets P answer.2 := by
  unfold tcpAccept at hCall
  split at hCall
  next => cases hCall; exact hAll
  next p =>
    split_ifs at hCall
    · cases hCall; exact hAll
    · cases hCall; exact hAll
    · split at hCall
      next => cases hCall
      next q _ =>
        cases hCall
        have hShift :
            AllSockets P (s.modifySocket p Socket.shiftQueue) :=
          hAll.follow hKept fun sock =>
            ⟨rfl, rfl, .inl (Int.sub_le_self _ (by decide))⟩
        exact (hShift.setState hKept q .established).follow hKept
          fun sock => .same rfl rfl rfl

theorem tcpConnect
    (hAll : AllSockets P s)
    (sock : Option Addr)
    (addr : Option IpAddr)
    (port : U16) :
    AllSockets P (tcpConnect s sock addr port).2 := by
  unfold FeatherOS.tcpConnect
  split
  next p addr =>
    have hRemote :
        AllSockets P
          (s.modifySocket p fun sock =>
            { sock with
              remoteAddr := addr, remotePort := port }) :=
      hAll.follow hKept fun sock => .same rfl rfl rfl
    have hIss : ∀ isn,
        AllSockets P
          ((tcpSetState _ p .synSent).modifySocket p
            fun sock => sock.sendFrom isn) :=
      fun isn => (hRemote.setState hKept p .synSent).follow hKept
        fun sock => .same rfl rfl rfl
    exact fun q hq => hIss _ q hq
  next => exact hAll

theorem connect
    (hAll : AllSockets P s)
    {sock : Option Addr}
    {addr : Option IpAddr}
    {port : U16}
    {answer : Int × NetState}
    (hCall : socketConnect s sock addr port = some answer) :
    AllSockets P answer.2 := by
  unfold socketConnect at hCall
  split at hCall
  next => cases hCall; exact hAll
  next p =>
    split at hCall
    next =>
      cases hCall
      exact hAll.tcpConnect hKept (some p) addr port
    next =>
      cases addr with
      | none => cases hCall
      | some addr =>
          cases hCall
          exact hAll.follow hKept fun sock => .same rfl rfl rfl

theorem close
    (hAll : AllSockets P s)
    (sock : Option Addr) :
    AllSockets P (socketClose s sock).2 := by
  unfold socketClose
  split
  next => exact hAll
  next p =>
    have hLess :
        AllSockets P
          (s.modifySocket p fun sock =>
            { sock with refcount := sock.refcount - 1 }) :=
      hAll.follow hKept fun sock => .same rfl rfl rfl
    dsimp only
    split
    next => exact hLess
    next => exact fun q hq => hLess q (List.mem_of_mem_erase hq)

theorem tcpClose
    (hAll : AllSockets P s)
    (sock : Option Addr) :
    AllSockets P (tcpClose s sock).2 := by
  cases sock with
  | none => exact hAll
  | some p => exact (hAll.setState hKept p _).close hKept (some p)

end AllSockets

/- A call that moves no data -/
def NetCall.IsControl : NetCall → Prop
  | .tcpSend _ _ _ => False
  | .tcpRecv _ _ _ => False
  | .udpRecvfrom _ _ _ => False
  | .tcpRx _ => False
  | .udpRx _ => False
  | _ => True

theorem AllSockets.control
    {P : Socket → Prop}
    {s t : NetState}
    {call : NetCall}
    {copies : List Copy}
    (hKept : KeptByControl P)
    (hAll : AllSockets P s)
    (hControl : call.IsControl)
    (hCall : netCall s call = some (copies, t)) :
    copies = [] ∧ AllSockets P t := by
  cases call with
  | tcpSocket type protocol =>
      cases hCall
      exact ⟨rfl, hAll.tcpSocket hKept type protocol⟩
  | udpSocket type protocol =>
      cases hCall
      exact ⟨rfl, hAll.create hKept socketFamilyInet type protocol⟩
  | bind sock addr port =>
      cases hCall
      exact ⟨rfl, hAll.bind hKept sock addr port⟩
  | listen sock backlog =>
      cases hCall
      exact ⟨rfl, hAll.listen hKept sock backlog⟩
  | accept sock =>
      rcases Option.map_eq_some_iff.mp hCall with
        ⟨answer, hAnswer, hEq⟩
      cases hEq
      exact ⟨rfl, hAll.accept hKept hAnswer⟩
  | tcpConnect sock addr port =>
      cases hCall
      exact ⟨rfl, hAll.tcpConnect hKept sock addr port⟩
  | connect sock addr port =>
      rcases Option.map_eq_some_iff.mp hCall with
        ⟨answer, hAnswer, hEq⟩
      cases hEq
      exact ⟨rfl, hAll.connect hKept hAnswer⟩
  | tcpClose sock =>
      cases hCall
      exact ⟨rfl, hAll.tcpClose hKept sock⟩
  | close sock =>
      cases hCall
      exact ⟨rfl, hAll.close hKept sock⟩
  | tcpSend _ _ _ => exact hControl.elim
  | tcpRecv _ _ _ => exact hControl.elim
  | udpRecvfrom _ _ _ => exact hControl.elim
  | tcpRx _ => exact hControl.elim
  | udpRx _ => exact hControl.elim

--------------------
-- Packets
--------------------

/- What becomes of a segment, and when -/
inductive TcpDelivery
    (s : NetState)
    (skb : Packet) :
    NetAnswer → Prop where
  | dropped
      (hNone :
        sizeofTcpHeader.toNat ≤ skb.len.toNat →
          tcpTarget s skb = none) :
      TcpDelivery s skb ⟨-1, [], s⟩
  | reset
      (p : Addr)
      (hLong : sizeofTcpHeader.toNat ≤ skb.len.toNat)
      (hTarget : tcpTarget s skb = some p)
      (hRst : skb.tcpHeader.Has tcpRst) :
      TcpDelivery s skb ⟨-1, [], tcpSetState s p .closed⟩
  | taken
      (p : Addr)
      (hLong : sizeofTcpHeader.toNat ≤ skb.len.toNat)
      (hTarget : tcpTarget s skb = some p)
      (hNoRst : ¬ skb.tcpHeader.Has tcpRst) :
      TcpDelivery s skb
        ⟨0,
          if skb.Pushes then
            appendCopies (s.socket p) skb
              skb.tcpHeader.offset.toNat (tcpDataLen skb)
          else
            [],
          s.modifySocket p fun sock => sock.onSegment skb⟩

theorem tcpRx_delivery
    (s : NetState)
    (skb : Packet) :
    TcpDelivery s skb (tcpRx s (some skb)) := by
  simp only [tcpRx]
  split
  next hShort =>
    refine .dropped fun hLong => ?_
    exact absurd hShort (Nat.not_lt.mpr hLong)
  next hLong =>
    have hLong := Nat.not_lt.mp hLong
    split
    next hNone => exact .dropped fun _ => hNone
    next p hTarget =>
      split
      next hRst => exact .reset p hLong hTarget hRst
      next hNoRst => exact .taken p hLong hTarget hNoRst

inductive UdpDelivery
    (s : NetState)
    (skb : Packet) :
    NetAnswer → Prop where
  | dropped
      (hNone :
        sizeofUdpHeader.toNat ≤ skb.len.toNat →
          udpTarget s skb = none) :
      UdpDelivery s skb ⟨-1, [], s⟩
  | taken
      (p : Addr)
      (hLong : sizeofUdpHeader.toNat ≤ skb.len.toNat)
      (hTarget : udpTarget s skb = some p) :
      UdpDelivery s skb
        ⟨0,
          appendCopies (s.socket p) skb sizeofUdpHeader.toNat
            (udpDataLen skb),
          s.modifySocket p fun sock =>
            sock.append skb.data sizeofUdpHeader.toNat
              (udpDataLen skb)⟩

theorem udpRx_delivery
    (s : NetState)
    (skb : Packet) :
    UdpDelivery s skb (udpRx s (some skb)) := by
  simp only [udpRx]
  split
  next hShort =>
    refine .dropped fun hLong => ?_
    exact absurd hShort (Nat.not_lt.mpr hLong)
  next hLong =>
    have hLong := Nat.not_lt.mp hLong
    split
    next hNone => exact .dropped fun _ => hNone
    next p hTarget => exact .taken p hLong hTarget

section Kept

variable {P : Socket → Prop}
variable (hKept : KeptByData P)
include hKept

/- One flag after the other -/
theorem KeptByData.onSegment
    {sock : Socket}
    (hSock : P sock)
    (skb : Packet) :
    P (sock.onSegment skb) := by
  have hAcked :
      P ((sock.onSyn skb.tcpHeader).onAck skb.tcpHeader) :=
    hKept.follows (Socket.onAck_follows _ _)
      (hKept.follows (Socket.onSyn_follows _ _) hSock)
  have hPushed :
      P (((sock.onSyn skb.tcpHeader).onAck skb.tcpHeader).onPush
        skb) := by
    unfold Socket.onPush
    split
    next => exact hKept.append _ _ _ hAcked
    next => exact hAcked
  exact hKept.follows (Socket.onFin_follows _ _) hPushed

theorem AllSockets.tcpRx
    {s : NetState}
    (hAll : AllSockets P s)
    (skb : Option Packet) :
    AllSockets P (tcpRx s skb).state := by
  cases skb with
  | none => exact hAll
  | some skb =>
      have hGiven := tcpRx_delivery s skb
      generalize FeatherOS.tcpRx s (some skb) = answer at hGiven ⊢
      cases hGiven with
      | dropped => exact hAll
      | reset p => exact hAll.setState hKept.toKeptByControl p _
      | taken p =>
          exact hAll.modify fun hSock => hKept.onSegment hSock skb

theorem AllSockets.udpRx
    {s : NetState}
    (hAll : AllSockets P s)
    (skb : Option Packet) :
    AllSockets P (udpRx s skb).state := by
  cases skb with
  | none => exact hAll
  | some skb =>
      have hGiven := udpRx_delivery s skb
      generalize FeatherOS.udpRx s (some skb) = answer at hGiven ⊢
      cases hGiven with
      | dropped => exact hAll
      | taken p => exact hAll.modify (hKept.append _ _ _)

end Kept

--------------------
-- Sample Calls
--------------------

/- A segment from port 0 to port 7 -/
def portSegment
    (dataOffset flags : U8)
    (len : U32) :
    Packet where
  data := fun i =>
    match i with
    | 2 => 7#8
    | 12 => dataOffset
    | 13 => flags
    | _ => 0#8
  len := len

/- A socket that is bound to port 7 -/
def boundCalls : List NetCall :=
  [.tcpSocket socketTypeStream 0,
    .bind (some 0x200000#64) (some ipAny) 7#16]

def netAfter (calls : List NetCall) : NetState :=
  calls.foldl
    (fun s call => ((netCall s call).getD ([], s)).2) netBooted

theorem boundRun :
    Run netStep netBooted boundCalls (netAfter boundCalls) := by
  refine .cons ⟨nofun, _, rfl⟩ (.cons ⟨?_, _, rfl⟩ (.nil _))
  rintro p ⟨⟩
  decide +kernel

end FeatherOS
