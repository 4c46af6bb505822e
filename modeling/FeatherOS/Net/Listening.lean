import FeatherOS.Net.Records

/-
  How long a socket listens.

  `tcp_rx` changes the state of the socket it finds by the
  flags of the segment alone. No call ever queues a
  connection, so `tcp_accept` finds every queue empty.

  Key definitions include:
    * `IdleQueue`
    * `ServerCall`
    * `KeepsListening`

  Key theorems include:
    * `idleQueues_step`
    * `serverStep_listening_iff`
    * `serverRun_listening_iff`
-/

namespace FeatherOS

--------------------
-- Queues
--------------------

/- No connection waits for `tcp_accept`. -/
def IdleQueue (sock : Socket) : Prop :=
  sock.acceptCount ≤ 0

theorem IdleQueue.of_follows
    {new old : Socket}
    (hFollows : new.Follows old)
    (hIdle : IdleQueue old) :
    IdleQueue new := by
  unfold IdleQueue at hIdle ⊢
  rcases hFollows.acceptCount with hLe | hZero <;> omega

theorem IdleQueue.append
    {sock : Socket}
    (hIdle : IdleQueue sock)
    (data : Bytes)
    (offset : Nat)
    (dataLen : U32) :
    IdleQueue (sock.append data offset dataLen) := by
  unfold Socket.append
  split
  next => exact hIdle
  next => exact hIdle

theorem IdleQueue.keptByData :
    KeptByData IdleQueue where
  fresh _ _ _ _ _ _ := Int.le_refl 0
  follows := IdleQueue.of_follows
  append data offset dataLen hIdle :=
    hIdle.append data offset dataLen

section Queues

variable {s t : NetState}

theorem idleQueues_send
    (hIdle : AllSockets IdleQueue s)
    (sock : Option Addr)
    (data : Option Bytes)
    (len : U32) :
    AllSockets IdleQueue (tcpSend s sock data len).state := by
  unfold tcpSend
  split
  next p data =>
    dsimp only
    split_ifs
    · exact hIdle
    · exact hIdle
    · exact hIdle.modify fun h => h
  next => exact hIdle

theorem idleQueues_receive
    (hIdle : AllSockets IdleQueue s)
    (sock : Option Addr)
    (buf : Option Bytes)
    (len : U32) :
    AllSockets IdleQueue (receive s sock buf len).2.state := by
  unfold receive
  split
  next p buf =>
    dsimp only
    split_ifs
    · exact hIdle
    · exact hIdle.modify fun h => h
  next => exact hIdle

/- No call queues a connection. -/
theorem idleQueues_step
    {call : NetCall}
    (hIdle : AllSockets IdleQueue s)
    (hStep : netStep s call t) :
    AllSockets IdleQueue t := by
  rcases hStep with ⟨_, copies, hCall⟩
  by_cases hControl : call.IsControl
  · exact (hIdle.control IdleQueue.keptByData.toKeptByControl
      hControl hCall).2
  cases call with
  | tcpSend sock data len =>
      cases hCall
      exact idleQueues_send hIdle sock data len
  | tcpRecv sock buf len =>
      cases hCall
      exact idleQueues_receive hIdle sock buf len
  | udpRecvfrom sock buf len =>
      cases hCall
      exact idleQueues_receive hIdle sock buf len
  | tcpRx skb =>
      cases hCall
      exact hIdle.tcpRx IdleQueue.keptByData skb
  | udpRx skb =>
      cases hCall
      exact hIdle.udpRx IdleQueue.keptByData skb
  | _ => exact absurd trivial hControl

theorem idleQueues_run
    {calls : List NetCall}
    (hStart : s.sockets = [])
    (hRun : Run netStep s calls t) :
    AllSockets IdleQueue t := by
  apply hRun.invariant (AllSockets IdleQueue)
  · intro s call t hIdle hStep
    exact idleQueues_step hIdle hStep
  · intro p hp
    rw [hStart] at hp
    cases hp

end Queues

--------------------
-- A Server
--------------------

/- The calls between listening and closing -/
inductive ServerCall where
  | rx (skb : Option Packet)
  | accept (sock : Option Addr)

def ServerCall.netCall : ServerCall → NetCall
  | .rx skb => .tcpRx skb
  | .accept sock => .accept sock

def serverStep
    (s : NetState)
    (call : ServerCall)
    (t : NetState) : Prop :=
  netStep s call.netCall t

/- A segment for the socket has none of the three flags. -/
def KeepsListening
    (p : Addr)
    (s : NetState) :
    ServerCall → Prop
  | .rx (some skb) =>
      sizeofTcpHeader.toNat ≤ skb.len.toNat →
        tcpTarget s skb = some p →
          ¬ skb.tcpHeader.Has tcpRst ∧
            ¬ skb.tcpHeader.Has tcpSyn ∧
            ¬ skb.tcpHeader.Has tcpFin
  | _ => True

/- The socket listens, and nobody waits anywhere. -/
structure Serving
    (p : Addr)
    (s : NetState) : Prop where
  listens : (s.socket p).tcpState = .listen
  idle : AllSockets IdleQueue s

/- The last flag that is looked at decides. -/
theorem onSegment_tcpState
    (sock : Socket)
    (skb : Packet) :
    (sock.onSegment skb).tcpState =
      if skb.tcpHeader.Has tcpFin then
        .closeWait
      else if skb.tcpHeader.Has tcpSyn then
        .synReceived
      else
        sock.tcpState := by
  have hAck : ∀ sock : Socket,
      (sock.onAck skb.tcpHeader).tcpState = sock.tcpState := by
    intro sock
    unfold Socket.onAck
    split <;> rfl
  have hPush : ∀ sock : Socket,
      (sock.onPush skb).tcpState = sock.tcpState := by
    intro sock
    unfold Socket.onPush Socket.append
    split_ifs <;> rfl
  unfold Socket.onSegment Socket.onFin
  dsimp only
  split_ifs with hFin hSyn
  · rfl
  · rw [hPush, hAck, Socket.onSyn, if_pos hSyn]
  · rw [hPush, hAck, Socket.onSyn, if_neg hSyn]

section Server

variable {s t : NetState}
variable {p : Addr}

/- With empty queues `tcp_accept` does nothing. -/
theorem tcpAccept_idle
    {sock : Option Addr}
    (hIdle : AllSockets IdleQueue s)
    (hKnown : ∀ q, sock = some q → q ∈ s.sockets) :
    tcpAccept s sock = some (none, s) := by
  cases sock with
  | none => rfl
  | some q =>
      have hCount : (s.socket q).acceptCount ≤ 0 :=
        hIdle q (hKnown q rfl)
      simp only [tcpAccept, if_pos hCount, ite_self]

/- A segment for another socket has any flags. -/
theorem keepsListening_other
    {q : Addr}
    {skb : Packet}
    (hTarget : tcpTarget s skb = some q)
    (hOther : p ≠ q) :
    KeepsListening p s (.rx (some skb)) := by
  intro _ hSame
  rw [hTarget] at hSame
  cases hSame
  exact absurd rfl hOther

/- What one segment does to the listening socket -/
theorem tcpRx_listening_iff
    (hListens : (s.socket p).tcpState = .listen)
    (skb : Option Packet) :
    ((tcpRx s skb).state.socket p).tcpState = .listen ↔
      KeepsListening p s (.rx skb) := by
  cases skb with
  | none => exact iff_of_true hListens trivial
  | some skb =>
      have hGiven := tcpRx_delivery s skb
      generalize tcpRx s (some skb) = answer at hGiven ⊢
      cases hGiven with
      | dropped hNone =>
          refine iff_of_true hListens fun hLong hTarget => ?_
          rw [hNone hLong] at hTarget
          cases hTarget
      | reset q hLong hTarget hRst =>
          rw [tcpSetState_eq]
          by_cases hSame : p = q
          · subst hSame
            rw [NetState.modifySocket_self]
            refine iff_of_false nofun fun hOk => ?_
            exact (hOk hLong hTarget).1 hRst
          · rw [NetState.modifySocket_ne s _ hSame]
            exact iff_of_true hListens
              (keepsListening_other hTarget hSame)
      | taken q hLong hTarget hNoRst =>
          by_cases hSame : p = q
          · subst hSame
            rw [NetState.modifySocket_self, onSegment_tcpState,
              hListens]
            split_ifs with hFin hSyn
            · refine iff_of_false nofun fun hOk => ?_
              exact (hOk hLong hTarget).2.2 hFin
            · refine iff_of_false nofun fun hOk => ?_
              exact (hOk hLong hTarget).2.1 hSyn
            · exact iff_of_true rfl
                fun _ _ => ⟨hNoRst, hSyn, hFin⟩
          · rw [NetState.modifySocket_ne s _ hSame]
            exact iff_of_true hListens
              (keepsListening_other hTarget hSame)

theorem serverStep_listening_iff
    {call : ServerCall}
    (hServing : Serving p s)
    (hStep : serverStep s call t) :
    (t.socket p).tcpState = .listen ↔ KeepsListening p s call := by
  rcases hStep with ⟨hKnown, copies, hCall⟩
  cases call with
  | rx skb =>
      cases hCall
      exact tcpRx_listening_iff hServing.listens skb
  | accept sock =>
      have hSame : tcpAccept s sock = some (none, s) :=
        tcpAccept_idle hServing.idle hKnown
      simp only [ServerCall.netCall, netCall, hSame,
        Option.map_some, Option.some.injEq, Prod.mk.injEq] at hCall
      rw [← hCall.2]
      exact iff_of_true hServing.listens trivial

theorem serving_step
    {call : ServerCall}
    (hServing : Serving p s)
    (hKeeps : KeepsListening p s call)
    (hStep : serverStep s call t) :
    Serving p t where
  listens := (serverStep_listening_iff hServing hStep).mpr hKeeps
  idle := idleQueues_step hServing.idle hStep

/- What `tcp_listen` leaves -/
theorem serving_listen
    (hIdle : AllSockets IdleQueue s)
    (backlog : Int) :
    Serving p (tcpListen s (some p) backlog).2 where
  listens := by
    simp only [tcpListen, tcpSetState_eq,
      NetState.modifySocket_self]
  idle :=
    hIdle.listen IdleQueue.keptByData.toKeptByControl (some p)
      backlog

end Server

/-
  The socket listens after every call if and only if no
  segment that is given to it has one of RST, SYN and FIN.
-/
theorem serverRun_listening_iff
    {s₀ s t : NetState}
    {calls : List NetCall}
    {server : List ServerCall}
    (p : Addr)
    (backlog : Int)
    (hStart : s₀.sockets = [])
    (hRun : Run netStep s₀ calls s) :
    Run (fun s call t =>
          serverStep s call t ∧
            (t.socket p).tcpState = .listen)
        (tcpListen s (some p) backlog).2 server t ↔
      Run (Guarded (KeepsListening p) serverStep)
        (tcpListen s (some p) backlog).2 server t := by
  apply Run.guarded_iff (Serving p)
  · intro s call t hServing hKeeps hStep
    exact serving_step hServing hKeeps hStep
  · intro s call t hServing hStep
    exact serverStep_listening_iff hServing hStep
  · exact serving_listen (idleQueues_run hStart hRun) backlog

/- The server of port 7 -/
def listeningServer : NetState :=
  (tcpListen (netAfter boundCalls) (some 0x200000#64) 5).2

/- An ACK arrives, and nobody is there to accept. -/
theorem serverRun_listening_iff_ack :
    ∃ t, Run
      (fun s call t =>
        serverStep s call t ∧
          (t.socket 0x200000#64).tcpState = .listen)
      listeningServer
      [.rx (some (portSegment 0x50#8 tcpAck 20#32)),
        .accept (some 0x200000#64)]
      t := by
  refine ⟨_, (serverRun_listening_iff 0x200000#64 5 rfl
    boundRun).mpr (.cons ⟨?_, nofun, _, rfl⟩
      (.cons ⟨trivial, ?_, _, rfl⟩ (.nil _)))⟩
  · intro _ _
    decide +kernel
  · rintro p ⟨⟩
    decide +kernel

/- The first SYN ends the listening. -/
theorem syn_ends_listening :
    ¬ ∀ (s t : NetState) (calls : List NetCall) (p : Addr)
        (server : List ServerCall),
      Run netStep netBooted calls s → p ∈ s.sockets →
        Run serverStep (tcpListen s (some p) 5).2 server t →
          (t.socket p).tcpState = .listen := by
  intro hAll
  have hState := hAll _ _ boundCalls 0x200000#64
    [.rx (some (portSegment 0x50#8 tcpSyn 20#32))] boundRun
    (by decide +kernel) (.cons ⟨nofun, _, rfl⟩ (.nil _))
  revert hState
  decide +kernel

end FeatherOS
