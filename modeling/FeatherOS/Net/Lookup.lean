import FeatherOS.Library.FirstMatch
import FeatherOS.Net.Socket

/-
  Which socket a segment or a datagram is given to.

  `socket_lookup` does not look at the protocol, and it takes
  the remote port of the packet, not that of the socket, for
  the sign of a socket without a remote end.

  Key definitions include:
    * `Demux`
    * `DemuxOk`

  Key theorems include:
    * `socketLookup_demux_iff`
-/

namespace FeatherOS

--------------------
-- The Property
--------------------

/- Where a packet is from and where it goes to -/
structure Arrival where
  localIp : IpAddr
  localPort : U16
  remoteIp : IpAddr
  remotePort : U16
  protocol : Int

def Arrival.target
    (a : Arrival)
    (s : NetState) :
    Option Addr :=
  socketLookup s (some a.localIp) a.localPort (some a.remoteIp)
    a.remotePort a.protocol

namespace Socket

/- The protocol 0 stands for the one of the type. -/
def Speaks
    (sock : Socket)
    (protocol : Int) : Prop :=
  sock.protocol = protocol ∨
    sock.protocol = 0 ∧
      (sock.type = socketTypeStream ∧ protocol = ipProtoTcp ∨
        sock.type = socketTypeDgram ∧ protocol = ipProtoUdp)

/- No remote end is set. -/
def Unconnected (sock : Socket) : Prop :=
  sock.remotePort = 0#16 ∧ sock.remoteAddr = ipAny

/- The remote end is the sender. -/
def From
    (sock : Socket)
    (a : Arrival) : Prop :=
  sock.remotePort = a.remotePort ∧ sock.remoteAddr = a.remoteIp

/- The socket is bound to where the packet goes. -/
def BoundTo
    (sock : Socket)
    (a : Arrival) : Prop :=
  sock.Speaks a.protocol ∧ sock.localPort = a.localPort ∧
    sock.localAddr = a.localIp

/- A connected socket that matches in everything -/
def Exact
    (sock : Socket)
    (a : Arrival) : Prop :=
  sock.BoundTo a ∧ sock.From a ∧ ¬ sock.Unconnected

/- A socket that takes packets from everyone -/
def Wildcard
    (sock : Socket)
    (a : Arrival) : Prop :=
  sock.BoundTo a ∧ sock.Unconnected

/- The test of `socket_lookup` -/
def Passes
    (sock : Socket)
    (a : Arrival) : Prop :=
  SocketMatches sock (some a.localIp) a.localPort
    (some a.remoteIp) a.remotePort

instance
    (sock : Socket)
    (a : Arrival) :
    Decidable (sock.Passes a) :=
  inferInstanceAs
    (Decidable
      (SocketMatches sock (some a.localIp) a.localPort
        (some a.remoteIp) a.remotePort))

/- The socket is right for the packet. -/
def Wanted
    (sock : Socket)
    (a : Arrival) : Prop :=
  sock.Exact a ∨ sock.Wildcard a

end Socket

structure Demux
    (s : NetState)
    (a : Arrival) : Prop where
  right : ∀ p, a.target s = some p →
    (s.socket p).Speaks a.protocol ∧
      (s.socket p).localPort = a.localPort ∧
      ((s.socket p).From a ∨ (s.socket p).Unconnected)
  preferred : (∃ p ∈ s.sockets, (s.socket p).Exact a) →
    ∃ p, a.target s = some p ∧ (s.socket p).Exact a
  found : (∃ p ∈ s.sockets, (s.socket p).Wildcard a) →
    (¬ ∃ p ∈ s.sockets, (s.socket p).Exact a) →
      ∃ p, a.target s = some p ∧ (s.socket p).Wildcard a

/-
  The lists on which the search does what it should. A socket
  that passes the test with another protocol or another remote
  end has one of the right ones ahead of it, an exact one is
  ahead of the others, and a socket that takes packets from
  everyone is not needed for a remote port other than 0.
-/
structure DemuxOk
    (s : NetState)
    (a : Arrival) : Prop where
  strangers :
    Ahead
      (fun p => (s.socket p).Exact a ∨
        (s.socket p).Passes a ∧ (s.socket p).Wildcard a)
      (fun p => (s.socket p).Passes a ∧
        ¬ (s.socket p).Wanted a)
      s.sockets
  exact : (∃ p ∈ s.sockets, (s.socket p).Exact a) →
    Ahead (fun p => (s.socket p).Exact a)
      (fun p => (s.socket p).Passes a ∧
        (s.socket p).Wildcard a)
      s.sockets
  everyone : a.remotePort = 0#16 ∨
    (∃ p ∈ s.sockets, (s.socket p).Exact a) ∨
    ¬ ∃ p ∈ s.sockets, (s.socket p).Wildcard a

--------------------
-- The Test
--------------------

section Test

variable {sock : Socket}
variable {a : Arrival}

theorem Socket.passes_iff :
    sock.Passes a ↔
      (sock.localPort = a.localPort ∧ sock.localAddr = a.localIp) ∧
        (a.remotePort = 0#16 ∨ sock.From a) := by
  simp only [Socket.Passes, SocketMatches, Socket.From,
    Option.some.injEq, forall_eq']

theorem Socket.Exact.passes
    (hExact : sock.Exact a) :
    sock.Passes a :=
  Socket.passes_iff.mpr ⟨hExact.1.2, .inr hExact.2.1⟩

/- The test lets everyone in for the remote port 0 only. -/
theorem Socket.Wildcard.passes_iff
    (hWildcard : sock.Wildcard a) :
    sock.Passes a ↔ a.remotePort = 0#16 := by
  rw [Socket.passes_iff]
  constructor
  · rintro ⟨_, hPort | hFrom⟩
    · exact hPort
    · exact hFrom.1.symm.trans hWildcard.2.1
  · intro hPort
    exact ⟨hWildcard.1.2, .inl hPort⟩

/- A socket that passes is right in one of the two ways. -/
theorem Socket.right_iff
    (hPasses : sock.Passes a) :
    (sock.Speaks a.protocol ∧ sock.localPort = a.localPort ∧
        (sock.From a ∨ sock.Unconnected)) ↔
      sock.Wanted a := by
  have hLocal := (Socket.passes_iff.mp hPasses).1
  constructor
  · rintro ⟨hSpeaks, _, hEnd⟩
    by_cases hFree : sock.Unconnected
    · exact .inr ⟨⟨hSpeaks, hLocal⟩, hFree⟩
    · exact .inl
        ⟨⟨hSpeaks, hLocal⟩, hEnd.resolve_right hFree, hFree⟩
  · rintro (⟨hBound, hFrom, _⟩ | ⟨hBound, hFree⟩)
    · exact ⟨hBound.1, hBound.2.1, .inl hFrom⟩
    · exact ⟨hBound.1, hBound.2.1, .inr hFree⟩

end Test

--------------------
-- The Search
--------------------

section Search

variable {s : NetState}
variable {a : Arrival}

theorem Arrival.target_eq :
    a.target s =
      s.sockets.find? fun p => (s.socket p).Passes a :=
  rfl

/- What is returned is right if a right one stands first. -/
theorem right_iff_ahead :
    (∀ p, a.target s = some p →
      (s.socket p).Speaks a.protocol ∧
        (s.socket p).localPort = a.localPort ∧
        ((s.socket p).From a ∨ (s.socket p).Unconnected)) ↔
      Ahead
        (fun p => (s.socket p).Passes a ∧ (s.socket p).Wanted a)
        (fun p => (s.socket p).Passes a ∧
          ¬ (s.socket p).Wanted a)
        s.sockets := by
  rw [← Ahead.find?_all_iff]
  constructor
  · intro hRight p hFind
    have hPasses := (Ahead.found hFind).2
    exact (Socket.right_iff hPasses).mp (hRight p hFind)
  · intro hAll p hFind
    have hPasses := (Ahead.found hFind).2
    exact (Socket.right_iff hPasses).mpr (hAll p hFind)

/- An exact one is returned if one stands first. -/
theorem preferred_iff_ahead
    (hExact : ∃ p ∈ s.sockets, (s.socket p).Exact a) :
    (∃ p, a.target s = some p ∧ (s.socket p).Exact a) ↔
      Ahead
        (fun p => (s.socket p).Passes a ∧ (s.socket p).Exact a)
        (fun p => (s.socket p).Passes a ∧
          ¬ (s.socket p).Exact a)
        s.sockets := by
  rw [Arrival.target_eq, Ahead.find?_exists_iff]
  apply and_iff_right
  rcases hExact with ⟨p, hMem, hExact⟩
  exact ⟨p, hMem, hExact.passes, hExact⟩

theorem Demux.demuxOk
    (hDemux : Demux s a) :
    DemuxOk s a where
  strangers := by
    apply (right_iff_ahead.mp hDemux.right).mono
    · rintro p _ ⟨hPasses, hExact | hWildcard⟩
      · exact .inl hExact
      · exact .inr ⟨hPasses, hWildcard⟩
    · intro p _ hStranger
      exact hStranger
  exact := by
    intro hExact
    apply ((preferred_iff_ahead hExact).mp
      (hDemux.preferred hExact)).mono
    · rintro p _ ⟨_, hExact⟩
      exact hExact
    · rintro p _ ⟨hPasses, hWildcard⟩
      exact ⟨hPasses, fun h => h.2.2 hWildcard.2⟩
  everyone := by
    by_cases hExact : ∃ p ∈ s.sockets, (s.socket p).Exact a
    · exact .inr (.inl hExact)
    by_cases hWildcard :
        ∃ p ∈ s.sockets, (s.socket p).Wildcard a
    · rcases hDemux.found hWildcard hExact with
        ⟨p, hFind, hWildcard⟩
      have hPasses := (Ahead.found hFind).2
      exact .inl (hWildcard.passes_iff.mp hPasses)
    · exact .inr (.inr hWildcard)

theorem DemuxOk.right_ahead
    (hOk : DemuxOk s a) :
    Ahead
      (fun p => (s.socket p).Passes a ∧ (s.socket p).Wanted a)
      (fun p => (s.socket p).Passes a ∧
        ¬ (s.socket p).Wanted a)
      s.sockets := by
  apply hOk.strangers.mono
  · rintro p _ (hExact | ⟨hPasses, hWildcard⟩)
    · exact ⟨hExact.passes, .inl hExact⟩
    · exact ⟨hPasses, .inr hWildcard⟩
  · intro p _ hStranger
    exact hStranger

theorem DemuxOk.demux
    (hOk : DemuxOk s a) :
    Demux s a where
  right := right_iff_ahead.mpr hOk.right_ahead
  preferred := by
    intro hExact
    apply (preferred_iff_ahead hExact).mpr
    have hFirst := hOk.exact hExact
    apply (hFirst.or (hFirst.absorb hOk.strangers)).mono
    · intro p _ hExact
      exact ⟨hExact.passes, hExact⟩
    · rintro p _ ⟨hPasses, hNot⟩
      by_cases hWildcard : (s.socket p).Wildcard a
      · exact .inl ⟨hPasses, hWildcard⟩
      · exact .inr ⟨hPasses, fun h => h.elim hNot hWildcard⟩
  found := by
    rintro ⟨p, hMem, hWildcard⟩ hExact
    have hPort : a.remotePort = 0#16 := by
      rcases hOk.everyone with hPort | hSome | hNone
      · exact hPort
      · exact absurd hSome hExact
      · exact absurd ⟨p, hMem, hWildcard⟩ hNone
    have hPasses := hWildcard.passes_iff.mpr hPort
    have hFound :=
      Ahead.find?_exists_iff.mpr
        ⟨⟨p, hMem, hPasses, .inr hWildcard⟩, hOk.right_ahead⟩
    rcases hFound with ⟨q, hFind, hWanted⟩
    refine ⟨q, hFind, hWanted.resolve_left ?_⟩
    intro hQ
    exact hExact ⟨q, (Ahead.found hFind).1, hQ⟩

end Search

/-
  The socket that is returned is the right one if and only if
  strangers and sockets for everyone stand behind the exact
  ones, and none for everyone is needed for a remote port
  other than 0.
-/
theorem socketLookup_demux_iff
    (s : NetState)
    (a : Arrival) :
    Demux s a ↔ DemuxOk s a :=
  ⟨Demux.demuxOk, DemuxOk.demux⟩

/- The echo server: bound to port 7, and listening -/
def echoServer : NetState :=
  let created := tcpSocket netBooted socketTypeStream 0
  let bound := socketBind created.2 created.1 (some ipAny) 7#16
  (tcpListen bound.2 created.1 5).2

/- No segment from port 1234 gets to the echo server. -/
theorem echoServer_not_found :
    ¬ ∀ (s : NetState) (a : Arrival), Demux s a := by
  intro hAll
  have hDemux :=
    hAll echoServer ⟨ipAny, 7#16, ipAny, 1234#16, ipProtoTcp⟩
  have hSockets : echoServer.sockets = [0x200000#64] := by
    decide +kernel
  rcases hDemux.demuxOk.everyone with hPort | hSome | hNone
  · cases hPort
  · rcases hSome with ⟨p, hMem, hExact⟩
    rw [hSockets, List.mem_singleton] at hMem
    subst hMem
    have hPort := hExact.2.1.1
    revert hPort
    decide +kernel
  · refine hNone ⟨0x200000#64, ?_, ⟨.inr ?_, ?_⟩, ?_⟩
    · rw [hSockets, List.mem_singleton]
    · decide +kernel
    · decide +kernel
    · unfold Socket.Unconnected
      decide +kernel

end FeatherOS
