import FeatherOS.Net.Frame
import FeatherOS.Net.Stream

/-
  Datagrams from `udp_sendto` to `udp_rx`.

  The length of a datagram is put into a field of 16 bits, and
  `udp_sendto` does not ask whether it fits.

  Key definitions include:
    * `udpBuild`
    * `UdpSent`

  Key theorems include:
    * `udpBuild_packet`
    * `udp_encode_decode_iff`
-/

namespace FeatherOS

open CyclicBuffer (front)

--------------------
-- The Packet That Is Built
--------------------

/- The datagram in its buffer, before it is given to IP -/
def udpBuild
    (s : SkbState)
    (sock : Socket)
    (data : Bytes)
    (len : U32)
    (port : U16) :
    Option (Addr × SkbState) :=
  match skbAlloc s (len + sizeofUdpHeader) with
  | (none, _) => none
  | (some p, s) => do
      let header := skbPut s (some p) sizeofUdpHeader
      let hdr ← header.1
      let s :=
        header.2.write hdr (udpHeader sock.localPort port len)
      let put := skbPut s (some p) len
      let payload ← put.1
      let s ← put.2.copyInto p payload data len.toNat
      some (p, s)

/-
  `udp_sendto` returned `len`, and `skb` is the packet that it
  had built.
-/
def UdpSent
    (devices : NetDevices)
    (s : SkbState)
    (sock : Socket)
    (data : Bytes)
    (len : U32)
    (dest : IpAddr)
    (port : U16)
    (skb : Packet) : Prop :=
  (∃ t, udpSendto devices s (some sock) (some data) len
      (some dest) port = some (len.toInt, t)) ∧
    ∃ p u, udpBuild s sock data len port = some (p, u) ∧
      skb = u.packet p

/- The bytes swapped twice -/
theorem ipNtohs_ipHtons
    (x : U16) :
    ipNtohs (ipHtons x) = x := by
  have hMask : ∀ j, (0xFF#16).getLsbD j = decide (j < 8) := by
    intro j
    have hOnes := Nat.testBit_two_pow_sub_one 8 j
    rw [BitVec.getLsbD_ofNat]
    simp only [Nat.reducePow, Nat.add_one_sub_one] at hOnes
    rw [hOnes]
    grind
  apply BitVec.eq_of_getLsbD_eq
  intro i hi
  simp only [ipHtons, ipNtohs, BitVec.getLsbD_or,
    BitVec.getLsbD_and, BitVec.getLsbD_shiftLeft,
    BitVec.getLsbD_ushiftRight, hMask]
  grind

section Datagram

variable {s u : SkbState}
variable {sock : Socket}
variable {data : Bytes}
variable {len : U32}
variable {port : U16}
variable {p : Addr}

/- The header in front, and the payload behind it. -/
structure IsDatagram
    (skb : Packet)
    (sock : Socket)
    (data : Bytes)
    (len : U32)
    (port : U16) : Prop where
  length : skb.len = len + sizeofUdpHeader
  header : ∀ i < 8,
    skb.data i = (udpHeader sock.localPort port len).getD i 0#8
  payload : ∀ i < len.toNat, skb.data (8 + i) = data i

theorem length_udpHeader
    (srcPort destPort : U16)
    (len : U32) :
    (udpHeader srcPort destPort len).length = 8 := by
  simp [udpHeader, length_bytes16]

theorem udpBuild_packet
    (hBuilt : udpBuild s sock data len port = some (p, u)) :
    IsDatagram (u.packet p) sock data len port := by
  rcases skbAlloc_spec s (len + sizeofUdpHeader) with
    ⟨_, heap, hAlloc, _⟩ | ⟨_, heap, q, buf, hAlloc, _, _, _⟩
  · rw [udpBuild, hAlloc] at hBuilt
    cases hBuilt
  · have hGrant := DataAt.grant s heap q buf
      (skbTotalSize (len + sizeofUdpHeader))
    have hTail :
        ((s.grant heap q buf
          (skbTotalSize (len + sizeofUdpHeader))).skbs q).tail =
          buf + BitVec.ofNat 64 64 := by
      simp only [SkbState.grant, Function.update_self, newSkb,
        skbHeadroom]
    have hBytes := length_udpHeader sock.localPort port len
    simp only [udpBuild, hAlloc, skbPut, Option.bind_eq_bind,
      Option.bind_some, hTail] at hBuilt
    generalize s.grant heap q buf
      (skbTotalSize (len + sizeofUdpHeader)) = g at *
    generalize hHdr : udpHeader sock.localPort port len = hdr at *
    -- the state with the header in it
    have hPut := hGrant.put sizeofUdpHeader
    have hHeader : ∀ i < 8,
        ((g.modifySkb q fun b => b.put sizeofUdpHeader).write
            (buf + BitVec.ofNat 64 64) hdr).memory
            (buf + BitVec.ofNat 64 (64 + i)) =
          hdr.getD i 0#8 := by
      intro i hi
      have hIn : 64 ≤ 64 + i ∧ 64 + i < 64 + hdr.length := by
        omega
      simp only [SkbState.write, SkbState.copyTo]
      rw [ByteMemory.patch_offset (by omega) (by omega),
        if_pos hIn, Nat.add_sub_cancel_left]
    have hNext :
        ((g.modifySkb q fun b => b.put sizeofUdpHeader).skbs
            q).tail =
          buf + BitVec.ofNat 64 72 := by
      simp only [SkbState.modifySkb, Function.update_self,
        SkBuff.put, hTail]
      rw [BitVec.add_assoc]
      rfl
    generalize hv :
      (g.modifySkb q fun b => b.put sizeofUdpHeader).write
        (buf + BitVec.ofNat 64 64) hdr = v at *
    have hV : DataAt v q buf 64 (0#32 + sizeofUdpHeader) := by
      rw [← hv]
      exact ⟨hPut.head, hPut.data, hPut.len⟩
    have hTailV : (v.skbs q).tail = buf + BitVec.ofNat 64 72 := by
      rw [← hv]
      exact hNext
    rw [hTailV] at hBuilt
    rcases Option.bind_eq_some_iff.mp hBuilt with
      ⟨w, hCopy, hEq⟩
    rw [copyInto_some hCopy] at hEq
    cases hEq
    have hLast := hV.put len
    have hU : DataAt
        ((v.modifySkb p fun b => b.put len).copyTo
          (buf + BitVec.ofNat 64 72) data len.toNat)
        p buf 64 (0#32 + sizeofUdpHeader + len) :=
      ⟨hLast.head, hLast.data, hLast.len⟩
    have hSum :
        0#32 + sizeofUdpHeader + len = len + sizeofUdpHeader := by
      rw [BitVec.zero_add, BitVec.add_comm]
    constructor
    · rw [hSum] at hU
      exact hU.len
    · intro i hi
      rw [hU.packet_data, hHdr, ← hHeader i hi]
      have hOut : ¬ (72 ≤ 64 + i ∧ 64 + i < 72 + len.toNat) := by
        omega
      simp only [SkbState.copyTo]
      rw [ByteMemory.patch_offset (by omega) (by omega),
        if_neg hOut]
      rfl
    · intro i hi
      rw [hU.packet_data]
      have hIn :
          72 ≤ 64 + (8 + i) ∧ 64 + (8 + i) < 72 + len.toNat := by
        omega
      have hAt : 64 + (8 + i) - 72 = i := by omega
      simp only [SkbState.copyTo]
      rw [ByteMemory.patch_offset (by omega) (by omega),
        if_pos hIn, hAt]

/- The length that is read back -/
theorem udpDataLen_datagram
    {skb : Packet}
    (hSkb : IsDatagram skb sock data len port) :
    udpDataLen skb =
      (8#16 + len.setWidth 16).setWidth 32 - 8#32 := by
  have hLength :
      skb.udpHeader.length = ipHtons (8#16 + len.setWidth 16) := by
    have hLow := hSkb.header 4 (by omega)
    have hHigh := hSkb.header 5 (by omega)
    simp only [Packet.udpHeader, Bytes.u16, hLow, hHigh]
    apply BitVec.eq_of_getLsbD_eq
    intro i hi
    simp only [udpHeader, bytes16, List.cons_append,
      List.nil_append, List.getD_cons_succ, List.getD_cons_zero,
      BitVec.getLsbD_append, BitVec.getLsbD_extractLsb']
    grind
  rw [udpDataLen, hLength, ipNtohs_ipHtons]
  rfl

/-
  What `udp_sendto` sends is added to the buffer of a socket
  that has room for it if and only if its length, with that of
  the header, is below 2^16.
-/
theorem udp_encode_decode_iff
    {devices : NetDevices}
    {dest : IpAddr}
    {skb : Packet}
    {net : NetState}
    {q : Addr}
    (hSent : UdpSent devices s sock data len dest port skb)
    (hTarget : udpTarget net skb = some q)
    (hRoom :
      (net.socket q).recvLen.toNat + len.toNat ≤
        tcpRcvBufSize.toNat) :
    ((udpRx net (some skb)).state.socket q).held =
        (net.socket q).held ++ front data len.toNat ↔
      len.toNat + sizeofUdpHeader.toNat < 2 ^ 16 := by
  rcases hSent with ⟨_, p, u, hBuilt, rfl⟩
  have hSkb := udpBuild_packet hBuilt
  have hSize : tcpRcvBufSize.toNat = 65536 := by decide
  have hEight : sizeofUdpHeader.toNat = 8 := rfl
  have hLong : ¬ (u.packet p).len < sizeofUdpHeader := by
    rw [hSkb.length, BitVec.lt_def, BitVec.toNat_add]
    omega
  have hData := udpDataLen_datagram hSkb
  have hState :
      (udpRx net (some (u.packet p))).state.socket q =
        (net.socket q).append (u.packet p).data 8
          (udpDataLen (u.packet p)) := by
    simp only [udpRx, if_neg hLong, hTarget,
      NetState.modifySocket_self, hEight]
  have hNat :
      (udpDataLen (u.packet p)).toNat =
        (2 ^ 32 - 8 + (8 + len.toNat) % 2 ^ 16) % 2 ^ 32 := by
    rw [hData]
    simp only [BitVec.toNat_sub, BitVec.toNat_setWidth,
      BitVec.toNat_add, BitVec.toNat_ofNat]
    omega
  rw [hState]
  constructor
  · intro hHeld
    have hCount := congrArg List.length hHeld
    rw [List.length_append, length_held, length_held,
      CyclicBuffer.length_front, Socket.append] at hCount
    split at hCount
    next hFits =>
      simp only [BitVec.toNat_add] at hCount
      omega
    next hFull =>
      rw [BitVec.le_def, BitVec.toNat_add] at hFull
      omega
  · intro hShort
    have hSame :
        (udpDataLen (u.packet p)).toNat = len.toNat := by
      omega
    have hWrap :
        (net.socket q).recvLen.toNat +
            (udpDataLen (u.packet p)).toNat < 2 ^ 32 := by
      omega
    rw [append_held hWrap, hSame, if_pos hRoom]
    congr 1
    exact CyclicBuffer.front_congr hSkb.payload

end Datagram

/- A socket that is bound to port 7 -/
def receiverState : NetState :=
  netAfter
    [.udpSocket socketTypeDgram 0,
      .bind (some 0x200000#64) (some ipAny) 7#16]

/- The packet for `len` bytes from port 0 to port 7 -/
def sentPacket (len : U32) : Packet :=
  match udpBuild skbBooted (netBooted.socket 0#64)
      (fun _ => 0x41#8) len 7#16 with
  | some (p, u) => u.packet p
  | none => ⟨fun _ => 0#8, 0#32⟩

theorem sentPacket_sent
    (len : U32)
    (hRet :
      (udpSendto (loneDevice (some 0)) skbBooted
          (some (netBooted.socket 0#64)) (some fun _ => 0x41#8)
          len (some ipAny) 7#16).map Prod.fst =
        some len.toInt)
    (hBuilt :
      (udpBuild skbBooted (netBooted.socket 0#64)
        (fun _ => 0x41#8) len 7#16).isSome) :
    UdpSent (loneDevice (some 0)) skbBooted
      (netBooted.socket 0#64) (fun _ => 0x41#8) len ipAny 7#16
      (sentPacket len) := by
  constructor
  · rcases Option.map_eq_some_iff.mp hRet with
      ⟨⟨ret, t⟩, hCall, hEq⟩
    cases hEq
    exact ⟨t, hCall⟩
  · rcases Option.isSome_iff_exists.mp hBuilt with ⟨⟨p, u⟩, hEq⟩
    refine ⟨p, u, hEq, ?_⟩
    delta sentPacket
    rw [hEq]

/- Four bytes are received as they were sent. -/
theorem udp_encode_decode_iff_four :
    ((udpRx receiverState (some (sentPacket 4#32))).state.socket
        0x200000#64).held =
      (receiverState.socket 0x200000#64).held ++
        front (fun _ => 0x41#8) 4 := by
  have hSent := sentPacket_sent 4#32 (by decide +kernel)
    (by decide +kernel)
  exact (udp_encode_decode_iff hSent (by decide +kernel)
    (by decide +kernel)).mpr (by decide)

/- The field for the length holds 0, and nothing is received. -/
theorem long_datagram_dropped :
    ¬ ∀ (devices : NetDevices) (s : SkbState) (sock : Socket)
        (data : Bytes) (len : U32) (dest : IpAddr) (port : U16)
        (skb : Packet) (net : NetState) (q : Addr),
      UdpSent devices s sock data len dest port skb →
      udpTarget net skb = some q →
      (net.socket q).recvLen.toNat + len.toNat ≤
        tcpRcvBufSize.toNat →
      ((udpRx net (some skb)).state.socket q).held =
        (net.socket q).held ++ front data len.toNat := by
  intro hAll
  have hSent := sentPacket_sent 65528#32 (by decide +kernel)
    (by decide +kernel)
  have hHeld := hAll _ _ _ _ _ _ _ _ receiverState 0x200000#64
    hSent (by decide +kernel) (by decide +kernel)
  have hCount := congrArg List.length hHeld
  rw [List.length_append, length_held, length_held,
    CyclicBuffer.length_front] at hCount
  revert hCount
  decide +kernel

end FeatherOS
