import FeatherOS.Net.SingleBit

/-
  The packets that the IP layer hands on.

  A handler gets everything behind the header, whatever the
  packet says of its own length, and a header may say that it
  is shorter than the structure that is read.

  Key definitions include:
    * `Packet.WellFormedIp`
    * `Packet.ipPayload`
    * `ipDispatched`
    * `IpRxRight`

  Key theorems include:
    * `ipDispatched_iff`
    * `ipRx_right_iff`
    * `ipRx_padded`
-/

namespace FeatherOS

open CyclicBuffer (front)

--------------------
-- Packets
--------------------

/- total_len, in the byte order of the host -/
def Packet.totalLen (skb : Packet) : Nat :=
  (ipNtohs (Bytes.u16 skb.data 2)).toNat

/- The lengths agree with each other and with the buffer. -/
structure Packet.WellFormedIp (skb : Packet) : Prop where
  version : skb.ipHeader.version = ipVersion4
  header : sizeofIpHeader.toNat ≤ skb.ipHeader.len.toNat
  checksum :
    ipChecksum (skb.bytes skb.ipHeader.len.toNat) = 0#16
  total : skb.ipHeader.len.toNat ≤ skb.totalLen
  within : skb.totalLen ≤ skb.len.toNat

/- The data without its header and what follows the packet -/
def Packet.ipPayload (skb : Packet) : List U8 :=
  front (fun i => skb.data (skb.ipHeader.len.toNat + i))
    (skb.totalLen - skb.ipHeader.len.toNat)

/- The protocols that have a branch of their own -/
def ipHandled (proto : U8) : Prop :=
  proto = BitVec.ofInt 8 ipProtoTcp ∨
    proto = BitVec.ofInt 8 ipProtoUdp ∨
      proto = BitVec.ofInt 8 ipProtoIcmp

instance (proto : U8) : Decidable (ipHandled proto) :=
  inferInstanceAs (Decidable (_ ∨ _ ∨ _))

/-
  The protocol whose branch `ip_rx` takes, and the buffers as
  that branch finds them.
-/
def ipDispatched
    (s : SkbState)
    (p : Addr) :
    Option (U8 × SkbState) :=
  let skb := s.packet p
  let hdr := skb.ipHeader
  if skb.len < sizeofIpHeader then
    none
  else if hdr.version ≠ ipVersion4 then
    none
  else if skb.len < hdr.len then
    none
  else if ipChecksum (skb.bytes hdr.len.toNat) ≠ 0#16 then
    none
  else if ipHandled hdr.proto then
    some (hdr.proto, (skbPull s (some p) hdr.len).2)
  else
    none

/- What a packet that is not handed on comes to -/
structure IpDropped
    (s : SkbState)
    (net : NetState)
    (p : Addr) : Prop where
  ret : (ipRx s net (some p)).1 = -1
  freed : (ipRx s net (some p)).2.1.freed = s.freed ++ [p]
  unchanged : (ipRx s net (some p)).2.2 = net

/-
  Only a well-formed packet gets to a handler, which finds
  its payload in the buffer, and every other one is dropped.
-/
structure IpRxRight
    (s : SkbState)
    (net : NetState)
    (p : Addr) : Prop where
  handled : ∀ proto t, ipDispatched s p = some (proto, t) →
    ipRx s net (some p) = ipHandle t net p proto
  wellFormed : ∀ proto t, ipDispatched s p = some (proto, t) →
    (s.packet p).WellFormedIp
  payload : ∀ proto t, ipDispatched s p = some (proto, t) →
    (t.packet p).bytes (t.packet p).len.toNat =
      (s.packet p).ipPayload
  dropped : ipDispatched s p = none → IpDropped s net p

/-
  Nothing is handed on, or the header is no shorter than the
  structure and the packet fills the buffer.
-/
def IpRxOk (skb : Packet) : Prop :=
  skb.IpAccepted → ipHandled skb.ipHeader.proto →
    sizeofIpHeader.toNat ≤ skb.ipHeader.len.toNat ∧
      skb.totalLen = skb.len.toNat

--------------------
-- Handing On
--------------------

section Received

variable {s : SkbState}
variable {net : NetState}
variable {p : Addr}

/- The buffers with the header taken off -/
def SkbState.pullHeader
    (s : SkbState)
    (p : Addr) : SkbState :=
  s.modifySkb p fun b => b.pull (s.packet p).ipHeader.len

theorem ipDispatched_iff
    {proto : U8}
    {t : SkbState} :
    ipDispatched s p = some (proto, t) ↔
      (s.packet p).IpAccepted ∧
        ipHandled (s.packet p).ipHeader.proto ∧
          proto = (s.packet p).ipHeader.proto ∧
            t = s.pullHeader p := by
  by_cases hAccepted : (s.packet p).IpAccepted
  · have hHeader : ¬ (s.packet p).len < sizeofIpHeader :=
      Nat.not_lt.mpr hAccepted.header
    have hLength :
        ¬ (s.packet p).len < (s.packet p).ipHeader.len :=
      Nat.not_lt.mpr hAccepted.length
    have hPull :
        (skbPull s (some p) (s.packet p).ipHeader.len).2 =
          s.pullHeader p := by
      rw [skbPull]
      exact congrArg Prod.snd (if_neg hLength)
    simp only [ipDispatched, if_neg hHeader, if_neg hLength,
      hAccepted.version, hAccepted.checksum, ne_eq,
      not_true_eq_false, if_false, hPull]
    split
    next hHandled =>
      simp [hAccepted, hHandled, eq_comm]
    next hHandled => simp [hHandled]
  · refine iff_of_false ?_ fun h => hAccepted h.1
    simp only [ipDispatched]
    split_ifs with hHeader hVersion hLength hChecksum hHandled
    · rintro ⟨⟩
    · rintro ⟨⟩
    · rintro ⟨⟩
    · rintro ⟨⟩
    · intro _
      exact hAccepted
        ⟨Nat.not_lt.mp hHeader, not_not.mp hVersion,
          Nat.not_lt.mp hLength, not_not.mp hChecksum⟩
    · rintro ⟨⟩

theorem ipDispatched_none :
    ipDispatched s p = none ↔
      ((s.packet p).IpAccepted →
        ¬ ipHandled (s.packet p).ipHeader.proto) := by
  constructor
  · intro hNone hAccepted hHandled
    have hSome := ipDispatched_iff.mpr
      ⟨hAccepted, hHandled, rfl, rfl⟩
    rw [hNone] at hSome
    cases hSome
  · intro hNot
    cases hSome : ipDispatched s p with
    | none => rfl
    | some pair =>
        rcases ipDispatched_iff.mp hSome with
          ⟨hAccepted, hHandled, _⟩
        exact absurd hHandled (hNot hAccepted)

/- A packet that gets to no handler is dropped. -/
theorem ipRx_dropped
    (hNone : ipDispatched s p = none) :
    IpDropped s net p := by
  by_cases hAccepted : (s.packet p).IpAccepted
  · have hProto := ipDispatched_none.mp hNone hAccepted
    simp only [ipHandled, not_or] at hProto
    have hRx :
        ipRx s net (some p) =
          (-1, skbFree (s.pullHeader p) (some p), net) := by
      rw [ipRx_of_accepted hAccepted, ipHandle]
      rw [if_neg hProto.1, if_neg hProto.2.1,
        if_neg hProto.2.2]
      rfl
    constructor <;> rw [hRx]
    rfl
  · have hRx := ipRx_of_rejected hAccepted net
    constructor <;> rw [hRx]
    rfl

/- The data behind the header -/
theorem pullHeader_data
    (i : Nat) :
    ((s.pullHeader p).packet p).data i =
      (s.packet p).data
        ((s.packet p).ipHeader.len.toNat + i) := by
  have hWide :
      (s.packet p).ipHeader.len.setWidth 64 =
        BitVec.ofNat 64 (s.packet p).ipHeader.len.toNat := by
    apply BitVec.eq_of_toNat_eq
    rw [BitVec.toNat_setWidth, BitVec.toNat_ofNat]
  simp only [SkbState.pullHeader, SkbState.packet,
    SkbState.modifySkb, Function.update_self, SkBuff.pull]
  rw [BitVec.ofNat_add, ← BitVec.add_assoc]
  exact congrArg
    (fun x => s.memory ((s.skbs p).data + x + BitVec.ofNat 64 i))
    hWide

theorem pullHeader_len
    (hLength :
      (s.packet p).ipHeader.len.toNat ≤ (s.packet p).len.toNat) :
    ((s.pullHeader p).packet p).len.toNat =
      (s.packet p).len.toNat -
        (s.packet p).ipHeader.len.toNat := by
  have hLen :
      ((s.pullHeader p).packet p).len =
        (s.packet p).len - (s.packet p).ipHeader.len := by
    simp only [SkbState.pullHeader, SkbState.modifySkb,
      SkbState.packet, Function.update_self, SkBuff.pull]
  rw [hLen, BitVec.toNat_sub_of_le hLength]

/- The handler finds the payload and what is behind it. -/
theorem pullHeader_bytes
    (hLength :
      (s.packet p).ipHeader.len.toNat ≤ (s.packet p).len.toNat) :
    ((s.pullHeader p).packet p).bytes
        ((s.pullHeader p).packet p).len.toNat =
      front
        (fun i => (s.packet p).data
          ((s.packet p).ipHeader.len.toNat + i))
        ((s.packet p).len.toNat -
          (s.packet p).ipHeader.len.toNat) := by
  rw [Packet.bytes, pullHeader_len hLength]
  exact CyclicBuffer.front_congr fun i _ => pullHeader_data i

end Received

/-
  A packet is received as it should be if and only if it
  fails a test, has no handler, or has a header of full size
  and a total length that is the size of the buffer.
-/
theorem ipRx_right_iff
    (s : SkbState)
    (net : NetState)
    (p : Addr) :
    IpRxRight s net p ↔ IpRxOk (s.packet p) := by
  constructor
  · intro hRight hAccepted hHandled
    have hSome := ipDispatched_iff.mpr
      ⟨hAccepted, hHandled, rfl, rfl⟩
    have hWell := hRight.wellFormed _ _ hSome
    have hPayload := congrArg List.length
      (hRight.payload _ _ hSome)
    have hLength := hAccepted.length
    have hTotal := hWell.total
    rw [pullHeader_bytes hLength, Packet.ipPayload,
      CyclicBuffer.length_front, CyclicBuffer.length_front]
      at hPayload
    exact ⟨hWell.header, by omega⟩
  · intro hOk
    refine ⟨?_, ?_, ?_, ipRx_dropped⟩
    · intro proto t hSome
      rcases ipDispatched_iff.mp hSome with
        ⟨hAccepted, _, rfl, rfl⟩
      exact ipRx_of_accepted hAccepted net
    · intro proto t hSome
      rcases ipDispatched_iff.mp hSome with
        ⟨hAccepted, hHandled, _⟩
      rcases hOk hAccepted hHandled with ⟨hHeader, hTotal⟩
      exact ⟨hAccepted.version, hHeader, hAccepted.checksum,
        hTotal ▸ hAccepted.length, Nat.le_of_eq hTotal⟩
    · intro proto t hSome
      rcases ipDispatched_iff.mp hSome with
        ⟨hAccepted, hHandled, _, rfl⟩
      rw [pullHeader_bytes hAccepted.length, Packet.ipPayload,
        (hOk hAccepted hHandled).2]

/-
  An empty datagram in the smallest frame of an Ethernet: 26
  bytes are handed on for its 8.
-/
def paddedDatagram : List U8 :=
  ipBuildHeader ipAny ipAny 17#8 8#16 ++ List.replicate 26 0#8

theorem ipRx_padded :
    ¬ ∀ (s : SkbState) (net : NetState) (p : Addr),
      IpRxRight s net p := by
  intro hAll
  have hRight := hAll (skbReceived paddedDatagram) netBooted 0#64
  have hPayload := hRight.payload 17#8
    ((skbReceived paddedDatagram).pullHeader 0#64)
    (ipDispatched_iff.mpr
      ⟨⟨by decide +kernel, by decide +kernel, by decide +kernel,
        by decide +kernel⟩, by decide +kernel, by decide +kernel,
        rfl⟩)
  revert hPayload
  decide +kernel

end FeatherOS
