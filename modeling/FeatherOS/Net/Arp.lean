import FeatherOS.Net.ArpCache
import FeatherOS.Net.Frame
import Mathlib.Data.List.GetD

/-
  Receiving Ethernet frames.

  `eth_rx` hands ARP packets to `arp_rx` and drops the others.
  A frame is freed on every path, and the only other trace it
  leaves is in the ARP cache. The statistics and the messages
  on the console are left out.

  Key definitions include:
    * `ethRx`
    * `arpRx`
    * `Packet.ethMessage`
    * `learn`

  Key theorems include:
    * `ethRx_spec`
    * `arpRequest_frame`
    * `arp_request_claims`
-/

namespace FeatherOS

--------------------
-- Headers
--------------------

/- ARP_HWTYPE_ETH and ARP_PRO_IP -/
def arpHwtypeEth : U16 := 1#16
def arpProIp : U16 := 0x0800#16

/- ARP_OP_REQUEST and ARP_OP_REPLY -/
def arpOpRequest : U16 := 1#16
def arpOpReply : U16 := 2#16

/- arp_header_t, as far as more than a message is made of it -/
structure ArpHeader where
  hwType : U16
  proto : U16
  hwLen : U8
  protoLen : U8
  op : U16
  shwAddr : MacAddr
  sipAddr : Vector U8 4

def Packet.arpHeader (skb : Packet) : ArpHeader where
  hwType := Bytes.u16 skb.data 0
  proto := Bytes.u16 skb.data 2
  hwLen := skb.data 4
  protoLen := skb.data 5
  op := Bytes.u16 skb.data 6
  shwAddr := .ofFn fun i => skb.data (8 + i)
  sipAddr := .ofFn fun i => skb.data (14 + i)

/- The `type` of an eth_header_t -/
def Packet.ethType (skb : Packet) : U16 :=
  Bytes.u16 skb.data 12

/- The packet that `arp_rx` takes for an ARP packet -/
def ArpHeader.Verified (arp : ArpHeader) : Prop :=
  arp.hwType = arpHwtypeEth ∧ arp.proto = arpProIp ∧
    arp.hwLen = 6#8 ∧ arp.protoLen = 4#8

instance (arp : ArpHeader) : Decidable arp.Verified :=
  inferInstanceAs
    (Decidable
      (arp.hwType = arpHwtypeEth ∧ arp.proto = arpProIp ∧
        arp.hwLen = 6#8 ∧ arp.protoLen = 4#8))

--------------------
-- Receiving
--------------------

/- What receiving a frame changes -/
structure LinkState where
  skb : SkbState
  arp : ArpState

/- `uptime` is what `get_uptime_ms` answers. -/
def arpRx
    (uptime : U64)
    (s : LinkState)
    (skb : Option Addr) :
    Int × LinkState :=
  match skb with
  | none => (-1, s)
  | some p =>
      let packet := s.skb.packet p
      let arp := packet.arpHeader
      let freed := skbFree s.skb (some p)
      if packet.len < sizeofArpHeader then
        (-1, { s with skb := freed })
      else if ¬ arp.Verified then
        (-1, { s with skb := freed })
      else if arp.op = arpOpRequest then
        (0,
          { skb := freed
            arp :=
              arpAdd s.arp uptime (some arp.sipAddr)
                (some arp.shwAddr) })
      else if arp.op = arpOpReply then
        (0,
          { skb := freed
            arp :=
              arpAdd s.arp uptime (some arp.sipAddr)
                (some arp.shwAddr) })
      else
        (0, { s with skb := freed })

/- The answer of `skb_pull` is not looked at. -/
def ethRx
    (uptime : U64)
    (s : LinkState)
    (skb : Option Addr) :
    Int × LinkState :=
  match skb with
  | none => (-1, s)
  | some p =>
      let type := (s.skb.packet p).ethType
      let pulled := (skbPull s.skb (some p) sizeofEthHeader).2
      let received :=
        pulled.modifySkb p fun b => { b with protocol := type }
      if type = ethPIp then
        (0, { s with skb := skbFree received (some p) })
      else if type = ethPArp then
        arpRx uptime { s with skb := received } (some p)
      else
        (0, { s with skb := skbFree received (some p) })

--------------------
-- What a Frame Says
--------------------

/- An IP address, and the hardware address said to have it -/
abbrev ArpMessage := Vector U8 4 × MacAddr

/- The message of an ARP packet -/
def Packet.arpMessage (skb : Packet) : Option ArpMessage :=
  if sizeofArpHeader ≤ skb.len ∧ skb.arpHeader.Verified ∧
      (skb.arpHeader.op = arpOpRequest ∨
        skb.arpHeader.op = arpOpReply) then
    some (skb.arpHeader.sipAddr, skb.arpHeader.shwAddr)
  else
    none

/- The packet behind the Ethernet header -/
def Packet.ethPayload (skb : Packet) : Packet where
  data := fun i => skb.data (14 + i)
  len := skb.len - sizeofEthHeader

/- The message of a frame -/
def Packet.ethMessage (skb : Packet) : Option ArpMessage :=
  if sizeofEthHeader ≤ skb.len ∧ skb.ethType = ethPArp then
    skb.ethPayload.arpMessage
  else
    none

def learn
    (uptime : U64)
    (message : Option ArpMessage)
    (s : ArpState) : ArpState :=
  match message with
  | none => s
  | some (ip, mac) => arpAdd s uptime (some ip) (some mac)

/- The record of a frame that went through `eth_rx` -/
def SkBuff.received
    (b : SkBuff)
    (type : U16) : SkBuff :=
  { (if b.len < sizeofEthHeader then b
      else b.pull sizeofEthHeader) with
    protocol := type }

/- A packet is freed, and its message is learned. -/
theorem arpRx_spec
    (uptime : U64)
    (s : LinkState)
    (p : Addr) :
    (arpRx uptime s (some p)).2 =
      { skb := skbFree s.skb (some p)
        arp :=
          learn uptime (s.skb.packet p).arpMessage s.arp } := by
  simp only [arpRx, Packet.arpMessage]
  generalize s.skb.packet p = packet
  by_cases hShort : packet.len < sizeofArpHeader
  · have hLong : ¬ sizeofArpHeader ≤ packet.len :=
      BitVec.not_le.mpr hShort
    simp only [hShort, hLong, if_true, false_and, if_false, learn]
  · have hLong : sizeofArpHeader ≤ packet.len :=
      BitVec.not_lt.mp hShort
    by_cases hVerified : packet.arpHeader.Verified
    · by_cases hRequest : packet.arpHeader.op = arpOpRequest
      · simp only [hShort, hLong, hVerified, hRequest, learn,
          not_true, if_true, if_false, true_and, true_or]
      · by_cases hReply : packet.arpHeader.op = arpOpReply
        · have hNot : arpOpReply ≠ arpOpRequest := by decide
          simp only [hShort, hLong, hVerified, hReply, hNot, learn,
            not_true, if_true, if_false, true_and, or_true]
        · simp only [hShort, hLong, hVerified, hRequest, hReply,
            learn, not_true, if_false, true_and, or_self]
    · simp only [hShort, hVerified, learn, not_false_eq_true,
        if_true, if_false, false_and, and_false]

theorem skbPull_skbs
    (s : SkbState)
    (p : Addr)
    (type : U16) :
    ((skbPull s (some p) sizeofEthHeader).2.modifySkb p
        fun b => { b with protocol := type }) =
      s.modifySkb p fun b => b.received type := by
  unfold skbPull SkBuff.received
  by_cases hShort : (s.skbs p).len < sizeofEthHeader
  · simp only [hShort, if_true, SkbState.modifySkb]
  · simp only [hShort, if_false, SkbState.modifySkb,
      Function.update_self, Function.update_idem]

/- What `arp_rx` is given of a frame -/
theorem packet_received
    (s : SkbState)
    (p : Addr)
    (type : U16)
    (hLong : sizeofEthHeader ≤ (s.packet p).len) :
    (s.modifySkb p fun b => b.received type).packet p =
      (s.packet p).ethPayload := by
  have hPulled : ¬ (s.skbs p).len < sizeofEthHeader :=
    BitVec.not_lt.mpr hLong
  have hWide : sizeofEthHeader.setWidth 64 = BitVec.ofNat 64 14 := by
    decide
  unfold Packet.ethPayload SkbState.packet
  simp only [SkbState.modifySkb, Function.update_self,
    SkBuff.received, hPulled, if_false, SkBuff.pull, hWide,
    BitVec.ofNat_add, BitVec.add_assoc]

theorem packet_received_short
    (s : SkbState)
    (p : Addr)
    (type : U16)
    (hShort : (s.packet p).len < sizeofEthHeader) :
    (s.modifySkb p fun b => b.received type).packet p =
      s.packet p := by
  have hKept : (s.skbs p).len < sizeofEthHeader := hShort
  unfold SkbState.packet
  simp only [SkbState.modifySkb, Function.update_self,
    SkBuff.received, hKept, if_true]

/-
  A frame is freed whatever it is, no other record changes,
  and the cache learns what the frame says.
-/
theorem ethRx_spec
    (uptime : U64)
    (s : LinkState)
    (p : Addr) :
    (ethRx uptime s (some p)).2 =
      { skb :=
          skbFree
            (s.skb.modifySkb p fun b =>
              b.received (s.skb.packet p).ethType) (some p)
        arp :=
          learn uptime (s.skb.packet p).ethMessage s.arp } := by
  simp only [ethRx, skbPull_skbs]
  by_cases hArp : (s.skb.packet p).ethType = ethPArp
  · have hIp : ethPArp ≠ ethPIp := by decide
    rw [hArp, if_neg hIp, if_pos rfl, arpRx_spec]
    congr 2
    by_cases hLong : sizeofEthHeader ≤ (s.skb.packet p).len
    · rw [packet_received _ _ _ hLong, Packet.ethMessage,
        if_pos ⟨hLong, hArp⟩]
    · have hShort := BitVec.not_le.mp hLong
      have hNone : ¬ sizeofArpHeader ≤ (s.skb.packet p).len := by
        apply BitVec.not_le.mpr
        have hMore : sizeofEthHeader.toNat ≤ sizeofArpHeader.toNat := by
          decide
        exact BitVec.lt_def.mpr
          (Nat.lt_of_lt_of_le (BitVec.lt_def.mp hShort) hMore)
      rw [packet_received_short _ _ _ hShort, Packet.ethMessage,
        if_neg (fun h => hLong h.1), Packet.arpMessage,
        if_neg (fun h => hNone h.1)]
  · have hQuiet : (s.skb.packet p).ethMessage = none :=
      if_neg fun h => hArp h.2
    rw [if_neg hArp, hQuiet]
    split <;> rfl

--------------------
-- A Request That Is Received
--------------------

section Request

variable {devices : NetDevices}
variable {s t : SkbState}
variable {dev : Addr}
variable {ip : IpAddr}
variable {ret : Int}

/- The header itself is in front of the data. -/
theorem ethTx_header
    {p buf : Addr}
    {start : Nat}
    {size : U32}
    (hAt : DataAt s p buf start size)
    (hFits : 14 ≤ start)
    (hStart : start < 2 ^ 31)
    {dest : MacAddr}
    {type : U16}
    (hCall :
      ethTx devices s (some dev) (some p) dest type = (ret, t)) :
    ∀ i < 14,
      t.memory (buf + BitVec.ofNat 64 (start - 14 + i)) =
        (ethHeader dest (devices.device dev).mac type).getD i
          0#8 := by
  have hLen : sizeofEthHeader.toNat ≤ start := hFits
  have hSize : sizeofEthHeader.toNat = 14 := rfl
  have hBytes :=
    length_ethHeader dest (devices.device dev).mac type
  generalize hHdr :
    ethHeader dest (devices.device dev).mac type = hdr at hBytes
  have hWritten : ∀ i < 14,
      (((s.modifySkb p fun b => b.push sizeofEthHeader).write
        (buf + BitVec.ofNat 64 (start - 14)) hdr).memory
          (buf + BitVec.ofNat 64 (start - 14 + i))) =
        hdr.getD i 0#8 := by
    intro i hi
    have hIn : start - 14 ≤ start - 14 + i ∧
        start - 14 + i < start - 14 + hdr.length := by
      omega
    simp only [SkbState.write, SkbState.copyTo]
    rw [ByteMemory.patch_offset (by omega) (by omega), if_pos hIn,
      Nat.add_sub_cancel_left]
  simp only [ethTx, skbPush_of_dataAt hAt hLen hStart, hSize,
    hHdr] at hCall
  split at hCall
  next =>
    cases hCall
    exact hWritten
  next =>
    cases hCall
    exact hWritten

/- The frame of a request, in its buffer -/
theorem arpRequest_frame
    (hCall :
      arpRequest devices s (some dev) (some ip) = some (ret, t))
    (hSome : ¬ NoSkbMemory s sizeofArpHeader) :
    ∃ buf,
      DataAt t s.heap.heapPtr buf 50 42#32 ∧
        (∀ i < 14, t.memory (buf + BitVec.ofNat 64 (50 + i)) =
          (ethHeader macBroadcast (devices.device dev).mac
            ethPArp).getD i 0#8) ∧
        ∀ i < 28, t.memory (buf + BitVec.ofNat 64 (64 + i)) =
          (arpHeader (devices.device dev).mac ip).getD i 0#8 := by
  rcases skbAlloc_spec s sizeofArpHeader with
    ⟨hNone, _⟩ | ⟨_, heap, p, buf, hAlloc, hAt, _, _⟩
  · exact absurd hNone hSome
  · refine ⟨buf, ?_⟩
    rw [← hAt]
    have hPut := (DataAt.grant s heap p buf
      (skbTotalSize sizeofArpHeader)).put sizeofArpHeader
    have hTail :
        ((s.grant heap p buf
          (skbTotalSize sizeofArpHeader)).skbs p).tail =
          buf + BitVec.ofNat 64 64 := by
      simp only [SkbState.grant, Function.update_self, newSkb,
        skbHeadroom]
    simp only [arpRequest, hAlloc, skbPut, Option.bind_eq_bind,
      Option.bind_some, hTail] at hCall
    have hBytes :
        (arpHeader (devices.device dev).mac ip).length = 28 := by
      simp [arpHeader, length_bytes16]
    generalize arpHeader (devices.device dev).mac ip = hdr at *
    -- the state with the request in it
    generalize hu :
      SkbState.write
        (SkbState.modifySkb
          (s.grant heap p buf (skbTotalSize sizeofArpHeader))
          p fun b => b.put sizeofArpHeader)
        (buf + BitVec.ofNat 64 64) hdr = u at hCall
    have hU : DataAt u p buf 64 28#32 := by
      rw [← hu]
      exact ⟨hPut.head, hPut.data, hPut.len⟩
    have hSent := Option.some.inj hCall
    rcases ethTx_dataAt hU (by decide) (by decide) hSent with
      ⟨hLies, hSame⟩
    refine ⟨hLies, ?_, ?_⟩
    · exact ethTx_header hU (by decide) (by decide) hSent
    · intro i hi
      have hIn : 64 ≤ 64 + i ∧ 64 + i < 64 + hdr.length := by
        omega
      rw [hSame (64 + i) (by omega) (by omega), ← hu]
      simp only [SkbState.write, SkbState.copyTo]
      rw [ByteMemory.patch_offset (by omega) (by omega),
        if_pos hIn, Nat.add_sub_cancel_left]

/- A request that got to a device is a new frame. -/
theorem arpRequest_handed
    {p : Addr}
    (hCall :
      arpRequest devices s (some dev) (some ip) = some (ret, t))
    (hHanded : p ∈ t.handed.drop s.handed.length) :
    ¬ NoSkbMemory s sizeofArpHeader ∧ p = s.heap.heapPtr := by
  rcases arpRequest_spec devices s dev ip with
    ⟨_, t', hEq, _, _, hSame⟩ | ⟨_, _, hEq⟩ |
    ⟨hSome, _, t', hEq, _, _, hNew⟩
  · rw [hCall] at hEq
    cases hEq
    rw [hSame, List.drop_length] at hHanded
    cases hHanded
  · rw [hCall] at hEq
    cases hEq
  · rw [hCall] at hEq
    cases hEq
    rw [hNew, List.drop_left] at hHanded
    split at hHanded
    · cases hHanded
    · rw [BitVec.zero_add] at hSome
      exact ⟨hSome, List.mem_singleton.mp hHanded⟩

/- The parts of a request -/
theorem arpHeader_eq
    (mac : MacAddr)
    (ip : IpAddr) :
    arpHeader mac ip =
      [1#8, 0#8, 0#8, 8#8, 6#8, 4#8, 1#8, 0#8] ++
        (mac.toList ++ (ip.addr.toList ++
          (List.replicate 6 0#8 ++ ip.addr.toList))) := by
  simp [arpHeader, bytes16, ethPIp]

/- What the bytes of a request mean -/
theorem arpMessage_arpHeader
    {packet : Packet}
    {mac : MacAddr}
    (hLen : packet.len = 28#32)
    (hData : ∀ i < 28,
      packet.data i = (arpHeader mac ip).getD i 0#8) :
    packet.arpMessage = some (ip.addr, mac) := by
  rw [arpHeader_eq] at hData
  have hFixed : ∀ i < 8, packet.data i =
      [1#8, 0#8, 0#8, 8#8, 6#8, 4#8, 1#8, 0#8].getD i 0#8 := by
    intro i hi
    rw [hData i (by omega), List.getD_append _ _ _ _ hi]
  have hType : packet.arpHeader.hwType = arpHwtypeEth := by
    simp only [Packet.arpHeader, Bytes.u16, hFixed 0 (by decide),
      hFixed 1 (by decide)]
    rfl
  have hProto : packet.arpHeader.proto = arpProIp := by
    simp only [Packet.arpHeader, Bytes.u16, hFixed 2 (by decide),
      hFixed 3 (by decide)]
    rfl
  have hHwLen : packet.arpHeader.hwLen = 6#8 :=
    hFixed 4 (by decide)
  have hProtoLen : packet.arpHeader.protoLen = 4#8 :=
    hFixed 5 (by decide)
  have hOp : packet.arpHeader.op = arpOpRequest := by
    simp only [Packet.arpHeader, Bytes.u16, hFixed 6 (by decide),
      hFixed 7 (by decide)]
    rfl
  have hMac : packet.arpHeader.shwAddr = mac := by
    apply Vector.ext
    intro i hi
    simp only [Packet.arpHeader, Vector.getElem_ofFn]
    rw [hData (8 + i) (by omega), List.getD_append_right _ _ _ _
      (Nat.le_add_right 8 i), List.getD_append _ _ _ _
      (by simp; omega)]
    simp [hi]
  have hIp : packet.arpHeader.sipAddr = ip.addr := by
    apply Vector.ext
    intro i hi
    have hIndex : 14 + i - 8 - 6 = i := by omega
    simp only [Packet.arpHeader, Vector.getElem_ofFn]
    rw [hData (14 + i) (by omega), List.getD_append_right _ _ _ _
      (by simp; omega), List.getD_append_right _ _ _ _ (by simp; omega),
      List.getD_append _ _ _ _ (by simp; omega)]
    simp [hIndex, hi]
  have hLong : sizeofArpHeader ≤ packet.len := by
    rw [hLen]
    decide
  rw [Packet.arpMessage,
    if_pos ⟨hLong, ⟨hType, hProto, hHwLen, hProtoLen⟩, .inl hOp⟩,
    hMac, hIp]

theorem ethMessage_arpRequest
    {p : Addr}
    (hCall :
      arpRequest devices s (some dev) (some ip) = some (ret, t))
    (hHanded : p ∈ t.handed.drop s.handed.length) :
    (t.packet p).ethMessage =
      some (ip.addr, (devices.device dev).mac) := by
  rcases arpRequest_handed hCall hHanded with ⟨hSome, hAt⟩
  rcases arpRequest_frame hCall hSome with
    ⟨buf, hLies, hEth, hArp⟩
  rw [← hAt] at hLies
  have hLen : (t.packet p).len = 42#32 := hLies.len
  have hRead := hLies.packet_data
  have hType : (t.packet p).ethType = ethPArp := by
    simp only [Packet.ethType, Bytes.u16, hRead]
    rw [hEth 12 (by decide), hEth 13 (by decide)]
    simp [ethHeader, bytes16]
    rfl
  have hLong : sizeofEthHeader ≤ (t.packet p).len := by
    rw [hLen]
    decide
  rw [Packet.ethMessage, if_pos ⟨hLong, hType⟩]
  apply arpMessage_arpHeader
  · simp only [Packet.ethPayload, hLen]
    rfl
  · intro i hi
    simp only [Packet.ethPayload, hRead, ← Nat.add_assoc]
    exact hArp i hi

end Request

theorem arpLookup_learn
    {s : ArpState}
    {ip : Vector U8 4}
    (hRoom : ArpRoom s ip)
    (uptime : U64)
    (mac : MacAddr) :
    (arpLookup (learn uptime (some (ip, mac)) s) (some ip)).1 =
      some mac := by
  rcases cache_arpAdd s uptime ip mac with ⟨e, hKey, hMac, hCache⟩
  rw [learn, arpLookup_find, hCache, KeyedSlots.find_store_self hKey
    ((arpRoom_iff s ip).mp hRoom), ← hMac]
  rfl

theorem arpLookup_learn_other
    {s : ArpState}
    {ip other : Vector U8 4}
    (hOther : other ≠ ip)
    (uptime : U64)
    (mac : MacAddr) :
    (arpLookup (learn uptime (some (ip, mac)) s)
        (some other)).1 =
      (arpLookup s (some other)).1 := by
  rcases cache_arpAdd s uptime ip mac with ⟨e, hKey, _, hCache⟩
  rw [learn, arpLookup_find, arpLookup_find, hCache,
    KeyedSlots.find_store_other hKey hOther]

/-
  A request names the address it asks for as its sender's. So
  whoever receives one and has room in the cache believes that
  the asking device has that address; what is known of other
  addresses stays.
-/
theorem arp_request_claims
    (devices : NetDevices)
    (s t : SkbState)
    (dev : Addr)
    (ip : IpAddr)
    (ret : Int)
    (p : Addr)
    (hCall :
      arpRequest devices s (some dev) (some ip) = some (ret, t))
    (hHanded : p ∈ t.handed.drop s.handed.length)
    (uptime : U64)
    (cache : ArpState)
    (hRoom : ArpRoom cache ip.addr) :
    let u := (ethRx uptime ⟨t, cache⟩ (some p)).2
    (arpLookup u.arp (some ip.addr)).1 =
        some (devices.device dev).mac ∧
      (∀ other, other ≠ ip.addr →
        (arpLookup u.arp (some other)).1 =
          (arpLookup cache (some other)).1) ∧
      u.skb.freed = t.freed ++ [p] := by
  have hMessage := ethMessage_arpRequest hCall hHanded
  simp only [ethRx_spec, hMessage]
  refine ⟨arpLookup_learn hRoom uptime _, ?_, rfl⟩
  intro other hOther
  exact arpLookup_learn_other hOther uptime _

/- No address is known. -/
def arpEmpty : ArpState where
  cache := .replicate arpCacheSize .zero
  arpCacheHits := 0
  arpCacheMisses := 0

/- A request for 10.0.0.1, received where nothing is known -/
theorem arp_request_claims_first :
    ∃ t,
      arpRequest (loneDevice (some 0)) skbBooted
          (some 0x1000#64) (some ⟨#v[10, 0, 0, 1]⟩) =
        some (0, t) ∧
      (arpLookup (ethRx 5#64 ⟨t, arpEmpty⟩
          (some 0x200000#64)).2.arp
        (some #v[10, 0, 0, 1])).1 = some macBroadcast := by
  rcases arpRequest_spec (loneDevice (some 0)) skbBooted
      0x1000#64 ⟨#v[10, 0, 0, 1]⟩ with
    ⟨hNone, _⟩ | ⟨_, hSize, _⟩ | ⟨_, _, t, hCall, _, _, hNew⟩
  · exfalso
    revert hNone
    unfold NoSkbMemory
    decide +kernel
  · exact absurd (by decide) hSize
  · refine ⟨t, hCall, ?_⟩
    have hMem :
        0x200000#64 ∈ t.handed.drop skbBooted.handed.length := by
      rw [hNew]
      exact List.mem_singleton_self _
    have hRoom : ArpRoom arpEmpty #v[10, 0, 0, 1] := by
      refine ⟨.zero, ?_, nofun⟩
      simp [arpEmpty, arpCacheSize]
    exact (arp_request_claims _ skbBooted t _ _ _ _ hCall hMem
      5#64 arpEmpty hRoom).1

end FeatherOS
