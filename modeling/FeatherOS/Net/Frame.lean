import FeatherOS.Net.Ip

/-
  The frames that `ip_tx` gives to a device.

  A buffer is filled from its payload to the front, one header
  after the other, so each header leaves alone what was
  written before.

  Key definitions include:
    * `DataAt`
    * `HoldsFrame`

  Key theorems include:
    * `ethTx_dataAt`
    * `ipTx_frame`
    * `ip_encode_decode`
-/

namespace FeatherOS

open CyclicBuffer (front)

--------------------
-- A Buffer That Is Filled
--------------------

/- `size` bytes of data start `at` bytes into a buffer. -/
structure DataAt
    (s : SkbState)
    (p buf : Addr)
    (start : Nat)
    (size : U32) : Prop where
  head : (s.skbs p).head = buf
  data : (s.skbs p).data = buf + BitVec.ofNat 64 start
  len : (s.skbs p).len = size

/- The bytes of a buffer from some place on are the same. -/
def SameFrom
    (buf : Addr)
    (start : Nat)
    (t s : SkbState) : Prop :=
  ∀ x, start ≤ x → x < 2 ^ 63 →
    t.memory (buf + BitVec.ofNat 64 x) =
      s.memory (buf + BitVec.ofNat 64 x)

variable {len : U32}

section DataAt

variable {s : SkbState}
variable {p buf : Addr}
variable {start : Nat}
variable {size : U32}

theorem DataAt.grant
    (s : SkbState)
    (heap : Heap)
    (p buf : Addr)
    (total : U32) :
    DataAt (s.grant heap p buf total) p buf 64 0#32 := by
  constructor <;>
    simp only [SkbState.grant, Function.update_self, newSkb,
      skbHeadroom]

theorem DataAt.put
    (hAt : DataAt s p buf start size)
    (len : U32) :
    DataAt (s.modifySkb p fun b => b.put len) p buf start
      (size + len) := by
  constructor <;>
    simp only [SkbState.modifySkb, Function.update_self,
      SkBuff.put, hAt.head, hAt.data, hAt.len]

theorem DataAt.mark
    (hAt : DataAt s p buf start size)
    {f : SkBuff → SkBuff}
    (hHead : ∀ b, (f b).head = b.head)
    (hData : ∀ b, (f b).data = b.data)
    (hLen : ∀ b, (f b).len = b.len) :
    DataAt (s.modifySkb p f) p buf start size := by
  constructor <;>
    simp only [SkbState.modifySkb, Function.update_self, hHead,
      hData, hLen, hAt.head, hAt.data, hAt.len]

/- The room before the data is as much as it starts behind. -/
theorem DataAt.room
    (hAt : DataAt s p buf start size) :
    Room s p (BitVec.ofNat 64 start) := by
  rw [Room, hAt.data, hAt.head, BitVec.add_comm,
    BitVec.add_sub_cancel]

theorem DataAt.push
    (hAt : DataAt s p buf start size)
    (hFits : len.toNat ≤ start) :
    DataAt (s.modifySkb p fun b => b.push len) p buf
      (start - len.toNat) (size + len) := by
  constructor
  · simp only [SkbState.modifySkb, Function.update_self,
      SkBuff.push, hAt.head]
  · simp only [SkbState.modifySkb, Function.update_self,
      SkBuff.push, hAt.data]
    have hLen :
        BitVec.ofNat 64 start =
          BitVec.ofNat 64 (start - len.toNat) +
            len.setWidth 64 := by
      apply BitVec.eq_of_toNat_eq
      rw [BitVec.toNat_add, BitVec.toNat_ofNat,
        BitVec.toNat_ofNat, BitVec.toNat_setWidth]
      omega
    rw [hLen, ← BitVec.add_assoc, BitVec.add_sub_cancel]
  · simp only [SkbState.modifySkb, Function.update_self,
      SkBuff.push, hAt.len]

theorem DataAt.pull
    (hAt : DataAt s p buf start size)
    (len : U32) :
    DataAt (s.modifySkb p fun b => b.pull len) p buf
      (start + len.toNat) (size - len) := by
  constructor
  · simp only [SkbState.modifySkb, Function.update_self,
      SkBuff.pull, hAt.head]
  · have hWide : len.setWidth 64 = BitVec.ofNat 64 len.toNat := by
      apply BitVec.eq_of_toNat_eq
      rw [BitVec.toNat_setWidth, BitVec.toNat_ofNat]
    simp only [SkbState.modifySkb, Function.update_self,
      SkBuff.pull, hAt.data, hWide, BitVec.ofNat_add,
      BitVec.add_assoc]
  · simp only [SkbState.modifySkb, Function.update_self,
      SkBuff.pull, hAt.len]

/- What a protocol reads of the data -/
theorem DataAt.packet_data
    (hAt : DataAt s p buf start size)
    (i : Nat) :
    (s.packet p).data i =
      s.memory (buf + BitVec.ofNat 64 (start + i)) := by
  simp only [SkbState.packet, hAt.data, BitVec.ofNat_add,
    BitVec.add_assoc]

theorem skbPush_of_dataAt
    (hAt : DataAt s p buf start size)
    (hFits : len.toNat ≤ start)
    (hStart : start < 2 ^ 31) :
    skbPush s (some p) len =
      (some (buf + BitVec.ofNat 64 (start - len.toNat)),
        s.modifySkb p fun b => b.push len) := by
  have hNat : (BitVec.ofNat 64 start).toNat = start := by
    rw [BitVec.toNat_ofNat]
    omega
  have hRoom : ¬ (BitVec.ofNat 64 start).toInt < len.toInt := by
    rw [BitVec.toInt_eq_toNat_of_lt (by omega),
      BitVec.toInt_eq_toNat_of_lt (by omega), hNat]
    omega
  have hData := (hAt.push hFits).data
  simp only [SkbState.modifySkb, Function.update_self] at hData
  rw [skbPush_of_room hAt.room hRoom, hData]

theorem SameFrom.write
    (s : SkbState)
    (buf : Addr)
    {y : Nat}
    {bytes : List U8}
    (hEnd : y + bytes.length ≤ start) :
    SameFrom buf start (s.write (buf + BitVec.ofNat 64 y) bytes)
      s := by
  intro x hFrom hx
  have hOut : ¬ (y ≤ x ∧ x < y + bytes.length) := by omega
  simp only [SkbState.write, SkbState.copyTo]
  rw [ByteMemory.patch_offset (by omega) (by omega),
    if_neg hOut]

theorem length_ethHeader
    (dest src : MacAddr)
    (type : U16) :
    (ethHeader dest src type).length = 14 := by
  simp [ethHeader, length_bytes16]

/- The header goes before the data, which is left alone. -/
theorem ethTx_dataAt
    (hAt : DataAt s p buf start size)
    (hFits : 14 ≤ start)
    (hStart : start < 2 ^ 31)
    {devices : NetDevices}
    {dev : Addr}
    {dest : MacAddr}
    {type : U16}
    {ret : Int}
    {t : SkbState}
    (hCall :
      ethTx devices s (some dev) (some p) dest type = (ret, t)) :
    DataAt t p buf (start - 14) (size + 14#32) ∧
      SameFrom buf start t s := by
  have hLen : sizeofEthHeader.toNat ≤ start := hFits
  have hEnd :
      start - sizeofEthHeader.toNat +
          (ethHeader dest (devices.device dev).mac type).length ≤
        start := by
    rw [length_ethHeader]
    exact Nat.sub_add_cancel hFits |>.le
  have hSame := SameFrom.write
    (s.modifySkb p fun b => b.push sizeofEthHeader) buf hEnd
  have hAfter := (hAt.push hLen).mark
    (f := fun b => { b with protocol := type })
    (fun _ => rfl) (fun _ => rfl) (fun _ => rfl)
  simp only [ethTx, skbPush_of_dataAt hAt hLen hStart] at hCall
  split at hCall
  next =>
    cases hCall
    exact ⟨⟨hAfter.head, hAfter.data, hAfter.len⟩, hSame⟩
  next =>
    cases hCall
    exact ⟨⟨hAfter.head, hAfter.data, hAfter.len⟩, hSame⟩

end DataAt

--------------------
-- A Frame
--------------------

/-
  A frame in its buffer: two headers and the payload, one
  behind the other.
-/
structure HoldsFrame
    (t : SkbState)
    (p buf : Addr)
    (hdr : List U8)
    (payload : Bytes)
    (size : U32) : Prop where
  lies : DataAt t p buf 30 (size + 34#32)
  header : ∀ i < 20,
    t.memory (buf + BitVec.ofNat 64 (44 + i)) = hdr.getD i 0#8
  sent : ∀ i < size.toNat,
    t.memory (buf + BitVec.ofNat 64 (64 + i)) = payload i

theorem length_ipBuildHeader
    (src dest : IpAddr)
    (proto : U8)
    (payloadLen : U16) :
    (ipBuildHeader src dest proto payloadLen).length = 20 :=
  length_ipHeader ..

section Frame

variable {devices : NetDevices}
variable {s t : SkbState}
variable {dev : Addr}
variable {dest : IpAddr}
variable {proto : U8}
variable {data : Bytes}
variable {len : U32}
variable {ret : Int}

theorem ipTx_frame
    (hCall : ipTx devices s (some dev) (some dest) proto
      (some data) len = some (ret, t))
    (hSome : ¬ NoSkbMemory s (len + sizeofIpHeader)) :
    ∃ buf,
      HoldsFrame t s.heap.heapPtr buf
        (ipBuildHeader ipAny dest proto (len.setWidth 16)) data
        len := by
  rcases skbAlloc_spec s (len + sizeofIpHeader) with
    ⟨hNone, _⟩ | ⟨_, heap, p, buf, hAlloc, hAt, _, _⟩
  · exact absurd hNone hSome
  · refine ⟨buf, ?_⟩
    rw [← hAt]
    have hGrant := DataAt.grant s heap p buf
      (skbTotalSize (len + sizeofIpHeader))
    have hPut := hGrant.put len
    have hTail :
        ((s.grant heap p buf
          (skbTotalSize (len + sizeofIpHeader))).skbs p).tail =
          buf + BitVec.ofNat 64 64 := by
      simp only [SkbState.grant, Function.update_self, newSkb,
        skbHeadroom]
    simp only [ipTx, hAlloc, skbPut, Option.bind_eq_bind,
      Option.bind_some, hTail] at hCall
    rcases Option.bind_eq_some_iff.mp hCall with
      ⟨w, hCopy, hCall⟩
    rw [copyInto_some hCopy] at hCall
    -- the state with the payload in it
    generalize hu :
      SkbState.copyTo
        (SkbState.modifySkb
          (s.grant heap p buf
            (skbTotalSize (len + sizeofIpHeader)))
          p fun b => b.put len)
        (buf + BitVec.ofNat 64 64) data len.toNat = u at hCall
    have hU : DataAt u p buf 64 (0#32 + len) := by
      rw [← hu]
      exact ⟨hPut.head, hPut.data, hPut.len⟩
    have hPayload : ∀ i < len.toNat,
        u.memory (buf + BitVec.ofNat 64 (64 + i)) = data i := by
      intro i hi
      have hIn : 64 ≤ 64 + i ∧ 64 + i < 64 + len.toNat := by omega
      rw [← hu]
      simp only [SkbState.copyTo]
      rw [ByteMemory.patch_offset (by omega) (by omega),
        if_pos hIn, Nat.add_sub_cancel_left]
    have hHeader : sizeofIpHeader.toNat ≤ 64 := by decide
    rw [skbPush_of_dataAt hU hHeader (by decide)] at hCall
    have hBytes : (ipBuildHeader ipAny dest proto
        (len.setWidth 16)).length = 20 :=
      length_ipBuildHeader ..
    generalize ipBuildHeader ipAny dest proto
      (len.setWidth 16) = hdr at *
    have hPush := hU.push hHeader
    have hWritten : DataAt
        ((u.modifySkb p fun b => b.push sizeofIpHeader).write
          (buf + BitVec.ofNat 64 44) hdr) p buf 44
        (0#32 + len + sizeofIpHeader) :=
      ⟨hPush.head, hPush.data, hPush.len⟩
    have hMarked := hWritten.mark
      (f := fun b => { b with dev := some dev })
      (fun _ => rfl) (fun _ => rfl) (fun _ => rfl)
    rcases ethTx_dataAt hMarked (by decide) (by decide)
      (Option.some.inj hCall) with ⟨hSent, hSame⟩
    have hLen :
        0#32 + len + sizeofIpHeader + 14#32 = len + 34#32 := by
      rw [BitVec.zero_add, BitVec.add_assoc]
      rfl
    rw [hLen] at hSent
    refine ⟨hSent, ?_, ?_⟩
    · intro i hi
      have hIn : 44 ≤ 44 + i ∧ 44 + i < 44 + hdr.length := by
        omega
      rw [hSame (44 + i) (by omega) (by omega)]
      simp only [SkbState.modifySkb, SkbState.write,
        SkbState.copyTo]
      rw [ByteMemory.patch_offset (by omega) (by omega),
        if_pos hIn, Nat.add_sub_cancel_left]
    · intro i hi
      have hLater : 44 + hdr.length ≤ 64 := by omega
      have hKept := SameFrom.write
        (u.modifySkb p fun b => b.push sizeofIpHeader) buf hLater
      rw [hSame (64 + i) (by omega) (by omega), ← hPayload i hi]
      exact hKept (64 + i) (by omega) (by omega)

end Frame

/-
  The header as it was built, and behind it `len` bytes, are
  accepted and handed on without the header.
-/
theorem ipRx_of_header
    {u : SkbState}
    {p buf : Addr}
    {src dest : IpAddr}
    {proto : U8}
    {payloadLen : U16}
    (hLen : len.toNat + 20 < 2 ^ 32)
    (hAt : DataAt u p buf 44 (len + 20#32))
    (hHeader : ∀ i < 20,
      u.memory (buf + BitVec.ofNat 64 (44 + i)) =
        (ipBuildHeader src dest proto payloadLen).getD i 0#8)
    (net : NetState) :
    (u.packet p).IpAccepted ∧
      ipRx u net (some p) =
        ipHandle
          (u.modifySkb p fun b => b.pull 20#32) net p
          proto := by
  have hRead : ∀ i < 20, (u.packet p).data i =
      (ipBuildHeader src dest proto payloadLen).getD i 0#8 := by
    intro i hi
    rw [hAt.packet_data]
    exact hHeader i hi
  have hFirst : (u.packet p).data 0 = 0x45#8 :=
    hRead 0 (by omega)
  have hProto : (u.packet p).ipHeader.proto = proto :=
    hRead 9 (by omega)
  have hVersion :
      (u.packet p).ipHeader.version = ipVersion4 := by
    simp only [Packet.ipHeader, IpHeader.version, hFirst]
    decide
  have hIhl : (u.packet p).ipHeader.len = 20#32 := by
    simp only [Packet.ipHeader, IpHeader.len, hFirst]
    decide
  have hSize : (u.packet p).len.toNat = len.toNat + 20 := by
    change (u.skbs p).len.toNat = len.toNat + 20
    rw [hAt.len, BitVec.toNat_add]
    exact Nat.mod_eq_of_lt hLen
  have hBytes :
      (u.packet p).bytes 20 =
        ipBuildHeader src dest proto payloadLen := by
    have hGetD := CyclicBuffer.front_getD
      (ipBuildHeader src dest proto payloadLen) 0#8
    rw [length_ipBuildHeader] at hGetD
    rw [← hGetD]
    exact CyclicBuffer.front_congr hRead
  have hAccepted : (u.packet p).IpAccepted := by
    constructor
    · rw [hSize]
      exact Nat.le_add_left ..
    · exact hVersion
    · rw [hIhl, hSize]
      exact Nat.le_add_left ..
    · rw [hIhl]
      exact (congrArg ipChecksum hBytes).trans
        (ipChecksum_ipBuildHeader ..)
  refine ⟨hAccepted, ?_⟩
  rw [ipRx_of_accepted hAccepted, hIhl, hProto]

/- What is handed to a device is a new buffer. -/
theorem ipTx_handed
    {devices : NetDevices}
    {s t : SkbState}
    {dev : Option Addr}
    {dest : Option IpAddr}
    {proto : U8}
    {data : Bytes}
    {ret : Int}
    {p : Addr}
    (hCall :
      ipTx devices s dev dest proto (some data) len =
        some (ret, t))
    (hHanded : p ∈ t.handed.drop s.handed.length) :
    ∃ ip buf,
      HoldsFrame t p buf
        (ipBuildHeader ipAny ip proto (len.setWidth 16)) data
        len := by
  have hNone : t ≠ s := by
    rintro rfl
    rw [List.drop_length] at hHanded
    cases hHanded
  cases dev with
  | none =>
      cases hCall
      exact absurd rfl hNone
  | some dev =>
      cases dest with
      | none =>
          cases hCall
          exact absurd rfl hNone
      | some ip =>
          rcases ipTx_spec devices s dev ip proto data len with
            ⟨_, t', hEq, _, _, hSame⟩ | ⟨_, _, hEq⟩ |
            ⟨hSome, _, t', hEq, _, _, hNew⟩
          · rw [hCall] at hEq
            cases hEq
            rw [hSame, List.drop_length] at hHanded
            cases hHanded
          · rw [hCall] at hEq
            cases hEq
          · rcases ipTx_frame hCall hSome with ⟨buf, hFrame⟩
            rw [hCall] at hEq
            cases hEq
            rw [hNew, List.drop_left] at hHanded
            split at hHanded
            · cases hHanded
            · rw [List.mem_singleton] at hHanded
              rw [hHanded]
              exact ⟨ip, buf, hFrame⟩

/-
  Every header that is built has the checksum 0. A frame of at
  most 65515 bytes, without its Ethernet header, passes the
  tests, and its handler is given exactly what was sent.
-/
theorem ip_encode_decode :
    (∀ (src dest : IpAddr) (proto : U8) (payloadLen : U16),
      ipChecksum (ipBuildHeader src dest proto payloadLen) =
        0#16) ∧
    ∀ (devices : NetDevices) (s t : SkbState)
        (dev : Option Addr) (dest : Option IpAddr) (proto : U8)
        (data : Bytes) (len : U32) (ret : Int) (p : Addr)
        (net : NetState),
      len.toNat ≤ 65515 →
      ipTx devices s dev dest proto (some data) len =
        some (ret, t) →
      p ∈ t.handed.drop s.handed.length →
        let u := (skbPull t (some p) sizeofEthHeader).2
        (u.packet p).IpAccepted ∧
          ∃ v, ipRx u net (some p) = ipHandle v net p proto ∧
            (v.packet p).bytes (v.packet p).len.toNat =
              front data len.toNat := by
  refine ⟨ipChecksum_ipBuildHeader, ?_⟩
  intro devices s t dev dest proto data len ret p net hLen hCall
    hHanded
  rcases ipTx_handed hCall hHanded with ⟨ip, buf, hFrame⟩
  have hSize : (len + 34#32).toNat = len.toNat + 34 := by
    rw [BitVec.toNat_add, BitVec.toNat_ofNat]
    omega
  have hFits : ¬ (t.skbs p).len < sizeofEthHeader := by
    rw [hFrame.lies.len, BitVec.lt_def, hSize]
    have hHeader : sizeofEthHeader.toNat = 14 := rfl
    omega
  have hPulled :
      (skbPull t (some p) sizeofEthHeader).2 =
        t.modifySkb p fun b => b.pull sizeofEthHeader := by
    rw [skbPull]
    exact congrArg Prod.snd (if_neg hFits)
  have hAt := hFrame.lies.pull sizeofEthHeader
  have hRest : len + 34#32 - sizeofEthHeader = len + 20#32 := by
    rw [sizeofEthHeader]
    bv_omega
  rw [hRest] at hAt
  simp only [hPulled]
  have hReach := ipRx_of_header (by omega) hAt hFrame.header net
  refine ⟨hReach.1, _, hReach.2, ?_⟩
  have hData := hAt.pull 20#32
  have hEnd : len + 20#32 - 20#32 = len := by
    rw [BitVec.add_sub_cancel]
  rw [hEnd] at hData
  have hAll := hData.len
  change CyclicBuffer.front _ (SkBuff.len _).toNat = _
  rw [hAll]
  apply CyclicBuffer.front_congr
  intro i hi
  rw [hData.packet_data]
  exact hFrame.sent i hi

/- Four bytes are sent as a datagram. -/
theorem ip_encode_decode_four :
    ∃ ret t,
      ipTx (loneDevice (some 0)) skbBooted (some 0x1000#64)
          (some ipAny) 17#8 (some fun _ => 0x41#8) 4#32 =
        some (ret, t) ∧
      (t.handed.drop 0 = [0x200000#64]) ∧
      (((skbPull t (some 0x200000#64) sizeofEthHeader).2).packet
        0x200000#64).IpAccepted := by
  rcases ipTx_spec (loneDevice (some 0)) skbBooted 0x1000#64
      ipAny 17#8 (fun _ => 0x41#8) 4#32 with
    ⟨hNone, _⟩ | ⟨_, hSize, _⟩ | ⟨_, _, t, hCall, _, _, hNew⟩
  · exfalso
    revert hNone
    unfold NoSkbMemory
    decide +kernel
  · exact absurd (by decide) hSize
  · refine ⟨_, t, hCall, hNew, ?_⟩
    have hMem : 0x200000#64 ∈ t.handed.drop 0 := by
      rw [hNew]
      exact List.mem_singleton_self _
    exact (ip_encode_decode.2 _ skbBooted t _ _ _ _ 4#32 _ _
      netBooted (by decide) hCall hMem).1

end FeatherOS
