import FeatherOS.Net.SkbOrder
import FeatherOS.Net.Socket

/-
  Sending through the layers of the network stack.

  A buffer that a device's transmit function is called with
  belongs to the device from then on. Statistics are left out.
  A call that follows a null pointer, or copies a payload to
  behind the end of its buffer, answers `none`.

  Key definitions include:
    * `ethTx`
    * `ipTx`
    * `udpSendto`
    * `arpRequest`
    * `FreedOnce`
    * `SendOk`

  Key theorems include:
    * `ipTx_spec`
    * `sendCall_freedOnce_iff`
-/

namespace FeatherOS

--------------------
-- Devices
--------------------

/- mac_addr_t -/
abbrev MacAddr := Vector U8 6

/- MAC_BROADCAST -/
def macBroadcast : MacAddr := #v[0xFF, 0xFF, 0xFF, 0xFF, 0xFF, 0xFF]

/-
  net_device_t, as far as sending looks at it: the address and
  what the transmit function answers, if there is one.
-/
structure NetDevice where
  mac : MacAddr
  tx : Option Int

/- The list of devices, with its head -/
structure NetDevices where
  first : Option Addr
  device : Addr → NetDevice

def netdevGetFirst (devices : NetDevices) : Option Addr :=
  devices.first

--------------------
-- Headers
--------------------

def sizeofEthHeader : U32 := 14#32
def sizeofArpHeader : U32 := 28#32
def sizeofIpHeader : U32 := 20#32

/- ETH_P_IP and ETH_P_ARP -/
def ethPIp : U16 := 0x0800#16
def ethPArp : U16 := 0x0806#16

/- IP_DF -/
def ipDf : U16 := 0x4000#16

/- A 16-bit number, the lowest byte first -/
def bytes16 (x : U16) : List U8 :=
  [x.extractLsb' 0 8, x.extractLsb' 8 8]

def ipHtons (x : U16) : U16 :=
  ipNtohs x

/- The sum of the 16-bit numbers of some bytes -/
def ipSum
    (sum : U32) :
    List U8 → U32
  | lo :: hi :: rest =>
      ipSum (sum + (hi ++ lo : U16).setWidth 32) rest
  | [lo] => sum + lo.setWidth 32
  | [] => sum

/- One turn of the loop that adds the carries -/
def ipFold (sum : U32) : U32 :=
  if sum >>> 16 = 0#32 then sum
  else (sum &&& 0xFFFF#32) + sum >>> 16

/- Two turns of the loop are enough. -/
def ipChecksum (data : List U8) : U16 :=
  (~~~ ipFold (ipFold (ipSum 0#32 data))).setWidth 16

theorem toNat_ipFold
    (sum : U32) :
    (ipFold sum).toNat =
      if sum.toNat < 2 ^ 16 then
        sum.toNat
      else
        sum.toNat % 2 ^ 16 + sum.toNat / 2 ^ 16 := by
  have hLow : (sum &&& 0xFFFF#32).toNat = sum.toNat % 2 ^ 16 :=
    Words.toNat_and_low sum 16 (by omega)
  have hHigh : (sum >>> 16).toNat = sum.toNat / 2 ^ 16 := by
    rw [BitVec.toNat_ushiftRight, Nat.shiftRight_eq_div_pow]
  have hSum := sum.isLt
  unfold ipFold
  by_cases hSmall : sum.toNat < 2 ^ 16
  · have hZero : sum >>> 16 = 0#32 := by
      apply BitVec.eq_of_toNat_eq
      rw [hHigh, BitVec.toNat_ofNat]
      omega
    rw [if_pos hZero, if_pos hSmall]
  · have hCarry : sum >>> 16 ≠ 0#32 := by
      intro hZero
      rw [hZero, BitVec.toNat_ofNat] at hHigh
      omega
    rw [if_neg hCarry, if_neg hSmall, BitVec.toNat_add, hLow,
      hHigh]
    omega

/- ip_header_t, with a checksum -/
def ipHeader
    (src dest : IpAddr)
    (proto : U8)
    (payloadLen checksum : U16) :
    List U8 :=
  [0x45#8, 0#8] ++ bytes16 (ipHtons (20#16 + payloadLen)) ++
    bytes16 (ipHtons 0#16) ++ bytes16 (ipHtons ipDf) ++
    [64#8, proto] ++ bytes16 checksum ++ src.addr.toList ++
    dest.addr.toList

def ipBuildHeader
    (src dest : IpAddr)
    (proto : U8)
    (payloadLen : U16) :
    List U8 :=
  ipHeader src dest proto payloadLen
    (ipChecksum (ipHeader src dest proto payloadLen 0#16))

def ethHeader
    (dest src : MacAddr)
    (type : U16) :
    List U8 :=
  dest.toList ++ src.toList ++ bytes16 type

def udpHeader
    (srcPort destPort : U16)
    (len : U32) :
    List U8 :=
  bytes16 srcPort ++ bytes16 destPort ++
    bytes16 (ipHtons (8#16 + len.setWidth 16)) ++ bytes16 0#16

/- A request for `ip`, which is also given as the sender -/
def arpHeader
    (mac : MacAddr)
    (ip : IpAddr) :
    List U8 :=
  bytes16 1#16 ++ bytes16 ethPIp ++ [6#8, 4#8] ++ bytes16 1#16 ++
    mac.toList ++ ip.addr.toList ++ List.replicate 6 0#8 ++
    ip.addr.toList

--------------------
-- Sending
--------------------

def SkbState.copyTo
    (s : SkbState)
    (p : Addr)
    (data : Bytes)
    (n : Nat) :
    SkbState :=
  { s with memory := s.memory.patch p n data }

/- The copy that ends within the buffer of `skb` -/
def SkbState.copyInto
    (s : SkbState)
    (skb p : Addr)
    (data : Bytes)
    (n : Nat) :
    Option SkbState :=
  if p.toNat + n ≤ (s.skbs skb).stop.toNat then
    some (s.copyTo p data n)
  else
    none

theorem copyInto_some
    {s t : SkbState}
    {skb p : Addr}
    {data : Bytes}
    {n : Nat}
    (hCopy : s.copyInto skb p data n = some t) :
    t = s.copyTo p data n := by
  unfold SkbState.copyInto at hCopy
  split at hCopy
  · exact (Option.some.inj hCopy).symm
  · cases hCopy

def SkbState.write
    (s : SkbState)
    (p : Addr)
    (bytes : List U8) :
    SkbState :=
  s.copyTo p (fun i => bytes.getD i 0#8) bytes.length

def ethTx
    (devices : NetDevices)
    (s : SkbState)
    (dev skb : Option Addr)
    (dest : MacAddr)
    (type : U16) :
    Int × SkbState :=
  match dev, skb with
  | some dev, some p =>
      match skbPush s (some p) sizeofEthHeader with
      | (none, s) => (-1, s)
      | (some header, s) =>
          let device := devices.device dev
          let s := s.write header (ethHeader dest device.mac type)
          let s :=
            s.modifySkb p fun b => { b with protocol := type }
          match device.tx with
          | some ret => (ret, { s with handed := s.handed ++ [p] })
          | none => (-1, s)
  | _, _ => (-1, s)

def ipTx
    (devices : NetDevices)
    (s : SkbState)
    (dev : Option Addr)
    (dest : Option IpAddr)
    (proto : U8)
    (data : Option Bytes)
    (len : U32) :
    Option (Int × SkbState) :=
  match dev, dest, data with
  | some dev, some dest, some data =>
      match skbAlloc s (len + sizeofIpHeader) with
      | (none, s) => some (-1, s)
      | (some p, s) => do
          let put := skbPut s (some p) len
          let payload ← put.1
          let s ← put.2.copyInto p payload data len.toNat
          let push := skbPush s (some p) sizeofIpHeader
          let hdr ← push.1
          let s :=
            push.2.write hdr
              (ipBuildHeader ipAny dest proto (len.setWidth 16))
          let s :=
            s.modifySkb p fun b => { b with dev := some dev }
          some
            (ethTx devices s (some dev) (some p) macBroadcast
              ethPIp)
  | _, _, _ => some (-1, s)

/- After `ip_tx` failed the buffer is freed a second time. -/
def udpFinish
    (p : Addr)
    (len : U32)
    (sent : Int × SkbState) :
    Int × SkbState :=
  let s := skbFree sent.2 (some p)
  if sent.1 = 0 then
    (len.toInt, s)
  else
    (-1, skbFree s (some p))

/- A datagram that is in its buffer -/
def udpTransmit
    (devices : NetDevices)
    (s : SkbState)
    (p : Addr)
    (len : U32)
    (dest : IpAddr) :
    Option (Int × SkbState) :=
  match netdevGetFirst devices with
  | none => some (-1, skbFree s (some p))
  | some dev => do
      let skb := s.skbs p
      let sent ←
        ipTx devices s (some dev) (some dest)
          (BitVec.ofInt 8 ipProtoUdp)
          (some fun i =>
            s.memory (skb.data + BitVec.ofNat 64 i))
          skb.len
      some (udpFinish p len sent)

def udpSendto
    (devices : NetDevices)
    (s : SkbState)
    (sock : Option Socket)
    (data : Option Bytes)
    (len : U32)
    (dest : Option IpAddr)
    (port : U16) :
    Option (Int × SkbState) :=
  match sock, data, dest with
  | some sock, some data, some dest =>
      match skbAlloc s (len + sizeofUdpHeader) with
      | (none, s) => some (-1, s)
      | (some p, s) => do
          let header := skbPut s (some p) sizeofUdpHeader
          let hdr ← header.1
          let s :=
            header.2.write hdr (udpHeader sock.localPort port len)
          let put := skbPut s (some p) len
          let payload ← put.1
          let s ← put.2.copyInto p payload data len.toNat
          udpTransmit devices s p len dest
  | _, _, _ => some (-1, s)

def arpRequest
    (devices : NetDevices)
    (s : SkbState)
    (dev : Option Addr)
    (ip : Option IpAddr) :
    Option (Int × SkbState) :=
  match dev, ip with
  | some dev, some ip =>
      match skbAlloc s sizeofArpHeader with
      | (none, s) => some (-1, s)
      | (some p, s) => do
          let put := skbPut s (some p) sizeofArpHeader
          let arp ← put.1
          let s :=
            put.2.write arp (arpHeader (devices.device dev).mac ip)
          some
            (ethTx devices s (some dev) (some p) macBroadcast
              ethPArp)
  | _, _ => some (-1, s)

--------------------
-- Calls
--------------------

inductive SendCall where
  | ipTx
      (dev : Option Addr)
      (dest : Option IpAddr)
      (proto : U8)
      (data : Option Bytes)
      (len : U32)
  | udpSendto
      (sock : Option Socket)
      (data : Option Bytes)
      (len : U32)
      (dest : Option IpAddr)
      (port : U16)
  | arpRequest (dev : Option Addr) (ip : Option IpAddr)

def sendCall
    (devices : NetDevices)
    (s : SkbState) :
    SendCall → Option (Int × SkbState)
  | .ipTx dev dest proto data len =>
      ipTx devices s dev dest proto data len
  | .udpSendto sock data len dest port =>
      udpSendto devices s sock data len dest port
  | .arpRequest dev ip => arpRequest devices s dev ip

/-
  Each buffer allocated since `s` has been freed or handed to
  a device once.
-/
def FreedOnce (s t : SkbState) : Prop :=
  ∀ p ∈ t.allocated.drop s.allocated.length,
    (t.freed.drop s.freed.length).count p +
      (t.handed.drop s.handed.length).count p = 1

/- The size of a buffer for `len` bytes does not wrap around. -/
def SkbSizeFits (len header : U32) : Prop :=
  len.toNat + header.toNat + 152 < 2 ^ 32

instance (len header : U32) :
    Decidable (SkbSizeFits len header) :=
  inferInstanceAs (Decidable (_ < _))

/- A layer that gets no memory, or has a device that sends -/
def FrameOk
    (devices : NetDevices)
    (s : SkbState)
    (dev : Addr)
    (len header : U32) : Prop :=
  NoSkbMemory s (len + header) ∨
    SkbSizeFits len header ∧ (devices.device dev).tx ≠ none

/-
  The calls that free what they should. A datagram has to be
  sent, unless there is no device or no memory to begin with.
-/
def SendOk
    (devices : NetDevices)
    (s : SkbState) :
    SendCall → Prop
  | .ipTx (some dev) (some _) _ (some _) len =>
      FrameOk devices s dev len sizeofIpHeader
  | .udpSendto (some _) (some _) len (some _) _ =>
      NoSkbMemory s (len + sizeofUdpHeader) ∨
        SkbSizeFits len sizeofUdpHeader ∧
          ∀ dev, devices.first = some dev →
            ¬ NoSkbMemory (skbAlloc s (len + sizeofUdpHeader)).2
                (len + sizeofUdpHeader + sizeofIpHeader) ∧
              SkbSizeFits (len + sizeofUdpHeader)
                sizeofIpHeader ∧
              (devices.device dev).tx = some 0
  | .arpRequest (some dev) (some _) =>
      FrameOk devices s dev 0#32 sizeofArpHeader
  | _ => True

--------------------
-- One Buffer
--------------------

variable {buf : Addr}
variable {heap : Heap}
variable {len : U32}

section Buffer

variable {s t : SkbState}
variable {p : Addr}
variable {room : U64}

/- There are `room` bytes before the data. -/
def Room
    (s : SkbState)
    (p : Addr)
    (room : U64) : Prop :=
  (s.skbs p).data - (s.skbs p).head = room

/- One buffer was allocated, and none was given away. -/
structure Owns (t s : SkbState) (p : Addr) : Prop where
  allocated : t.allocated = s.allocated ++ [p]
  freed : t.freed = s.freed
  handed : t.handed = s.handed

theorem Room.grant
    (s : SkbState)
    (heap : Heap)
    (p buf : Addr)
    (total : U32) :
    Room (s.grant heap p buf total) p 64#64 := by
  simp only [Room, SkbState.grant, Function.update_self, newSkb,
    skbHeadroom]
  rw [BitVec.add_comm, BitVec.add_sub_cancel]

theorem Room.put
    (hRoom : Room s p room)
    (len : U32) :
    Room (s.modifySkb p fun b => b.put len) p room := by
  simp only [Room, SkbState.modifySkb, Function.update_self,
    SkBuff.put]
  exact hRoom

theorem Room.setDev
    (hRoom : Room s p room)
    (dev : Option Addr) :
    Room (s.modifySkb p fun b => { b with dev := dev }) p room := by
  simp only [Room, SkbState.modifySkb, Function.update_self]
  exact hRoom

theorem Room.copyTo
    (hRoom : Room s p room)
    (a : Addr)
    (data : Bytes)
    (n : Nat) :
    Room (s.copyTo a data n) p room :=
  hRoom

theorem Room.write
    (hRoom : Room s p room)
    (a : Addr)
    (bytes : List U8) :
    Room (s.write a bytes) p room :=
  hRoom

theorem Room.push
    (hRoom : Room s p room)
    (len : U32) :
    Room (s.modifySkb p fun b => b.push len) p
      (room - len.setWidth 64) := by
  simp only [Room, SkbState.modifySkb, Function.update_self,
    SkBuff.push]
  rw [BitVec.sub_sub, BitVec.add_comm, ← BitVec.sub_sub]
  rw [hRoom]

/- A copy behind `header` bytes of a granted buffer -/
theorem copyInto_granted
    {total : U32}
    {header n : Nat}
    {payload : Addr}
    (hStop : (t.skbs p).stop = buf + total.setWidth 64)
    (hEnd : buf.toNat + total.toNat ≤ heap.heapPtr.toNat)
    (hAt : payload = buf + BitVec.ofNat 64 (64 + header))
    (hHeader : header ≤ 64)
    (data : Bytes) :
    t.copyInto p payload data n =
      if 64 + header + n ≤ total.toNat then
        some (t.copyTo payload data n)
      else
        none := by
  have hHeap := heap.heapPtr_le
  have hBound : heapStart + heapSize < 2 ^ 32 := by decide
  have hStopNat :
      (t.skbs p).stop.toNat = buf.toNat + total.toNat := by
    rw [hStop, BitVec.toNat_add, BitVec.toNat_setWidth]
    omega
  have hAtNat : payload.toNat = buf.toNat + (64 + header) := by
    rw [hAt, BitVec.toNat_add, BitVec.toNat_ofNat]
    omega
  have hIff : payload.toNat + n ≤ (t.skbs p).stop.toNat ↔
      64 + header + n ≤ total.toNat := by
    rw [hStopNat, hAtNat]
    omega
  simp only [SkbState.copyInto, hIff]

/- The payload fits if the size did not wrap around. -/
theorem payload_fits_iff
    {len header : U32}
    {before : Nat}
    (hBefore : before ≤ header.toNat)
    (hHeader : header.toNat ≤ 64) :
    64 + before + len.toNat ≤
        (skbTotalSize (len + header)).toNat ↔
      SkbSizeFits len header := by
  have hLen := len.isLt
  simp only [skbTotalSize, SkbSizeFits, BitVec.toNat_add,
    BitVec.toNat_ofNat]
  omega

/- A header that has room is pushed. -/
theorem skbPush_of_room
    (hRoom : Room s p room)
    (hFits : ¬ room.toInt < len.toInt) :
    skbPush s (some p) len =
      (some ((s.skbs p).push len).data,
        s.modifySkb p fun b => b.push len) := by
  unfold Room at hRoom
  simp only [skbPush, hRoom, if_neg hFits, SkbState.modifySkb,
    Function.update_self]

end Buffer

--------------------
-- One Frame
--------------------

variable {answer : Option (Int × SkbState)}

section Frame

variable {devices : NetDevices}
variable {s t : SkbState}
variable {dev p : Addr}
variable {len header : U32}

/-
  What a layer answers that puts `len` bytes and a header into
  a buffer of its own and gives that to the device.
-/
def FrameSpec
    (devices : NetDevices)
    (s : SkbState)
    (dev : Addr)
    (len header : U32)
    (answer : Option (Int × SkbState)) : Prop :=
  (NoSkbMemory s (len + header) ∧
    ∃ t, answer = some (-1, t) ∧ t.allocated = s.allocated ∧
      t.freed = s.freed ∧ t.handed = s.handed) ∨
  (¬ NoSkbMemory s (len + header) ∧ ¬ SkbSizeFits len header ∧
    answer = none) ∨
  (¬ NoSkbMemory s (len + header) ∧ SkbSizeFits len header ∧
    ∃ t, answer = some ((devices.device dev).tx.getD (-1), t) ∧
      t.allocated = s.allocated ++ [s.heap.heapPtr] ∧
      t.freed = s.freed ∧
      t.handed = s.handed ++
        if (devices.device dev).tx = none then []
        else [s.heap.heapPtr])

/- A granted buffer with room for the last header -/
theorem ethTx_frame
    {room : U64}
    (hSome : ¬ NoSkbMemory s (len + header))
    (hSize : SkbSizeFits len header)
    (hAt : p = s.heap.heapPtr)
    (hOwns : Owns t s p)
    (hRoom : Room t p room)
    (hFits : ¬ room.toInt < sizeofEthHeader.toInt)
    (dest : MacAddr)
    (type : U16) :
    FrameSpec devices s dev len header
      (some (ethTx devices t (some dev) (some p) dest type)) := by
  refine .inr (.inr ⟨hSome, hSize, ?_⟩)
  simp only [ethTx, skbPush_of_room hRoom hFits]
  cases hTx : (devices.device dev).tx with
  | none =>
      refine ⟨_, rfl, ?_, hOwns.freed, ?_⟩
      · rw [← hAt]
        exact hOwns.allocated
      · rw [if_pos rfl, List.append_nil]
        exact hOwns.handed
  | some ret =>
      refine ⟨_, rfl, ?_, hOwns.freed, ?_⟩
      · rw [← hAt]
        exact hOwns.allocated
      · rw [if_neg nofun, ← hAt]
        exact congrArg (· ++ [p]) hOwns.handed

/- Nothing was allocated. -/
theorem frameSpec_noMemory
    (hNone : NoSkbMemory s (len + header))
    (heap : Heap) :
    FrameSpec devices s dev len header
      (some (-1, { s with heap := heap })) :=
  .inl ⟨hNone, _, rfl, rfl, rfl, rfl⟩

/- The copy of `ip_tx` -/
theorem ipTx_copies
    (s : SkbState)
    (hEnd :
      buf.toNat + (skbTotalSize (len + sizeofIpHeader)).toNat ≤
        heap.heapPtr.toNat)
    (p : Addr)
    (data : Bytes) :
    let total := skbTotalSize (len + sizeofIpHeader)
    let t := (s.grant heap p buf total).modifySkb p
      fun b => b.put len
    let payload := ((s.grant heap p buf total).skbs p).tail
    t.copyInto p payload data len.toNat =
      if SkbSizeFits len sizeofIpHeader then
        some (t.copyTo payload data len.toNat)
      else
        none := by
  intro total t payload
  have hStop : (t.skbs p).stop = buf + total.setWidth 64 := by
    simp only [t, SkbState.modifySkb, SkbState.grant,
      Function.update_self, SkBuff.put, newSkb]
  have hAt : payload = buf + BitVec.ofNat 64 (64 + 0) := by
    simp only [payload, SkbState.grant, Function.update_self,
      newSkb, skbHeadroom, Nat.add_zero]
  rw [copyInto_granted hStop hEnd hAt (by omega)]
  exact if_congr (payload_fits_iff (by omega) (by decide)) rfl rfl

theorem ipTx_spec
    (devices : NetDevices)
    (s : SkbState)
    (dev : Addr)
    (dest : IpAddr)
    (proto : U8)
    (data : Bytes)
    (len : U32) :
    FrameSpec devices s dev len sizeofIpHeader
      (ipTx devices s (some dev) (some dest) proto (some data)
        len) := by
  rcases skbAlloc_spec s (len + sizeofIpHeader) with
    ⟨hNone, heap, hCall, _⟩ |
    ⟨hSome, heap, p, buf, hCall, hAt, _, hEnd⟩
  · simp only [ipTx, hCall]
    exact frameSpec_noMemory hNone heap
  · have hCopy := ipTx_copies s hEnd p data
    have hGrant := Room.grant s heap p buf
      (skbTotalSize (len + sizeofIpHeader))
    have hPut := fun payload =>
      (hGrant.put len).copyTo payload data len.toNat
    have hFits : ¬ (64#64).toInt < sizeofIpHeader.toInt := by
      decide
    have hLast :
        ¬ (64#64 - sizeofIpHeader.setWidth 64).toInt <
          sizeofEthHeader.toInt := by
      decide
    simp only [ipTx, hCall, skbPut, Option.bind_eq_bind,
      Option.bind_some, hCopy]
    by_cases hSize : SkbSizeFits len sizeofIpHeader
    · simp only [if_pos hSize, Option.bind_some,
        skbPush_of_room (hPut _) hFits]
      have hPush := fun payload hdr bytes =>
        (((hPut payload).push sizeofIpHeader).write hdr
          bytes).setDev (some dev)
      refine ethTx_frame hSome hSize hAt ?_ (hPush _ _ _) hLast
        _ _
      exact ⟨rfl, rfl, rfl⟩
    · rw [if_neg hSize]
      exact .inr (.inl ⟨hSome, hSize, rfl⟩)

theorem arpRequest_spec
    (devices : NetDevices)
    (s : SkbState)
    (dev : Addr)
    (ip : IpAddr) :
    FrameSpec devices s dev 0#32 sizeofArpHeader
      (arpRequest devices s (some dev) (some ip)) := by
  have hZero : 0#32 + sizeofArpHeader = sizeofArpHeader := by
    decide
  rcases skbAlloc_spec s sizeofArpHeader with
    ⟨hNone, heap, hCall, _⟩ |
    ⟨hSome, heap, p, buf, hCall, hAt, _, _⟩
  · rw [← hZero] at hNone
    simp only [arpRequest, hCall]
    exact frameSpec_noMemory hNone heap
  · have hGrant := Room.grant s heap p buf
      (skbTotalSize sizeofArpHeader)
    have hPut := fun arp bytes =>
      (hGrant.put sizeofArpHeader).write arp bytes
    have hFits : ¬ (64#64).toInt < sizeofEthHeader.toInt := by
      decide
    simp only [arpRequest, hCall, skbPut, Option.bind_eq_bind,
      Option.bind_some]
    have hSize : SkbSizeFits 0#32 sizeofArpHeader := by
      decide
    rw [← hZero] at hSome
    refine ethTx_frame hSome hSize hAt ?_ (hPut _ _) hFits _ _
    exact ⟨rfl, rfl, rfl⟩

theorem freedOnce_iff
    {new freed handed : List Addr}
    (hNew : t.allocated = s.allocated ++ new)
    (hFreed : t.freed = s.freed ++ freed)
    (hHanded : t.handed = s.handed ++ handed) :
    FreedOnce s t ↔
      ∀ p ∈ new, freed.count p + handed.count p = 1 := by
  unfold FreedOnce
  rw [hNew, hFreed, hHanded, List.drop_left, List.drop_left,
    List.drop_left]

/- A call that allocates nothing has nothing to free. -/
theorem freedOnce_of_same
    (hSame : t.allocated = s.allocated) :
    FreedOnce s t := by
  intro p hMem
  rw [hSame, List.drop_length] at hMem
  cases hMem

/- A frame is freed once if it gets to a device. -/
theorem FrameSpec.freedOnce_iff
    (hSpec : FrameSpec devices s dev len header answer) :
    (∃ ret t, answer = some (ret, t) ∧ FreedOnce s t) ↔
      FrameOk devices s dev len header := by
  rcases hSpec with
    ⟨hNone, t, rfl, hSame, _⟩ | ⟨hSome, hSize, rfl⟩ |
    ⟨hSome, hSize, t, rfl, hNew, hFreed, hHanded⟩
  · refine iff_of_true ⟨_, _, rfl, ?_⟩ (.inl hNone)
    exact freedOnce_of_same hSame
  · refine iff_of_false nofun ?_
    rintro (hNone | ⟨hFits, _⟩)
    · exact hSome hNone
    · exact hSize hFits
  · rw [← List.append_nil s.freed] at hFreed
    have hOnce := FeatherOS.freedOnce_iff hNew hFreed hHanded
    rw [List.forall_mem_singleton] at hOnce
    constructor
    · rintro ⟨ret, t', hEq, hFreedOnce⟩
      cases hEq
      refine .inr ⟨hSize, ?_⟩
      intro hTx
      have hCount := hOnce.mp hFreedOnce
      simp [hTx] at hCount
    · intro hOk
      have hTx := (hOk.resolve_left hSome).2
      refine ⟨_, _, rfl, hOnce.mpr ?_⟩
      rw [if_neg hTx]
      simp

end Frame

--------------------
-- Datagrams
--------------------

section Datagram

variable {devices : NetDevices}
variable {s t : SkbState}
variable {p : Addr}

/- One buffer, freed by the call that allocated it -/
theorem skbFree_freedOnce
    (hOwns : Owns t s p) :
    FreedOnce s (skbFree t (some p)) := by
  have hFreed :
      (skbFree t (some p)).freed = s.freed ++ [p] :=
    congrArg (· ++ [p]) hOwns.freed
  have hHanded :
      (skbFree t (some p)).handed = s.handed ++ [] := by
    rw [List.append_nil]
    exact hOwns.handed
  have hOnce := freedOnce_iff (t := skbFree t (some p))
    hOwns.allocated hFreed hHanded
  apply hOnce.mpr
  simp

variable {u : SkbState}

/- A datagram that was not sent is freed twice. -/
theorem udpFinish_failed
    {ret : Int}
    {new : List Addr}
    (hRet : ret ≠ 0)
    (hNew : u.allocated = s.allocated ++ p :: new)
    (hFreed : u.freed = s.freed)
    (hHanded : ∃ handed, u.handed = s.handed ++ handed)
    (len : U32) :
    ¬ FreedOnce s (udpFinish p len (ret, u)).2 := by
  rcases hHanded with ⟨handed, hHanded⟩
  have hTwice :
      (udpFinish p len (ret, u)).2.freed = s.freed ++ [p, p] := by
    simp only [udpFinish, if_neg hRet, skbFree, hFreed,
      List.append_assoc, List.cons_append, List.nil_append]
  have hSame :
      (udpFinish p len (ret, u)).2.allocated = u.allocated ∧
        (udpFinish p len (ret, u)).2.handed = u.handed := by
    simp only [udpFinish, if_neg hRet, skbFree, and_self]
  rw [freedOnce_iff (hSame.1.trans hNew) hTwice
    (hSame.2.trans hHanded)]
  intro hOnce
  have hCount := hOnce p (List.mem_cons_self ..)
  simp at hCount
  omega

/- What becomes of both buffers after `ip_tx` -/
theorem udpFinish_freedOnce_iff
    {dev p : Addr}
    {size header : U32}
    (hSpec : FrameSpec devices u dev size header answer)
    (hOwns : Owns u s p)
    (hNe : p ≠ u.heap.heapPtr)
    (len : U32) :
    (∃ ret t,
        (answer.bind fun sent => some (udpFinish p len sent)) =
          some (ret, t) ∧ FreedOnce s t) ↔
      ¬ NoSkbMemory u (size + header) ∧
        SkbSizeFits size header ∧
          (devices.device dev).tx = some 0 := by
  rcases hSpec with
    ⟨hNone, t, rfl, hNew, hFreed, hHanded⟩ |
    ⟨hSome, hSize, rfl⟩ |
    ⟨hSome, hSize, t, rfl, hNew, hFreed, hHanded⟩
  · refine iff_of_false ?_ fun h => h.1 hNone
    rintro ⟨ret, t', hEq, hOnce⟩
    have hAfter : (udpFinish p len (-1, t)).2 = t' :=
      congrArg Prod.snd (Option.some.inj hEq)
    rw [← hAfter] at hOnce
    have hFail : (-1 : Int) ≠ 0 := by decide
    refine udpFinish_failed hFail (hNew.trans hOwns.allocated)
      (hFreed.trans hOwns.freed) ⟨[], ?_⟩ len hOnce
    rw [List.append_nil]
    exact hHanded.trans hOwns.handed
  · exact iff_of_false nofun fun h => hSize h.2.1
  · rw [hOwns.allocated] at hNew
    rw [hOwns.handed] at hHanded
    rw [List.append_assoc] at hNew
    have hFreed := hFreed.trans hOwns.freed
    by_cases hTx : (devices.device dev).tx = some 0
    · refine iff_of_true ?_ ⟨hSome, hSize, hTx⟩
      rw [hTx, if_neg nofun] at hHanded
      rw [hTx]
      refine ⟨_, _, rfl, ?_⟩
      have hLast :
          (skbFree t (some p)).freed = s.freed ++ [p] :=
        congrArg (· ++ [p]) hFreed
      have hOnce := freedOnce_iff (t := skbFree t (some p)) hNew
        hLast hHanded
      apply hOnce.mpr
      simp [hNe, hNe.symm]
    · refine iff_of_false ?_ fun h => hTx h.2.2
      rintro ⟨ret, t', hEq, hOnce⟩
      have hAfter :
          (udpFinish p len
            ((devices.device dev).tx.getD (-1), t)).2 = t' :=
        congrArg Prod.snd (Option.some.inj hEq)
      rw [← hAfter] at hOnce
      refine udpFinish_failed ?_ hNew hFreed ⟨_, hHanded⟩ len hOnce
      intro hZero
      cases hAnswer : (devices.device dev).tx with
      | none =>
          rw [hAnswer] at hZero
          cases hZero
      | some ret =>
          rw [hAnswer] at hZero
          exact hTx (hAnswer.trans (congrArg some hZero))

/- A datagram is freed once if it is sent, or has no device. -/
theorem udpTransmit_freedOnce_iff
    (hOwns : Owns u s p)
    (hNe : p ≠ u.heap.heapPtr)
    (devices : NetDevices)
    (len : U32)
    (dest : IpAddr) :
    (∃ ret t,
        udpTransmit devices u p len dest = some (ret, t) ∧
          FreedOnce s t) ↔
      ∀ dev, devices.first = some dev →
        ¬ NoSkbMemory u ((u.skbs p).len + sizeofIpHeader) ∧
          SkbSizeFits (u.skbs p).len sizeofIpHeader ∧
            (devices.device dev).tx = some 0 := by
  unfold udpTransmit netdevGetFirst
  cases hFirst : devices.first with
  | none =>
      refine iff_of_true ⟨_, _, rfl, ?_⟩ nofun
      exact skbFree_freedOnce hOwns
  | some dev =>
      have hSpec := ipTx_spec devices u dev dest
        (BitVec.ofInt 8 ipProtoUdp)
        (fun i => u.memory ((u.skbs p).data + BitVec.ofNat 64 i))
        (u.skbs p).len
      simp only [Option.some.injEq, forall_eq']
      exact udpFinish_freedOnce_iff hSpec hOwns hNe len

/- The copy of `udp_sendto`, behind the header -/
theorem udpSendto_copies
    (s : SkbState)
    (hEnd :
      buf.toNat + (skbTotalSize (len + sizeofUdpHeader)).toNat ≤
        heap.heapPtr.toNat)
    (p : Addr)
    (data : Bytes)
    (bytes : List U8) :
    let total := skbTotalSize (len + sizeofUdpHeader)
    let g := s.grant heap p buf total
    let v := (g.modifySkb p fun b => b.put sizeofUdpHeader).write
      (g.skbs p).tail bytes
    let t := v.modifySkb p fun b => b.put len
    t.copyInto p (v.skbs p).tail data len.toNat =
      if SkbSizeFits len sizeofUdpHeader then
        some (t.copyTo (v.skbs p).tail data len.toNat)
      else
        none := by
  intro total g v t
  have hStop : (t.skbs p).stop = buf + total.setWidth 64 := by
    simp only [t, v, g, SkbState.write, SkbState.copyTo,
      SkbState.modifySkb, SkbState.grant, Function.update_self,
      SkBuff.put, newSkb]
  have hAt : (v.skbs p).tail = buf + BitVec.ofNat 64 (64 + 8) := by
    simp only [v, g, SkbState.write, SkbState.copyTo,
      SkbState.modifySkb, SkbState.grant, Function.update_self,
      SkBuff.put, newSkb, skbHeadroom, BitVec.add_assoc]
    rfl
  rw [copyInto_granted hStop hEnd hAt (by omega)]
  exact if_congr (payload_fits_iff (by decide) (by decide))
    rfl rfl

theorem udpSendto_freedOnce_iff
    (devices : NetDevices)
    (s : SkbState)
    (sock : Socket)
    (data : Bytes)
    (len : U32)
    (dest : IpAddr)
    (port : U16) :
    (∃ ret t,
        udpSendto devices s (some sock) (some data) len
          (some dest) port = some (ret, t) ∧ FreedOnce s t) ↔
      SendOk devices s
        (.udpSendto (some sock) (some data) len (some dest)
          port) := by
  simp only [SendOk]
  rcases skbAlloc_spec s (len + sizeofUdpHeader) with
    ⟨hNone, heap, hCall, _⟩ |
    ⟨hSome, heap, p, buf, hCall, hAt, hBuf, hEnd⟩
  · simp only [udpSendto, hCall]
    refine iff_of_true ⟨_, _, rfl, ?_⟩ (.inl hNone)
    exact freedOnce_of_same rfl
  · have hNe : p ≠ heap.heapPtr := by
      rintro rfl
      omega
    have hCopy := udpSendto_copies s hEnd p data
      (udpHeader sock.localPort port len)
    simp only [udpSendto, hCall, skbPut, Option.bind_eq_bind,
      Option.bind_some, hCopy]
    rw [or_iff_right hSome]
    by_cases hSize : SkbSizeFits len sizeofUdpHeader
    · rw [if_pos hSize, Option.bind_some,
        and_iff_right hSize]
      refine Iff.trans
        (udpTransmit_freedOnce_iff ?_ ?_ devices len dest) ?_
      · exact ⟨rfl, rfl, rfl⟩
      · exact hNe
      · have hLen :
            0#32 + sizeofUdpHeader + len =
              len + sizeofUdpHeader := by
          rw [BitVec.zero_add, BitVec.add_comm]
        simp only [NoSkbMemory, SkbState.copyTo, SkbState.write,
          SkbState.modifySkb, SkbState.grant,
          Function.update_self, SkBuff.put, newSkb, hLen]
    · rw [if_neg hSize]
      refine iff_of_false ?_ fun h => hSize h.1
      rintro ⟨_, _, hSent, _⟩
      cases hSent

end Datagram

/- A call with a null argument allocates nothing. -/
theorem sendCall_refused
    {devices : NetDevices}
    {s : SkbState}
    {call : SendCall}
    (hCall : sendCall devices s call = some (-1, s))
    (hOk : SendOk devices s call) :
    (∃ ret t, sendCall devices s call = some (ret, t) ∧
        FreedOnce s t) ↔
      SendOk devices s call := by
  refine iff_of_true ⟨_, _, hCall, ?_⟩ hOk
  exact freedOnce_of_same rfl

/-
  A call answers and frees what it allocated once if and only
  if it is one of the good ones.
-/
theorem sendCall_freedOnce_iff
    (devices : NetDevices)
    (s : SkbState)
    (call : SendCall) :
    (∃ ret t, sendCall devices s call = some (ret, t) ∧
        FreedOnce s t) ↔
      SendOk devices s call := by
  cases call with
  | ipTx dev dest proto data len =>
      cases dev with
      | none => exact sendCall_refused rfl trivial
      | some dev =>
          cases dest with
          | none => exact sendCall_refused rfl trivial
          | some dest =>
              cases data with
              | none => exact sendCall_refused rfl trivial
              | some data =>
                  exact (ipTx_spec devices s dev dest proto data
                    len).freedOnce_iff
  | udpSendto sock data len dest port =>
      cases sock with
      | none => exact sendCall_refused rfl trivial
      | some sock =>
          cases data with
          | none => exact sendCall_refused rfl trivial
          | some data =>
              cases dest with
              | none => exact sendCall_refused rfl trivial
              | some dest =>
                  exact udpSendto_freedOnce_iff devices s sock data
                    len dest port
  | arpRequest dev ip =>
      cases dev with
      | none => exact sendCall_refused rfl trivial
      | some dev =>
          cases ip with
          | none => exact sendCall_refused rfl trivial
          | some ip =>
              exact (arpRequest_spec devices s dev ip).freedOnce_iff

/- One device, and what its transmit function answers -/
def loneDevice (tx : Option Int) : NetDevices where
  first := some 0x1000#64
  device := fun _ => ⟨macBroadcast, tx⟩

/- The device fails, and the datagram is freed twice. -/
theorem udpSendto_frees_twice :
    ¬ ∀ (devices : NetDevices) (s : SkbState) (call : SendCall),
      ∃ ret t, sendCall devices s call = some (ret, t) ∧
        FreedOnce s t := by
  intro hAll
  have hOnce := hAll (loneDevice (some (-1))) skbBooted
    (.udpSendto (some (netBooted.socket 0#64))
      (some fun _ => 0#8) 4#32 (some ipAny) 7#16)
  rw [sendCall, udpSendto_freedOnce_iff] at hOnce
  rcases hOnce with hNone | hSent
  · revert hNone
    unfold NoSkbMemory
    decide +kernel
  · have hTx := (hSent.2 0x1000#64 rfl).2.2
    revert hTx
    decide

end FeatherOS
