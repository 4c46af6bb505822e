import FeatherOS.Library.EndAround
import FeatherOS.Net.Transmit

/-
  Receiving through the IP layer of `kernel/net/tcpip.c`.

  A header is accepted by its version, its length and its
  checksum, which is the sum of its 16-bit numbers with
  end-around carry.

  Key definitions include:
    * `ipRx`
    * `ipHandle`
    * `Packet.IpAccepted`

  Key theorems include:
    * `ipRx_of_accepted`
    * `ipRx_of_rejected`
    * `ipChecksum_ipBuildHeader`
-/

namespace FeatherOS

open CyclicBuffer (front)

--------------------
-- Receiving
--------------------

/- IP_VERSION_4 -/
def ipVersion4 : U8 := 4#8

def ipProtoIcmp : Int := 1

/- The data of a buffer, as a protocol reads it -/
def SkbState.packet
    (s : SkbState)
    (p : Addr) :
    Packet where
  data := fun i => s.memory ((s.skbs p).data + BitVec.ofNat 64 i)
  len := (s.skbs p).len

def Packet.bytes
    (skb : Packet)
    (n : Nat) :
    List U8 :=
  front skb.data n

/- ip_header_t, as far as it is read -/
structure IpHeader where
  verIhl : U8
  proto : U8

def Packet.ipHeader (skb : Packet) : IpHeader where
  verIhl := skb.data 0
  proto := skb.data 9

def IpHeader.version (hdr : IpHeader) : U8 :=
  (hdr.verIhl >>> 4) &&& 0x0F#8

/- header_len -/
def IpHeader.len (hdr : IpHeader) : U32 :=
  (hdr.verIhl &&& 0x0F#8).setWidth 32 * 4#32

/- The handlers free the buffer on every path. -/
def ipHandle
    (s : SkbState)
    (net : NetState)
    (p : Addr)
    (proto : U8) :
    Int × SkbState × NetState :=
  if proto = BitVec.ofInt 8 ipProtoTcp then
    let answer := tcpRx net (some (s.packet p))
    (answer.ret, skbFree s (some p), answer.state)
  else if proto = BitVec.ofInt 8 ipProtoUdp then
    let answer := udpRx net (some (s.packet p))
    (answer.ret, skbFree s (some p), answer.state)
  else if proto = BitVec.ofInt 8 ipProtoIcmp then
    (0, skbFree s (some p), net)
  else
    (-1, skbFree s (some p), net)

def ipRx
    (s : SkbState)
    (net : NetState)
    (skb : Option Addr) :
    Int × SkbState × NetState :=
  match skb with
  | none => (-1, s, net)
  | some p =>
      let skb := s.packet p
      let hdr := skb.ipHeader
      if skb.len < sizeofIpHeader then
        (-1, skbFree s (some p), net)
      else if hdr.version ≠ ipVersion4 then
        (-1, skbFree s (some p), net)
      else if skb.len < hdr.len then
        (-1, skbFree s (some p), net)
      else if ipChecksum (skb.bytes hdr.len.toNat) ≠ 0#16 then
        (-1, skbFree s (some p), net)
      else
        ipHandle (skbPull s (some p) hdr.len).2 net p hdr.proto

/- The tests that a packet has to pass -/
structure Packet.IpAccepted (skb : Packet) : Prop where
  header : sizeofIpHeader.toNat ≤ skb.len.toNat
  version : skb.ipHeader.version = ipVersion4
  length : skb.ipHeader.len.toNat ≤ skb.len.toNat
  checksum :
    ipChecksum (skb.bytes skb.ipHeader.len.toNat) = 0#16

/- A packet that passes gets to its handler. -/
theorem ipRx_of_accepted
    {s : SkbState}
    {p : Addr}
    (hAccepted : (s.packet p).IpAccepted)
    (net : NetState) :
    ipRx s net (some p) =
      ipHandle
        (s.modifySkb p fun b =>
          b.pull (s.packet p).ipHeader.len)
        net p (s.packet p).ipHeader.proto := by
  have hHeader : ¬ (s.packet p).len < sizeofIpHeader :=
    Nat.not_lt.mpr hAccepted.header
  have hLength :
      ¬ (s.packet p).len < (s.packet p).ipHeader.len :=
    Nat.not_lt.mpr hAccepted.length
  have hVersion :
      ¬ (s.packet p).ipHeader.version ≠ ipVersion4 :=
    not_not.mpr hAccepted.version
  have hChecksum :
      ¬ ipChecksum
          ((s.packet p).bytes (s.packet p).ipHeader.len.toNat) ≠
        0#16 :=
    not_not.mpr hAccepted.checksum
  have hPull :
      (skbPull s (some p) (s.packet p).ipHeader.len).2 =
        s.modifySkb p fun b =>
          b.pull (s.packet p).ipHeader.len := by
    rw [skbPull]
    exact congrArg Prod.snd (if_neg hLength)
  simp only [ipRx, if_neg hHeader, if_neg hVersion,
    if_neg hLength, if_neg hChecksum, hPull]

/- Any other packet is freed. -/
theorem ipRx_of_rejected
    {s : SkbState}
    {p : Addr}
    (hRejected : ¬ (s.packet p).IpAccepted)
    (net : NetState) :
    ipRx s net (some p) = (-1, skbFree s (some p), net) := by
  simp only [ipRx]
  split
  next => rfl
  next hHeader =>
    split
    next => rfl
    next hVersion =>
      split
      next => rfl
      next hLength =>
        split
        next => rfl
        next hChecksum =>
          exact absurd
            ⟨Nat.not_lt.mp hHeader, not_not.mp hVersion,
              Nat.not_lt.mp hLength, not_not.mp hChecksum⟩
            hRejected

--------------------
-- The Checksum
--------------------

/- The sum of the 16-bit numbers of some bytes, as a number -/
def wordSum : List U8 → Nat
  | lo :: hi :: rest => (hi ++ lo : U16).toNat + wordSum rest
  | [lo] => lo.toNat
  | [] => 0

theorem wordSum_le
    (bytes : List U8) :
    wordSum bytes ≤ 65535 * bytes.length := by
  fun_induction wordSum bytes with
  | case1 lo hi rest ih =>
      have hWord := (hi ++ lo : U16).isLt
      rw [List.length_cons, List.length_cons]
      omega
  | case2 lo =>
      have hByte := lo.isLt
      rw [List.length_singleton]
      omega
  | case3 => exact Nat.zero_le _

/- A sum that does not wrap -/
theorem toNat_ipSum
    {sum : U32}
    {bytes : List U8}
    (hFits : sum.toNat + wordSum bytes < 2 ^ 32) :
    (ipSum sum bytes).toNat = sum.toNat + wordSum bytes := by
  induction sum, bytes using ipSum.induct with
  | case1 sum lo hi rest ih =>
      have hWord := (hi ++ lo : U16).isLt
      rw [wordSum] at hFits ⊢
      have hSum :
          (sum + (hi ++ lo : U16).setWidth 32).toNat =
            sum.toNat + (hi ++ lo : U16).toNat := by
        rw [BitVec.toNat_add, BitVec.toNat_setWidth]
        omega
      rw [ipSum, ih (by rw [hSum]; omega), hSum, Nat.add_assoc]
  | case2 sum lo =>
      rw [wordSum] at hFits ⊢
      rw [ipSum, BitVec.toNat_add, BitVec.toNat_setWidth]
      omega
  | case3 sum => rfl

/- Bytes that are taken in pairs -/
theorem wordSum_append
    {first : List U8}
    (rest : List U8)
    (hEven : first.length % 2 = 0) :
    wordSum (first ++ rest) = wordSum first + wordSum rest := by
  induction first using wordSum.induct with
  | case1 lo hi first ih =>
      rw [List.length_cons, List.length_cons] at hEven
      simp only [List.cons_append, wordSum]
      rw [ih (by omega), Nat.add_assoc]
  | case2 lo => cases hEven
  | case3 =>
      rw [List.nil_append, wordSum, Nat.zero_add]

theorem wordSum_bytes16
    (x : U16) :
    wordSum (bytes16 x) = x.toNat := by
  have hWord : (x.extractLsb' 8 8 ++ x.extractLsb' 0 8 : U16) = x := by
    apply BitVec.eq_of_getLsbD_eq
    intro i hi
    simp only [BitVec.getLsbD_append, BitVec.getLsbD_extractLsb']
    grind
  rw [bytes16, wordSum, hWord]
  rfl

/- The fold of the source is the one with end-around carry. -/
theorem toNat_ipFold_eq
    (sum : U32) :
    (ipFold sum).toNat = EndAround.fold (2 ^ 16) sum.toNat := by
  rw [toNat_ipFold]
  split
  next hSmall => exact (EndAround.fold_of_lt hSmall).symm
  next => rfl

theorem toNat_ipChecksum
    {bytes : List U8}
    (hFits : wordSum bytes < 2 ^ 32) :
    (ipChecksum bytes).toNat =
      2 ^ 16 - 1 -
        EndAround.fold (2 ^ 16)
          (EndAround.fold (2 ^ 16) (wordSum bytes)) := by
  have hSum : (ipSum 0#32 bytes).toNat = wordSum bytes := by
    rw [toNat_ipSum (by simpa using hFits)]
    exact Nat.zero_add _
  have hLt :
      EndAround.fold (2 ^ 16)
          (EndAround.fold (2 ^ 16) (wordSum bytes)) < 2 ^ 16 :=
    EndAround.fold_fold_lt (by omega) (by omega)
  rw [ipChecksum, BitVec.toNat_setWidth, BitVec.toNat_not,
    toNat_ipFold_eq, toNat_ipFold_eq, hSum]
  omega

theorem length_bytes16
    (x : U16) :
    (bytes16 x).length = 2 := rfl

/- The checksum stands behind an even number of bytes. -/
theorem wordSum_checksum
    {first : List U8}
    (rest last : List U8)
    (checksum : U16)
    (hEven : first.length % 2 = 0) :
    wordSum (first ++ bytes16 checksum ++ rest ++ last) =
      wordSum first + checksum.toNat + wordSum (rest ++ last) := by
  have hTwo : (bytes16 checksum).length % 2 = 0 := by
    rw [length_bytes16]
  rw [List.append_assoc, List.append_assoc,
    wordSum_append _ hEven, wordSum_append _ hTwo,
    wordSum_bytes16, Nat.add_assoc]

theorem wordSum_ipHeader
    (src dest : IpAddr)
    (proto : U8)
    (payloadLen checksum : U16) :
    wordSum (ipHeader src dest proto payloadLen checksum) =
      wordSum (ipHeader src dest proto payloadLen 0#16) +
        checksum.toNat := by
  have hZero : (0#16).toNat = 0 := rfl
  unfold ipHeader
  rw [wordSum_checksum _ _ checksum (by simp [length_bytes16]),
    wordSum_checksum _ _ 0#16 (by simp [length_bytes16])]
  omega

/- The first byte is not zero. -/
theorem wordSum_ipHeader_pos
    (src dest : IpAddr)
    (proto : U8)
    (payloadLen checksum : U16) :
    0 < wordSum (ipHeader src dest proto payloadLen checksum) := by
  simp only [ipHeader, List.cons_append, wordSum]
  exact Nat.add_pos_left (by decide) _

theorem length_ipHeader
    (src dest : IpAddr)
    (proto : U8)
    (payloadLen checksum : U16) :
    (ipHeader src dest proto payloadLen checksum).length = 20 := by
  simp [ipHeader, length_bytes16]

theorem ipChecksum_ipBuildHeader
    (src dest : IpAddr)
    (proto : U8)
    (payloadLen : U16) :
    ipChecksum (ipBuildHeader src dest proto payloadLen) =
      0#16 := by
  have hLe :=
    wordSum_le (ipHeader src dest proto payloadLen 0#16)
  rw [length_ipHeader] at hLe
  have hPos := wordSum_ipHeader_pos src dest proto payloadLen 0#16
  have hFold := EndAround.fold_complement (b := 2 ^ 16) (by omega)
    hPos (by omega)
  have hFits :
      wordSum (ipHeader src dest proto payloadLen 0#16) <
        2 ^ 32 := by
    omega
  have hFirst := toNat_ipChecksum hFits
  have hTotal :
      wordSum (ipBuildHeader src dest proto payloadLen) =
        wordSum (ipHeader src dest proto payloadLen 0#16) +
          (ipChecksum
            (ipHeader src dest proto payloadLen 0#16)).toNat :=
    wordSum_ipHeader ..
  apply BitVec.eq_of_toNat_eq
  rw [toNat_ipChecksum (by omega), hTotal, hFirst, hFold]
  rfl

end FeatherOS
