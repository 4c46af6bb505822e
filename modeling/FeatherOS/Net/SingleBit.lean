import FeatherOS.Net.Ip

/-
  What the checksum detects.

  A flipped bit adds a power of two to the sum of the 16-bit
  numbers, or takes it away, and no such power is a multiple
  of 2^16 - 1.

  Key definitions include:
    * `flipAt`
    * `SkbState.flip`

  Key theorems include:
    * `wordSum_flipAt`
    * `ipChecksum_flipAt`
    * `flip_rejected`
    * `ipChecksum_single_bit`
-/

namespace FeatherOS

open CyclicBuffer (front)

--------------------
-- One Bit
--------------------

def flipBit
    (bit : Nat)
    (x : U8) : U8 :=
  x ^^^ BitVec.twoPow 8 bit

/- A bit of a buffer is changed. -/
def flipAt
    (bytes : List U8)
    (i bit : Nat) :
    List U8 :=
  bytes.modify i (flipBit bit)

/- `y` is `x` and `n` more, or `x` is `y` and `n` more. -/
def Apart (n x y : Nat) : Prop :=
  y = x + n ∨ x = y + n

theorem flipBit_flipBit
    (bit : Nat)
    (x : U8) :
    flipBit bit (flipBit bit x) = x := by
  rw [flipBit, flipBit, BitVec.xor_assoc, BitVec.xor_self,
    BitVec.xor_zero]

variable {bit : Nat}

theorem getLsbD_flipBit
    (hBit : bit < 8)
    (x : U8)
    (i : Nat) :
    (flipBit bit x).getLsbD i =
      if i = bit then !x.getLsbD i else x.getLsbD i := by
  rw [flipBit, BitVec.getLsbD_xor, BitVec.getLsbD_twoPow]
  split
  next hSame => simp [hSame, hBit]
  next hOther => simp [Ne.symm hOther]

/- A bit that is set adds its value. -/
theorem toNat_flipBit_of_clear
    (hBit : bit < 8)
    {x : U8}
    (hClear : x.getLsbD bit = false) :
    (flipBit bit x).toNat = x.toNat + 2 ^ bit := by
  have hAnd : x &&& BitVec.twoPow 8 bit = 0#8 := by
    apply BitVec.eq_of_getLsbD_eq
    intro i hi
    rw [BitVec.getLsbD_and, BitVec.getLsbD_twoPow]
    by_cases hSame : bit = i
    · subst hSame
      simp [hClear]
    · simp [hSame]
  have hOr : flipBit bit x = x + BitVec.twoPow 8 bit := by
    rw [BitVec.add_eq_or_of_and_eq_zero _ _ hAnd]
    apply BitVec.eq_of_getLsbD_eq
    intro i hi
    rw [getLsbD_flipBit hBit, BitVec.getLsbD_or,
      BitVec.getLsbD_twoPow]
    split
    next hSame =>
      subst hSame
      rw [hClear]
      simp [hBit]
    next hOther => simp [Ne.symm hOther]
  rw [hOr, BitVec.toNat_add_of_and_eq_zero hAnd,
    BitVec.toNat_twoPow_of_lt hBit]

theorem toNat_flipBit
    (hBit : bit < 8)
    (x : U8) :
    Apart (2 ^ bit) x.toNat (flipBit bit x).toNat := by
  cases hSet : x.getLsbD bit with
  | false => exact .inl (toNat_flipBit_of_clear hBit hSet)
  | true =>
      have hClear : (flipBit bit x).getLsbD bit = false := by
        rw [getLsbD_flipBit hBit, if_pos rfl, hSet]
        rfl
      have hBack := toNat_flipBit_of_clear hBit hClear
      rw [flipBit_flipBit] at hBack
      exact .inr hBack

--------------------
-- The Sum
--------------------

theorem toNat_append_bytes
    (hi lo : U8) :
    (hi ++ lo : U16).toNat = 256 * hi.toNat + lo.toNat := by
  have hLo := lo.isLt
  rw [BitVec.toNat_append, Nat.shiftLeft_eq, Nat.mul_comm,
    ← Nat.two_pow_add_eq_or_of_lt hLo]

theorem Apart.add_left
    {n x y : Nat}
    (hApart : Apart n x y)
    (z : Nat) :
    Apart n (z + x) (z + y) := by
  unfold Apart at *
  omega

variable {bytes : List U8}

/- The bytes with an odd index are the high ones. -/
theorem wordSum_flipAt
    {i bit : Nat}
    (hi : i < bytes.length)
    (hBit : bit < 8) :
    Apart (2 ^ (bit + 8 * (i % 2))) (wordSum bytes)
      (wordSum (flipAt bytes i bit)) := by
  induction bytes using wordSum.induct generalizing i with
  | case1 lo high rest ih =>
      rcases i with _ | _ | i
      · have hLow := toNat_flipBit hBit lo
        have hPow : 2 ^ (bit + 8 * (0 % 2)) = 2 ^ bit := rfl
        simp only [flipAt, List.modify_zero_cons, wordSum,
          toNat_append_bytes, hPow]
        unfold Apart at *
        omega
      · have hHigh := toNat_flipBit hBit high
        have hPow :
            2 ^ (bit + 8 * ((0 + 1) % 2)) = 2 ^ bit * 256 :=
          Nat.pow_add ..
        simp only [flipAt, List.modify_succ_cons,
          List.modify_zero_cons, wordSum, toNat_append_bytes,
          hPow]
        unfold Apart at *
        omega
      · rw [List.length_cons, List.length_cons] at hi
        have hRest := ih (i := i) (by omega)
        rw [Nat.add_assoc, Nat.add_mod_right]
        exact hRest.add_left _
  | case2 lo =>
      have hZero : i = 0 := Nat.lt_one_iff.mp hi
      subst hZero
      exact toNat_flipBit hBit lo
  | case3 => cases hi

theorem length_flipAt
    (bytes : List U8)
    (i bit : Nat) :
    (flipAt bytes i bit).length = bytes.length :=
  List.length_modify ..

--------------------
-- The Checksum
--------------------

/- Equal checksums have sums that differ by no power of two. -/
theorem ipChecksum_ne
    {first second : List U8}
    {k : Nat}
    (hFirst : wordSum first < 2 ^ 32)
    (hSecond : wordSum second < 2 ^ 32)
    (hk : k < 16)
    (hApart : Apart (2 ^ k) (wordSum first) (wordSum second)) :
    ipChecksum second ≠ ipChecksum first := by
  intro hSame
  have hValues := congrArg BitVec.toNat hSame
  rw [toNat_ipChecksum hFirst, toNat_ipChecksum hSecond] at hValues
  have hLt : ∀ {x}, x < 2 ^ 32 →
      EndAround.fold (2 ^ 16) (EndAround.fold (2 ^ 16) x) <
        2 ^ 16 :=
    fun h => EndAround.fold_fold_lt (by omega) (by omega)
  have hFold :
      EndAround.fold (2 ^ 16)
          (EndAround.fold (2 ^ 16) (wordSum second)) =
        EndAround.fold (2 ^ 16)
          (EndAround.fold (2 ^ 16) (wordSum first)) := by
    have hLtFirst := hLt hFirst
    have hLtSecond := hLt hSecond
    omega
  have hMod := EndAround.modEq_of_fold_fold (by omega) hFold
  rcases hApart with hMore | hLess
  · rw [hMore] at hMod
    exact EndAround.not_modEq_add_pow (by omega) hk hMod
  · rw [hLess] at hMod
    exact EndAround.not_modEq_add_pow (by omega) hk hMod.symm

/- A buffer that the length field of a packet can describe -/
theorem wordSum_lt
    (hLength : bytes.length ≤ 65535) :
    wordSum bytes < 2 ^ 32 := by
  have hLe := wordSum_le bytes
  omega

/- The checksum sees every flipped bit. -/
theorem ipChecksum_flipAt
    {i bit : Nat}
    (hLength : bytes.length ≤ 65535)
    (hi : i < bytes.length)
    (hBit : bit < 8) :
    ipChecksum (flipAt bytes i bit) ≠ ipChecksum bytes := by
  have hFlipped : (flipAt bytes i bit).length ≤ 65535 := by
    rw [length_flipAt]
    exact hLength
  exact ipChecksum_ne (wordSum_lt hLength) (wordSum_lt hFlipped)
    (by omega) (wordSum_flipAt hi hBit)

--------------------
-- The Header
--------------------

/- A bit of the data of a buffer is changed on the way. -/
def SkbState.flip
    (s : SkbState)
    (p : Addr)
    (i bit : Nat) :
    SkbState :=
  let cell := (s.skbs p).data + BitVec.ofNat 64 i
  { s with
    memory :=
      Function.update s.memory cell (flipBit bit (s.memory cell)) }

section Header

variable {s : SkbState}
variable {p : Addr}
variable {i bit : Nat}

theorem flip_data
    (hi : i < 2 ^ 64)
    {j : Nat}
    (hj : j < 2 ^ 64) :
    ((s.flip p i bit).packet p).data j =
      if j = i then flipBit bit ((s.packet p).data i)
      else (s.packet p).data j := by
  simp only [SkbState.packet, SkbState.flip]
  by_cases hSame : j = i
  · subst hSame
    rw [Function.update_self, if_pos rfl]
  · have hOther :
        (s.skbs p).data + BitVec.ofNat 64 j ≠
          (s.skbs p).data + BitVec.ofNat 64 i := by
      intro hEq
      bv_omega
    rw [Function.update_of_ne hOther, if_neg hSame]

theorem flip_bytes
    (hi : i < 2 ^ 64)
    {n : Nat}
    (hn : n ≤ 2 ^ 64) :
    ((s.flip p i bit).packet p).bytes n =
      flipAt ((s.packet p).bytes n) i bit := by
  apply List.ext_getElem?
  intro j
  rw [flipAt, List.getElem?_modify]
  by_cases hj : j < n
  · simp only [Packet.bytes, front, List.getElem?_map,
      List.getElem?_range hj, Option.map_some]
    rw [flip_data hi (by omega)]
    by_cases hSame : j = i
    · simp [hSame]
    · simp [hSame, Ne.symm hSame]
  · simp [Packet.bytes, front, hj]

/- The length field is in the low half of the first byte. -/
theorem flip_headerLen
    (hi : i < 2 ^ 64)
    (hBit : bit < 8)
    (hIntact : ¬ (i = 0 ∧ bit < 4)) :
    ((s.flip p i bit).packet p).ipHeader.len =
      (s.packet p).ipHeader.len := by
  simp only [IpHeader.len, Packet.ipHeader]
  rw [flip_data hi (by omega)]
  split
  next hFirst =>
    rw [← hFirst]
    have hLow :
        flipBit bit ((s.packet p).data 0) &&& 0x0F#8 =
          (s.packet p).data 0 &&& 0x0F#8 := by
      apply BitVec.eq_of_getLsbD_eq
      intro j hj
      rw [BitVec.getLsbD_and, BitVec.getLsbD_and,
        getLsbD_flipBit hBit]
      split
      next hSame =>
        have hMask : (0x0F#8).getLsbD j = false := by
          have hHigh : ∀ k : Fin 8, 4 ≤ k.val →
              (0x0F#8).getLsbD k = false := by
            decide
          have hOver : 4 ≤ j := by omega
          exact hHigh ⟨j, hj⟩ hOver
        rw [hMask, Bool.and_false, Bool.and_false]
      next => rfl
    rw [hLow]
  next => rfl

/- A header of at most fifteen words -/
theorem headerLen_le
    (hdr : IpHeader) :
    hdr.len.toNat ≤ 60 := by
  have hLow : (hdr.verIhl &&& 0x0F#8).toNat ≤ 15 := by
    rw [BitVec.toNat_and]
    exact Nat.and_le_right
  rw [IpHeader.len, BitVec.toNat_mul, BitVec.toNat_setWidth]
  have hFour : (4#32).toNat = 4 := rfl
  rw [hFour]
  omega

/- A packet that was accepted is not, with one bit changed. -/
theorem flip_rejected
    (hAccepted : (s.packet p).IpAccepted)
    (hi : i < (s.packet p).ipHeader.len.toNat)
    (hBit : bit < 8)
    (hIntact : ¬ (i = 0 ∧ bit < 4)) :
    ¬ ((s.flip p i bit).packet p).IpAccepted := by
  intro hAgain
  have hLe := headerLen_le (s.packet p).ipHeader
  have hChecksum := hAgain.checksum
  rw [flip_headerLen (by omega) hBit hIntact,
    flip_bytes (by omega) (by omega)] at hChecksum
  have hLength :
      ((s.packet p).bytes
        (s.packet p).ipHeader.len.toNat).length =
        (s.packet p).ipHeader.len.toNat :=
    CyclicBuffer.length_front ..
  have hNe := ipChecksum_flipAt (by omega) (hLength ▸ hi) hBit
  rw [hChecksum, hAccepted.checksum] at hNe
  exact hNe rfl

end Header

/-
  The checksum of a buffer changes with every bit of it, so
  that an accepted header is not accepted with one bit
  changed outside its length field.
-/
theorem ipChecksum_single_bit :
    (∀ (bytes : List U8) (i bit : Nat),
      bytes.length ≤ 65535 → i < bytes.length → bit < 8 →
        ipChecksum (flipAt bytes i bit) ≠ ipChecksum bytes) ∧
    ∀ (s : SkbState) (net : NetState) (p : Addr) (i bit : Nat),
      (s.packet p).IpAccepted →
      i < (s.packet p).ipHeader.len.toNat → bit < 8 →
      ¬ (i = 0 ∧ bit < 4) →
        ipRx (s.flip p i bit) net (some p) =
          (-1, skbFree (s.flip p i bit) (some p), net) :=
  ⟨fun _ _ _ hLength hi hBit =>
    ipChecksum_flipAt hLength hi hBit,
   fun _ net _ _ _ hAccepted hi hBit hIntact =>
    ipRx_of_rejected
      (flip_rejected hAccepted hi hBit hIntact) net⟩

/- A buffer that was received, with its data at address zero -/
def skbReceived (bytes : List U8) : SkbState :=
  { skbBooted with
    skbs := fun _ =>
      { newSkb 0#64 0#32 with
        data := 0#64
        len := BitVec.ofNat 32 bytes.length }
    memory := fun addr => bytes.getD addr.toNat 0#8 }

/- One bit of a byte, and the lifetime of a header -/
theorem ipChecksum_single_bit_ttl :
    ipChecksum (flipAt [0xFF#8] 0 7) ≠ ipChecksum [0xFF#8] ∧
      (let s :=
        skbReceived (ipBuildHeader ipAny ipAny 17#8 0#16)
      ipRx (s.flip 0#64 8 3) netBooted (some 0#64) =
        (-1, skbFree (s.flip 0#64 8 3) (some 0#64),
          netBooted)) := by
  refine ⟨ipChecksum_single_bit.1 _ 0 7 (by decide) (by decide)
    (by decide), ?_⟩
  exact ipChecksum_single_bit.2 _ netBooted 0#64 8 3
    ⟨by decide +kernel, by decide +kernel, by decide +kernel,
      by decide +kernel⟩
    (by decide +kernel) (by decide) (by decide)

end FeatherOS
