import FeatherOS.Net.SkBuff

/-
  The order of the pointers of a socket buffer.

  `skb_put` checks nothing, `skb_push` takes a large size for
  a negative number, `skb_alloc` lets the size wrap and
  `skb_clone` does not move the tail. All other calls keep the
  pointers in order.

  Key definitions include:
    * `SkbOrdered`
    * `SkbGood`
    * `SkbCallOk`

  Key theorems include:
    * `skbAlloc_spec`
    * `skbStep_decided`
    * `skbRun_ordered_iff`
-/

namespace FeatherOS

--------------------
-- The Property
--------------------

/- head <= data <= tail <= end and len = tail - data -/
structure SkbOrdered (b : SkBuff) : Prop where
  head_le : b.head.toNat ≤ b.data.toNat
  data_len : b.data.toNat + b.len.toNat = b.tail.toNat
  tail_le : b.tail.toNat ≤ b.stop.toNat

/- The size of a call fits its buffer. -/
def SkbFits
    (s : SkbState) :
    SkbCall → Prop
  | .pull (some p) len => len.toNat ≤ (s.skbs p).len.toNat
  | .push (some p) len =>
      (s.skbs p).head.toNat + len.toNat ≤ (s.skbs p).data.toNat
  | .put (some p) len =>
      (s.skbs p).tail.toNat + len.toNat ≤ (s.skbs p).stop.toNat
  | .trim (some p) len => len.toNat ≤ (s.skbs p).len.toNat
  | _ => True

/- Two buffers have the same data. -/
def SameData
    (s : SkbState)
    (p q : Addr) : Prop :=
  (s.skbs q).len = (s.skbs p).len ∧
    ∀ i < (s.skbs p).len.toNat,
      s.memory ((s.skbs q).data + BitVec.ofNat 64 i) =
        s.memory ((s.skbs p).data + BitVec.ofNat 64 i)

structure SkbGood
    (s : SkbState)
    (call : SkbCall)
    (s' : SkbState) : Prop where
  ordered : ∀ p ∈ s'.allocated, SkbOrdered (s'.skbs p)
  refused : ¬ SkbFits s call →
    (skbCall s call).1 = none ∧ s' = s
  cloned : ∀ p q, call = .clone (some p) →
    (skbCall s call).1 = some q → SameData s' p q

/- `kmalloc` does not grant a buffer of this size. -/
def NoSkbMemory
    (s : SkbState)
    (size : U32) : Prop :=
  (kmalloc s.heap sizeofSkBuff).1 = none ∨
    (kmalloc (kmalloc s.heap sizeofSkBuff).2
      ((skbTotalSize size).setWidth 64)).1 = none

/- The calls that do what they should. -/
def SkbCallOk
    (s : SkbState) :
    SkbCall → Prop
  | .alloc size =>
      skbHeadroom ≤ (skbTotalSize size).toNat ∨ NoSkbMemory s size
  | .clone (some p) =>
      (s.skbs p).len = 0#32 ∨ NoSkbMemory s (s.skbs p).len
  | .push (some _) len => len.toNat < 2 ^ 31
  | .put (some p) len =>
      (s.skbs p).tail.toNat + len.toNat ≤ (s.skbs p).stop.toNat
  | _ => True

--------------------
-- Allocation
--------------------

theorem alignUp8_ge
    {size : U64}
    (hSize : size.toNat < 2 ^ 32) :
    size.toNat ≤ (alignUp8 size).toNat := by
  rw [toNat_alignUp8]
  omega

/- The state after a buffer was granted -/
def SkbState.grant
    (s : SkbState)
    (heap : Heap)
    (p buf : Addr)
    (totalSize : U32) :
    SkbState :=
  { s with
    heap := heap
    skbs := Function.update s.skbs p (newSkb buf totalSize)
    allocated := s.allocated ++ [p] }

/-
  There is no memory, or the record and then the data come
  from the free part of the heap.
-/
theorem skbAlloc_spec
    (s : SkbState)
    (size : U32) :
    (NoSkbMemory s size ∧
      ∃ heap, skbAlloc s size = (none, { s with heap := heap }) ∧
        s.heap.heapPtr.toNat ≤ heap.heapPtr.toNat) ∨
    (¬ NoSkbMemory s size ∧
      ∃ heap p buf,
        skbAlloc s size =
          (some p, s.grant heap p buf (skbTotalSize size)) ∧
        p = s.heap.heapPtr ∧
        p.toNat + 88 ≤ buf.toNat ∧
        buf.toNat + (skbTotalSize size).toNat ≤
          heap.heapPtr.toNat) := by
  have hRecord := kmalloc_heapPtr_le s.heap sizeofSkBuff
  unfold skbAlloc NoSkbMemory
  cases hp : kmalloc s.heap sizeofSkBuff with
  | mk p heap =>
      rw [hp] at hRecord
      cases p with
      | none => exact .inl ⟨.inl rfl, heap, rfl, hRecord⟩
      | some p =>
          have hData := kmalloc_heapPtr_le heap
            ((skbTotalSize size).setWidth 64)
          cases hBuf :
              kmalloc heap ((skbTotalSize size).setWidth 64) with
          | mk buf heap' =>
              rw [hBuf] at hData
              cases buf with
              | none =>
                  refine .inl ⟨.inr rfl, heap', ?_, ?_⟩
                  · simp only [hBuf]
                  · exact Nat.le_trans hRecord hData
              | some buf =>
                  rcases kmalloc_some hp with ⟨hAt, _, _, hNext⟩
                  rcases kmalloc_some hBuf with
                    ⟨hBufAt, _, _, hEnd⟩
                  have hSize : (alignUp8 sizeofSkBuff).toNat = 88 := by
                    decide
                  have hWide :
                      ((skbTotalSize size).setWidth 64).toNat <
                        2 ^ 32 := by
                    rw [BitVec.toNat_setWidth]
                    omega
                  have hRoom := alignUp8_ge hWide
                  rw [BitVec.toNat_setWidth] at hRoom
                  refine .inr
                    ⟨?_, heap', p, buf, ?_, hAt, ?_, ?_⟩
                  · rintro (hNone | hNone) <;> cases hNone
                  · simp only [hBuf, SkbState.grant]
                  · rw [hBufAt, hNext, hAt, hSize]
                  · rw [hEnd, ← hBufAt]
                    omega

--------------------
-- The Invariant
--------------------

/- The data of every buffer is below the free heap. -/
structure SkbInvariant (s : SkbState) : Prop where
  ordered : ∀ p ∈ s.allocated, SkbOrdered (s.skbs p)
  below : ∀ p ∈ s.allocated,
    (s.skbs p).stop.toNat ≤ s.heap.heapPtr.toNat
  known : ∀ p ∈ s.allocated, p.toNat < s.heap.heapPtr.toNat

variable {p : Addr}
variable {total : U32}
variable {memory : ByteMemory}

namespace SkbInvariant

variable {s : SkbState}

/- The heap ends far below 2^31. -/
theorem stop_lt
    (hInv : SkbInvariant s)
    (hp : p ∈ s.allocated) :
    (s.skbs p).stop.toNat < 2 ^ 22 := by
  have hBelow := hInv.below p hp
  have hTop := s.heap.heapPtr_le
  have hBound : heapStart + heapSize < 2 ^ 22 := by decide
  omega

theorem not_mem_heapPtr
    (hInv : SkbInvariant s) :
    s.heap.heapPtr ∉ s.allocated := by
  intro hMem
  exact Nat.lt_irrefl _ (hInv.known _ hMem)

/- A failed allocation only moves the heap. -/
theorem heap
    (hInv : SkbInvariant s)
    {heap : Heap}
    (hGrow : s.heap.heapPtr.toNat ≤ heap.heapPtr.toNat) :
    SkbInvariant { s with heap := heap } where
  ordered := hInv.ordered
  below p hp := Nat.le_trans (hInv.below p hp) hGrow
  known p hp := Nat.lt_of_lt_of_le (hInv.known p hp) hGrow

variable {f : SkBuff → SkBuff}

/- One buffer may change if it is still in order. -/
theorem modify
    (hInv : SkbInvariant s)
    (hOrdered : SkbOrdered (f (s.skbs p)))
    (hStop : (f (s.skbs p)).stop = (s.skbs p).stop) :
    SkbInvariant (s.modifySkb p f) where
  ordered := by
    intro q hq
    simp only [SkbState.modifySkb, Function.update_apply]
    split
    · exact hOrdered
    · exact hInv.ordered q hq
  below := by
    intro q hq
    simp only [SkbState.modifySkb, Function.update_apply]
    split
    next hSame =>
      rw [hStop]
      exact hInv.below p (hSame ▸ hq)
    next => exact hInv.below q hq
  known := hInv.known

/- A buffer that was granted. -/
theorem grant
    (hInv : SkbInvariant s)
    {heap : Heap}
    {p buf : Addr}
    (hAt : p = s.heap.heapPtr)
    (hBuf : p.toNat + 88 ≤ buf.toNat)
    (hEnd : buf.toNat + total.toNat ≤ heap.heapPtr.toNat)
    (hOrdered : SkbOrdered (f (newSkb buf total)))
    (hStop : (f (newSkb buf total)).stop =
      (newSkb buf total).stop) :
    SkbInvariant
      { (s.grant heap p buf total).modifySkb p f with
        memory := memory } := by
  have hGrow : s.heap.heapPtr.toNat ≤ heap.heapPtr.toNat := by
    rw [← hAt]
    omega
  have hNew : ∀ q ∈ (s.grant heap p buf total).allocated,
      q ∈ s.allocated ∧ q ≠ p ∨ q = p := by
    intro q hq
    rcases List.mem_append.mp hq with hOld | hNew
    · refine .inl ⟨hOld, ?_⟩
      rintro rfl
      exact hInv.not_mem_heapPtr (hAt ▸ hOld)
    · exact .inr (List.mem_singleton.mp hNew)
  have hOther : ∀ q, q ≠ p →
      ((s.grant heap p buf total).modifySkb p f).skbs q =
        s.skbs q := by
    intro q hq
    simp only [SkbState.modifySkb, SkbState.grant,
      Function.update_of_ne hq]
  have hSelf :
      ((s.grant heap p buf total).modifySkb p f).skbs p =
        f (newSkb buf total) := by
    simp only [SkbState.modifySkb, SkbState.grant,
      Function.update_self]
  constructor
  · intro q hq
    rcases hNew q hq with ⟨hOld, hNe⟩ | rfl
    · rw [hOther q hNe]
      exact hInv.ordered q hOld
    · rw [hSelf]
      exact hOrdered
  · intro q hq
    rcases hNew q hq with ⟨hOld, hNe⟩ | rfl
    · rw [hOther q hNe]
      exact Nat.le_trans (hInv.below q hOld) hGrow
    · rw [hSelf, hStop]
      have hTop := heap.heapPtr_le
      have hBound : heapStart + heapSize < 2 ^ 22 := by decide
      change (newSkb buf total).stop.toNat ≤ heap.heapPtr.toNat
      simp only [newSkb, BitVec.toNat_add, BitVec.toNat_setWidth]
      omega
  · intro q hq
    rcases hNew q hq with ⟨hOld, _⟩ | rfl
    · exact Nat.lt_of_lt_of_le (hInv.known q hOld) hGrow
    · change q.toNat < heap.heapPtr.toNat
      omega

end SkbInvariant

/- A new buffer is in order if its headroom fits. -/
theorem newSkb_ordered_iff
    {buf : Addr}
    (len : U32)
    (protocol : U16)
    (dev : Option Addr)
    (hBuf : buf.toNat + total.toNat < 2 ^ 22) :
    SkbOrdered
        { newSkb buf total with
          len := len, protocol := protocol, dev := dev } ↔
      len = 0#32 ∧ skbHeadroom ≤ total.toNat := by
  have hData :
      (buf + BitVec.ofNat 64 skbHeadroom).toNat =
        buf.toNat + skbHeadroom := by
    rw [BitVec.toNat_add, BitVec.toNat_ofNat, skbHeadroom]
    omega
  have hStop :
      (buf + total.setWidth 64).toNat =
        buf.toNat + total.toNat := by
    rw [BitVec.toNat_add, BitVec.toNat_setWidth]
    omega
  constructor
  · intro hOrdered
    have hLen := hOrdered.data_len
    have hTail := hOrdered.tail_le
    simp only [newSkb, hData, hStop] at hLen hTail
    exact ⟨BitVec.eq_of_toNat_eq (by simp; omega), by omega⟩
  · rintro ⟨rfl, hRoom⟩
    constructor <;> simp only [newSkb, hData, hStop]
    · omega
    · rfl
    · omega

--------------------
-- One Buffer
--------------------

namespace SkbOrdered

variable {b : SkBuff}
variable {len : U32}

theorem pull
    (hOrdered : SkbOrdered b)
    (hStop : b.stop.toNat < 2 ^ 22)
    (hFits : len.toNat ≤ b.len.toNat) :
    SkbOrdered (b.pull len) := by
  rcases hOrdered with ⟨hHead, hLen, hTail⟩
  constructor <;>
    simp only [SkBuff.pull, BitVec.toNat_add, BitVec.toNat_sub,
      BitVec.toNat_setWidth] <;>
    omega

theorem push
    (hOrdered : SkbOrdered b)
    (hStop : b.stop.toNat < 2 ^ 22)
    (hFits : b.head.toNat + len.toNat ≤ b.data.toNat) :
    SkbOrdered (b.push len) := by
  rcases hOrdered with ⟨hHead, hLen, hTail⟩
  constructor <;>
    simp only [SkBuff.push, BitVec.toNat_add, BitVec.toNat_sub,
      BitVec.toNat_setWidth] <;>
    omega

theorem put
    (hOrdered : SkbOrdered b)
    (hStop : b.stop.toNat < 2 ^ 22)
    (hFits : b.tail.toNat + len.toNat ≤ b.stop.toNat) :
    SkbOrdered (b.put len) := by
  rcases hOrdered with ⟨hHead, hLen, hTail⟩
  constructor <;>
    simp only [SkBuff.put, BitVec.toNat_add,
      BitVec.toNat_setWidth] <;>
    omega

theorem trim
    (hOrdered : SkbOrdered b)
    (hStop : b.stop.toNat < 2 ^ 22)
    (hFits : len.toNat ≤ b.len.toNat) :
    SkbOrdered (b.trim len) := by
  rcases hOrdered with ⟨hHead, hLen, hTail⟩
  constructor <;>
    simp only [SkBuff.trim, BitVec.toNat_add,
      BitVec.toNat_setWidth] <;>
    omega

end SkbOrdered

--------------------
-- One Call
--------------------

section Calls

variable {s : SkbState}

/- A call is good if and only if it is one of the good ones. -/
def SkbDecided
    (s : SkbState)
    (call : SkbCall) : Prop :=
  (SkbGood s call (skbCall s call).2 ↔ SkbCallOk s call) ∧
    (SkbCallOk s call → SkbInvariant (skbCall s call).2)

variable {call : SkbCall}

/- A call that keeps the invariant and fits. -/
theorem skbGood_of_invariant
    (hAfter : SkbInvariant (skbCall s call).2)
    (hFits : ¬ SkbFits s call →
      (skbCall s call).1 = none ∧ (skbCall s call).2 = s)
    (hClone : ∀ p, call ≠ .clone (some p)) :
    SkbGood s call (skbCall s call).2 where
  ordered := hAfter.ordered
  refused := hFits
  cloned := by
    intro p q hCall
    exact absurd hCall (hClone p)

/- A call on NULL does nothing. -/
theorem skbDecided_null
    (hInv : SkbInvariant s)
    (hCall : skbCall s call = (none, s))
    (hOk : SkbCallOk s call) :
    SkbDecided s call := by
  have hAfter : SkbInvariant (skbCall s call).2 := by
    rw [hCall]
    exact hInv
  refine ⟨iff_of_true ?_ hOk, fun _ => hAfter⟩
  constructor
  · exact hAfter.ordered
  · intro _
    rw [hCall]
    exact ⟨rfl, rfl⟩
  · intro p q _ hSome
    rw [hCall] at hSome
    cases hSome

theorem skbPull_decided
    (hInv : SkbInvariant s)
    (hp : p ∈ s.allocated)
    (len : U32) :
    SkbDecided s (.pull (some p) len) := by
  have hOrdered := hInv.ordered p hp
  have hStop := hInv.stop_lt hp
  have hLen := hOrdered.data_len
  have hTail := hOrdered.tail_le
  have hAfter : SkbInvariant (skbPull s (some p) len).2 := by
    simp only [skbPull]
    split
    next => exact hInv
    next hFits =>
      rw [BitVec.lt_def] at hFits
      change SkbInvariant (s.modifySkb p fun b => b.pull len)
      exact hInv.modify (hOrdered.pull hStop (by omega)) rfl
  refine ⟨iff_of_true ?_ trivial, fun _ => hAfter⟩
  refine skbGood_of_invariant hAfter ?_ nofun
  intro hFits
  have hLt : (s.skbs p).len < len := by
    rw [BitVec.lt_def]
    exact Nat.not_le.mp hFits
  simp only [skbCall, skbPull, if_pos hLt, and_self]

/- The comparison of `skb_push`, for sizes below 2^31. -/
theorem push_room
    {b : SkBuff}
    (hOrdered : SkbOrdered b)
    (hStop : b.stop.toNat < 2 ^ 22) :
    (b.data - b.head).toInt = b.data.toNat - b.head.toNat := by
  have hHead := hOrdered.head_le
  have hLen := hOrdered.data_len
  have hTail := hOrdered.tail_le
  rw [BitVec.toInt_sub, BitVec.toInt_eq_toNat_of_lt (by omega),
    BitVec.toInt_eq_toNat_of_lt (by omega)]
  apply Int.bmod_eq_of_le <;> omega

theorem skbPush_decided
    (hInv : SkbInvariant s)
    (hp : p ∈ s.allocated)
    (len : U32) :
    SkbDecided s (.push (some p) len) := by
  have hOrdered := hInv.ordered p hp
  have hStop := hInv.stop_lt hp
  have hRoom := push_room hOrdered hStop
  have hHead := hOrdered.head_le
  have hLen := hOrdered.data_len
  have hTail := hOrdered.tail_le
  by_cases hOk : len.toNat < 2 ^ 31
  · have hInt : len.toInt = len.toNat :=
      BitVec.toInt_eq_toNat_of_lt (by omega)
    have hAfter : SkbInvariant (skbPush s (some p) len).2 := by
      simp only [skbPush]
      split
      next => exact hInv
      next hFits =>
        rw [hRoom, hInt] at hFits
        change SkbInvariant (s.modifySkb p fun b => b.push len)
        exact hInv.modify (hOrdered.push hStop (by omega)) rfl
    refine ⟨iff_of_true ?_ hOk, fun _ => hAfter⟩
    refine skbGood_of_invariant hAfter ?_ nofun
    intro hFits
    have hLt :
        ((s.skbs p).data - (s.skbs p).head).toInt < len.toInt := by
      rw [hRoom, hInt]
      simp only [SkbFits] at hFits
      omega
    simp only [skbCall, skbPush, if_pos hLt, and_self]
  · refine ⟨iff_of_false ?_ hOk, fun h => absurd h hOk⟩
    intro hGood
    have hLarge : ¬ SkbFits s (.push (some p) len) := by
      simp only [SkbFits]
      omega
    have hNegative : len.toInt < 0 := by
      rw [BitVec.toInt_neg_iff]
      omega
    have hPasses :
        ¬ ((s.skbs p).data - (s.skbs p).head).toInt <
          len.toInt := by
      rw [hRoom]
      omega
    have hNull := (hGood.refused hLarge).1
    simp only [skbCall, skbPush, if_neg hPasses] at hNull
    cases hNull

theorem skbPut_decided
    (hInv : SkbInvariant s)
    (hp : p ∈ s.allocated)
    (len : U32) :
    SkbDecided s (.put (some p) len) := by
  have hOrdered := hInv.ordered p hp
  have hStop := hInv.stop_lt hp
  have hLen := hOrdered.data_len
  by_cases hOk :
      (s.skbs p).tail.toNat + len.toNat ≤ (s.skbs p).stop.toNat
  · have hAfter : SkbInvariant (skbPut s (some p) len).2 := by
      change SkbInvariant (s.modifySkb p fun b => b.put len)
      exact hInv.modify (hOrdered.put hStop hOk) rfl
    refine ⟨iff_of_true ?_ hOk, fun _ => hAfter⟩
    exact skbGood_of_invariant hAfter (absurd hOk) nofun
  · refine ⟨iff_of_false ?_ hOk, fun h => absurd h hOk⟩
    intro hGood
    have hNull := (hGood.refused hOk).1
    cases hNull

theorem skbTrim_decided
    (hInv : SkbInvariant s)
    (hp : p ∈ s.allocated)
    (len : U32) :
    SkbDecided s (.trim (some p) len) := by
  have hOrdered := hInv.ordered p hp
  have hStop := hInv.stop_lt hp
  have hLen := hOrdered.data_len
  have hTail := hOrdered.tail_le
  have hAfter : SkbInvariant (skbTrim s (some p) len) := by
    simp only [skbTrim]
    split
    next hLess =>
      rw [BitVec.lt_def] at hLess
      exact hInv.modify (hOrdered.trim hStop (by omega)) rfl
    next => exact hInv
  refine ⟨iff_of_true ?_ trivial, fun _ => hAfter⟩
  refine skbGood_of_invariant hAfter ?_ nofun
  intro hFits
  have hNotLess : ¬ len < (s.skbs p).len := by
    rw [BitVec.lt_def]
    simp only [SkbFits] at hFits
    omega
  simp only [skbCall, skbTrim, if_neg hNotLess, and_self]

theorem skbAlloc_decided
    (hInv : SkbInvariant s)
    (size : U32) :
    SkbDecided s (.alloc size) := by
  rcases skbAlloc_spec s size with
    ⟨hNone, heap, hCall, hGrow⟩ |
    ⟨hSome, heap, p, buf, hCall, hAt, hBuf, hEnd⟩
  · have hAfter : SkbInvariant (skbCall s (.alloc size)).2 := by
      rw [skbCall, hCall]
      exact hInv.heap hGrow
    refine ⟨iff_of_true ?_ (.inr hNone), fun _ => hAfter⟩
    exact skbGood_of_invariant hAfter (absurd trivial) nofun
  · have hTop := heap.heapPtr_le
    have hBound : heapStart + heapSize < 2 ^ 22 := by decide
    have hSmall : buf.toNat + (skbTotalSize size).toNat < 2 ^ 22 := by
      omega
    have hOrdered := newSkb_ordered_iff 0#32 0#16 none hSmall
    have hAfter :
        SkbCallOk s (.alloc size) →
          SkbInvariant (skbCall s (.alloc size)).2 := by
      intro hOk
      have hRoom := hOk.resolve_right hSome
      have hSame :
          s.grant heap p buf (skbTotalSize size) =
            { (s.grant heap p buf (skbTotalSize size)).modifySkb p
                fun b => b with
              memory := s.memory } := by
        simp only [SkbState.modifySkb, SkbState.grant,
          Function.update_self, Function.update_idem]
      rw [skbCall, hCall, hSame]
      exact hInv.grant hAt hBuf hEnd
        (hOrdered.mpr ⟨rfl, hRoom⟩) rfl
    refine ⟨⟨?_, ?_⟩, hAfter⟩
    · intro hGood
      have hNew := hGood.ordered p
      rw [skbCall, hCall] at hNew
      simp only [SkbState.grant, Function.update_self] at hNew
      exact .inl (hOrdered.mp (hNew (by simp))).2
    · intro hOk
      exact skbGood_of_invariant (hAfter hOk) (absurd trivial)
        nofun

/- The state after a buffer was granted for a clone -/
def SkbState.cloned
    (s : SkbState)
    (heap : Heap)
    (p c buf : Addr) :
    SkbState :=
  let old := s.skbs p
  let granted := s.grant heap c buf (skbTotalSize old.len)
  { granted.modifySkb c fun b =>
      { b with
        len := old.len
        protocol := old.protocol
        dev := old.dev } with
    memory :=
      s.memory.patch (newSkb buf (skbTotalSize old.len)).data
        old.len.toNat
        fun i => s.memory (old.data + BitVec.ofNat 64 i) }

theorem cloned_new
    (s : SkbState)
    (heap : Heap)
    (p c buf : Addr) :
    (s.cloned heap p c buf).skbs c =
      { newSkb buf (skbTotalSize (s.skbs p).len) with
        len := (s.skbs p).len
        protocol := (s.skbs p).protocol
        dev := (s.skbs p).dev } := by
  simp only [SkbState.cloned, SkbState.modifySkb, SkbState.grant,
    Function.update_self]

theorem cloned_old
    (s : SkbState)
    (heap : Heap)
    {p c : Addr}
    (buf : Addr)
    (hNe : p ≠ c) :
    (s.cloned heap p c buf).skbs p = s.skbs p := by
  simp only [SkbState.cloned, SkbState.modifySkb, SkbState.grant,
    Function.update_of_ne hNe]

theorem skbClone_granted
    {heap : Heap}
    {p c buf : Addr}
    (hCall : skbAlloc s (s.skbs p).len =
      (some c, s.grant heap c buf (skbTotalSize (s.skbs p).len)))
    (hNe : p ≠ c) :
    skbCall s (.clone (some p)) =
      (some c, s.cloned heap p c buf) := by
  simp only [skbCall, skbClone, hCall, SkbState.cloned,
    SkbState.modifySkb, SkbState.grant, Function.update_self,
    Function.update_of_ne hNe]

/- What a clone copies, with the old data below the new. -/
theorem clone_sameData
    {t : SkbState}
    {p c : Addr}
    {old new : SkBuff}
    (hOld : t.skbs p = old)
    (hNew : t.skbs c = new)
    (hLen : new.len = old.len)
    (hMemory : t.memory =
      memory.patch new.data old.len.toNat
        fun i => memory (old.data + BitVec.ofNat 64 i))
    (hBelow : old.data.toNat + old.len.toNat ≤ new.data.toNat)
    (hFit : new.data.toNat + old.len.toNat ≤ 2 ^ 64) :
    SameData t p c := by
  unfold SameData
  rw [hOld, hNew, hMemory]
  refine ⟨hLen, ?_⟩
  intro i hi
  rw [ByteMemory.patch_inside hi (by omega)]
  refine (ByteMemory.patch_outside hFit (.inl ?_)).symm
  rw [BitVec.toNat_add, BitVec.toNat_ofNat]
  omega

theorem skbClone_decided
    (hInv : SkbInvariant s)
    (hp : p ∈ s.allocated) :
    SkbDecided s (.clone (some p)) := by
  have hOrdered := hInv.ordered p hp
  have hStop := hInv.stop_lt hp
  have hLen := hOrdered.data_len
  have hTail := hOrdered.tail_le
  rcases skbAlloc_spec s (s.skbs p).len with
    ⟨hNone, heap, hCall, hGrow⟩ |
    ⟨hSome, heap, c, buf, hCall, hAt, hBuf, hEnd⟩
  · have hClone :
        skbCall s (.clone (some p)) =
          (none, { s with heap := heap }) := by
      simp only [skbCall, skbClone, hCall]
    have hAfter :
        SkbInvariant (skbCall s (.clone (some p))).2 := by
      rw [hClone]
      exact hInv.heap hGrow
    refine ⟨iff_of_true ?_ (.inr hNone), fun _ => hAfter⟩
    refine ⟨hAfter.ordered, absurd trivial, ?_⟩
    intro q d _ hRet
    rw [hClone] at hRet
    cases hRet
  · have hTop := heap.heapPtr_le
    have hBound : heapStart + heapSize < 2 ^ 22 := by decide
    have hNe : p ≠ c := by
      rintro rfl
      exact hInv.not_mem_heapPtr (hAt ▸ hp)
    have hTotal :
        (skbTotalSize (s.skbs p).len).toNat =
          (s.skbs p).len.toNat + 152 := by
      rw [skbTotalSize, BitVec.toNat_add, BitVec.toNat_ofNat]
      omega
    have hSmall :
        buf.toNat + (skbTotalSize (s.skbs p).len).toNat <
          2 ^ 22 := by
      omega
    have hNew := newSkb_ordered_iff (s.skbs p).len
      (s.skbs p).protocol (s.skbs p).dev hSmall
    have hData :
        (newSkb buf (skbTotalSize (s.skbs p).len)).data.toNat =
          buf.toNat + 64 := by
      simp only [newSkb, skbHeadroom, BitVec.toNat_add,
        BitVec.toNat_ofNat]
      omega
    have hClone := skbClone_granted hCall hNe
    have hAfter :
        SkbCallOk s (.clone (some p)) →
          SkbInvariant (skbCall s (.clone (some p))).2 := by
      intro hOk
      rw [hClone]
      have hEmpty := hOk.resolve_right hSome
      have hRoom :
          skbHeadroom ≤
            (skbTotalSize (s.skbs p).len).toNat := by
        rw [hTotal, skbHeadroom]
        omega
      exact hInv.grant hAt hBuf hEnd (hNew.mpr ⟨hEmpty, hRoom⟩)
        rfl
    refine ⟨⟨?_, ?_⟩, hAfter⟩
    · intro hGood
      have hOrderedNew := hGood.ordered c
      rw [hClone, cloned_new] at hOrderedNew
      have hMem : c ∈ (s.cloned heap p c buf).allocated :=
        List.mem_append_right _ (List.mem_singleton_self c)
      exact .inl (hNew.mp (hOrderedNew hMem)).1
    · intro hOk
      refine ⟨(hAfter hOk).ordered, absurd trivial, ?_⟩
      intro q d hSame hRet
      cases hSame
      rw [hClone] at hRet ⊢
      cases hRet
      have hBelow := hInv.below p hp
      rw [hAt] at hBuf
      refine clone_sameData (cloned_old s heap buf hNe)
        (cloned_new s heap p c buf) rfl rfl ?_ ?_
      · rw [hData]
        omega
      · rw [hData]
        omega

theorem skbStep_decided
    {s' : SkbState}
    (hInv : SkbInvariant s)
    (hStep : skbStep s call s') :
    (SkbGood s call s' ↔ SkbCallOk s call) ∧
      (SkbCallOk s call → SkbInvariant s') := by
  rcases hStep with ⟨hKnown, rfl⟩
  cases call with
  | alloc size => exact skbAlloc_decided hInv size
  | clone skb =>
      cases skb with
      | none => exact skbDecided_null hInv rfl trivial
      | some p => exact skbClone_decided hInv (hKnown p rfl)
  | pull skb len =>
      cases skb with
      | none => exact skbDecided_null hInv rfl trivial
      | some p => exact skbPull_decided hInv (hKnown p rfl) len
  | push skb len =>
      cases skb with
      | none => exact skbDecided_null hInv rfl trivial
      | some p => exact skbPush_decided hInv (hKnown p rfl) len
  | put skb len =>
      cases skb with
      | none => exact skbDecided_null hInv rfl trivial
      | some p => exact skbPut_decided hInv (hKnown p rfl) len
  | trim skb len =>
      cases skb with
      | none => exact skbDecided_null hInv rfl trivial
      | some p => exact skbTrim_decided hInv (hKnown p rfl) len

end Calls

/-
  The calls do what they should, one after the other, if and
  only if each is one of the good ones: no size wraps in
  `skb_alloc`, a buffer that is cloned is empty, a size for
  `skb_push` is below 2^31 and one for `skb_put` fits.
-/
theorem skbRun_ordered_iff
    {s t : SkbState}
    {calls : List SkbCall}
    (hStart : s.allocated = []) :
    Run (fun s call t => skbStep s call t ∧ SkbGood s call t)
        s calls t ↔
      Run (Guarded SkbCallOk skbStep) s calls t := by
  apply Run.guarded_iff SkbInvariant
  · intro s call t hInv hOk hStep
    exact (skbStep_decided hInv hStep).2 hOk
  · intro s call t hInv hStep
    exact (skbStep_decided hInv hStep).1
  · constructor <;>
      intro p hp <;>
      rw [hStart] at hp <;>
      cases hp

/- Nothing has been allocated. -/
def skbBooted : SkbState where
  heap := Heap.initial
  skbs := fun _ => newSkb 0#64 0#32
  memory := fun _ => 0#8
  allocated := []
  freed := []
  handed := []

/- Data is put in, a header is pushed and pulled again. -/
def skbCalls : List SkbCall :=
  [.alloc 100#32, .put (some 0x200000#64) 60#32,
    .push (some 0x200000#64) 14#32,
    .pull (some 0x200000#64) 14#32,
    .trim (some 0x200000#64) 20#32]

def skbAfter
    (calls : List SkbCall) :
    SkbState :=
  calls.foldl (fun s call => (skbCall s call).2) skbBooted

theorem skbRun_ordered_iff_header :
    Run (fun s call t => skbStep s call t ∧ SkbGood s call t)
      skbBooted skbCalls (skbAfter skbCalls) := by
  apply (skbRun_ordered_iff rfl).mpr
  have hFits : SkbCallOk (skbAfter [.alloc 100#32])
      (.put (some 0x200000#64) 60#32) := by
    unfold SkbCallOk
    decide +kernel
  have hSmall : (14#32).toNat < 2 ^ 31 := by decide
  refine .cons ⟨.inl (by decide), nofun, rfl⟩
    (.cons ⟨hFits, ?_, rfl⟩ (.cons ⟨hSmall, ?_, rfl⟩
      (.cons ⟨trivial, ?_, rfl⟩ (.cons ⟨trivial, ?_, rfl⟩
        (.nil _)))))
  all_goals
    rintro p ⟨⟩
    decide +kernel

/- One byte more than the buffer has room for. -/
theorem skbPut_beyond_end :
    ¬ ∀ (s t : SkbState) (calls : List SkbCall),
      s.allocated = [] → Run skbStep s calls t →
        ∀ p ∈ t.allocated, SkbOrdered (t.skbs p) := by
  intro hAll
  have hRun :
      Run skbStep skbBooted
        [.alloc 0#32, .put (some 0x200000#64) 89#32]
        (skbAfter
          [.alloc 0#32, .put (some 0x200000#64) 89#32]) := by
    refine .cons ⟨nofun, rfl⟩ (.cons ⟨?_, rfl⟩ (.nil _))
    rintro p ⟨⟩
    decide +kernel
  have hTail :=
    (hAll _ _ _ rfl hRun 0x200000#64 (by decide +kernel)).tail_le
  revert hTail
  decide +kernel

end FeatherOS
