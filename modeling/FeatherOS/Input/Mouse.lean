import FeatherOS.Input.Keyboard
import Mathlib.Data.List.GetD

/-
  The PS/2 mouse of `kernel/drivers/keyboard.c`.

  A packet has three bytes, or four with a wheel, but the
  array for it has three cells, and every byte of it needs the
  bit that only the first one is sure to have. A byte written
  behind the array answers `none`. The statistics are left out.

  Key definitions include:
    * `Ps2Mouse`
    * `mouseInterruptHandler`
    * `mouseFrames`

  Key theorems include:
    * `mouse_events_exact`
    * `mouse_wheel_overruns`
-/

namespace FeatherOS

--------------------
-- The Handler
--------------------

/- MOUSE_BUFFER_SIZE -/
def mouseBufferSize : Nat := 32

/- PS2_STATUS_OUTBUF -/
def ps2StatusOutbuf : U8 := 0x01#8

def mouseXSign : U8 := 0x10#8
def mouseYSign : U8 := 0x20#8

structure MouseEvent where
  dx : U8
  dy : U8
  dz : U8
  buttons : U8
  moved : Bool
  clicked : Bool
  deriving DecidableEq

/- `mouse_packet` has three cells. -/
structure Ps2Mouse where
  packet : Nat → U8
  idx : Nat
  hasWheel : Bool
  ring : SpareRing MouseEvent

/- The differences are cut to an `int8_t`. -/
def mouseEvent
    (hasWheel : Bool)
    (packet : Nat → U8) : MouseEvent where
  dx :=
    if packet 0 &&& mouseXSign ≠ 0#8 then
      BitVec.ofInt 8 ((packet 1).toInt - 256)
    else
      BitVec.ofInt 8 (packet 1).toInt
  dy :=
    if packet 0 &&& mouseYSign ≠ 0#8 then
      BitVec.ofInt 8 (256 - (packet 2).toInt)
    else
      BitVec.ofInt 8 (-(packet 2).toInt)
  dz := if hasWheel then packet 3 else 0#8
  buttons := packet 0 &&& 0x07#8
  moved := true
  clicked := packet 0 &&& 0x07#8 ≠ 0#8

def mouseInterruptHandler
    (status data : U8)
    (s : Ps2Mouse) : Option Ps2Mouse :=
  if status &&& ps2StatusOutbuf = 0#8 then
    some s
  else if data &&& 0x08#8 = 0#8 then
    some { s with idx := 0 }
  else if 3 ≤ s.idx then
    none
  else
    let packet := Function.update s.packet s.idx data
    let idx := s.idx + 1
    if idx < (if s.hasWheel then 4 else 3) then
      some { s with packet := packet, idx := idx }
    else
      some
        { s with
          packet := packet
          idx := 0
          ring :=
            s.ring.put mouseBufferSize
              (mouseEvent s.hasWheel packet) }

/- The interrupts for some bytes -/
def mouseBytes
    (bytes : List U8)
    (s : Ps2Mouse) : Option Ps2Mouse :=
  bytes.foldlM (fun s data => mouseInterruptHandler 0x01#8 data s) s

/- The zeroed globals, with a mouse or one with a wheel -/
def mouseBooted
    (hasWheel : Bool)
    (buffer : Nat → MouseEvent) : Ps2Mouse where
  packet := fun _ => 0#8
  idx := 0
  hasWheel := hasWheel
  ring := ⟨buffer, 0, 0⟩

--------------------
-- Frames
--------------------

def InSync (data : U8) : Prop :=
  data &&& 0x08#8 ≠ 0#8

instance (data : U8) : Decidable (InSync data) :=
  inferInstanceAs (Decidable (data &&& 0x08#8 ≠ 0#8))

/-
  The bytes in threes, from the first one behind every byte
  that is not synced
-/
def mouseFrames : List U8 → List (U8 × U8 × U8)
  | a :: b :: c :: rest =>
      if ¬ InSync a then mouseFrames (b :: c :: rest)
      else if ¬ InSync b then mouseFrames (c :: rest)
      else if ¬ InSync c then mouseFrames rest
      else (a, b, c) :: mouseFrames rest
  | _ => []

/- The movement that a frame means to the driver -/
def frameEvent (frame : U8 × U8 × U8) : MouseEvent where
  dx := frame.2.1
  dy := -frame.2.2
  dz := 0#8
  buttons := frame.1 &&& 0x07#8
  moved := true
  clicked := frame.1 &&& 0x07#8 ≠ 0#8

/- The signs make no difference in eight bits. -/
theorem mouseEvent_eq
    (packet : Nat → U8) :
    mouseEvent false packet =
      frameEvent (packet 0, packet 1, packet 2) := by
  have hShift : ∀ x : U8, BitVec.ofInt 8 (x.toInt - 256) = x := by
    decide +kernel
  have hSame : ∀ x : U8, BitVec.ofInt 8 x.toInt = x :=
    fun x => BitVec.ofInt_toInt
  have hMinus : ∀ x : U8, BitVec.ofInt 8 (256 - x.toInt) = -x := by
    decide +kernel
  have hNeg : ∀ x : U8, BitVec.ofInt 8 (-x.toInt) = -x := by
    decide +kernel
  simp only [mouseEvent, frameEvent, hShift, hSame, hMinus, hNeg,
    ite_self, Bool.false_eq_true, if_false]

section Frames

variable {a b : U8}
variable {rest : List U8}

theorem mouseFrames_first
    (hFirst : ¬ InSync a) :
    mouseFrames (a :: rest) = mouseFrames rest := by
  rcases rest with _ | ⟨b, _ | ⟨c, rest⟩⟩
  · rfl
  · rfl
  · rw [mouseFrames, if_pos hFirst]

theorem mouseFrames_second
    (hFirst : InSync a)
    (hSecond : ¬ InSync b) :
    mouseFrames (a :: b :: rest) = mouseFrames rest := by
  cases rest with
  | nil => rfl
  | cons c rest =>
      rw [mouseFrames, if_neg (not_not.mpr hFirst), if_pos hSecond]

end Frames

--------------------
-- Without A Wheel
--------------------

/- What the handler has of a packet, and the events that wait -/
structure MouseHolds
    (s : Ps2Mouse)
    (pending : List U8)
    (waiting : List MouseEvent) : Prop where
  plain : s.hasWheel = false
  idx : s.idx = pending.length
  short : pending.length < 3
  synced : ∀ data ∈ pending, InSync data
  packet : CyclicBuffer.front s.packet pending.length = pending
  ring : ∃ fifo, SpareRing.Holds mouseBufferSize s.ring fifo ∧
    fifo.waiting = waiting

theorem take_put
    {waiting : List MouseEvent}
    (hBound : waiting.length ≤ 31)
    (event : MouseEvent) :
    (if waiting.length < 31 then waiting ++ [event] else waiting) =
      (waiting ++ [event]).take 31 := by
  split
  next hRoom =>
    rw [List.take_of_length_le]
    rw [List.length_append, List.length_singleton]
    exact hRoom
  next hFull =>
    have hLength : waiting.length = 31 := by omega
    rw [← hLength, List.take_left]

theorem take_take_append
    {α : Type}
    (n : Nat)
    (l more : List α) :
    (l.take n ++ more).take n = (l ++ more).take n := by
  rw [List.take_append, List.take_append, List.take_take,
    Nat.min_self, List.length_take]
  congr 2
  omega

namespace MouseHolds

variable {s : Ps2Mouse}
variable {pending : List U8}
variable {waiting : List MouseEvent}
variable {data : U8}

/- A byte that is not synced throws the packet away. -/
theorem resync
    (hHolds : MouseHolds s pending waiting)
    (hLost : ¬ InSync data) :
    ∃ t, mouseInterruptHandler 0x01#8 data s = some t ∧
      MouseHolds t [] waiting := by
  have hBit : data &&& 0x08#8 = 0#8 := not_not.mp hLost
  refine ⟨{ s with idx := 0 }, ?_, ?_⟩
  · rw [mouseInterruptHandler, if_neg (by decide), if_pos hBit]
  · exact ⟨hHolds.plain, rfl, by decide, List.forall_mem_nil _,
      rfl, hHolds.ring⟩

/- The cells after a byte was stored -/
theorem front_update
    (hHolds : MouseHolds s pending waiting) :
    CyclicBuffer.front (Function.update s.packet s.idx data)
        (pending ++ [data]).length =
      pending ++ [data] := by
  rw [List.length_append, List.length_singleton,
    CyclicBuffer.front_succ, hHolds.idx,
    CyclicBuffer.front_update_end, hHolds.packet,
    Function.update_self]

theorem keep
    (hHolds : MouseHolds s pending waiting)
    (hSynced : InSync data)
    (hShort : pending.length < 2) :
    ∃ t, mouseInterruptHandler 0x01#8 data s = some t ∧
      MouseHolds t (pending ++ [data]) waiting := by
  have hIdx := hHolds.idx
  have hRoom : ¬ 3 ≤ s.idx := by omega
  have hMore : s.idx + 1 < 3 := by omega
  refine ⟨{ s with
      packet := Function.update s.packet s.idx data
      idx := s.idx + 1 }, ?_, ?_⟩
  · rw [mouseInterruptHandler, if_neg (by decide), if_neg hSynced,
      if_neg hRoom]
    simp only [hHolds.plain, Bool.false_eq_true, if_false, hMore,
      if_true]
  · constructor
    · exact hHolds.plain
    · simp [hIdx]
    · rw [List.length_append, List.length_singleton]
      omega
    · intro x hx
      rcases List.mem_append.mp hx with hOld | hNew
      · exact hHolds.synced x hOld
      · rw [List.mem_singleton.mp hNew]
        exact hSynced
    · exact hHolds.front_update
    · exact hHolds.ring

/- The third byte makes an event. -/
theorem report
    {a b : U8}
    (hHolds : MouseHolds s [a, b] waiting)
    (hSynced : InSync data) :
    ∃ t, mouseInterruptHandler 0x01#8 data s = some t ∧
      MouseHolds t []
        ((waiting ++ [frameEvent (a, b, data)]).take 31) := by
  have hIdx : s.idx = 2 := hHolds.idx
  have hRoom : ¬ 3 ≤ s.idx := by omega
  have hLast : ¬ s.idx + 1 < 3 := by omega
  have hCells := @front_update _ _ _ data hHolds
  have hEvent :
      mouseEvent false (Function.update s.packet s.idx data) =
        frameEvent (a, b, data) := by
    rw [mouseEvent_eq]
    simp only [CyclicBuffer.front, List.length_cons,
      List.length_nil, List.range_succ,
      List.range_zero, List.nil_append, List.cons_append,
      List.map_cons, List.map_nil, List.cons.injEq] at hCells
    rw [hCells.1, hCells.2.1, hCells.2.2.1]
  rcases hHolds.ring with ⟨fifo, hRing, hWaiting⟩
  refine ⟨{ s with
      packet := Function.update s.packet s.idx data
      idx := 0
      ring := s.ring.put mouseBufferSize (frameEvent (a, b, data)) },
    ?_, ?_⟩
  · rw [mouseInterruptHandler, if_neg (by decide), if_neg hSynced,
      if_neg hRoom]
    simp only [hHolds.plain, Bool.false_eq_true, if_false, hLast,
      hEvent]
  · refine ⟨hHolds.plain, rfl, by decide, List.forall_mem_nil _,
      rfl, _, hRing.put _, ?_⟩
    have hBound : waiting.length ≤ 31 := hWaiting ▸ fifo.bounded
    subst hWaiting
    rw [← take_put hBound]
    by_cases hFree : fifo.waiting.length < mouseBufferSize - 1
    · rw [dif_pos hFree]
      exact (if_pos hFree).symm
    · rw [dif_neg hFree]
      exact (if_neg hFree).symm

/- Part of a packet and a byte that is not synced -/
theorem mouseFrames_lost
    (hHolds : MouseHolds s pending waiting)
    (hLost : ¬ InSync data)
    (rest : List U8) :
    mouseFrames (pending ++ data :: rest) = mouseFrames rest := by
  have hShort := hHolds.short
  have hSynced := hHolds.synced
  rcases pending with _ | ⟨a, _ | ⟨b, _ | ⟨c, more⟩⟩⟩
  · exact mouseFrames_first hLost
  · exact mouseFrames_second (hSynced a (by simp)) hLost
  · have hFirst := hSynced a (by simp)
    have hSecond := hSynced b (by simp)
    simp only [List.cons_append, List.nil_append]
    rw [mouseFrames, if_neg (not_not.mpr hFirst),
      if_neg (not_not.mpr hSecond), if_pos hLost]
  · simp only [List.length_cons] at hShort
    omega

theorem mouseFrames_pending
    (hHolds : MouseHolds s pending waiting) :
    mouseFrames pending = [] := by
  have hShort := hHolds.short
  rcases pending with _ | ⟨a, _ | ⟨b, _ | ⟨c, more⟩⟩⟩
  · rfl
  · rfl
  · rfl
  · simp only [List.length_cons] at hShort
    omega

/- The handler goes on from what it has. -/
theorem bytes
    (hHolds : MouseHolds s pending waiting)
    (data : List U8) :
    ∃ t rest, mouseBytes data s = some t ∧
      MouseHolds t rest
        ((waiting ++
          (mouseFrames (pending ++ data)).map frameEvent).take
            31) := by
  induction data generalizing s pending waiting with
  | nil =>
      refine ⟨s, pending, rfl, ?_⟩
      rcases hHolds.ring with ⟨fifo, _, hWaiting⟩
      have hBound : waiting.length ≤ 31 := hWaiting ▸ fifo.bounded
      rw [List.append_nil, hHolds.mouseFrames_pending, List.map_nil,
        List.append_nil, List.take_of_length_le hBound]
      exact hHolds
  | cons d data ih =>
      have hNext : ∀ t, mouseInterruptHandler 0x01#8 d s = some t →
          mouseBytes (d :: data) s = mouseBytes data t := by
        intro t hCall
        simp only [mouseBytes, List.foldlM_cons, hCall]
        rfl
      by_cases hSynced : InSync d
      · by_cases hShort : pending.length < 2
        · rcases hHolds.keep hSynced hShort with ⟨t, hCall, hAfter⟩
          have hRest := ih hAfter
          rw [List.append_assoc] at hRest
          rw [hNext t hCall]
          exact hRest
        · have hTwo : pending.length = 2 := by
            have hLess := hHolds.short
            omega
          rcases List.length_eq_two.mp hTwo with ⟨a, b, rfl⟩
          rcases hHolds.report hSynced with ⟨t, hCall, hAfter⟩
          have hFirst := hHolds.synced a (by simp)
          have hSecond := hHolds.synced b (by simp)
          have hFrames : mouseFrames ([a, b] ++ d :: data) =
              (a, b, d) :: mouseFrames data := by
            simp only [List.cons_append, List.nil_append]
            rw [mouseFrames, if_neg (not_not.mpr hFirst),
              if_neg (not_not.mpr hSecond),
              if_neg (not_not.mpr hSynced)]
          have hRest := ih hAfter
          rw [List.nil_append, take_take_append, List.append_assoc]
            at hRest
          rw [hNext t hCall, hFrames]
          exact hRest
      · rcases hHolds.resync hSynced with ⟨t, hCall, hAfter⟩
        rw [hNext t hCall, hHolds.mouseFrames_lost hSynced]
        exact ih hAfter

end MouseHolds

/-
  A mouse without a wheel: every three bytes in a row that are
  synced, counted from the last byte that is not, are reported
  as one event, and the first 31 events wait.
-/
theorem mouse_events_exact
    (buffer : Nat → MouseEvent)
    (bytes : List U8) :
    ∃ t, mouseBytes bytes (mouseBooted false buffer) = some t ∧
      ∃ fifo, SpareRing.Holds mouseBufferSize t.ring fifo ∧
        fifo.waiting =
          ((mouseFrames bytes).map frameEvent).take 31 := by
  have hBooted : MouseHolds (mouseBooted false buffer) [] [] :=
    ⟨rfl, rfl, by decide, List.forall_mem_nil _, rfl, .empty,
      SpareRing.holds_clear (r := ⟨buffer, 0, 0⟩) (by decide) rfl,
      rfl⟩
  rcases hBooted.bytes bytes with ⟨t, rest, hCall, hAfter⟩
  exact ⟨t, hCall, hAfter.ring⟩

--------------------
-- With A Wheel
--------------------

/- Four bytes in a row are synced. -/
def SyncedFour (bytes : List U8) : Prop :=
  ∃ i, ∀ j < 4, InSync (bytes.getD (i + j) 0#8)

theorem not_synced_getD
    {bytes : List U8}
    {i : Nat}
    (hBehind : bytes.length ≤ i) :
    ¬ InSync (bytes.getD i 0#8) := by
  rw [List.getD_eq_default _ _ hBehind]
  decide

/- No four bytes reach over one that is not synced. -/
theorem syncedFour_lost
    {pending rest : List U8}
    {data : U8}
    (hShort : pending.length ≤ 3)
    (hLost : ¬ InSync data) :
    SyncedFour (pending ++ data :: rest) ↔ SyncedFour rest := by
  have hAt : (pending ++ data :: rest).getD pending.length 0#8 =
      data := by
    rw [List.getD_append_right _ _ _ _ le_rfl, Nat.sub_self]
    rfl
  have hBehind : ∀ i, (pending ++ data :: rest).getD
      (pending.length + 1 + i) 0#8 = rest.getD i 0#8 := by
    intro i
    have hIndex : pending.length + 1 + i - pending.length = i + 1 := by
      omega
    rw [List.getD_append_right _ _ _ _ (by omega), hIndex]
    rfl
  constructor
  · intro hFour
    rcases hFour with ⟨i, hFour⟩
    by_cases hBefore : i ≤ pending.length
    · have hIn := hFour (pending.length - i) (by omega)
      rw [Nat.add_sub_cancel' hBefore, hAt] at hIn
      exact absurd hIn hLost
    · rcases Nat.exists_eq_add_of_lt (Nat.lt_of_not_le hBefore) with
        ⟨k, rfl⟩
      refine ⟨k, fun j hj => ?_⟩
      have hSum :
          pending.length + k + 1 + j = pending.length + 1 + (k + j) := by
        omega
      rw [← hBehind, ← hSum]
      exact hFour j hj
  · intro hFour
    rcases hFour with ⟨i, hFour⟩
    refine ⟨pending.length + 1 + i, fun j hj => ?_⟩
    rw [Nat.add_assoc, hBehind]
    exact hFour j hj

/- How the handler gets on with a wheel -/
theorem mouseBytes_wheel
    {s : Ps2Mouse}
    {pending : List U8}
    (hWheel : s.hasWheel = true)
    (hIdx : s.idx = pending.length)
    (hShort : pending.length ≤ 3)
    (hSynced : ∀ data ∈ pending, InSync data)
    (bytes : List U8) :
    (mouseBytes bytes s = none ↔ SyncedFour (pending ++ bytes)) ∧
      ∀ t, mouseBytes bytes s = some t → t.ring = s.ring := by
  induction bytes generalizing s pending with
  | nil =>
      refine ⟨iff_of_false nofun ?_, ?_⟩
      · intro hFour
        rcases hFour with ⟨i, hFour⟩
        exact not_synced_getD (by simp; omega)
          (hFour 3 (by decide))
      · intro t hSame
        cases hSame
        rfl
  | cons data bytes ih =>
      have hCons : mouseBytes (data :: bytes) s =
          (mouseInterruptHandler 0x01#8 data s).bind
            (mouseBytes bytes) :=
        List.foldlM_cons
      by_cases hData : InSync data
      · by_cases hFull : pending.length = 3
        · have hOver : 3 ≤ s.idx := by omega
          have hNone : mouseBytes (data :: bytes) s = none := by
            rw [hCons, mouseInterruptHandler, if_neg (by decide),
              if_neg hData, if_pos hOver]
            rfl
          refine ⟨iff_of_true hNone ⟨0, fun j hj => ?_⟩, ?_⟩
          · rcases List.length_eq_three.mp hFull with
              ⟨a, b, c, rfl⟩
            have hAll : ∀ x ∈ [a, b, c, data], InSync x := by
              simpa [hData] using hSynced
            rcases j with _ | _ | _ | _ | j
            · exact hAll a (by simp)
            · exact hAll b (by simp)
            · exact hAll c (by simp)
            · exact hAll data (by simp)
            · omega
          · rw [hNone]
            exact nofun
        · have hRoom : ¬ 3 ≤ s.idx := by omega
          have hMore : s.idx + 1 < 4 := by omega
          have hKeep : mouseInterruptHandler 0x01#8 data s =
              some { s with
                packet := Function.update s.packet s.idx data
                idx := s.idx + 1 } := by
            rw [mouseInterruptHandler, if_neg (by decide),
              if_neg hData, if_neg hRoom]
            simp only [hWheel, if_true, hMore]
          have hRest := @ih
            { s with
              packet := Function.update s.packet s.idx data
              idx := s.idx + 1 }
            (pending ++ [data]) hWheel (by simp [hIdx])
            (by simp; omega) (by simpa [or_imp, forall_and, hData]
              using hSynced)
          rw [List.append_assoc] at hRest
          rw [hCons, hKeep]
          exact hRest
      · have hBit : data &&& 0x08#8 = 0#8 := not_not.mp hData
        have hReset : mouseInterruptHandler 0x01#8 data s =
            some { s with idx := 0 } := by
          rw [mouseInterruptHandler, if_neg (by decide),
            if_pos hBit]
        rw [hCons, hReset, syncedFour_lost hShort hData]
        exact @ih { s with idx := 0 } [] hWheel rfl (by decide)
          (List.forall_mem_nil _)

/-
  A mouse with a wheel is never heard: the fourth byte in a
  row that is synced is written behind the array, and without
  it no event is reported.
-/
theorem mouse_wheel_overruns
    (buffer : Nat → MouseEvent)
    (bytes : List U8) :
    (mouseBytes bytes (mouseBooted true buffer) = none ↔
        ∃ i, ∀ j < 4, InSync (bytes.getD (i + j) 0#8)) ∧
      ∀ t, mouseBytes bytes (mouseBooted true buffer) = some t →
        t.ring = (mouseBooted true buffer).ring := by
  have hBoth := @mouseBytes_wheel (mouseBooted true buffer) [] rfl rfl
    (by decide) (List.forall_mem_nil _) bytes
  rw [List.nil_append] at hBoth
  exact hBoth

end FeatherOS
