import FeatherOS.Ramdisk.Model
import Mathlib.Data.Finset.Card
import Mathlib.Data.Finset.Range

/-
  The table of RAM disks.

  `ramdisk_count` is the number of disks and the slot of the
  next one as well. A deletion leaves a hole anywhere in the
  table, so that the next slot may still be taken; the disk
  in it is then lost.

  Key definitions include:
    * `Registry`
    * `Registry.Registered`
    * `CreateOk`

  Key theorems include:
    * `registryStep_registered_iff`
    * `registryRun_registered_iff`
-/

namespace FeatherOS

--------------------
-- Live Disks
--------------------

/- The table, and the disks in use with their names. -/
structure Registry where
  state : RamdiskState
  live : List (Addr × CString)

inductive RegistryCall where
  | create (name : CString) (size : U32)
  | delete (dev : Addr)

/-
  Names are at most `sizeof(name) - 1` long and differ from
  those in use; only disks in use are deleted.
-/
def registryStep
    (r : Registry)
    (call : RegistryCall)
    (r' : Registry) : Prop :=
  match call with
  | .create name size =>
      name.bytes.length ≤ 31 ∧ name ∉ r.live.map Prod.snd ∧
        r'.state = (ramdiskCreate r.state (some name) size).2 ∧
        r'.live =
          match (ramdiskCreate r.state (some name) size).1 with
          | none => r.live
          | some dev => (dev, name) :: r.live
  | .delete dev =>
      dev ∈ r.live.map Prod.fst ∧
        r'.state = (ramdiskDelete r.state (some dev)).2 ∧
        r'.live = r.live.filter fun d => d.1 ≠ dev

/- The slots that are not NULL. -/
def RamdiskState.usedSlots (s : RamdiskState) : Finset Nat :=
  (Finset.range ramdiskMaxDevices).filter fun i =>
    s.ramdisks i ≠ none

/- What the table promises about the disks in use. -/
structure Registry.Registered (r : Registry) : Prop where
  found : ∀ d ∈ r.live,
    ramdiskGet r.state (some d.2) = some d.1
  minors : r.live.Pairwise fun d e =>
    (r.state.disks d.1).minor ≠ (r.state.disks e.1).minor
  counted : r.state.ramdiskCount = r.state.usedSlots.card

/- `ramdisk_create` gets as far as storing the new disk. -/
def RamdiskState.Grants
    (s : RamdiskState)
    (size : U32) : Prop :=
  s.ramdiskCount < ramdiskMaxDevices ∧
    ∃ dev heap data heap',
      kmalloc s.heap sizeofRamdisk = (some dev, heap) ∧
        kmalloc heap (size.setWidth 64) = (some data, heap')

/- A disk that is created comes into an empty slot. -/
def CreateOk
    (r : Registry) :
    RegistryCall → Prop
  | .create _ size =>
      r.state.Grants size →
        r.state.ramdisks r.state.ramdiskCount.toNat = none
  | .delete _ => True

/- No disk is in use and the table is empty. -/
def Registry.Started (r : Registry) : Prop :=
  r.live = [] ∧ r.state.ramdiskCount = 0 ∧
    ∀ i, r.state.ramdisks i = none

--------------------
-- The Calls
--------------------

/- What `ramdisk_create` does when it stores a new disk. -/
structure CreateSpec
    (s : RamdiskState)
    (name : CString)
    (dev : Addr)
    (s' : RamdiskState) : Prop where
  ramdisks : s'.ramdisks =
    Function.update s.ramdisks s.ramdiskCount.toNat (some dev)
  count : s'.ramdiskCount = s.ramdiskCount + 1
  other : ∀ d, d ≠ dev → s'.disks d = s.disks d
  named : (s'.disks dev).name = name.take 31
  minor : (s'.disks dev).minor = s.ramdiskCount
  fresh : dev = s.heap.heapPtr
  room : dev.toNat < s'.heap.heapPtr.toNat

section Create

variable {s : RamdiskState}
variable {name : CString}
variable {size : U32}

/- A refused call leaves the table as it is. -/
theorem ramdiskCreate_refused
    (name : CString)
    (hRefused : ¬ s.Grants size) :
    ∃ heap : Heap, s.heap.heapPtr.toNat ≤ heap.heapPtr.toNat ∧
      ramdiskCreate s (some name) size =
        (none, { s with heap := heap }) := by
  by_cases hFull : (ramdiskMaxDevices : Int) ≤ s.ramdiskCount
  · exact ⟨s.heap, Nat.le_refl _, by simp [ramdiskCreate, hFull]⟩
  · have hPtr := kmalloc_heapPtr_le s.heap sizeofRamdisk
    rcases hRecord : kmalloc s.heap sizeofRamdisk with
      ⟨_ | dev, heap⟩
    · rw [hRecord] at hPtr
      exact ⟨heap, hPtr, by simp [ramdiskCreate, hFull, hRecord]⟩
    · rw [hRecord] at hPtr
      have hBlock := kmalloc_heapPtr_le heap (size.setWidth 64)
      rcases hData : kmalloc heap (size.setWidth 64) with
        ⟨_ | data, heap'⟩
      · rw [hData] at hBlock
        refine ⟨heap', hPtr.trans hBlock, ?_⟩
        simp only [ramdiskCreate, hFull, if_false, hRecord]
        split
        next hNone =>
          rw [hData] at hNone
          cases hNone
          rfl
        next hSome =>
          rw [hData] at hSome
          cases hSome
      · exact absurd
          ⟨by omega, dev, heap, data, heap', hRecord, hData⟩
          hRefused

/- A granted call stores a new disk. -/
theorem ramdiskCreate_granted
    (name : CString)
    (hGrants : s.Grants size) :
    ∃ dev s', ramdiskCreate s (some name) size = (some dev, s') ∧
      CreateSpec s name dev s' := by
  rcases hGrants with
    ⟨hRoom, dev, heap, data, heap', hRecord, hData⟩
  have hFull : ¬ (ramdiskMaxDevices : Int) ≤ s.ramdiskCount := by
    omega
  rcases kmalloc_some hRecord with ⟨hDev, _, _, hPtr⟩
  have hBlock := kmalloc_heapPtr_le heap (size.setWidth 64)
  rw [hData] at hBlock
  have hBytes : (alignUp8 sizeofRamdisk).toNat = 64 := by decide
  simp only [ramdiskCreate, hFull, if_false, hRecord]
  split
  next hNone =>
    rw [hData] at hNone
    cases hNone
  next hSome =>
    rw [hData] at hSome
    cases hSome
    refine ⟨dev, _, rfl, ?_⟩
    constructor
    · rfl
    · rfl
    · intro d hd
      simp [hd]
    · simp
    · simp
    · exact hDev
    · rw [hDev]
      change _ < heap'.heapPtr.toNat
      simp only at hBlock
      omega

end Create

variable {dev : Addr}
variable {s : RamdiskState}
variable {i : Nat}

/- The slot that points to a disk. -/
theorem slotOf_eq
    (hi : i < ramdiskMaxDevices)
    (hSlot : s.ramdisks i = some dev)
    (hOnly : ∀ j < ramdiskMaxDevices,
      s.ramdisks j = some dev → j = i) :
    slotOf s dev = some i := by
  cases hFind : slotOf s dev with
  | none =>
      have hNone := List.find?_eq_none.mp hFind i
        (List.mem_range.mpr hi)
      simp [hSlot] at hNone
  | some j =>
      have hMem := List.mem_of_find?_eq_some hFind
      have hFits := List.find?_some hFind
      simp only [decide_eq_true_eq] at hFits
      rw [hOnly j (List.mem_range.mp hMem) hFits]

/- What `ramdisk_delete` does to a disk in the slot `i`. -/
structure DeleteSpec
    (s : RamdiskState)
    (i : Nat)
    (s' : RamdiskState) : Prop where
  ramdisks : s'.ramdisks = Function.update s.ramdisks i none
  count : s'.ramdiskCount = s.ramdiskCount - 1
  disks : s'.disks = s.disks
  heap : s'.heap = s.heap

theorem ramdiskDelete_spec
    (hSlot : slotOf s dev = some i) :
    DeleteSpec s i (ramdiskDelete s (some dev)).2 := by
  simp only [ramdiskDelete, hSlot]
  exact ⟨rfl, rfl, rfl, rfl⟩

/- A disk with its own name is found in its slot. -/
theorem ramdiskGet_eq
    {name : CString}
    (hi : i < ramdiskMaxDevices)
    (hSlot : s.ramdisks i = some dev)
    (hName : (s.disks dev).name = name)
    (hOnly : ∀ j < ramdiskMaxDevices, ∀ d,
      s.ramdisks j = some d → (s.disks d).name = name → d = dev) :
    ramdiskGet s (some name) = some dev := by
  have hNamed : SlotNamed s name i = true := by
    simp [SlotNamed, hSlot, strcmp_cstring, hName]
  cases hFind :
      (List.range ramdiskMaxDevices).find? (SlotNamed s name) with
  | none =>
      have hNone := List.find?_eq_none.mp hFind i
        (List.mem_range.mpr hi)
      exact absurd hNamed hNone
  | some j =>
      have hMem := List.mem_of_find?_eq_some hFind
      have hFits := List.find?_some hFind
      simp only [ramdiskGet, hFind]
      cases hOther : s.ramdisks j with
      | none => simp [SlotNamed, hOther] at hFits
      | some d =>
          simp only [SlotNamed, hOther, decide_eq_true_eq,
            strcmp_cstring] at hFits
          rw [hOnly j (List.mem_range.mp hMem) d hOther hFits]

/- A disk that is found is in a slot. -/
theorem ramdiskGet_slot
    {name : CString}
    (hGet : ramdiskGet s (some name) = some dev) :
    ∃ i < ramdiskMaxDevices, s.ramdisks i = some dev := by
  simp only [ramdiskGet] at hGet
  split at hGet
  next => cases hGet
  next i hFind =>
    exact ⟨i,
      List.mem_range.mp (List.mem_of_find?_eq_some hFind), hGet⟩

--------------------
-- The Invariant
--------------------

/- The disk is in the slot of its minor number. -/
structure Registry.InSlot
    (r : Registry)
    (d : Addr × CString) : Prop where
  minor : 0 ≤ (r.state.disks d.1).minor
  bound : (r.state.disks d.1).minor.toNat < ramdiskMaxDevices
  slot :
    r.state.ramdisks (r.state.disks d.1).minor.toNat = some d.1
  name : (r.state.disks d.1).name = d.2
  old : d.1.toNat < r.state.heap.heapPtr.toNat

/- The slots hold the disks in use. -/
structure Registry.Ok (r : Registry) : Prop where
  inSlot : ∀ d ∈ r.live, r.InSlot d
  inUse : ∀ i < ramdiskMaxDevices, ∀ dev,
    r.state.ramdisks i = some dev →
      dev ∈ r.live.map Prod.fst ∧
        (r.state.disks dev).minor = i
  distinct : (r.live.map Prod.fst).Nodup
  names : (r.live.map Prod.snd).Nodup
  counted : r.state.ramdiskCount = r.state.usedSlots.card

section Invariant

variable {r r' : Registry}
variable {call : RegistryCall}
variable {d : Addr × CString}

/- Two disks in use with one name are one disk. -/
theorem Registry.Ok.eq_of_name
    (hOk : r.Ok)
    (hd : d ∈ r.live)
    (hi : i < ramdiskMaxDevices)
    (hSlot : r.state.ramdisks i = some dev)
    (hName : (r.state.disks dev).name = d.2) :
    dev = d.1 := by
  rcases List.mem_map.mp (hOk.inUse i hi dev hSlot).1 with
    ⟨e, he, rfl⟩
  rw [(hOk.inSlot e he).name] at hName
  rw [List.inj_on_of_nodup_map hOk.names he hd hName]

theorem Registry.Ok.registered
    (hOk : r.Ok) :
    r.Registered := by
  constructor
  · intro d hd
    have hIn := hOk.inSlot d hd
    apply ramdiskGet_eq hIn.bound hIn.slot hIn.name
    intro j hj dev hSlot hName
    exact hOk.eq_of_name hd hj hSlot hName
  · have hNe := hOk.distinct
    rw [List.Nodup, List.pairwise_map] at hNe
    apply hNe.imp_of_mem
    intro d e hd he hApart hMinor
    have hSlot := (hOk.inSlot d hd).slot
    rw [hMinor, (hOk.inSlot e he).slot] at hSlot
    injection hSlot with hSlot
    exact hApart hSlot.symm
  · exact hOk.counted

/- The next slot is one of the table. -/
theorem Registry.Ok.count_nonneg
    (hOk : r.Ok) :
    0 ≤ r.state.ramdiskCount := by
  rw [hOk.counted]
  omega

/- A new record is none of those in use. -/
theorem Registry.Ok.ne_fresh
    (hOk : r.Ok)
    (hd : d ∈ r.live) :
    d.1 ≠ r.state.heap.heapPtr := by
  intro hEq
  have hOld := (hOk.inSlot d hd).old
  rw [hEq] at hOld
  omega

/- Memory may be used up. -/
theorem Registry.Ok.heap
    (hOk : r.Ok)
    {heap : Heap}
    (hPtr : r.state.heap.heapPtr.toNat ≤ heap.heapPtr.toNat) :
    (Registry.mk { r.state with heap := heap } r.live).Ok where
  inSlot d hd :=
    { hOk.inSlot d hd with
      old := (hOk.inSlot d hd).old.trans_le hPtr }
  inUse := hOk.inUse
  distinct := hOk.distinct
  names := hOk.names
  counted := hOk.counted

/- A disk that comes into an empty slot. -/
theorem Registry.Ok.create
    {name : CString}
    {dev : Addr}
    {s' : RamdiskState}
    (hOk : r.Ok)
    (hShort : name.bytes.length ≤ 31)
    (hNew : name ∉ r.live.map Prod.snd)
    (hRoom : r.state.ramdiskCount < ramdiskMaxDevices)
    (hCreate : CreateSpec r.state name dev s')
    (hFree :
      r.state.ramdisks r.state.ramdiskCount.toNat = none)
    (hHeap : r.state.heap.heapPtr.toNat ≤ s'.heap.heapPtr.toNat) :
    (Registry.mk s' ((dev, name) :: r.live)).Ok := by
  have hNonneg := hOk.count_nonneg
  have hBound : r.state.ramdiskCount.toNat < ramdiskMaxDevices := by
    omega
  have hNe : ∀ d ∈ r.live, d.1 ≠ dev := by
    intro d hd
    rw [hCreate.fresh]
    exact hOk.ne_fresh hd
  have hTake : name.take 31 = name := by
    simp [CString.take, List.take_of_length_le hShort]
  constructor
  · intro d hd
    rcases List.mem_cons.mp hd with rfl | hd
    · constructor
      · simpa [hCreate.minor] using hNonneg
      · simpa [hCreate.minor] using hBound
      · simp [hCreate.minor, hCreate.ramdisks]
      · simpa [hTake] using hCreate.named
      · exact hCreate.room
    · have hIn := hOk.inSlot d hd
      have hSame := hCreate.other d.1 (hNe d hd)
      have hSlot : (r.state.disks d.1).minor.toNat ≠
          r.state.ramdiskCount.toNat := by
        intro hEq
        have hTaken := hIn.slot
        rw [hEq, hFree] at hTaken
        cases hTaken
      constructor
      · simpa [hSame] using hIn.minor
      · simpa [hSame] using hIn.bound
      · simpa [hSame, hCreate.ramdisks, hSlot] using hIn.slot
      · simpa [hSame] using hIn.name
      · exact hIn.old.trans_le hHeap
  · intro i hi d hSlot
    simp only [hCreate.ramdisks, Function.update_apply] at hSlot
    split at hSlot
    next hEq =>
      injection hSlot with hSlot
      subst hSlot hEq
      refine ⟨by simp, ?_⟩
      simp only [hCreate.minor]
      omega
    next =>
      rcases hOk.inUse i hi d hSlot with ⟨hd, hMinor⟩
      rcases List.mem_map.mp hd with ⟨e, he, rfl⟩
      rw [hCreate.other e.1 (hNe e he)]
      exact ⟨List.mem_cons_of_mem _ hd, hMinor⟩
  · rw [List.map_cons, List.nodup_cons]
    refine ⟨?_, hOk.distinct⟩
    intro hMem
    rcases List.mem_map.mp hMem with ⟨d, hd, hEq⟩
    exact hNe d hd hEq
  · exact List.nodup_cons.mpr ⟨hNew, hOk.names⟩
  · have hSlots :
        s'.usedSlots =
          insert r.state.ramdiskCount.toNat r.state.usedSlots := by
      ext i
      simp only [RamdiskState.usedSlots, hCreate.ramdisks,
        Finset.mem_filter, Finset.mem_insert, Finset.mem_range,
        Function.update_apply]
      by_cases hi : i = r.state.ramdiskCount.toNat
      · simp [hi, hBound]
      · simp [hi]
    have hOut :
        r.state.ramdiskCount.toNat ∉ r.state.usedSlots := by
      simp [RamdiskState.usedSlots, hFree]
    have hCard := Finset.card_insert_of_notMem hOut
    have hCount := hOk.counted
    simp only [hCreate.count, hSlots]
    omega

/- A disk that is deleted leaves a hole in its slot. -/
theorem Registry.Ok.delete
    (hOk : r.Ok)
    (hd : d ∈ r.live) :
    (Registry.mk (ramdiskDelete r.state (some d.1)).2
      (r.live.filter fun e => e.1 ≠ d.1)).Ok := by
  have hIn := hOk.inSlot d hd
  have hOnly : ∀ j < ramdiskMaxDevices,
      r.state.ramdisks j = some d.1 →
        j = (r.state.disks d.1).minor.toNat := by
    intro j hj hSlot
    rw [(hOk.inUse j hj d.1 hSlot).2]
    omega
  have hDelete :=
    ramdiskDelete_spec (slotOf_eq hIn.bound hIn.slot hOnly)
  generalize (ramdiskDelete r.state (some d.1)).2 = s' at hDelete
  constructor
  · intro e he
    rcases List.mem_filter.mp he with ⟨he, hNe⟩
    have hIn' := hOk.inSlot e he
    have hSlot : (r.state.disks e.1).minor.toNat ≠
        (r.state.disks d.1).minor.toNat := by
      intro hEq
      have hTaken := hIn'.slot
      rw [hEq, hIn.slot] at hTaken
      injection hTaken with hTaken
      simp [hTaken] at hNe
    constructor
    · simpa [hDelete.disks] using hIn'.minor
    · simpa [hDelete.disks] using hIn'.bound
    · simpa [hDelete.disks, hDelete.ramdisks, hSlot]
        using hIn'.slot
    · simpa [hDelete.disks] using hIn'.name
    · simpa [hDelete.heap] using hIn'.old
  · intro i hi e hSlot
    simp only [hDelete.ramdisks, Function.update_apply] at hSlot
    split at hSlot
    next => cases hSlot
    next hNe =>
      rcases hOk.inUse i hi e hSlot with ⟨he, hMinor⟩
      rw [hDelete.disks]
      refine ⟨?_, hMinor⟩
      rcases List.mem_map.mp he with ⟨f, hf, rfl⟩
      apply List.mem_map_of_mem
      rw [List.mem_filter]
      refine ⟨hf, ?_⟩
      have hNe' : f.1 ≠ d.1 := by
        intro hEq
        rw [hEq] at hSlot
        exact hNe (hOnly i hi hSlot)
      simp [hNe']
  · exact hOk.distinct.sublist (List.filter_sublist.map Prod.fst)
  · exact hOk.names.sublist (List.filter_sublist.map Prod.snd)
  · have hMem :
        (r.state.disks d.1).minor.toNat ∈ r.state.usedSlots := by
      simp [RamdiskState.usedSlots, hIn.slot, hIn.bound]
    have hSlots :
        s'.usedSlots =
          r.state.usedSlots.erase
            (r.state.disks d.1).minor.toNat := by
      ext i
      simp only [RamdiskState.usedSlots, hDelete.ramdisks,
        Finset.mem_filter, Finset.mem_erase, Finset.mem_range,
        Function.update_apply]
      by_cases hi : i = (r.state.disks d.1).minor.toNat
      · simp [hi]
      · simp [hi]
    have hCard := Finset.card_erase_of_mem hMem
    have hPos := Finset.card_pos.mpr ⟨_, hMem⟩
    have hCount := hOk.counted
    simp only [hDelete.count, hSlots]
    omega

/- Calls that meet the condition keep the table in order. -/
theorem Registry.Ok.step
    (hOk : r.Ok)
    (hStep : registryStep r call r')
    (hCall : CreateOk r call) :
    r'.Ok := by
  rcases r' with ⟨s', live'⟩
  cases call with
  | create name size =>
      rcases hStep with ⟨hShort, hNew, hState, hLive⟩
      simp only at hState hLive
      by_cases hGrants : r.state.Grants size
      · rcases ramdiskCreate_granted name hGrants with
          ⟨dev, s'', hCreate, hSpec⟩
        rw [hCreate] at hState hLive
        subst hState hLive
        apply hOk.create hShort hNew hGrants.1 hSpec
          (hCall hGrants)
        have hRoom := hSpec.room
        rw [hSpec.fresh] at hRoom
        exact hRoom.le
      · rcases ramdiskCreate_refused name hGrants with
          ⟨heap, hPtr, hCreate⟩
        rw [hCreate] at hState hLive
        subst hState hLive
        exact hOk.heap hPtr
  | delete dev =>
      rcases hStep with ⟨hDev, hState, hLive⟩
      simp only at hState hLive
      rcases List.mem_map.mp hDev with ⟨d, hd, rfl⟩
      subst hState hLive
      exact hOk.delete hd

/- A disk that comes into a taken slot makes another one lost. -/
theorem Registry.Ok.createOk
    (hOk : r.Ok)
    (hStep : registryStep r call r')
    (hKept : r'.Registered) :
    CreateOk r call := by
  cases call with
  | delete dev => trivial
  | create name size =>
      rcases hStep with ⟨_, _, hState, hLive⟩
      intro hGrants
      rcases ramdiskCreate_granted name hGrants with
        ⟨dev, s', hCreate, hSpec⟩
      simp only [hCreate] at hState hLive
      have hNonneg := hOk.count_nonneg
      have hRoom := hGrants.1
      have hBound :
          r.state.ramdiskCount.toNat < ramdiskMaxDevices := by
        omega
      cases hSlot :
          r.state.ramdisks r.state.ramdiskCount.toNat with
      | none => rfl
      | some e =>
          exfalso
          rcases hOk.inUse _ hBound e hSlot with ⟨he, hMinor⟩
          rcases List.mem_map.mp he with ⟨d, hd, rfl⟩
          have hFound := hKept.found d (by simp [hLive, hd])
          rcases ramdiskGet_slot hFound with ⟨i, hi, hAt⟩
          simp only [hState, hSpec.ramdisks,
            Function.update_apply] at hAt
          split at hAt
          next =>
            injection hAt with hAt
            rw [hSpec.fresh] at hAt
            exact hOk.ne_fresh hd hAt.symm
          next hNe =>
            have hSame := (hOk.inUse i hi d.1 hAt).2
            omega

/- One call keeps the table in order if and only if it may. -/
theorem registryStep_registered_iff
    (hOk : r.Ok)
    (hStep : registryStep r call r') :
    r'.Registered ↔ CreateOk r call := by
  constructor
  · exact hOk.createOk hStep
  · exact fun hCall => (hOk.step hStep hCall).registered

end Invariant

--------------------
-- Runs
--------------------

theorem Registry.Started.ok
    {r : Registry}
    (hStart : r.Started) :
    r.Ok := by
  rcases hStart with ⟨hLive, hCount, hSlots⟩
  constructor
  · simp [hLive]
  · simp [hSlots]
  · simp [hLive]
  · simp [hLive]
  · simp [hCount, RamdiskState.usedSlots, hSlots]

/-
  The runs in which every disk in use stays registered are
  those in which no disk comes into a taken slot.
-/
theorem registryRun_registered_iff
    {r₀ r : Registry}
    {calls : List RegistryCall}
    (hStart : r₀.Started) :
    (Run
        (fun r call r' => registryStep r call r' ∧ r'.Registered)
        r₀ calls r ↔
      Run (Guarded CreateOk registryStep) r₀ calls r) ∧
    (Run (Guarded CreateOk registryStep) r₀ calls r →
      r.Registered) := by
  constructor
  · apply Run.guarded_iff Registry.Ok _ _ hStart.ok
    · intro r call r' hOk hCall hStep
      exact hOk.step hStep hCall
    · intro r call r' hOk hStep
      exact registryStep_registered_iff hOk hStep
  · intro hRun
    have hOk := hRun.invariant Registry.Ok
      (fun _ _ _ hOk hStep => hOk.step hStep.2 hStep.1) hStart.ok
    exact hOk.registered

/- The table before the first disk. -/
def emptyRegistry : Registry where
  state :=
    { ramdisks := fun _ => none
      ramdiskCount := 0
      disks := fun _ =>
        { name := ⟨[], List.not_mem_nil⟩
          data := 0#64
          size := 0#32
          blockCount := 0#32
          minor := 0
          fits := by decide }
      memory := fun _ => 0#8
      heap := Heap.initial
      stats := ⟨0#64, 0#64, 0#64, 0#64⟩ }
  live := []

theorem emptyRegistry_started : emptyRegistry.Started :=
  ⟨rfl, rfl, fun _ => rfl⟩

/- "a", "b" and "c" -/
def nameA : CString := ⟨[97#8], by decide⟩
def nameB : CString := ⟨[98#8], by decide⟩
def nameC : CString := ⟨[99#8], by decide⟩

/- The table after `ramdisk_create` of a disk of 512 bytes. -/
def Registry.created
    (r : Registry)
    (name : CString) :
    Registry where
  state := (ramdiskCreate r.state (some name) 512#32).2
  live :=
    match (ramdiskCreate r.state (some name) 512#32).1 with
    | none => r.live
    | some dev => (dev, name) :: r.live

/- The table after `ramdisk_delete`. -/
def Registry.deleted
    (r : Registry)
    (dev : Addr) :
    Registry where
  state := (ramdiskDelete r.state (some dev)).2
  live := r.live.filter fun d => d.1 ≠ dev

def disksAB : Registry :=
  (emptyRegistry.created nameA).created nameB

theorem disksAB_run :
    Run (Guarded CreateOk registryStep) emptyRegistry
      [.create nameA 512#32, .create nameB 512#32] disksAB := by
  refine .cons (t := emptyRegistry.created nameA)
    ⟨fun _ => rfl, by decide, List.not_mem_nil, rfl, rfl⟩
    (.cons ⟨fun _ => rfl, by decide, ?_, rfl, rfl⟩ (.nil _))
  decide

/- The second of two disks makes room for another. -/
theorem registryRun_registered_iff_again :
    ((disksAB.deleted 0x200240#64).created nameC).Registered := by
  have hRun :
      Run (Guarded CreateOk registryStep) emptyRegistry
        ([.create nameA 512#32, .create nameB 512#32] ++
          [.delete 0x200240#64, .create nameC 512#32])
        ((disksAB.deleted 0x200240#64).created nameC) := by
    refine disksAB_run.append
      (.cons (t := disksAB.deleted 0x200240#64)
        ⟨trivial, by decide, rfl, rfl⟩
        (.cons ⟨fun _ => rfl, by decide, ?_, rfl, rfl⟩ (.nil _)))
    decide
  exact (registryRun_registered_iff emptyRegistry_started).2 hRun

/-
  "a" and "b" are created and "a" is deleted; "c" then comes
  into the slot of "b".
-/
theorem ramdiskCreate_loses_disk :
    ¬ ∀ (r₀ r : Registry) (calls : List RegistryCall),
      r₀.Started → Run registryStep r₀ calls r → r.Registered := by
  intro hAll
  let r₃ := disksAB.deleted 0x200000#64
  let r₄ := r₃.created nameC
  have hStep₃ : registryStep disksAB (.delete 0x200000#64) r₃ :=
    ⟨by decide, rfl, rfl⟩
  have hStep₄ : registryStep r₃ (.create nameC 512#32) r₄ :=
    ⟨by decide, by decide, rfl, rfl⟩
  have hKept := hAll emptyRegistry r₄ _ emptyRegistry_started
    (disksAB_run.of_guarded.append
      (.cons hStep₃ (.cons hStep₄ (.nil _))))
  have hFound := hKept.found (0x200240#64, nameB) (by decide)
  have hLost : ramdiskGet r₄.state (some nameB) = none := by
    decide
  rw [hLost] at hFound
  cases hFound

end FeatherOS
