import FeatherOS.Slab.Model
import FeatherOS.Library.Chain
import Mathlib.Data.List.Nodup
import Mathlib.Tactic.Ring

/-
  The objects that `slab_create` cuts a page into.

  The objects lie one behind the other, `obj_size` bytes
  apart, from `page + sizeof(slab_t)` on. Their number leaves
  room for a pointer with every object that is not used, so
  they end before the page does, unless a single object is
  forced into a page that is too small for it.

  Key definitions include:
    * `objAddrs`
    * `slabObjs`
    * `objRoom`

  Key theorems include:
    * `slabObjs_inside`
    * `slabObjs_apart`
    * `buildFreeList_chain`
-/

namespace FeatherOS

--------------------
-- Pages
--------------------

/- What a successful `physical_alloc_page` answers with. -/
def IsPage (page : Addr) : Prop :=
  page ≠ 0#64 ∧ page.toNat % 4096 = 0

theorem IsPage.fits
    {page : Addr}
    (hPage : IsPage page) :
    page.toNat + 4096 ≤ 2 ^ 64 := by
  have hLt := page.isLt
  have hMod := hPage.2
  omega

/- Two pages are the same or a page apart. -/
theorem IsPage.apart
    {page page' : Addr}
    (hPage : IsPage page)
    (hPage' : IsPage page')
    (hNe : page ≠ page') :
    page.toNat + 4096 ≤ page'.toNat ∨
      page'.toNat + 4096 ≤ page.toNat := by
  have hNat : page.toNat ≠ page'.toNat :=
    fun h => hNe (BitVec.eq_of_toNat_eq h)
  have hMod := hPage.2
  have hMod' := hPage'.2
  omega

--------------------
-- The Number Of Objects
--------------------

theorem calcNumObjs_toNat
    (objSize align : U32) :
    (calcNumObjs objSize slabPageSize align).toNat =
      max 1 (4048 / (objSize.toNat + 8)) := by
  have hUsable :
      slabPageSize - sizeofSlab.setWidth 32 = 4048#32 := by
    decide
  have hSize := objSize.isLt
  have hSum :
      (objSize.setWidth 64 + sizeofObjPtr).toNat =
        objSize.toNat + 8 := by
    simp only [sizeofObjPtr, BitVec.toNat_add,
      BitVec.toNat_setWidth]
    simp only [BitVec.toNat_ofNat]
    omega
  have hQuot : 4048 / (objSize.toNat + 8) ≤ 4048 :=
    Nat.div_le_self _ _
  have hNum :
      (((4048#32).setWidth 64 /
        (objSize.setWidth 64 + sizeofObjPtr)).setWidth
          32).toNat = 4048 / (objSize.toNat + 8) := by
    rw [BitVec.toNat_setWidth, BitVec.toNat_udiv, hSum]
    have hBytes : ((4048#32).setWidth 64).toNat = 4048 := rfl
    rw [hBytes]
    exact Nat.mod_eq_of_lt (by omega)
  simp only [calcNumObjs, hUsable, BitVec.lt_def, hNum]
  by_cases hPos : 0 < 4048 / (objSize.toNat + 8)
  · rw [if_pos (by simpa using hPos), hNum]
    omega
  · rw [if_neg (by simpa using hPos)]
    simp only [BitVec.toNat_ofNat]
    omega

/- The bytes of an object that can lie inside its page. -/
def objRoom (objSize : U32) : Nat :=
  min objSize.toNat 4048

/- The objects end before the page does. -/
theorem calcNumObjs_room
    {objSize align : U32}
    {i : Nat}
    (hIndex :
      i < (calcNumObjs objSize slabPageSize align).toNat) :
    i * objSize.toNat + objRoom objSize ≤ 4048 := by
  rw [calcNumObjs_toNat] at hIndex
  unfold objRoom
  by_cases hPos : 0 < 4048 / (objSize.toNat + 8)
  · have hLe : i + 1 ≤ 4048 / (objSize.toNat + 8) := by omega
    have hMul := (Nat.le_div_iff_mul_le (by omega)).mp hLe
    have hSplit :
        (i + 1) * (objSize.toNat + 8) =
          i * objSize.toNat + objSize.toNat + i * 8 + 8 := by
      ring
    omega
  · have hZero : i = 0 := by omega
    subst hZero
    omega

theorem calcNumObjs_start
    {objSize align : U32}
    {i : Nat}
    (hIndex :
      i < (calcNumObjs objSize slabPageSize align).toNat) :
    i * objSize.toNat < 4048 := by
  have hRoom := calcNumObjs_room hIndex
  unfold objRoom at hRoom
  by_cases hZero : objSize.toNat = 0
  · simp [hZero]
  · omega

--------------------
-- Addresses Of Objects
--------------------

/- The values `obj_ptr` takes in the loop of `slab_create`. -/
def objAddrs
    (objSize : U32) :
    Nat → Addr → List Addr
  | 0, _ => []
  | n + 1, objPtr =>
      objPtr :: objAddrs objSize n
        (objPtr + objSize.setWidth 64)

/- The objects of the slab on a page. -/
def slabObjs
    (page : Addr)
    (objSize numObjs : U32) :
    List Addr :=
  objAddrs objSize numObjs.toNat (page + sizeofSlab)

@[simp] theorem length_objAddrs
    (objSize : U32)
    (n : Nat)
    (objPtr : Addr) :
    (objAddrs objSize n objPtr).length = n := by
  induction n generalizing objPtr with
  | zero => rfl
  | succ n ih => simp [objAddrs, ih]

@[simp] theorem length_slabObjs
    (page : Addr)
    (objSize numObjs : U32) :
    (slabObjs page objSize numObjs).length = numObjs.toNat :=
  length_objAddrs _ _ _

/- The loop adds `obj_size` once a turn. -/
theorem objAddrs_eq_map
    (objSize : U32)
    (n : Nat)
    (objPtr : Addr) :
    objAddrs objSize n objPtr =
      (List.range n).map fun i =>
        objPtr + BitVec.ofNat 64 (i * objSize.toNat) := by
  induction n generalizing objPtr with
  | zero => rfl
  | succ n ih =>
      rw [objAddrs, ih, List.range_succ_eq_map,
        List.map_cons, List.map_map]
      congr 1
      · simp
      · refine List.map_congr_left fun i _ => ?_
        have hStep :
            objSize.setWidth 64 =
              BitVec.ofNat 64 objSize.toNat := by
          apply BitVec.eq_of_toNat_eq
          simp
        simp only [Function.comp_apply, hStep,
          BitVec.add_assoc, ← BitVec.ofNat_add]
        congr 2
        rw [Nat.succ_mul]
        omega

section Objects

variable {page : Addr}
variable {objSize numObjs align : U32}
variable {o o' : Addr}

/- Where the objects lie. -/
theorem mem_slabObjs
    (hPage : IsPage page)
    (hNum : numObjs = calcNumObjs objSize slabPageSize align)
    (ho : o ∈ slabObjs page objSize numObjs) :
    ∃ i < numObjs.toNat,
      o.toNat = page.toNat + 48 + i * objSize.toNat := by
  unfold slabObjs at ho
  rw [objAddrs_eq_map] at ho
  rcases List.mem_map.mp ho with ⟨i, hi, rfl⟩
  have hIndex : i < numObjs.toNat := List.mem_range.mp hi
  refine ⟨i, hIndex, ?_⟩
  rw [hNum] at hIndex
  have hStart := calcNumObjs_start hIndex
  have hFits := hPage.fits
  simp only [sizeofSlab, BitVec.toNat_add, BitVec.toNat_ofNat]
  omega

/- The room of an object lies inside the page. -/
theorem slabObjs_inside
    (hPage : IsPage page)
    (hNum : numObjs = calcNumObjs objSize slabPageSize align)
    (ho : o ∈ slabObjs page objSize numObjs) :
    page.toNat + 48 ≤ o.toNat ∧
      o.toNat + objRoom objSize ≤ page.toNat + 4096 := by
  rcases mem_slabObjs hPage hNum ho with ⟨i, hi, hEq⟩
  rw [hNum] at hi
  have hRoom := calcNumObjs_room hi
  omega

/- Different objects are at least `obj_size` bytes apart. -/
theorem slabObjs_apart
    (hPage : IsPage page)
    (hNum : numObjs = calcNumObjs objSize slabPageSize align)
    (ho : o ∈ slabObjs page objSize numObjs)
    (ho' : o' ∈ slabObjs page objSize numObjs)
    (hNe : o ≠ o') :
    o.toNat + objSize.toNat ≤ o'.toNat ∨
      o'.toNat + objSize.toNat ≤ o.toNat := by
  rcases mem_slabObjs hPage hNum ho with ⟨i, _, hEq⟩
  rcases mem_slabObjs hPage hNum ho' with ⟨j, _, hEq'⟩
  have hNat : o.toNat ≠ o'.toNat :=
    fun h => hNe (BitVec.eq_of_toNat_eq h)
  rcases Nat.lt_trichotomy i j with hLt | rfl | hLt
  · have hMul := Nat.mul_le_mul_right objSize.toNat hLt
    rw [Nat.succ_mul] at hMul
    omega
  · omega
  · have hMul := Nat.mul_le_mul_right objSize.toNat hLt
    rw [Nat.succ_mul] at hMul
    omega

/- The objects are listed from the lowest to the highest. -/
theorem pairwise_slabObjs
    (hPage : IsPage page)
    (hNum : numObjs = calcNumObjs objSize slabPageSize align) :
    (slabObjs page objSize numObjs).Pairwise
      fun a b => a.toNat + objSize.toNat ≤ b.toNat := by
  unfold slabObjs
  rw [objAddrs_eq_map, List.pairwise_map]
  refine List.Pairwise.imp_of_mem ?_ List.pairwise_lt_range
  intro i j hi hj hLt
  rw [List.mem_range, hNum] at hi hj
  have hStart := calcNumObjs_start hi
  have hStart' := calcNumObjs_start hj
  have hFits := hPage.fits
  have hMul := Nat.mul_le_mul_right objSize.toNat hLt
  rw [Nat.succ_mul] at hMul
  simp only [sizeofSlab, BitVec.toNat_add, BitVec.toNat_ofNat]
  omega

theorem nodup_slabObjs
    (hPage : IsPage page)
    (hNum : numObjs = calcNumObjs objSize slabPageSize align)
    (hSize : 0 < objSize.toNat) :
    (slabObjs page objSize numObjs).Nodup := by
  refine (pairwise_slabObjs hPage hNum).imp ?_
  rintro a _ hLe rfl
  omega

end Objects

--------------------
-- The Free List Of A New Slab
--------------------

theorem loadPtr_storePtr
    {mem : ByteMemory}
    {obj : Addr}
    {ptr : Option Addr}
    (hNonzero : ptr ≠ some 0#64) :
    loadPtr (storePtr mem obj ptr) obj = ptr := by
  unfold loadPtr storePtr
  rw [ByteMemory.load_store]
  cases ptr with
  | none => simp
  | some p =>
      have hp : p ≠ 0#64 := fun h => hNonzero (by rw [h])
      simp [hp]

/- Only the words of the objects are written. -/
theorem buildFreeList_outside
    {objSize : U32}
    {n lo hi : Nat}
    {slot : FreeSlot}
    {objPtr b : Addr}
    {list : Option Addr × ByteMemory}
    (hWords : ∀ o ∈ objAddrs objSize n objPtr,
      lo ≤ o.toNat ∧ o.toNat + 8 ≤ hi)
    (hSlot : ∀ q, slot = .next q →
      lo ≤ q.toNat ∧ q.toNat + 8 ≤ hi)
    (hEnd : hi ≤ 2 ^ 64)
    (hOut : b.toNat < lo ∨ hi ≤ b.toNat) :
    (buildFreeList objSize n slot objPtr list).2 b =
      list.2 b := by
  have hWrite : ∀ (slot : FreeSlot) ptr list,
      (∀ q, slot = .next q →
        lo ≤ q.toNat ∧ q.toNat + 8 ≤ hi) →
      (slot.write ptr list).2 b = list.2 b := by
    intro slot ptr list hSlot
    cases slot with
    | head => rfl
    | next q =>
        have hq := hSlot q rfl
        exact ByteMemory.store_outside (by omega) (by omega)
  induction n generalizing slot objPtr list with
  | zero => exact hWrite slot none list hSlot
  | succ n ih =>
      rw [objAddrs, List.forall_mem_cons] at hWords
      rw [buildFreeList, ih hWords.2,
        hWrite slot _ list hSlot]
      intro q hq
      cases hq
      exact hWords.1

/- The list behind an object that is already linked. -/
theorem buildFreeList_next
    {objSize : U32}
    {n : Nat}
    {q objPtr : Addr}
    {head : Option Addr}
    {mem : ByteMemory}
    (hOrder : (q :: objAddrs objSize n objPtr).Pairwise
      fun a b => a.toNat + 8 ≤ b.toNat)
    (hEnd : ∀ o ∈ q :: objAddrs objSize n objPtr,
      o.toNat + 8 ≤ 2 ^ 64) :
    (buildFreeList objSize n (.next q) objPtr
        (head, mem)).1 = head ∧
      Chain
        (loadPtr (buildFreeList objSize n (.next q) objPtr
          (head, mem)).2)
        (loadPtr (buildFreeList objSize n (.next q) objPtr
          (head, mem)).2 q)
        (objAddrs objSize n objPtr) := by
  induction n generalizing q objPtr mem with
  | zero =>
      refine ⟨rfl, ?_⟩
      simp only [objAddrs, Chain.nil_iff, buildFreeList,
        FreeSlot.write]
      exact loadPtr_storePtr (by simp)
  | succ n ih =>
      rw [objAddrs] at hOrder hEnd
      have hRest := (List.pairwise_cons.mp hOrder).2
      have hFirst := (List.pairwise_cons.mp hOrder).1
      have hTail := List.forall_mem_cons.mp hEnd
      rcases @ih objPtr (objPtr + objSize.setWidth 64)
        (storePtr mem q (some objPtr)) hRest hTail.2 with
        ⟨hHead, hChain⟩
      simp only [buildFreeList, FreeSlot.write, objAddrs]
      refine ⟨hHead, ?_, hChain⟩
      -- The later turns write above the word of `q`.
      have hKept :
          (buildFreeList objSize n (.next objPtr)
            (objPtr + objSize.setWidth 64)
            (head, storePtr mem q (some objPtr))).2.load q =
          (storePtr mem q (some objPtr)).load q := by
        refine ByteMemory.load_congr fun i hi => ?_
        have hByte :
            (q + BitVec.ofNat 64 i).toNat = q.toNat + i := by
          have hq := hTail.1
          rw [BitVec.toNat_add, BitVec.toNat_ofNat]
          omega
        refine @buildFreeList_outside objSize n (q.toNat + 8)
          (2 ^ 64) _ _ _ _ ?_ ?_ (by omega) (by omega)
        · intro o ho
          exact ⟨hFirst o (List.mem_cons_of_mem _ ho),
            hTail.2 o (List.mem_cons_of_mem _ ho)⟩
        · intro r hr
          cases hr
          exact ⟨hFirst objPtr (by simp),
            hTail.2 objPtr (by simp)⟩
      have hNonzero : objPtr ≠ 0#64 := by
        rintro rfl
        have hAbove := hFirst 0#64 (by simp)
        simp at hAbove
      have hLoad :=
        @loadPtr_storePtr mem q (some objPtr) (by simpa)
      unfold loadPtr at hLoad ⊢
      rw [hKept]
      exact hLoad

/- The whole loop. -/
theorem buildFreeList_chain
    {objSize : U32}
    {n : Nat}
    {objPtr : Addr}
    {list : Option Addr × ByteMemory}
    (hOrder : (objAddrs objSize n objPtr).Pairwise
      fun a b => a.toNat + 8 ≤ b.toNat)
    (hEnd : ∀ o ∈ objAddrs objSize n objPtr,
      o.toNat + 8 ≤ 2 ^ 64) :
    Chain
      (loadPtr (buildFreeList objSize n .head objPtr list).2)
      (buildFreeList objSize n .head objPtr list).1
      (objAddrs objSize n objPtr) := by
  cases n with
  | zero => rfl
  | succ n =>
      rcases @buildFreeList_next objSize n objPtr
        (objPtr + objSize.setWidth 64) (some objPtr) list.2
        hOrder hEnd with ⟨hHead, hChain⟩
      simp only [buildFreeList, FreeSlot.write]
      exact ⟨hHead, hChain⟩

end FeatherOS
