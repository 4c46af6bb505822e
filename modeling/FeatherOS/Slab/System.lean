import FeatherOS.Library.Run
import FeatherOS.Slab.Calls

/-
  The slab layer under any sequence of calls.

  A ledger beside the state lists the caches created and the
  blocks in use, with the cache each was taken from. The
  clients free what they hold, under the size they asked for,
  and write into blocks they hold. The page allocator answers
  with NULL or with a page that the layer does not hold, and
  the rest of the kernel calls `kmalloc` as it likes.

  Key definitions include:
    * `Block`
    * `SlabSys`
    * `SlabStep`
    * `Fits`

  Key theorems include:
    * `slabAlloc_unique`
    * `slabFree_unique`
-/

namespace FeatherOS

--------------------
-- The Ledger
--------------------

/-
  A block in use. `owner` is the cache it was taken from, if
  it is not a page of its own; `sized` blocks came from
  `slab_kmalloc`.
-/
structure Block where
  owner : Option Addr
  addr : Addr
  size : U64
  sized : Bool
  deriving DecidableEq

structure SlabSys where
  state : SlabState
  created : List Addr
  live : List Block

/- A cache that was looked up may be new. -/
def addCreated
    (created : List Addr) :
    Option Addr → List Addr
  | none => created
  | some c => if c ∈ created then created else c :: created

/- The block an allocation adds. -/
def grant
    (owner : Option Addr)
    (size : U64)
    (sized : Bool)
    (live : List Block) :
    Option Addr → List Block
  | none => live
  | some addr => ⟨owner, addr, size, sized⟩ :: live

namespace SlabSys

/- The zeroed globals and the untouched heap. -/
def boot (mem : ByteMemory) : SlabSys where
  state := SlabState.boot Heap.initial mem
  created := []
  live := []

end SlabSys

--------------------
-- Calls
--------------------

/- A page is what `physical_alloc_page` would answer. -/
inductive SlabCall where
  | init
  | create
      (objSize align : U64)
      (flags : U32)
      (ctor dtor : Option ObjHook)
  | alloc (cache : Addr) (page : U64)
  | free (cache obj : Addr)
  | shrink (cache : Addr)
  | kmalloc (size page : U64)
  | kfree (ptr : Addr) (size : U64)
  | write (addr : Addr) (byte : U8)
  | kernelAlloc (size : U64)

inductive SlabStep :
    SlabSys → SlabCall → SlabSys → Prop
| init
    (sys : SlabSys) :
    SlabStep sys .init
      { sys with
        state := slabInit sys.state
        created :=
          (List.finRange 10).foldl
            (fun created i =>
              addCreated created
                ((slabInit sys.state).sizeCaches i))
            sys.created }
| create
    {sys : SlabSys}
    {objSize align : U64}
    {flags : U32}
    {ctor dtor : Option ObjHook}
    {cache : Option Addr}
    {s : SlabState}
    (hCall :
      slabCacheCreate sys.state objSize align flags ctor dtor =
        (cache, s)) :
    SlabStep sys (.create objSize align flags ctor dtor)
      { sys with
        state := s
        created := addCreated sys.created cache }
| alloc
    {sys : SlabSys}
    {cache : Addr}
    {page : U64}
    {fuel : Nat}
    {obj : Option Addr}
    {s : SlabState}
    (hCache : cache ∈ sys.created)
    (hPage : PageAnswer sys.state page)
    (hCall :
      slabAlloc page fuel sys.state (some cache) =
        some (obj, s)) :
    SlabStep sys (.alloc cache page)
      { sys with
        state := s
        live :=
          grant (some cache)
            ((sys.state.caches cache).objSize.setWidth 64)
            false sys.live obj }
| free
    {sys : SlabSys}
    {cache : Addr}
    {b : Block}
    {fuel : Nat}
    {s : SlabState}
    (hLive : b ∈ sys.live)
    (hOwner : b.owner = some cache)
    (hCall :
      slabFree fuel sys.state (some cache) (some b.addr) =
        some s) :
    SlabStep sys (.free cache b.addr)
      { sys with
        state := s
        live := sys.live.erase b }
| shrink
    {sys : SlabSys}
    {cache : Addr}
    (hCache : cache ∈ sys.created) :
    SlabStep sys (.shrink cache)
      { sys with state := (slabShrink sys.state (some cache)).2 }
| kmalloc
    {sys : SlabSys}
    {size page : U64}
    {fuel : Nat}
    {ptr : Option Addr}
    {s : SlabState}
    (hPage : PageAnswer sys.state page)
    (hCall :
      slabKmalloc fuel sys.state size page = some (ptr, s)) :
    SlabStep sys (.kmalloc size page)
      { sys with
        state := s
        created :=
          addCreated sys.created
            (slabCacheLookup sys.state size).1
        live :=
          grant (slabCacheLookup sys.state size).1 size true
            sys.live ptr }
| kfree
    {sys : SlabSys}
    {b : Block}
    {fuel : Nat}
    {s : SlabState}
    (hLive : b ∈ sys.live)
    (hSized : b.sized = true)
    (hCall :
      slabKfree fuel sys.state (some b.addr) b.size = some s) :
    SlabStep sys (.kfree b.addr b.size)
      { sys with
        state := s
        live := sys.live.erase b }
| write
    {sys : SlabSys}
    {b : Block}
    {addr : Addr}
    {byte : U8}
    (hLive : b ∈ sys.live)
    (hFrom : b.addr.toNat ≤ addr.toNat)
    (hTo : addr.toNat < b.addr.toNat + b.size.toNat) :
    SlabStep sys (.write addr byte)
      { sys with
        state :=
          { sys.state with
            mem := sys.state.mem.patch addr 1 fun _ => byte } }
| kernelAlloc
    (sys : SlabSys)
    (size : U64) :
    SlabStep sys (.kernelAlloc size)
      { sys with
        state :=
          { sys.state with
            heap :=
              (FeatherOS.kmalloc sys.state.heap size).2 } }

/-
  Calls after which every block still fits its page: objects
  of 8 to 4048 bytes, requests of up to 4048 bytes, and
  `slab_init` before any size cache exists.
-/
def Fits
    (sys : SlabSys) :
    SlabCall → Prop
  | .init =>
      sys.state.slabInitialized = true ∨
        ∀ i, sys.state.sizeCaches i = none
  | .create objSize _ _ _ _ =>
      8 ≤ objSize.toNat ∧ objSize.toNat ≤ 4048
  | .alloc cache _ =>
      (sys.state.caches cache).objSize.toNat ≤ 4048
  | .kmalloc size _ => size.toNat ≤ 4048
  | _ => True

--------------------
-- More Turns Change Nothing
--------------------

variable {fuel fuel' : Nat}
variable {s : SlabState}

theorem slabAlloc_mono
    {page : U64}
    {cache : Option Addr}
    {r : Option Addr × SlabState}
    (hLe : fuel ≤ fuel')
    (hCall : slabAlloc page fuel s cache = some r) :
    slabAlloc page fuel' s cache = some r := by
  induction fuel generalizing fuel' s cache with
  | zero => simp [slabAlloc] at hCall
  | succ fuel ih =>
      cases fuel' with
      | zero => omega
      | succ fuel' =>
          have hLe' : fuel ≤ fuel' := by omega
          cases cache with
          | none => exact hCall
          | some cache =>
              simp only [slabAlloc] at hCall ⊢
              by_cases hInit :
                  (s.caches cache).initialized = true
              · rw [if_pos hInit] at hCall ⊢
                cases hPartial :
                    (s.caches cache).slabsPartial with
                | some slab => simpa [hPartial] using hCall
                | none =>
                    simp only [hPartial] at hCall ⊢
                    cases hEmpty :
                        (s.caches cache).slabsEmpty with
                    | some slab =>
                        simp only [hEmpty] at hCall ⊢
                        exact ih hLe' hCall
                    | none =>
                        simp only [hEmpty] at hCall ⊢
                        rcases hMade :
                            slabCreate s cache page with
                          ⟨_ | slab, s₁⟩
                        · simpa [hMade] using hCall
                        · simp only [hMade] at hCall ⊢
                          exact ih hLe' hCall
              · rwa [if_neg hInit] at hCall ⊢

theorem slabFind_mono
    {cache obj : Addr}
    {slot : SlabSlot}
    {r : Option (SlabSlot × Addr)}
    (hLe : fuel ≤ fuel')
    (hCall : slabFind s cache obj fuel slot = some r) :
    slabFind s cache obj fuel' slot = some r := by
  induction fuel generalizing fuel' slot with
  | zero => simp [slabFind] at hCall
  | succ fuel ih =>
      cases fuel' with
      | zero => omega
      | succ fuel' =>
          simp only [slabFind] at hCall ⊢
          cases hRead : s.readSlot cache slot with
          | none => simpa [hRead] using hCall
          | some slab =>
              simp only [hRead] at hCall ⊢
              by_cases hHit :
                  obj - (s.slabs slab).page <
                    (s.caches cache).pageSize.setWidth 64
              · rwa [if_pos hHit] at hCall ⊢
              · rw [if_neg hHit] at hCall ⊢
                exact ih (by omega) hCall

theorem slabFree_mono
    {s s' : SlabState}
    {cache obj : Option Addr}
    (hLe : fuel ≤ fuel')
    (hCall : slabFree fuel s cache obj = some s') :
    slabFree fuel' s cache obj = some s' := by
  cases cache with
  | none => exact hCall
  | some cache =>
      cases obj with
      | none => exact hCall
      | some obj =>
          simp only [slabFree] at hCall ⊢
          cases hFull :
              slabFind s cache obj fuel (.head .slabsFull) with
          | none => simp [hFull] at hCall
          | some r =>
              rw [hFull] at hCall
              rw [slabFind_mono hLe hFull]
              cases r with
              | some found => exact hCall
              | none =>
                  simp only at hCall ⊢
                  cases hPartial :
                      slabFind s cache obj fuel
                        (.head .slabsPartial) with
                  | none => simp [hPartial] at hCall
                  | some r =>
                      rw [hPartial] at hCall
                      rw [slabFind_mono hLe hPartial]
                      exact hCall

/- Two calls that return, return the same. -/
theorem slabAlloc_unique
    {page : U64}
    {cache : Option Addr}
    {r r' : Option Addr × SlabState}
    (hCall : slabAlloc page fuel s cache = some r)
    (hCall' : slabAlloc page fuel' s cache = some r') :
    r = r' := by
  have hMax := slabAlloc_mono (Nat.le_max_left fuel fuel') hCall
  rw [slabAlloc_mono (Nat.le_max_right fuel fuel') hCall']
    at hMax
  exact (Option.some.inj hMax).symm

theorem slabFree_unique
    {s t t' : SlabState}
    {cache obj : Option Addr}
    (hCall : slabFree fuel s cache obj = some t)
    (hCall' : slabFree fuel' s cache obj = some t') :
    t = t' := by
  have hMax := slabFree_mono (Nat.le_max_left fuel fuel') hCall
  rw [slabFree_mono (Nat.le_max_right fuel fuel') hCall']
    at hMax
  exact (Option.some.inj hMax).symm

end FeatherOS
