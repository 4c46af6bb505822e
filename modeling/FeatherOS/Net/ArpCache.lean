import FeatherOS.Library.KeyedSlots
import FeatherOS.Net.Transmit

/-
  The ARP cache.

  `arp_add` looks for the address's entry and for a free slot
  in one pass. The cache has a slot for each of 64 addresses,
  and an entry is never dropped.

  Key definitions include:
    * `ArpState`
    * `arpLookup`
    * `arpAdd`
    * `ArpRoom`

  Key theorems include:
    * `arpSlotFrom_eq`
    * `cache_arpAdd`
    * `arpCalls_exact`
-/

namespace FeatherOS

--------------------
-- State
--------------------

def arpCacheSize : Nat := 64

/- arp_cache_entry_t -/
structure ArpCacheEntry where
  ipAddr : Vector U8 4
  macAddr : MacAddr
  expires : U32
  valid : Bool

/- The cache, and the statistics that a lookup counts in -/
structure ArpState where
  cache : Vector ArpCacheEntry arpCacheSize
  arpCacheHits : U64
  arpCacheMisses : U64

def ArpCacheEntry.zero : ArpCacheEntry where
  ipAddr := .replicate 4 0#8
  macAddr := .replicate 6 0#8
  expires := 0#32
  valid := false

def arpInit (s : ArpState) : ArpState :=
  { s with cache := .replicate arpCacheSize .zero }

--------------------
-- Lookup
--------------------

/- The test of both loops -/
def ArpCacheEntry.matches
    (e : ArpCacheEntry)
    (ip : Vector U8 4) : Bool :=
  e.valid && e.ipAddr == ip

/-
  The address is copied to `*mac` where the function returns
  true.
-/
def arpLookup
    (s : ArpState)
    (ipAddr : Option (Vector U8 4)) :
    Option MacAddr × ArpState :=
  match ipAddr with
  | none => (none, s)
  | some ip =>
      match s.cache.toList.find? (·.matches ip) with
      | some e =>
          (some e.macAddr,
            { s with arpCacheHits := s.arpCacheHits + 1 })
      | none =>
          (none, { s with arpCacheMisses := s.arpCacheMisses + 1 })

--------------------
-- Adding an Entry
--------------------

/- The loop, at slot `i` and with the `free_slot` found so far -/
def arpSlotFrom
    (ip : Vector U8 4) :
    List ArpCacheEntry → Nat → Option Nat → Option Nat
  | [], _, freeSlot => freeSlot
  | e :: es, i, freeSlot =>
      if e.matches ip then
        some i
      else if !e.valid && freeSlot.isNone then
        arpSlotFrom ip es (i + 1) (some i)
      else
        arpSlotFrom ip es (i + 1) freeSlot

def arpAdd
    (s : ArpState)
    (uptime : U64)
    (ipAddr : Option (Vector U8 4))
    (mac : Option MacAddr) : ArpState :=
  match ipAddr, mac with
  | some ip, some m =>
      match arpSlotFrom ip s.cache.toList 0 none with
      | some i =>
          { s with
            cache := s.cache.setIfInBounds i
              { ipAddr := ip
                macAddr := m
                expires := (uptime + 60000#64).setWidth 32
                valid := true } }
      | none => s
  | _, _ => s

inductive ArpCall where
  | lookup (ipAddr : Option (Vector U8 4))
  | add
      (uptime : U64)
      (ipAddr : Option (Vector U8 4))
      (mac : Option MacAddr)

def arpCall
    (s : ArpState) :
    ArpCall → ArpState
  | .lookup ipAddr => (arpLookup s ipAddr).2
  | .add uptime ipAddr mac => arpAdd s uptime ipAddr mac

/- The address is cached, or a slot is free. -/
def ArpRoom
    (s : ArpState)
    (ip : Vector U8 4) : Prop :=
  ∃ e ∈ s.cache.toList, e.valid = true → e.ipAddr = ip

--------------------
-- Slots by Address
--------------------

def ArpCacheEntry.key (e : ArpCacheEntry) : Option (Vector U8 4) :=
  if e.valid then some e.ipAddr else none

theorem ArpCacheEntry.key_eq_none
    (e : ArpCacheEntry) :
    e.key = none ↔ e.valid = false := by
  unfold key
  cases e.valid <;> simp

theorem ArpCacheEntry.key_eq_some
    (e : ArpCacheEntry)
    (ip : Vector U8 4) :
    e.key = some ip ↔ e.valid = true ∧ e.ipAddr = ip := by
  unfold key
  cases e.valid <;> simp

theorem ArpCacheEntry.matches_eq
    (e : ArpCacheEntry)
    (ip : Vector U8 4) :
    e.matches ip = decide (e.key = some ip) := by
  rw [Bool.eq_iff_iff, decide_eq_true_iff, e.key_eq_some]
  simp [ArpCacheEntry.matches]

theorem arpLookup_find
    (s : ArpState)
    (ip : Vector U8 4) :
    (arpLookup s (some ip)).1 =
      (KeyedSlots.find ArpCacheEntry.key ip s.cache.toList).map
        ArpCacheEntry.macAddr := by
  have hFind : s.cache.toList.find? (·.matches ip) =
      KeyedSlots.find ArpCacheEntry.key ip s.cache.toList := by
    unfold KeyedSlots.find
    simp only [ArpCacheEntry.matches_eq]
  simp only [arpLookup, hFind]
  split
  next h => rw [h]; rfl
  next h => rw [h]; rfl

/-
  The loop ends with the entry's slot, or else the free slot it
  had, or else the first free one.
-/
theorem arpSlotFrom_eq
    (ip : Vector U8 4)
    (es : List ArpCacheEntry)
    (i : Nat)
    (freeSlot : Option Nat) :
    arpSlotFrom ip es i freeSlot =
      ((es.findIdx? fun e => e.key = some ip).map (i + ·)).or
        (freeSlot.or
          ((es.findIdx? fun e => e.key = none).map (i + ·))) := by
  induction es generalizing i freeSlot with
  | nil => cases freeSlot <;> rfl
  | cons e es ih =>
      have hAdd : (fun j => i + 1 + j) = fun j => i + (j + 1) := by
        funext j
        omega
      rw [arpSlotFrom, ih, ih, e.matches_eq, List.findIdx?_cons,
        List.findIdx?_cons, hAdd]
      by_cases hKey : e.key = some ip
      · simp [hKey]
      · by_cases hFree : e.key = none
        · have hValid := e.key_eq_none.mp hFree
          cases freeSlot <;>
            simp [hFree, hValid, Function.comp_def]
        · have hValid : e.valid = true :=
            Bool.of_not_eq_false fun h => hFree (e.key_eq_none.mpr h)
          simp [hKey, hFree, hValid, Function.comp_def]

theorem arpSlotFrom_place
    (ip : Vector U8 4)
    (es : List ArpCacheEntry) :
    arpSlotFrom ip es 0 none =
      KeyedSlots.place ArpCacheEntry.key ip es := by
  rw [arpSlotFrom_eq, KeyedSlots.place, Option.none_or]
  simp

/- An entry is stored under its address. -/
theorem cache_arpAdd
    (s : ArpState)
    (uptime : U64)
    (ip : Vector U8 4)
    (mac : MacAddr) :
    ∃ e : ArpCacheEntry,
      e.key = some ip ∧ e.macAddr = mac ∧
        (arpAdd s uptime (some ip) (some mac)).cache.toList =
          KeyedSlots.store ArpCacheEntry.key ip e
            s.cache.toList := by
  refine ⟨⟨ip, mac, (uptime + 60000#64).setWidth 32, true⟩, rfl,
    rfl, ?_⟩
  cases hPlace : KeyedSlots.place ArpCacheEntry.key ip
      s.cache.toList with
  | none => simp only [arpAdd, KeyedSlots.store, arpSlotFrom_place,
      hPlace]
  | some i =>
      simp only [arpAdd, KeyedSlots.store, arpSlotFrom_place, hPlace]
      exact Vector.toList_setIfInBounds

theorem arpAdd_full
    (s : ArpState)
    (uptime : U64)
    (ip : Vector U8 4)
    (mac : MacAddr)
    (hNone : KeyedSlots.place ArpCacheEntry.key ip
      s.cache.toList = none) :
    arpAdd s uptime (some ip) (some mac) = s := by
  simp only [arpAdd, arpSlotFrom_place, hNone]

theorem arpRoom_iff
    (s : ArpState)
    (ip : Vector U8 4) :
    ArpRoom s ip ↔
      KeyedSlots.place ArpCacheEntry.key ip
        s.cache.toList ≠ none := by
  rw [Ne, KeyedSlots.place_none_iff]
  push Not
  unfold ArpRoom
  apply exists_congr
  intro e
  apply and_congr_right
  intro _
  rw [Ne, e.key_eq_some, e.key_eq_none]
  cases e.valid <;> simp

--------------------
-- Every Sequence of Calls
--------------------

def ArpUnique (s : ArpState) : Prop :=
  KeyedSlots.Unique ArpCacheEntry.key s.cache.toList

theorem arpInit_unique
    (s : ArpState) :
    ArpUnique (arpInit s) := by
  apply KeyedSlots.unique_of_free
  intro e hMem
  rw [arpInit, Vector.toList_replicate] at hMem
  rw [List.eq_of_mem_replicate hMem]
  rfl

theorem arpLookup_cache
    (s : ArpState)
    (ipAddr : Option (Vector U8 4)) :
    (arpLookup s ipAddr).2.cache = s.cache := by
  unfold arpLookup
  split
  · rfl
  · split <;> rfl

theorem arpCall_unique
    (s : ArpState)
    (call : ArpCall)
    (hUnique : ArpUnique s) :
    ArpUnique (arpCall s call) := by
  unfold ArpUnique at hUnique ⊢
  cases call with
  | lookup ipAddr =>
      rw [arpCall, arpLookup_cache]
      exact hUnique
  | add uptime ipAddr mac =>
      cases ipAddr with
      | none => exact hUnique
      | some ip =>
          cases mac with
          | none => exact hUnique
          | some mac =>
              rcases cache_arpAdd s uptime ip mac with
                ⟨e, hKey, _, hCache⟩
              rw [arpCall, hCache]
              exact KeyedSlots.unique_store hKey hUnique

theorem arpCalls_unique
    (calls : List ArpCall)
    (s : ArpState)
    (hUnique : ArpUnique s) :
    ArpUnique (calls.foldl arpCall s) := by
  induction calls generalizing s with
  | nil => exact hUnique
  | cons call calls ih => exact ih _ (arpCall_unique s call hUnique)

/-
  After any calls, an address has at most one valid entry; a
  further `arp_add` is found if the address was cached or a slot
  was free and changes nothing otherwise, and it never changes
  what is found for another address.
-/
theorem arpCalls_exact
    (s : ArpState)
    (calls : List ArpCall) :
    let t := calls.foldl arpCall (arpInit s)
    (∀ i j : Fin arpCacheSize,
      t.cache[i].valid → t.cache[j].valid →
        t.cache[i].ipAddr = t.cache[j].ipAddr → i = j) ∧
      ∀ uptime ip mac,
        let u := arpAdd t uptime (some ip) (some mac)
        (ArpRoom t ip → (arpLookup u (some ip)).1 = some mac) ∧
          (¬ ArpRoom t ip → u = t) ∧
          ∀ other, other ≠ ip →
            (arpLookup u (some other)).1 =
              (arpLookup t (some other)).1 := by
  intro t
  have hUnique : ArpUnique t :=
    arpCalls_unique calls _ (arpInit_unique s)
  constructor
  · intro i j hi hj hSame
    apply Fin.ext
    have hLength : t.cache.toList.length = arpCacheSize :=
      Vector.length_toList
    apply hUnique.getElem (lt_of_lt_of_eq i.isLt hLength.symm)
      (lt_of_lt_of_eq j.isLt hLength.symm) (k := t.cache[j].ipAddr)
    · rw [Vector.getElem_toList]
      exact (ArpCacheEntry.key_eq_some _ _).mpr ⟨hi, hSame⟩
    · rw [Vector.getElem_toList]
      exact (ArpCacheEntry.key_eq_some _ _).mpr ⟨hj, rfl⟩
  · intro uptime ip mac u
    rcases cache_arpAdd t uptime ip mac with ⟨e, hKey, hMac, hCache⟩
    refine ⟨?_, ?_, ?_⟩
    · intro hRoom
      rw [arpLookup_find, hCache, KeyedSlots.find_store_self hKey
        ((arpRoom_iff t ip).mp hRoom), ← hMac]
      rfl
    · intro hFull
      apply arpAdd_full
      by_contra hPlace
      exact hFull ((arpRoom_iff t ip).mpr hPlace)
    · intro other hOther
      rw [arpLookup_find, arpLookup_find, hCache,
        KeyedSlots.find_store_other hKey hOther]

end FeatherOS
