import FeatherOS.Buffer.Session

/-
  Where dirty data go.

  `bwrite` clears the flag and writes nothing, and a dirty
  buffer is written to the device of the call that recycles
  or syncs it, for which it may not have been given out. No
  write is lost or misdirected exactly when neither happens.

  Key definitions include:
    * `WritesSucceed`
    * `WritesKept`
    * `BufferWriteOk`

  Key theorems include:
    * `sessionStep_kept_iff`
    * `sessionRun_kept_iff`
-/

namespace FeatherOS

variable {bh : BufferPtr}

section WriteBack

variable {V : Type}

--------------------
-- The Property
--------------------

variable (devices : Addr → FlushDevice (DiskWorld V))

/- Every device writes what it is given, and only reads it. -/
structure WritesSucceed : Prop where
  write : ∀ p, ∃ write, (devices p).write = some write ∧
    ∀ lba data w, (write lba 1#32 (some data) w).1 = 0
  memory : ∀ p write, (devices p).write = some write →
    ∀ lba buffer w, (write lba 1#32 buffer w).2.memory = w.memory

/- A lookup sets this free buffer up for its sector. -/
def Recycles
    (s : BufferSession V)
    (call : BufferUse)
    (bh : BufferPtr) : Prop :=
  match call with
  | .lookup kind dev sector _ =>
      Attached (cacheDevices devices) dev ∧
        s.Misses kind sector ∧
        freeBuffer s.toBufferState = some bh
  | _ => False

/- A dirty buffer is recycled, or its flag is cleared. -/
def Leaves
    (s : BufferSession V)
    (call : BufferUse)
    (s' : BufferSession V)
    (bh : BufferPtr) : Prop :=
  (s.cache bh).Dirty ∧
    (Recycles devices s call bh ∨ ¬ (s'.cache bh).Dirty)

/- The sectors written since. -/
def newWrites
    (w w' : LoggedWorld V) :
    List SectorWrite :=
  w'.writes.drop w.writes.length

/- The last data written to a sector. -/
def lastWrite
    (writes : List SectorWrite)
    (dev : Addr)
    (lba : U64) :
    Option SectorData :=
  (writes.reverse.find? fun e => e.dev = dev ∧ e.lba = lba).bind
    SectorWrite.data

/-
  The data are written to the sector of the device, or were
  the last that was; and to no other device.
-/
def NotLost
    (s s' : BufferSession V)
    (bh : BufferPtr)
    (data : Addr)
    (dev : Addr) : Prop :=
  let bytes := sectorAt s.world.memory data
  let sector := (s.cache bh).sector
  (⟨dev, sector, some data, some bytes⟩ ∈
        newWrites s.world s'.world ∨
      lastWrite s.world.writes dev sector = some bytes) ∧
    ∀ e ∈ newWrites s.world s'.world,
      e.buffer = some data → e.dev = dev

/- No write is lost or misdirected by the step. -/
def WritesKept
    (s : BufferSession V)
    (call : BufferUse)
    (s' : BufferSession V) : Prop :=
  ∀ bh, Leaves devices s call s' bh →
    ∀ data, (s.cache bh).data = some data →
      ∀ dev ∈ s.owners bh, NotLost s s' bh data dev

/-
  Dirty data are recycled or synced for the device they are
  for, and `bwrite` finds them written.
-/
def BufferWriteOk
    (s : BufferSession V)
    (call : BufferUse) : Prop :=
  match call with
  | .lookup _ dev _ _ =>
      ∀ bh, Recycles devices s call bh → (s.cache bh).Dirty →
        (s.cache bh).data ≠ none →
          ∀ p ∈ s.owners bh, dev = some p
  | .bwrite (some bh) =>
      (s.cache bh).Dirty →
        ∀ data, (s.cache bh).data = some data →
          ∀ p ∈ s.owners bh,
            lastWrite s.world.writes p (s.cache bh).sector =
              some (sectorAt s.world.memory data)
  | .syncDev (some dev) =>
      ∀ bh, (s.cache bh).Dirty → (s.cache bh).data ≠ none →
        ∀ p ∈ s.owners bh, p = dev
  | _ => True

variable {devices}

--------------------
-- Logged Writes
--------------------

theorem newWrites_eq
    {w w' : LoggedWorld V}
    {new : List SectorWrite}
    (hWrites : w'.writes = w.writes ++ new) :
    newWrites w w' = new := by
  rw [newWrites, hWrites, List.drop_left]

/- What a write adds to the log. -/
structure Logged
    (p : Addr)
    (lba : U64)
    (buffer : Option Addr)
    (w : LoggedWorld V)
    (new : List SectorWrite)
    (w' : LoggedWorld V) : Prop where
  writes : w'.writes = w.writes ++ new
  only : ∀ e ∈ new, e.dev = p
  memory : w'.memory = w.memory
  written : ∀ data, buffer = some data →
    new = [⟨p, lba, some data, some (sectorAt w.memory data)⟩]

theorem blockWrite_logged
    (hOk : WritesSucceed devices)
    (p : Addr)
    (lba : U64)
    (buffer : Option Addr)
    (w : LoggedWorld V) :
    ∃ new,
      Logged p lba buffer w new
        (blockWrite (cacheDevices devices) (some p) lba 1#32 buffer
          w).2 := by
  rcases hOk.write p with ⟨write, hWrite, hZero⟩
  have hMemory := hOk.memory p write hWrite lba buffer w.toDiskWorld
  have hDone :
      (blockWrite (cacheDevices devices) (some p) lba 1#32 buffer
        w).2 =
        (loggedWrite p write lba 1#32 buffer w).2 := by
    simp [blockWrite, cacheDevices, blockDevices, loggedDevices,
      hWrite]
  rw [hDone]
  unfold loggedWrite
  by_cases hRet : (write lba 1#32 buffer w.toDiskWorld).1 = 0
  · refine ⟨[⟨p, lba, buffer, buffer.map (sectorAt w.memory)⟩], ?_⟩
    constructor
    · simp only [hRet, if_true]
    · simp
    · exact hMemory
    · rintro data rfl
      rfl
  · refine ⟨[], ?_⟩
    constructor
    · simp only [hRet, if_false, List.append_nil]
    · simp
    · exact hMemory
    · rintro data rfl
      exact absurd (hZero lba data w.toDiskWorld) hRet

theorem blockRead_writes
    (dev : Option Addr)
    (lba : U64)
    (count : U32)
    (buffer : Option Addr)
    (w : LoggedWorld V) :
    (blockRead (cacheDevices devices) dev lba count buffer
      w).2.writes = w.writes := by
  cases dev with
  | none => rfl
  | some p =>
      cases hRead : (devices p).read with
      | none =>
          simp [blockRead, cacheDevices, blockDevices,
            loggedDevices, hRead]
      | some read =>
          simp [blockRead, cacheDevices, blockDevices,
            loggedDevices, hRead, unlogged]

theorem blockFlush_writes
    (dev : Option Addr)
    (w : LoggedWorld V) :
    (blockFlush (loggedDevices devices) dev w).2.writes =
      w.writes := by
  cases dev with
  | none => rfl
  | some p =>
      cases hFlush : (devices p).flush with
      | none => simp [blockFlush, loggedDevices, hFlush]
      | some flush =>
          simp [blockFlush, loggedDevices, hFlush, unlogged]

--------------------
-- Recycling
--------------------

theorem writeBack_logged
    (hOk : WritesSucceed devices)
    (s : BufferState (LoggedWorld V))
    (p : Addr)
    (bh : BufferPtr)
    (hDirty : (s.cache bh).Dirty) :
    ∃ new,
      Logged p (s.cache bh).sector (s.cache bh).data s.world new
        (writeBack (cacheDevices devices) s (some p) bh).world := by
  have hTest : (s.cache bh).flags &&& bufferDirty ≠ 0#32 := hDirty
  simp only [writeBack, hTest, ne_eq, not_false_eq_true, if_true]
  exact blockWrite_logged hOk p (s.cache bh).sector
    (s.cache bh).data s.world

/- Only the writing back is logged. -/
theorem use_writes
    (kind : BufferLookup)
    (s : BufferState (LoggedWorld V))
    (dev : Option Addr)
    (bh : BufferPtr)
    (sector : U64)
    (size : U32) :
    (kind.use (cacheDevices devices) dev sector size s
        bh).world.writes =
      (writeBack (cacheDevices devices) s dev bh).world.writes := by
  cases kind with
  | bread =>
      rw [← setupBuffer_world (cacheDevices devices) s dev bh sector
        size 0#32]
      exact blockRead_writes dev sector 1#32 _ _
  | getblk =>
      rw [← setupBuffer_world (cacheDevices devices) s dev bh sector
        size bufferDirty]
      rfl

section Steps

variable {s s' : BufferSession V}
variable {p : Addr}

/- The data are written to the device of the call. -/
theorem notLost_iff
    {data dev : Addr}
    (hOnly : ∀ e ∈ newWrites s.world s'.world, e.dev = p)
    (hWritten :
      ⟨p, (s.cache bh).sector, some data,
          some (sectorAt s.world.memory data)⟩ ∈
        newWrites s.world s'.world) :
    NotLost s s' bh data dev ↔ dev = p := by
  constructor
  · intro hLost
    exact (hLost.2 _ hWritten rfl).symm
  · rintro rfl
    exact ⟨.inl hWritten, fun e he _ => hOnly e he⟩

variable {call : BufferUse}

/- A call after which every dirty buffer is still dirty. -/
theorem kept_of_dirty
    (hRecycles : ∀ bh, ¬ Recycles devices s call bh)
    (hDirty : ∀ bh, (s.cache bh).Dirty → (s'.cache bh).Dirty) :
    WritesKept devices s call s' := by
  rintro bh ⟨hOld, hRecycled | hClean⟩
  · exact absurd hRecycled (hRecycles bh)
  · exact absurd (hDirty bh hOld) hClean

variable {kind : BufferLookup}
variable {size : U32}
variable {sector : U64}

/- A free buffer is written back before it is set up. -/
theorem reused_kept_iff
    (hOk : WritesSucceed devices)
    {t : BufferState (LoggedWorld V)}
    (hUse : UseSpec s.toBufferState bh sector t)
    (hWrites :
      t.world.writes =
        (writeBack (cacheDevices devices) s.toBufferState (some p)
          bh).world.writes)
    (hOne : ∀ q,
      Recycles devices s (.lookup kind (some p) sector size) q ↔
        q = bh) :
    WritesKept devices s (.lookup kind (some p) sector size)
        (s.reused bh p sector t) ↔
      BufferWriteOk devices s (.lookup kind (some p) sector size) := by
  have hLeaves : ∀ q,
      Leaves devices s (.lookup kind (some p) sector size)
          (s.reused bh p sector t) q ↔
        q = bh ∧ (s.cache q).Dirty := by
    intro q
    constructor
    · rintro ⟨hDirty, hRecycled | hClean⟩
      · exact ⟨(hOne q).mp hRecycled, hDirty⟩
      · by_cases hq : q = bh
        · exact ⟨hq, hDirty⟩
        · have hStays := hUse.other q hq
          simp only [BufferSession.reused] at hClean
          rw [hStays] at hClean
          exact absurd hDirty hClean
    · rintro ⟨hq, hDirty⟩
      exact ⟨hDirty, .inl ((hOne q).mpr hq)⟩
  have hEach : ∀ data dev,
      (s.cache bh).Dirty → (s.cache bh).data = some data →
      (NotLost s (s.reused bh p sector t) bh data dev ↔
        dev = p) := by
    intro data dev hDirty hData
    rcases writeBack_logged hOk s.toBufferState p bh hDirty with
      ⟨new, hLogged⟩
    have hNew := hLogged.writes
    rw [← hWrites] at hNew
    have hLog :
        newWrites s.world (s.reused bh p sector t).world = new :=
      newWrites_eq hNew
    apply notLost_iff
    · rw [hLog]
      exact hLogged.only
    · rw [hLog, hLogged.written data hData]
      exact List.mem_singleton_self _
  constructor
  · intro hKept q hRecycled hDirty hData dev hOwner
    have hq := (hOne q).mp hRecycled
    subst hq
    cases hBlock : (s.cache q).data with
    | none => exact absurd hBlock hData
    | some data =>
        have hLost := hKept q ((hLeaves q).mpr ⟨rfl, hDirty⟩) data
          hBlock dev hOwner
        rw [(hEach data dev hDirty hBlock).mp hLost]
  · intro hWrite q hLeft data hData dev hOwner
    rcases (hLeaves q).mp hLeft with ⟨rfl, hDirty⟩
    have hSome : (s.cache q).data ≠ none := by
      rw [hData]
      exact Option.some_ne_none data
    have hDevice := hWrite q ((hOne q).mpr rfl) hDirty hSome dev
      hOwner
    injection hDevice with hDevice
    exact (hEach data dev hDirty hData).mpr hDevice.symm

variable {dev : Option Addr}

theorem lookup_kept_iff
    (hOk : WritesSucceed devices)
    (hStep :
      sessionStep devices s (.lookup kind dev sector size) s') :
    WritesKept devices s (.lookup kind dev sector size) s' ↔
      BufferWriteOk devices s (.lookup kind dev sector size) := by
  have hSame :
      (∀ bh, ¬ Recycles devices s (.lookup kind dev sector size)
        bh) →
      (∀ bh, (s.cache bh).Dirty → (s'.cache bh).Dirty) →
      (WritesKept devices s (.lookup kind dev sector size) s' ↔
        BufferWriteOk devices s (.lookup kind dev sector size)) := by
    intro hRecycles hDirty
    constructor
    · intro _ bh hRecycled
      exact absurd hRecycled (hRecycles bh)
    · intro _
      exact kept_of_dirty hRecycles hDirty
  rcases lookup_cases hStep with
    ⟨hNot, rfl⟩ | ⟨p, rfl, hDev, hRest⟩
  · exact hSame (fun bh hRecycled => hNot hRecycled.1)
      fun _ hDirty => hDirty
  · rcases hRest with
      ⟨bh, hFinds, rfl⟩ | ⟨_, hFree, rfl⟩ | ⟨bh, hMiss, hFree, rfl⟩
    · apply hSame
      · intro q hRecycled
        exact hFinds.not_misses hRecycled.2.1
      · intro q hDirty
        simp only [BufferSession.hit, BufferHead.Dirty,
          BufferState.cache_modifyHead] at hDirty ⊢
        split
        next hq =>
          rw [← hq]
          exact hDirty
        next => exact hDirty
    · apply hSame
      · intro q hRecycled
        have hSome := hRecycled.2.2
        rw [hFree] at hSome
        cases hSome
      · exact fun _ hDirty => hDirty
    · have hUse := use_spec (cacheDevices devices) kind
        s.toBufferState (some p) bh sector size
      have hWrites := @use_writes V devices kind s.toBufferState
        (some p) bh sector size
      apply reused_kept_iff hOk hUse hWrites
      intro q
      constructor
      · intro hRecycled
        have hSome := hRecycled.2.2
        rw [hFree] at hSome
        injection hSome with hSame
        exact hSame.symm
      · rintro rfl
        exact ⟨hDev, hMiss, hFree⟩

--------------------
-- Syncing
--------------------

/- What the loop of `sync_dev` does to these buffers. -/
structure Synced
    (p : Addr)
    (cells : List BufferPtr)
    (t u : BufferState (LoggedWorld V)) : Prop where
  cache : ∀ q,
    u.cache q =
      if q ∈ cells ∧ (t.cache q).Dirty then (t.cache q).clean
      else t.cache q
  memory : u.world.memory = t.world.memory
  writes : ∃ new,
    u.world.writes = t.world.writes ++ new ∧
      (∀ e ∈ new, e.dev = p) ∧
      ∀ q ∈ cells, (t.cache q).Dirty →
        ∀ data, (t.cache q).data = some data →
          ⟨p, (t.cache q).sector, some data,
              some (sectorAt t.world.memory data)⟩ ∈ new

theorem syncBuffer_synced
    (hOk : WritesSucceed devices)
    (p : Addr)
    (t : BufferState (LoggedWorld V))
    (bh : BufferPtr) :
    Synced p [bh] t
      (syncBuffer (loggedDevices devices) (some p) t bh) := by
  unfold syncBuffer
  by_cases hDirty : (t.cache bh).Dirty
  · rw [if_pos hDirty]
    rcases blockWrite_logged hOk p (t.cache bh).sector
      (t.cache bh).data t.world with ⟨new, hLogged⟩
    constructor
    · intro q
      simp only [BufferState.cache_modifyHead, List.mem_singleton]
      by_cases hq : q = bh
      · subst hq
        rw [if_pos rfl, if_pos ⟨rfl, hDirty⟩]
      · rw [if_neg hq, if_neg fun h => hq h.1]
    · exact hLogged.memory
    · refine ⟨new, hLogged.writes, hLogged.only, ?_⟩
      intro q hq _ data hData
      rw [List.mem_singleton] at hq
      subst hq
      rw [hLogged.written data hData]
      exact List.mem_singleton_self _
  · rw [if_neg hDirty]
    constructor
    · intro q
      rw [if_neg]
      rintro ⟨hq, hAlso⟩
      rw [List.mem_singleton] at hq
      exact hDirty (hq ▸ hAlso)
    · rfl
    · refine ⟨[], by simp, by simp, ?_⟩
      intro q hq hAlso
      rw [List.mem_singleton] at hq
      exact absurd (hq ▸ hAlso) hDirty

/- The other buffers come after it. -/
theorem Synced.cons
    {p : Addr}
    {bh : BufferPtr}
    {cells : List BufferPtr}
    {t u v : BufferState (LoggedWorld V)}
    (hOut : bh ∉ cells)
    (hFirst : Synced p [bh] t u)
    (hRest : Synced p cells u v) :
    Synced p (bh :: cells) t v := by
  have hStays : ∀ q, q ≠ bh → u.cache q = t.cache q := by
    intro q hq
    rw [hFirst.cache, if_neg]
    rintro ⟨hMem, _⟩
    exact hq (List.mem_singleton.mp hMem)
  constructor
  · intro q
    rw [hRest.cache]
    by_cases hq : q = bh
    · subst hq
      rw [if_neg fun h => hOut h.1, hFirst.cache]
      simp only [List.mem_cons, true_or]
    · rw [hStays q hq]
      simp only [List.mem_cons, hq, false_or]
  · rw [hRest.memory, hFirst.memory]
  · rcases hFirst.writes with ⟨first, hWrites, hOnly, hThis⟩
    rcases hRest.writes with ⟨rest, hWrites', hOnly', hOthers⟩
    refine ⟨first ++ rest, ?_, ?_, ?_⟩
    · rw [hWrites', hWrites, List.append_assoc]
    · intro e he
      rcases List.mem_append.mp he with he | he
      · exact hOnly e he
      · exact hOnly' e he
    · intro q hq hDirty data hData
      rcases List.mem_cons.mp hq with rfl | hLater
      · exact List.mem_append_left _
          (hThis q (List.mem_singleton_self q) hDirty data hData)
      · have hNe : q ≠ bh := by
          rintro rfl
          exact hOut hLater
        have hMem := hOthers q hLater
        rw [hStays q hNe, hFirst.memory] at hMem
        exact List.mem_append_right _ (hMem hDirty data hData)

theorem syncBuffers_synced
    (hOk : WritesSucceed devices)
    (p : Addr)
    {cells : List BufferPtr}
    (hNodup : cells.Nodup)
    (t : BufferState (LoggedWorld V)) :
    Synced p cells t
      (cells.foldl (syncBuffer (loggedDevices devices) (some p))
        t) := by
  induction cells generalizing t with
  | nil =>
      constructor
      · intro q
        simp
      · rfl
      · exact ⟨[], by simp, by simp, by simp⟩
  | cons bh cells ih =>
      rw [List.nodup_cons] at hNodup
      exact Synced.cons hNodup.1 (syncBuffer_synced hOk p t bh)
        (ih hNodup.2 _)

theorem syncDev_kept_iff
    (hOk : WritesSucceed devices)
    (hStep : sessionStep devices s (.syncDev dev) s') :
    WritesKept devices s (.syncDev dev) s' ↔
      BufferWriteOk devices s (.syncDev dev) := by
  have hState : s' = { s with
      toBufferState :=
        syncDev (loggedDevices devices) s.toBufferState dev } :=
    hStep
  subst hState
  cases dev with
  | none =>
      refine ⟨fun _ => trivial, fun _ => ?_⟩
      exact kept_of_dirty (fun _ => id) fun _ hDirty => hDirty
  | some p =>
      have hSynced := syncBuffers_synced hOk p
        (List.nodup_finRange bufferCacheSize) s.toBufferState
      have hFlushed := @blockFlush_writes V devices
        (some p)
        ((List.finRange bufferCacheSize).foldl
          (syncBuffer (loggedDevices devices) (some p))
          s.toBufferState).world
      rcases hSynced.writes with ⟨new, hWrites, hOnly, hAll⟩
      rw [← hFlushed] at hWrites
      have hLog : newWrites s.world
          (syncDev (loggedDevices devices) s.toBufferState
            (some p)).world = new :=
        newWrites_eq hWrites
      have hLeaves : ∀ q,
          Leaves devices s (.syncDev (some p))
              { s with
                toBufferState :=
                  syncDev (loggedDevices devices) s.toBufferState
                    (some p) } q ↔
            (s.cache q).Dirty := by
        intro q
        refine ⟨And.left, fun hDirty => ⟨hDirty, .inr ?_⟩⟩
        have hCache := hSynced.cache q
        rw [if_pos ⟨List.mem_finRange q, hDirty⟩] at hCache
        simp only [syncDev, hCache]
        exact clean_not_dirty (s.cache q)
      have hEach : ∀ q data dev,
          (s.cache q).Dirty → (s.cache q).data = some data →
          (NotLost s
              { s with
                toBufferState :=
                  syncDev (loggedDevices devices) s.toBufferState
                    (some p) } q data dev ↔
            dev = p) := by
        intro q data dev hDirty hData
        apply notLost_iff
        · simp only [hLog]
          exact hOnly
        · simp only [hLog]
          exact hAll q (List.mem_finRange q) hDirty data hData
      constructor
      · intro hKept q hDirty hSome dev hOwner
        cases hBlock : (s.cache q).data with
        | none => exact absurd hBlock hSome
        | some data =>
            exact (hEach q data dev hDirty hBlock).mp
              (hKept q ((hLeaves q).mpr hDirty) data hBlock dev
                hOwner)
      · intro hWrite q hLeft data hData dev hOwner
        have hDirty := (hLeaves q).mp hLeft
        apply (hEach q data dev hDirty hData).mpr
        apply hWrite q hDirty _ dev hOwner
        rw [hData]
        exact Option.some_ne_none data

--------------------
-- The Other Calls
--------------------

theorem bwrite_kept_iff
    {bh : Option BufferPtr}
    (hStep : sessionStep devices s (.bwrite bh) s') :
    WritesKept devices s (.bwrite bh) s' ↔
      BufferWriteOk devices s (.bwrite bh) := by
  have hState : s' = { s with
      toBufferState := (bwrite s.toBufferState bh).2 } := hStep
  subst hState
  cases bh with
  | none =>
      refine ⟨fun _ => trivial, fun _ => ?_⟩
      exact kept_of_dirty (fun _ => id) fun _ hDirty => hDirty
  | some bh =>
      cases hData : (s.cache bh).data with
      | none =>
          constructor
          · intro _ _ data hSome
            rw [hData] at hSome
            cases hSome
          · intro _
            apply kept_of_dirty (fun _ => id)
            intro q hDirty
            simpa [bwrite, hData] using hDirty
      | some data =>
          have hNew : newWrites s.world s.world = [] := by
            simp [newWrites]
          have hLeaves : ∀ q,
              Leaves devices s (.bwrite (some bh))
                  { s with
                    toBufferState :=
                      (bwrite s.toBufferState (some bh)).2 } q ↔
                q = bh ∧ (s.cache q).Dirty := by
            intro q
            simp only [Leaves, Recycles, false_or, bwrite, hData,
              reduceCtorEq, if_false, BufferState.cache_modifyHead]
            by_cases hq : q = bh
            · subst hq
              simp [clean_not_dirty]
            · simp [hq]
          have hEach : ∀ dev,
              NotLost s
                  { s with
                    toBufferState :=
                      (bwrite s.toBufferState (some bh)).2 } bh
                  data dev ↔
                lastWrite s.world.writes dev (s.cache bh).sector =
                  some (sectorAt s.world.memory data) := by
            intro dev
            simp [NotLost, bwrite, hData, BufferState.modifyHead,
              hNew]
          constructor
          · intro hKept hDirty data' hSome dev hOwner
            have hSame := hSome
            rw [hData] at hSame
            injection hSame with hSame
            subst hSame
            exact (hEach dev).mp
              (hKept bh ((hLeaves bh).mpr ⟨rfl, hDirty⟩) data hData
                dev hOwner)
          · intro hWrite q hLeft data' hSome dev hOwner
            rcases (hLeaves q).mp hLeft with ⟨rfl, hDirty⟩
            have hSame := hSome
            rw [hData] at hSame
            injection hSame with hSame
            subst hSame
            exact (hEach dev).mpr
              (hWrite hDirty data hData dev hOwner)

/- Every call, in every state. -/
theorem sessionStep_kept_iff
    (hOk : WritesSucceed devices)
    (hStep : sessionStep devices s call s') :
    WritesKept devices s call s' ↔ BufferWriteOk devices s call := by
  cases call with
  | lookup kind dev sector size =>
      exact lookup_kept_iff hOk hStep
  | brelse hold =>
      rcases hStep with ⟨_, rfl⟩
      refine ⟨fun _ => trivial, fun _ => ?_⟩
      apply kept_of_dirty (fun _ => id)
      intro q hDirty
      simp only [brelse, BufferHead.Dirty,
        BufferState.cache_modifyHead] at hDirty ⊢
      split
      next hq =>
        rw [← hq]
        exact hDirty
      next => exact hDirty
  | bwrite bh => exact bwrite_kept_iff hStep
  | syncDev dev => exact syncDev_kept_iff hOk hStep
  | modify hold bytes dirty =>
      rcases hStep with ⟨_, data, _, rfl⟩
      refine ⟨fun _ => trivial, fun _ => ?_⟩
      apply kept_of_dirty (fun _ => id)
      intro q hDirty
      simp only [BufferSession.modified, BufferHead.Dirty,
        BufferState.cache_modifyHead] at hDirty ⊢
      split
      next hq =>
        subst hq
        cases dirty with
        | true => exact or_dirty (s.cache hold.bh).flags
        | false => exact hDirty
      next => exact hDirty

end Steps

--------------------
-- Runs
--------------------

/-
  No write is lost or misdirected in a run, from any state,
  exactly when every call of it recycles, syncs and cleans
  what it may.
-/
theorem sessionRun_kept_iff
    (hOk : WritesSucceed devices)
    {s t : BufferSession V}
    {calls : List BufferUse} :
    Run (fun s call t =>
          sessionStep devices s call t ∧
            WritesKept devices s call t) s calls t ↔
      Run (Guarded (BufferWriteOk devices) (sessionStep devices))
        s calls t := by
  apply Run.guarded_iff fun _ => True
  · exact fun _ _ _ _ _ _ => trivial
  · intro s call t _ hStep
    exact sessionStep_kept_iff hOk hStep
  · trivial

end WriteBack

--------------------
-- Two Sessions
--------------------

/- The sectors of all disks. -/
abbrev Disks := Addr → U64 → SectorData

/- Disks that store and hand out what they are given. -/
def plainDisks (p : Addr) : FlushDevice (DiskWorld Disks) where
  privateData := some 0x1000#64
  read := some fun lba _ buffer w =>
    match buffer with
    | none => (-1, w)
    | some data =>
        (0,
          { w with
            memory := storeSector w.memory data (w.disks p lba) })
  write := some fun lba _ buffer w =>
    match buffer with
    | none => (-1, w)
    | some data =>
        (0,
          { w with
            disks :=
              Function.update w.disks p
                (Function.update (w.disks p) lba
                  (sectorAt w.memory data)) })
  flush := none

theorem plainDisks_succeed : WritesSucceed plainDisks where
  write := fun _ => ⟨_, rfl, fun _ _ _ => rfl⟩
  memory := by
    intro p write hWrite lba buffer w
    injection hWrite with hWrite
    subst hWrite
    cases buffer with
    | none => rfl
    | some data => rfl

/- The cache after `buffer_cache_init`. -/
def emptyCache : BufferSession Disks where
  toBufferState :=
    bufferCacheInit
      { cache := fun _ => ⟨none, 0#64, 0#32, 0#32, none, 0⟩
        hashtable := fun _ => none
        cacheMisses := 0#64
        heap := Heap.initial
        world := ⟨⟨fun _ => 0#8, fun _ _ _ => 0#8⟩, []⟩ }
  holds := []
  owners := fun _ => []
  latest := fun _ _ => none

theorem emptyCache_started : emptyCache.Started :=
  ⟨⟨_, rfl⟩, rfl, fun _ => rfl, fun _ _ => rfl, rfl⟩

/- A lookup with turns enough for short chains. -/
def sessionLookup
    (kind : BufferLookup)
    (s : BufferSession Disks)
    (dev : Addr)
    (sector : U64) :
    BufferSession Disks :=
  s.answered ((s.search kind sector 4).getD none) (some dev) sector
    ((kind.call (cacheDevices plainDisks) 4 s.toBufferState
      (some dev) sector 512#32).getD (none, s.toBufferState))

/- The sector 0 of a disk for writing. -/
def gotSector : BufferSession Disks :=
  sessionLookup .getblk emptyCache 0x2000#64 0#64

theorem gotSector_step :
    sessionStep plainDisks emptyCache
      (.lookup .getblk (some 0x2000#64) 0#64 512#32) gotSector :=
  ⟨4, _, rfl, rfl⟩

/- It is in the first buffer, which is the only dirty one. -/
theorem gotSector_eq :
    gotSector =
      emptyCache.reused firstBuffer 0x2000#64 0#64
        (BufferLookup.getblk.use (cacheDevices plainDisks)
          (some 0x2000#64) 0#64 512#32 emptyCache.toBufferState
          firstBuffer) := rfl

theorem gotSector_dirty
    (hDirty : (gotSector.cache bh).Dirty) :
    bh = firstBuffer := by
  by_contra hOther
  rw [gotSector_eq] at hDirty
  have hUse := use_spec (cacheDevices plainDisks) .getblk
    emptyCache.toBufferState (some 0x2000#64) firstBuffer 0#64
    512#32
  simp only [BufferSession.reused] at hDirty
  rw [hUse.other bh hOther] at hDirty
  exact hDirty BitVec.zero_and

theorem sessionRun_kept_iff_sync :
    Run (fun s call t =>
        sessionStep plainDisks s call t ∧
          WritesKept plainDisks s call t)
      emptyCache
      [.lookup .getblk (some 0x2000#64) 0#64 512#32,
        .syncDev (some 0x2000#64)]
      { gotSector with
        toBufferState :=
          syncDev (loggedDevices plainDisks)
            gotSector.toBufferState (some 0x2000#64) } := by
  refine (sessionRun_kept_iff plainDisks_succeed).mpr
    (.cons ⟨?_, gotSector_step⟩ (.cons ⟨?_, rfl⟩ (.nil _)))
  · intro bh _ hDirty
    exact absurd BitVec.zero_and hDirty
  · intro bh hDirty _ p hOwner
    rw [gotSector_dirty hDirty] at hOwner
    have hOwners : gotSector.owners firstBuffer = [0x2000#64] :=
      rfl
    rw [hOwners] at hOwner
    exact List.mem_singleton.mp hOwner

/- `bwrite` clears the flag of data that no disk has. -/
theorem bwrite_loses_data :
    ¬ ∀ (devices : Addr → FlushDevice (DiskWorld Disks))
        (s t u : BufferSession Disks) (calls : List BufferUse)
        (call : BufferUse),
      WritesSucceed devices → s.Started →
        Run (sessionStep devices) s calls t →
          sessionStep devices t call u →
            WritesKept devices t call u := by
  intro hAll
  have hKept := hAll plainDisks emptyCache gotSector _ _
    (.bwrite (some firstBuffer)) plainDisks_succeed
    emptyCache_started (.cons gotSector_step (.nil _)) rfl
  have hOk := (bwrite_kept_iff rfl).mp hKept (by decide)
    0x200000#64 (by decide) 0x2000#64 (List.mem_singleton_self _)
  have hNone : lastWrite gotSector.world.writes 0x2000#64
      (gotSector.cache firstBuffer).sector = none := rfl
  rw [hNone] at hOk
  cases hOk

end FeatherOS
