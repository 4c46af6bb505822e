import FeatherOS.Requests.Model

/-
  The request queue as a first-in first-out queue.

  The bios in the queue are a list: a bio is added behind it
  and taken from its front. `process_requests` serves bios
  until the list is empty; what a callback adds comes behind
  the bios that still wait.

  Key definitions include:
    * `RequestState.Carries`
    * `Serves`
    * `fifoStep`

  Key theorems include:
    * `processRequests_serves`
    * `requestRun_refines_fifo`
-/

namespace FeatherOS

variable {W : Type}

--------------------
-- The Queue As A List
--------------------

/- A bio that was served, with what its callback added. -/
structure ServedRequest where
  item : RequestItem
  adds : List RequestItem
  quiet : item.callback = none → adds = []

/- It is performed before its callback is called. -/
def ServedRequest.events (x : ServedRequest) : List RequestEvent :=
  .performed x.item ::
    match x.item.callback with
    | none => []
    | some _ => .called x.item :: x.adds.map .added

/-
  Each waiting bio is served once, in order, and so is each
  bio that a callback added.
-/
def Serves
    (items : List RequestItem)
    (events : List RequestEvent) : Prop :=
  ∃ served : List ServedRequest,
    events = served.flatMap ServedRequest.events ∧
      served.map ServedRequest.item =
        items ++ served.flatMap ServedRequest.adds

/- A queue of bios, no bio twice. -/
def fifoStep
    (items : List RequestItem) :
    RequestCall → List RequestItem → Prop
  | .client (.add none), items' => items' = items
  | .client (.add (some item)), items' =>
      item.bio ∉ items.map RequestItem.bio ∧
        items' = items ++ [item]
  | .client .write, items' => items' = items
  | .get answer, items' =>
      answer = items.head? ∧ items' = items.tail
  | .process events, items' => Serves items events ∧ items' = []

/-
  The queue holds the bios of these items, which ask for the
  same as when they were added.
-/
structure RequestState.Carries
    (s : RequestState W)
    (items : List RequestItem) : Prop where
  holds : s.Holds (items.map RequestItem.bio)
  same : ∀ item ∈ items, s.item item.bio = item
  pending : s.queue.pending = BitVec.ofNat 32 items.length

--------------------
-- Reading Changed States
--------------------

namespace RequestState

variable {s s' : RequestState W}
variable {cells : List Addr}
variable {items : List RequestItem}

theorem bios_modifyBio
    (s : RequestState W)
    (p q : Addr)
    (f : Bio → Bio) :
    (s.modifyBio p f).bios q =
      if q = p then f (s.bios p) else s.bios q := by
  simp [modifyBio, Function.update_apply]

@[simp] theorem queue_modifyBio
    (s : RequestState W)
    (p : Addr)
    (f : Bio → Bio) :
    (s.modifyBio p f).queue = s.queue := rfl

@[simp] theorem history_modifyBio
    (s : RequestState W)
    (p : Addr)
    (f : Bio → Bio) :
    (s.modifyBio p f).history = s.history := rfl

@[simp] theorem bios_record
    (s : RequestState W)
    (e : RequestEvent) :
    (s.record e).bios = s.bios := rfl

@[simp] theorem queue_record
    (s : RequestState W)
    (e : RequestEvent) :
    (s.record e).queue = s.queue := rfl

@[simp] theorem history_record
    (s : RequestState W)
    (e : RequestEvent) :
    (s.record e).history = s.history ++ [e] := rfl

/- The links say which bios are in the queue. -/
theorem Holds.queued_iff
    (hHolds : s.Holds cells)
    (p : Addr) :
    s.Queued p ↔ p ∈ cells := by
  constructor
  · rintro ⟨again, hAgain, hp⟩
    rw [hHolds.links.chain.unique hAgain.links.chain] at hp
    exact hp
  · exact fun hp => ⟨cells, hHolds, hp⟩

/- Only the bios in the queue matter. -/
theorem Carries.congr
    (hCarries : s.Carries items)
    (hQueue : s'.queue = s.queue)
    (hBios : ∀ item ∈ items, s'.bios item.bio = s.bios item.bio) :
    s'.Carries items := by
  have hCells : ∀ p ∈ items.map RequestItem.bio,
      s'.bios p = s.bios p := by
    intro p hp
    rcases List.mem_map.mp hp with ⟨item, hItem, rfl⟩
    exact hBios item hItem
  refine ⟨⟨?_, hCarries.holds.nodup⟩, ?_, ?_⟩
  · rw [hQueue]
    apply hCarries.holds.links.congr
    · intro p hp
      rw [hCells p hp]
    · intro p hp
      rw [hCells p hp]
  · intro item hItem
    have hSame := hCarries.same item hItem
    simp only [RequestState.item] at hSame ⊢
    rw [hBios item hItem]
    exact hSame
  · rw [hQueue, hCarries.pending]

end RequestState

--------------------
-- Adding
--------------------

section Adding

variable {s : RequestState W}
variable {items : List RequestItem}
variable {p : Addr}

/- What `add_request` writes to a bio. -/
theorem addRequest_bios
    (hTail : s.queue.tail ≠ some p)
    (q : Addr) :
    (addRequest s (some p)).bios q =
      if q = p then
        { s.bios p with next := none, prev := s.queue.tail }
      else if s.queue.tail = some q then
        { s.bios q with next := some p }
      else
        s.bios q := by
  cases hEnd : s.queue.tail with
  | none =>
      simp [addRequest, hEnd, RequestState.bios_modifyBio]
  | some t =>
      have htp : t ≠ p := by
        rintro rfl
        exact hTail hEnd
      by_cases hq : q = p
      · subst hq
        simp [addRequest, hEnd, RequestState.bios_modifyBio,
          RequestState.setNext, RequestState.setPrev,
          Ne.symm htp]
      · by_cases hqt : t = q
        · subst hqt
          simp [addRequest, hEnd, RequestState.bios_modifyBio,
            RequestState.setNext, RequestState.setPrev, hq]
        · simp [addRequest, hEnd, RequestState.bios_modifyBio,
            RequestState.setNext, RequestState.setPrev, hq, hqt,
            Ne.symm hqt]

theorem addRequest_queue
    (s : RequestState W)
    (p : Addr) :
    (addRequest s (some p)).queue =
      { s.queue with
        head :=
          if s.queue.tail = none then some p else s.queue.head
        tail := some p
        pending := s.queue.pending + 1#32 } := by
  cases hEnd : s.queue.tail with
  | none => simp [addRequest, hEnd]
  | some t =>
      simp [addRequest, hEnd, RequestState.setNext,
        RequestState.setPrev]

theorem addRequest_history
    (s : RequestState W)
    (p : Addr) :
    (addRequest s (some p)).history =
      s.history ++ [.added (s.item p)] := by
  cases hEnd : s.queue.tail with
  | none => simp [addRequest, hEnd]
  | some t =>
      simp [addRequest, hEnd, RequestState.setNext,
        RequestState.setPrev]

/- A bio that is added comes last. -/
theorem RequestState.Carries.add
    (hCarries : s.Carries items)
    (hOut : p ∉ items.map RequestItem.bio) :
    (addRequest s (some p)).Carries (items ++ [s.item p]) := by
  have hTail : s.queue.tail ≠ some p := by
    intro hEq
    have hLinks := hCarries.holds.links
    rw [hEq] at hLinks
    rcases hLinks.eq_concat with ⟨ys, hCells⟩
    exact hOut (by simp [hCells])
  have hBios := addRequest_bios hTail
  refine ⟨⟨?_, ?_⟩, ?_, ?_⟩
  · rw [addRequest_queue, List.map_append]
    apply hCarries.holds.links.snoc hOut hCarries.holds.nodup
    · rw [hBios p, if_pos rfl]
    · rw [hBios p, if_pos rfl]
    · intro q hq
      rw [hBios q, if_neg hq]
      split
      · rfl
      · rfl
    · intro q hq
      rw [hBios q, if_neg hq]
      split
      · rfl
      · rfl
  · rw [List.map_append, List.nodup_append]
    refine ⟨hCarries.holds.nodup, by simp, ?_⟩
    rintro q hq r hr rfl
    simp only [List.map_cons, List.map_nil,
      List.mem_singleton] at hr
    subst hr
    exact hOut hq
  · intro item hItem
    rcases List.mem_append.mp hItem with hOld | hNew
    · have hNe : item.bio ≠ p := by
        rintro rfl
        exact hOut (List.mem_map_of_mem hOld)
      rw [← hCarries.same item hOld]
      simp only [RequestState.item]
      rw [hBios item.bio, if_neg hNe]
      split
      · rfl
      · rfl
    · rw [List.mem_singleton] at hNew
      subst hNew
      simp only [RequestState.item]
      rw [hBios p, if_pos rfl]
      rfl
  · rw [addRequest_queue]
    simp [hCarries.pending, BitVec.ofNat_add]

end Adding

--------------------
-- Taking
--------------------

section Taking

variable {s : RequestState W}
variable {items : List RequestItem}

variable {p : Addr}

/- What `get_request` does to a queue that is not empty. -/
structure TakeSpec
    (s : RequestState W)
    (p : Addr)
    (s' : RequestState W) : Prop where
  queue : s'.queue =
    { s.queue with
      head := (s.bios p).next
      tail :=
        if (s.bios p).next = none then none else s.queue.tail
      pending := s.queue.pending - 1#32 }
  bios : ∀ q,
    s'.bios q =
      if q = p then
        { s.bios p with next := none, prev := none }
      else if (s.bios p).next = some q then
        { s.bios q with prev := none }
      else
        s.bios q
  world : s'.world = s.world
  history : s'.history = s.history

theorem getRequest_spec
    (hHead : s.queue.head = some p)
    (hSelf : (s.bios p).next ≠ some p) :
    ∃ s', getRequest s = (some p, s') ∧ TakeSpec s p s' := by
  cases hNext : (s.bios p).next with
  | none =>
      refine ⟨(getRequest s).2, by simp [getRequest, hHead], ?_⟩
      constructor
      · simp [getRequest, hHead, hNext]
      · simp [getRequest, hHead, hNext,
          RequestState.bios_modifyBio]
      · simp [getRequest, hHead, hNext, RequestState.modifyBio]
      · simp [getRequest, hHead, hNext]
  | some t =>
      have htp : t ≠ p := by
        rintro rfl
        exact hSelf hNext
      refine ⟨(getRequest s).2, by simp [getRequest, hHead], ?_⟩
      constructor
      · simp [getRequest, hHead, hNext, RequestState.setPrev]
      · intro q
        by_cases hq : q = p
        · subst hq
          simp [getRequest, hHead, hNext, RequestState.setPrev,
            RequestState.bios_modifyBio, Ne.symm htp]
        · by_cases hqt : t = q
          · subst hqt
            simp [getRequest, hHead, hNext, RequestState.setPrev,
              RequestState.bios_modifyBio, hq]
          · simp [getRequest, hHead, hNext, RequestState.setPrev,
              RequestState.bios_modifyBio, hq, hqt, Ne.symm hqt]
      · simp [getRequest, hHead, hNext, RequestState.setPrev,
          RequestState.modifyBio]
      · simp [getRequest, hHead, hNext, RequestState.setPrev]

/- What a bio asks for does not change when it is taken. -/
theorem TakeSpec.item
    {s' : RequestState W}
    (hTake : TakeSpec s p s')
    (q : Addr) :
    s'.item q = s.item q := by
  simp only [RequestState.item, hTake.bios q]
  split
  next hq =>
    subst hq
    rfl
  next =>
    split
    · rfl
    · rfl

/- Nothing is taken from an empty queue. -/
theorem RequestState.Carries.get_nil
    (hCarries : s.Carries []) :
    getRequest s = (none, s) := by
  have hHead : s.queue.head = none := hCarries.holds.links.1
  simp [getRequest, hHead]

/- The first bio is taken. -/
theorem RequestState.Carries.get_cons
    {item : RequestItem}
    (hCarries : s.Carries (item :: items)) :
    ∃ s', getRequest s = (some item.bio, s') ∧
      s'.Carries items ∧ TakeSpec s item.bio s' := by
  rcases hCarries with ⟨⟨hLinks, hNodup⟩, hSame, hPending⟩
  rw [List.map_cons] at hLinks hNodup
  have hSelf := hLinks.next_ne_self hNodup
  rcases getRequest_spec hLinks.1 hSelf with ⟨s', hGet, hTake⟩
  refine ⟨s', hGet, ⟨⟨?_, ?_⟩, ?_, ?_⟩, hTake⟩
  · rw [hTake.queue]
    apply hLinks.removeFirst hNodup
    · intro q hq
      rw [hTake.bios q, if_neg hq]
      split
      · rfl
      · rfl
    · intro q hq
      rw [hTake.bios q, if_neg hq]
      split
      · rfl
      · rfl
  · exact (List.nodup_cons.mp hNodup).2
  · intro it hIt
    rw [hTake.item, hSame it (List.mem_cons_of_mem item hIt)]
  · rw [hTake.queue]
    simp only [hPending, List.length_cons, BitVec.ofNat_add,
      BitVec.add_sub_cancel]

end Taking

--------------------
-- Clients
--------------------

section Clients

variable {s s' : RequestState W}
variable {items : List RequestItem}

/- A client adds bios behind those that wait, or none. -/
theorem clientStep_carries
    {call : ClientCall}
    (hCarries : s.Carries items)
    (hStep : clientStep s call s') :
    ∃ adds, s'.Carries (items ++ adds) ∧
      s'.history = s.history ++ adds.map .added ∧
      fifoStep items (.client call) (items ++ adds) := by
  match call, hStep with
  | .add none, hStep =>
      subst hStep
      exact ⟨[], by simpa using hCarries, (List.append_nil _).symm,
        by simp [fifoStep]⟩
  | .add (some item), ⟨hOut, hItem, hAdd⟩ =>
      subst hAdd
      rw [hCarries.holds.queued_iff] at hOut
      refine ⟨[item], ?_, ?_, hOut, rfl⟩
      · have hNew := hCarries.add hOut
        rw [← hItem] at hNew
        exact hNew
      · rw [addRequest_history, ← hItem]
        rfl
  | .write, ⟨hQueue, hHistory, hBios⟩ =>
      refine ⟨[], ?_, by simp [hHistory], by simp [fifoStep]⟩
      rw [List.append_nil]
      apply hCarries.congr hQueue
      intro item hItem
      apply hBios
      rw [hCarries.holds.queued_iff]
      exact List.mem_map_of_mem hItem

theorem clientRun_carries
    {calls : List ClientCall}
    (hCarries : s.Carries items)
    (hRun : Run clientStep s calls s') :
    ∃ adds, s'.Carries (items ++ adds) ∧
      s'.history = s.history ++ adds.map .added := by
  induction hRun generalizing items with
  | nil s =>
      exact ⟨[], by simpa using hCarries, by simp⟩
  | cons hStep _ ih =>
      rcases clientStep_carries hCarries hStep with
        ⟨first, hFirst, hHistory, _⟩
      rcases ih hFirst with ⟨more, hMore, hHistory'⟩
      refine ⟨first ++ more, ?_, ?_⟩
      · rw [← List.append_assoc]
        exact hMore
      · rw [hHistory', hHistory, List.map_append,
          List.append_assoc]

end Clients

--------------------
-- Serving
--------------------

/- What a callback does to the queue is what clients do. -/
def CallbacksAdd
    (callbacks : Addr → Addr → RequestState W →
      RequestState W) : Prop :=
  ∀ callback p s,
    ∃ calls, Run clientStep s calls (callbacks callback p s)

variable {p : Addr}

section Serving

variable {devices : Addr → FlushDevice W}
variable {callbacks : Addr → Addr → RequestState W →
  RequestState W}
variable {s s' : RequestState W}
variable {items : List RequestItem}

@[simp] theorem performBio_history
    (devices : Addr → FlushDevice W)
    (s : RequestState W)
    (p : Addr) :
    (performBio devices s p).history =
      s.history ++ [.performed (s.item p)] := rfl

/- A bio that is not in the queue is performed. -/
theorem RequestState.Carries.perform
    (devices : Addr → FlushDevice W)
    (hCarries : s.Carries items)
    (hOut : p ∉ items.map RequestItem.bio) :
    (performBio devices s p).Carries items := by
  refine hCarries.congr rfl ?_
  intro item hItem
  have hNe : item.bio ≠ p := by
    rintro rfl
    exact hOut (List.mem_map_of_mem hItem)
  simp only [performBio]
  rw [RequestState.bios_modifyBio, if_neg hNe]
  rfl

theorem serveRequest_carries
    (hCallbacks : CallbacksAdd callbacks)
    (hCarries : s.Carries items)
    (hOut : p ∉ items.map RequestItem.bio) :
    ∃ x : ServedRequest, x.item = s.item p ∧
      (serveRequest devices callbacks s p).Carries
        (items ++ x.adds) ∧
      (serveRequest devices callbacks s p).history =
        s.history ++ x.events := by
  have hKept := hCarries.perform devices hOut
  cases hCallback : (s.item p).callback with
  | none =>
      refine ⟨⟨s.item p, [], fun _ => rfl⟩, rfl, ?_, ?_⟩
      · simpa [serveRequest, hCallback] using hKept
      · simp [serveRequest, hCallback, ServedRequest.events]
  | some callback =>
      let before :=
        (performBio devices s p).record (.called (s.item p))
      have hServe :
          serveRequest devices callbacks s p =
            callbacks callback p before := by
        simp only [serveRequest, hCallback]
        rfl
      have hBefore : before.Carries items :=
        hKept.congr rfl fun _ _ => rfl
      rcases hCallbacks callback p before with ⟨calls, hRun⟩
      rcases clientRun_carries hBefore hRun with
        ⟨adds, hAdds, hHistory⟩
      refine ⟨⟨s.item p, adds, ?_⟩, rfl, ?_, ?_⟩
      · rw [hCallback]
        exact fun h => (nomatch h)
      · rw [hServe]
        exact hAdds
      · rw [hServe, hHistory, RequestState.history_record,
          performBio_history]
        simp [ServedRequest.events, hCallback]

/-
  The loop ends with an empty queue, and has served the bios
  that waited and those that were added on the way.
-/
theorem processRequests_serves
    {fuel : Nat}
    (hCallbacks : CallbacksAdd callbacks)
    (hCarries : s.Carries items)
    (hProcess :
      processRequests devices callbacks fuel s = some s') :
    s'.Carries [] ∧
      ∃ events, s'.history = s.history ++ events ∧
        Serves items events := by
  induction fuel generalizing s items with
  | zero => simp [processRequests] at hProcess
  | succ fuel ih =>
      cases items with
      | nil =>
          have hHead : s.queue.head = none :=
            hCarries.holds.links.1
          simp only [processRequests, hHead,
            Option.some.injEq] at hProcess
          subst hProcess
          exact ⟨hCarries, [], by simp, [], by simp, by simp⟩
      | cons item items =>
          have hHead : s.queue.head = some item.bio :=
            hCarries.holds.links.1
          have hOut :=
            (List.nodup_cons.mp hCarries.holds.nodup).1
          have hItem := hCarries.same item List.mem_cons_self
          rcases hCarries.get_cons with
            ⟨taken, hGet, hTaken, hTake⟩
          simp only [processRequests, hHead, hGet] at hProcess
          rcases serveRequest_carries hCallbacks hTaken hOut with
            ⟨x, hx, hServed, hHistory⟩
          rw [hTake.item, hItem] at hx
          rcases ih hServed hProcess with
            ⟨hEmpty, events, hRest, served, rfl, hOrder⟩
          refine ⟨hEmpty, _, ?_, x :: served, rfl, ?_⟩
          · rw [hRest, hHistory, hTake.history,
              List.append_assoc]
            rfl
          · rw [List.map_cons, hOrder, hx]
            simp

end Serving

--------------------
-- Runs
--------------------

section Runs

variable {devices : Addr → FlushDevice W}
variable {callbacks : Addr → Addr → RequestState W →
  RequestState W}
variable {s s₀ s' : RequestState W}
variable {items : List RequestItem}

/- What `init_request_queue` leaves. -/
def RequestState.Started (s : RequestState W) : Prop :=
  ∃ s₀ maxPending, s = initRequestQueue s₀ maxPending

theorem RequestState.Started.carries
    (hStart : s.Started) :
    s.Carries [] := by
  rcases hStart with ⟨s₀, maxPending, rfl⟩
  exact ⟨⟨⟨rfl, rfl⟩, List.nodup_nil⟩,
    fun _ h => absurd h List.not_mem_nil, rfl⟩

/- Every call does to the list what it does to a queue. -/
theorem requestStep_fifo
    {call : RequestCall}
    (hCallbacks : CallbacksAdd callbacks)
    (hCarries : s.Carries items)
    (hStep : requestStep devices callbacks s call s') :
    ∃ items', fifoStep items call items' ∧ s'.Carries items' := by
  cases call with
  | client call =>
      rcases clientStep_carries hCarries hStep with
        ⟨adds, hAdds, _, hFifo⟩
      exact ⟨items ++ adds, hFifo, hAdds⟩
  | get answer =>
      rcases hStep with ⟨hGet, hAnswer⟩
      cases items with
      | nil =>
          rw [hCarries.get_nil] at hGet
          injection hGet with hNone hSame
          subst hSame
          refine ⟨[], ⟨?_, rfl⟩, hCarries⟩
          exact Option.map_eq_none_iff.mp hNone.symm
      | cons item items =>
          rcases hCarries.get_cons with
            ⟨taken, hTaken, hRest, _⟩
          rw [hTaken] at hGet
          injection hGet with hSome hSame
          subst hSame
          rcases Option.map_eq_some_iff.mp hSome.symm with
            ⟨other, rfl, hBio⟩
          refine ⟨items, ⟨?_, rfl⟩, hRest⟩
          rw [hAnswer other rfl, hBio,
            hCarries.same item List.mem_cons_self]
          rfl
  | process events =>
      rcases hStep with ⟨hHistory, fuel, hProcess⟩
      rcases processRequests_serves hCallbacks hCarries
        hProcess with ⟨hEmpty, events', hHistory', hServes⟩
      rw [hHistory'] at hHistory
      rw [List.append_cancel_left hHistory] at hServes
      exact ⟨[], ⟨hServes, rfl⟩, hEmpty⟩

/-
  Every run of the queue is a run of a first-in first-out
  queue with the same answers and the same bios served; the
  links hold its content in both directions, and `pending`
  is its length modulo 2^32.
-/
theorem requestRun_refines_fifo
    {calls : List RequestCall}
    (hCallbacks : CallbacksAdd callbacks)
    (hStart : s₀.Started)
    (hRun : Run (requestStep devices callbacks) s₀ calls s) :
    ∃ items, Run fifoStep [] calls items ∧ s.Carries items := by
  have hCarries := hStart.carries
  generalize ([] : List RequestItem) = items at hCarries
  clear hStart
  induction hRun generalizing items with
  | nil s => exact ⟨items, .nil items, hCarries⟩
  | cons hStep _ ih =>
      rcases requestStep_fifo hCallbacks hCarries hStep with
        ⟨items', hFifo, hCarries'⟩
      rcases ih items' hCarries' with ⟨final, hRest, hFinal⟩
      exact ⟨final, .cons hFifo hRest, hFinal⟩

end Runs

/- A device without operations. -/
def idleDevice : Addr → FlushDevice Unit :=
  fun _ =>
    { privateData := none, read := none, write := none
      flush := none }

/- The bios of an array of bio_t. -/
def bioAt (i : Nat) : Addr :=
  BitVec.ofNat 64 (72 * (i + 1))

/- A callback that adds a bio when no other waits. -/
def refillCallback
    (_ _ : Addr)
    (s : RequestState Unit) :
    RequestState Unit :=
  if s.queue.head = none then addRequest s (some (bioAt 2)) else s

theorem refillCallback_adds :
    CallbacksAdd refillCallback := by
  intro _ _ s
  unfold refillCallback
  by_cases hEmpty : s.queue.head = none
  · rw [if_pos hEmpty]
    refine ⟨[.add (some (s.item (bioAt 2)))],
      .cons ⟨?_, rfl, rfl⟩ (.nil _)⟩
    rintro ⟨cells, hHolds, hMem⟩
    cases cells with
    | nil => cases hMem
    | cons p cells =>
        have hHead : s.queue.head = some p := hHolds.links.1
        rw [hEmpty] at hHead
        cases hHead
  · rw [if_neg hEmpty]
    exact ⟨[], .nil s⟩

/- Bios that ask for nothing; the second has a callback. -/
def requestBoot : RequestState Unit where
  queue := ⟨none, none, 0#32, 0#32⟩
  bios p :=
    ⟨none, none, none, 0#64, 0#32, 0#32, none, 0,
      if p = bioAt 1 then some 0x5000 else none⟩
  world := ()
  history := []

/- An empty queue. -/
def emptyQueue : RequestState Unit :=
  initRequestQueue requestBoot 8#32

theorem emptyQueue_started : emptyQueue.Started :=
  ⟨requestBoot, 8#32, rfl⟩

/- A bio that is not in the queue can be added. -/
theorem RequestState.Carries.adds
    {s : RequestState W}
    {items : List RequestItem}
    (devices : Addr → FlushDevice W)
    (callbacks : Addr → Addr → RequestState W →
      RequestState W)
    (hCarries : s.Carries items)
    (hOut : p ∉ items.map RequestItem.bio) :
    requestStep devices callbacks s
        (.client (.add (some (s.item p))))
        (addRequest s (some p)) ∧
      (addRequest s (some p)).Carries (items ++ [s.item p]) := by
  refine ⟨⟨?_, rfl, rfl⟩, hCarries.add hOut⟩
  rw [hCarries.holds.queued_iff]
  exact hOut

def bioItem (i : Nat) : RequestItem :=
  emptyQueue.item (bioAt i)

/-
  Of two bios the first is taken; the second has a callback,
  which adds a third. The first is added once more.
-/
def refillCalls : List RequestCall :=
  [.client (.add (some (bioItem 0))),
    .client (.add (some (bioItem 1))),
    .get (some (bioItem 0)),
    .process
      [.performed (bioItem 1), .called (bioItem 1),
        .added (bioItem 2), .performed (bioItem 2)],
    .client (.add (some (bioItem 0)))]

/- Two bios are added and one is taken. -/
def takenQueue : RequestState Unit :=
  (getRequest
    (addRequest (addRequest emptyQueue (some (bioAt 0)))
      (some (bioAt 1)))).2

theorem requestRun_refines_fifo_refill :
    ∃ s items,
      Run (requestStep idleDevice refillCallback) emptyQueue
          refillCalls s ∧
        Run fifoStep [] refillCalls items ∧ s.Carries items := by
  rcases emptyQueue_started.carries.adds idleDevice
      refillCallback (p := bioAt 0) List.not_mem_nil with
    ⟨hFirst, hOne⟩
  rcases hOne.adds idleDevice refillCallback (p := bioAt 1)
      (List.mem_singleton.not.mpr (by decide)) with
    ⟨hSecond, hTwo⟩
  have hGet :
      requestStep idleDevice refillCallback
        (addRequest
          (addRequest emptyQueue (some (bioAt 0)))
          (some (bioAt 1)))
        (.get (some (bioItem 0))) takenQueue :=
    ⟨rfl, by rintro item ⟨⟩; rfl⟩
  rcases requestStep_fifo refillCallback_adds hTwo hGet with
    ⟨_, ⟨_, rfl⟩, hTaken⟩
  have hEnd :
      (processRequests idleDevice refillCallback 3
        takenQueue).map
          (fun s => (s.history, s.item (bioAt 0))) =
        some
          (takenQueue.history ++
            [.performed (bioItem 1), .called (bioItem 1),
              .added (bioItem 2), .performed (bioItem 2)],
            bioItem 0) :=
    rfl
  rcases Option.map_eq_some_iff.mp hEnd with
    ⟨s, hProcess, hFacts⟩
  rcases Prod.mk.inj hFacts with ⟨hHistory, hItem⟩
  have hServed :
      requestStep idleDevice refillCallback _
        (.process
          [.performed (bioItem 1), .called (bioItem 1),
            .added (bioItem 2), .performed (bioItem 2)]) s :=
    ⟨hHistory, 3, hProcess⟩
  rcases requestStep_fifo refillCallback_adds hTaken hServed with
    ⟨_, ⟨_, rfl⟩, hNone⟩
  rcases hNone.adds idleDevice refillCallback (p := bioAt 0)
      List.not_mem_nil with
    ⟨hAgain, _⟩
  rw [hItem] at hAgain
  have hRun :
      Run (requestStep idleDevice refillCallback) emptyQueue
        refillCalls (addRequest s (some (bioAt 0))) :=
    .cons hFirst (.cons hSecond (.cons hGet
      (.cons hServed (.cons hAgain (.nil _)))))
  rcases requestRun_refines_fifo refillCallback_adds
      emptyQueue_started hRun with
    ⟨items, hItems, hCarries⟩
  exact ⟨_, items, hRun, hItems, hCarries⟩

theorem toNat_bioAt
    {i : Nat}
    (hi : i < 2 ^ 32) :
    (bioAt i).toNat = 72 * (i + 1) := by
  rw [bioAt, BitVec.toNat_ofNat]
  apply Nat.mod_eq_of_lt
  omega

theorem bioAt_injective
    {i j : Nat}
    (hi : i < 2 ^ 32)
    (hj : j < 2 ^ 32)
    (hEq : bioAt i = bioAt j) :
    i = j := by
  have hNat := toNat_bioAt hi
  rw [hEq, toNat_bioAt hj] at hNat
  omega

/- As many bios as there are 32-bit numbers are added. -/
theorem requestRun_adds
    (n : Nat)
    (hn : n ≤ 2 ^ 32) :
    ∃ calls s items,
      Run (requestStep idleDevice refillCallback) emptyQueue
          calls s ∧
        s.Carries items ∧
        items.map RequestItem.bio = (List.range n).map bioAt := by
  induction n with
  | zero =>
      exact ⟨[], emptyQueue, [], .nil _,
        emptyQueue_started.carries, rfl⟩
  | succ n ih =>
      rcases ih (by omega) with
        ⟨calls, s, items, hRun, hCarries, hItems⟩
      have hOut : bioAt n ∉ items.map RequestItem.bio := by
        rw [hItems]
        intro hMem
        rcases List.mem_map.mp hMem with ⟨i, hi, hEq⟩
        have hLt := List.mem_range.mp hi
        have hSame :=
          bioAt_injective (by omega) (by omega) hEq
        omega
      rcases hCarries.adds idleDevice refillCallback hOut with
        ⟨hStep, hMore⟩
      refine ⟨_, _, _, hRun.snoc hStep, hMore, ?_⟩
      rw [List.map_append, hItems, List.range_succ,
        List.map_append]
      rfl

/- With 2^32 bios in the queue `pending` is 0. -/
theorem requestQueue_pending_wraps :
    ¬ ∀ (s₀ s : RequestState Unit) (calls : List RequestCall)
        (cells : List Addr),
      s₀.Started →
        Run (requestStep idleDevice refillCallback) s₀ calls s →
          s.Holds cells →
            s.queue.pending.toNat = cells.length := by
  intro hAll
  rcases requestRun_adds (2 ^ 32) (Nat.le_refl _) with
    ⟨calls, s, items, hRun, hCarries, hItems⟩
  have hLength : items.length = 2 ^ 32 := by
    have hEq := congrArg List.length hItems
    simpa using hEq
  have hCount := hAll emptyQueue s calls _ emptyQueue_started
    hRun hCarries.holds
  rw [hCarries.pending, List.length_map, hLength] at hCount
  simp at hCount

end FeatherOS
