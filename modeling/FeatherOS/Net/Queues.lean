import FeatherOS.Library.BoundedFifo
import FeatherOS.Library.DoublyLinked
import FeatherOS.Library.Run
import FeatherOS.Net.Arp

/-
  The receive queue and the transmit queue.

  Both queues link the buffers through the same two fields, so
  a buffer can be in one of them only. Polling takes a queue
  apart until it is empty. The locks around the operations are
  left out: each of them is one step here.

  Key definitions include:
    * `NetQueues`
    * `netEnqueue`
    * `netDequeue`
    * `netRxPoll`
    * `netTxPoll`
    * `Traffic`
    * `HoldsTraffic`

  Key theorems include:
    * `netPoll_spec`
    * `net_queues_fifo`
    * `net_rx_poll_rebinds`
-/

namespace FeatherOS

--------------------
-- State
--------------------

inductive NetQueue where
  | rx
  | tx
  deriving DecidableEq

def netRxQueueSize : Nat := 256
def netTxQueueSize : Nat := 256

def NetQueue.size : NetQueue → Nat
  | .rx => netRxQueueSize
  | .tx => netTxQueueSize

/- The head, the tail and the length of a queue -/
structure PacketQueue where
  head : Option Addr
  tail : Option Addr
  len : Int

/- The queues, and the links that they share -/
structure NetQueues where
  link : LinkState
  queueNext : Addr → Option Addr
  queuePrev : Addr → Option Addr
  queue : NetQueue → PacketQueue

def NetQueues.modifySkb
    (s : NetQueues)
    (f : SkbState → SkbState) :
    NetQueues :=
  { s with link := { s.link with skb := f s.link.skb } }

--------------------
-- Operations
--------------------

def netQueueInit
    (q : NetQueue)
    (s : NetQueues) :
    NetQueues :=
  { s with queue := Function.update s.queue q ⟨none, none, 0⟩ }

def netRxQueueInit : NetQueues → NetQueues := netQueueInit .rx
def netTxQueueInit : NetQueues → NetQueues := netQueueInit .tx

def netEnqueue
    (q : NetQueue)
    (s : NetQueues)
    (skb : Option Addr) :
    Int × NetQueues :=
  match skb with
  | none => (-1, s)
  | some p =>
      let old := s.queue q
      if (q.size : Int) ≤ old.len then
        (-1, s.modifySkb fun skb => skbFree skb (some p))
      else
        (0,
          { s with
            queueNext :=
              writeIf (Function.update s.queueNext p none)
                old.tail (some p)
            queuePrev := Function.update s.queuePrev p old.tail
            queue :=
              Function.update s.queue q
                { head :=
                    if old.tail = none then some p else old.head
                  tail := some p
                  len := old.len + 1 } })

def netRxEnqueue : NetQueues → Option Addr → Int × NetQueues :=
  netEnqueue .rx

def netTxEnqueue : NetQueues → Option Addr → Int × NetQueues :=
  netEnqueue .tx

def netDequeue
    (q : NetQueue)
    (s : NetQueues) :
    Option Addr × NetQueues :=
  let old := s.queue q
  match old.head with
  | none => (none, s)
  | some p =>
      let head := s.queueNext p
      (some p,
        { s with
          queuePrev := writeIf s.queuePrev head none
          queue :=
            Function.update s.queue q
              { head := head
                tail := if head = none then none else old.tail
                len := old.len - 1 } })

def netRxDequeue : NetQueues → Option Addr × NetQueues :=
  netDequeue .rx

def netTxDequeue : NetQueues → Option Addr × NetQueues :=
  netDequeue .tx

/-
  The loop of both polls, from its turn `n` on. It does not
  end within `fuel` turns where it answers `none`.
-/
def netPoll
    (q : NetQueue)
    (handle : Nat → LinkState → Addr → LinkState)
    (n : Nat) :
    Nat → NetQueues → Option NetQueues
  | 0, _ => none
  | fuel + 1, s =>
      match netDequeue q s with
      | (none, s) => some s
      | (some p, s) =>
          netPoll q handle (n + 1) fuel
            { s with link := handle n s.link p }

/- The answer of `eth_rx` is not looked at. -/
def rxHandle
    (uptime : Nat → U64)
    (n : Nat)
    (s : LinkState)
    (p : Addr) :
    LinkState :=
  (ethRx (uptime n) s (some p)).2

/- The answer of the device is not looked at. -/
def txHandle
    (devices : NetDevices)
    (_ : Nat)
    (s : LinkState)
    (p : Addr) :
    LinkState :=
  match (s.skb.skbs p).dev with
  | none => { s with skb := skbFree s.skb (some p) }
  | some dev =>
      match (devices.device dev).tx with
      | none => { s with skb := skbFree s.skb (some p) }
      | some _ =>
          { s with skb := { s.skb with handed := s.skb.handed ++ [p] } }

/- `uptime n` is what the clock says in the turn `n`. -/
def netRxPoll (uptime : Nat → U64) : Nat → NetQueues → Option NetQueues :=
  netPoll .rx (rxHandle uptime) 0

def netTxPoll
    (devices : NetDevices) :
    Nat → NetQueues → Option NetQueues :=
  netPoll .tx (txHandle devices) 0

--------------------
-- Calls
--------------------

/- The buffer is linked into one of the queues. -/
def NetQueues.Queued
    (s : NetQueues)
    (p : Addr) : Prop :=
  ∃ q ps, Chain s.queueNext (s.queue q).head ps ∧ p ∈ ps

/- A call with its answer -/
inductive PacketCall where
  | enqueue (q : NetQueue) (skb : Option Addr) (ret : Int)
  | dequeue (q : NetQueue) (skb : Option Addr)
  | rxPoll (uptime : Nat → U64)
  | txPoll (devices : NetDevices)
  | other

/-
  The rest of the kernel may do anything but change the queues
  or the links of the buffers in them.
-/
def packetStep
    (s : NetQueues)
    (call : PacketCall)
    (t : NetQueues) : Prop :=
  match call with
  | .enqueue q skb ret => netEnqueue q s skb = (ret, t)
  | .dequeue q skb => netDequeue q s = (skb, t)
  | .rxPoll uptime => ∃ fuel, netRxPoll uptime fuel s = some t
  | .txPoll devices => ∃ fuel, netTxPoll devices fuel s = some t
  | .other =>
      t.queue = s.queue ∧
        ∀ p, s.Queued p →
          t.queueNext p = s.queueNext p ∧
            t.queuePrev p = s.queuePrev p

/- What is put into a queue is in none yet. -/
def PacketCall.Ok
    (s : NetQueues) :
    PacketCall → Prop
  | .enqueue _ (some p) _ => ¬ s.Queued p
  | _ => True

--------------------
-- Two Queues of Packets
--------------------

/- What the network stack means by its queues -/
structure Traffic where
  link : LinkState
  fifo : (q : NetQueue) → BoundedFifo Addr q.size

def Traffic.quiet (link : LinkState) : Traffic where
  link := link
  fifo := fun _ => .empty

/- The packets are handled one after the other. -/
def handleAll
    (handle : Nat → LinkState → Addr → LinkState) :
    Nat → List Addr → LinkState → LinkState
  | _, [], s => s
  | n, p :: ps, s => handleAll handle (n + 1) ps (handle n s p)

def Traffic.enqueue
    (T : Traffic)
    (q : NetQueue)
    (p : Addr) :
    Int × Traffic :=
  if hRoom : (T.fifo q).waiting.length < q.size then
    (0,
      { T with
        fifo :=
          Function.update T.fifo q ((T.fifo q).push p hRoom) })
  else
    (-1,
      { T with
        link :=
          { T.link with skb := skbFree T.link.skb (some p) } })

def Traffic.dequeue
    (T : Traffic)
    (q : NetQueue) :
    Option Addr × Traffic :=
  ((T.fifo q).waiting.head?,
    { T with fifo := Function.update T.fifo q ((T.fifo q).pop 1) })

/- Everything that waits is handled from the turn `n` on. -/
def Traffic.poll
    (T : Traffic)
    (q : NetQueue)
    (handle : Nat → LinkState → Addr → LinkState)
    (n : Nat) :
    Traffic where
  link := handleAll handle n (T.fifo q).waiting T.link
  fifo := Function.update T.fifo q (T.fifo q).drain

def queuesStep
    (T : Traffic)
    (call : PacketCall)
    (T' : Traffic) : Prop :=
  match call with
  | .enqueue _ none ret => ret = -1 ∧ T' = T
  | .enqueue q (some p) ret => T.enqueue q p = (ret, T')
  | .dequeue q skb => T.dequeue q = (skb, T')
  | .rxPoll uptime => T' = T.poll .rx (rxHandle uptime) 0
  | .txPoll devices => T' = T.poll .tx (txHandle devices) 0
  | .other => T'.fifo = T.fifo

/- A queue whose records carry the packets that wait -/
structure HoldsQueue
    (next prev : Addr → Option Addr)
    (queue : PacketQueue)
    (waiting : List Addr) : Prop where
  list : Segment next prev none queue.head waiting queue.tail none
  len : queue.len = waiting.length
  nodup : waiting.Nodup

structure HoldsTraffic
    (s : NetQueues)
    (T : Traffic) : Prop where
  link : s.link = T.link
  queues : ∀ q,
    HoldsQueue s.queueNext s.queuePrev (s.queue q)
      (T.fifo q).waiting
  apart : ∀ q r, q ≠ r → ∀ p ∈ (T.fifo q).waiting,
    p ∉ (T.fifo r).waiting

/- Only the links of what waits matter. -/
theorem HoldsQueue.congr
    {next next' prev prev' : Addr → Option Addr}
    {queue : PacketQueue}
    {waiting : List Addr}
    (hQueue : HoldsQueue next prev queue waiting)
    (hKept : ∀ p ∈ waiting, next' p = next p ∧ prev' p = prev p) :
    HoldsQueue next' prev' queue waiting where
  list := hQueue.list.congr (fun p hp => (hKept p hp).1)
    (fun p hp => (hKept p hp).2)
  len := hQueue.len
  nodup := hQueue.nodup

namespace HoldsTraffic

variable {s t : NetQueues}
variable {T : Traffic}
variable {q : NetQueue}
variable {p : Addr}

/- What waits is what is linked. -/
theorem queued_iff
    (hHolds : HoldsTraffic s T)
    (p : Addr) :
    s.Queued p ↔ ∃ q, p ∈ (T.fifo q).waiting := by
  constructor
  · intro hQueued
    rcases hQueued with ⟨q, ps, hChain, hMem⟩
    have hSame := (hHolds.queues q).list.chain.unique hChain
    rw [hSame] at hMem
    exact ⟨q, hMem⟩
  · intro hWaits
    rcases hWaits with ⟨q, hMem⟩
    exact ⟨q, _, (hHolds.queues q).list.chain, hMem⟩

theorem not_queued
    (hHolds : HoldsTraffic s T)
    (hOut : p ∉ (T.fifo .rx).waiting ∧ p ∉ (T.fifo .tx).waiting) :
    ¬ s.Queued p := by
  rw [hHolds.queued_iff]
  rintro ⟨q, hMem⟩
  cases q with
  | rx => exact hOut.1 hMem
  | tx => exact hOut.2 hMem

/- The link state is shared by both views. -/
theorem setLink
    (hHolds : HoldsTraffic s T)
    (link : LinkState) :
    HoldsTraffic { s with link := link } { T with link := link } where
  link := rfl
  queues := hHolds.queues
  apart := hHolds.apart

/-
  One queue changes, and the links of what waits in the other
  one stay.
-/
theorem update
    (hHolds : HoldsTraffic s T)
    {fifo : BoundedFifo Addr q.size}
    {next prev : Addr → Option Addr}
    {new : PacketQueue}
    (hNew : HoldsQueue next prev new fifo.waiting)
    (hApart : ∀ r, q ≠ r → ∀ p ∈ fifo.waiting,
      p ∉ (T.fifo r).waiting)
    (hKept : ∀ r, q ≠ r → ∀ p ∈ (T.fifo r).waiting,
      next p = s.queueNext p ∧ prev p = s.queuePrev p) :
    HoldsTraffic
      { s with
        queueNext := next
        queuePrev := prev
        queue := Function.update s.queue q new }
      { T with fifo := Function.update T.fifo q fifo } where
  link := hHolds.link
  queues r := by
    by_cases hSame : q = r
    · subst hSame
      simp only [Function.update_self]
      exact hNew
    · have hOther : r ≠ q := fun h => hSame h.symm
      simp only [Function.update_of_ne hOther]
      exact (hHolds.queues r).congr (hKept r hSame)
  apart r r' hNe p hp := by
    by_cases hFirst : q = r
    · subst hFirst
      simp only [Function.update_self] at hp
      simp only [Function.update_of_ne hNe.symm]
      exact hApart r' hNe p hp
    · have hOther : r ≠ q := fun h => hFirst h.symm
      simp only [Function.update_of_ne hOther] at hp
      by_cases hSecond : q = r'
      · subst hSecond
        simp only [Function.update_self]
        exact fun hMem => hApart r hFirst p hMem hp
      · have hOther' : r' ≠ q := fun h => hSecond h.symm
        simp only [Function.update_of_ne hOther']
        exact hHolds.apart r r' hNe p hp

--------------------
-- One Operation
--------------------

theorem enqueue
    (hHolds : HoldsTraffic s T)
    (q : NetQueue)
    (hOut : ¬ s.Queued p) :
    (netEnqueue q s (some p)).1 = (T.enqueue q p).1 ∧
      HoldsTraffic (netEnqueue q s (some p)).2 (T.enqueue q p).2 := by
  have hNot : ∀ r, p ∉ (T.fifo r).waiting := by
    intro r hMem
    exact hOut ((hHolds.queued_iff p).mpr ⟨r, hMem⟩)
  have hLen := (hHolds.queues q).len
  by_cases hRoom : (T.fifo q).waiting.length < q.size
  · have hFits : ¬ (q.size : Int) ≤ (s.queue q).len := by
      rw [hLen]
      omega
    simp only [netEnqueue, hFits, if_false, Traffic.enqueue, hRoom,
      dif_pos, true_and]
    have hTail := (hHolds.queues q).list.last_eq_getLast?
    have hOld : ∀ r, ∀ a ∈ (T.fifo r).waiting, a ≠ p := by
      intro r a hMem hSame
      exact hNot r (hSame ▸ hMem)
    have hTailIn : ∀ a, (s.queue q).tail = some a →
        a ∈ (T.fifo q).waiting := by
      intro a hTail
      rw [(hHolds.queues q).list.last_eq_getLast?] at hTail
      exact List.mem_of_getLast? hTail
    apply hHolds.update
    · constructor
      · apply Segment.snoc (hNot q) (hHolds.queues q).nodup _ _ _ _
          (hHolds.queues q).list
        · have hNe : (s.queue q).tail ≠ some p :=
            fun hTail => hNot q (hTailIn p hTail)
          rw [writeIf_apply, if_neg hNe, Function.update_self]
        · exact Function.update_self ..
        · intro a hNe
          rw [writeIf_apply, Function.update_of_ne hNe]
        · intro a hNe
          exact Function.update_of_ne hNe ..
      · rw [hLen, BoundedFifo.waiting_push, List.length_append]
        rfl
      · rw [BoundedFifo.waiting_push, List.nodup_append]
        refine ⟨(hHolds.queues q).nodup, List.nodup_singleton p, ?_⟩
        intro a ha b hb hSame
        rw [List.mem_singleton] at hb
        exact hOld q a ha (hSame.trans hb)
    · intro r hNe a ha
      rw [BoundedFifo.waiting_push, List.mem_append,
        List.mem_singleton] at ha
      rcases ha with hMem | hNew
      · exact hHolds.apart q r hNe a hMem
      · rw [hNew]
        exact hNot r
    · intro r hNe a ha
      have hNotTail : (s.queue q).tail ≠ some a :=
        fun hTail => hHolds.apart q r hNe a (hTailIn a hTail) ha
      rw [writeIf_apply, if_neg hNotTail]
      exact ⟨Function.update_of_ne (hOld r a ha) ..,
        Function.update_of_ne (hOld r a ha) ..⟩
  · have hFull : (q.size : Int) ≤ (s.queue q).len := by
      rw [hLen]
      omega
    simp only [netEnqueue, hFull, if_true, Traffic.enqueue, hRoom,
      dif_neg, not_false_eq_true, true_and]
    rw [← hHolds.link]
    exact hHolds.setLink _

theorem dequeue
    (hHolds : HoldsTraffic s T)
    (q : NetQueue) :
    (netDequeue q s).1 = (T.dequeue q).1 ∧
      HoldsTraffic (netDequeue q s).2 (T.dequeue q).2 := by
  have hList := (hHolds.queues q).list
  have hLen := (hHolds.queues q).len
  have hHead := hList.chain.head_eq
  cases hWaiting : (T.fifo q).waiting with
  | nil =>
      have hNone : (s.queue q).head = none := by
        rw [hHead, hWaiting]
        rfl
      have hSame :
          Function.update T.fifo q ((T.fifo q).pop 1) = T.fifo := by
        rw [Function.update_eq_self_iff]
        apply BoundedFifo.ext_lists
        · simp [BoundedFifo.pop, hWaiting]
        · simp [hWaiting]
      simp only [netDequeue, hNone, Traffic.dequeue, hWaiting,
        List.head?_nil, true_and, hSame]
      exact hHolds
  | cons p ps =>
      have hSome : (s.queue q).head = some p := by
        rw [hHead, hWaiting]
        rfl
      have hNodup := (hHolds.queues q).nodup
      have hPop : ((T.fifo q).pop 1).waiting = ps := by
        rw [BoundedFifo.waiting_pop, hWaiting]
        rfl
      rw [hWaiting] at hList hNodup hLen
      simp only [netDequeue, hSome, Traffic.dequeue, hWaiting,
        List.head?_cons, true_and]
      apply hHolds.update
      · rw [hPop]
        constructor
        · apply hList.removeFirst hNodup
          · intro a _
            rfl
          · intro a _
            exact writeIf_apply ..
        · simp [hLen]
        · exact (List.nodup_cons.mp hNodup).2
      · intro r hNe a ha
        apply hHolds.apart q r hNe
        rw [hPop] at ha
        rw [hWaiting]
        exact List.mem_cons_of_mem p ha
      · intro r hNe a ha
        have hNotNext : s.queueNext p ≠ some a := by
          intro hNext
          have hMem := hList.mem_of_next List.mem_cons_self hNext
          rw [← hWaiting] at hMem
          exact hHolds.apart q r hNe a hMem ha
        rw [writeIf_apply, if_neg hNotNext]
        exact ⟨rfl, rfl⟩

end HoldsTraffic

--------------------
-- Polling
--------------------

section Polling

variable {s t : NetQueues}
variable {T : Traffic}
variable {q : NetQueue}
variable {handle : Nat → LinkState → Addr → LinkState}

/- Nothing waits. -/
theorem Traffic.poll_nil
    (hWaiting : (T.fifo q).waiting = [])
    (n : Nat) :
    (T.dequeue q).2 = T.poll q handle n := by
  have hNone : (T.fifo q).pop 1 = (T.fifo q).drain := by
    apply BoundedFifo.ext_lists
    · simp [BoundedFifo.drain, BoundedFifo.pop, hWaiting]
    · simp [hWaiting]
  simp only [Traffic.dequeue, Traffic.poll, hWaiting, handleAll,
    hNone]

/- The first packet is handled, and then the others. -/
theorem Traffic.poll_cons
    {p : Addr}
    {ps : List Addr}
    (hWaiting : (T.fifo q).waiting = p :: ps)
    (n : Nat) :
    ({ (T.dequeue q).2 with
        link := handle n (T.dequeue q).2.link p } : Traffic).poll q
          handle (n + 1) =
      T.poll q handle n := by
  have hRest : ((T.fifo q).pop 1).waiting = ps := by
    rw [BoundedFifo.waiting_pop, hWaiting]
    rfl
  simp only [Traffic.dequeue, Traffic.poll, Function.update_self,
    Function.update_idem, BoundedFifo.drain_pop, hRest, hWaiting,
    handleAll]

/- Polling ends as soon as there are turns for all that wait. -/
theorem netPoll_spec
    (q : NetQueue)
    (handle : Nat → LinkState → Addr → LinkState)
    (fuel n : Nat)
    (hHolds : HoldsTraffic s T) :
    (fuel ≤ (T.fifo q).waiting.length ∧
        netPoll q handle n fuel s = none) ∨
      ((T.fifo q).waiting.length < fuel ∧
        ∃ t, netPoll q handle n fuel s = some t ∧
          HoldsTraffic t (T.poll q handle n)) := by
  induction fuel generalizing n s T with
  | zero => exact .inl ⟨Nat.zero_le _, rfl⟩
  | succ fuel ih =>
      rcases hHolds.dequeue q with ⟨hFirst, hNext⟩
      unfold netPoll
      generalize netDequeue q s = taken at hFirst hNext
      rcases taken with ⟨skb, s'⟩
      simp only at hFirst hNext
      cases hWaiting : (T.fifo q).waiting with
      | nil =>
          have hNone : skb = none := by
            simpa [Traffic.dequeue, hWaiting] using hFirst
          right
          refine ⟨Nat.succ_pos fuel, s', ?_, ?_⟩
          · rw [hNone]
          · rw [← Traffic.poll_nil hWaiting]
            exact hNext
      | cons p ps =>
          have hSome : skb = some p := by
            simpa [Traffic.dequeue, hWaiting] using hFirst
          have hRest : ((T.dequeue q).2.fifo q).waiting = ps := by
            simp [Traffic.dequeue, hWaiting]
          have hLink := hNext.setLink (handle n s'.link p)
          rw [hSome]
          simp only
          rcases ih (n + 1) hLink with
            ⟨hLittle, hNone⟩ | ⟨hEnough, t, hPoll, hEnd⟩
          · left
            rw [hRest] at hLittle
            exact ⟨Nat.succ_le_succ hLittle, hNone⟩
          · right
            rw [hRest] at hEnough
            refine ⟨Nat.succ_lt_succ hEnough, t, hPoll, ?_⟩
            rw [← Traffic.poll_cons hWaiting, ← hNext.link]
            exact hEnd

theorem netPoll_holds
    {fuel n : Nat}
    (hHolds : HoldsTraffic s T)
    (hPoll : netPoll q handle n fuel s = some t) :
    HoldsTraffic t (T.poll q handle n) := by
  rcases netPoll_spec q handle fuel n hHolds with
    ⟨_, hNone⟩ | ⟨_, t', hSome, hEnd⟩
  · rw [hNone] at hPoll
    cases hPoll
  · rw [hSome] at hPoll
    cases hPoll
    exact hEnd

end Polling

--------------------
-- Runs
--------------------

variable {s t : NetQueues}
variable {T : Traffic}

/- Whatever else happens leaves the queues as they are. -/
theorem HoldsTraffic.other
    (hHolds : HoldsTraffic s T)
    (hQueue : t.queue = s.queue)
    (hLinks : ∀ p, s.Queued p →
      t.queueNext p = s.queueNext p ∧
        t.queuePrev p = s.queuePrev p) :
    HoldsTraffic t { T with link := t.link } where
  link := rfl
  queues q := by
    rw [hQueue]
    apply (hHolds.queues q).congr
    intro p hMem
    exact hLinks p ((hHolds.queued_iff p).mpr ⟨q, hMem⟩)
  apart := hHolds.apart

/- A call does to the records what it means for the packets. -/
theorem packetStep_holds
    {call : PacketCall}
    (hHolds : HoldsTraffic s T)
    (hStep : Guarded PacketCall.Ok packetStep s call t) :
    ∃ T', queuesStep T call T' ∧ HoldsTraffic t T' := by
  rcases hStep with ⟨hOk, hStep⟩
  cases call with
  | enqueue q skb ret =>
      cases skb with
      | none =>
          cases hStep
          exact ⟨T, ⟨rfl, rfl⟩, hHolds⟩
      | some p =>
          have hBoth := hHolds.enqueue q hOk
          rw [show netEnqueue q s (some p) = (ret, t) from hStep]
            at hBoth
          exact ⟨_, Prod.ext hBoth.1.symm rfl, hBoth.2⟩
  | dequeue q skb =>
      have hBoth := hHolds.dequeue q
      rw [show netDequeue q s = (skb, t) from hStep] at hBoth
      exact ⟨_, Prod.ext hBoth.1.symm rfl, hBoth.2⟩
  | rxPoll uptime =>
      rcases hStep with ⟨fuel, hPoll⟩
      exact ⟨_, rfl, netPoll_holds hHolds hPoll⟩
  | txPoll devices =>
      rcases hStep with ⟨fuel, hPoll⟩
      exact ⟨_, rfl, netPoll_holds hHolds hPoll⟩
  | other =>
      exact ⟨{ T with link := t.link }, rfl,
        hHolds.other hStep.1 hStep.2⟩

/- Both queues after they were initialized -/
theorem holdsTraffic_init
    (s : NetQueues) :
    HoldsTraffic (netTxQueueInit (netRxQueueInit s))
      (.quiet s.link) := by
  have hQueue : ∀ q,
      (netTxQueueInit (netRxQueueInit s)).queue q =
        ⟨none, none, 0⟩ := by
    intro q
    cases q with
    | rx => rfl
    | tx => simp [netTxQueueInit, netQueueInit]
  constructor
  · rfl
  · intro q
    rw [hQueue]
    exact ⟨⟨rfl, rfl⟩, rfl, List.nodup_nil⟩
  · intro q r _ p hMem
    cases hMem

theorem packetRun_holds
    {calls : List PacketCall}
    (hRun : Run (Guarded PacketCall.Ok packetStep)
      (netTxQueueInit (netRxQueueInit s)) calls t) :
    ∃ T, Run queuesStep (.quiet s.link) calls T ∧
      HoldsTraffic t T := by
  refine hRun.simulate HoldsTraffic ?_ (holdsTraffic_init s)
  intro s T call t hHolds hStep
  exact packetStep_holds hHolds hStep

/-
  Every run from empty queues is a run of two bounded queues
  of packets: what arrived is what left and then what waits,
  in this order, at most 256 packets wait, and the counters
  count them. Polling ends.
-/
theorem net_queues_fifo
    (s t : NetQueues)
    (calls : List PacketCall)
    (hRun : Run (Guarded PacketCall.Ok packetStep)
      (netTxQueueInit (netRxQueueInit s)) calls t) :
    (∃ T, Run queuesStep (.quiet s.link) calls T ∧
        HoldsTraffic t T) ∧
      (∀ q, 0 ≤ (t.queue q).len ∧ (t.queue q).len ≤ 256) ∧
      (∀ uptime, ∃ u, netRxPoll uptime 257 t = some u) ∧
      ∀ devices, ∃ u, netTxPoll devices 257 t = some u := by
  rcases packetRun_holds hRun with ⟨T, hTraffic, hHolds⟩
  have hSize : ∀ q : NetQueue, q.size = 256 := by
    intro q
    cases q <;> rfl
  have hFew : ∀ q, (T.fifo q).waiting.length < 257 := by
    intro q
    have hBounded := (T.fifo q).bounded.trans (hSize q).le
    exact Nat.lt_succ_of_le hBounded
  have hEnds : ∀ q handle,
      ∃ u, netPoll q handle 0 257 t = some u := by
    intro q handle
    rcases netPoll_spec q handle 257 0 hHolds
      with ⟨hMany, _⟩ | ⟨_, u, hPoll, _⟩
    · exact absurd (hFew q) (Nat.not_lt.mpr hMany)
    · exact ⟨u, hPoll⟩
  refine ⟨⟨T, hTraffic, hHolds⟩, ?_, ?_, ?_⟩
  · intro q
    have hCount := (hHolds.queues q).len
    have hLess := hFew q
    omega
  · exact fun uptime => hEnds .rx _
  · exact fun devices => hEnds .tx _

def askedIp : Vector U8 4 := #v[10#8, 0#8, 0#8, 1#8]

/- The bytes of a request that claims the address -/
def claim (mac : U8) : List U8 :=
  ethHeader macBroadcast (.replicate 6 mac) ethPArp ++
    arpHeader (.replicate 6 mac) ⟨askedIp⟩

/- Two devices claim an address that is known otherwise. -/
def queuesBooted : NetQueues where
  link :=
    { skb :=
        { skbBooted with
          skbs := fun p =>
            { newSkb (p + 88#64) 152#32 with len := 42#32 }
          memory :=
            (skbBooted.memory.put 0x200098#64 (claim 1#8)).put
              0x200188#64 (claim 2#8) }
      arp := learn 0#64 (some (askedIp, macBroadcast)) arpEmpty }
  queueNext := fun _ => none
  queuePrev := fun _ => none
  queue := fun _ => ⟨none, none, 0⟩

def queueCalls : List PacketCall :=
  [.enqueue .rx (some 0x200000#64) 0,
    .enqueue .tx (some 0x2001E0#64) 0,
    .enqueue .rx (some 0x2000F0#64) 0,
    .dequeue .tx (some 0x2001E0#64)]

def queuesClaimed : NetQueues :=
  let s := netTxQueueInit (netRxQueueInit queuesBooted)
  let s := (netRxEnqueue s (some 0x200000#64)).2
  let s := (netTxEnqueue s (some 0x2001E0#64)).2
  let s := (netRxEnqueue s (some 0x2000F0#64)).2
  (netTxDequeue s).2

theorem queuesClaimed_run :
    Run (Guarded PacketCall.Ok packetStep)
      (netTxQueueInit (netRxQueueInit queuesBooted)) queueCalls
      queuesClaimed := by
  have hNone := holdsTraffic_init queuesBooted
  have hFirst := hNone.not_queued (p := 0x200000#64) (by decide)
  have hOne := (hNone.enqueue .rx hFirst).2
  have hSecond := hOne.not_queued (p := 0x2001E0#64) (by decide)
  have hTwo := (hOne.enqueue .tx hSecond).2
  have hThird := hTwo.not_queued (p := 0x2000F0#64) (by decide)
  exact .cons ⟨hFirst, rfl⟩ (.cons ⟨hSecond, rfl⟩
    (.cons ⟨hThird, rfl⟩ (.cons ⟨trivial, rfl⟩ (.nil _))))

theorem net_queues_fifo_claimed :
    ∃ T, Run queuesStep (.quiet queuesBooted.link) queueCalls T ∧
      HoldsTraffic queuesClaimed T :=
  (net_queues_fifo queuesBooted queuesClaimed _
    queuesClaimed_run).1

--------------------
-- What Polling Learns
--------------------

def ArpState.Full (s : ArpState) : Prop :=
  ∀ e ∈ s.cache.toList, e.valid = true

/- What the messages teach, from the turn `n` on -/
def learnAll
    (uptime : Nat → U64) :
    Nat → List (Option ArpMessage) → ArpState → ArpState
  | _, [], s => s
  | n, message :: messages, s =>
      learnAll uptime (n + 1) messages (learn (uptime n) message s)

/- The address that the last message about `ip` names -/
def believed
    (ip : Vector U8 4)
    (messages : List ArpMessage)
    (mac : MacAddr) :
    MacAddr :=
  messages.foldl
    (fun mac message => if message.1 = ip then message.2 else mac)
    mac

/- A frame that is handled leaves the others alone. -/
theorem packet_rxHandle
    {p q : Addr}
    (hNe : q ≠ p)
    (uptime : Nat → U64)
    (n : Nat)
    (s : LinkState) :
    (rxHandle uptime n s p).skb.packet q = s.skb.packet q := by
  unfold rxHandle
  rw [ethRx_spec]
  simp only [SkbState.packet, skbFree, SkbState.modifySkb,
    Function.update_of_ne hNe]

theorem handleAll_rx
    (uptime : Nat → U64)
    (n : Nat)
    (ps : List Addr)
    (s : LinkState)
    (hNodup : ps.Nodup) :
    let t := handleAll (rxHandle uptime) n ps s
    t.skb.freed = s.skb.freed ++ ps ∧
      t.skb.handed = s.skb.handed ∧
      t.arp =
        learnAll uptime n
          (ps.map fun p => (s.skb.packet p).ethMessage) s.arp := by
  induction ps generalizing n s with
  | nil => exact ⟨(List.append_nil _).symm, rfl, rfl⟩
  | cons p ps ih =>
      rcases List.nodup_cons.mp hNodup with ⟨hOut, hRest⟩
      rcases ih (n + 1) (rxHandle uptime n s p) hRest with
        ⟨hFreed, hHanded, hArp⟩
      have hSame : ∀ q ∈ ps,
          ((rxHandle uptime n s p).skb.packet q).ethMessage =
            (s.skb.packet q).ethMessage := by
        intro q hq
        have hNe : q ≠ p := by
          rintro rfl
          exact hOut hq
        rw [packet_rxHandle hNe]
      rw [List.map_congr_left hSame] at hArp
      have hOne := ethRx_spec (uptime n) s p
      refine ⟨hFreed.trans ?_, hHanded.trans ?_, hArp.trans ?_⟩
      · rw [rxHandle, hOne]
        exact List.append_assoc ..
      · rw [rxHandle, hOne]
        rfl
      · rw [rxHandle, hOne]
        rfl

variable {ip : Vector U8 4}
variable {s : ArpState}

/- A known address has its slot. -/
theorem arpRoom_of_known
    {mac : MacAddr}
    (hKnown : (arpLookup s (some ip)).1 = some mac) :
    ArpRoom s ip := by
  rw [arpLookup_find, Option.map_eq_some_iff,
    KeyedSlots.find] at hKnown
  rcases hKnown with ⟨e, hFind, _⟩
  refine ⟨e, List.mem_of_find?_eq_some hFind, ?_⟩
  intro _
  have hHolds := List.find?_some hFind
  have hKey : e.key = some ip := of_decide_eq_true hHolds
  exact ((e.key_eq_some ip).mp hKey).2

theorem arpLookup_learnAll
    (uptime : Nat → U64)
    (n : Nat)
    (messages : List (Option ArpMessage))
    (s : ArpState)
    (mac : MacAddr)
    (hKnown : (arpLookup s (some ip)).1 = some mac) :
    (arpLookup (learnAll uptime n messages s) (some ip)).1 =
      some (believed ip (messages.filterMap id) mac) := by
  induction messages generalizing n s mac with
  | nil => exact hKnown
  | cons message messages ih =>
      cases message with
      | none => exact ih (n + 1) s mac hKnown
      | some message =>
          rcases message with ⟨about, claimed⟩
          have hFirst :
              (some (about, claimed) :: messages).filterMap id =
                (about, claimed) :: messages.filterMap id :=
            List.filterMap_cons_some rfl
          rw [learnAll, hFirst]
          apply ih
          beta_reduce
          by_cases hAbout : about = ip
          · subst hAbout
            rw [if_pos rfl]
            exact arpLookup_learn (arpRoom_of_known hKnown) ..
          · rw [if_neg hAbout, arpLookup_learn_other
              (fun h => hAbout h.symm)]
            exact hKnown

theorem place_of_full
    (hFull : s.Full)
    (hUnknown : (arpLookup s (some ip)).1 = none) :
    KeyedSlots.place ArpCacheEntry.key ip s.cache.toList =
      none := by
  rw [arpLookup_find, Option.map_eq_none_iff] at hUnknown
  rw [KeyedSlots.place_none_iff]
  intro e hMem
  constructor
  · intro hKey
    exact List.find?_eq_none.mp hUnknown e hMem
      (decide_eq_true hKey)
  · intro hFree
    have hValid := hFull e hMem
    rw [(e.key_eq_none).mp hFree] at hValid
    cases hValid

/- No entry of the cache is given up. -/
theorem full_learn
    (hFull : s.Full)
    (uptime : U64)
    (message : Option ArpMessage) :
    (learn uptime message s).Full := by
  cases message with
  | none => exact hFull
  | some message =>
      rcases message with ⟨ip, mac⟩
      rcases cache_arpAdd s uptime ip mac with ⟨e, hKey, _, hCache⟩
      intro x hMem
      rw [learn, hCache, KeyedSlots.store] at hMem
      split at hMem
      · rcases List.mem_or_eq_of_mem_set hMem with hOld | hNew
        · exact hFull x hOld
        · rw [hNew]
          exact ((e.key_eq_some ip).mp hKey).1
      · exact hFull x hMem

theorem arpLookup_learnAll_full
    (uptime : Nat → U64)
    (n : Nat)
    (messages : List (Option ArpMessage))
    (s : ArpState)
    (hFull : s.Full)
    (hUnknown : (arpLookup s (some ip)).1 = none) :
    (arpLookup (learnAll uptime n messages s) (some ip)).1 =
      none := by
  induction messages generalizing n s with
  | nil => exact hUnknown
  | cons message messages ih =>
      rw [learnAll]
      apply ih
      · exact full_learn hFull (uptime n) message
      cases message with
      | none => exact hUnknown
      | some message =>
          rcases message with ⟨about, claimed⟩
          by_cases hAbout : ip = about
          · subst hAbout
            have hPlace := place_of_full hFull hUnknown
            rw [learn, arpAdd_full s _ ip _ hPlace]
            exact hUnknown
          · rw [arpLookup_learn_other hAbout]
            exact hUnknown

/-
  A poll frees every frame that waits once and in order. A
  known address then belongs to whoever claimed it last, asked
  or not, and a full cache learns no other address.
-/
theorem net_rx_poll_rebinds
    (s t : NetQueues)
    (calls : List PacketCall)
    (hRun : Run (Guarded PacketCall.Ok packetStep)
      (netTxQueueInit (netRxQueueInit s)) calls t)
    (frames : List Addr)
    (hFrames : Chain t.queueNext (t.queue .rx).head frames)
    (uptime : Nat → U64)
    (fuel : Nat)
    (u : NetQueues)
    (hPoll : netRxPoll uptime fuel t = some u) :
    let messages := frames.filterMap fun p =>
      (t.link.skb.packet p).ethMessage
    u.link.skb.freed = t.link.skb.freed ++ frames ∧
      u.link.skb.handed = t.link.skb.handed ∧
      (∀ ip mac, (arpLookup t.link.arp (some ip)).1 = some mac →
        (arpLookup u.link.arp (some ip)).1 =
          some (believed ip messages mac)) ∧
      (t.link.arp.Full → ∀ ip,
        (arpLookup t.link.arp (some ip)).1 = none →
          (arpLookup u.link.arp (some ip)).1 = none) := by
  rcases packetRun_holds hRun with ⟨T, _, hHolds⟩
  have hWaiting := (hHolds.queues .rx).list.chain.unique hFrames
  have hLink := (netPoll_holds hHolds hPoll).link
  have hAll := handleAll_rx uptime 0 frames t.link
    (hWaiting ▸ (hHolds.queues .rx).nodup)
  simp only [Traffic.poll, ← hWaiting, ← hHolds.link] at hLink
  rw [← hLink] at hAll
  rcases hAll with ⟨hFreed, hHanded, hArp⟩
  have hMessages :
      (frames.map fun p =>
        (t.link.skb.packet p).ethMessage).filterMap id =
        frames.filterMap fun p =>
          (t.link.skb.packet p).ethMessage := by
    rw [List.filterMap_map]
    rfl
  refine ⟨hFreed, hHanded, ?_, ?_⟩
  · intro ip mac hKnown
    rw [hArp, arpLookup_learnAll uptime 0 _ _ mac hKnown, hMessages]
  · intro hFull ip hUnknown
    rw [hArp]
    exact arpLookup_learnAll_full uptime 0 _ _ hFull hUnknown

/- The later claim is believed. -/
theorem net_rx_poll_rebinds_claimed :
    ∃ u, netRxPoll (fun _ => 0) 3 queuesClaimed = some u ∧
      u.link.skb.freed = [0x200000#64, 0x2000F0#64] ∧
      (arpLookup u.link.arp (some askedIp)).1 =
        some (.replicate 6 2#8) := by
  have hFrames :
      Chain queuesClaimed.queueNext (queuesClaimed.queue .rx).head
        [0x200000#64, 0x2000F0#64] :=
    ⟨rfl, rfl, rfl⟩
  rcases net_rx_poll_rebinds queuesBooted queuesClaimed _
      queuesClaimed_run _ hFrames (fun _ => 0) 3 _ rfl with
    ⟨hFreed, _, hBelieved, _⟩
  have hKnown :
      (arpLookup queuesClaimed.link.arp (some askedIp)).1 =
        some macBroadcast := by
    decide +kernel
  have hLater := hBelieved askedIp macBroadcast hKnown
  refine ⟨_, rfl, hFreed, hLater.trans ?_⟩
  decide +kernel

end FeatherOS
