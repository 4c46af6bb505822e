import FeatherOS.Buffer.Model
import FeatherOS.Library.DoublyLinked
import FeatherOS.Library.Run

/-
  The request queue of `kernel/drivers/ata.c`.

  The bios are kept in a map from their addresses. A callback
  is a function on the whole state, since it may add further
  bios. The loop of `process_requests` gets a number of turns
  and gives `none` when they are used up. `history` records
  what the calls do; the source has no such field.

  Key definitions include:
    * `RequestState`
    * `addRequest`
    * `getRequest`
    * `processRequests`
    * `requestStep`
-/

namespace FeatherOS

--------------------
-- Bios
--------------------

/- REQ_READ -/
def reqRead : U32 := 0x01#32

/- REQ_WRITE -/
def reqWrite : U32 := 0x02#32

/- REQ_FLUSH -/
def reqFlush : U32 := 0x08#32

/- bio_t -/
structure Bio where
  next : Option Addr
  prev : Option Addr
  dev : Option Addr
  sector : U64
  count : U32
  flags : U32
  buffer : Option Addr
  error : Int
  callback : Option Addr

/- What a bio asks for. -/
inductive BlockRequest where
  | read (dev : Option Addr) (sector : U64) (count : U32)
      (buffer : Option Addr)
  | write (dev : Option Addr) (sector : U64) (count : U32)
      (buffer : Option Addr)
  | flush (dev : Option Addr)
  | nothing

/- The first flag that is set decides. -/
def Bio.request (b : Bio) : BlockRequest :=
  if b.flags &&& reqRead ≠ 0#32 then
    .read b.dev b.sector b.count b.buffer
  else if b.flags &&& reqWrite ≠ 0#32 then
    .write b.dev b.sector b.count b.buffer
  else if b.flags &&& reqFlush ≠ 0#32 then
    .flush b.dev
  else
    .nothing

/- A bio with what it asks for and its callback. -/
structure RequestItem where
  bio : Addr
  request : BlockRequest
  callback : Option Addr

inductive RequestEvent where
  | added (item : RequestItem)
  | performed (item : RequestItem)
  | called (item : RequestItem)

--------------------
-- State
--------------------

/- request_queue_t -/
structure RequestQueue where
  head : Option Addr
  tail : Option Addr
  pending : U32
  maxPending : U32

/- A queue, the bios and what the drivers work on. -/
structure RequestState (W : Type) where
  queue : RequestQueue
  bios : Addr → Bio
  world : W
  history : List RequestEvent

namespace RequestState

variable {W : Type}

def modifyBio
    (s : RequestState W)
    (p : Addr)
    (f : Bio → Bio) :
    RequestState W :=
  { s with bios := Function.update s.bios p (f (s.bios p)) }

/- The link to the next bio is set where there is a bio. -/
def setNext
    (s : RequestState W)
    (p q : Option Addr) :
    RequestState W :=
  match p with
  | none => s
  | some p => s.modifyBio p fun b => { b with next := q }

def setPrev
    (s : RequestState W)
    (p q : Option Addr) :
    RequestState W :=
  match p with
  | none => s
  | some p => s.modifyBio p fun b => { b with prev := q }

def item
    (s : RequestState W)
    (p : Addr) :
    RequestItem where
  bio := p
  request := (s.bios p).request
  callback := (s.bios p).callback

def record
    (s : RequestState W)
    (e : RequestEvent) :
    RequestState W :=
  { s with history := s.history ++ [e] }

end RequestState

--------------------
-- Operations
--------------------

section Operations

variable {W : Type}

def initRequestQueue
    (s : RequestState W)
    (maxPending : U32) :
    RequestState W :=
  { s with
    queue :=
      { head := none
        tail := none
        pending := 0#32
        maxPending := maxPending } }

def addRequest
    (s : RequestState W)
    (bio : Option Addr) :
    RequestState W :=
  match bio with
  | none => s
  | some p =>
      let s := s.record (.added (s.item p))
      let s := s.modifyBio p fun b =>
        { b with next := none, prev := none }
      let s :=
        match s.queue.tail with
        | some q =>
            let s := s.setNext (some q) (some p)
            let s := s.setPrev (some p) (some q)
            { s with queue := { s.queue with tail := some p } }
        | none =>
            { s with
              queue :=
                { s.queue with head := some p, tail := some p } }
      { s with
        queue :=
          { s.queue with pending := s.queue.pending + 1#32 } }

def getRequest
    (s : RequestState W) :
    Option Addr × RequestState W :=
  match s.queue.head with
  | none => (none, s)
  | some p =>
      let s :=
        { s with
          queue := { s.queue with head := (s.bios p).next } }
      let s :=
        match s.queue.head with
        | some q => s.setPrev (some q) none
        | none =>
            { s with queue := { s.queue with tail := none } }
      let s := s.modifyBio p fun b =>
        { b with next := none, prev := none }
      (some p,
        { s with
          queue :=
            { s.queue with pending := s.queue.pending - 1#32 } })

variable (devices : Addr → FlushDevice W)

/- A bio without a request keeps its `error`. -/
def performRequest
    (request : BlockRequest)
    (error : Int)
    (world : W) :
    Int × W :=
  match request with
  | .read dev sector count buffer =>
      blockRead (blockDevices devices) dev sector count buffer
        world
  | .write dev sector count buffer =>
      blockWrite (blockDevices devices) dev sector count buffer
        world
  | .flush dev => blockFlush devices dev world
  | .nothing => (error, world)

/- What the bio asks for is done and its `error` is set. -/
def performBio
    (s : RequestState W)
    (p : Addr) :
    RequestState W :=
  let done :=
    performRequest devices (s.item p).request (s.bios p).error
      s.world
  let s := s.record (.performed (s.item p))
  let s := s.modifyBio p fun b => { b with error := done.1 }
  { s with world := done.2 }

variable (callbacks : Addr → Addr → RequestState W →
  RequestState W)

/- The body of the loop, for a bio that was taken. -/
def serveRequest
    (s : RequestState W)
    (p : Addr) :
    RequestState W :=
  let s' := performBio devices s p
  match (s.item p).callback with
  | none => s'
  | some callback =>
      callbacks callback p (s'.record (.called (s.item p)))

def processRequests :
    Nat → RequestState W → Option (RequestState W)
  | 0, _ => none
  | fuel + 1, s =>
      match s.queue.head with
      | none => some s
      | some _ =>
          match getRequest s with
          | (none, s) => some s
          | (some p, s) =>
              processRequests fuel
                (serveRequest devices callbacks s p)

end Operations

--------------------
-- Calls
--------------------

namespace RequestState

variable {W : Type}

/- The queue is the list of these bios, in both directions. -/
structure Holds
    (s : RequestState W)
    (cells : List Addr) : Prop where
  links :
    Segment (fun p => (s.bios p).next) (fun p => (s.bios p).prev)
      none s.queue.head cells s.queue.tail none
  nodup : cells.Nodup

def Queued
    (s : RequestState W)
    (p : Addr) : Prop :=
  ∃ cells, s.Holds cells ∧ p ∈ cells

end RequestState

section Steps

variable {W : Type}

/- What users of the queue do, also in a callback. -/
inductive ClientCall where
  | add (item : Option RequestItem)
  | write

/-
  A bio that is added is not in the queue; other writes leave
  the queue and the bios in it alone.
-/
def clientStep
    (s : RequestState W)
    (call : ClientCall)
    (s' : RequestState W) : Prop :=
  match call with
  | .add none => s' = addRequest s none
  | .add (some item) =>
      ¬ s.Queued item.bio ∧ item = s.item item.bio ∧
        s' = addRequest s (some item.bio)
  | .write =>
      s'.queue = s.queue ∧ s'.history = s.history ∧
        ∀ p, s.Queued p → s'.bios p = s.bios p

/- A call with its answer, or with what it adds to `history`. -/
inductive RequestCall where
  | client (call : ClientCall)
  | get (answer : Option RequestItem)
  | process (events : List RequestEvent)

variable (devices : Addr → FlushDevice W)
variable (callbacks : Addr → Addr → RequestState W →
  RequestState W)

def requestStep
    (s : RequestState W)
    (call : RequestCall)
    (s' : RequestState W) : Prop :=
  match call with
  | .client call => clientStep s call s'
  | .get answer =>
      getRequest s = (answer.map RequestItem.bio, s') ∧
        ∀ item, answer = some item → item = s.item item.bio
  | .process events =>
      s'.history = s.history ++ events ∧
        ∃ fuel,
          processRequests devices callbacks fuel s = some s'

end Steps

end FeatherOS
