import CachedViews.Duration
import CachedViews.Queue.Message
import CachedViews.Sorted.Map

/-!
The propagation queue. A received message is in flight until it is acknowledged; after
the visibility timeout it returns to the front of its lane. The secondary lane holds
each entity at most once.
-/
namespace CachedViews

/-- A moment of the clock, as time since its start. -/
abbrev Instant := Duration

structure InFlight where
  lane : Lane
  message : Message
  visibleAt : Instant
  deriving DecidableEq, Inhabited

structure Queue where
  primary : List Message
  secondary : List Message
  /-- Entities that wait on the secondary lane. -/
  waitingSecondary : SortedSet Uuid
  /-- Messages with the moment from which they may be delivered. -/
  deferred : List (Instant × Message)
  inFlight : SortedMap Nat InFlight
  lastReceipt : Nat
  deriving DecidableEq, Inhabited

/-- An order in which to go through deliveries that expired together. What is in flight has none of
its own, so it may be any. -/
structure ReclaimOrder where
  arrange : List Nat → List Nat
  perm : ∀ receipts, (arrange receipts).Perm receipts

namespace ReclaimOrder

/-- First delivered, first returned. -/
def ascending : ReclaimOrder := ⟨id, .refl⟩

instance : Inhabited ReclaimOrder := ⟨ascending⟩

end ReclaimOrder

structure LaneStatus where
  waiting : Nat
  inFlight : Nat
  deriving DecidableEq, Repr, Inhabited

namespace Queue

def empty : Queue := ⟨[], [], {}, [], {}, 0⟩

def laterSid (a b : Option Sid) : Option Sid :=
  match a, b with
  | some a, some b => some (max a b)
  | some a, none => some a
  | none, b => b

/-- Merges a message into the one that waits for the same entity. -/
def absorb (message : Message) : List Message → List Message
  | [] => []
  | waiting :: rest =>
    if waiting.uuid = message.uuid then
      { waiting with sid := laterSid waiting.sid message.sid } :: rest
    else waiting :: absorb message rest

/-- Puts a message at one end of a lane. -/
def place {α : Type} (front : Bool) (item : α) (lane : List α) : List α :=
  if front then item :: lane else lane ++ [item]

/-- Adds to the secondary lane; false when a waiting message absorbed it. -/
def pushSecondary (queue : Queue) (message : Message) (front : Bool) : Bool × Queue :=
  if message.uuid ∈ queue.waitingSecondary then
    (false, { queue with secondary := absorb message queue.secondary })
  else
    (true, { queue with
      secondary := place front message queue.secondary
      waitingSecondary := queue.waitingSecondary.insert message.uuid })

/-- Adds to a lane; a deferred message may be delivered from `now` on. -/
def push (queue : Queue) (lane : Lane) (message : Message) (front : Bool) (now : Instant) :
    Bool × Queue :=
  match lane with
  | .primary => (true, { queue with primary := place front message queue.primary })
  | .secondary => queue.pushSecondary message front
  | .deferred => (true, { queue with deferred := place front (now, message) queue.deferred })

/-- Appends messages in order; counts those that were not absorbed. -/
def send (queue : Queue) (lane : Lane) (now : Instant) : List Message → Nat × Queue
  | [] => (0, queue)
  | message :: rest =>
    let (added, queue) := queue.push lane message false now
    let (count, queue) := queue.send lane now rest
    ((if added then 1 else 0) + count, queue)

def sendDeferred (queue : Queue) (message : Message) (notBefore : Instant) : Queue :=
  { queue with deferred := queue.deferred ++ [(notBefore, message)] }

def expired (now : Instant) (entry : InFlight) : Bool := entry.visibleAt.nanos ≤ now.nanos

/-- Returns one in-flight message to the front of its lane. -/
def giveBack (queue : Queue) (receipt : Nat) (now : Instant) : Bool × Queue :=
  match queue.inFlight.get? receipt with
  | none => (false, queue)
  | some entry =>
    let freed := { queue with inFlight := queue.inFlight.erase receipt }
    (true, (freed.push entry.lane entry.message true now).2)

/-- Receipts of the deliveries that have expired. -/
def expiredReceipts (queue : Queue) (now : Instant) : List Nat :=
  (queue.inFlight.filter fun _ entry => expired now entry).keys

/-- Returns every expired message to its lane. -/
def reclaimExpired (queue : Queue) (order : ReclaimOrder) (now : Instant) : Queue :=
  (order.arrange (queue.expiredReceipts now)).foldl
    (fun queue receipt => (queue.giveBack receipt now).2) queue

/-- The first deferred message whose moment has come, and the others. -/
def takeReady (now : Instant) :
    List (Instant × Message) → Option (Message × List (Instant × Message))
  | [] => none
  | (notBefore, message) :: rest =>
    if notBefore.nanos ≤ now.nanos then some (message, rest)
    else (takeReady now rest).map fun (ready, others) => (ready, (notBefore, message) :: others)

/-- Takes the next visible message off its lane. -/
def popReady (queue : Queue) (now : Instant) : Option (Lane × Message × Queue) :=
  match queue.primary with
  | message :: rest => some (.primary, message, { queue with primary := rest })
  | [] =>
    match queue.secondary with
    | message :: rest =>
      some (.secondary, message, { queue with
        secondary := rest
        waitingSecondary := queue.waitingSecondary.erase message.uuid })
    | [] =>
      (takeReady now queue.deferred).map fun (message, rest) =>
        (.deferred, message, { queue with deferred := rest })

/-- Puts a message in flight under a new receipt. -/
def deliver (queue : Queue) (lane : Lane) (message : Message) (visibleAt : Instant) :
    Delivery × Queue :=
  let receipt := queue.lastReceipt + 1
  (⟨receipt, lane, message⟩, { queue with
    inFlight := queue.inFlight.insert receipt ⟨lane, message, visibleAt⟩
    lastReceipt := receipt })

def take (now visibleAt : Instant) : Nat → Queue → List Delivery × Queue
  | 0, queue => ([], queue)
  | count + 1, queue =>
    match queue.popReady now with
    | none => ([], queue)
    | some (lane, message, rest) =>
      let (delivery, queue) := rest.deliver lane message visibleAt
      let (more, queue) := take now visibleAt count queue
      (delivery :: more, queue)

/-- Takes up to `limit` visible messages, each in flight for `visibility`. -/
def receive (queue : Queue) (order : ReclaimOrder) (now : Instant) (visibility : Duration)
    (limit : Nat) : List Delivery × Queue :=
  take now (now.add visibility) limit (queue.reclaimExpired order now)

/-- Finishes a delivery; false when its receipt is not in flight. -/
def ack (queue : Queue) (receipt : Nat) : Bool × Queue :=
  (queue.inFlight.contains receipt, { queue with inFlight := queue.inFlight.erase receipt })

def waiting (queue : Queue) (lane : Lane) : List Message :=
  match lane with
  | .primary => queue.primary
  | .secondary => queue.secondary
  | .deferred => queue.deferred.map Prod.snd

/-- Drops every waiting message; counts them. -/
def purge (queue : Queue) : Nat × Queue :=
  (queue.primary.length + queue.secondary.length + queue.deferred.length,
    { queue with primary := [], secondary := [], waitingSecondary := {}, deferred := [] })

def laneStatus (queue : Queue) (lane : Lane) : LaneStatus :=
  ⟨(queue.waiting lane).length,
    (queue.inFlight.values.filter fun entry => entry.lane = lane).length⟩

def totalWaiting (queue : Queue) : Nat :=
  Lane.all.foldl (fun total lane => total + (queue.laneStatus lane).waiting) 0

def totalInFlight (queue : Queue) : Nat :=
  Lane.all.foldl (fun total lane => total + (queue.laneStatus lane).inFlight) 0

def isIdle (queue : Queue) : Bool := queue.totalWaiting = 0 && queue.totalInFlight = 0

end Queue

end CachedViews
