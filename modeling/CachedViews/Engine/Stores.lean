import CachedViews.Engine.World

/-!
Calls to the two stores and the queue. Every call to a store first takes its time and asks
whether the store is within reach; look-ups of records and views also follow the injected
faults.
-/
namespace CachedViews

namespace Action

/-- Waits, when there is something to wait for. -/
def pause (duration : Duration) : Action Unit := do
  if !duration.isZero then sleep duration

/-- Takes the next listed delay. -/
def nextDelay : Action Duration :=
  modifyGet fun world =>
    match world.faults.delays with
    | [] => (.zero, world)
    | delay :: rest => (delay, { world with faults := { world.faults with delays := rest } })

/-- Takes the next listed outage. -/
def nextOutage : Action Bool :=
  modifyGet fun world =>
    match world.faults.outages with
    | [] => (false, world)
    | outage :: rest => (outage, { world with faults := { world.faults with outages := rest } })

/-- Takes the time of one store call; tells whether it finds its store out of reach. -/
def reach : Action Bool := do
  pause (← nextDelay)
  nextOutage

/-- The write store, when it is available. -/
def writeStore : Action WriteStore := do
  let outage ← reach
  let store := (← get).write
  if store.available && !outage then return store
  else throw (.storage (.unavailable .write))

/-- Applies a write, or leaves the store as it is. -/
def commit {α : Type} (write : WriteStore → Except StorageError (α × WriteStore)) : Action α := do
  let (value, store) ← ofStorage (write (← writeStore))
  modify fun world => { world with write := store }
  return value

def nextRecordFault : Action RecordFault :=
  modifyGet fun world =>
    match world.faults.records with
    | [] => (.pass, world)
    | fault :: rest => (fault, { world with faults := { world.faults with records := rest } })

def currentRecord (uuid : Uuid) : Action EntityRecord := do
  ofStorage ((← writeStore).get uuid)

/-- The canonical record of an entity. -/
def record (uuid : Uuid) : Action EntityRecord := do
  let faults := (← get).faults
  pause faults.recordDelay
  match ← nextRecordFault with
  | .pass => currentRecord uuid
  | .missing => throw (.storage (.notFound uuid))
  | .unavailable => throw (.storage (.unavailable .write))
  | .stale =>
    match faults.captured with
    | some captured => if captured.uuid = uuid then return captured else currentRecord uuid
    | none => currentRecord uuid

def revLinks (uuid : Uuid) : Action (List LinkEdge) := do
  return (← writeStore).revLinks uuid

def history (uuid : Uuid) : Action (List Revision) := do
  ofStorage ((← writeStore).history uuid)

def itemTypeOf (uuid : Uuid) : Action (Option ItemType) := do
  return (← writeStore).itemTypeOf uuid

def currentSids (uuids : List Uuid) : Action (SortedMap Uuid Sid) := do
  return (← writeStore).currentSids uuids

def writeMaxSid : Action Sid := do
  return (← writeStore).maxSid

def listEntities (types : Option (List ItemType)) : Action (List EntityKey) := do
  return (← writeStore).list types

/-- Keys of those entities that exist, typed by the write store. -/
def liveKeys (uuids : List Uuid) : Action (List EntityKey) := do
  let keys ← uuids.mapM fun uuid => do
    return (← itemTypeOf uuid).map fun itemType => (⟨itemType, uuid⟩ : EntityKey)
  return keys.filterMap id

/-- The read store, when it is available. -/
def readStore : Action ReadStore := do
  let outage ← reach
  let store := (← get).read
  if store.available && !outage then return store
  else throw (.storage (.unavailable .read))

def setReadStore (store : ReadStore) : Action Unit :=
  modify fun world => { world with read := store }

def putFailure : String := "injected read store failure"

def lookupFailure : String := "injected get failure"

/-- Stores a view in place of an earlier one. -/
def putView (view : View) : Action Unit := do
  let (failed, store) := (← readStore).takeFailure
  if failed then
    setReadStore store
    throw (.index (.transient view.uuid putFailure))
  else setReadStore (← ofStorage (store.put view))

def nextViewFault : Action ViewFault :=
  modifyGet fun world =>
    match world.faults.views with
    | [] => (.pass, world)
    | fault :: rest => (fault, { world with faults := { world.faults with views := rest } })

def view (uuid : Uuid) : Action View := do
  match ← nextViewFault with
  | .transient => throw (.index (.transient uuid lookupFailure))
  | .poisoned => throw (.storage .lockPoisoned)
  | .pass =>
    let (found, store) ← ofStorage ((← readStore).get uuid)
    setReadStore store
    match found with
    | some view => return view
    | none => throw (.storage (.notFound uuid))

/-- Removes a view; tells whether there was one. -/
def deleteView (uuid : Uuid) : Action Bool := do
  let (existed, store) ← ofStorage ((← readStore).delete uuid)
  setReadStore store
  return existed

def readMaxSid : Action Sid := do
  ofStorage (← readStore).maxSid

def findDependents (uuid : Uuid) : Action (List EntityKey) := do
  return (← readStore).findDependents uuid

def viewSids (uuids : List Uuid) : Action (SortedMap Uuid Sid) := do
  ofStorage ((← readStore).viewSids uuids)

def countViews (itemType : ItemType) : Action Nat := do
  ofStorage ((← readStore).count itemType)

/-- Closes the read store and opens it again. -/
def reopenReadStore : Action Unit := do
  setReadStore (← ofStorage (← get).read.reopen)

/-- Applies a change to the queue, which is always available. -/
def onQueue {α : Type} (change : Queue → Instant → α × Queue) : Action α :=
  modifyGet fun world =>
    let (value, queue) := change world.queue world.now
    (value, { world with queue })

def send (lane : Lane) (messages : List Message) : Action Nat :=
  onQueue fun queue now => queue.send lane now messages

def sendDeferred (message : Message) (delay : Duration) : Action Unit :=
  onQueue fun queue now => ((), queue.sendDeferred message (now.add delay))

def receive (engine : Engine) (limit : Nat) : Action (List Delivery) :=
  onQueue fun queue now => queue.receive engine.reclaim now engine.pipeline.visibilityTimeout limit

def ack (receipt : Nat) : Action Bool := onQueue fun queue _ => queue.ack receipt

def nack (receipt : Nat) : Action Bool := onQueue fun queue now => queue.giveBack receipt now

def purgeQueue : Action Nat := onQueue fun queue _ => queue.purge

end Action

end CachedViews
