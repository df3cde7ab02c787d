import CachedViews.Engine.Stores

/-!
Choosing a store. Writes and unique-key look-ups belong to the write store. A read
follows the caller's preference unless that store is unavailable, and otherwise prefers
the read store. Choosing changes neither store.
-/
namespace CachedViews

inductive StoreOp where
  | get
  | create
  | update
  | getByUniqueKey
  | purge
  deriving DecidableEq, Repr

/-- An entity as one of the stores gave it. -/
inductive Fetched where
  | view (view : View)
  | record (record : EntityRecord)

namespace Fetched

def uuid : Fetched → Uuid
  | view found => found.uuid
  | record found => found.uuid

def sid : Fetched → Sid
  | view found => found.sid
  | record found => found.sid

def itemType : Fetched → ItemType
  | view found => found.itemType
  | record found => found.itemType

def servedBy : Fetched → StoreKind
  | view _ => .read
  | record _ => .write

end Fetched

namespace Routing

def choose (op : StoreOp) (preference : Option StoreKind) (writeAvailable readAvailable : Bool) :
    StoreKind :=
  match op, preference with
  | .get, some .write => if writeAvailable || !readAvailable then .write else .read
  | .get, _ => if readAvailable then .read else .write
  | _, _ => .write

def route (op : StoreOp) (preference : Option StoreKind) : Action StoreKind := do
  let world ← get
  return choose op preference world.write.available world.read.available

/-- Whether a failed read of a view is answered from the write store: after an outage
always, after a miss unless the caller asked for the view. -/
def fallsBack (preference : Option StoreKind) (error : EngineError) : Bool :=
  error.isTransient || (error.isNotFound && preference ≠ some .read)

def fetch (uuid : Uuid) (preference : Option StoreKind) : Action Fetched := do
  let fromRecord : Action Fetched := .record <$> Action.record uuid
  match ← route .get preference with
  | .write => fromRecord
  | .read =>
    tryCatch (.view <$> Action.view uuid) fun error =>
      if fallsBack preference error then fromRecord else throw error

def getByUniqueKey (key : UniqueKey) : Action EntityRecord := do
  Action.ofStorage ((← Action.writeStore).getByUniqueKey key)

/-- Those of the keys that entities other than `uuid` own. -/
def uniqueKeyConflicts (uuid : Uuid) (keys : List UniqueKey) : Action (List UniqueKey) := do
  let owners := (← Action.writeStore).keyOwners keys
  return (owners.filter fun _ owner => owner ≠ uuid).keys

end Routing

end CachedViews
