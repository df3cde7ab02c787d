import CachedViews.ReadStore.Durable
import CachedViews.ReadStore.Memory

/-!
The read store over either kind of table. Only the store in memory can be unavailable
or made to fail, and only the durable one can hold a view that cannot be read back.
-/
namespace CachedViews

inductive ReadStore where
  | memory (store : MemoryViews)
  | durable (store : DurableViews)

namespace ReadStore

instance : Inhabited ReadStore := ⟨memory .empty⟩

def stats : ReadStore → ReadStats
  | memory store => store.stats
  | durable store => store.stats

def available : ReadStore → Bool
  | memory store => store.available
  | durable _ => true

def setAvailable (value : Bool) : ReadStore → ReadStore
  | memory store => memory { store with available := value }
  | durable store => durable store

def failNextPuts (count : Nat) : ReadStore → ReadStore
  | memory store => memory { store with failingPuts := count }
  | durable store => durable store

def reopen : ReadStore → Except StorageError ReadStore
  | memory store => .ok (memory store)
  | durable store => durable <$> store.reopen

def takeFailure : ReadStore → Bool × ReadStore
  | memory store => let (failed, store) := store.takeFailure; (failed, memory store)
  | durable store => (false, durable store)

def put (view : View) : ReadStore → Except StorageError ReadStore
  | memory store => .ok (memory (store.put view))
  | durable store => durable <$> store.put view

def get (uuid : Uuid) : ReadStore → Except StorageError (Option View × ReadStore)
  | memory store => let (found, store) := store.get uuid; .ok (found, memory store)
  | durable store => do let (found, store) ← store.get uuid; return (found, durable store)

def delete (uuid : Uuid) : ReadStore → Except StorageError (Bool × ReadStore)
  | memory store => let (existed, store) := store.delete uuid; .ok (existed, memory store)
  | durable store => do let (existed, store) ← store.delete uuid; return (existed, durable store)

def findDependents (uuid : Uuid) : ReadStore → List EntityKey
  | memory store => store.findDependents uuid
  | durable store => store.findDependents uuid

/-- The view of an entity, without counting the look-up. -/
def load (uuid : Uuid) : ReadStore → Except StorageError (Option View)
  | memory store => .ok (store.views.get? uuid)
  | durable store => store.load uuid

/-- Every stored view, in the order of their entities. -/
def all : ReadStore → Except StorageError (List View)
  | memory store => .ok store.views.values
  | durable store => store.all

def maxOf : List Sid → Sid
  | [] => 0
  | first :: rest => rest.foldl max first

/-- The highest watermark of a stored view; zero without views. -/
def maxSid (store : ReadStore) : Except StorageError Sid := do
  return maxOf ((← store.all).map View.maxSid)

def viewSids (uuids : List Uuid) (store : ReadStore) :
    Except StorageError (SortedMap Uuid Sid) := do
  let sids ← uuids.mapM fun uuid => do
    return (← store.load uuid).map fun view => (uuid, view.sid)
  return SortedMap.ofList (sids.filterMap id)

def count (itemType : ItemType) (store : ReadStore) : Except StorageError Nat := do
  return ((← store.all).filter fun view => view.itemType = itemType).length

end ReadStore

end CachedViews
