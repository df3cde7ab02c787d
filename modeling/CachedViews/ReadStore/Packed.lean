import CachedViews.Bytes
import CachedViews.ReadStore.Basic

/-!
The durable read store as it lies in its directory: two tables from byte strings to byte strings.
A view stands under the sixteen bytes of its entity as the UTF-8 of its text. A row of the index
stands under the bytes of the linked entity with those of the view behind them, and holds the bytes
of the view's type; the rows of one linked entity are those whose keys begin with its bytes.
-/
namespace CachedViews

structure PackedViews where
  views : SortedMap Bytes Bytes
  dependents : SortedMap Bytes Bytes
  stats : ReadStats

namespace PackedViews

def empty : PackedViews := ⟨{}, {}, .start⟩

def dependentKey (linked view : Uuid) : Bytes := linked.bytes ++ view.bytes

def decode (bytes : Bytes) : Except StorageError View :=
  match bytes.text? >>= View.ofText? with
  | some view => .ok view
  | none => .error DurableViews.unreadable

def load (store : PackedViews) (uuid : Uuid) : Except StorageError (Option View) :=
  match store.views.get? uuid.bytes with
  | some bytes => some <$> decode bytes
  | none => .ok none

def all (store : PackedViews) : Except StorageError (List View) := store.views.values.mapM decode

def reopen (store : PackedViews) : Except StorageError PackedViews := do
  return { store with stats := { ReadStats.start with viewCount := (← store.all).length } }

def dependentKeys (uuid : Uuid) (view : View) : List Bytes :=
  view.linked.toList.map fun linked => dependentKey linked uuid

def remove (store : PackedViews) (uuid : Uuid) : Except StorageError (Bool × PackedViews) := do
  match ← store.load uuid with
  | some previous =>
    return (true, { store with
      views := store.views.erase uuid.bytes
      dependents := (dependentKeys uuid previous).foldl SortedMap.erase store.dependents })
  | none => return (false, store)

def put (store : PackedViews) (view : View) : Except StorageError PackedViews := do
  let (replaced, cleared) ← store.remove view.uuid
  return {
    views := cleared.views.insert view.uuid.bytes (.ofText view.text)
    dependents := (dependentKeys view.uuid view).foldl
      (fun dependents key => dependents.insert key (.ofText view.itemType.name)) cleared.dependents
    stats := store.stats.put replaced }

def get (store : PackedViews) (uuid : Uuid) :
    Except StorageError (Option View × PackedViews) := do
  match ← store.load uuid with
  | some view => return (some view, { store with stats := store.stats.hit })
  | none => return (none, { store with stats := store.stats.miss })

def delete (store : PackedViews) (uuid : Uuid) : Except StorageError (Bool × PackedViews) := do
  match ← store.remove uuid with
  | (true, cleared) => return (true, { cleared with stats := store.stats.delete })
  | (false, same) => return (false, same)

/-- The view that a row of the index is for. -/
def dependentOf (row : Bytes × Bytes) : Except StorageError EntityKey :=
  match Uuid.ofBytes? (row.1.drop 16), row.2.text? with
  | some source, some name => .ok ⟨⟨name⟩, source⟩
  | _, _ => .error DurableViews.unreadable

def findDependents (store : PackedViews) (uuid : Uuid) : Except StorageError (List EntityKey) :=
  (store.dependents.entries.filter fun row => uuid.bytes.isPrefixOf row.1).mapM dependentOf

def maxSid (store : PackedViews) : Except StorageError Sid := do
  return ReadStore.maxOf ((← store.all).map View.maxSid)

def viewSids (uuids : List Uuid) (store : PackedViews) :
    Except StorageError (SortedMap Uuid Sid) := do
  let sids ← uuids.mapM fun uuid => do
    return (← store.load uuid).map fun view => (uuid, view.sid)
  return SortedMap.ofList (sids.filterMap id)

def count (itemType : ItemType) (store : PackedViews) : Except StorageError Nat := do
  return ((← store.all).filter fun view => view.itemType = itemType).length

end PackedViews

end CachedViews
