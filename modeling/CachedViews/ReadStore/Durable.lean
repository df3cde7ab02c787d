import CachedViews.Error
import CachedViews.ReadStore.Stats
import CachedViews.View

/-!
The durable read store: one table of views as JSON text and one table of pairs (linked
entity, view) with the view's type, in byte order. A view is read from its text whenever it is
needed, so a text that cannot be read back fails every call that needs it. Closing and opening
the store keeps the tables and starts the counters afresh. `ReadStore.Packed` has the tables as the
bytes that they are stored as.
-/
namespace CachedViews

structure DurableViews where
  texts : SortedMap Uuid String
  dependents : SortedMap (Uuid × Uuid) ItemType
  stats : ReadStats
  deriving Inhabited

namespace DurableViews

def empty : DurableViews := ⟨{}, {}, .start⟩

def unreadable : StorageError := .transactionFailed "a stored view cannot be read"

def read (text : String) : Except StorageError View :=
  match View.ofText? text with
  | some view => .ok view
  | none => .error unreadable

/-- The view of an entity, if one is stored. -/
def load (store : DurableViews) (uuid : Uuid) : Except StorageError (Option View) :=
  match store.texts.get? uuid with
  | some text => some <$> read text
  | none => .ok none

def all (store : DurableViews) : Except StorageError (List View) := store.texts.values.mapM read

def reopen (store : DurableViews) : Except StorageError DurableViews := do
  return { store with stats := { ReadStats.start with viewCount := (← store.all).length } }

/-- Keys of the index rows of an entity's view. -/
def dependentKeys (uuid : Uuid) (view : View) : List (Uuid × Uuid) :=
  view.linked.toList.map fun linked => (linked, uuid)

/-- Removes a view and its index rows; tells whether there was one. -/
def remove (store : DurableViews) (uuid : Uuid) : Except StorageError (Bool × DurableViews) := do
  match ← store.load uuid with
  | some previous =>
    return (true, { store with
      texts := store.texts.erase uuid
      dependents := (dependentKeys uuid previous).foldl SortedMap.erase store.dependents })
  | none => return (false, store)

def put (store : DurableViews) (view : View) : Except StorageError DurableViews := do
  let (replaced, cleared) ← store.remove view.uuid
  return {
    texts := cleared.texts.insert view.uuid view.text
    dependents := (dependentKeys view.uuid view).foldl
      (fun dependents key => dependents.insert key view.itemType) cleared.dependents
    stats := store.stats.put replaced }

def get (store : DurableViews) (uuid : Uuid) :
    Except StorageError (Option View × DurableViews) := do
  match ← store.load uuid with
  | some view => return (some view, { store with stats := store.stats.hit })
  | none => return (none, { store with stats := store.stats.miss })

def delete (store : DurableViews) (uuid : Uuid) : Except StorageError (Bool × DurableViews) := do
  match ← store.remove uuid with
  | (true, cleared) => return (true, { cleared with stats := store.stats.delete })
  | (false, same) => return (false, same)

def findDependents (store : DurableViews) (uuid : Uuid) : List EntityKey :=
  store.dependents.entries.filterMap fun entry =>
    if entry.1.1 = uuid then some ⟨entry.2, entry.1.2⟩ else none

end DurableViews

end CachedViews
