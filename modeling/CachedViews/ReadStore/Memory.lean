import CachedViews.Error
import CachedViews.ReadStore.Stats
import CachedViews.View

/-!
The read store in memory: views, and for every linked entity the views that embed it.
Outages and failing writes can be injected.
-/
namespace CachedViews

structure MemoryViews where
  views : SortedMap Uuid View
  /-- Views by the entity they link; an entity without views has no entry. -/
  dependents : SortedMap Uuid (SortedSet Uuid)
  stats : ReadStats
  available : Bool
  /-- So many of the next writes fail. -/
  failingPuts : Nat
  deriving Inhabited

namespace MemoryViews

abbrev Index := SortedMap Uuid (SortedSet Uuid)

def empty : MemoryViews := ⟨{}, {}, .start, true, 0⟩

def unindexOne (index : Index) (view linked : Uuid) : Index :=
  match index.get? linked with
  | none => index
  | some views =>
    let remaining := views.erase view
    if remaining.isEmpty then index.erase linked else index.insert linked remaining

def indexOne (index : Index) (view linked : Uuid) : Index :=
  index.insert linked ((index.getD linked {}).insert view)

def unindex (index : Index) (view : View) : Index :=
  view.linked.toList.foldl (fun index linked => unindexOne index view.uuid linked) index

def index (index : Index) (view : View) : Index :=
  view.linked.toList.foldl (fun index linked => indexOne index view.uuid linked) index

/-- Takes one injected failure, if any is left. -/
def takeFailure (store : MemoryViews) : Bool × MemoryViews :=
  if store.failingPuts = 0 then (false, store)
  else (true, { store with failingPuts := store.failingPuts - 1 })

def put (store : MemoryViews) (view : View) : MemoryViews :=
  let previous := store.views.get? view.uuid
  let cleared := match previous with
    | some previous => unindex store.dependents previous
    | none => store.dependents
  { store with
    views := store.views.insert view.uuid view
    dependents := index cleared view
    stats := store.stats.put previous.isSome }

def get (store : MemoryViews) (uuid : Uuid) : Option View × MemoryViews :=
  match store.views.get? uuid with
  | some view => (some view, { store with stats := store.stats.hit })
  | none => (none, { store with stats := store.stats.miss })

/-- Removes a view; tells whether there was one. -/
def delete (store : MemoryViews) (uuid : Uuid) : Bool × MemoryViews :=
  match store.views.get? uuid with
  | some previous =>
    (true, { store with
      views := store.views.erase uuid
      dependents := unindex store.dependents previous
      stats := store.stats.delete })
  | none => (false, store)

def findDependents (store : MemoryViews) (uuid : Uuid) : List EntityKey :=
  (store.dependents.getD uuid {}).toList.filterMap fun source =>
    (store.views.get? source).map View.key

end MemoryViews

end CachedViews
