import CachedViews.Entity.FieldDiff
import CachedViews.Routing

/-!
Storing and removing entities. A stored entity is queued for indexing with the fields
that changed; a removed one takes its view along and queues what it linked to.
-/
namespace CachedViews

namespace Service

/-- How often a put starts again when another write came in between. -/
def putRetries : Nat := 7

/-- Errors that say that the entity changed between reading and writing it. -/
def isRace : EngineError → Bool
  | .storage (.staleWrite ..) | .storage (.uuidConflict _) => true
  | _ => false

/-- An action's own error as a value. -/
def attempt {α : Type} (action : Action α) : Action (Except EngineError α) :=
  tryCatch (Except.ok <$> action) fun error => pure (.error error)

/-- What a write committed: its stamp, and the fields that it changed when it replaced a
sheet. -/
structure Stored where
  sid : Sid
  diff : Option (List String)
  deriving DecidableEq

/-- Creates an entity that was not found, or replaces one that was. An update is pinned to
the sheet that its diff was computed from. A refused commit is a value, since another try
may succeed. -/
def writeOver (uuid : Uuid) (itemType : ItemType) (write : EntityWrite) (base : Option Sid)
    (existing : Option EntityRecord) : Action (Except EngineError Stored) := do
  match existing with
  | none =>
    if base.isSome then throw (.storage (.notFound uuid))
    attempt do
      return ⟨← Action.commit fun store => store.create uuid itemType write, none⟩
  | some record =>
    if record.itemType ≠ itemType then throw (.storage (.uuidConflict uuid))
    let pinned := some (base.getD record.sid)
    let diff := FieldDiff.encode itemType record.properties write.properties
    attempt do
      return ⟨← Action.commit fun store => store.update uuid write pinned, some diff⟩

/-- One try to create or replace an entity. -/
def tryPut (uuid : Uuid) (itemType : ItemType) (write : EntityWrite) (base : Option Sid) :
    Action (Except EngineError Stored) := do
  writeOver uuid itemType write base (← Action.orNotFound (Action.record uuid))

/-- Tries again after a race, unless the caller gave the stamp to write on. -/
def putLoop (uuid : Uuid) (itemType : ItemType) (write : EntityWrite) (base : Option Sid) :
    Nat → Action Stored
  | 0 => do
    match ← tryPut uuid itemType write base with
    | .ok stored => return stored
    | .error error => throw error
  | retries + 1 => do
    match ← tryPut uuid itemType write base with
    | .ok stored => return stored
    | .error error =>
      if base.isNone && isRace error then putLoop uuid itemType write base retries
      else throw error

/-- Creates or replaces an entity and queues it for indexing. -/
def put (engine : Engine) (uuid : Uuid) (itemType : ItemType) (properties : Properties)
    (base : Option Sid) : Action Sid := do
  let decl ← Action.ofValidation (engine.registry.require itemType)
  let write ← Action.ofValidation (decl.entityWrite properties)
  let stored ← putLoop uuid itemType write base putRetries
  let _ ← Action.send .primary [.primary ⟨itemType, uuid⟩ (some stored.sid) stored.diff]
  return stored.sid

def purgeRecord (uuid : Uuid) : Action Unit :=
  Action.commit fun store => do return ((), ← store.purge uuid)

/-- Removes an entity and its view, and queues the entities that lose a link from it. -/
def purge (uuid : Uuid) : Action Unit := do
  let targets := match ← Action.orNotFound (Action.record uuid) with
    | some record => record.links.toList.map Link.target
    | none => []
  purgeRecord uuid
  let _ ← Action.deleteView uuid
  match ← Action.liveKeys (targets.filter fun target => target ≠ uuid) with
  | [] => return ()
  | keys => discard (Action.send .secondary (keys.map fun key => .secondary key none))

end Service

end CachedViews
