import CachedViews.Embedding.Document
import CachedViews.Engine.Stores

/-!
Resolving an entity: load everything that its embed paths and calculated dependencies
follow, note each visited entity and each missing target, and build the document from
what was loaded.
-/
namespace CachedViews

/-- A followed link whose target is missing. -/
structure DanglingLink where
  source : Uuid
  field : String
  target : Uuid
  deriving DecidableEq

def DanglingLink.text (warning : DanglingLink) : String :=
  "dangling link " ++ warning.source.text ++ "." ++ warning.field ++ " -> " ++ warning.target.text

structure Resolution where
  /-- The root as it was when the document was built. -/
  record : EntityRecord
  document : Json
  linked : SortedSet Uuid
  revLinks : ReverseLinks
  warnings : List DanglingLink

/-- A view of the resolution under a watermark, which is never below the root's stamp. -/
def Resolution.toView (resolution : Resolution) (maxSid : Sid) : View where
  uuid := resolution.record.uuid
  itemType := resolution.record.itemType
  embedded := resolution.document
  sid := resolution.record.sid
  maxSid := max maxSid resolution.record.sid
  linked := resolution.linked
  revLinks := resolution.revLinks

def RecordCache.record? (cache : RecordCache) (uuid : Uuid) : Option EntityRecord :=
  (cache.get? uuid).join

namespace Embedding

/-- Identifiers in a link value; anything else in it is passed over. -/
def linkTargets : Option Json → List Uuid
  | some (.string raw) => (Uuid.parse? raw).toList
  | some (.array items) => items.filterMap fun item => item.text? >>= Uuid.parse?
  | _ => []

/-- What was visited so far. -/
structure Visit where
  linked : SortedSet Uuid
  warnings : List DanglingLink

def Visit.addWarning (visit : Visit) (warning : DanglingLink) : Visit :=
  if warning ∈ visit.warnings then visit
  else { visit with warnings := visit.warnings ++ [warning] }

def remember (uuid : Uuid) (record : Option EntityRecord) : Action Unit :=
  modify fun world => { world with cache := world.cache.insert uuid record }

/-- Loads an entity unless the batch already has it; tells whether it exists. -/
def load (uuid : Uuid) : Action Bool := do
  match (← get).cache.get? uuid with
  | some known => return known.isSome
  | none =>
    let found ← Action.orNotFound (Action.record uuid)
    remember uuid found
    return found.isSome

/-- Links held at `segment` by the loaded entities of a frontier. -/
def hops (registry : Registry) (cache : RecordCache) (segment : String) (frontier : List Uuid) :
    List (Uuid × Uuid) :=
  frontier.flatMap fun source =>
    match cache.record? source with
    | none => []
    | some record =>
      if registry.isLink record.itemType segment then
        (linkTargets (record.properties.get? segment)).map (source, ·)
      else []

def visitHop (segment : String) (reached : List Uuid × Visit) (hop : Uuid × Uuid) :
    Action (List Uuid × Visit) := do
  let (next, visit) := reached
  let visit := { visit with linked := visit.linked.insert hop.2 }
  if ← load hop.2 then return (next ++ [hop.2], visit)
  else return (next, visit.addWarning ⟨hop.1, segment, hop.2⟩)

/-- Loads everything along a path. Its last link is followed only for a calculated
dependency, which then reads the whole target. -/
def visitPath (registry : Registry) (followLast : Bool) :
    List String → List Uuid → Visit → Action Visit
  | [], _, visit => pure visit
  | segment :: rest, frontier, visit =>
    if rest = [] ∧ !followLast then pure visit
    else do
      let hops := hops registry (← get).cache segment frontier
      let (next, visit) ← hops.foldlM (visitHop segment) ([], visit)
      visitPath registry followLast rest next visit

def visitPaths (registry : Registry) (followLast : Bool) (root : Uuid) (paths : List String)
    (visit : Visit) : Action Visit :=
  paths.foldlM (fun visit path => visitPath registry followLast (Path.segments path) [root] visit)
    visit

/-- The root is always read afresh, so that a view carries its current stamp. -/
def loadRoot (uuid : Uuid) : Action EntityRecord := do
  let record ← Action.record uuid
  remember uuid (some record)
  return record

def resolveRecord (registry : Registry) (record : EntityRecord) (spec : List String) :
    Action Resolution := do
  let root := record.uuid
  let calculated := registry.calculated record.itemType
  let embedded ← visitPaths registry false root spec ⟨{}, []⟩
  let visit ← visitPaths registry true root (calculated.flatMap CalculatedField.dependsOn) embedded
  let cache := (← get).cache
  return {
    record
    document := Document.ofRecord registry cache.record? spec record
    linked := visit.linked.erase root
    revLinks := .ofEdges root (← Action.revLinks root)
    warnings := visit.warnings }

/-- Resolves an entity under the embed paths of its type, or under given ones. -/
def resolve (registry : Registry) (uuid : Uuid) (spec : Option (List String)) :
    Action Resolution := do
  let record ← loadRoot uuid
  resolveRecord registry record (spec.getD (registry.embedPaths record.itemType))

/-- Runs an action on a cache of its own; the previous cache is back afterwards. -/
def withCache {α : Type} (cache : RecordCache) (action : Action α) : Action α := do
  let previous := (← get).cache
  let restore : Action Unit := modify fun world => { world with cache := previous }
  modify fun world => { world with cache }
  let value ← tryCatch action fun error => do
    restore
    throw error
  restore
  return value

end Embedding

end CachedViews
