import CachedViews.Freshness

/-!
Queueing rebuilds of whole types, and listing what is behind.
-/
namespace CachedViews

structure ReindexOptions where
  /-- Types to rebuild; `none` for all of them. -/
  types : Option (List ItemType)
  /-- Skip types whose views match the write store. -/
  checkExisting : Bool
  /-- Only report what would be queued. -/
  skipPropagation : Bool
  /-- Rebuild each view alone. -/
  strict : Bool

structure TypeReindex where
  itemType : ItemType
  entities : Nat
  queued : Nat
  upToDate : Bool

structure ReindexReport where
  telemetryId : String
  /-- Whether every type was rebuilt. -/
  total : Bool
  strict : Bool
  /-- Waiting messages that a total run dropped first. -/
  purgedMessages : Nat
  types : List TypeReindex

def ReindexReport.queued (report : ReindexReport) : Nat :=
  report.types.foldl (fun total line => total + line.queued) 0

namespace Service

def groupByType (keys : List EntityKey) : SortedMap ItemType (List EntityKey) :=
  keys.foldl
    (fun groups key => groups.insert key.itemType (groups.getD key.itemType [] ++ [key])) {}

/-- Whether every entity of a type has a fresh view and no other view is stored. -/
def isUpToDate (itemType : ItemType) (entities : Nat) : Action Bool := do
  if (← Action.countViews itemType) ≠ entities then return false
  return (← Freshness.report (some [itemType])).isClean

def nextTelemetryId : Action String := do
  let runs := (← get).reindexRuns + 1
  modify fun world => { world with reindexRuns := runs }
  return "reindex-" ++ toString runs

def rebuildMessage (strict : Bool) (telemetryId : String) (key : EntityKey) : Message :=
  { Message.primary key none none with strict, telemetryId := some telemetryId }

def reindexType (options : ReindexOptions) (strict : Bool) (telemetryId : String)
    (itemType : ItemType) (keys : List EntityKey) : Action TypeReindex := do
  let entities := keys.length
  let upToDate ← if options.checkExisting then isUpToDate itemType entities else pure false
  if upToDate then return ⟨itemType, entities, 0, true⟩
  let queued ←
    if options.skipPropagation then pure entities
    else Action.send .primary (keys.map (rebuildMessage strict telemetryId))
  return ⟨itemType, entities, queued, false⟩

/-- Queues a rebuild of every entity of the chosen types. A run over all types drops
waiting messages first and is strict, since every view is rebuilt anyway. -/
def reindex (options : ReindexOptions) : Action ReindexReport := do
  let total := options.types.isNone
  let strict := options.strict || total
  let telemetryId ← nextTelemetryId
  let purgedMessages ←
    if total && !options.skipPropagation then Action.purgeQueue else pure 0
  let groups := groupByType (← Action.listEntities options.types)
  let types ← groups.entries.mapM fun (itemType, keys) =>
    reindexType options strict telemetryId itemType keys
  return { telemetryId, total, strict, purgedMessages, types }

/-- Whether a view with stamp `indexed` is behind a record with stamp `current`. -/
def isBehind (current indexed : Option Sid) : Bool :=
  match current, indexed with
  | some current, some indexed => indexed < current
  | some _, none => true
  | none, _ => false

/-- Entities of the chosen types whose view is missing or older than the record. -/
def indexDiff (types : Option (List ItemType)) : Action (List Uuid) := do
  let uuids := (← Action.listEntities types).map EntityKey.uuid
  let current ← Action.currentSids uuids
  let indexed ← Action.viewSids uuids
  return uuids.filter fun uuid => isBehind (current.get? uuid) (indexed.get? uuid)

/-- A failed message with a fresh retry budget. Its stamp is dropped: one that never
came to be would fail again. -/
def renewed (failure : PermanentFailure) : Message :=
  { failure.message with attempts := 0, sid := none }

def takeFailures : Action (List PermanentFailure) :=
  modifyGet fun world => (world.failures.entries, { world with failures := .empty })

/-- Moves every reported failure back to the primary lane. -/
def requeueFailures : Action Nat := do
  Action.send .primary ((← takeFailures).map renewed)

end Service

end CachedViews
