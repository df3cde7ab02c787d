import CachedViews.Config.Basic
import CachedViews.Queue.Basic
import CachedViews.Queue.Failures
import CachedViews.ReadStore.Basic
import CachedViews.Registry.Reads
import CachedViews.WriteStore

/-!
The state of a running engine and the actions on it. An action ends in a value or an
error, and the state it leaves stands in both cases. Faults are part of the state: they
say how the next store calls end and how long they take.
-/
namespace CachedViews

/-- What an engine is built from. -/
structure Engine where
  registry : Registry
  mode : InvalidationMode
  pipeline : PipelineConfig
  reclaim : ReclaimOrder

structure Metrics where
  processed : Nat
  indexed : Nat
  versionConflicts : Nat
  removed : Nat
  deferred : Nat
  timeouts : Nat
  failed : Nat
  secondaryQueued : Nat
  batches : Nat
  errors : Nat
  deriving DecidableEq, Repr, Inhabited

def Metrics.start : Metrics := ⟨0, 0, 0, 0, 0, 0, 0, 0, 0, 0⟩

/-- How a look-up of a canonical record ends. -/
inductive RecordFault where
  | pass
  | missing
  | unavailable
  /-- The captured record is returned in place of the current one. -/
  | stale
  deriving DecidableEq, Repr

/-- How a look-up of a view ends. -/
inductive ViewFault where
  | pass
  | transient
  | poisoned
  deriving DecidableEq, Repr

/-- Endings of the next store calls, one each; without a listed ending they are normal. -/
structure Faults where
  /-- Whether a call of either store finds it out of reach. -/
  outages : List Bool
  records : List RecordFault
  views : List ViewFault
  captured : Option EntityRecord
  /-- Time that each look-up of a record takes. -/
  recordDelay : Duration
  /-- Time that the next calls of either store take, one each; without a listed time they take
  none. -/
  delays : List Duration

def Faults.none : Faults := ⟨[], [], [], Option.none, .zero, []⟩

/-- Records loaded during one batch; `none` for an entity that was missing. -/
abbrev RecordCache := SortedMap Uuid (Option EntityRecord)

/-- The rebuild in progress: whose, since when, and its time limit. -/
structure Cycle where
  uuid : Uuid
  started : Instant
  limit : Duration

structure World where
  write : WriteStore
  read : ReadStore
  queue : Queue
  failures : FailureReport
  metrics : Metrics
  now : Instant
  faults : Faults
  cache : RecordCache
  cycle : Option Cycle
  /-- Reindex runs so far; numbers their telemetry. -/
  reindexRuns : Nat

def World.start (read : ReadStore) : World :=
  ⟨.empty, read, .empty, .empty, .start, .zero, .none, {}, none, 0⟩

abbrev Action (α : Type) := ExceptT EngineError (StateM World) α

namespace Action

def ofStorage {α : Type} : Except StorageError α → Action α
  | .ok value => pure value
  | .error error => throw (.storage error)

def ofValidation {α : Type} : Except ValidationError α → Action α
  | .ok value => pure value
  | .error error => throw (.validation error)

/-- The value, or nothing when the entity was not found. -/
def orNotFound {α : Type} (action : Action α) : Action (Option α) :=
  tryCatch (some <$> action) fun error => if error.isNotFound then pure none else throw error

def count (update : Metrics → Metrics) : Action Unit :=
  modify fun world => { world with metrics := update world.metrics }

/-- Lets time pass. A rebuild ends at its time limit, not after. -/
def sleep (duration : Duration) : Action Unit := do
  let world ← get
  let wakes := world.now.add duration
  match world.cycle with
  | some cycle =>
    let limit := cycle.started.add cycle.limit
    if limit.nanos < wakes.nanos then
      set { world with now := limit }
      throw (.index (.timeout cycle.uuid cycle.limit.millis))
    else set { world with now := wakes }
  | none => set { world with now := wakes }

end Action

end CachedViews
