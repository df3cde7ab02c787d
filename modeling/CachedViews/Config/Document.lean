import CachedViews.Config.Basic
import CachedViews.Toml.Document

/-!
Configurations from TOML documents. A field that is left out keeps its standard value,
names that are not known are ignored, and a field of the wrong kind is refused.
-/
namespace CachedViews

namespace Config

/-- The field of a section, or the default where the section leaves it out. -/
def fieldOr {α : Type} (fields : Toml.Table) (name : String) (default : α)
    (decode : Toml → Option α) : Option α :=
  match Entries.get? name fields with
  | some value => decode value
  | none => some default

def duration? (value : Toml) : Option Duration := (value.natBelow? countLimit).map .ofMillis

/-- A mode is named by a string, or by the only key of a table whose value is empty. -/
def mode? : Toml → Option InvalidationMode
  | .string name => InvalidationMode.ofName? name
  | .table _ [(name, value)] => if value.isEmpty then InvalidationMode.ofName? name else none
  | _ => none

def attempts? (value : Toml) : Option UInt32 := (value.natBelow? attemptLimit).map .ofNat

def retry? (value : Toml) : Option RetryConfig := do
  let fields ← value.fields?
    ["max_attempts", "initial_backoff_ms", "max_backoff_ms", "backoff_multiplier"]
  let standard := RetryConfig.standard
  let maxAttempts ← fieldOr fields "max_attempts" standard.maxAttempts attempts?
  let initialBackoff ← fieldOr fields "initial_backoff_ms" standard.initialBackoff duration?
  let maxBackoff ← fieldOr fields "max_backoff_ms" standard.maxBackoff duration?
  let multiplier ← fieldOr fields "backoff_multiplier" standard.multiplier Toml.number?
  return { maxAttempts, initialBackoff, maxBackoff, multiplier }

def pipeline? (value : Toml) : Option PipelineConfig := do
  let fields ← value.fields? ["worker_count", "batch_size", "poll_interval_ms",
    "operation_timeout_ms", "visibility_timeout_ms", "retry"]
  let standard := PipelineConfig.standard
  let workerCount ← fieldOr fields "worker_count" standard.workerCount (·.natBelow? countLimit)
  let batchSize ← fieldOr fields "batch_size" standard.batchSize (·.natBelow? countLimit)
  let pollInterval ← fieldOr fields "poll_interval_ms" standard.pollInterval duration?
  let operationTimeout ←
    fieldOr fields "operation_timeout_ms" standard.operationTimeout duration?
  let visibilityTimeout ←
    fieldOr fields "visibility_timeout_ms" standard.visibilityTimeout duration?
  let retry ← fieldOr fields "retry" standard.retry retry?
  return { workerCount, batchSize, pollInterval, operationTimeout, visibilityTimeout, retry }

def readStore? (value : Toml) : Option ReadStoreConfig := do
  let fields ← value.fields? ["lmdb_path", "lmdb_max_size_mb"]
  let standard := Config.standard.readStore
  let path ← fieldOr fields "lmdb_path" standard.path fun path => path.string?.map some
  let maxSizeMb ← fieldOr fields "lmdb_max_size_mb" standard.maxSizeMb (·.natBelow? countLimit)
  return { path, maxSizeMb }

def log? (value : Toml) : Option LogConfig := do
  let fields ← value.fields? ["log_filter", "json_logs"]
  let standard := Config.standard.log
  let levels ← fieldOr fields "log_filter" standard.levels Toml.string?
  let json ← fieldOr fields "json_logs" standard.json Toml.bool?
  return { levels, json }

def ofToml? (document : Toml) : Option Config := do
  let fields ← document.fields? ["invalidation_mode", "pipeline", "read_store", "telemetry"]
  let invalidationMode ← fieldOr fields "invalidation_mode" standard.invalidationMode mode?
  let pipeline ← fieldOr fields "pipeline" standard.pipeline pipeline?
  let readStore ← fieldOr fields "read_store" standard.readStore readStore?
  let log ← fieldOr fields "telemetry" standard.log log?
  return { invalidationMode, pipeline, readStore, log }

def parse (source : String) : Except ConfigError Config :=
  match Toml.parse? source with
  | none => .error (.parse "not a TOML document")
  | some document =>
    match ofToml? document with
    | none => .error (.parse "a field has the wrong kind of value")
    | some config => .ok config

end Config

end CachedViews
