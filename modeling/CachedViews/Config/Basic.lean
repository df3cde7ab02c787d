import CachedViews.Config.Backoff
import CachedViews.Error
import CachedViews.Number.Width

/-!
Configuration of the engine, and the checks that it must pass.
-/
namespace CachedViews

/-- How far invalidation trims the dependents of a change. -/
inductive InvalidationMode where
  /-- Keep a dependent only when it reads a changed field. -/
  | precise
  /-- As `precise`, and keep every dependent that calculates from the changed type. -/
  | calculatedConservative
  /-- Keep every dependent. -/
  | disabled
  deriving DecidableEq, Repr, Inhabited

namespace InvalidationMode

def all : List InvalidationMode := [precise, calculatedConservative, disabled]

def name : InvalidationMode → String
  | precise => "precise"
  | calculatedConservative => "calculated_conservative"
  | disabled => "disabled"

def ofName? (name : String) : Option InvalidationMode := all.find? fun mode => mode.name = name

/-- The mode a caller asks for; a name that is not known asks for the standard one. -/
def ofRequest (name : String) : InvalidationMode := (ofName? name).getD calculatedConservative

end InvalidationMode

structure PipelineConfig where
  workerCount : Nat
  /-- Messages a worker takes at a time. -/
  batchSize : Nat
  pollInterval : Duration
  /-- Time limit of one rebuild. -/
  operationTimeout : Duration
  /-- How long a received message stays invisible. -/
  visibilityTimeout : Duration
  retry : RetryConfig
  deriving DecidableEq, Repr, Inhabited

def PipelineConfig.standard : PipelineConfig :=
  ⟨4, 10, .ofMillis 500, .ofMillis 30000, .ofMillis 300000, .standard⟩

structure ReadStoreConfig where
  /-- Directory of the durable store; `none` keeps views in memory. -/
  path : Option String
  maxSizeMb : Nat
  deriving DecidableEq, Repr, Inhabited

namespace ReadStoreConfig

/-- Size of the durable store's memory map. -/
def mapBytes (config : ReadStoreConfig) : Nat := config.maxSizeMb * 1024 * 1024

end ReadStoreConfig

structure LogConfig where
  levels : String
  json : Bool
  deriving DecidableEq, Repr, Inhabited

structure Config where
  invalidationMode : InvalidationMode
  pipeline : PipelineConfig
  readStore : ReadStoreConfig
  log : LogConfig
  deriving DecidableEq, Repr, Inhabited

namespace Config

/-- Counts and spans in milliseconds have 64 bits. -/
def countLimit : Nat := Width.values 64

/-- Attempts have 32 bits. -/
def attemptLimit : Nat := Width.values 32

def standard : Config where
  invalidationMode := .calculatedConservative
  pipeline := .standard
  readStore := ⟨none, 1024⟩
  log := ⟨"info,tessera_storage=info,tessera_indexer=info", false⟩

/-- Short intervals and no waits between attempts, for local runs. -/
def development : Config where
  invalidationMode := .calculatedConservative
  pipeline := ⟨2, 10, .ofMillis 10, .ofMillis 5000, .ofMillis 5000, ⟨12, .zero, .zero, .ofNat 2⟩⟩
  readStore := ⟨none, 1024⟩
  log := ⟨"debug", false⟩

/-- Numbers without a fraction are written without a point, and never with an exponent. -/
def multiplierStyle : DecimalStyle := ⟨none, false⟩

def multiplierText : Double → String
  | .nan => "NaN"
  | .infinite negative => if negative then "-inf" else "inf"
  | .finite negative units => String.ofList (Double.finiteText multiplierStyle negative units)

/-- The first check that fails is reported. -/
def validate (config : Config) : Except ConfigError Unit :=
  let pipeline := config.pipeline
  let retry := pipeline.retry
  let require := fun (holds : Bool) (field value reason : String) =>
    if holds then Except.ok () else .error (ConfigError.invalidValue field value reason)
  do
    require (pipeline.workerCount != 0) "pipeline.worker_count" "0"
      "worker_count must be greater than 0"
    require (pipeline.batchSize != 0) "pipeline.batch_size" "0" "batch_size must be greater than 0"
    require (!pipeline.operationTimeout.isZero) "pipeline.operation_timeout"
      pipeline.operationTimeout.text "operation_timeout must be positive"
    require (!pipeline.visibilityTimeout.isZero) "pipeline.visibility_timeout"
      pipeline.visibilityTimeout.text "visibility_timeout must be positive"
    require (retry.maxAttempts != 0) "pipeline.retry.max_attempts" "0"
      "max_attempts must be greater than 0"
    require (!retry.multiplier.lt .one) "pipeline.retry.backoff_multiplier"
      (multiplierText retry.multiplier) "backoff_multiplier must be at least 1.0"
    require (retry.initialBackoff.nanos ≤ retry.maxBackoff.nanos) "pipeline.retry.initial_backoff"
      retry.initialBackoff.text "initial_backoff must not exceed max_backoff"
    require (config.readStore.path.isNone || config.readStore.maxSizeMb != 0)
      "read_store.lmdb_max_size_mb" "0" "lmdb_max_size_mb must be greater than 0"

end Config

end CachedViews
