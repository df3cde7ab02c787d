import CachedViews.Config.Basic
import CachedViews.Sorted.Map
import CachedViews.Text.Digits

/-!
Environment variables that override a configuration. A number that cannot be read
leaves its setting as it was.
-/
namespace CachedViews

abbrev Environment := SortedMap String String

namespace Environment

/-- Digits, after a plus sign or not, of a number below the limit. -/
def unsigned? (limit : Nat) (text : String) : Option Nat :=
  let digits :=
    match text.toList with
    | '+' :: digits => digits
    | digits => digits
  if digits.isEmpty || !digits.all Char.isDigit then none
  else
    let value := Digits.decimal digits
    if value < limit then some value else none

def number (environment : Environment) (name : String) (limit current : Nat) : Nat :=
  ((environment.get? name) >>= unsigned? limit).getD current

def millis (environment : Environment) (name : String) (current : Duration) : Duration :=
  (((environment.get? name) >>= unsigned? Config.countLimit).map .ofMillis).getD current

/-- In either case; a name that is not known asks for the standard mode. -/
def mode (environment : Environment) (current : InvalidationMode) : InvalidationMode :=
  match environment.get? "TESSERA_INVALIDATION_MODE" with
  | some name => .ofRequest name.toLower
  | none => current

def retry (environment : Environment) (current : RetryConfig) : RetryConfig where
  maxAttempts := .ofNat (environment.number "TESSERA_RETRY_MAX_ATTEMPTS" Config.attemptLimit
    current.maxAttempts.toNat)
  initialBackoff := environment.millis "TESSERA_RETRY_INITIAL_BACKOFF_MS" current.initialBackoff
  maxBackoff := environment.millis "TESSERA_RETRY_MAX_BACKOFF_MS" current.maxBackoff
  multiplier := current.multiplier

def pipeline (environment : Environment) (current : PipelineConfig) : PipelineConfig where
  workerCount := environment.number "TESSERA_WORKER_COUNT" Config.countLimit current.workerCount
  batchSize := environment.number "TESSERA_BATCH_SIZE" Config.countLimit current.batchSize
  pollInterval := environment.millis "TESSERA_POLL_INTERVAL_MS" current.pollInterval
  operationTimeout := environment.millis "TESSERA_OPERATION_TIMEOUT_MS" current.operationTimeout
  visibilityTimeout :=
    environment.millis "TESSERA_VISIBILITY_TIMEOUT_MS" current.visibilityTimeout
  retry := environment.retry current.retry

end Environment

/-- JSON output is switched off by every value but `true`. -/
def Config.override (config : Config) (environment : Environment) : Config where
  invalidationMode := environment.mode config.invalidationMode
  pipeline := environment.pipeline config.pipeline
  readStore := {
    path := (environment.get? "TESSERA_LMDB_PATH").or config.readStore.path
    maxSizeMb :=
      environment.number "TESSERA_LMDB_MAX_SIZE_MB" Config.countLimit config.readStore.maxSizeMb }
  log := {
    levels := (environment.get? "TESSERA_LOG_FILTER").getD config.log.levels
    json := ((environment.get? "TESSERA_JSON_LOGS").map (·.toLower == "true")).getD config.log.json }

end CachedViews
