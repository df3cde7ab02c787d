import CachedViews.Embedding.Resolve
import CachedViews.Invalidation

/-!
Working off the queue. One cycle rebuilds the view of one message and, unless the
message is strict, queues the dependents of the change. A cycle that fails or runs over
its time limit is deferred with a growing wait, and reported once its retries run out.
-/
namespace CachedViews

inductive Outcome where
  | indexed (sid : Sid) (secondaries : Nat)
  /-- A newer view was already stored. -/
  | versionConflict (storedSid sid : Sid)
  /-- The entity is gone, and so is its view. -/
  | removed
  | deferred (attempts : UInt32) (delay : Duration)
  | failed (attempts : UInt32)
  deriving DecidableEq

namespace Indexing

def aheadReason (sid snapshot : Sid) : String :=
  "sid " ++ toString sid ++ " is ahead of watermark " ++ toString snapshot

/-- A message for a write that the batch's watermark does not cover yet cannot be
served. -/
def requireCovered (message : Message) (snapshot : Sid) : Action Unit :=
  match message.sid with
  | some sid =>
    if snapshot < sid then throw (.index (.transient message.uuid (aheadReason sid snapshot)))
    else pure ()
  | none => pure ()

def removeView (uuid : Uuid) : Action Outcome := do
  let _ ← Action.deleteView uuid
  Action.count fun metrics => { metrics with removed := metrics.removed + 1 }
  return .removed

/-- Queues the dependents of a change and the targets whose links changed. -/
def propagate (engine : Engine) (message : Message) (record : EntityRecord)
    (storedSid : Option Sid) : Action Nat := do
  let scope ← Invalidation.scope engine message.uuid message.diff
  let targets ← Invalidation.linkTargets engine record storedSid
  match (scope.union targets).toList with
  | [] => return 0
  | keys =>
    let added ← Action.send .secondary (keys.map fun key =>
      { Message.secondary key (some record.sid) with telemetryId := message.telemetryId })
    Action.count fun metrics =>
      { metrics with secondaryQueued := metrics.secondaryQueued + added }
    return added

def storeView (engine : Engine) (message : Message) (resolution : Resolution) (snapshot : Sid) :
    Action Outcome := do
  let view := resolution.toView snapshot
  let storedSid := (← Action.viewSids [message.uuid]).get? message.uuid
  match storedSid.filter fun stored => view.sid < stored with
  | some stored =>
    Action.count fun metrics => { metrics with versionConflicts := metrics.versionConflicts + 1 }
    return .versionConflict stored view.sid
  | none =>
    Action.putView view
    Action.count fun metrics => { metrics with indexed := metrics.indexed + 1 }
    let secondaries ←
      if message.strict then pure 0
      else propagate engine message resolution.record storedSid
    return .indexed view.sid secondaries

/-- One cycle for one message, under the watermark taken at the start of the batch. -/
def rebuild (engine : Engine) (message : Message) (snapshot : Sid) : Action Outcome := do
  requireCovered message snapshot
  match ← Action.orNotFound (Embedding.resolve engine.registry message.uuid none) with
  | some resolution => storeView engine message resolution snapshot
  | none => removeView message.uuid

/-- Runs a cycle under the time limit. -/
def limited {α : Type} (engine : Engine) (uuid : Uuid) (cycle : Action α) :
    Action (Except EngineError α) := do
  let started := (← get).now
  modify fun world => { world with cycle := some ⟨uuid, started, engine.pipeline.operationTimeout⟩ }
  let result ← tryCatch (Except.ok <$> cycle) fun error => pure (.error error)
  modify fun world => { world with cycle := none }
  return result

/-- Puts a failed message off, or reports it when its retries have run out. -/
def defer (engine : Engine) (message : Message) (reason : String) : Action Outcome := do
  let attempts := message.attempts + 1
  let message := { message with attempts }
  if engine.pipeline.retry.maxAttempts ≤ attempts then
    modify fun world => { world with failures := (world.failures.record message reason).2 }
    Action.count fun metrics => { metrics with failed := metrics.failed + 1 }
    return .failed attempts
  else
    let delay := engine.pipeline.retry.backoff attempts.toNat
    Action.sendDeferred message delay
    Action.count fun metrics => { metrics with deferred := metrics.deferred + 1 }
    return .deferred attempts delay

/-- Why a cycle failed. Running over the time limit is counted on its own. -/
def failureReason (error : EngineError) : Action String :=
  match error with
  | .index (.timeout uuid elapsed) => do
    Action.count fun metrics => { metrics with timeouts := metrics.timeouts + 1 }
    return (IndexError.timeout uuid elapsed).message
  | error => return error.message

/-- Runs one delivery to its end and acknowledges it, whatever the outcome. -/
def process (engine : Engine) (delivery : Delivery) (snapshot : Sid) : Action Outcome := do
  let message := delivery.message
  let outcome ← match ← limited engine message.uuid (rebuild engine message snapshot) with
    | .ok outcome => pure outcome
    | .error error => do defer engine message (← failureReason error)
  let _ ← Action.ack delivery.receipt
  Action.count fun metrics => { metrics with processed := metrics.processed + 1 }
  return outcome

/-- Takes one batch. The watermark is read before anything is resolved, so no view
claims to be newer than what it was built from. -/
def processBatch (engine : Engine) : Action Nat := do
  match ← Action.receive engine engine.pipeline.batchSize with
  | [] => return 0
  | deliveries =>
    Action.count fun metrics => { metrics with batches := metrics.batches + 1 }
    let snapshot ← Action.writeMaxSid
    Embedding.withCache {} (deliveries.forM fun delivery =>
      discard (process engine delivery snapshot))
    return deliveries.length

/-- Cycles that a message may still take. Attempts are counted in 32 bits, and zero follows
the greatest count. -/
def cyclesLeft (engine : Engine) (message : Message) : Nat :=
  let most := engine.pipeline.retry.maxAttempts.toNat
  if message.attempts + 1 = 0 then 1 + most else max 1 (most - message.attempts.toNat)

def messages (queue : Queue) : List Message :=
  Lane.all.flatMap queue.waiting ++ queue.inFlight.values.map InFlight.message

def workOf (engine : Engine) (strict : Bool) (queue : Queue) : Nat :=
  ((messages queue).filter fun message => message.strict = strict).foldl
    (fun total message => total + cyclesLeft engine message) 0

/-- Cycles left on the queue, those that may queue more before those that may not. -/
def work (engine : Engine) (queue : Queue) : Nat × Nat :=
  (workOf engine false queue, workOf engine true queue)

def isLess (a b : Nat × Nat) : Bool := a.1 < b.1 || (a.1 = b.1 && a.2 < b.2)

theorem lex_of_isLess {a b : Nat × Nat} (less : isLess a b = true) :
    Prod.Lex (· < ·) (· < ·) a b := by
  simp only [isLess, Bool.or_eq_true, Bool.and_eq_true, decide_eq_true_eq] at less
  exact (Prod.lex_def).mpr less

/-- Works off batches until none is visible. Every batch leaves less work: a cycle ends
its message or uses up one of its attempts, and only messages that are not strict add
others, which are. -/
def drain (engine : Engine) (total : Nat) (world : World) : Except EngineError Nat × World :=
  match (processBatch engine).run.run world with
  | (.error error, after) => (.error error, after)
  | (.ok handled, after) =>
    if handled = 0 then (.ok total, after)
    else if _ : isLess (work engine after.queue) (work engine world.queue) = true then
      drain engine (total + handled) after
    else (.ok (total + handled), after)
termination_by work engine world.queue
decreasing_by exact lex_of_isLess ‹_›

def runUntilIdle (engine : Engine) : Action Nat :=
  ExceptT.mk fun world => drain engine 0 world

end Indexing

end CachedViews
