import CachedViews.Indexing
import CachedViews.Proofs.Running

/-!
Handling one delivery in any world. After its cycle a delivery is acknowledged in every case; a
cycle that failed leaves its message waiting for another try or in the failure report.
-/
namespace CachedViews

/-- The world at the start of a cycle, with its time limit. -/
def World.starting (engine : Engine) (world : World) (uuid : Uuid) : World :=
  { world with cycle := some ⟨uuid, world.now, engine.pipeline.operationTimeout⟩ }

namespace Indexing

open CachedViews.Action

theorem requireCovered_cases (message : Message) (snapshot : Sid) (world : World) :
    (requireCovered message snapshot).on world = (.ok (), world) ∨
      (∃ error, (requireCovered message snapshot).on world = (.error error, world)) ∧
        ∃ sid, message.sid = some sid ∧ snapshot < sid := by
  unfold requireCovered
  cases stamped : message.sid with
  | none => exact Or.inl rfl
  | some sid =>
    dsimp only
    by_cases ahead : snapshot < sid
    · rw [if_pos ahead]
      exact Or.inr ⟨⟨_, rfl⟩, sid, rfl, ahead⟩
    · rw [if_neg ahead]
      exact Or.inl rfl

theorem limited_on {α : Type} (engine : Engine) (uuid : Uuid) (cycle : Action α) (world : World) :
    (limited engine uuid cycle).on world = (.ok (cycle.on (world.starting engine uuid)).1,
      { (cycle.on (world.starting engine uuid)).2 with cycle := none }) := by
  rw [limited, on_bind_ok (on_get world), on_bind_ok (on_modify _ _), on_bind, on_tryCatch, on_map,
    World.starting]
  rcases cycle.on { world with cycle := some ⟨uuid, world.now, engine.pipeline.operationTimeout⟩ }
    with ⟨error | value, after⟩ <;> rfl

theorem failureReason_on (error : EngineError) (world : World) :
    ∃ reason metrics, (failureReason error).on world = (.ok reason, { world with metrics }) := by
  unfold failureReason
  split <;> exact ⟨_, _, rfl⟩

/-- What becomes of a delivery after its cycle. -/
inductive Finished (engine : Engine) (delivery : Delivery) (cycle : Except EngineError Outcome × World)
    (outcome : Outcome) (failures : FailureReport) (queue : Queue) : Prop where
  | ended (done : cycle.1 = .ok outcome) (report : failures = cycle.2.failures)
    (left : queue = (cycle.2.queue.ack delivery.receipt).2)
  | reported (attempts : UInt32) (reason : String) (error : EngineError)
    (failed : cycle.1 = .error error) (lost : outcome = .failed attempts)
    (report : failures =
      (cycle.2.failures.record { delivery.message with attempts } reason).2)
    (left : queue = (cycle.2.queue.ack delivery.receipt).2)
    (counted : attempts = delivery.message.attempts + 1)
  | putOff (attempts : UInt32) (delay : Duration) (notBefore : Instant) (error : EngineError)
    (failed : cycle.1 = .error error) (waits : outcome = .deferred attempts delay)
    (report : failures = cycle.2.failures)
    (left : queue = ((cycle.2.queue.sendDeferred { delivery.message with attempts }
      notBefore).ack delivery.receipt).2)
    (counted : attempts = delivery.message.attempts + 1)
    (fewer : attempts < engine.pipeline.retry.maxAttempts)

/-- Only the queue, the failure report and the counters change once the cycle is over. -/
theorem process_starting (engine : Engine) (delivery : Delivery) (snapshot : Sid) (world : World) :
    ∃ outcome metrics failures queue,
      let cycle := (rebuild engine delivery.message snapshot).on
        (world.starting engine delivery.message.uuid)
      (process engine delivery snapshot).on world =
          (.ok outcome, { cycle.2 with cycle := none, metrics, failures, queue }) ∧
        Finished engine delivery cycle outcome failures queue := by
  rw [process]
  dsimp only
  rw [on_bind_ok (limited_on engine delivery.message.uuid _ world)]
  rcases (rebuild engine delivery.message snapshot).on
    (world.starting engine delivery.message.uuid) with ⟨error | outcome, after⟩
  · dsimp only
    obtain ⟨reason, metrics, told⟩ := failureReason_on error { after with cycle := none }
    rw [on_bind_ok told, defer]
    dsimp only
    split
    · exact ⟨_, _, _, _, rfl, .reported _ reason error rfl rfl rfl rfl rfl⟩
    · rename_i more
      exact ⟨_, _, _, _, rfl, .putOff _ _ _ error rfl rfl rfl rfl rfl (UInt32.not_le.mp more)⟩
  · exact ⟨_, _, _, _, rfl, .ended rfl rfl rfl⟩

theorem process_on (engine : Engine) (delivery : Delivery) (snapshot : Sid) (world : World) :
    ∃ running outcome metrics failures queue,
      let cycle := (rebuild engine delivery.message snapshot).on { world with cycle := some running }
      (process engine delivery snapshot).on world =
          (.ok outcome, { cycle.2 with cycle := none, metrics, failures, queue }) ∧
        Finished engine delivery cycle outcome failures queue :=
  ⟨_, process_starting engine delivery snapshot world⟩

end Indexing

end CachedViews
