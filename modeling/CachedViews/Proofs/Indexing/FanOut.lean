import CachedViews.Proofs.Asking.Cycles
import CachedViews.Proofs.Queue.Passing

/-!
What a cycle sends. It looks everything up first and hands its messages to the queue at the end, all
at once, so what they are does not depend on what the queue holds.
-/
namespace CachedViews

namespace Indexing

open CachedViews.Action

/-- Messages for the dependents of a change and for the targets whose links changed. -/
def dependents (engine : Engine) (message : Message) (record : EntityRecord)
    (storedSid : Option Sid) : Action (List Message) := do
  let scope ← Invalidation.scope engine message.uuid message.diff
  let targets ← Invalidation.linkTargets engine record storedSid
  return (scope.union targets).toList.map fun key =>
    { Message.secondary key (some record.sid) with telemetryId := message.telemetryId }

/-- Gives messages to the queue, if there are any; counts those that were not absorbed. -/
def handOver (messages : List Message) : Action Nat :=
  match messages with
  | [] => pure 0
  | messages => do
    let added ← Action.send .secondary messages
    Action.count fun metrics =>
      { metrics with secondaryQueued := metrics.secondaryQueued + added }
    return added

/-- A cycle up to the point where it sends: how it ended before, or the stamp of the view that it
stored and the messages that are due. -/
def prepare (engine : Engine) (message : Message) (snapshot : Sid) :
    Action (Outcome ⊕ Sid × List Message) := do
  requireCovered message snapshot
  match ← Action.orNotFound (Embedding.resolve engine.registry message.uuid none) with
  | none => return .inl (← removeView message.uuid)
  | some resolution =>
    let view := resolution.toView snapshot
    let storedSid := (← Action.viewSids [message.uuid]).get? message.uuid
    match storedSid.filter fun stored => view.sid < stored with
    | some stored =>
      Action.count fun metrics => { metrics with versionConflicts := metrics.versionConflicts + 1 }
      return .inl (.versionConflict stored view.sid)
    | none =>
      Action.putView view
      Action.count fun metrics => { metrics with indexed := metrics.indexed + 1 }
      let messages ←
        if message.strict then pure []
        else dependents engine message resolution.record storedSid
      return .inr (view.sid, messages)

def conclude : Outcome ⊕ Sid × List Message → Action Outcome
  | .inl outcome => pure outcome
  | .inr (sid, messages) => return .indexed sid (← handOver messages)

variable (engine : Engine) (message : Message) (snapshot : Sid)

theorem propagate_eq (record : EntityRecord) (storedSid : Option Sid) :
    propagate engine message record storedSid =
      dependents engine message record storedSid >>= handOver := by
  simp only [propagate, dependents, bind_assoc, pure_bind]
  refine bind_congr fun scope => bind_congr fun targets => ?_
  split
  · rename_i none
    rw [none]
    rfl
  · rename_i keys some
    cases listed : (scope.union targets).toList with
    | nil => exact absurd listed some
    | cons first rest => rfl

/-- A cycle is what it does before it sends, and then what it sends. -/
theorem rebuild_eq :
    rebuild engine message snapshot = prepare engine message snapshot >>= conclude := by
  simp only [rebuild, prepare, bind_assoc]
  refine bind_congr fun _ => bind_congr fun found => ?_
  cases found with
  | none => simp only [bind_assoc, pure_bind, conclude, bind_pure]
  | some resolution =>
    simp only [storeView, bind_assoc]
    refine bind_congr fun sids => ?_
    cases (sids.get? message.uuid).filter fun stored =>
        (resolution.toView snapshot).sid < stored with
    | some stored => simp only [bind_assoc, pure_bind, conclude]
    | none =>
      simp only [bind_assoc, pure_bind]
      refine bind_congr fun _ => bind_congr fun _ => ?_
      cases message.strict with
      | true => simp only [if_true, pure_bind, conclude, handOver]
      | false =>
        simp only [Bool.false_eq_true, if_false, propagate_eq, bind_assoc, pure_bind, conclude]

theorem dependents_looks (record : EntityRecord) (storedSid : Option Sid) :
    (dependents engine message record storedSid).Looks :=
  (Invalidation.scope_looks engine _ _).bind fun _ =>
    (Invalidation.linkTargets_looks engine record storedSid).bind fun _ => keeps_pure _

theorem prepare_posts {M : Message → Prop} :
    (prepare engine message snapshot).Posts M fun _ => True := by
  have resolving := (Embedding.resolve_looks engine.registry message.uuid none).orNotFound
  refine Keeps.bind (fun world => ?_) fun _ => resolving.posts.bind fun found => ?_
  · rcases requireCovered_cases message snapshot world with same | ⟨⟨error, same⟩, -⟩ <;>
    · rw [same]
      exact World.Chain.refl world
  cases found with
  | none => exact (removeView_posts message.uuid).bind fun _ => keeps_pure _
  | some resolution =>
    refine (viewSids_looks _).posts.bind fun sids => ?_
    dsimp only
    split
    · exact (count_looks _).posts.bind fun _ => keeps_pure _
    · refine (putView_posts trivial).bind fun _ => (count_looks _).posts.bind fun _ => ?_
      split
      · exact (keeps_pure _).bind fun _ => keeps_pure _
      · exact (dependents_looks engine message _ _).posts.bind fun _ => keeps_pure _

/-- Before it sends, a cycle leaves the queue alone. -/
theorem prepare_queue (world : World) :
    ((prepare engine message snapshot).on world).2.queue = world.queue := by
  obtain ⟨posts, left, none⟩ :=
    (prepare_posts engine message snapshot (M := fun _ => False) world).posts
  rw [left]
  clear left
  induction posts with
  | nil => rfl
  | cons post rest ih =>
    have empty : post.messages = [] := List.eq_nil_iff_forall_not_mem.mpr
      (none post List.mem_cons_self)
    rw [Queue.sendAll, List.foldl_cons, empty]
    exact ih fun other listed => none other (List.mem_cons_of_mem _ listed)

/-- What a cycle may come to before it sends. -/
inductive Prepared (message : Message) : Outcome ⊕ Sid × List Message → Prop where
  | removed : Prepared message (.inl .removed)
  | outdated (stored sid : Sid) : Prepared message (.inl (.versionConflict stored sid))
  | stored (sid : Sid) (messages : List Message) (alone : message.strict = true → messages = [])
    (plain : ∀ sent ∈ messages, sent.strict = true ∧ sent.attempts = 0) :
    Prepared message (.inr (sid, messages))

variable {engine message snapshot} {world after : World}

theorem dependents_plain {record : EntityRecord} {storedSid : Option Sid} {messages : List Message}
    (ended : (dependents engine message record storedSid).on world = (.ok messages, after)) :
    ∀ sent ∈ messages, sent.strict = true ∧ sent.attempts = 0 := by
  obtain ⟨scope, _, -, ended⟩ := bind_ok ended
  obtain ⟨targets, _, -, ended⟩ := bind_ok ended
  cases ended
  intro sent listed
  obtain ⟨key, -, rfl⟩ := List.mem_map.mp listed
  exact ⟨rfl, rfl⟩

theorem prepare_prepared {result : Outcome ⊕ Sid × List Message}
    (ended : (prepare engine message snapshot).on world = (.ok result, after)) :
    Prepared message result := by
  obtain ⟨_, _, -, ended⟩ := bind_ok ended
  obtain ⟨found, _, -, ended⟩ := bind_ok ended
  cases found with
  | none =>
    obtain ⟨outcome, _, removing, ended⟩ := bind_ok ended
    obtain ⟨_, _, -, removing⟩ := bind_ok removing
    obtain ⟨_, _, -, removing⟩ := bind_ok removing
    cases removing
    cases ended
    exact .removed
  | some resolution =>
    obtain ⟨sids, _, -, ended⟩ := bind_ok ended
    dsimp only at ended
    split at ended
    · obtain ⟨_, _, -, ended⟩ := bind_ok ended
      cases ended
      exact .outdated _ _
    · obtain ⟨_, _, -, ended⟩ := bind_ok ended
      obtain ⟨_, _, -, ended⟩ := bind_ok ended
      split at ended
      · cases ended
        exact .stored _ [] (fun _ => rfl) fun _ never => nomatch never
      · rename_i strict
        obtain ⟨messages, _, looked, ended⟩ := bind_ok ended
        cases ended
        exact .stored _ messages (fun alone => absurd alone strict) (dependents_plain looked)

/-- The messages that a cycle for a message sends when it meets the world. -/
def sends (engine : Engine) (message : Message) (snapshot : Sid) (world : World) : List Message :=
  match ((prepare engine message snapshot).on (world.starting engine message.uuid)).1 with
  | .ok (.inr (_, messages)) => messages
  | _ => []

/-- What handling a delivery leaves of the queue: its messages are sent and it is finished, or it
failed and waits for another try. -/
inductive Handles (engine : Engine) (delivery : Delivery) (queue : Queue) :
    Outcome → List Message → Queue → Prop where
  | ended {outcome : Outcome} {sent : List Message} (time : Instant)
    (final : ∀ attempts delay, outcome ≠ .deferred attempts delay)
    (stored : sent ≠ [] → delivery.message.strict = false ∧
      ∃ sid count, outcome = .indexed sid count)
    (plain : ∀ message ∈ sent, message.strict = true ∧ message.attempts = 0) :
    Handles engine delivery queue outcome sent
      ((queue.send .secondary time sent).2.ack delivery.receipt).2
  | putOff {attempts : UInt32} (delay : Duration) (notBefore : Instant)
    (counted : attempts = delivery.message.attempts + 1)
    (fewer : attempts < engine.pipeline.retry.maxAttempts) :
    Handles engine delivery queue (.deferred attempts delay) []
      ((queue.sendDeferred { delivery.message with attempts } notBefore).ack delivery.receipt).2

theorem handOver_on (messages : List Message) (world : World) :
    ∃ count after, (handOver messages).on world = (.ok count, after) ∧
      after.queue = (world.queue.send .secondary world.now messages).2 := by
  cases messages with
  | nil => exact ⟨0, world, rfl, rfl⟩
  | cons first rest => exact ⟨_, _, rfl, rfl⟩

/-- The queue that a cycle leaves has its messages, and they are the work of a cycle that stored the
view of a message that is not strict. -/
theorem rebuild_sends (engine : Engine) (message : Message) (snapshot : Sid) (world : World) :
    let cycle := (rebuild engine message snapshot).on (world.starting engine message.uuid)
    let sent := sends engine message snapshot world
    (∃ time, cycle.2.queue = (world.queue.send .secondary time sent).2) ∧
      (∀ error, cycle.1 = .error error → sent = []) ∧
      (∀ outcome, cycle.1 = .ok outcome → (∀ attempts delay, outcome ≠ .deferred attempts delay) ∧
        (sent ≠ [] → message.strict = false ∧ ∃ sid count, outcome = .indexed sid count)) ∧
      ∀ other ∈ sent, other.strict = true ∧ other.attempts = 0 := by
  have kept := prepare_queue engine message snapshot (world.starting engine message.uuid)
  dsimp only
  rw [rebuild_eq, on_bind, sends]
  rcases preparing : (prepare engine message snapshot).on (world.starting engine message.uuid)
    with ⟨error | result, ready⟩ <;> rw [preparing] at kept
  · exact ⟨⟨world.now, kept⟩, fun _ _ => rfl, (fun _ done => nomatch done),
      fun _ never => nomatch never⟩
  · cases prepare_prepared preparing with
    | removed =>
      refine ⟨⟨world.now, kept⟩, fun _ _ => rfl, fun outcome done => ?_, fun _ never => nomatch never⟩
      cases done
      exact ⟨fun _ _ => Outcome.noConfusion, fun never => absurd rfl never⟩
    | outdated stored sid =>
      refine ⟨⟨world.now, kept⟩, fun _ _ => rfl, fun outcome done => ?_, fun _ never => nomatch never⟩
      cases done
      exact ⟨fun _ _ => Outcome.noConfusion, fun never => absurd rfl never⟩
    | stored sid messages alone plain =>
      obtain ⟨count, last, handed, queued⟩ := handOver_on messages ready
      have concluded : (conclude (.inr (sid, messages))).on ready =
          (.ok (.indexed sid count), last) := by
        rw [conclude, on_bind_ok handed]
        rfl
      dsimp only
      rw [concluded]
      rw [show ready.queue = world.queue from kept] at queued
      refine ⟨⟨ready.now, queued⟩, (fun _ failed => nomatch failed), fun outcome done => ?_, plain⟩
      cases done
      refine ⟨fun _ _ => Outcome.noConfusion, fun some => ⟨?_, _, _, rfl⟩⟩
      exact Bool.eq_false_iff.mpr fun strict => some (alone strict)

/-- Handling a delivery, in any world. -/
theorem process_handles (engine : Engine) (delivery : Delivery) (snapshot : Sid) (world : World) :
    ∃ outcome after, (process engine delivery snapshot).on world = (.ok outcome, after) ∧
      Handles engine delivery world.queue outcome (sends engine delivery.message snapshot world)
        after.queue := by
  obtain ⟨outcome, metrics, failures, queue, ended, finished⟩ :=
    process_starting engine delivery snapshot world
  obtain ⟨⟨time, queued⟩, failing, ending, plain⟩ :=
    rebuild_sends engine delivery.message snapshot world
  refine ⟨_, _, ended, ?_⟩
  cases finished with
  | ended done report left =>
    obtain ⟨final, stored⟩ := ending outcome done
    rw [left, queued]
    exact .ended time final stored plain
  | reported attempts reason error failed lost report left =>
    have none := failing error failed
    rw [left, lost, queued]
    exact .ended time (fun _ _ => Outcome.noConfusion) (fun some => absurd none some) plain
  | putOff attempts delay notBefore error failed waits report left counted fewer =>
    rw [failing error failed] at queued ⊢
    rw [left, waits, queued]
    exact .putOff delay notBefore counted fewer

end Indexing

end CachedViews
