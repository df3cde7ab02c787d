import CachedViews.Proofs.Embedding.Resolving
import CachedViews.Proofs.Indexing.Handling
import CachedViews.Proofs.Invalidation.Scope
import CachedViews.Proofs.Queue

/-!
How one cycle ends in a calm world: the message is put off, lost to its retry budget, or done
with. A message that is done with leaves no view of a missing entity and a fresh view of an
entity that is there, and when it is not strict it queues the views that its change selects.
-/
namespace CachedViews

/-- What a cycle never changes. -/
structure World.Onward (before after : World) : Prop where
  write : after.write = before.write
  now : after.now = before.now
  calm : after.Calm
  mirrors : after.Mirrors
  failures : before.failures.entries ≠ [] → after.failures.entries ≠ []

theorem World.Onward.trans {first second third : World} (one : first.Onward second)
    (two : second.Onward third) : first.Onward third :=
  ⟨two.write.trans one.write, two.now.trans one.now, two.calm, two.mirrors,
    fun lost => two.failures (one.failures lost)⟩

/-- The time limit ends with the cycle, and what comes after it touches neither store. -/
theorem World.Onward.finished {world middle : World} (onward : world.Onward middle)
    (metrics : Metrics) (queue : Queue) {failures : FailureReport}
    (lost : middle.failures.entries ≠ [] → failures.entries ≠ []) :
    world.Onward { middle with cycle := none, metrics, failures, queue } where
  write := onward.write
  now := onward.now
  calm := onward.calm.of_faults rfl onward.calm.writable onward.calm.readable
  mirrors := onward.mirrors
  failures := lost ∘ onward.failures

namespace Indexing

open CachedViews.Action WriteStore

variable {engine : Engine} {world : World} {store : MemoryViews} {message : Message}

/-- Why a cycle can be refused: its message is ahead of the watermark, or an injected failure
is left. -/
def Refusable (message : Message) (snapshot : Sid) (store : MemoryViews) : Prop :=
  (∃ sid, message.sid = some sid ∧ snapshot < sid) ∨ store.failingPuts ≠ 0

/-- The messages that a rebuilt view queues. -/
def secondaries (message : Message) (record : EntityRecord) (keys : SortedSet EntityKey) :
    List Message :=
  keys.toList.map fun key =>
    { Message.secondary key (some record.sid) with telemetryId := message.telemetryId }

/-- Views to rebuild after one that was rebuilt: those that the change selects, and the targets
of its changed links. -/
def fanOut (engine : Engine) (write : WriteStore) (store : MemoryViews) (message : Message)
    (record : EntityRecord) (since : Option Sid) : SortedSet EntityKey :=
  (Invalidation.scopeIn engine write store message.uuid record.itemType message.diff).union
    (SortedSet.ofList (keysIn write (Invalidation.changedTargets record.uuid
      (Invalidation.linkSets engine.registry write record since)).toList))

/-- What the queue becomes when a view was rebuilt. -/
def queued (engine : Engine) (world : World) (store : MemoryViews) (message : Message)
    (record : EntityRecord) (since : Option Sid) : Queue :=
  if message.strict then world.queue
  else (world.queue.send .secondary world.now (secondaries message record
    (fanOut engine world.write store message record since))).2

/-- How a rebuild ends, and what it leaves of the queue and the views. -/
inductive Rebuilt (engine : Engine) (message : Message) (snapshot : Sid) (world : World)
    (store : MemoryViews) (after : World) (views : MemoryViews) :
    Except EngineError Outcome → Prop where
  | refused (error : EngineError) (refusable : Refusable message snapshot store) (left : Nat)
    (fewer : left ≤ store.failingPuts) (stored : views = { store with failingPuts := left })
    (queue : after.queue = world.queue) :
    Rebuilt engine message snapshot world store after views (.error error)
  | removed (outcome : Outcome) (missing : world.write.record? message.uuid = none)
    (stored : views = (store.delete message.uuid).2) (queue : after.queue = world.queue) :
    Rebuilt engine message snapshot world store after views (.ok outcome)
  | outdated (outcome : Outcome) (record : EntityRecord) (view : View)
    (found : world.write.record? message.uuid = some record)
    (held : store.views.get? message.uuid = some view) (newer : record.sid < view.sid)
    (stored : views = store) (queue : after.queue = world.queue) :
    Rebuilt engine message snapshot world store after views (.ok outcome)
  | indexed (outcome : Outcome) (record : EntityRecord) (resolution : Resolution)
    (cache : RecordCache) (found : world.write.record? message.uuid = some record)
    (resolved : resolution = Embedding.resolution engine.registry world.write cache
      (engine.registry.embedPaths record.itemType) record)
    (known : ∀ uuid ∈ Embedding.loaded engine.registry world.write
      (engine.registry.embedPaths record.itemType) record,
        cache.record? uuid = world.write.record? uuid)
    (current : ∀ uuid other, cache.record? uuid = some other →
      world.write.record? uuid = some other)
    (stored : views = store.put (resolution.toView snapshot))
    (queue : after.queue = queued engine world (store.put (resolution.toView snapshot)) message
      record ((store.views.get? message.uuid).map View.sid)) :
    Rebuilt engine message snapshot world store after views (.ok outcome)

/-- Queueing what follows a rebuilt view. -/
theorem propagate_on (engine : Engine) (message : Message) (calm : world.Calm)
    (holds : world.Holds store) (consistent : Consistent engine.registry world.write)
    {record : EntityRecord} (found : world.write.record? message.uuid = some record)
    (since : Option Sid) :
    ∃ count stats metrics, (propagate engine message record since).on world =
        (.ok count, { world.counting stats with
          metrics
          queue := (world.queue.send .secondary world.now (secondaries message record
            (fanOut engine world.write store message record since))).2 }) := by
  obtain ⟨stats, selected⟩ := Invalidation.scope_peeks engine calm holds
    (itemTypeOf_of_record? found) message.diff
  have current : world.write.record? record.uuid = some record := record?_uuid found ▸ found
  have targets := Invalidation.linkTargets_on (calm.counting stats) consistent current since
  rw [propagate, on_bind_ok selected, on_bind_ok targets]
  unfold secondaries fanOut
  dsimp only [World.counting]
  split
  · rename_i none
    rw [none]
    exact ⟨_, stats, _, rfl⟩
  · exact ⟨_, stats, _, rfl⟩

/-- Over a read store of either kind something is queued, or nothing at all. -/
theorem propagate_sends {views : Uuid → Option View} (engine : Engine) (message : Message)
    (calm : world.Calm) (loads : world.read.Loads views)
    (consistent : Consistent engine.registry world.write) {record : EntityRecord}
    (current : world.write.record? record.uuid = some record) (since : Option Sid) :
    ∃ count stats metrics messages, (propagate engine message record since).on world =
        (.ok count, { world.counting stats with
          metrics
          queue := (world.queue.send .secondary world.now messages).2 }) := by
  obtain ⟨keys, stats, selected⟩ :=
    Invalidation.scope_returns engine calm loads message.uuid message.diff
  have targets := Invalidation.linkTargets_on (calm.counting stats) consistent current since
  rw [propagate, on_bind_ok selected, on_bind_ok targets]
  split
  · exact ⟨_, stats, _, [], rfl⟩
  · exact ⟨_, stats, _, _, rfl⟩

/-- Only the read store, the queue and the counters are touched. -/
theorem onward_of_same {after : World} (calm : world.Calm) (mirrors : world.Mirrors)
    (write : after.write = world.write) (now : after.now = world.now)
    (faults : after.faults = world.faults) (cache : after.cache = world.cache)
    (failures : after.failures = world.failures) (readable : after.read.available = true) :
    world.Onward after where
  write := write
  now := now
  calm := calm.of_faults faults (write ▸ calm.writable) readable
  mirrors := by
    unfold World.Mirrors
    rw [write, cache]
    exact mirrors
  failures := by
    rw [failures]
    exact id

theorem storeView_cases (message : Message) (snapshot : Sid) (calm : world.Calm)
    (mirrors : world.Mirrors) (holds : world.Holds store)
    (consistent : Consistent engine.registry world.write) {record : EntityRecord}
    (found : world.write.record? message.uuid = some record) {resolution : Resolution}
    {cache : RecordCache}
    (resolved : resolution = Embedding.resolution engine.registry world.write cache
      (engine.registry.embedPaths record.itemType) record)
    (known : ∀ uuid ∈ Embedding.loaded engine.registry world.write
      (engine.registry.embedPaths record.itemType) record,
        cache.record? uuid = world.write.record? uuid)
    (current : ∀ uuid other, cache.record? uuid = some other →
      world.write.record? uuid = some other) :
    ∃ result after views,
      (storeView engine message resolution snapshot).on world = (result, after) ∧
        world.Onward after ∧ after.Holds views ∧
        Rebuilt engine message snapshot world store after views result := by
  have root : resolution.record = record := by
    rw [resolved]
    rfl
  obtain ⟨sids, looked, stored⟩ := viewSids_on calm holds message.uuid
  rw [storeView, on_bind_ok looked]
  dsimp only
  rw [stored, root]
  cases conflicts : ((store.views.get? message.uuid).map View.sid).filter fun stored =>
      (resolution.toView snapshot).sid < stored with
  -- The stored view is of a later revision, and nothing is written.
  | some newer =>
    obtain ⟨held, less⟩ := Option.filter_eq_some_iff.mp conflicts
    obtain ⟨view, there, rfl⟩ := Option.map_eq_some_iff.mp held
    have newer : record.sid < view.sid := by
      rw [← root]
      exact of_decide_eq_true less
    exact ⟨_, _, store, rfl, onward_of_same calm mirrors rfl rfl rfl rfl rfl calm.readable,
      holds, .outdated _ record view found there newer rfl rfl⟩
  | none =>
    dsimp only
    -- An injected failure uses itself up and writes nothing.
    rcases putView_on calm holds (resolution.toView snapshot) with
      ⟨failing, error, read, ended, holdsAfter⟩ | ⟨read, ended, holdsAfter⟩
    · rw [on_bind_error ended]
      have readable := calm.readable_of_holds holds holdsAfter rfl
      exact ⟨_, _, _, rfl, onward_of_same calm mirrors rfl rfl rfl rfl rfl readable, holdsAfter,
        .refused error (Or.inr failing) _ (Nat.sub_le _ _) rfl rfl⟩
    · rw [on_bind_ok ended, on_bind_ok (count_on _ _)]
      have readable := calm.readable_of_holds holds holdsAfter rfl
      dsimp only
      generalize ({ world.metrics with indexed := world.metrics.indexed + 1 } : Metrics) = metrics
      have calmAfter : ({ world with read, metrics } : World).Calm :=
        calm.of_faults rfl calm.writable readable
      by_cases strict : message.strict = true
      · rw [if_pos strict, on_bind_ok (on_pure _ _)]
        refine ⟨_, _, _, rfl, onward_of_same calm mirrors rfl rfl rfl rfl rfl readable,
          holdsAfter.of_read rfl, .indexed _ record resolution cache found resolved known current rfl ?_⟩
        rw [queued, if_pos strict]
      · rw [if_neg strict]
        obtain ⟨count, stats, metrics, propagated⟩ := propagate_on engine message calmAfter
          holdsAfter consistent found ((store.views.get? message.uuid).map View.sid)
        rw [on_bind_ok propagated]
        refine ⟨_, _, _, rfl, onward_of_same calm mirrors rfl rfl rfl rfl rfl ?_,
          (holdsAfter.counting stats).of_read rfl,
          .indexed _ record resolution cache found resolved known current rfl ?_⟩
        · exact (World.counted_available _ _).trans readable
        · rw [queued, if_neg strict]

/-- A cycle depends on the write store, the read store, the queue and the clock alone. -/
theorem Rebuilt.of_same {snapshot : Sid} {other after : World} {views : MemoryViews}
    {result : Except EngineError Outcome}
    (rebuilt : Rebuilt engine message snapshot other store after views result)
    (write : other.write = world.write) (same : other.queue = world.queue)
    (now : other.now = world.now) :
    Rebuilt engine message snapshot world store after views result := by
  cases rebuilt with
  | refused error refusable left fewer stored queue =>
    exact .refused error refusable left fewer stored (queue.trans same)
  | removed outcome missing stored queue =>
    exact .removed outcome (write ▸ missing) stored (queue.trans same)
  | outdated outcome record view found held newer stored queue =>
    exact .outdated outcome record view (write ▸ found) held newer stored (queue.trans same)
  | indexed outcome record resolution cache found resolved known current stored queue =>
    refine .indexed outcome record resolution cache (write ▸ found) (write ▸ resolved)
      (write ▸ known) (write ▸ current) stored (queue.trans ?_)
    simp only [queued, write, same, now]

/-- One cycle, however it ends. -/
theorem rebuild_cases (message : Message) (snapshot : Sid) (calm : world.Calm)
    (mirrors : world.Mirrors) (holds : world.Holds store)
    (consistent : Consistent engine.registry world.write) :
    ∃ result after views, (rebuild engine message snapshot).on world = (result, after) ∧
      world.Onward after ∧ after.Holds views ∧
        Rebuilt engine message snapshot world store after views result := by
  rw [rebuild]
  rcases requireCovered_cases message snapshot world with covered | ⟨⟨error, refused⟩, ahead⟩
  · rw [on_bind_ok covered]
    cases found : world.write.record? message.uuid with
    | none =>
      rw [on_bind_ok (orNotFound_on_missing (Embedding.resolve_on_missing calm found))]
      dsimp only
      obtain ⟨existed, read, ended, holdsAfter⟩ := deleteView_on calm holds message.uuid
      rw [removeView, on_bind_ok ended, on_bind_ok (count_on _ _)]
      have readable := calm.readable_of_holds holds holdsAfter (store.delete_available _)
      exact ⟨_, _, _, rfl, onward_of_same calm mirrors rfl rfl rfl rfl rfl readable,
        holdsAfter.of_read rfl, .removed _ found rfl rfl⟩
    | some record =>
      rw [on_bind_ok (orNotFound_on (Embedding.resolve_on calm mirrors found))]
      dsimp only
      -- What was loaded before the view is stored is all that its document looks up.
      obtain ⟨loads, all⟩ : ∃ loads, loads = Embedding.loaded engine.registry world.write
        (engine.registry.embedPaths record.itemType) record := ⟨_, rfl⟩
      rw [← all]
      have known : ∀ uuid ∈ Embedding.loaded engine.registry world.write
          (engine.registry.embedPaths record.itemType) record,
          (world.knowing loads).cache.record? uuid = world.write.record? uuid := by
        intro uuid listed
        rw [← all] at listed
        exact World.knowing_record? loads listed
      obtain ⟨result, after, views, ended, onward, holdsAfter, rebuilt⟩ := @storeView_cases engine
        (world.knowing loads) store message snapshot (calm.knowing loads) (mirrors.knowing loads)
        holds consistent record found _ (world.knowing loads).cache rfl known
        (mirrors.knowing loads).current
      have loading : world.Onward (world.knowing loads) :=
        ⟨rfl, rfl, calm.knowing loads, mirrors.knowing loads, id⟩
      exact ⟨result, after, views, ended, loading.trans onward, holdsAfter,
        rebuilt.of_same rfl rfl rfl⟩
  · rw [on_bind_error refused]
    exact ⟨_, _, store, rfl, onward_of_same calm mirrors rfl rfl rfl rfl rfl calm.readable, holds,
      .refused error (Or.inl ahead) store.failingPuts (Nat.le_refl _) rfl rfl⟩

/-- How a delivery ends, and what it leaves of the queue and the views. -/
inductive Handled (engine : Engine) (delivery : Delivery) (snapshot : Sid) (world : World)
    (store : MemoryViews) (after : World) (views : MemoryViews) : Prop where
  | lost (refusable : Refusable delivery.message snapshot store)
    (lost : after.failures.entries ≠ []) (left : Nat) (fewer : left ≤ store.failingPuts)
    (stored : views = { store with failingPuts := left })
    (queue : after.queue = (world.queue.ack delivery.receipt).2)
  | postponed (refusable : Refusable delivery.message snapshot store) (left : Nat)
    (fewer : left ≤ store.failingPuts) (attempts : UInt32) (notBefore : Instant)
    (stored : views = { store with failingPuts := left })
    (queue : after.queue = ((world.queue.sendDeferred { delivery.message with attempts }
      notBefore).ack delivery.receipt).2)
  | done (outcome : Outcome) (middle : World)
    (rebuilt : Rebuilt engine delivery.message snapshot world store middle views (.ok outcome))
    (queue : after.queue = (middle.queue.ack delivery.receipt).2)

theorem process_cases (delivery : Delivery) (snapshot : Sid) (calm : world.Calm)
    (mirrors : world.Mirrors) (holds : world.Holds store)
    (consistent : Consistent engine.registry world.write) :
    ∃ outcome after views, (process engine delivery snapshot).on world = (.ok outcome, after) ∧
      world.Onward after ∧ after.Holds views ∧
        Handled engine delivery snapshot world store after views := by
  obtain ⟨running, outcome, metrics, failures, queue, ended, finished⟩ :=
    process_on engine delivery snapshot world
  have calmRunning : ({ world with cycle := some running } : World).Calm :=
    calm.of_faults rfl calm.writable calm.readable
  obtain ⟨result, middle, views, cycled, onward, holdsAfter, rebuilt⟩ := rebuild_cases
    delivery.message snapshot calmRunning mirrors holds consistent
  rw [cycled] at ended finished
  have beginning : world.Onward { world with cycle := some running } :=
    ⟨rfl, rfl, calmRunning, mirrors, id⟩
  have passed := beginning.trans onward
  have alike : Rebuilt engine delivery.message snapshot world store middle views result :=
    rebuilt.of_same rfl rfl rfl
  refine ⟨outcome, _, views, ended, ?_⟩
  cases finished with
  | ended done report left =>
    subst done report left
    exact ⟨passed.finished _ _ id, holdsAfter.of_read rfl, .done outcome middle alike rfl⟩
  | reported attempts reason error failed lost report left =>
    subst failed report left
    obtain ⟨error, refusable, failing, fewer, stored, sent⟩ := alike
    have reported : (middle.failures.record { delivery.message with attempts } reason).2.entries ≠
        [] := List.append_ne_nil_of_right_ne_nil _ (List.cons_ne_nil _ _)
    exact ⟨passed.finished _ _ fun _ => reported, holdsAfter.of_read rfl,
      .lost refusable reported failing fewer stored (by rw [sent])⟩
  | putOff attempts delay notBefore error failed waits report left =>
    subst failed report left
    obtain ⟨error, refusable, failing, fewer, stored, sent⟩ := alike
    exact ⟨passed.finished _ _ id, holdsAfter.of_read rfl,
      .postponed refusable failing fewer attempts notBefore stored (by rw [sent])⟩

end Indexing

end CachedViews
