import CachedViews.Proofs.Indexing.Batch
import CachedViews.Proofs.Service.Reindexing

/-!
Runs of everything a caller can do, and what one command does to the stores and the queue.
-/
namespace CachedViews

/-- The same engine with another limit on its batches. -/
def Engine.taking (engine : Engine) (size : Nat) : Engine :=
  { engine with pipeline := { engine.pipeline with batchSize := size } }

/-- What edits leave once a batch has handled their messages. -/
def Edit.indexed (engine : Engine) (edits : List Edit) : World :=
  ((Indexing.processBatch (engine.taking 10)).on (worldAfter engine edits)).2

/-- What a caller can do to a running engine: besides the work itself, time may pass and the
next writes of views may be made to fail. -/
inductive Command where
  | edit (change : Edit)
  | reindex (options : ReindexOptions)
  | processBatch (size : Nat)
  | advance (span : Duration)
  | failPuts (count : Nat)

namespace Command

/-- The entity that a command puts. -/
def written? : Command → Option Uuid
  | edit (.put uuid _ _ _) => some uuid
  | _ => none

/-- Puts, reindexing, the work itself and the passing of time. -/
def isSteady : Command → Bool
  | edit (.purge _) => false
  | failPuts _ => false
  | _ => true

open CachedViews.Action WriteStore

def action (engine : Engine) : Command → Action Unit
  | edit change => change.action engine
  | reindex options => discard (Service.reindex options)
  | processBatch size => discard (Indexing.processBatch (engine.taking size))
  | advance span => Action.sleep span
  | failPuts count => modify fun world => { world with read := world.read.failNextPuts count }

/-- The world that a command leaves, whether it ends well or not. -/
def after (engine : Engine) (world : World) (command : Command) : World :=
  ((command.action engine).on world).2

def run (engine : Engine) (commands : List Command) (world : World) : World :=
  commands.foldl (after engine) world

/-- The world that commands make out of empty stores in memory. -/
def worldAfter (engine : Engine) (commands : List Command) : World :=
  run engine commands (.start (.memory .empty))

/-- Between two commands nothing is in flight and the index of the views is right. -/
structure Ready (registry : Registry) (world : World) (store : MemoryViews) : Prop where
  calm : world.Calm
  consistent : Consistent registry world.write
  holds : world.Holds store
  mirrored : store.Mirrored
  queue : Queue.Sound world.queue []

theorem Ready.start (registry : Registry) : Ready registry (.start (.memory .empty)) .empty where
  calm := ⟨rfl, rfl, rfl, rfl, rfl, rfl, rfl⟩
  consistent := .empty
  holds := .of_memory rfl
  mirrored := .empty
  queue := .empty

/-- What a command does to the write store, the views and the queue. -/
inductive Effect (engine : Engine) (world : World) (store : MemoryViews) (after : World)
    (views : MemoryViews) : Command → Prop where
  | still {command : Command} (write : after.write = world.write)
    (queue : after.queue = world.queue) (stored : views = store) :
    Effect engine world store after views command
  | failing {count : Nat} (write : after.write = world.write)
    (queue : after.queue = world.queue) (stored : views = { store with failingPuts := count }) :
    Effect engine world store after views (.failPuts count)
  | wrote {base : Option Sid} (new : EntityRecord) (diff : Option (List String))
    (wrote : Wrote world.write new after.write)
    (told : diff = (world.write.record? new.uuid).map fun old =>
      FieldDiff.encode new.itemType old.properties new.properties)
    (queue : after.queue = { world.queue with
      primary := world.queue.primary ++ [.primary ⟨new.itemType, new.uuid⟩ (some new.sid) diff] })
    (stored : views = store) :
    Effect engine world store after views (.edit (.put new.uuid new.itemType new.properties base))
  | purged {uuid : Uuid} (record : EntityRecord) (found : world.write.record? uuid = some record)
    (purged : Purged world.write uuid after.write)
    (queue : after.queue = (world.queue.send .secondary world.now (Service.unlinkedMessages
      after.write ((record.links.toList.map Link.target).filter fun target => target ≠ uuid))).2)
    (stored : views = (store.delete uuid).2) :
    Effect engine world store after views (.edit (.purge uuid))
  | requeued {options : ReindexOptions} (messages : List Message)
    (requests : Service.Requests world.write.Lives (options.strict || options.types.isNone)
      messages)
    (complete : options.types = none → options.skipPropagation = false →
      ∀ uuid record, world.write.record? uuid = some record →
        (∃ message ∈ messages, message.uuid = uuid) ∨ Freshness.IsFresh world.write store uuid)
    (write : after.write = world.write)
    (queue : after.queue = { Service.requeueBase options world.queue with
      primary := (Service.requeueBase options world.queue).primary ++ messages })
    (stored : views = store) :
    Effect engine world store after views (.reindex options)
  | batch {size : Nat} (deliveries : List Delivery) (started last : World)
    (taken : Queue.Taken world.queue deliveries started.queue) (onward : world.Onward started)
    (cycles : Indexing.Cycles (engine.taking size) world.write.maxSid deliveries started store last
      views)
    (write : after.write = world.write) (queue : after.queue = last.queue)
    (failures : after.failures = last.failures) :
    Effect engine world store after views (.processBatch size)

variable {engine : Engine} {world : World} {store : MemoryViews}

/-- What one command guarantees. -/
def Steps (engine : Engine) (world : World) (store : MemoryViews) (command : Command) : Prop :=
  ∃ views, Ready engine.registry (after engine world command) views ∧
    Effect engine world store (after engine world command) views command ∧
      (world.failures.entries ≠ [] → (after engine world command).failures.entries ≠ [])

section

variable (ready : Ready engine.registry world store)
include ready

theorem steps_put (uuid : Uuid) (itemType : ItemType) (properties : Properties)
    (base : Option Sid) :
    Steps engine world store (.edit (.put uuid itemType properties base)) := by
  obtain ⟨calm, consistent, holds, mirrored, queue⟩ := ready
  rw [Steps, after, action, Edit.action, after_discard]
  rcases Service.put_cases calm consistent uuid itemType properties base with
    ⟨error, ended⟩ | ⟨stored, next, ended, placed⟩
  · rw [ended]
    exact ⟨store, ⟨calm, consistent, holds, mirrored, queue⟩, .still rfl rfl rfl, id⟩
  · rw [ended, Queue.send_primary]
    obtain ⟨new, wrote, rfl, rfl, rfl, stamped⟩ := placed.wrote
    have writable := wrote.available.trans calm.writable
    exact ⟨store, ⟨calm.of_faults rfl writable calm.readable, placed.consistent, holds.of_read rfl,
      mirrored, ⟨queue.waiting, queue.inFlight⟩⟩,
      .wrote new stored.diff wrote placed.diff (by rw [stamped]) rfl, id⟩

theorem steps_purge (uuid : Uuid) : Steps engine world store (.edit (.purge uuid)) := by
  obtain ⟨calm, consistent, holds, mirrored, queue⟩ := ready
  rw [Steps, after, action, Edit.action]
  rcases Service.purge_cases calm consistent holds uuid with
    ⟨error, ended⟩ | ⟨record, next, read, found, ended, remaining, kept, purged⟩
  · rw [ended]
    exact ⟨store, ⟨calm, consistent, holds, mirrored, queue⟩, .still rfl rfl rfl, id⟩
  · rw [ended]
    have writable := purged.available.trans calm.writable
    have readable := calm.readable_of_holds holds remaining (store.delete_available uuid)
    exact ⟨(store.delete uuid).2, ⟨calm.of_faults rfl writable readable, kept, remaining.of_read rfl,
      mirrored.delete uuid, (Queue.sent_secondary queue world.now _).sound queue⟩,
      .purged record found purged rfl rfl, id⟩

theorem steps_reindex (options : ReindexOptions) :
    Steps engine world store (.reindex options) := by
  obtain ⟨calm, consistent, holds, mirrored, queue⟩ := ready
  obtain ⟨report, stats, messages, reindexRuns, ended, requests, complete⟩ :=
    Service.reindex_on options calm holds consistent
  rw [Steps, after, action, after_discard, ended]
  have calmBase : ({ world with reindexRuns, queue := Service.requeueBase options world.queue } :
      World).Calm :=
    calm.of_faults rfl calm.writable calm.readable
  refine ⟨store, ⟨Service.calm_queueing calmBase stats messages, consistent,
    (holds.counting stats).of_read rfl, mirrored, ?_⟩, .requeued messages requests complete rfl rfl
    rfl, id⟩
  -- Purging a queue takes its marks along with the messages that they stand for.
  have base : Queue.Sound (Service.requeueBase options world.queue) [] := by
    unfold Service.requeueBase
    split
    · exact ⟨fun _ inside => absurd inside (SortedSet.not_mem_emptyCollection _), queue.inFlight⟩
    · exact queue
  exact ⟨base.waiting, base.inFlight⟩

theorem steps_processBatch (size : Nat) : Steps engine world store (.processBatch size) := by
  obtain ⟨calm, consistent, holds, mirrored, queue⟩ := ready
  obtain ⟨deliveries, handled, started, last, views, ended, taken, onward, further, held, cycles⟩ :=
    Indexing.processBatch_on (engine.taking size) calm holds consistent queue
  rw [Steps, after, action, after_discard, ended]
  have write : last.write = world.write := further.write.trans onward.write
  refine ⟨views, ⟨further.calm.withCache _, write ▸ consistent, held.of_read rfl,
    cycles.mirrored mirrored, ?_⟩, .batch deliveries started last taken onward cycles write rfl rfl,
    fun lost => further.failures (onward.failures lost)⟩
  apply cycles.sound
  have received := taken.sound [] queue
  rwa [List.append_nil] at received

theorem steps_advance (span : Duration) : Steps engine world store (.advance span) := by
  obtain ⟨calm, consistent, holds, mirrored, queue⟩ := ready
  -- A cycle under way may cut the sleep short; either way only the clock moves.
  obtain ⟨result, now, ended⟩ : ∃ result now, (sleep span).on world =
      (result, { world with now }) := by
    rw [sleep, on_bind_ok (on_get world)]
    cases world.cycle with
    | none => exact ⟨_, _, rfl⟩
    | some cycle =>
      dsimp only
      split <;> exact ⟨_, _, rfl⟩
  rw [Steps, after, action, ended]
  exact ⟨store, ⟨calm.of_faults rfl calm.writable calm.readable, consistent, holds.of_read rfl,
    mirrored, queue⟩, .still rfl rfl rfl, id⟩

theorem steps_failPuts (count : Nat) : Steps engine world store (.failPuts count) := by
  obtain ⟨calm, consistent, holds, mirrored, queue⟩ := ready
  obtain ⟨stats, memory⟩ := holds
  rw [Steps, after, action, on_modify]
  have failing : ({ world with read := world.read.failNextPuts count } : World).Holds
      { store with failingPuts := count } := by
    refine ⟨stats, ?_⟩
    rw [memory]
    rfl
  have readable := calm.readable_of_holds ⟨stats, memory⟩ failing rfl
  exact ⟨{ store with failingPuts := count }, ⟨calm.of_faults rfl calm.writable readable,
    consistent, failing, mirrored.failing count, queue⟩, .failing rfl rfl rfl, id⟩

/-- One command leaves a ready world, and never unsays a failure. -/
theorem steps (command : Command) : Steps engine world store command := by
  cases command with
  | edit change =>
    cases change with
    | put uuid itemType properties base => exact steps_put ready uuid itemType properties base
    | purge uuid => exact steps_purge ready uuid
  | reindex options => exact steps_reindex ready options
  | processBatch size => exact steps_processBatch ready size
  | advance span => exact steps_advance ready span
  | failPuts count => exact steps_failPuts ready count

end

/-- A whole run leaves a ready world, and a reported failure stays reported. -/
theorem ready_run (ready : Ready engine.registry world store) (commands : List Command) :
    (∃ views, Ready engine.registry (run engine commands world) views) ∧
      (world.failures.entries ≠ [] → (run engine commands world).failures.entries ≠ []) := by
  induction commands generalizing world store with
  | nil => exact ⟨⟨store, ready⟩, id⟩
  | cons command rest ih =>
    obtain ⟨views, readyAfter, -, keeps⟩ := steps ready command
    obtain ⟨readyRun, keepsRun⟩ := ih readyAfter
    exact ⟨readyRun, fun lost => keepsRun (keeps lost)⟩

end Command

end CachedViews
