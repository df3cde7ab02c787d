import CachedViews.Proofs.Indexing.Cycle

/-!
A batch as a run of cycles: messages are taken off the queue, then each is handled in turn under
one watermark and on a cache that starts empty.
-/
namespace CachedViews

namespace Queue

theorem sound_defer {queue : Queue} {receipts : List Nat} (sound : Sound queue receipts)
    (message : Message) (notBefore : Instant) :
    Sound (queue.sendDeferred message notBefore) receipts :=
  ⟨sound.waiting, sound.inFlight⟩

end Queue

namespace MemoryViews

theorem Mirrored.failing {store : MemoryViews} (mirrored : store.Mirrored) (left : Nat) :
    Mirrored { store with failingPuts := left } :=
  ⟨mirrored.own, mirrored.mirrors⟩

end MemoryViews

/-- The deliveries that a batch takes off the queue, and the queue that it leaves. -/
def World.received (engine : Engine) (world : World) : List Delivery × Queue :=
  world.queue.receive engine.reclaim world.now engine.pipeline.visibilityTimeout
    engine.pipeline.batchSize

namespace Indexing

open CachedViews.Action WriteStore

variable {engine : Engine} {world after : World} {store views : MemoryViews} {snapshot : Sid}

section

variable {message : Message} {receipts : List Nat} {outcome : Outcome}
  (rebuilt : Rebuilt engine message snapshot world store after views (.ok outcome))
include rebuilt

theorem Rebuilt.sound (sound : Queue.Sound world.queue receipts) :
    Queue.Sound after.queue receipts := by
  cases rebuilt with
  | removed _ _ _ queue => exact queue ▸ sound
  | outdated _ _ _ _ _ _ _ queue => exact queue ▸ sound
  | indexed _ record resolution cache _ _ _ _ _ queue =>
    rw [queue, queued]
    split
    · exact sound
    · exact (Queue.sent_secondary sound _ _).sound sound

theorem Rebuilt.mirrored (mirrored : store.Mirrored) : views.Mirrored := by
  cases rebuilt with
  | removed _ _ stored _ => exact stored ▸ mirrored.delete _
  | outdated _ _ _ _ _ _ stored _ => exact stored ▸ mirrored
  | indexed _ _ _ _ _ _ _ _ stored _ => exact stored ▸ mirrored.put _

end

section

variable {delivery : Delivery} {receipts : List Nat}
  (handled : Handled engine delivery snapshot world store after views)
include handled

theorem Handled.sound (sound : Queue.Sound world.queue (delivery.receipt :: receipts)) :
    Queue.Sound after.queue receipts := by
  cases handled with
  | lost _ _ _ _ _ queue => exact queue ▸ Queue.ack_sound sound
  | postponed _ _ _ _ _ _ queue => exact queue ▸ Queue.ack_sound (Queue.sound_defer sound _ _)
  | done _ _ rebuilt queue => exact queue ▸ Queue.ack_sound (rebuilt.sound sound)

theorem Handled.mirrored (mirrored : store.Mirrored) : views.Mirrored := by
  cases handled with
  | lost _ _ left _ stored _ => exact stored ▸ mirrored.failing left
  | postponed _ left _ _ _ stored _ => exact stored ▸ mirrored.failing left
  | done _ _ rebuilt _ => exact rebuilt.mirrored mirrored

end

/-- Deliveries handled one after the other. -/
inductive Cycles (engine : Engine) (snapshot : Sid) :
    List Delivery → World → MemoryViews → World → MemoryViews → Prop where
  | done (world : World) (store : MemoryViews) : Cycles engine snapshot [] world store world store
  | next {delivery : Delivery} {rest : List Delivery} {world middle after : World}
    {store views last : MemoryViews} (onward : world.Onward middle)
    (handled : Handled engine delivery snapshot world store middle views)
    (later : Cycles engine snapshot rest middle views after last) :
    Cycles engine snapshot (delivery :: rest) world store after last

theorem Cycles.sound {deliveries : List Delivery}
    (cycles : Cycles engine snapshot deliveries world store after views)
    (sound : Queue.Sound world.queue (deliveries.map Delivery.receipt)) :
    Queue.Sound after.queue [] := by
  induction cycles with
  | done world store => exact sound
  | next onward handled later ih => exact ih (handled.sound sound)

theorem Cycles.mirrored {deliveries : List Delivery}
    (cycles : Cycles engine snapshot deliveries world store after views)
    (mirrored : store.Mirrored) : views.Mirrored := by
  induction cycles with
  | done world store => exact mirrored
  | next onward handled later ih => exact ih (handled.mirrored mirrored)

theorem Cycles.write {deliveries : List Delivery}
    (cycles : Cycles engine snapshot deliveries world store after views) :
    after.write = world.write := by
  induction cycles with
  | done world store => rfl
  | next onward handled later ih => exact ih.trans onward.write

/-- A reported failure stays reported. -/
theorem Cycles.failures {deliveries : List Delivery}
    (cycles : Cycles engine snapshot deliveries world store after views)
    (lost : world.failures.entries ≠ []) : after.failures.entries ≠ [] := by
  induction cycles with
  | done world store => exact lost
  | next onward handled later ih => exact ih (onward.failures lost)

theorem forM_process_on (deliveries : List Delivery) (snapshot : Sid) (calm : world.Calm)
    (mirrors : world.Mirrors) (holds : world.Holds store)
    (consistent : Consistent engine.registry world.write) :
    ∃ after views, (deliveries.forM fun delivery =>
          discard (process engine delivery snapshot)).on world = (.ok (), after) ∧
        world.Onward after ∧ after.Holds views ∧
          Cycles engine snapshot deliveries world store after views := by
  induction deliveries generalizing world store with
  | nil => exact ⟨world, store, rfl, ⟨rfl, rfl, calm, mirrors, id⟩, holds, .done world store⟩
  | cons delivery rest ih =>
    obtain ⟨outcome, middle, views, processed, onward, held, handled⟩ := process_cases delivery
      snapshot calm mirrors holds consistent
    obtain ⟨after, last, ended, further, holdsAfter, cycles⟩ := ih onward.calm onward.mirrors held
      (onward.write ▸ consistent)
    refine ⟨after, last, ?_, onward.trans further, holdsAfter, .next onward handled cycles⟩
    rw [List.forM, on_bind_ok (discard_on_ok processed), ended]

/-- A batch takes messages off the queue, starts on an empty cache and gives back the one that was
there before. -/
theorem processBatch_begins (engine : Engine) (calm : world.Calm) :
    ∃ started, started.queue = (world.received engine).2 ∧
      world.Onward started ∧ started.read = world.read ∧
        ∀ after, ((world.received engine).1.forM fun delivery =>
              discard (process engine delivery world.write.maxSid)).on started = (.ok (), after) →
          ∃ handled, (processBatch engine).on world =
            (.ok handled, after.withCache world.cache) := by
  have received : (receive engine engine.pipeline.batchSize).on world =
      (.ok (world.received engine).1, { world with queue := (world.received engine).2 }) := rfl
  revert received
  generalize world.received engine = result
  obtain ⟨deliveries, queue⟩ := result
  intro received
  rw [processBatch, on_bind_ok received]
  have calmStarted : ∀ metrics, ({ world with queue, metrics, cache := {} } : World).Calm :=
    fun _ => calm.of_faults rfl calm.writable calm.readable
  have mirrors : ∀ metrics, ({ world with queue, metrics, cache := {} } : World).Mirrors := by
    intro metrics uuid entry found
    cases found
  cases deliveries with
  | nil =>
    refine ⟨{ world with queue, cache := {} }, rfl, ⟨rfl, rfl, calmStarted _, mirrors _, id⟩, rfl,
      fun after ended => ?_⟩
    cases ended
    exact ⟨_, rfl⟩
  | cons delivery rest =>
    dsimp only
    rw [on_bind_ok (count_on _ _)]
    dsimp only
    generalize ({ world.metrics with batches := world.metrics.batches + 1 } : Metrics) = metrics
    have calmTaken : ({ world with queue, metrics } : World).Calm :=
      calm.of_faults rfl calm.writable calm.readable
    rw [on_bind_ok (writeMaxSid_on calmTaken)]
    refine ⟨{ world with queue, metrics, cache := {} }, rfl,
      ⟨rfl, rfl, calmStarted metrics, mirrors metrics, id⟩, rfl, fun after ended => ?_⟩
    have cached := Embedding.withCache_on {} ((delivery :: rest).forM fun delivery =>
      discard (process engine delivery world.write.maxSid)) { world with queue, metrics }
    rw [World.withCache, ended] at cached
    rw [on_bind_ok cached]
    exact ⟨_, rfl⟩

/-- A batch handles each delivery that it takes off the queue. -/
theorem processBatch_runs (engine : Engine) (calm : world.Calm) (holds : world.Holds store)
    (consistent : Consistent engine.registry world.write) :
    ∃ handled started after views,
      (processBatch engine).on world = (.ok handled, after.withCache world.cache) ∧
        started.queue = (world.received engine).2 ∧
        world.Onward started ∧ started.Onward after ∧ after.Holds views ∧
          Cycles engine world.write.maxSid (world.received engine).1 started store after views := by
  obtain ⟨started, queue, begins, read, ends⟩ := processBatch_begins engine calm
  obtain ⟨after, views, ended, onward, held, cycles⟩ := forM_process_on _ world.write.maxSid
    begins.calm begins.mirrors (holds.of_read read) (begins.write ▸ consistent)
  obtain ⟨handled, batch⟩ := ends after ended
  exact ⟨handled, started, after, views, batch, queue, begins, onward, held, cycles⟩

/-- Between batches nothing is in flight, so receiving takes messages off the lanes and no more. -/
theorem processBatch_on (engine : Engine) (calm : world.Calm) (holds : world.Holds store)
    (consistent : Consistent engine.registry world.write)
    (sound : Queue.Sound world.queue []) :
    ∃ deliveries handled started after views,
      (processBatch engine).on world = (.ok handled, after.withCache world.cache) ∧
        Queue.Taken world.queue deliveries started.queue ∧ world.Onward started ∧
          started.Onward after ∧ after.Holds views ∧
            Cycles engine world.write.maxSid deliveries started store after views := by
  have taken := Queue.receive_spec sound engine.reclaim world.now
    engine.pipeline.visibilityTimeout engine.pipeline.batchSize
  obtain ⟨handled, started, after, views, ended, queue, begins, onward, held, cycles⟩ :=
    processBatch_runs engine calm holds consistent
  exact ⟨_, handled, started, after, views, ended, queue ▸ taken, begins, onward, held, cycles⟩

end Indexing

end CachedViews
