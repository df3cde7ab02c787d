import CachedViews.Proofs.Embedding.Declared
import CachedViews.Proofs.Indexing.Handling
import CachedViews.Proofs.Service.Queueing

/-!
No entity is dropped between being queued and being rebuilt. Once a message was sent for it, it is
owed a rebuild: a message for it is on the queue, or its failure is reported. Nothing but the end
of a cycle of its own takes that away, whatever faults, outages and time limits a run meets.
-/
namespace CachedViews

namespace Retention

open CachedViews.Action Indexing

/-- A message for the entity is waiting on some lane or in flight, or its failure is reported. -/
def Owed (world : World) (uuid : Uuid) : Prop :=
  world.queue.Owes uuid ∨ world.failures.contains uuid = true

/-- Something happens, which may be the end of a cycle that settled its entity. -/
structure Moment where
  before : World
  after : World
  settled : Option Uuid

/-- Outcomes that settle the entity of a cycle: its view was stored, a newer one was found, or it
was removed. -/
def settles : Outcome → Bool
  | .indexed .. | .versionConflict .. | .removed => true
  | .deferred .. | .failed _ => false

def settledBy (delivery : Delivery) : Except EngineError Outcome → Option Uuid
  | .ok outcome => if settles outcome then some delivery.message.uuid else none
  | .error _ => none

/-- The cycles of a batch, one moment each, and the world that they leave. -/
def cycles (engine : Engine) (snapshot : Sid) : List Delivery → World → List Moment × World
  | [], world => ([], world)
  | delivery :: rest, world =>
    let ran := (process engine delivery snapshot).on world
    let (moments, last) := cycles engine snapshot rest ran.2
    (⟨world, ran.2, settledBy delivery ran.1⟩ :: moments, last)

/-- What a batch does once it has received messages. Without the watermark it breaks off. -/
def handling (engine : Engine) (received : Except EngineError (List Delivery) × World) :
    List Moment × World :=
  match received with
  | (.ok (first :: rest), world) =>
    let metrics := { world.metrics with batches := world.metrics.batches + 1 }
    match Action.writeMaxSid.on { world with metrics } with
    | (.ok snapshot, ready) => cycles engine snapshot (first :: rest) (ready.withCache {})
    | (.error _, ready) => ([], ready)
  | (_, world) => ([], world)

/-- An engine at work: its world, and the deliveries that its workers have taken one by one. -/
structure Running where
  world : World
  handed : List Delivery

/-- What can happen to a running engine: calls of its service, a whole batch, the steps of a worker
whose batch overlaps with anything else, and any change of the clock, the stores, the faults ahead
and the cache. A worker may handle each delivery that it was ever handed, under any snapshot. -/
inductive Event where
  | edit (change : Edit)
  | requeueFailures
  | reindexTypes (types : List ItemType) (checkExisting skipPropagation strict : Bool)
  | processBatch
  | receive (limit : Nat)
  | handle (which : Nat) (snapshot : Sid)
  | meanwhile (now : Instant) (faults : Faults) (write : WriteStore) (read : ReadStore)
    (cache : RecordCache)

namespace Event

def next (engine : Engine) (running : Running) : Event → Running
  | edit change => { running with world := change.after engine running.world }
  | requeueFailures => { running with world := (Service.requeueFailures.on running.world).2 }
  | reindexTypes types checkExisting skipPropagation strict =>
    { running with
      world := ((Service.reindex ⟨some types, checkExisting, skipPropagation, strict⟩).on
        running.world).2 }
  | processBatch => { running with world := ((Indexing.processBatch engine).on running.world).2 }
  | receive limit =>
    match (Action.receive engine limit).on running.world with
    | (.ok deliveries, world) => ⟨world, running.handed ++ deliveries⟩
    | (.error _, world) => { running with world }
  | handle which snapshot =>
    match running.handed[which]? with
    | some delivery =>
      { running with world := ((process engine delivery snapshot).on running.world).2 }
    | none => running
  | meanwhile now faults write read cache =>
    { running with world := { running.world with now, faults, write, read, cache } }

/-- The moments of an event. A batch receives, goes through its cycles, and is over. -/
def moments (engine : Engine) (running : Running) (event : Event) : List Moment :=
  match event with
  | processBatch =>
    let received := (Action.receive engine engine.pipeline.batchSize).on running.world
    let handled := handling engine received
    ⟨running.world, received.2, none⟩ ::
      (handled.1 ++ [⟨handled.2, (event.next engine running).world, none⟩])
  | handle which snapshot =>
    match running.handed[which]? with
    | some delivery => (cycles engine snapshot [delivery] running.world).1
    | none => []
  | _ => [⟨running.world, (event.next engine running).world, none⟩]

end Event

def timeline (engine : Engine) : List Event → Running → List Moment
  | [], _ => []
  | event :: rest, running =>
    event.moments engine running ++ timeline engine rest (event.next engine running)

/-- The queue was given messages, and one of them is for the entity. Some may be put off to a
later time and some receipts acknowledged along with that. -/
def Moment.Sends (moment : Moment) (uuid : Uuid) : Prop :=
  ∃ (posts : List Post) (putOff : List (Message × Instant)) (receipts : List Nat),
    moment.after.queue = receipts.foldl (fun queue receipt => (queue.ack receipt).2)
      (putOff.foldl (fun queue entry => queue.sendDeferred entry.1 entry.2)
        (moment.before.queue.sendAll posts)) ∧
      ((∃ post ∈ posts, ∃ message ∈ post.messages, message.uuid = uuid) ∨
        ∃ entry ∈ putOff, entry.1.uuid = uuid)

/-- A moment in order: what was owed before it is owed after it, or was settled in it. -/
structure Moment.Keeps (moment : Moment) : Prop where
  orderly : moment.before.queue.Orderly
  owed : ∀ uuid, Owed moment.before uuid → Owed moment.after uuid ∨ moment.settled = some uuid

/-- Moments in order, one after the other, from one world to another. Between them the queue and
the failure report stay. -/
inductive Lasting : World → List Moment → World → Prop where
  | done {start last : World} (queue : last.queue = start.queue)
    (failures : last.failures = start.failures) : Lasting start [] last
  | next {start last : World} {moment : Moment} {rest : List Moment}
    (queue : moment.before.queue = start.queue)
    (failures : moment.before.failures = start.failures) (keeps : moment.Keeps)
    (later : Lasting moment.after rest last) : Lasting start (moment :: rest) last

variable {engine : Engine} {world start middle last : World} {moment : Moment}
  {handed : List Delivery}

/-- Only the queue and the failure report matter to what is owed. -/
theorem Owed.of_same {other : World} {uuid : Uuid} (owed : Owed world uuid)
    (queue : other.queue = world.queue) (failures : other.failures = world.failures) :
    Owed other uuid := by
  rw [Owed, queue, failures]
  exact owed

theorem Lasting.trans {first second : List Moment} (one : Lasting start first middle)
    (two : Lasting middle second last) : Lasting start (first ++ second) last := by
  induction one with
  | done queue failures =>
    cases two with
    | done queueLast failuresLast =>
      exact .done (queueLast.trans queue) (failuresLast.trans failures)
    | next queueNext failuresNext keeps later =>
      exact .next (queueNext.trans queue) (failuresNext.trans failures) keeps later
  | next queue failures keeps _ ih => exact .next queue failures keeps (ih two)

theorem Lasting.single (keeps : moment.Keeps) : Lasting moment.before [moment] moment.after :=
  .next rfl rfl keeps (.done rfl rfl)

/-- The world that stands after some moments. -/
def standing (start : World) (passed : List Moment) : World :=
  passed.foldl (fun _ moment => moment.after) start

/-- What is owed stays owed until a cycle settles it. -/
theorem Lasting.owed {passed rest : List Moment} (lasting : Lasting start (passed ++ rest) last)
    {uuid : Uuid} (owed : Owed start uuid) :
    Owed (standing start passed) uuid ∨ ∃ cycle ∈ passed, cycle.settled = some uuid := by
  induction passed generalizing start with
  | nil => exact Or.inl owed
  | cons first others ih =>
    cases lasting with
    | next queue failures keeps later =>
      rcases keeps.owed uuid (owed.of_same queue failures) with still | settled
      · rcases ih later still with stands | ⟨cycle, listed, settled⟩
        · exact Or.inl stands
        · exact Or.inr ⟨cycle, List.mem_cons_of_mem _ listed, settled⟩
      · exact Or.inr ⟨first, List.mem_cons_self, settled⟩

/-- What comes behind some moments lasts on from them. -/
theorem Lasting.later {earlier rest : List Moment}
    (lasting : Lasting start (earlier ++ moment :: rest) last) :
    moment.Keeps ∧ Lasting moment.after rest last := by
  induction earlier generalizing start with
  | nil =>
    cases lasting with
    | next _ _ keeps later => exact ⟨keeps, later⟩
  | cons first others ih =>
    cases lasting with
    | next _ _ _ later => exact ih later

/-- A message that is sent anywhere in a call that otherwise only sends. -/
theorem Moment.sends_of_send {sent after : World} {lane : Lane} {messages : List Message}
    {message : Message} {count : Except EngineError Nat} (early : world.Queues middle)
    (sending : (send lane messages).on middle = (count, sent)) (late : sent.Queues after)
    (listed : message ∈ messages) (settled : Option Uuid) :
    Moment.Sends ⟨world, after, settled⟩ message.uuid := by
  obtain ⟨posts, before⟩ := early.queue
  obtain ⟨others, behind⟩ := late.queue
  cases sending
  refine ⟨posts ++ ⟨lane, middle.now, messages⟩ :: others, [], [], ?_,
    Or.inl ⟨⟨lane, middle.now, messages⟩, ?_, message, listed, rfl⟩⟩
  · rw [Queue.sendAll_append, ← before]
    exact behind
  · exact List.mem_append_right _ List.mem_cons_self

/-- A put that succeeds sends a message for its entity. -/
theorem put_sends {uuid : Uuid} {itemType : ItemType} {properties : Properties} {base : Option Sid}
    {sid : Sid} {after : World}
    (ended : (Service.put engine uuid itemType properties base).on world = (.ok sid, after)) :
    Moment.Sends ⟨world, after, none⟩ uuid := by
  rw [Service.put] at ended
  obtain ⟨decl, declared, required, ended⟩ := bind_ok ended
  obtain ⟨write, checked, extracted, ended⟩ := bind_ok ended
  obtain ⟨stored, committed, put, ended⟩ := bind_ok ended
  have required := (keeps_ofValidation (R := World.Queues) _).of_on required
  have extracted := (keeps_ofValidation (R := World.Queues) _).of_on extracted
  have put := (Service.putLoop_keeps uuid itemType write base
    (Service.tryPut_queues uuid itemType write base) Service.putRetries).of_on put
  have early := World.Chain.trans (World.Chain.trans required extracted) put
  obtain ⟨count, sent, sending, ended⟩ := bind_ok ended
  cases ended
  exact Moment.sends_of_send early sending (World.Chain.refl _) (List.mem_singleton_self _) none

theorem sendDeferred_all (queue : Queue) (putOff : List (Message × Instant)) :
    queue.Adds (putOff.foldl (fun queue entry => queue.sendDeferred entry.1 entry.2) queue) ∧
      ∀ entry ∈ putOff,
        (putOff.foldl (fun queue entry => queue.sendDeferred entry.1 entry.2) queue).WaitsFor
          entry.1.uuid := by
  induction putOff generalizing queue with
  | nil => exact ⟨.refl queue, fun entry listed => by cases listed⟩
  | cons first rest ih =>
    obtain ⟨adds, waits⟩ := ih (queue.sendDeferred first.1 first.2)
    refine ⟨(queue.sendDeferred_adds first.1 first.2).trans adds, fun entry listed => ?_⟩
    rcases List.mem_cons.mp listed with rfl | later
    · exact adds.waits _ (queue.sendDeferred_waits entry.1 entry.2)
    · exact waits entry later

/-- Acknowledging touches no lane. -/
theorem waitsFor_acks (queue : Queue) (receipts : List Nat) {uuid : Uuid}
    (waits : queue.WaitsFor uuid) :
    (receipts.foldl (fun queue receipt => (queue.ack receipt).2) queue).WaitsFor uuid := by
  induction receipts generalizing queue with
  | nil => exact waits
  | cons receipt rest ih => exact ih (queue.ack receipt).2 waits

/-- Nobody is forgotten whom a message was sent for. -/
theorem Moment.Keeps.owed_of_sends (keeps : moment.Keeps) {uuid : Uuid}
    (sends : moment.Sends uuid) : Owed moment.after uuid := by
  obtain ⟨posts, putOff, receipts, same, sent⟩ := sends
  refine Or.inl (Or.inl ?_)
  rw [same]
  apply waitsFor_acks
  obtain ⟨adds, waits⟩ := sendDeferred_all (moment.before.queue.sendAll posts) putOff
  rcases sent with ⟨post, listed, message, inside, rfl⟩ | ⟨entry, listed, rfl⟩
  · exact adds.waits _ (Queue.sendAll_waits keeps.orderly listed inside)
  · exact waits entry listed

/-- A cycle that ends without an error settles its entity. -/
theorem settles_of_rebuild {message : Message} {snapshot : Sid} {outcome : Outcome}
    {after : World} (ended : (rebuild engine message snapshot).on world = (.ok outcome, after)) :
    settles outcome = true := by
  rw [rebuild] at ended
  obtain ⟨_, covered, -, ended⟩ := bind_ok ended
  obtain ⟨found, resolved, -, ended⟩ := bind_ok ended
  cases found with
  | none =>
    obtain ⟨existed, deleted, -, ended⟩ := bind_ok ended
    obtain ⟨_, counted, -, ended⟩ := bind_ok ended
    cases ended
    rfl
  | some resolution =>
    obtain ⟨sids, looked, -, ended⟩ := bind_ok ended
    dsimp only at ended
    split at ended
    · obtain ⟨_, counted, -, ended⟩ := bind_ok ended
      cases ended
      rfl
    · obtain ⟨_, put, -, ended⟩ := bind_ok ended
      obtain ⟨_, counted, -, ended⟩ := bind_ok ended
      split at ended
      · cases ended
        rfl
      · obtain ⟨secondaries, propagated, -, ended⟩ := bind_ok ended
        cases ended
        rfl

theorem contains_record (report : FailureReport) (message : Message) (reason : String)
    (uuid : Uuid) :
    (report.record message reason).2.contains uuid = true ↔
      report.contains uuid = true ∨ message.uuid = uuid := by
  simp only [FailureReport.contains, FailureReport.record, FailureReport.failureOf, List.any_append,
    List.any_cons, List.any_nil, Bool.or_false, Bool.or_eq_true, List.any_eq_true, List.mem_filter,
    decide_eq_true_eq]
  constructor
  · rintro (⟨entry, ⟨listed, -⟩, same⟩ | same)
    · exact Or.inl ⟨entry, listed, same⟩
    · exact Or.inr same
  · rintro (⟨entry, listed, same⟩ | same)
    · by_cases replaced : message.uuid = uuid
      · exact Or.inr replaced
      · exact Or.inl ⟨entry, ⟨listed, fun here => replaced (here.symm.trans same)⟩, same⟩
    · exact Or.inr same

/-- A delivery may be acknowledged once its own entity is accounted for. -/
theorem keeps_of_ack {delivery : Delivery} {after : World} {later : Queue} {settled : Option Uuid}
    (serving : world.queue.Serving handed) (listed : delivery ∈ handed)
    (adds : world.queue.Adds later) (left : after.queue = (later.ack delivery.receipt).2)
    (lost : ∀ uuid, world.failures.contains uuid = true → after.failures.contains uuid = true)
    (own : Owed after delivery.message.uuid ∨ settled = some delivery.message.uuid) :
    Moment.Keeps ⟨world, after, settled⟩ ∧ after.queue.Serving handed := by
  obtain ⟨still, owes⟩ := (serving.of_adds adds).ack listed
  refine ⟨⟨serving.orderly, fun uuid owed => ?_⟩, left ▸ still⟩
  rcases owed with queued | reported
  · rcases owes uuid (adds.owes queued) with queued | rfl
    · exact Or.inl (Or.inl (left ▸ queued))
    · exact own
  · exact Or.inl (Or.inr (lost uuid reported))

/-- A cycle keeps what is owed. -/
theorem cycle_keeps {delivery : Delivery} (snapshot : Sid)
    (serving : world.queue.Serving handed) (listed : delivery ∈ handed) :
    let ran := (process engine delivery snapshot).on world
    Moment.Keeps ⟨world, ran.2, settledBy delivery ran.1⟩ ∧ ran.2.queue.Serving handed := by
  obtain ⟨running, outcome, metrics, failures, queue, ended, finished⟩ :=
    process_on engine delivery snapshot world
  dsimp only
  rw [ended]
  have asked := rebuild_asks engine delivery.message snapshot { world with cycle := some running }
  rcases cycled : (rebuild engine delivery.message snapshot).on
    { world with cycle := some running } with ⟨result, rebuilt⟩
  rw [cycled] at finished asked
  obtain ⟨posts, sent⟩ := asked.queue
  have adds : world.queue.Adds rebuilt.queue := sent ▸ Queue.sendAll_adds world.queue posts
  have report : rebuilt.failures = world.failures := asked.failures
  cases finished with
  | ended done kept left =>
    subst left kept
    refine keeps_of_ack serving listed adds rfl (fun _ => report ▸ id) (Or.inr ?_)
    cases done
    rw [settledBy, if_pos (settles_of_rebuild cycled)]
  | reported attempts reason error failed lost kept left =>
    subst left kept
    have recorded := contains_record rebuilt.failures { delivery.message with attempts } reason
    exact keeps_of_ack serving listed adds rfl
      (fun uuid before => (recorded uuid).mpr (Or.inl (report ▸ before)))
      (Or.inl (Or.inr ((recorded _).mpr (Or.inr rfl))))
  | putOff attempts delay notBefore error failed waits kept left =>
    subst left kept
    have more := adds.trans
      (Queue.sendDeferred_adds _ { delivery.message with attempts } notBefore)
    have again := waitsFor_acks _ [delivery.receipt] (Queue.sendDeferred_waits rebuilt.queue
      { delivery.message with attempts } notBefore)
    exact keeps_of_ack serving listed more rfl (fun _ => report ▸ id) (Or.inl (Or.inl (Or.inl again)))

theorem cycles_lasting {pending : List Delivery} (snapshot : Sid)
    (serving : world.queue.Serving handed) (listed : ∀ delivery ∈ pending, delivery ∈ handed) :
    Lasting world (cycles engine snapshot pending world).1
        (cycles engine snapshot pending world).2 ∧
      (cycles engine snapshot pending world).2.queue.Serving handed := by
  induction pending generalizing world with
  | nil => exact ⟨.done rfl rfl, serving⟩
  | cons delivery rest ih =>
    obtain ⟨keeps, still⟩ := @cycle_keeps engine world handed delivery snapshot serving
      (listed delivery List.mem_cons_self)
    obtain ⟨later, last⟩ := ih still fun other later => listed other (List.mem_cons_of_mem _ later)
    exact ⟨.next rfl rfl keeps later, last⟩

theorem forM_process_cycles (snapshot : Sid) (deliveries : List Delivery) (world : World) :
    (deliveries.forM fun delivery => discard (process engine delivery snapshot)).on world =
      (.ok (), (cycles engine snapshot deliveries world).2) := by
  induction deliveries generalizing world with
  | nil => rfl
  | cons delivery rest ih =>
    obtain ⟨running, outcome, metrics, failures, queue, ended, -⟩ :=
      process_on engine delivery snapshot world
    rw [List.forM, on_bind_ok (discard_on_ok ended), ih, cycles, ended]

/-- Reading the watermark changes neither the queue nor the failure report. -/
theorem writeMaxSid_same {after : World} {result : Except EngineError Sid}
    (ended : writeMaxSid.on world = (result, after)) :
    after.queue = world.queue ∧ after.failures = world.failures := by
  obtain ⟨now, outages, delays, reached⟩ := writeStore_after world
  rw [writeMaxSid, on_bind] at ended
  rcases asking : writeStore.on world with ⟨error | store, middle⟩ <;>
  · rw [asking] at ended reached
    cases ended
    cases reached
    exact ⟨rfl, rfl⟩

theorem handling_lasting {deliveries : List Delivery} (serving : world.queue.Serving handed)
    (listed : ∀ delivery ∈ deliveries, delivery ∈ handed) :
    Lasting world (handling engine (.ok deliveries, world)).1
        (handling engine (.ok deliveries, world)).2 ∧
      (handling engine (.ok deliveries, world)).2.queue.Serving handed := by
  cases deliveries with
  | nil => exact ⟨.done rfl rfl, serving⟩
  | cons first rest =>
    dsimp only [handling]
    rcases reading : writeMaxSid.on { world with
        metrics := { world.metrics with batches := world.metrics.batches + 1 } } with
      ⟨error | snapshot, ready⟩
    · obtain ⟨queue, failures⟩ := writeMaxSid_same reading
      exact ⟨.done queue failures, queue ▸ serving⟩
    · obtain ⟨queue, failures⟩ := writeMaxSid_same reading
      have still : (ready.withCache {}).queue.Serving handed := queue ▸ serving
      have started : Lasting world [] (ready.withCache {}) := .done queue failures
      obtain ⟨later, last⟩ := @cycles_lasting engine _ _ _ snapshot still listed
      exact ⟨started.trans later, last⟩

/-- A batch leaves the world that its cycles leave, with the cache that was there before. -/
theorem processBatch_after (engine : Engine) (world : World) :
    ∃ cache, ((Indexing.processBatch engine).on world).2 =
      (handling engine
        ((Action.receive engine engine.pipeline.batchSize).on world)).2.withCache cache := by
  rw [Indexing.processBatch, on_bind]
  rcases (Action.receive engine engine.pipeline.batchSize).on world with
    ⟨error | deliveries, received⟩
  · exact ⟨received.cache, rfl⟩
  · cases deliveries with
    | nil => exact ⟨received.cache, rfl⟩
    | cons first rest =>
      dsimp only [handling]
      rw [on_bind_ok (count_on _ _), on_bind]
      rcases writeMaxSid.on { received with
          metrics := { received.metrics with batches := received.metrics.batches + 1 } } with
        ⟨error | snapshot, ready⟩
      · exact ⟨ready.cache, rfl⟩
      · have cached := Embedding.withCache_on {} ((first :: rest).forM fun delivery =>
          discard (process engine delivery snapshot)) ready
        rw [forM_process_cycles] at cached
        dsimp only
        rw [on_bind_ok cached]
        exact ⟨ready.cache, rfl⟩

/-- A batch ends as its cycles do. -/
theorem processBatch_handling (engine : Engine) (world : World) :
    let handled := handling engine ((Action.receive engine engine.pipeline.batchSize).on world)
    ((Indexing.processBatch engine).on world).2.queue = handled.2.queue ∧
      ((Indexing.processBatch engine).on world).2.failures = handled.2.failures := by
  obtain ⟨cache, same⟩ := processBatch_after engine world
  dsimp only
  rw [same]
  exact ⟨rfl, rfl⟩

/-- A call that only sends keeps what is owed. -/
theorem keeps_of_queues {after : World} (serving : world.queue.Serving handed)
    (queues : world.Queues after) :
    Moment.Keeps ⟨world, after, none⟩ ∧ after.queue.Serving handed := by
  obtain ⟨posts, sent⟩ := queues.queue
  have adds : world.queue.Adds after.queue := sent ▸ Queue.sendAll_adds world.queue posts
  refine ⟨⟨serving.orderly, fun uuid owed => Or.inl ?_⟩, serving.of_adds adds⟩
  exact owed.imp adds.owes fun lost => queues.failures ▸ lost

/-- Requeued failures wait on the primary lane. -/
theorem keeps_requeueFailures (serving : world.queue.Serving handed) :
    Moment.Keeps ⟨world, (Service.requeueFailures.on world).2, none⟩ ∧
      (Service.requeueFailures.on world).2.queue.Serving handed := by
  rw [Service.requeueFailures_on]
  have adds := world.queue.send_adds .primary world.now (world.failures.entries.map Service.renewed)
  refine ⟨⟨serving.orderly, fun uuid owed => Or.inl (Or.inl ?_)⟩, serving.of_adds adds⟩
  rcases owed with queued | lost
  · exact adds.owes queued
  · obtain ⟨failure, listed, same⟩ := List.any_eq_true.mp lost
    have waits := Queue.send_waits serving.orderly .primary world.now
      (List.mem_map.mpr ⟨failure, listed, rfl⟩ :
        Service.renewed failure ∈ world.failures.entries.map Service.renewed)
    rw [← of_decide_eq_true same]
    exact Or.inl waits

theorem receive_on (engine : Engine) (limit : Nat) (world : World) :
    (Action.receive engine limit).on world =
      let received := world.queue.receive engine.reclaim world.now
        engine.pipeline.visibilityTimeout limit
      (.ok received.1, { world with queue := received.2 }) := rfl

theorem keeps_receive (engine : Engine) (limit : Nat) (serving : world.queue.Serving handed) :
    Moment.Keeps ⟨world, ((Action.receive engine limit).on world).2, none⟩ ∧
      ((Action.receive engine limit).on world).2.queue.Serving (handed ++
        (world.queue.receive engine.reclaim world.now engine.pipeline.visibilityTimeout
          limit).1) := by
  obtain ⟨received, owes⟩ :=
    serving.receive engine.reclaim world.now engine.pipeline.visibilityTimeout limit
  exact ⟨⟨serving.orderly, fun uuid owed => Or.inl (owed.imp (owes uuid) id)⟩, received⟩

/-- Every event keeps what is owed, moment by moment. -/
theorem Event.lasting (engine : Engine) {running : Running}
    (serving : running.world.queue.Serving running.handed) (event : Event) :
    Lasting running.world (event.moments engine running) (event.next engine running).world ∧
      (event.next engine running).world.queue.Serving (event.next engine running).handed := by
  cases event with
  | edit change =>
    obtain ⟨keeps, still⟩ := keeps_of_queues serving (change.after_queues engine running.world)
    exact ⟨.single keeps, still⟩
  | requeueFailures =>
    obtain ⟨keeps, still⟩ := keeps_requeueFailures serving
    exact ⟨.single keeps, still⟩
  | reindexTypes types checkExisting skipPropagation strict =>
    have asks : (Service.reindex ⟨some types, checkExisting, skipPropagation, strict⟩).Asks
        fun _ => False := Service.reindex_asks rfl
    obtain ⟨keeps, still⟩ := keeps_of_queues serving (asks running.world).queues
    exact ⟨.single keeps, still⟩
  | receive limit =>
    obtain ⟨keeps, still⟩ := keeps_receive engine limit serving
    exact ⟨.single keeps, still⟩
  | handle which snapshot =>
    cases found : running.handed[which]? with
    | none =>
      rw [moments, next, found]
      exact ⟨.done rfl rfl, serving⟩
    | some delivery =>
      have listed : ∀ other ∈ [delivery], other ∈ running.handed := fun other inside =>
        List.mem_singleton.mp inside ▸ List.mem_of_getElem? found
      rw [moments, next, found]
      exact @cycles_lasting engine _ _ _ snapshot serving listed
  | meanwhile now faults write read cache =>
    have queues : running.world.Queues { running.world with now, faults, write, read, cache } :=
      ⟨rfl, [], rfl⟩
    obtain ⟨keeps, still⟩ := keeps_of_queues serving queues
    exact ⟨.single keeps, still⟩
  | processBatch =>
    obtain ⟨queue, failures⟩ := processBatch_handling engine running.world
    obtain ⟨keeps, received⟩ := keeps_receive engine engine.pipeline.batchSize serving
    dsimp only [moments, next]
    rw [receive_on] at queue failures keeps received ⊢
    obtain ⟨handled, ended⟩ := @handling_lasting engine _ _ _ received fun _ listed =>
      List.mem_append_right _ listed
    -- What a batch does in the end, it does to its cache.
    obtain ⟨closing, last⟩ := keeps_of_queues ended
      (⟨failures, [], queue⟩ : World.Queues _ ((Indexing.processBatch engine).on running.world).2)
    exact ⟨.next rfl rfl keeps (handled.trans (.single closing)),
      last.of_subset fun _ listed => List.mem_append_left _ listed⟩

theorem timeline_lasting (engine : Engine) (events : List Event) {running : Running}
    (serving : running.world.queue.Serving running.handed) :
    ∃ last, Lasting running.world (timeline engine events running) last := by
  induction events generalizing running with
  | nil => exact ⟨running.world, .done rfl rfl⟩
  | cons event rest ih =>
    obtain ⟨first, still⟩ := event.lasting engine serving
    obtain ⟨last, later⟩ := ih still
    exact ⟨last, first.trans later⟩

/-- No entity is dropped. Whatever happens to a running engine: once a message was sent for an
entity, then at every later moment a message for it is waiting or in flight, or its failure is
reported, or a cycle of its own that started since has stored its view, found a newer one or removed
it. -/
theorem sent_is_owed_until_settled (engine : Engine) (events : List Event) (running : Running)
    (serving : running.world.queue.Serving running.handed) {earlier passed rest : List Moment}
    {moment : Moment} {uuid : Uuid}
    (run : timeline engine events running = earlier ++ moment :: (passed ++ rest))
    (sends : moment.Sends uuid) :
    Owed (standing moment.after passed) uuid ∨ ∃ cycle ∈ passed, cycle.settled = some uuid := by
  obtain ⟨last, lasting⟩ := timeline_lasting engine events serving
  rw [run] at lasting
  obtain ⟨keeps, later⟩ := lasting.later
  exact later.owed (keeps.owed_of_sends sends)

namespace Outage

def idle : Running := ⟨.start (.memory .empty), []⟩

def added : Running :=
  Event.next (.precise .books) idle (.edit (.put ⟨1⟩ ⟨"Author"⟩ (.ofText "name" "Ann") none))

/-- The write store fails when a batch reads the watermark, and stays away from the next batch. -/
def batches : List Event :=
  [.meanwhile .zero { Faults.none with outages := [true, true] } added.world.write
      added.world.read {},
    .processBatch,
    .meanwhile (.ofMillis 600000) { Faults.none with outages := [false, true] } added.world.write
      added.world.read {},
    .processBatch]

end Outage

open Outage in
/-- An author whose batches fail is still owed a rebuild. -/
theorem added_author_outlives_outage :
    Owed (standing added.world (timeline (.precise .books) batches added)) ⟨1⟩ := by
  have stored : ((Service.put (.precise .books) ⟨1⟩ ⟨"Author"⟩ (.ofText "name" "Ann") none).on
      idle.world).1.toOption = some 1 := by
    decide +kernel
  have sends : Moment.Sends ⟨idle.world, added.world, none⟩ ⟨1⟩ := by
    have same : added.world = ((Service.put (.precise .books) ⟨1⟩ ⟨"Author"⟩
        (.ofText "name" "Ann") none).on idle.world).2 := after_discard _ _
    rw [same]
    exact put_sends (Prod.ext (ok_of_toOption stored) rfl)
  have unsettled : ((timeline (.precise .books) batches added).all fun moment =>
      moment.settled.isNone) = true := by
    decide +kernel
  have run : timeline (.precise .books)
      (.edit (.put ⟨1⟩ ⟨"Author"⟩ (.ofText "name" "Ann") none) :: batches) idle =
      [] ++ ⟨idle.world, added.world, none⟩ ::
        (timeline (.precise .books) batches added ++ []) := by
    rw [List.append_nil]
    rfl
  rcases sent_is_owed_until_settled (.precise .books) _ idle .empty run sends with
    owed | ⟨cycle, listed, settled⟩
  · exact owed
  · have never := List.all_eq_true.mp unsettled cycle listed
    rw [settled] at never
    cases never

end Retention

end CachedViews
