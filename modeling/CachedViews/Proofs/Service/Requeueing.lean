import CachedViews.Proofs.Queue
import CachedViews.Proofs.Service.Retention

/-!
Requeueing of reported failures. The report keeps one message of each entity, the one whose retries
ran out last, and that one comes back to the primary lane. What others of the same entity still had
ahead comes back with it as far as it covers them.
-/
namespace CachedViews

namespace FailureReport

/-- The report tells of each entity the last message that was given up. -/
def TellsLast (report : FailureReport) (lost : List Message) : Prop :=
  ∀ uuid, (report.entries.filter fun entry => entry.message.uuid = uuid).map
      PermanentFailure.message =
    (lost.filter fun message => message.uuid = uuid).getLast?.toList

variable {report : FailureReport} {lost : List Message}

theorem tellsLast_empty : empty.TellsLast [] := fun _ => rfl

theorem TellsLast.record (tells : report.TellsLast lost) (message : Message) (reason : String) :
    (report.record message reason).2.TellsLast (lost ++ [message]) := by
  intro uuid
  rw [FailureReport.record, List.filter_append, List.filter_filter, List.filter_append]
  by_cases own : message.uuid = uuid
  · -- The earlier entry of the entity makes way.
    have others : report.entries.filter (fun entry =>
        decide (entry.message.uuid = uuid) && decide (entry.message.uuid ≠ message.uuid)) = [] := by
      rw [List.filter_eq_nil_iff]
      intro entry _ both
      simp only [Bool.and_eq_true, decide_eq_true_eq] at both
      exact both.2 (both.1.trans own.symm)
    rw [others]
    simp [failureOf, own]
  · have others : report.entries.filter (fun entry =>
        decide (entry.message.uuid = uuid) && decide (entry.message.uuid ≠ message.uuid)) =
        report.entries.filter fun entry => entry.message.uuid = uuid := by
      refine List.filter_congr fun entry _ => ?_
      by_cases same : entry.message.uuid = uuid
      · simp [same, Ne.symm own]
      · simp [same]
    rw [others, List.map_append, tells uuid]
    simp [failureOf, own]

end FailureReport

/-- The failure report stays as it is. -/
def World.KeepsReport (before after : World) : Prop := after.failures = before.failures

instance : World.Chain World.KeepsReport := ⟨fun _ => rfl, fun one two => two.trans one⟩

namespace Retention

open CachedViews.Action Indexing

/-- What can happen to a running engine, dropping all messages that wait included. -/
inductive Turn where
  | event (happening : Event)
  | reindexAll (checkExisting skipPropagation strict : Bool)

def Turn.next (engine : Engine) (running : Running) : Turn → Running
  | event happening => happening.next engine running
  | reindexAll checkExisting skipPropagation strict =>
    { running with
      world := ((Service.reindex ⟨none, checkExisting, skipPropagation, strict⟩).on
        running.world).2 }

/-- The message that a cycle gives up, as it was last attempted. -/
def lostBy (delivery : Delivery) : Except EngineError Outcome → List Message
  | .ok (.failed attempts) => [{ delivery.message with attempts }]
  | _ => []

def lostIn (engine : Engine) (snapshot : Sid) : List Delivery → World → List Message
  | [], _ => []
  | delivery :: rest, world =>
    let ran := (process engine delivery snapshot).on world
    lostBy delivery ran.1 ++ lostIn engine snapshot rest ran.2

/-- What a batch gives up once it has received messages. -/
def lostHandling (engine : Engine) (received : Except EngineError (List Delivery) × World) :
    List Message :=
  match received with
  | (.ok (first :: rest), world) =>
    let metrics := { world.metrics with batches := world.metrics.batches + 1 }
    match Action.writeMaxSid.on { world with metrics } with
    | (.ok snapshot, ready) => lostIn engine snapshot (first :: rest) (ready.withCache {})
    | (.error _, _) => []
  | _ => []

def Event.lost (engine : Engine) (running : Running) : Event → List Message
  | processBatch =>
    lostHandling engine ((Action.receive engine engine.pipeline.batchSize).on running.world)
  | handle which snapshot =>
    match running.handed[which]? with
    | some delivery => lostIn engine snapshot [delivery] running.world
    | none => []
  | _ => []

/-- Messages given up since the last requeueing, when `lost` were given up before a turn. -/
def Turn.lostSince (engine : Engine) (running : Running) (lost : List Message) :
    Turn → List Message
  | event .requeueFailures => []
  | event happening => lost ++ happening.lost engine running
  | reindexAll .. => lost

/-- A running engine and what it has given up since failures were last requeued. -/
def run (engine : Engine) : List Turn → Running × List Message → Running × List Message
  | [], state => state
  | turn :: rest, (running, lost) =>
    run engine rest (turn.next engine running, turn.lostSince engine running lost)

/-- Messages that owe at least the propagation of others: some message is not strict if another
was not, changes are unknown if they were for another, and else no changed field is left out. -/
structure Restores (again lost : List Message) : Prop where
  propagates : (∃ message ∈ lost, message.strict = false) →
    ∃ message ∈ again, message.strict = false
  unknown : (∃ message ∈ lost, message.strict = false ∧ message.diff = none) →
    ∃ message ∈ again, message.strict = false ∧ message.diff = none
  fields : ∀ message ∈ lost, message.strict = false → ∀ diff, message.diff = some diff →
    ∀ field ∈ diff, ∃ other ∈ again, other.strict = false ∧
      ∀ known, other.diff = some known → field ∈ known

/-- What a message propagates, another does as well. -/
def Covers (message other : Message) : Prop :=
  other.strict = false → message.strict = false ∧
    ∀ known, message.diff = some known → ∃ diff, other.diff = some diff ∧ diff ⊆ known

theorem restores_singleton_iff (message : Message) (lost : List Message) :
    Restores [message] lost ↔ ∀ other ∈ lost, Covers message other := by
  constructor
  · rintro ⟨propagates, unknown, fields⟩ other listed propagating
    have loose : message.strict = false := by
      obtain ⟨again, same, loose⟩ := propagates ⟨other, listed, propagating⟩
      exact List.mem_singleton.mp same ▸ loose
    refine ⟨loose, fun known held => ?_⟩
    cases changed : other.diff with
    | none =>
      obtain ⟨again, same, -, bare⟩ := unknown ⟨other, listed, propagating, changed⟩
      rw [List.mem_singleton.mp same, held] at bare
      cases bare
    | some diff =>
      refine ⟨diff, rfl, fun field inside => ?_⟩
      obtain ⟨again, same, -, within⟩ := fields other listed propagating diff changed field inside
      exact within known (List.mem_singleton.mp same ▸ held)
  · intro covers
    refine ⟨?_, ?_, ?_⟩
    · rintro ⟨other, listed, propagating⟩
      exact ⟨message, List.mem_singleton_self _, (covers other listed propagating).1⟩
    · rintro ⟨other, listed, propagating, bare⟩
      obtain ⟨loose, within⟩ := covers other listed propagating
      refine ⟨message, List.mem_singleton_self _, loose, ?_⟩
      cases held : message.diff with
      | none => rfl
      | some known =>
        obtain ⟨diff, changed, -⟩ := within known held
        rw [bare] at changed
        cases changed
    · intro other listed propagating diff changed field inside
      obtain ⟨loose, within⟩ := covers other listed propagating
      refine ⟨message, List.mem_singleton_self _, loose, fun known held => ?_⟩
      obtain ⟨_, same, subset⟩ := within known held
      rw [changed] at same
      cases same
      exact subset inside

variable {engine : Engine} {world : World} {lost : List Message}

/-- A cycle that gives its message up reports it, and no other touches the report. -/
theorem tellsLast_process (engine : Engine) (tells : world.failures.TellsLast lost)
    (delivery : Delivery) (snapshot : Sid) :
    let ran := (process engine delivery snapshot).on world
    ran.2.failures.TellsLast (lost ++ lostBy delivery ran.1) := by
  obtain ⟨running, outcome, metrics, failures, queue, ended, finished⟩ :=
    process_on engine delivery snapshot world
  dsimp only
  rw [ended]
  have asked := rebuild_asks engine delivery.message snapshot { world with cycle := some running }
  have report := asked.failures
  cases finished with
  | ended done kept left =>
    have settled := settles_of_rebuild (Prod.ext done rfl)
    have none : lostBy delivery (.ok outcome) = [] := by
      cases outcome <;> first | rfl | cases settled
    rw [none, List.append_nil]
    dsimp only
    rw [kept, report]
    exact tells
  | reported attempts reason error failed gone kept left =>
    subst gone
    dsimp only
    rw [kept, report]
    exact tells.record { delivery.message with attempts } reason
  | putOff attempts delay notBefore error failed waits kept left =>
    subst waits
    dsimp only [lostBy]
    rw [List.append_nil, kept, report]
    exact tells

theorem tellsLast_cycles (tells : world.failures.TellsLast lost) (snapshot : Sid)
    (deliveries : List Delivery) :
    (cycles engine snapshot deliveries world).2.failures.TellsLast
      (lost ++ lostIn engine snapshot deliveries world) := by
  induction deliveries generalizing world lost with
  | nil =>
    rw [lostIn, List.append_nil]
    exact tells
  | cons delivery rest ih =>
    have later := ih (tellsLast_process engine tells delivery snapshot)
    rw [List.append_assoc] at later
    exact later

theorem tellsLast_handling (engine : Engine)
    (received : Except EngineError (List Delivery) × World)
    (tells : received.2.failures.TellsLast lost) :
    (handling engine received).2.failures.TellsLast (lost ++ lostHandling engine received) := by
  rcases received with ⟨error | deliveries, started⟩
  · exact (List.append_nil lost).symm ▸ tells
  · cases deliveries with
    | nil => exact (List.append_nil lost).symm ▸ tells
    | cons first rest =>
      dsimp only [handling, lostHandling]
      rcases reading : writeMaxSid.on { started with
          metrics := { started.metrics with batches := started.metrics.batches + 1 } } with
        ⟨error | snapshot, ready⟩
      · dsimp only
        rw [List.append_nil, (writeMaxSid_same reading).2]
        exact tells
      · have still : (ready.withCache {}).failures.TellsLast lost := by
          have same : (ready.withCache {}).failures = started.failures := (writeMaxSid_same reading).2
          rw [same]
          exact tells
        exact tellsLast_cycles still snapshot (first :: rest)

/-- Every event but the end of a cycle and a requeueing leaves the report alone. -/
theorem tellsLast_event {running : Running} (tells : running.world.failures.TellsLast lost)
    (happening : Event) :
    (happening.next engine running).world.failures.TellsLast
      ((Turn.event happening).lostSince engine running lost) := by
  have still : ∀ {after : World}, after.failures = running.world.failures →
      after.failures.TellsLast (lost ++ []) := by
    intro after same
    rw [same, List.append_nil]
    exact tells
  cases happening with
  | edit change => exact still (change.after_queues engine running.world).failures
  | requeueFailures => exact FailureReport.tellsLast_empty
  | reindexTypes types checkExisting skipPropagation strict =>
    have asks : (Service.reindex ⟨some types, checkExisting, skipPropagation, strict⟩).Asks
        fun _ => False := Service.reindex_asks rfl
    exact still (asks running.world).failures
  | processBatch =>
    have handled := tellsLast_handling engine
      ((Action.receive engine engine.pipeline.batchSize).on running.world) tells
    obtain ⟨-, failures⟩ := processBatch_handling engine running.world
    rw [← failures] at handled
    exact handled
  | receive limit =>
    rw [Event.next, receive_on]
    exact still rfl
  | handle which snapshot =>
    cases found : running.handed[which]? with
    | none =>
      rw [Event.next, found, Turn.lostSince, Event.lost, found]
      exact still rfl
      exact fun requeueing => by cases requeueing
    | some delivery =>
      rw [Event.next, found, Turn.lostSince, Event.lost, found]
      exact tellsLast_cycles tells snapshot [delivery]
      exact fun requeueing => by cases requeueing
  | meanwhile now faults write read cache => exact still rfl

theorem tellsLast_turn {running : Running} (tells : running.world.failures.TellsLast lost)
    (turn : Turn) :
    (turn.next engine running).world.failures.TellsLast (turn.lostSince engine running lost) := by
  cases turn with
  | event happening => exact tellsLast_event tells happening
  | reindexAll checkExisting skipPropagation strict =>
    have kept : Keeps World.KeepsReport
        (Service.reindex ⟨none, checkExisting, skipPropagation, strict⟩) :=
      Service.reindex_keeps (P := fun _ => False) (R := World.KeepsReport)
        (fun _ _ asked => asked.failures) _ fun _ => keeps_modifyGet fun world => rfl
    have same : ((Turn.reindexAll checkExisting skipPropagation strict).next engine
        running).world.failures = running.world.failures := kept running.world
    rw [same]
    exact tells

theorem tellsLast_run (turns : List Turn) {running : Running}
    (tells : running.world.failures.TellsLast lost) :
    (run engine turns (running, lost)).1.world.failures.TellsLast
      (run engine turns (running, lost)).2 := by
  induction turns generalizing running lost with
  | nil => exact tells
  | cons turn rest ih => exact ih (tellsLast_turn tells turn)

/-- What requeueing puts on the primary lane. -/
def requeued (world : World) : List Message := world.failures.entries.map Service.renewed

theorem requeueFailures_primary (world : World) :
    (Service.requeueFailures.on world).2.queue.primary = world.queue.primary ++ requeued world := by
  rw [Service.requeueFailures_on, Queue.send_primary]
  rfl

theorem requeued_of (tells : world.failures.TellsLast lost) (uuid : Uuid) :
    (requeued world).filter (fun message => message.uuid = uuid) =
      ((lost.filter fun message => message.uuid = uuid).getLast?.toList).map fun message =>
        { message with attempts := 0, sid := none } := by
  rw [← tells uuid, requeued, List.filter_map, List.map_map]
  rfl

/-- Messages of an entity that were given up since failures were last requeued. -/
def givenUp (engine : Engine) (turns : List Turn) (running : Running) (uuid : Uuid) :
    List Message :=
  (run engine turns (running, [])).2.filter fun message => message.uuid = uuid

/-- The world that some turns lead to. -/
def reached (engine : Engine) (turns : List Turn) (running : Running) : World :=
  (run engine turns (running, [])).1.world

/-- Whatever happened to a running engine: of the messages of an entity that were given up since
failures were last requeued, requeueing puts the last one on the primary lane and no other, with a
fresh retry budget and without a stamp. That restores what all of them owed if and only if the last
one covers the others. -/
theorem requeues_last_failure (engine : Engine) (turns : List Turn) (running : Running)
    (fresh : running.world.failures = .empty) (uuid : Uuid)
    (given : givenUp engine turns running uuid ≠ []) :
    ∃ again, (Service.requeueFailures.on (reached engine turns running)).2.queue.primary =
        (reached engine turns running).queue.primary ++ again ∧
      again.filter (fun message => message.uuid = uuid) =
        [{ (givenUp engine turns running uuid).getLast given with attempts := 0, sid := none }] ∧
      (Restores (again.filter fun message => message.uuid = uuid)
          (givenUp engine turns running uuid) ↔
        ∀ other ∈ givenUp engine turns running uuid,
          Covers ((givenUp engine turns running uuid).getLast given) other) := by
  have tells : (reached engine turns running).failures.TellsLast
      (run engine turns (running, [])).2 :=
    tellsLast_run turns (fresh ▸ FailureReport.tellsLast_empty)
  have renewed : (requeued (reached engine turns running)).filter
      (fun message => message.uuid = uuid) =
        [{ (givenUp engine turns running uuid).getLast given with attempts := 0, sid := none }] := by
    rw [requeued_of tells uuid, ← givenUp, List.getLast?_eq_some_getLast given]
    rfl
  refine ⟨requeued (reached engine turns running), requeueFailures_primary _, renewed, ?_⟩
  rw [renewed]
  -- Neither the retry budget nor the stamp matters to what a message propagates.
  exact restores_singleton_iff _ _

namespace GivenUp

/-- Every message is given up after its first try. -/
def hasty : Engine :=
  { Engine.precise .books with pipeline := { (Engine.precise .books).pipeline with
      retry := { (Engine.precise .books).pipeline.retry with maxAttempts := 1 } } }

def idle : Running := ⟨.start (.memory .empty), []⟩

def named (name : String) : Turn :=
  .event (.edit (.put ⟨1⟩ ⟨"Author"⟩ (.ofText "name" name) none))

def renamed : World := (run hasty [named "Ann", named "Eve"] (idle, [])).1.world

/-- An author is put, renamed and not found within reach, twice. -/
def turns : List Turn :=
  [named "Ann", named "Eve",
    .event (.meanwhile .zero { Faults.none with records := [.unavailable, .unavailable] }
      renamed.write renamed.read {}),
    .event .processBatch]

/-- The new author, and then its new name. -/
def failed : List Message :=
  [⟨⟨"Author"⟩, ⟨1⟩, some 1, false, none, 1, none⟩,
    ⟨⟨"Author"⟩, ⟨1⟩, some 2, false, some ["Author.name"], 1, none⟩]

theorem givenUp_turns : givenUp hasty turns idle ⟨1⟩ = failed := by
  decide +kernel

end GivenUp

open GivenUp in
/-- The message that comes back knows of the new name only. -/
theorem renaming_hides_earlier_failure :
    givenUp hasty turns idle ⟨1⟩ = failed ∧
      (Service.requeueFailures.on (reached hasty turns idle)).2.queue.primary =
        [⟨⟨"Author"⟩, ⟨1⟩, none, false, some ["Author.name"], 0, none⟩] ∧
      ¬ Restores (Service.requeueFailures.on (reached hasty turns idle)).2.queue.primary
        (givenUp hasty turns idle ⟨1⟩) := by
  have back : (Service.requeueFailures.on (reached hasty turns idle)).2.queue.primary =
      [⟨⟨"Author"⟩, ⟨1⟩, none, false, some ["Author.name"], 0, none⟩] := by
    decide +kernel
  refine ⟨givenUp_turns, back, fun restores => ?_⟩
  rw [back, givenUp_turns] at restores
  obtain ⟨again, listed, -, unknown⟩ := restores.unknown ⟨_, List.mem_cons_self, rfl, rfl⟩
  rw [List.mem_singleton.mp listed] at unknown
  cases unknown

open GivenUp in
/-- It is the message that was given up last. -/
theorem renaming_is_requeued :
    ∃ again, (Service.requeueFailures.on (reached hasty turns idle)).2.queue.primary =
        (reached hasty turns idle).queue.primary ++ again ∧
      again.filter (fun message => message.uuid = ⟨1⟩) =
        [⟨⟨"Author"⟩, ⟨1⟩, none, false, some ["Author.name"], 0, none⟩] := by
  have given : givenUp hasty turns idle ⟨1⟩ ≠ [] := by
    rw [givenUp_turns]
    exact List.cons_ne_nil _ _
  obtain ⟨again, sent, renewed, -⟩ := requeues_last_failure hasty turns idle rfl ⟨1⟩ given
  refine ⟨again, sent, renewed.trans ?_⟩
  simp only [givenUp_turns]
  rfl

end Retention

end CachedViews
