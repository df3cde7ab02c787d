import CachedViews.Proofs.Embedding.Loading
import CachedViews.Proofs.Service.Commands
import CachedViews.Proofs.Service.Projection

/-!
Runs of an engine that meet any outages, failures and delays. Whatever goes wrong, the sheets decide
over the indexes of the write store, no stored view has a later stamp than the record of its
entity, and the queue stays in order.
-/
namespace CachedViews

namespace World

open WriteStore (Aged Bounded Projected)

/-- The world with other faults ahead and the stores in or out of reach. -/
def disturbed (world : World) (faults : Faults) (writable readable : Bool) (failing : Nat) :
    World :=
  { world with
    faults
    write := { world.write with available := writable }
    read := (world.read.setAvailable readable).failNextPuts failing }

/-- Both stores are back within reach and nothing is left of the faults. -/
def recovered (world : World) : World := world.disturbed .none true true 0

theorem recovered_calm (world : World) : world.recovered.Calm where
  writable := rfl
  readable := by
    rw [recovered, disturbed]
    cases world.read <;> rfl
  outages := rfl
  records := rfl
  views := rfl
  prompt := rfl
  delays := rfl

/-- Every stored view has a stamp that its entity can have had. -/
structure Dated (world : World) : Prop where
  bounded : Bounded world.write
  aged : ∀ uuid slot, world.read.slot? uuid = some slot →
    ∃ view, view.uuid = uuid ∧ world.read.Shows view ∧ Aged world.write uuid view.sid

variable {registry : Registry} {before after world : World}

/-- Views that get stored are dated when their stamps can be those of their entities. -/
theorem Dated.asked (dated : before.Dated)
    (asked : Asked (fun view => Aged before.write view.uuid view.sid) before after) :
    after.Dated where
  bounded := asked.write ▸ dated.bounded
  aged uuid slot held := by
    rw [asked.write]
    rcases asked.read uuid with same | gone | ⟨view, aged, rfl, shows⟩
    · obtain ⟨view, rfl, shows, aged⟩ := dated.aged uuid slot (same ▸ held)
      refine ⟨view, rfl, ?_, aged⟩
      rw [ReadStore.Shows, same]
      exact shows
    · rw [gone] at held
      cases held
    · exact ⟨view, rfl, shows, aged⟩

/-- A view that is dated stays so when the write store goes on. -/
theorem Dated.step (dated : world.Dated) {next : WriteStore}
    (step : WriteStore.Step world.write next) (write : after.write = next)
    (read : after.read = world.read) : after.Dated where
  bounded := write ▸ (step.moves dated.bounded).bounded dated.bounded
  aged uuid slot held := by
    rw [read] at held ⊢
    obtain ⟨view, owner, shows, aged⟩ := dated.aged uuid slot held
    exact ⟨view, owner, shows, write ▸ aged.step step dated.bounded⟩

theorem Dated.of_read (dated : world.Dated) (write : after.write = world.write)
    (read : after.read = world.read) : after.Dated :=
  dated.step .refused write read

/-- What every run keeps. -/
structure Enduring (registry : Registry) (world : World) : Prop where
  unstale : world.Unstale
  projected : Projected registry world.write
  dated : world.Dated
  orderly : world.queue.Orderly

theorem Enduring.asked (enduring : before.Enduring registry)
    (asked : Asked (fun view => Aged before.write view.uuid view.sid) before after) :
    after.Enduring registry where
  unstale := asked.unstale enduring.unstale
  projected := asked.write ▸ enduring.projected
  dated := enduring.dated.asked asked
  orderly := by
    obtain ⟨posts, sent⟩ := asked.queue
    rw [sent]
    exact (Queue.sendAll_adds before.queue posts).orderly enduring.orderly

/-- The view of a resolved entity is dated. -/
theorem Enduring.aged (enduring : world.Enduring registry) {uuid : Uuid} {resolution : Resolution}
    (ended : (Embedding.resolve registry uuid none).on world = (.ok resolution, after))
    (snapshot : Sid) :
    Aged world.write (resolution.toView snapshot).uuid (resolution.toView snapshot).sid := by
  have found := Embedding.resolve_root enduring.unstale ended
  obtain rfl := WriteStore.record?_uuid found
  exact .of_record enduring.dated.bounded found

/-- Asking and queueing store no view. -/
theorem Asked.endures (asked : Asked (fun _ => False) before after) :
    Preserves (Enduring registry) before after := fun enduring =>
  enduring.asked { asked with read := asked.read.of_none }

end World

open CachedViews.Action

/-- A commit takes the write store one step or leaves it. -/
theorem Action.commit_dated {α : Type}
    (change : WriteStore → Except StorageError (α × WriteStore))
    (advances : WriteStore.Advances change) :
    Keeps (World.Preserves World.Dated) (Action.commit change) := by
  intro world dated
  obtain ⟨now, outages, delays, same | ⟨value, store, made, same⟩⟩ := commit_after change world
  · rw [same]
    exact dated.of_read rfl rfl
  · rw [same]
    exact dated.step (advances _ _ _ made) rfl rfl

theorem Edit.after_endures (engine : Engine) (world : World) (edit : Edit) :
    World.Preserves (World.Enduring engine.registry) world (after engine world edit) := by
  intro enduring
  obtain ⟨unstale, projected⟩ := after_projects engine world edit enduring.unstale
  obtain ⟨posts, sent⟩ := (after_queues engine world edit).queue
  refine ⟨unstale, projected enduring.projected, ?_, ?_⟩
  · exact after_keeps Action.commit_dated
      (fun _ _ asked dated => dated.asked { asked with read := asked.read.of_none })
      engine world edit enduring.dated
  · rw [sent]
    exact (Queue.sendAll_adds world.queue posts).orderly enduring.orderly

namespace Service

theorem reindex_endures (registry : Registry) (options : ReindexOptions) :
    Keeps (World.Preserves (World.Enduring registry)) (reindex options) :=
  reindex_keeps (fun _ _ => World.Asked.endures) options fun _ _ enduring =>
    ⟨enduring.unstale, enduring.projected, enduring.dated.of_read rfl rfl, enduring.orderly.purge⟩

theorem requeueFailures_endures (registry : Registry) :
    Keeps (World.Preserves (World.Enduring registry)) requeueFailures := by
  intro world enduring
  rw [requeueFailures_on]
  exact ⟨enduring.unstale, enduring.projected, enduring.dated.of_read rfl rfl,
    (world.queue.send_adds .primary world.now _).orderly enduring.orderly⟩

end Service

namespace Indexing

variable (engine : Engine)

theorem process_orderly (delivery : Delivery) (snapshot : Sid) :
    Keeps (World.Preserves fun world => world.queue.Orderly) (process engine delivery snapshot) := by
  intro world orderly
  obtain ⟨running, outcome, metrics, failures, queue, ended, finished⟩ :=
    process_on engine delivery snapshot world
  obtain ⟨posts, sent⟩ :=
    (rebuild_asks engine delivery.message snapshot { world with cycle := some running }).queue
  have cycled := (Queue.sendAll_adds world.queue posts).orderly orderly
  rw [← show _ = world.queue.sendAll posts from sent] at cycled
  rw [ended]
  cases finished with
  | ended _ _ left => exact left ▸ cycled.ack _
  | reported _ _ _ _ _ _ left => exact left ▸ cycled.ack _
  | putOff _ _ _ _ _ _ _ left =>
    exact left ▸ ((Queue.sendDeferred_adds _ _ _).orderly cycled).ack _

theorem process_endures (delivery : Delivery) (snapshot : Sid) :
    Keeps (World.Preserves (World.Enduring engine.registry)) (process engine delivery snapshot) := by
  intro world enduring
  have orderly := process_orderly engine delivery snapshot world enduring.orderly
  obtain ⟨running, outcome, metrics, failures, queue, ended, finished⟩ :=
    process_on engine delivery snapshot world
  have started : ({ world with cycle := some running } : World).Enduring engine.registry :=
    ⟨enduring.unstale, enduring.projected, enduring.dated.of_read rfl rfl, enduring.orderly⟩
  have cycled := started.asked (rebuild_asks_of engine delivery.message
    fun resolution after resolved => started.aged resolved snapshot)
  rw [ended] at orderly ⊢
  exact ⟨cycled.unstale, cycled.projected, cycled.dated.of_read rfl rfl, orderly⟩

/-- A batch keeps what receiving, looking up, swapping the cache and each cycle keep. -/
theorem processBatch_keeps {R : World → World → Prop} [World.Chain R]
    (receiving : Keeps R (Action.receive engine engine.pipeline.batchSize))
    (looking : ∀ before after, World.Looked before after → R before after)
    (caching : ∀ (world : World) cache, R world (world.withCache cache))
    (cycling : ∀ delivery snapshot, Keeps R (process engine delivery snapshot)) :
    Keeps R (processBatch engine) := by
  refine receiving.bind fun deliveries => ?_
  cases deliveries with
  | nil => exact keeps_pure 0
  | cons first rest =>
    refine ((count_looks _).mono looking).bind fun _ =>
      ((writeStore_looks.bind fun _ => keeps_pure _).mono looking).bind fun snapshot => ?_
    have handling := keeps_forM
      (fun delivery => (cycling delivery snapshot).map fun _ => ()) (first :: rest)
    refine Keeps.bind (fun world => ?_) fun _ => keeps_pure _
    rw [Embedding.withCache_on]
    exact World.Chain.trans (caching world {})
      (World.Chain.trans (handling (world.withCache {})) (caching _ world.cache))

theorem processBatch_endures :
    Keeps (World.Preserves (World.Enduring engine.registry)) (processBatch engine) := by
  refine processBatch_keeps engine (fun _ enduring => ?_)
    (fun _ _ looked => looked.asked.endures) (fun _ _ enduring => ?_) (process_endures engine)
  · exact ⟨enduring.unstale, enduring.projected, enduring.dated.of_read rfl rfl,
      enduring.orderly.receive _ _ _ _⟩
  · exact ⟨enduring.unstale, enduring.projected, enduring.dated.of_read rfl rfl, enduring.orderly⟩

end Indexing

/-- Runs of puts, purges, reindexing, requeueing and batches of any size. Between two calls time may
pass, each store may go out of reach or come back, and any failures and delays may be injected. A
look-up may be refused, but none shows an outdated record. -/
inductive Weathered (engine : Engine) : World → Prop where
  | start (read : ReadStore) (empty : ∀ uuid, read.slot? uuid = none) :
    Weathered engine (.start read)
  | edited {world : World} (earlier : Weathered engine world) (edit : Edit) :
    Weathered engine (edit.after engine world)
  | reindexed {world : World} (earlier : Weathered engine world) (options : ReindexOptions) :
    Weathered engine ((Service.reindex options).on world).2
  | requeued {world : World} (earlier : Weathered engine world) :
    Weathered engine (Service.requeueFailures.on world).2
  | handled {world : World} (earlier : Weathered engine world) (size : Nat) :
    Weathered engine ((Indexing.processBatch (engine.taking size)).on world).2
  | waited {world : World} (earlier : Weathered engine world) (now : Instant) :
    Weathered engine { world with now }
  | disturbed {world : World} (earlier : Weathered engine world) (faults : Faults)
    (unstale : RecordFault.stale ∉ faults.records) (writable readable : Bool) (failing : Nat) :
    Weathered engine (world.disturbed faults writable readable failing)

namespace Weathered

variable {engine : Engine} {world : World}

theorem enduring (weathered : Weathered engine world) : world.Enduring engine.registry := by
  induction weathered with
  | start read empty =>
    refine ⟨List.not_mem_nil, .empty, ⟨WriteStore.Grounded.empty.bounded, fun uuid slot held => ?_⟩,
      .empty⟩
    exact absurd ((empty uuid).symm.trans held) (Option.some_ne_none slot).symm
  | edited _ edit ih => exact edit.after_endures engine _ ih
  | reindexed _ options ih => exact Service.reindex_endures engine.registry options _ ih
  | requeued _ ih => exact Service.requeueFailures_endures engine.registry _ ih
  | handled _ size ih => exact Indexing.processBatch_endures (engine.taking size) _ ih
  | waited _ now ih => exact ⟨ih.unstale, ih.projected, ih.dated.of_read rfl rfl, ih.orderly⟩
  | @disturbed world _ faults unstale writable readable failing ih =>
    refine ⟨unstale, ih.projected.switched writable, ⟨ih.dated.bounded, fun uuid slot held => ?_⟩,
      ih.orderly⟩
    rw [World.disturbed, ReadStore.injected_slot?] at held
    obtain ⟨view, owner, shows, aged⟩ := ih.dated.aged uuid slot held
    have still := (world.read.injected_shows readable failing view).mpr shows
    exact ⟨view, owner, still, aged.issued, aged.current⟩

theorem run (weathered : Weathered engine world) (edits : List Edit) :
    Weathered engine (Edit.run engine edits world) := by
  induction edits generalizing world with
  | nil => exact weathered
  | cons edit rest ih => exact ih (weathered.edited edit)

theorem recovered (weathered : Weathered engine world) : Weathered engine world.recovered :=
  weathered.disturbed .none List.not_mem_nil true true 0

end Weathered

end CachedViews
