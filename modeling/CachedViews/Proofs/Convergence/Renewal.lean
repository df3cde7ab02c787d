import CachedViews.Proofs.Indexing.Batch
import CachedViews.Proofs.Queue.Requesting
import CachedViews.Proofs.ReadStore.Serving

/-!
What a delivery does to a read store of either kind once the faults are over: it leaves a view that
was built from the records as they are, unless its message is refused for its stamp or a newer view
is in the way. The queue only gains messages until the delivery is acknowledged.
-/
namespace CachedViews

namespace Convergence

open CachedViews.Action CachedViews.Embedding Indexing WriteStore

/-- A view that was built from the records as they are, on a cache that may hold more. -/
def Restored (registry : Registry) (write : WriteStore) (record : EntityRecord) (view : View) :
    Prop :=
  ∃ cache : RecordCache,
    (∀ uuid ∈ loaded registry write (registry.embedPaths record.itemType) record,
      cache.record? uuid = write.record? uuid) ∧
    view = (resolution registry write cache (registry.embedPaths record.itemType) record).toView
      write.maxSid

/-- What becomes of the views. -/
inductive Renewed (engine : Engine) (message : Message) (write : WriteStore)
    (views next : Uuid → Option View) : Prop where
  | refused (stamped : message.sid ≠ none) (same : next = views)
  | removed (missing : write.record? message.uuid = none)
    (dropped : next = Function.update views message.uuid none)
  | outdated (record : EntityRecord) (view : View)
    (found : write.record? message.uuid = some record) (held : views message.uuid = some view)
    (newer : record.sid < view.sid) (same : next = views)
  | restored (record : EntityRecord) (view : View)
    (found : write.record? message.uuid = some record)
    (built : Restored engine.registry write record view)
    (stored : next = Function.update views message.uuid (some view))

/-- What one message leaves of the world and the views, the queue apart. -/
structure Renews (engine : Engine) (message : Message) (world : World)
    (views : Uuid → Option View) (after : World) (next : Uuid → Option View) : Prop where
  onward : world.Onward after
  remains : ReadStore.Remains world.read after.read
  serves : after.read.Serves next
  renewed : Renewed engine message world.write views next

/-- Views that a rebuild may store for the entity are read back as they were stored. -/
def Storable (registry : Registry) (world : World) (uuid : Uuid) : Prop :=
  ∀ record view, world.write.record? uuid = some record →
    Restored registry world.write record view → world.read.ReadsBack view

theorem Storable.carried {registry : Registry} {world after : World} {uuid : Uuid}
    (storable : Storable registry world uuid) (write : after.write = world.write)
    (readsBack : after.read.ReadsBack = world.read.ReadsBack) : Storable registry after uuid := by
  intro record view found built
  rw [readsBack]
  exact storable record view (write ▸ found) (write ▸ built)

variable {engine : Engine} {message : Message} {world : World} {views : Uuid → Option View}

theorem storeView_renews (calm : world.Calm) (mirrors : world.Mirrors)
    (serves : world.read.Serves views) (consistent : Consistent engine.registry world.write)
    {record : EntityRecord} (found : world.write.record? message.uuid = some record)
    {resolution : Resolution} (root : resolution.record = record) {snapshot : Sid}
    (built : Restored engine.registry world.write record (resolution.toView snapshot))
    (back : world.read.ReadsBack (resolution.toView snapshot)) :
    ∃ result after next, (storeView engine message resolution snapshot).on world = (result, after) ∧
      Renews engine message world views after next ∧ world.queue.Adds after.queue ∧
        world.queue.Extends after.queue := by
  have current : world.write.record? record.uuid = some record := record?_uuid found ▸ found
  have owner : (resolution.toView snapshot).uuid = message.uuid :=
    (congrArg EntityRecord.uuid root).trans (record?_uuid found)
  obtain ⟨sids, looked, stored⟩ := viewSids_loaded calm serves.loads message.uuid
  rw [storeView, on_bind_ok looked]
  dsimp only
  rw [stored]
  cases conflicts : ((views message.uuid).map View.sid).filter fun stored =>
      (resolution.toView snapshot).sid < stored with
  | some newer =>
    obtain ⟨held, less⟩ := Option.filter_eq_some_iff.mp conflicts
    obtain ⟨view, there, rfl⟩ := Option.map_eq_some_iff.mp held
    have newer : record.sid < view.sid := by
      rw [← root]
      exact of_decide_eq_true less
    -- The stored view is of a later record, so it stays.
    exact ⟨_, _, views, rfl, ⟨onward_of_same calm mirrors rfl rfl rfl rfl rfl calm.readable,
      .refl _, serves, .outdated record view found there newer rfl⟩, .refl _, .refl _⟩
  | none =>
    dsimp only
    obtain ⟨read, ended, remains, held⟩ := putView_served calm serves back
    rw [owner] at held
    have readable : read.available = true := remains.available.trans calm.readable
    have renewed : Renewed engine message world.write views
        (Function.update views message.uuid (some (resolution.toView snapshot))) :=
      .restored record _ found built rfl
    rw [on_bind_ok ended, on_bind_ok (count_on _ _)]
    dsimp only
    generalize ({ world.metrics with indexed := world.metrics.indexed + 1 } : Metrics) = metrics
    by_cases strict : message.strict = true
    · rw [if_pos strict, on_bind_ok (on_pure _ _)]
      exact ⟨_, _, _, rfl, ⟨onward_of_same calm mirrors rfl rfl rfl rfl rfl readable, remains, held,
        renewed⟩, .refl _, .refl _⟩
    · rw [if_neg strict, root]
      have calmAfter : ({ world with read, metrics } : World).Calm :=
        calm.of_faults rfl calm.writable readable
      obtain ⟨count, stats, metrics, messages, propagated⟩ := propagate_sends engine message
        calmAfter held.loads consistent current ((views message.uuid).map View.sid)
      rw [on_bind_ok propagated]
      refine ⟨_, _, _, rfl, ⟨onward_of_same calm mirrors rfl rfl rfl rfl rfl ?_,
        remains.trans (ReadStore.remains_counted _ _), held.counted stats, renewed⟩,
        Queue.send_adds _ _ _ _, Queue.send_extends _ _ _ _⟩
      exact (World.counted_available _ _).trans readable

/-- A cycle depends on the write store and the read store alone. -/
theorem Renews.of_same {other after : World} {next : Uuid → Option View}
    (renews : Renews engine message other views after next) (onward : world.Onward other)
    (read : other.read = world.read) : Renews engine message world views after next where
  onward := onward.trans renews.onward
  remains := read ▸ renews.remains
  serves := renews.serves
  renewed := onward.write ▸ renews.renewed

/-- One cycle, however it ends. -/
theorem rebuild_renews (calm : world.Calm) (mirrors : world.Mirrors)
    (serves : world.read.Serves views) (consistent : Consistent engine.registry world.write)
    (storable : Storable engine.registry world message.uuid) :
    ∃ result after next,
      (rebuild engine message world.write.maxSid).on world = (result, after) ∧
        Renews engine message world views after next ∧ world.queue.Adds after.queue ∧
          world.queue.Extends after.queue := by
  rw [rebuild]
  rcases requireCovered_cases message world.write.maxSid world with
    covered | ⟨⟨error, refused⟩, sid, stamped, -⟩
  · rw [on_bind_ok covered]
    cases found : world.write.record? message.uuid with
    | none =>
      rw [on_bind_ok (orNotFound_on_missing (resolve_on_missing calm found))]
      dsimp only
      obtain ⟨existed, read, ended, remains, held⟩ := deleteView_served calm serves message.uuid
      rw [removeView, on_bind_ok ended, on_bind_ok (count_on _ _)]
      have readable : read.available = true := remains.available.trans calm.readable
      exact ⟨_, _, _, rfl, ⟨onward_of_same calm mirrors rfl rfl rfl rfl rfl readable, remains, held,
        .removed found rfl⟩, .refl _, .refl _⟩
    | some record =>
      rw [on_bind_ok (orNotFound_on (resolve_on calm mirrors found))]
      dsimp only
      obtain ⟨loads, all⟩ : ∃ loads, loads = loaded engine.registry world.write
        (engine.registry.embedPaths record.itemType) record := ⟨_, rfl⟩
      rw [← all]
      have built : Restored engine.registry world.write record
          ((resolution engine.registry world.write (world.knowing loads).cache
            (engine.registry.embedPaths record.itemType) record).toView world.write.maxSid) := by
        refine ⟨_, fun uuid listed => ?_, rfl⟩
        rw [← all] at listed
        exact World.knowing_record? loads listed
      have loading : world.Onward (world.knowing loads) :=
        ⟨rfl, rfl, calm.knowing loads, mirrors.knowing loads, id⟩
      obtain ⟨result, after, next, ended, renews, adds, more⟩ := @storeView_renews engine
        message (world.knowing loads) views loading.calm loading.mirrors serves consistent record
        found _ rfl _ built (storable record _ found built)
      exact ⟨result, after, next, ended, renews.of_same loading rfl, adds, more⟩
  · rw [on_bind_error refused]
    have stamp : message.sid ≠ none := by
      rw [stamped]
      exact Option.some_ne_none sid
    exact ⟨_, _, views, rfl, ⟨onward_of_same calm mirrors rfl rfl rfl rfl rfl calm.readable,
      .refl _, serves, .refused stamp rfl⟩, .refl _, .refl _⟩

/-- One delivery, which is acknowledged in every case. -/
theorem process_renews (delivery : Delivery) (calm : world.Calm) (mirrors : world.Mirrors)
    (serves : world.read.Serves views) (consistent : Consistent engine.registry world.write)
    (storable : Storable engine.registry world delivery.message.uuid) :
    ∃ outcome after next,
      (process engine delivery world.write.maxSid).on world = (.ok outcome, after) ∧
        Renews engine delivery.message world views after next ∧
          ∃ queue, world.queue.Adds queue ∧ world.queue.Extends queue ∧
            after.queue = (queue.ack delivery.receipt).2 := by
  obtain ⟨running, outcome, metrics, failures, queue, ended, finished⟩ :=
    process_on engine delivery world.write.maxSid world
  have beginning : world.Onward { world with cycle := some running } :=
    ⟨rfl, rfl, calm.of_faults rfl calm.writable calm.readable, mirrors, id⟩
  obtain ⟨result, middle, next, cycled, renews, adds, more⟩ := @rebuild_renews engine
    delivery.message _ views beginning.calm beginning.mirrors serves consistent storable
  rw [cycled] at ended finished
  have passed := beginning.trans renews.onward
  have renewsAfter (lost : middle.failures.entries ≠ [] → failures.entries ≠ []) :
      Renews engine delivery.message world views
        { middle with cycle := none, metrics, failures, queue } next :=
    ⟨passed.finished metrics queue lost, renews.remains, renews.serves, renews.renewed⟩
  refine ⟨outcome, _, next, ended, ?_⟩
  cases finished with
  | ended done report left => exact ⟨renewsAfter (report ▸ id), middle.queue, adds, more, left⟩
  | reported attempts reason error failed lost report left =>
    refine ⟨renewsAfter fun _ => ?_, middle.queue, adds, more, left⟩
    rw [report]
    exact List.append_ne_nil_of_right_ne_nil _ (List.cons_ne_nil _ _)
  | putOff attempts delay notBefore error failed waits report left =>
    exact ⟨renewsAfter (report ▸ id), _, adds.trans (Queue.sendDeferred_adds _ _ _),
      more.trans (Queue.sendDeferred_extends _ _ _), left⟩

end Convergence

end CachedViews
