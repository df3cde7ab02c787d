import CachedViews.Proofs.Asking.Answers
import CachedViews.Proofs.Convergence.Renewal
import CachedViews.Proofs.Embedding.Caching
import CachedViews.Proofs.Embedding.Dependencies
import CachedViews.Proofs.Freshness
import CachedViews.Proofs.Service.Weathering

/-!
A reindex over all types repairs whatever went wrong before it. It asks for a rebuild of every
entity without a stamp, so no rebuild is refused once the faults are over, and no stored view is
newer than the record of its entity. What a queue that comes to rest leaves are the views that
resolving each entity alone gives.
-/
namespace CachedViews

open CachedViews.Action WriteStore

namespace Service

variable {registry : Registry} {world after : World}

/-- A type that is neither checked nor only counted has each entity queued, in any world. -/
theorem reindexType_sends (options : ReindexOptions) (checks : options.checkExisting = false)
    (counts : options.skipPropagation = false) (strict : Bool) (telemetryId : String)
    (itemType : ItemType) (keys : List EntityKey) (world : World) :
    ∃ line stats, (reindexType options strict telemetryId itemType keys).on world =
      (.ok line, queueing world stats (keys.map (rebuildMessage strict telemetryId))) := by
  have sent : (send .primary (keys.map (rebuildMessage strict telemetryId))).on world = _ :=
    send_on _ _ _
  obtain ⟨stats, same⟩ := World.exists_counted world.read
  rw [Queue.send_primary] at sent
  rw [reindexType_eq, isSkipped, checks, if_neg Bool.false_ne_true, on_bind_ok (on_pure _ _),
    requeueType, if_neg Bool.false_ne_true, counts, if_neg Bool.false_ne_true]
  dsimp only
  rw [on_bind_ok sent]
  refine ⟨_, stats, congrArg (Prod.mk _) ?_⟩
  rw [queueing, World.counting, ← same]

theorem reindexTypes_sends (options : ReindexOptions) (checks : options.checkExisting = false)
    (counts : options.skipPropagation = false) (strict : Bool) (telemetryId : String)
    (groups : List (ItemType × List EntityKey)) (world : World) :
    ∃ lines stats, (groups.mapM fun group =>
        reindexType options strict telemetryId group.1 group.2).on world =
      (.ok lines, queueing world stats
        (groups.flatMap fun group => group.2.map (rebuildMessage strict telemetryId))) := by
  induction groups generalizing world with
  | nil =>
    obtain ⟨stats, same⟩ := World.exists_counted world.read
    refine ⟨[], stats, ?_⟩
    rw [List.mapM_nil, on_pure, List.flatMap_nil, queueing_nil, World.counting, ← same]
  | cons first rest ih =>
    obtain ⟨line, stats, ended⟩ := reindexType_sends options checks counts strict telemetryId
      first.1 first.2 world
    obtain ⟨lines, more, endedRest⟩ := ih (queueing world stats _)
    refine ⟨line :: lines, more, ?_⟩
    rw [List.mapM_cons, on_bind_ok ended, on_bind_ok endedRest, on_pure, queueing_queueing,
      List.flatMap_cons]

/-- A reindex over all types that ends well has asked for a rebuild of every entity, whatever went
wrong before or meanwhile. -/
theorem reindex_requests {strict : Bool} {report : ReindexReport}
    (consistent : Consistent registry world.write)
    (ended : (reindex ⟨none, false, false, strict⟩).on world = (.ok report, after)) :
    after.write = world.write ∧ ∀ uuid record, world.write.record? uuid = some record →
      after.queue.Requested uuid := by
  rw [reindex_eq] at ended
  obtain ⟨telemetryId, numbered, naming, ended⟩ := bind_ok ended
  obtain ⟨purged, cleared, clearing, ended⟩ := bind_ok ended
  have started : cleared.write = world.write := by
    cases naming
    cases clearing
    rfl
  rw [requeueTypes] at ended
  dsimp only at ended
  obtain ⟨keys, asked, listing, ended⟩ := bind_ok ended
  have looked := (listEntities_looks _).of_on listing
  have all : keys = world.write.list none := by
    have yields : (listEntities none).Yields (cleared.write.list none) cleared :=
      (writeStore_yields cleared).bind writeStore_looks fun _ _ => yields_pure _
    rw [yields _ _ listing, started]
  obtain ⟨lines, stats, sent⟩ := reindexTypes_sends ⟨none, false, false, strict⟩ rfl rfl
    (strict || (none : Option (List ItemType)).isNone) telemetryId (groupByType keys).entries asked
  rw [on_bind_ok sent] at ended
  cases ended
  refine ⟨looked.write.trans started, fun uuid record found => Or.inl ?_⟩
  have listed : ⟨record.itemType, uuid⟩ ∈ keys := all ▸ mem_list consistent found rfl
  obtain ⟨group, grouped, inside⟩ := exists_group listed
  refine ⟨_, List.mem_append_right _ (List.mem_flatMap.mpr ⟨group, grouped,
    List.mem_map_of_mem inside⟩), rfl, rfl⟩

end Service

namespace Convergence

open CachedViews.Embedding Indexing

variable {engine : Engine} {registry : Registry} {write : WriteStore}
  {views next : Uuid → Option View} {queue left : Queue} {world after : World}

/-- On the way to a repaired read store each entity has a restored view, or a rebuild of it is
requested, and no stored view is in the way of a rebuild. -/
structure Repairing (registry : Registry) (write : WriteStore) (views : Uuid → Option View)
    (queue : Queue) : Prop where
  dated : ∀ uuid view record, views uuid = some view → write.record? uuid = some record →
    view.sid ≤ record.sid
  reached : ∀ uuid record, write.record? uuid = some record → queue.Requested uuid ∨
    ∃ view, views uuid = some view ∧ Restored registry write record view

/-- It is enough that each entity keeps its view and its request, or has its view restored. -/
theorem Repairing.advance (repairing : Repairing registry write views queue)
    (each : ∀ uuid record, write.record? uuid = some record →
      (next uuid = views uuid ∧ (queue.Requested uuid → left.Requested uuid)) ∨
      ∃ view, next uuid = some view ∧ Restored registry write record view) :
    Repairing registry write next left where
  dated uuid view record held found := by
    rcases each uuid record found with ⟨same, -⟩ | ⟨other, there, cache, -, built⟩
    · exact repairing.dated uuid view record (same ▸ held) found
    · obtain rfl := Option.some.inj (there.symm.trans held)
      exact Int.le_of_eq (congrArg View.sid built)
  reached uuid record found := by
    rcases each uuid record found with ⟨same, kept⟩ | restored
    · exact (repairing.reached uuid record found).imp kept (same ▸ id)
    · exact Or.inr restored

/-- A message that is handled has what it asked for done, and everything else stands. -/
theorem Repairing.renewed {message : Message}
    (repairing : Repairing engine.registry write views queue)
    (renewed : Renewed engine message write views next)
    (kept : ∀ uuid, queue.Requested uuid → left.Requested uuid ∨ Queue.Asking uuid message) :
    Repairing engine.registry write next left := by
  cases renewed with
  | refused stamped same =>
    subst same
    -- A request has no stamp, so what was refused was none.
    refine repairing.advance fun uuid record found => Or.inl ⟨rfl, fun requested => ?_⟩
    exact (kept uuid requested).resolve_right fun asks => stamped asks.2
  | removed missing dropped =>
    subst dropped
    refine repairing.advance fun uuid record found => Or.inl ?_
    have other : uuid ≠ message.uuid := by
      rintro rfl
      rw [missing] at found
      cases found
    refine ⟨Function.update_of_ne other _ _, fun requested => ?_⟩
    exact (kept uuid requested).resolve_right fun asks => other asks.1.symm
  | outdated record view found held newer _ =>
    exact absurd newer (Int.not_lt.mpr (repairing.dated _ view record held found))
  | restored record view found built stored =>
    subst stored
    refine repairing.advance fun uuid other there => ?_
    by_cases root : uuid = message.uuid
    · subst root
      obtain rfl := Option.some.inj (found.symm.trans there)
      exact Or.inr ⟨view, Function.update_self _ _ _, built⟩
    · refine Or.inl ⟨Function.update_of_ne root _ _, fun requested => ?_⟩
      exact (kept uuid requested).resolve_right fun asks => root asks.1.symm

/-- A world without faults in which a repair is under way. -/
structure Renewing (registry : Registry) (world : World) : Prop where
  calm : world.Calm
  consistent : Consistent registry world.write
  storable : ∀ uuid, Storable registry world uuid
  repairing : ∃ views, world.read.Serves views ∧
    Repairing registry world.write views world.queue

/-- The deliveries of a batch are handled one after the other. -/
theorem Renewing.deliveries (deliveries handed : List Delivery) (mirrors : world.Mirrors)
    (serving : world.queue.Serving handed) (listed : ∀ delivery ∈ deliveries, delivery ∈ handed)
    (renewing : Renewing engine.registry world) :
    ∃ after, (deliveries.forM fun delivery =>
        discard (process engine delivery world.write.maxSid)).on world = (.ok (), after) ∧
      after.write = world.write ∧ after.queue.Orderly ∧ Renewing engine.registry after := by
  induction deliveries generalizing world with
  | nil => exact ⟨world, rfl, rfl, serving.orderly, renewing⟩
  | cons delivery rest ih =>
    have taken := listed delivery List.mem_cons_self
    obtain ⟨views, serves, repairing⟩ := renewing.repairing
    obtain ⟨outcome, middle, next, processed, renews, grown, adds, more, acknowledged⟩ :=
      process_renews delivery renewing.calm mirrors serves renewing.consistent (renewing.storable _)
    have same := renews.onward.write
    have passed : Repairing engine.registry world.write next middle.queue := by
      refine repairing.renewed renews.renewed fun uuid requested => ?_
      rw [acknowledged]
      exact (requested.grown more).ack (serving.of_adds adds) taken
    have handled : Renewing engine.registry middle :=
      ⟨renews.onward.calm, same ▸ renewing.consistent,
        fun uuid => (renewing.storable uuid).carried same renews.remains.readsBack,
        next, renews.serves, same ▸ passed⟩
    obtain ⟨after, ended, write, orderly, done⟩ := ih renews.onward.mirrors
      (acknowledged ▸ ((serving.of_adds adds).ack taken).1)
      (fun other later => listed other (List.mem_cons_of_mem _ later)) handled
    refine ⟨after, ?_, write.trans same, orderly, done⟩
    rw [List.forM, on_bind_ok (discard_on_ok processed), ← same]
    exact ended

/-- Batches of any size are taken, and time passes. -/
inductive Draining (engine : Engine) (world : World) : World → Prop where
  | start : Draining engine world world
  | batch {middle : World} (earlier : Draining engine world middle) (size : Nat) :
    Draining engine world ((processBatch (engine.taking size)).on middle).2
  | wait {middle : World} (earlier : Draining engine world middle) (now : Instant) :
    Draining engine world { middle with now }

theorem Draining.renewing {last : World} (draining : Draining engine world last)
    (orderly : world.queue.Orderly) (renewing : Renewing engine.registry world) :
    last.write = world.write ∧ last.queue.Orderly ∧ Renewing engine.registry last := by
  induction draining with
  | start => exact ⟨rfl, orderly, renewing⟩
  | @wait middle _ now ih =>
    obtain ⟨write, orderly, renewing⟩ := ih
    have calm : ({ middle with now } : World).Calm :=
      renewing.calm.of_faults rfl renewing.calm.writable renewing.calm.readable
    exact ⟨write, orderly, calm, renewing.consistent, renewing.storable, renewing.repairing⟩
  | @batch middle _ size ih =>
    obtain ⟨write, orderly, renewing⟩ := ih
    obtain ⟨started, queue, begins, read, ends⟩ :=
      processBatch_begins (engine.taking size) renewing.calm
    have received : (middle.received (engine.taking size)).2.Serving
        ([] ++ (middle.received (engine.taking size)).1) ∧ _ :=
      orderly.serving.receive (engine.taking size).reclaim middle.now _ _
    rw [← queue, List.nil_append] at received
    obtain ⟨views, serves, repairing⟩ := renewing.repairing
    have waiting : Repairing engine.registry middle.write views started.queue :=
      repairing.advance fun uuid record found =>
        Or.inl ⟨rfl, fun requested => queue ▸ requested.receive orderly.serving _ _ _ _⟩
    have beginning : Renewing engine.registry started :=
      ⟨begins.calm, begins.write ▸ renewing.consistent,
        fun uuid => (renewing.storable uuid).carried begins.write (congrArg _ read),
        views, read ▸ serves, begins.write ▸ waiting⟩
    obtain ⟨after, ended, same, still, done⟩ := @Renewing.deliveries (engine.taking size) started _ _
      begins.mirrors received.1 (fun _ => id) beginning
    rw [begins.write] at ended
    obtain ⟨handled, batch⟩ := ends after ended
    rw [batch]
    exact ⟨same.trans (begins.write.trans write), still, done.calm.withCache _, done.consistent,
      done.storable, done.repairing⟩

/-- A restored view is fresh. -/
theorem Restored.fresh {record : EntityRecord} {view : View}
    (restored : Restored registry write record view) (consistent : Consistent registry write)
    (found : write.record? record.uuid = some record) : Freshness.reasonsIn write view = [] := by
  obtain ⟨cache, -, rfl⟩ := restored
  refine (Freshness.reasonsIn_eq_nil_iff _).mpr ⟨record, found, Int.le_refl _, ?_, rfl⟩
  intro uuid inside target there
  exact Int.le_trans (consistent.record_sid_le there) (Int.le_max_left _ _)

/-- Whatever the read store holds, and whatever a rebuild may store in it, is read back as it was
stored. This asks something of the durable store only, which keeps views as texts. -/
structure Legible (registry : Registry) (world : World) : Prop where
  stored : ∀ view, world.read.Shows view → world.read.ReadsBack view
  storable : ∀ uuid, Storable registry world uuid

theorem legible_of_memory {store : MemoryViews} (memory : world.read = .memory store) :
    Legible registry world where
  stored view _ := by
    rw [memory]
    trivial
  storable uuid record view _ _ := by
    rw [memory]
    trivial

/-- A reindex that ends well leaves views to renew, whatever happened before it. -/
theorem renewing_of_reindex {strict : Bool} {report : ReindexReport}
    (enduring : world.Enduring registry) (legible : Legible registry after)
    (reindexed : (Service.reindex ⟨none, false, false, strict⟩).on world = (.ok report, after)) :
    after.recovered.queue.Orderly ∧ Renewing registry after.recovered := by
  have still := (Service.reindex_endures registry _).of_on reindexed enduring
  obtain ⟨write, requests⟩ := Service.reindex_requests enduring.projected.consistent reindexed
  have back := after.read.injected_readsBack true 0
  obtain ⟨views, serves, aged⟩ := ReadStore.exists_serves
    (P := fun uuid view => Aged after.write uuid view.sid)
    (ReadStore.takeFailure_failNextPuts_zero (after.read.setAvailable true))
    fun uuid slot held => by
      rw [ReadStore.injected_slot?] at held
      obtain ⟨view, owner, shows, aged⟩ := still.dated.aged uuid slot held
      exact ⟨view, owner, (after.read.injected_shows true 0 view).mpr shows,
        back ▸ legible.stored view shows, aged⟩
  refine ⟨still.orderly, after.recovered_calm, (still.projected.switched true).consistent,
    fun uuid record view found built => ?_, views, serves, ?_, ?_⟩
  · exact back ▸ legible.storable uuid record view found built
  · exact fun uuid view record held found => (aged uuid view held).current record found
  · exact fun uuid record found => Or.inl (requests uuid record (write ▸ found))

/-- A reindex over all types repairs a read store, whatever happened before. Once it has ended well
and the faults are over, and the queue has come to rest, each entity that is there has the view that
resolving it with nothing cached gives, and that view counts as fresh. What is calculated is the
same as well, as long as no path of a calculation steps from a property that is no link into one
that is named like a link of the same type. A durable read store has to read its texts back. -/
theorem total_reindex_repairs (engine : Engine) {world after last : World} {strict : Bool}
    {report : ReindexReport} (weathered : Weathered engine world)
    (reindexed : (Service.reindex ⟨none, false, false, strict⟩).on world = (.ok report, after))
    (legible : Legible engine.registry after) (draining : Draining engine after.recovered last)
    (idle : last.queue.isIdle = true) {uuid : Uuid} {record : EntityRecord}
    (found : last.write.record? uuid = some record) :
    ∃ view resolution, ((Action.view uuid).on last).1 = .ok view ∧
      ((resolveAlone engine.registry uuid).on last).1 = .ok resolution ∧
      view.sid = resolution.record.sid ∧ view.linked = resolution.linked ∧
      view.revLinks = resolution.revLinks ∧
      Document.uncalculated engine.registry view.itemType view.embedded =
        Document.uncalculated engine.registry view.itemType resolution.document ∧
      ((∀ path ∈ calculatedPaths engine.registry record.itemType,
          StepsApart engine.registry last.write.record? (Path.segments path) record) →
        view.embedded = resolution.document) ∧
      ((Freshness.checkView uuid).on last).1 = .ok .fresh := by
  obtain ⟨orderly, started⟩ := renewing_of_reindex weathered.enduring legible reindexed
  obtain ⟨-, -, renewing⟩ := draining.renewing orderly started
  obtain ⟨views, serves, repairing⟩ := renewing.repairing
  have own : last.write.record? record.uuid = some record := record?_uuid found ▸ found
  -- A queue at rest holds no request, so the entity has its view.
  obtain ⟨view, held, restored⟩ := (repairing.reached uuid record found).resolve_left
    (Queue.not_requested_of_isIdle idle)
  have fresh := Freshness.checkView_fresh renewing.calm serves.loads held
    (restored.fresh renewing.consistent own)
  obtain ⟨stats, looked⟩ := view_loaded renewing.calm serves.loads uuid
  have alone : ((resolveAlone engine.registry uuid).on last).1 = _ :=
    congrArg Prod.fst (resolveAlone_on renewing.calm found)
  rw [looked, held]
  obtain ⟨cache, known, rfl⟩ := restored
  have names := namesLinks_of_accepted renewing.consistent.accepted
  have same := resolution_sameSource names own known
  refine ⟨_, _, rfl, alone, rfl, same.linked, same.revLinks, same.document, fun apart => ?_, fresh⟩
  exact congrArg Resolution.document (resolution_eq_resolutionUnder names own known
    fun other overlooked => absurd overlooked (not_overlooked_of_stepsApart own apart other))

namespace Outage

/-- An author, a book and another author are indexed. -/
def indexed : World :=
  ((processBatch ((Engine.precise .books).taking 9)).on (Edit.worldAfter (.precise .books)
    (oneBook ++ [.put ⟨3⟩ ⟨"Author"⟩ (.ofText "name" "Bob") none]))).2

/-- The other author leaves while the read store is out of reach, so that a view stays behind. Then
somebody else comes under the same identifier, and the book's author is renamed. -/
def returned : World :=
  Edit.run (.precise .books) [
      .purge ⟨3⟩,
      .put ⟨3⟩ ⟨"Author"⟩ (.ofText "name" "Cid") none,
      .put ⟨1⟩ ⟨"Author"⟩ (.ofText "name" "Eve") none]
    (indexed.disturbed { Faults.none with outages := [false, false, true] } true true 0)

/-- A batch breaks off after it took all messages, and the next views will not be stored. -/
def damaged : World :=
  ((processBatch ((Engine.precise .books).taking 9)).on
    (returned.disturbed { Faults.none with outages := [true] } true true 2)).2

def reindexed : World := ((Service.reindex ⟨none, false, false, false⟩).on damaged).2

def half : World := ((processBatch ((Engine.precise .books).taking 2)).on reindexed.recovered).2

/-- After an hour the messages of the broken batch are delivered again. -/
def redelivered : World :=
  ((processBatch ((Engine.precise .books).taking 9)).on { half with now := .ofMillis 3600000 }).2

def repaired : World := ((processBatch ((Engine.precise .books).taking 9)).on redelivered).2

theorem weathered_damaged : Weathered (.precise .books) damaged := by
  have written : Weathered (.precise .books) (Edit.worldAfter (.precise .books)
      (oneBook ++ [.put ⟨3⟩ ⟨"Author"⟩ (.ofText "name" "Bob") none])) :=
    (Weathered.start (.memory .empty) fun _ => rfl).run _
  have batch : Weathered (.precise .books) indexed := written.handled 9
  have came : Weathered (.precise .books) returned :=
    (batch.disturbed _ List.not_mem_nil true true 0).run _
  exact (came.disturbed _ List.not_mem_nil true true 2).handled 9

theorem draining_repaired : Draining (.precise .books) reindexed.recovered repaired := by
  have first : Draining (.precise .books) reindexed.recovered half := .batch .start 2
  have waited := first.wait (.ofMillis 3600000)
  have second : Draining (.precise .books) reindexed.recovered redelivered := waited.batch 9
  exact second.batch 9

theorem weathered_repaired : Weathered (.precise .books) repaired := by
  have started : Weathered (.precise .books) reindexed.recovered :=
    (weathered_damaged.reindexed _).recovered
  have first : Weathered (.precise .books) half := started.handled 2
  have waited := first.waited (.ofMillis 3600000)
  have second : Weathered (.precise .books) redelivered := waited.handled 9
  exact second.handled 9

end Outage

open Outage in
/-- The newcomer had the view of another, the book kept the old name of its author, and messages
were in flight. A reindex and three batches bring the book up to date. -/
theorem broken_library_is_repaired :
    (damaged.read.load ⟨3⟩).toOption.join.map View.sid = some 3 ∧
      (damaged.write.record? ⟨3⟩).map EntityRecord.sid = some 4 ∧
      (∃ report, ((Service.reindex ⟨none, false, false, false⟩).on damaged).1 = .ok report) ∧
      repaired.queue.isIdle = true ∧
      ∃ view resolution, ((Action.view ⟨2⟩).on repaired).1 = .ok view ∧
        ((resolveAlone .books ⟨2⟩).on repaired).1 = .ok resolution ∧
        view.sid = resolution.record.sid ∧ view.linked = resolution.linked ∧
        view.revLinks = resolution.revLinks ∧ view.embedded = resolution.document ∧
        ((Freshness.checkView ⟨2⟩).on repaired).1 = .ok .fresh := by
  have ended : ((Service.reindex ⟨none, false, false, false⟩).on damaged).1.toOption.isSome =
      true := by
    decide +kernel
  -- A durable read store is always available, so what this switches off is the store in memory.
  have switched : (reindexed.read.setAvailable false).available = false := by
    decide +kernel
  have there : (repaired.write.record? ⟨2⟩).isSome = true := by
    decide +kernel
  have typed : repaired.write.WellTyped .books := by
    decide +kernel
  have idle : repaired.queue.isIdle = true := by
    decide +kernel
  obtain ⟨report, shown⟩ := Option.isSome_iff_exists.mp ended
  obtain ⟨record, found⟩ := Option.isSome_iff_exists.mp there
  have completed := ok_of_toOption shown
  have reindexing : (Service.reindex ⟨none, false, false, false⟩).on damaged =
      (.ok report, reindexed) := by
    rw [← completed, reindexed]
  have legible : Legible (Engine.precise .books).registry reindexed := by
    cases read : reindexed.read with
    | memory store => exact legible_of_memory read
    | durable store =>
      rw [read] at switched
      cases switched
  obtain ⟨view, resolution, stored, alone, sid, linked, revLinks, -, embedded, fresh⟩ :=
    total_reindex_repairs (.precise .books) weathered_damaged reindexing legible draining_repaired
      idle found
  refine ⟨by decide +kernel, by decide +kernel, ⟨report, completed⟩, idle, view, resolution, stored,
    alone, sid, linked, revLinks, embedded fun path listed => ?_, fresh⟩
  have sound := linksSound weathered_repaired.enduring.projected.consistent typed
  exact stepsApart_of_nestsPlainly sound (Registry.books_nestedApart record.itemType path listed)
    ⟨_, found⟩

namespace Mistyped

/-- Books show what the notes of their authors name as an editor. Authors have no editors, but
publishers do. -/
def presses : Registry := .ofDecls [
  .ofName ⟨"Author"⟩,
  ((TypeDecl.ofName ⟨"Book"⟩).link "author" ⟨"Author"⟩ false).calculate
    (Calculation.first.field "shown" ["author.meta.editor"]),
  (TypeDecl.ofName ⟨"Publisher"⟩).link "editor" ⟨"Author"⟩ false]

/-- A book that names a publisher as its author. -/
def published : World :=
  Edit.worldAfter (.precise presses) [
    .put ⟨1⟩ ⟨"Author"⟩ (.ofText "name" "Ann") none,
    .put ⟨2⟩ ⟨"Publisher"⟩
      (SortedMap.ofList [("meta", .object [("editor", .string (Uuid.text ⟨1⟩))])]) none,
    .put ⟨3⟩ ⟨"Book"⟩ (.ofText "author" (Uuid.text ⟨2⟩)) none]

/-- All types are reindexed, and one batch handles everything that waits. -/
def drained : World :=
  ((processBatch ((Engine.precise presses).taking 9)).on
    ((Service.reindex ⟨none, false, false, false⟩).on published).2.recovered).2

end Mistyped

open Mistyped in
/-- By the declarations no path steps into a link, but a link may lead to an entity of another type.
Then the view shows an editor whom the batch had loaded, and resolving the book alone does not. -/
theorem mistyped_author_shows_cached_editor :
    presses.Pure ∧ (∀ itemType, presses.NestedApart itemType) ∧
      Weathered (.precise presses) published ∧
      (∃ report after,
        (Service.reindex ⟨none, false, false, false⟩).on published = (.ok report, after) ∧
          Draining (.precise presses) after.recovered drained) ∧
      drained.queue.isIdle = true ∧
      ∃ view resolution, ((Action.view ⟨3⟩).on drained).1 = .ok view ∧
        ((resolveAlone presses ⟨3⟩).on drained).1 = .ok resolution ∧
        view.embedded ≠ resolution.document := by
  have pure : presses.Pure := Registry.pure_ofDecls <| List.forall_mem_cons.mpr ⟨nofun,
    List.forall_mem_cons.mpr ⟨List.forall_mem_singleton.mpr ⟨.first, rfl⟩,
      List.forall_mem_singleton.mpr nofun⟩⟩
  have nested : ∀ itemType, presses.NestedApart itemType :=
    Registry.nestedApart_ofDecls (by decide +kernel)
  have weathered : Weathered (.precise presses) published :=
    (Weathered.start (.memory .empty) fun _ => rfl).run _
  have completes : ((Service.reindex ⟨none, false, false, false⟩).on published).1.toOption.isSome =
      true := by
    decide +kernel
  obtain ⟨report, shown⟩ := Option.isSome_iff_exists.mp completes
  have completed := Action.ok_of_toOption shown
  have ended : (Service.reindex ⟨none, false, false, false⟩).on published = (.ok report,
      ((Service.reindex ⟨none, false, false, false⟩).on published).2) := by
    rw [← completed]
  have draining : Draining (.precise presses)
      ((Service.reindex ⟨none, false, false, false⟩).on published).2.recovered drained :=
    .batch .start 9
  have idle : drained.queue.isIdle = true := by
    decide +kernel
  have named : ((Action.view ⟨3⟩).on drained).1.toOption.map (fun view =>
      view.embedded.get? "shown" >>= Json.get? "name" >>= Json.text?) = some (some "Ann") := by
    decide +kernel
  have unnamed : ((resolveAlone presses ⟨3⟩).on drained).1.toOption.map (fun resolution =>
      resolution.document.get? "shown" >>= Json.get? "name" >>= Json.text?) = some none := by
    decide +kernel
  obtain ⟨view, stored, told⟩ := Action.ok_of_seen _ named
  obtain ⟨resolution, alone, hidden⟩ := Action.ok_of_seen _ unnamed
  refine ⟨pure, nested, weathered, ⟨report, _, ended, draining⟩, idle, view, resolution, stored,
    alone, fun same => ?_⟩
  rw [same, hidden] at told
  cases told

end Convergence

end CachedViews
