import CachedViews.Proofs.Service.Stamping
import CachedViews.Proofs.Service.Weathering

/-!
The watermark along runs of an engine. A batch reads it after it received its messages and before
it resolves anything, so it covers every message and nothing that a batch stores goes back behind
what was stored before.
-/
namespace CachedViews

open CachedViews.Action

namespace World

/-- Views that are stored before and after have stamps that did not go down. -/
def Rises (before after : World) : Prop :=
  ∀ uuid view other, before.read.slot? uuid = some (.inl view) →
    after.read.slot? uuid = some (.inl other) → view.UpTo other

variable {seen : View → Prop} {before after : World}

theorem Stamped.rises (stamped : before.Stamped seen) (onward : after.Stamped before.Stores) :
    before.Rises after := by
  intro uuid view other held holds
  obtain ⟨rfl, -⟩ := stamped.stored uuid view held
  exact onward.later view held other holds

end World

namespace Indexing

variable (engine : Engine) {world : World} {seen : View → Prop}

/-- A message that is not ahead of a watermark passes its check. -/
theorem requireCovered_on_within {message : Message} {snapshot : Sid}
    (within : message.Within snapshot) (world : World) :
    (requireCovered message snapshot).on world = (.ok (), world) := by
  rcases requireCovered_cases message snapshot world with covered | ⟨-, sid, stamped, ahead⟩
  · exact covered
  · exact absurd (within sid stamped) (Int.not_le.mpr ahead)

/-- The watermark is that of the write store, if it can be read. -/
theorem writeMaxSid_cases (world : World) :
    ∃ now outages delays, let asked := world.asking now outages delays
      writeMaxSid.on world = (.ok world.write.maxSid, asked) ∨
        ∃ error, writeMaxSid.on world = (.error error, asked) := by
  obtain ⟨now, outages, delays, reached⟩ := writeStore_after world
  refine ⟨now, outages, delays, ?_⟩
  have told := writeStore_result world
  dsimp only
  rw [writeMaxSid, on_bind]
  rcases asking : writeStore.on world with ⟨error | store, middle⟩
  · rw [asking] at reached
    exact Or.inr ⟨error, Prod.ext rfl reached⟩
  · rw [asking] at reached told
    rcases told with same | ⟨_, same, -⟩
    · cases same
      exact Or.inl (Prod.ext rfl reached)
    · cases same

/-- A cycle under the current watermark. -/
theorem process_stamped {delivery : Delivery} (stamped : world.Stamped seen)
    (within : delivery.message.Within world.write.maxSid) :
    ((process engine delivery world.write.maxSid).on world).2.Stamped seen ∧
      ((process engine delivery world.write.maxSid).on world).2.write = world.write := by
  obtain ⟨running, outcome, metrics, failures, queue, ended, finished⟩ :=
    process_on engine delivery world.write.maxSid world
  have started : ({ world with cycle := some running } : World).Stamped seen :=
    stamped.of_same stamped.unstale rfl (fun _ => rfl) rfl rfl
  have posted : World.Posted (Message.Within world.write.maxSid) (View.Current · world.write)
      { world with cycle := some running } ((rebuild engine delivery.message
        world.write.maxSid).on { world with cycle := some running }).2 :=
    rebuild_posts_of engine delivery.message fun resolution after resolved => by
      have found := Embedding.resolve_root (by exact stamped.unstale) resolved
      have owner := WriteStore.record?_uuid found
      have issued := (WriteStore.Aged.of_record stamped.bounded found).issued
      have current : world.write.record? resolution.record.uuid = some resolution.record :=
        owner.symm ▸ found
      exact ⟨⟨⟨resolution.record, current, rfl⟩, Int.max_eq_left issued⟩,
        fun message same => .of_stamped same issued⟩
  have cycled := started.posted posted
  have write := posted.write
  rw [ended]
  refine ⟨?_, write⟩
  generalize (rebuild engine delivery.message world.write.maxSid).on
    { world with cycle := some running } = cycle at cycled write finished
  rw [← write] at within
  cases finished with
  | ended _ report left =>
    obtain ⟨tidy, queued⟩ := cycled.queued.ack cycled.tidy delivery.receipt
    exact { cycled with
      tidy := left ▸ tidy, queued := left ▸ queued, reported := report ▸ cycled.reported }
  | reported attempts reason _ _ _ report left =>
    obtain ⟨tidy, queued⟩ := cycled.queued.ack cycled.tidy delivery.receipt
    refine { cycled with tidy := left ▸ tidy, queued := left ▸ queued, reported := ?_ }
    intro failure listed
    rw [report] at listed
    rcases List.mem_append.mp listed with old | new
    · exact cycled.reported failure (List.mem_filter.mp old).1
    · obtain rfl := List.mem_singleton.mp new
      exact within
  | putOff attempts _ notBefore _ _ _ report left =>
    obtain ⟨waiting, still⟩ := cycled.queued.sendDeferred cycled.tidy
      { delivery.message with attempts } notBefore within
    obtain ⟨tidy, queued⟩ := still.ack waiting delivery.receipt
    exact { cycled with
      tidy := left ▸ tidy, queued := left ▸ queued, reported := report ▸ cycled.reported }

/-- No cycle of a batch stores a view behind the one before. -/
theorem cycles_stamped {deliveries : List Delivery} {snapshot : Sid} (stamped : world.Stamped seen)
    (watermark : world.write.maxSid = snapshot)
    (within : ∀ delivery ∈ deliveries, delivery.message.Within snapshot) :
    (∀ moment ∈ (Retention.cycles engine snapshot deliveries world).1,
        moment.before.Rises moment.after) ∧
      (Retention.cycles engine snapshot deliveries world).2.Stamped seen := by
  subst watermark
  induction deliveries generalizing world with
  | nil => exact ⟨fun _ never => absurd never List.not_mem_nil, stamped⟩
  | cons delivery rest ih =>
    have passes := within delivery List.mem_cons_self
    obtain ⟨still, write⟩ := process_stamped engine stamped passes
    have rises := stamped.rises (process_stamped engine stamped.seeing passes).1
    rw [Retention.cycles]
    dsimp only
    rw [← write] at within ⊢
    obtain ⟨further, last⟩ := ih still fun other listed =>
      within other (List.mem_cons_of_mem _ listed)
    rw [write] at further last ⊢
    refine ⟨fun moment listed => ?_, last⟩
    rcases List.mem_cons.mp listed with rfl | later
    · exact rises
    · exact further moment later

/-- What is received is covered by the watermark. -/
theorem receive_stamped (stamped : world.Stamped seen) (limit : Nat) :
    let received := world.queue.receive engine.reclaim world.now
      engine.pipeline.visibilityTimeout limit
    ({ world with queue := received.2 } : World).Stamped seen ∧
      ∀ delivery ∈ received.1, delivery.message.Within world.write.maxSid := by
  obtain ⟨tidy, queued, each⟩ := stamped.queued.receive stamped.tidy engine.reclaim
    world.now engine.pipeline.visibilityTimeout limit
  exact ⟨stamped.requeue tidy queued, each⟩

theorem handling_stamped (stamped : world.Stamped seen) :
    let handled := Retention.handling engine
      ((Action.receive engine engine.pipeline.batchSize).on world)
    (∀ moment ∈ handled.1, moment.before.Rises moment.after) ∧ handled.2.Stamped seen := by
  obtain ⟨received, each⟩ :=
    receive_stamped engine stamped engine.pipeline.batchSize
  rw [Retention.receive_on]
  generalize world.queue.receive engine.reclaim world.now
    engine.pipeline.visibilityTimeout engine.pipeline.batchSize = taken at received each
  obtain ⟨deliveries, queue⟩ := taken
  cases deliveries with
  | nil => exact ⟨fun _ never => absurd never List.not_mem_nil, received⟩
  | cons first rest =>
    dsimp only [Retention.handling]
    obtain ⟨now, outages, delays, read | ⟨error, read⟩⟩ := writeMaxSid_cases { world with
      queue, metrics := { world.metrics with batches := world.metrics.batches + 1 } }
    · rw [read]
      exact cycles_stamped engine
        (received.of_same received.unstale rfl (fun _ => rfl) rfl rfl) rfl each
    · rw [read]
      exact ⟨fun _ never => absurd never List.not_mem_nil,
        received.of_same received.unstale rfl (fun _ => rfl) rfl rfl⟩

theorem processBatch_stamped :
    Keeps (World.Preserves (World.Stamped seen)) (processBatch engine) := by
  intro world stamped
  obtain ⟨cache, same⟩ := Retention.processBatch_after engine world
  have handled := (handling_stamped engine stamped).2
  rw [same]
  exact handled.of_same handled.unstale rfl (fun _ => rfl) rfl rfl

end Indexing

namespace ReadStore

theorem maxOf_of_each {P : Sid → Prop} (zero : P 0) (either : ∀ a b, P a → P b → P (max a b))
    {sids : List Sid} (each : ∀ sid ∈ sids, P sid) : P (maxOf sids) := by
  cases sids with
  | nil => exact zero
  | cons first rest =>
    rw [maxOf]
    have start := each first List.mem_cons_self
    have others := fun sid listed => each sid (List.mem_cons_of_mem first listed)
    clear each
    induction rest generalizing first with
    | nil => exact start
    | cons second rest ih =>
      exact ih (max first second) (either _ _ start (others second List.mem_cons_self))
        fun sid listed => others sid (List.mem_cons_of_mem _ listed)

end ReadStore

/-- How far the views in memory trail the write store. -/
def World.behind (world : World) (store : MemoryViews) : Sid :=
  world.write.maxSid - ReadStore.maxOf (store.views.values.map View.maxSid)

namespace Freshness

variable {world : World} {store : MemoryViews}

theorem wrapSigned_of_le {lag top : Int} (positive : 0 ≤ lag) (below : lag ≤ top)
    (fits : Width.holdsSigned 64 top = true) : Width.wrapSigned 64 lag = lag := by
  have values : Width.values 64 = 18446744073709551616 := by decide
  have half : Width.values (64 - 1) = 9223372036854775808 := by decide
  rw [Width.holdsSigned, half, decide_eq_true_eq] at fits
  rw [Width.wrapSigned, values, Int.bmod_def]
  omega

/-- What the lag is when it is reported at all. -/
theorem lag_ok {lag : Sid} {after : World} (holds : world.Holds store)
    (ended : Freshness.lag.on world = (.ok lag, after)) :
    lag = max (Width.wrapSigned 64 (world.behind store)) 0 := by
  rw [Freshness.lag] at ended
  obtain ⟨written, middle, read, ended⟩ := bind_ok ended
  obtain ⟨indexed, last, looked, ended⟩ := bind_ok ended
  cases ended
  obtain ⟨now, outages, delays, told | ⟨error, told⟩⟩ := Indexing.writeMaxSid_cases world
  · cases told.symm.trans read
    rw [readMaxSid] at looked
    have still : (world.asking now outages delays).Holds store := holds.of_read rfl
    rcases readStore_cases still looked with ⟨⟨_, never, -⟩, -⟩ | ⟨later, stats, -, -, answered⟩
    · cases never
    · cases answered
      rfl
  · cases told.symm.trans read

theorem lag_on (calm : world.Calm) (holds : world.Holds store) : (Freshness.lag.on world).1 =
    .ok (max (Width.wrapSigned 64 (world.behind store)) 0) := by
  obtain ⟨stats, memory⟩ := holds
  rw [Freshness.lag, on_bind_ok (writeMaxSid_on calm), readMaxSid, on_bind,
    on_bind_ok (readStore_on calm), memory]
  rfl

end Freshness

/-- The watermark discipline of a world. -/
structure Watermarked (engine : Engine) (world : World) : Prop where
  /-- Nothing that is waiting or in flight is stamped above the watermark. -/
  queued : world.queue.Within world.write.maxSid
  reported : ∀ failure ∈ world.failures.entries, failure.message.Within world.write.maxSid
  /-- Whatever a batch receives, the watermark that it then reads lets it pass. -/
  covered : ∀ size deliveries received metrics snapshot ready,
    (Action.receive (engine.taking size) size).on world = (.ok deliveries, received) →
      writeMaxSid.on { received with metrics } = (.ok snapshot, ready) →
        ∀ delivery ∈ deliveries, ∀ other,
          (Indexing.requireCovered delivery.message snapshot).on other = (.ok (), other)
  /-- Neither the entity of a view nor the write store is behind it. -/
  stored : ∀ uuid view, world.read.slot? uuid = some (.inl view) →
    (∀ record, world.write.record? uuid = some record → view.sid ≤ record.sid) ∧
      view.sid ≤ view.maxSid ∧ view.maxSid ≤ world.write.maxSid
  /-- The lag is what the views lack. It is not cut off at zero. -/
  lag : ∀ store, world.Holds store → Width.holdsSigned 64 world.write.maxSid = true →
    0 ≤ world.behind store ∧
      (∀ lag after, Freshness.lag.on world = (.ok lag, after) → lag = world.behind store) ∧
      (world.Calm → (Freshness.lag.on world).1 = .ok (world.behind store))
  /-- No cycle of a batch stores a view behind the one before. -/
  cycles : ∀ size, ∀ moment ∈ (Retention.handling (engine.taking size)
      ((Action.receive (engine.taking size) size).on world)).1,
    moment.before.Rises moment.after

theorem World.Stamped.disciplined {seen : View → Prop} {world : World}
    (stamped : world.Stamped seen) (engine : Engine) : Watermarked engine world where
  queued := stamped.queued
  reported := stamped.reported
  covered size deliveries received metrics snapshot ready taken read delivery listed := by
    rw [Retention.receive_on] at taken
    cases taken
    obtain ⟨now, outages, delays, told | ⟨error, told⟩⟩ := Indexing.writeMaxSid_cases { world with
      metrics
      queue := (world.queue.receive (engine.taking size).reclaim world.now
        (engine.taking size).pipeline.visibilityTimeout size).2 }
    · cases told.symm.trans read
      exact Indexing.requireCovered_on_within
        ((Indexing.receive_stamped (engine.taking size) stamped size).2 delivery listed)
    · cases told.symm.trans read
  stored uuid view held := by
    obtain ⟨rfl, reached, ordered, -⟩ := stamped.stored uuid view held
    exact ⟨reached.aged.current, ordered, reached.issued⟩
  lag store holds fits := by
    obtain ⟨stats, memory⟩ := holds
    have each : ∀ sid ∈ store.views.values.map View.maxSid,
        0 ≤ sid ∧ sid ≤ world.write.maxSid := by
      intro sid listed
      obtain ⟨view, inside, rfl⟩ := List.mem_map.mp listed
      obtain ⟨entry, there, rfl⟩ := List.mem_map.mp inside
      have found := (store.views.mem_entries_iff entry.1 entry.2).mp there
      have held : world.read.slot? entry.1 = some (.inl entry.2) := by
        rw [memory, ReadStore.slot?, found]
        rfl
      obtain ⟨-, reached, -, positive⟩ := stamped.stored _ _ held
      exact ⟨positive, reached.issued⟩
    obtain ⟨lowest, highest⟩ : 0 ≤ ReadStore.maxOf (store.views.values.map View.maxSid) ∧
        ReadStore.maxOf (store.views.values.map View.maxSid) ≤ world.write.maxSid :=
      ReadStore.maxOf_of_each (P := fun sid => 0 ≤ sid ∧ sid ≤ world.write.maxSid)
        ⟨Int.le_refl _, stamped.positive⟩ (fun a b first second =>
          ⟨Int.le_trans first.1 (Int.le_max_left a b), Int.max_le.mpr ⟨first.2, second.2⟩⟩) each
    have positive : 0 ≤ world.behind store := Int.sub_nonneg_of_le highest
    have unwrapped : max (Width.wrapSigned 64 (world.behind store)) 0 = world.behind store := by
      rw [Freshness.wrapSigned_of_le positive (Int.sub_le_self _ lowest) fits]
      exact Int.max_eq_left positive
    refine ⟨positive, fun lag after ended => ?_, fun calm => ?_⟩
    · exact (Freshness.lag_ok ⟨stats, memory⟩ ended).trans unwrapped
    · rw [Freshness.lag_on calm ⟨stats, memory⟩, unwrapped]
  cycles size := (Indexing.handling_stamped (engine.taking size) stamped).1

/-- What a run makes of a world, by the same steps as `Weathered`. -/
inductive Follows (engine : Engine) (start : World) : World → Prop where
  | here : Follows engine start start
  | edited {world : World} (earlier : Follows engine start world) (edit : Edit) :
    Follows engine start (edit.after engine world)
  | reindexed {world : World} (earlier : Follows engine start world) (options : ReindexOptions) :
    Follows engine start ((Service.reindex options).on world).2
  | requeued {world : World} (earlier : Follows engine start world) :
    Follows engine start (Service.requeueFailures.on world).2
  | handled {world : World} (earlier : Follows engine start world) (size : Nat) :
    Follows engine start ((Indexing.processBatch (engine.taking size)).on world).2
  | waited {world : World} (earlier : Follows engine start world) (now : Instant) :
    Follows engine start { world with now }
  | disturbed {world : World} (earlier : Follows engine start world) (faults : Faults)
    (unstale : RecordFault.stale ∉ faults.records) (writable readable : Bool) (failing : Nat) :
    Follows engine start (world.disturbed faults writable readable failing)

/-- Every world that is reached follows one with empty stores. -/
theorem Weathered.follows {engine : Engine} {world : World} (weathered : Weathered engine world) :
    ∃ read : ReadStore, (∀ uuid, read.slot? uuid = none) ∧ Follows engine (.start read) world := by
  induction weathered with
  | start read empty => exact ⟨read, empty, .here⟩
  | edited _ edit ih =>
    obtain ⟨read, empty, follows⟩ := ih
    exact ⟨read, empty, follows.edited edit⟩
  | reindexed _ options ih =>
    obtain ⟨read, empty, follows⟩ := ih
    exact ⟨read, empty, follows.reindexed options⟩
  | requeued _ ih =>
    obtain ⟨read, empty, follows⟩ := ih
    exact ⟨read, empty, follows.requeued⟩
  | handled _ size ih =>
    obtain ⟨read, empty, follows⟩ := ih
    exact ⟨read, empty, follows.handled size⟩
  | waited _ now ih =>
    obtain ⟨read, empty, follows⟩ := ih
    exact ⟨read, empty, follows.waited now⟩
  | disturbed _ faults unstale writable readable failing ih =>
    obtain ⟨read, empty, follows⟩ := ih
    exact ⟨read, empty, follows.disturbed faults unstale writable readable failing⟩

namespace Follows

variable {engine : Engine} {start world : World} {seen : View → Prop}

theorem stamped (follows : Follows engine start world) (stamped : start.Stamped seen) :
    world.Stamped seen := by
  induction follows with
  | here => exact stamped
  | edited _ edit ih => exact edit.after_stamped engine _ ih
  | reindexed _ options ih => exact Service.reindex_stamped options _ ih
  | requeued _ ih => exact Service.requeueFailures_stamped _ ih
  | handled _ size ih => exact Indexing.processBatch_stamped (engine.taking size) _ ih
  | waited _ now ih => exact ih.of_same ih.unstale rfl (fun _ => rfl) rfl rfl
  | @disturbed world _ faults unstale writable readable failing ih =>
    have waiting : World.Stamped seen { world.disturbed faults writable readable failing with
        write := world.write } :=
      ih.of_same unstale rfl (world.read.injected_slot? readable failing) rfl rfl
    exact { waiting with
      reached := fun view listed => ⟨⟨(ih.reached view listed).aged.issued,
        (ih.reached view listed).aged.current⟩, (ih.reached view listed).issued⟩
      stored := fun uuid view held => by
        obtain ⟨owner, reached, rest⟩ := waiting.stored uuid view held
        exact ⟨owner, ⟨⟨reached.aged.issued, reached.aged.current⟩, reached.issued⟩, rest⟩ }

end Follows

theorem World.Stamped.start {read : ReadStore} (empty : ∀ uuid, read.slot? uuid = none) :
    (World.start read).Stamped fun _ => False where
  unstale := List.not_mem_nil
  bounded := WriteStore.Grounded.empty.bounded
  positive := Int.le_refl _
  tidy := .empty
  queued := .empty _
  reported _ never := nomatch never
  reached _ never := never.elim
  stored uuid view held := by cases (empty uuid).symm.trans held
  later _ never := never.elim

/-- Watermark discipline. In every world that a run can reach, nothing on the queue or in the
failure report is ahead of the write store, so that no batch refuses a message of its own; no view is
ahead of its entity, of its own watermark or of the write store, so that the lag is never cut off;
and whatever follows, the stamps of a stored view do not go down. -/
theorem Weathered.watermarked {engine : Engine} {world : World}
    (weathered : Weathered engine world) :
    Watermarked engine world ∧ ∀ later, Follows engine world later → world.Rises later := by
  obtain ⟨read, empty, follows⟩ := weathered.follows
  have stamped := follows.stamped (.start empty)
  exact ⟨stamped.disciplined engine, fun later onward =>
    stamped.rises (onward.stamped stamped.seeing)⟩

namespace Rising

/-- An author and a book of theirs, both indexed. -/
def shelved : World :=
  ((Indexing.processBatch ((Engine.precise .books).taking 10)).on
    (Edit.worldAfter (.precise .books) [
      .put ⟨1⟩ ⟨"Author"⟩ (.ofText "name" "Ann") none,
      .put ⟨2⟩ ⟨"Book"⟩ (.ofText "author" (Uuid.text ⟨1⟩)) none])).2

/-- The author is renamed, the view can only be stored at the second try, and the book follows. -/
def renamed : World :=
  let failing := shelved.disturbed .none true true 1
  let written := Edit.after (.precise .books) failing
    (.put ⟨1⟩ ⟨"Author"⟩ (.ofText "name" "Eve") none)
  let deferred := ((Indexing.processBatch ((Engine.precise .books).taking 10)).on written).2
  let waited := { deferred with now := .ofMillis 600000 }
  ((Indexing.processBatch ((Engine.precise .books).taking 10)).on waited).2

theorem weathered : Weathered (.precise .books) shelved :=
  (((Weathered.start (.memory .empty) fun _ => rfl).run _).handled 10)

theorem follows : Follows (.precise .books) shelved renamed :=
  .handled (.waited (.handled (.edited (.disturbed .here .none List.not_mem_nil true true 1) _) 10)
    _) 10

end Rising

open Rising in
/-- The stamps of an author's view go up when the author is renamed. -/
theorem renamed_author_rises :
    Weathered (.precise .books) shelved ∧
      (Watermarked (.precise .books) shelved ∧ shelved.Rises renamed) ∧
      [shelved, renamed].map (fun world => (world.read.slot? ⟨1⟩).map fun slot =>
        slot.elim (fun view => (view.sid, view.maxSid)) fun _ => (0, 0)) =
          [some (1, 2), some (3, 3)] := by
  obtain ⟨watermarked, rises⟩ := Weathered.watermarked weathered
  exact ⟨weathered, ⟨watermarked, rises renamed follows⟩, by decide +kernel⟩

end CachedViews
