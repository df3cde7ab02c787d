import CachedViews.Engine.Stores
import CachedViews.Proofs.Keeping
import CachedViews.Proofs.Queue.Owing
import CachedViews.Proofs.ReadStore.Calls
import CachedViews.Proofs.ReadStore.Updates

/-!
What the engine asks and what it queues, in any world: with any faults ahead, in or out of reach
of the stores, before or past a time limit. Nothing that it does between its writes touches the
canonical records or the failure report, and the queue only grows by messages sent. Looking things
up leaves the views and the queue alone as well.
-/
namespace CachedViews

namespace World

/-- No look-up shows an outdated record. -/
def Unstale (world : World) : Prop := RecordFault.stale ∉ world.faults.records

/-- The world after a store call took its time and met what lay ahead of it. -/
abbrev asking (world : World) (now : Instant) (outages : List Bool) (delays : List Duration) :
    World :=
  { world with now, faults := { world.faults with outages, delays } }

/-- Look-ups of records tell the truth, if they answer at all. -/
structure Truthful (world : World) : Prop where
  unstale : world.Unstale
  found : RecordFault.missing ∉ world.faults.records

theorem Truthful.of_records {world : World} (none : world.faults.records = []) : world.Truthful :=
  ⟨by rw [Unstale, none]; exact List.not_mem_nil, by rw [none]; exact List.not_mem_nil⟩

/-- What asking and queueing leave alone. Records that get cached are the current ones, and
views that get stored satisfy `P`. -/
structure Asked (P : View → Prop) (before after : World) : Prop where
  write : after.write = before.write
  failures : after.failures = before.failures
  queue : ∃ posts, after.queue = before.queue.sendAll posts
  records : ∀ fault ∈ after.faults.records, fault ∈ before.faults.records
  read : ReadStore.Updates P before.read after.read
  kept : ∀ uuid, before.cache.contains uuid = true → after.cache.contains uuid = true
  cache : before.Truthful → ∀ uuid entry, after.cache.get? uuid = some entry →
    before.cache.get? uuid = some entry ∨ entry = before.write.record? uuid

variable {P : View → Prop} {before after : World}

theorem Asked.unstale (asked : Asked P before after) (unstale : before.Unstale) :
    after.Unstale := fun listed => unstale (asked.records _ listed)

theorem Asked.truthful (asked : Asked P before after) (truthful : before.Truthful) :
    after.Truthful :=
  ⟨asked.unstale truthful.unstale, fun listed => truthful.found (asked.records _ listed)⟩

/-- Only the faults, the clock, the counters and the read store changed. -/
theorem Asked.of_same (write : after.write = before.write)
    (failures : after.failures = before.failures) (queue : after.queue = before.queue)
    (cache : after.cache = before.cache)
    (records : ∀ fault ∈ after.faults.records, fault ∈ before.faults.records)
    (read : ReadStore.Updates P before.read after.read) : Asked P before after where
  write := write
  failures := failures
  queue := ⟨[], queue⟩
  records := records
  read := read
  kept _ cached := cache ▸ cached
  cache _ _ _ cached := Or.inl (cache ▸ cached)

theorem Asked.refl (P : View → Prop) (world : World) : Asked P world world :=
  .of_same rfl rfl rfl rfl (fun _ => id) (.of_same fun _ => rfl)

theorem Asked.trans {first second third : World} (one : Asked P first second)
    (two : Asked P second third) : Asked P first third where
  write := two.write.trans one.write
  failures := two.failures.trans one.failures
  queue := by
    obtain ⟨early, here⟩ := one.queue
    obtain ⟨late, there⟩ := two.queue
    exact ⟨early ++ late, by rw [there, here, Queue.sendAll_append]⟩
  records fault listed := one.records fault (two.records fault listed)
  read := one.read.trans two.read
  kept uuid cached := two.kept uuid (one.kept uuid cached)
  cache truthful uuid entry cached := by
    rcases two.cache (one.truthful truthful) uuid entry cached with held | fresh
    · exact one.cache truthful uuid entry held
    · exact Or.inr (one.write ▸ fresh)

instance (P : View → Prop) : World.Chain (Asked P) := ⟨.refl P, .trans⟩

/-- Asking and queueing in which every message that is sent satisfies `M`. -/
structure Posted (M : Message → Prop) (P : View → Prop) (before after : World) : Prop
    extends Asked P before after where
  posts : ∃ posts, after.queue = before.queue.sendAll posts ∧
    ∀ post ∈ posts, ∀ message ∈ post.messages, M message

instance (M : Message → Prop) (P : View → Prop) : World.Chain (Posted M P) where
  refl world := { Asked.refl P world with posts := ⟨[], rfl, fun _ never => nomatch never⟩ }
  trans one two :=
    { one.toAsked.trans two.toAsked with
      posts := by
        obtain ⟨early, here, sent⟩ := one.posts
        obtain ⟨late, there, sentLate⟩ := two.posts
        refine ⟨early ++ late, by rw [there, here, Queue.sendAll_append], fun post listed => ?_⟩
        exact (List.mem_append.mp listed).elim (sent post) (sentLate post) }

theorem Asked.posted {M : Message → Prop} (asked : Asked P before after)
    (queue : after.queue = before.queue) : Posted M P before after :=
  { asked with posts := ⟨[], queue, fun _ never => nomatch never⟩ }

theorem counted_slot? (read : ReadStore) (stats : ReadStats) (uuid : Uuid) :
    (counted read stats).slot? uuid = read.slot? uuid := by
  cases read <;> rfl

theorem get_counted {read next : ReadStore} {uuid : Uuid} {found : Option View}
    (ended : read.get uuid = .ok (found, next)) : ∃ stats, next = counted read stats := by
  cases read with
  | memory store =>
    simp only [ReadStore.get, MemoryViews.get] at ended
    split at ended <;>
    · cases ended
      exact ⟨_, rfl⟩
  | durable store =>
    simp only [ReadStore.get, DurableViews.get] at ended
    cases loaded : store.load uuid with
    | error error =>
      rw [loaded] at ended
      cases ended
    | ok view =>
      rw [loaded] at ended
      cases view <;>
      · cases ended
        exact ⟨_, rfl⟩

/-- What looking things up leaves alone: the counters, the clock and the faults ahead may change,
and current records get cached. -/
structure Looked (before after : World) : Prop where
  write : after.write = before.write
  failures : after.failures = before.failures
  queue : after.queue = before.queue
  records : ∀ fault ∈ after.faults.records, fault ∈ before.faults.records
  read : ∃ stats, after.read = counted before.read stats
  kept : ∀ uuid, before.cache.contains uuid = true → after.cache.contains uuid = true
  cache : before.Truthful → ∀ uuid entry, after.cache.get? uuid = some entry →
    before.cache.get? uuid = some entry ∨ entry = before.write.record? uuid

theorem Looked.asked (looked : Looked before after) : Asked P before after where
  write := looked.write
  failures := looked.failures
  queue := ⟨[], looked.queue⟩
  records := looked.records
  read := by
    obtain ⟨stats, same⟩ := looked.read
    exact .of_same fun uuid => same ▸ counted_slot? before.read stats uuid
  kept := looked.kept
  cache := looked.cache

theorem Looked.posted {M : Message → Prop} (looked : Looked before after) :
    Posted M P before after := looked.asked.posted looked.queue

theorem Looked.unstale (looked : Looked before after) (unstale : before.Unstale) :
    after.Unstale := fun listed => unstale (looked.records _ listed)

theorem Looked.truthful (looked : Looked before after) (truthful : before.Truthful) :
    after.Truthful :=
  ⟨looked.unstale truthful.unstale, fun listed => truthful.found (looked.records _ listed)⟩

theorem Looked.holds {store : MemoryViews} (looked : Looked before after)
    (holds : before.Holds store) : after.Holds store := by
  obtain ⟨stats, same⟩ := looked.read
  exact (holds.counting stats).of_read same

/-- Only the faults, the clock and the counters changed. -/
theorem Looked.of_same (write : after.write = before.write)
    (failures : after.failures = before.failures) (queue : after.queue = before.queue)
    (cache : after.cache = before.cache)
    (records : ∀ fault ∈ after.faults.records, fault ∈ before.faults.records)
    (read : ∃ stats, after.read = counted before.read stats) : Looked before after where
  write := write
  failures := failures
  queue := queue
  records := records
  read := read
  kept _ cached := cache ▸ cached
  cache _ _ _ cached := Or.inl (cache ▸ cached)

theorem Looked.refl (world : World) : Looked world world :=
  .of_same rfl rfl rfl rfl (fun _ => id) (exists_counted world.read)

theorem Looked.trans {first second third : World} (one : Looked first second)
    (two : Looked second third) : Looked first third where
  write := two.write.trans one.write
  failures := two.failures.trans one.failures
  queue := two.queue.trans one.queue
  records fault listed := one.records fault (two.records fault listed)
  read := by
    obtain ⟨early, here⟩ := one.read
    obtain ⟨late, there⟩ := two.read
    exact ⟨late, by rw [there, here, counted_counted]⟩
  kept uuid cached := two.kept uuid (one.kept uuid cached)
  cache truthful uuid entry cached := by
    rcases two.cache (one.truthful truthful) uuid entry cached with held | fresh
    · exact one.cache truthful uuid entry held
    · exact Or.inr (one.write ▸ fresh)

instance : World.Chain Looked := ⟨.refl, .trans⟩

/-- Caching what is current. -/
theorem Looked.remembering (looked : Looked before after) (uuid : Uuid)
    {found : Option EntityRecord}
    (current : before.Truthful → found = before.write.record? uuid) :
    Looked before { after with cache := after.cache.insert uuid found } :=
  { looked with
    kept := by
      intro other cached
      have still := looked.kept other cached
      simp only [SortedMap.contains, SortedMap.get?_insert_eq] at still ⊢
      split
      · rfl
      · exact still
    cache := by
      intro truthful other entry cached
      simp only [SortedMap.get?_insert_eq] at cached
      split at cached
      · rename_i same
        cases cached
        exact Or.inr (same ▸ current truthful)
      · exact looked.cache truthful other entry cached }

end World

namespace Action

variable {α : Type} {M : Message → Prop} {P : View → Prop}

/-- The action only asks and queues. -/
abbrev Asks (P : View → Prop) (action : Action α) : Prop := Keeps (World.Asked P) action

/-- The action only asks and queues, and sends messages that satisfy `M`. -/
abbrev Posts (M : Message → Prop) (P : View → Prop) (action : Action α) : Prop :=
  Keeps (World.Posted M P) action

/-- The action only looks things up. -/
abbrev Looks (action : Action α) : Prop := Keeps World.Looked action

theorem Keeps.asks {action : Action α} (looks : Keeps World.Looked action) : action.Asks P :=
  looks.mono fun _ _ => World.Looked.asked

theorem Keeps.posts {action : Action α} (looks : Keeps World.Looked action) : action.Posts M P :=
  looks.mono fun _ _ => World.Looked.posted

theorem Posts.asks {action : Action α} (posts : action.Posts M P) : action.Asks P :=
  posts.mono fun _ _ => World.Posted.toAsked

/-- Only faults, clock and counters of the engine change. -/
theorem looked_of_same {before after : World} (write : after.write = before.write)
    (failures : after.failures = before.failures) (queue : after.queue = before.queue)
    (cache : after.cache = before.cache)
    (records : ∀ fault ∈ after.faults.records, fault ∈ before.faults.records)
    (read : after.read = before.read) : World.Looked before after :=
  .of_same write failures queue cache records (read ▸ World.exists_counted before.read)

theorem count_looks (update : Metrics → Metrics) : (count update).Looks :=
  keeps_modify fun _ => looked_of_same rfl rfl rfl rfl (fun _ => id) rfl

theorem sleep_looks (duration : Duration) : (sleep duration).Looks := by
  have still : ∀ (world : World) (now : Instant), World.Looked world { world with now } :=
    fun _ _ => looked_of_same rfl rfl rfl rfl (fun _ => id) rfl
  intro world
  rw [sleep, on_bind_ok (on_get world)]
  dsimp only
  split
  · split
    · exact still world _
    · exact still world _
  · exact still world _

theorem pause_looks (duration : Duration) : (pause duration).Looks := by
  rw [pause]
  split
  · exact sleep_looks duration
  · exact keeps_pure _

theorem nextDelay_looks : nextDelay.Looks := keeps_modifyGet fun world => by
  split
  · exact .refl world
  · exact looked_of_same rfl rfl rfl rfl (fun _ => id) rfl

theorem nextOutage_looks : nextOutage.Looks := keeps_modifyGet fun world => by
  split
  · exact .refl world
  · exact looked_of_same rfl rfl rfl rfl (fun _ => id) rfl

theorem reach_looks : reach.Looks :=
  nextDelay_looks.bind fun delay => (pause_looks delay).bind fun _ => nextOutage_looks

theorem nextViewFault_looks : nextViewFault.Looks := keeps_modifyGet fun world => by
  split
  · exact .refl world
  · exact looked_of_same rfl rfl rfl rfl (fun _ => id) rfl

theorem nextRecordFault_looks : nextRecordFault.Looks := keeps_modifyGet fun world => by
  split
  · exact .refl world
  · rename_i fault rest listed
    exact looked_of_same rfl rfl rfl rfl (fun _ inside => listed ▸ List.mem_cons_of_mem _ inside) rfl

theorem writeStore_looks : writeStore.Looks :=
  reach_looks.bind fun outage => keeps_get.bind fun world => by
    dsimp only
    split
    · exact keeps_pure _
    · exact keeps_throw _

theorem readStore_looks : readStore.Looks :=
  reach_looks.bind fun outage => keeps_get.bind fun world => by
    dsimp only
    split
    · exact keeps_pure _
    · exact keeps_throw _

theorem currentRecord_looks (uuid : Uuid) : (currentRecord uuid).Looks :=
  writeStore_looks.bind fun _ => keeps_ofStorage _

/-- How a look-up goes on under a fault. -/
def underFault (captured : Option EntityRecord) (uuid : Uuid) : RecordFault → Action EntityRecord
  | .pass => currentRecord uuid
  | .missing => throw (.storage (.notFound uuid))
  | .unavailable => throw (.storage (.unavailable .write))
  | .stale =>
    match captured with
    | some captured => if captured.uuid = uuid then return captured else currentRecord uuid
    | none => currentRecord uuid

theorem record_eq (uuid : Uuid) :
    record uuid = (do
      let faults := (← get).faults
      pause faults.recordDelay
      underFault faults.captured uuid (← nextRecordFault)) := by
  rw [record]
  refine bind_congr fun world => bind_congr fun _ => bind_congr fun fault => ?_
  cases fault <;> rfl

theorem underFault_looks (captured : Option EntityRecord) (uuid : Uuid) (fault : RecordFault) :
    (underFault captured uuid fault).Looks := by
  cases fault with
  | pass => exact currentRecord_looks uuid
  | missing => exact keeps_throw _
  | unavailable => exact keeps_throw _
  | stale =>
    cases captured with
    | none => exact currentRecord_looks uuid
    | some captured =>
      simp only [underFault]
      split
      · exact keeps_pure _
      · exact currentRecord_looks uuid

theorem record_looks (uuid : Uuid) : (record uuid).Looks := by
  rw [record_eq]
  exact keeps_get.bind fun world => (pause_looks _).bind fun _ =>
    nextRecordFault_looks.bind fun fault => underFault_looks world.faults.captured uuid fault

theorem revLinks_looks (uuid : Uuid) : (revLinks uuid).Looks :=
  writeStore_looks.bind fun _ => keeps_pure _

theorem history_looks (uuid : Uuid) : (history uuid).Looks :=
  writeStore_looks.bind fun _ => keeps_ofStorage _

theorem itemTypeOf_looks (uuid : Uuid) : (itemTypeOf uuid).Looks :=
  writeStore_looks.bind fun _ => keeps_pure _

theorem currentSids_looks (uuids : List Uuid) : (currentSids uuids).Looks :=
  writeStore_looks.bind fun _ => keeps_pure _

theorem listEntities_looks (types : Option (List ItemType)) : (listEntities types).Looks :=
  writeStore_looks.bind fun _ => keeps_pure _

theorem liveKeys_looks (uuids : List Uuid) : (liveKeys uuids).Looks :=
  (keeps_mapM (fun uuid => (itemTypeOf_looks uuid).bind fun _ => keeps_pure _) uuids).bind
    fun _ => keeps_pure _

/-- A store that is within reach is the one of the world. -/
theorem readStore_ok {world after : World} {store : ReadStore}
    (ended : readStore.on world = (.ok store, after)) : store = after.read := by
  obtain ⟨outage, middle, -, ended⟩ := bind_ok ended
  obtain ⟨seen, same, got, ended⟩ := bind_ok ended
  cases got
  dsimp only at ended
  split at ended <;> cases ended
  rfl

/-- The read store that an action gets is the one of the world that it goes on in. -/
theorem readStore_then {R : World → World → Prop} [World.Chain R]
    (weaker : ∀ before after, World.Looked before after → R before after)
    {next : ReadStore → Action α} (each : ∀ world, R world ((next world.read).on world).2) :
    Keeps R (readStore >>= next) := by
  intro world
  have here := weaker _ _ (readStore_looks world)
  rw [on_bind]
  rcases ended : readStore.on world with ⟨error | store, after⟩
  · rw [ended] at here
    exact here
  · rw [ended] at here
    exact World.Chain.trans here (readStore_ok ended ▸ each after)

theorem posted_of_read (world : World) {read : ReadStore}
    (updates : ReadStore.Updates P world.read read) :
    World.Posted M P world { world with read } :=
  have asked : World.Asked P world { world with read } :=
    .of_same rfl rfl rfl rfl (fun _ => id) updates
  asked.posted rfl

theorem putView_posts {view : View} (listed : P view) : (putView view).Posts M P := by
  refine readStore_then (fun _ _ => World.Looked.posted) fun world => ?_
  have failing := posted_of_read (M := M) (P := P) world
    (.of_same fun uuid => ReadStore.takeFailure_slot? world.read uuid)
  dsimp only
  split
  · exact failing
  · cases stored : world.read.takeFailure.2.put view with
    | error error => exact World.Chain.refl world
    | ok store =>
      exact posted_of_read world ((ReadStore.Updates.of_same fun uuid =>
        ReadStore.takeFailure_slot? world.read uuid).trans (ReadStore.put_updates stored listed))

theorem putView_asks {view : View} (listed : P view) : (putView view).Asks P :=
  (putView_posts (M := fun _ => True) listed).asks

theorem view_looks (uuid : Uuid) : (view uuid).Looks := by
  refine nextViewFault_looks.bind fun fault => ?_
  cases fault with
  | transient => exact keeps_throw _
  | poisoned => exact keeps_throw _
  | pass =>
    refine readStore_then (fun _ _ => id) fun world => ?_
    cases found : world.read.get uuid with
    | error error => exact .refl world
    | ok result =>
      obtain ⟨view, store⟩ := result
      have looked : World.Looked world { world with read := store } :=
        .of_same rfl rfl rfl rfl (fun _ => id) (World.get_counted found)
      cases view <;> exact looked

theorem deleteView_posts (uuid : Uuid) : (deleteView uuid).Posts M P := by
  refine readStore_then (fun _ _ => World.Looked.posted) fun world => ?_
  cases removed : world.read.delete uuid with
  | error error => exact World.Chain.refl world
  | ok result => exact posted_of_read world (ReadStore.delete_updates removed)

theorem deleteView_asks (uuid : Uuid) : (deleteView uuid).Asks P :=
  (deleteView_posts (M := fun _ => True) uuid).asks

theorem findDependents_looks (uuid : Uuid) : (findDependents uuid).Looks :=
  readStore_looks.bind fun _ => keeps_pure _

theorem viewSids_looks (uuids : List Uuid) : (viewSids uuids).Looks :=
  readStore_looks.bind fun _ => keeps_ofStorage _

theorem countViews_looks (itemType : ItemType) : (countViews itemType).Looks :=
  readStore_looks.bind fun _ => keeps_ofStorage _

theorem send_posts (lane : Lane) {messages : List Message} (each : ∀ message ∈ messages, M message) :
    (send lane messages).Posts M P :=
  keeps_modifyGet fun world =>
    have sent : (world.queue.send lane world.now messages).2 =
        world.queue.sendAll [⟨lane, world.now, messages⟩] := rfl
    { World.Asked.refl P world with
      queue := ⟨_, sent⟩
      posts := ⟨_, sent, fun _ listed => List.mem_singleton.mp listed ▸ each⟩ }

theorem send_asks (lane : Lane) (messages : List Message) : (send lane messages).Asks P :=
  (send_posts (M := fun _ => True) lane fun _ _ => trivial).asks

theorem pause_error {duration : Duration} {world after : World} {error : EngineError}
    (ended : (pause duration).on world = (.error error, after)) :
    ∃ uuid elapsed, error = .index (.timeout uuid elapsed) := by
  rw [pause] at ended
  split at ended
  · rw [sleep, on_bind_ok (on_get world)] at ended
    dsimp only at ended
    split at ended
    · split at ended <;> cases ended
      exact ⟨_, _, rfl⟩
    · cases ended
  · cases ended

/-- How a call fails that gets no answer from its store. -/
def Unanswered (store : StoreKind) (error : EngineError) : Prop :=
  error = .storage (.unavailable store) ∨ ∃ uuid elapsed, error = .index (.timeout uuid elapsed)

theorem Unanswered.isNotFound {store : StoreKind} {error : EngineError}
    (unanswered : Unanswered store error) : error.isNotFound = false := by
  rcases unanswered with rfl | ⟨uuid, elapsed, rfl⟩ <;> rfl

theorem reach_error {world after : World} {error : EngineError}
    (ended : reach.on world = (.error error, after)) :
    ∃ uuid elapsed, error = .index (.timeout uuid elapsed) := by
  rw [reach, on_bind, nextDelay, on_modifyGet] at ended
  dsimp only at ended
  rw [on_bind] at ended
  split at ended
  · rw [nextOutage, on_modifyGet] at ended
    cases ended
  · rename_i paused
    cases ended
    exact pause_error paused

/-- A write store that is within reach is the one of the world. -/
theorem writeStore_result (world : World) :
    (writeStore.on world).1 = .ok world.write ∨
      ∃ error, (writeStore.on world).1 = .error error ∧ Unanswered .write error := by
  rw [writeStore, on_bind]
  rcases ended : reach.on world with ⟨error | outage, after⟩
  · exact Or.inr ⟨error, rfl, Or.inr (reach_error ended)⟩
  · have kept := reach_looks.of_on ended
    dsimp only
    rw [on_bind_ok (on_get after), kept.write]
    split
    · exact Or.inl rfl
    · exact Or.inr ⟨_, rfl, Or.inl rfl⟩

theorem sleep_after (duration : Duration) (world : World) :
    ∃ now, ((sleep duration).on world).2 = { world with now } := by
  rw [sleep, on_bind_ok (on_get world)]
  dsimp only
  split
  · split <;> exact ⟨_, rfl⟩
  · exact ⟨_, rfl⟩

theorem pause_after (duration : Duration) (world : World) :
    ∃ now, ((pause duration).on world).2 = { world with now } := by
  rw [pause]
  split
  · exact sleep_after duration world
  · exact ⟨world.now, rfl⟩

theorem nextDelay_after (world : World) :
    ∃ delay delays, nextDelay.on world =
      (.ok delay, { world with faults := { world.faults with delays } }) := by
  rw [nextDelay, on_modifyGet]
  cases world.faults.delays with
  | nil => exact ⟨.zero, world.faults.delays, rfl⟩
  | cons delay rest => exact ⟨delay, rest, rfl⟩

theorem nextOutage_after (world : World) :
    ∃ outage outages, nextOutage.on world =
      (.ok outage, { world with faults := { world.faults with outages } }) := by
  rw [nextOutage, on_modifyGet]
  cases world.faults.outages with
  | nil => exact ⟨false, world.faults.outages, rfl⟩
  | cons outage rest => exact ⟨outage, rest, rfl⟩

theorem reach_after (world : World) :
    ∃ now outages delays, (reach.on world).2 = world.asking now outages delays := by
  obtain ⟨delay, delays, taken⟩ := nextDelay_after world
  rw [reach, on_bind_ok taken, on_bind]
  obtain ⟨now, paused⟩ :=
    pause_after delay { world with faults := { world.faults with delays } }
  rcases ended : (pause delay).on { world with faults := { world.faults with delays } } with
    ⟨error | _, after⟩
  · rw [ended] at paused
    exact ⟨now, world.faults.outages, delays, paused⟩
  · rw [ended] at paused
    cases paused
    obtain ⟨outage, outages, met⟩ := nextOutage_after
      { world with now, faults := { world.faults with delays } }
    dsimp only
    rw [met]
    exact ⟨now, outages, delays, rfl⟩

/-- Reaching for the write store takes time and consults the list of outages. -/
theorem writeStore_after (world : World) :
    ∃ now outages delays, (writeStore.on world).2 = world.asking now outages delays := by
  obtain ⟨now, outages, delays, reached⟩ := reach_after world
  refine ⟨now, outages, delays, ?_⟩
  rw [writeStore, on_bind]
  rcases ended : reach.on world with ⟨error | outage, after⟩
  · rw [ended] at reached
    exact reached
  · rw [ended] at reached
    dsimp only
    rw [on_bind_ok (on_get after)]
    split <;> exact reached

/-- A commit takes time and consults the list of outages; then it fails and leaves the write store,
or it ends with the value and the store that the change gives. -/
theorem commit_cases {α : Type} (change : WriteStore → Except StorageError (α × WriteStore))
    (world : World) :
    ∃ now outages delays, let asked := world.asking now outages delays
      (∃ error, (Action.commit change).on world = (.error error, asked)) ∨
        ∃ value store, change world.write = .ok (value, store) ∧
          (Action.commit change).on world = (.ok value, { asked with write := store }) := by
  obtain ⟨now, outages, delays, reaching⟩ := writeStore_after world
  refine ⟨now, outages, delays, ?_⟩
  dsimp only
  rw [Action.commit, on_bind]
  have reached := writeStore_result world
  rcases asking : writeStore.on world with ⟨error | store, middle⟩
  · rw [asking] at reaching
    exact Or.inl ⟨error, by rw [← reaching]⟩
  · rw [asking] at reaching reached
    rcases reached with same | ⟨_, same, -⟩
    · cases same
      cases reaching
      dsimp only
      rw [on_bind, ofStorage_on]
      cases changed : change world.write with
      | error error => exact Or.inl ⟨_, rfl⟩
      | ok result => exact Or.inr ⟨result.1, result.2, rfl, rfl⟩
    · cases same

/-- A commit takes time and consults the list of outages, and then leaves the write store or changes
it. -/
theorem commit_after {α : Type} (change : WriteStore → Except StorageError (α × WriteStore))
    (world : World) :
    ∃ now outages delays, let asked := world.asking now outages delays
      ((Action.commit change).on world).2 = asked ∨
        ∃ value store, change world.write = .ok (value, store) ∧
          ((Action.commit change).on world).2 = { asked with write := store } := by
  obtain ⟨now, outages, delays, ⟨error, ended⟩ | ⟨value, store, made, ended⟩⟩ :=
    commit_cases change world
  · exact ⟨now, outages, delays, Or.inl (by rw [ended])⟩
  · exact ⟨now, outages, delays, Or.inr ⟨value, store, made, by rw [ended]⟩⟩

/-- What a look-up says about an entity, when it says anything. -/
def Tells (world : World) (uuid : Uuid) : Except EngineError EntityRecord → Prop
  | .ok found => world.write.record? uuid = some found
  | .error error => error.isNotFound = true →
    RecordFault.missing ∈ world.faults.records ∨ world.write.record? uuid = none

theorem Tells.of_looked {before after : World} (looked : World.Looked before after) {uuid : Uuid}
    {result : Except EngineError EntityRecord} (tells : Tells after uuid result) :
    Tells before uuid result := by
  cases result with
  | ok found =>
    have told : after.write.record? uuid = some found := tells
    rw [looked.write] at told
    exact told
  | error error => exact fun missing => (tells missing).imp (looked.records _) (looked.write ▸ id)

theorem currentRecord_tells (uuid : Uuid) (world : World) :
    Tells world uuid ((currentRecord uuid).on world).1 := by
  rw [currentRecord, on_bind]
  have reached := writeStore_result world
  rcases ended : writeStore.on world with ⟨error | store, after⟩
  · rw [ended] at reached
    rcases reached with same | ⟨_, same, unanswered⟩
    · cases same
    · cases same
      intro missing
      rw [unanswered.isNotFound] at missing
      cases missing
  · rw [ended] at reached
    rcases reached with same | ⟨_, same, -⟩
    · cases same
      dsimp only
      rw [ofStorage_on]
      cases found : world.write.record? uuid with
      | none =>
        rw [WriteStore.get_of_missing found]
        exact fun _ => Or.inr found
      | some record =>
        rw [WriteStore.get_of_record found]
        exact found
    · cases same

theorem record_tells (uuid : Uuid) {world : World} (unstale : world.Unstale) :
    Tells world uuid ((record uuid).on world).1 := by
  have told : ∀ later : World, later.Unstale → Tells later uuid ((nextRecordFault >>= fun fault =>
      underFault world.faults.captured uuid fault).on later).1 := by
    intro later unstale
    rw [on_bind, nextRecordFault, on_modifyGet]
    cases listed : later.faults.records with
    | nil => exact currentRecord_tells uuid later
    | cons fault rest =>
      have popped : World.Looked later
          { later with faults := { later.faults with records := rest } } :=
        looked_of_same rfl rfl rfl rfl (fun _ inside => listed ▸ List.mem_cons_of_mem _ inside) rfl
      cases fault with
      | pass => exact (currentRecord_tells uuid _).of_looked popped
      | missing => exact fun _ => Or.inl (listed ▸ List.mem_cons_self)
      | unavailable => exact fun missing => by cases missing
      | stale => exact absurd (listed ▸ List.mem_cons_self) unstale
  rw [record_eq, on_bind_ok (on_get world), on_bind]
  rcases paused : (pause world.faults.recordDelay).on world with ⟨error | _, later⟩
  · obtain ⟨uuid, elapsed, rfl⟩ := pause_error paused
    exact fun missing => by cases missing
  · have looked := (pause_looks _).of_on paused
    exact (told later (looked.unstale unstale)).of_looked looked

/-- Looking up a record that may be missing. -/
theorem orNotFound_record_some {uuid : Uuid} {world after : World} {record : EntityRecord}
    (unstale : world.Unstale)
    (ended : (orNotFound (Action.record uuid)).on world = (.ok (some record), after)) :
    world.write.record? uuid = some record := by
  have told := record_tells uuid unstale
  rw [orNotFound_some ended] at told
  exact told

theorem orNotFound_record_ok {uuid : Uuid} {world after : World} {found : Option EntityRecord}
    (truthful : world.Truthful)
    (ended : (orNotFound (record uuid)).on world = (.ok found, after)) :
    found = world.write.record? uuid := by
  cases found with
  | some record => exact (orNotFound_record_some truthful.unstale ended).symm
  | none =>
    have told := record_tells uuid truthful.unstale
    obtain ⟨error, looked, missing⟩ := orNotFound_none ended
    rw [looked] at told
    exact ((told missing).resolve_left truthful.found).symm

end Action

end CachedViews
