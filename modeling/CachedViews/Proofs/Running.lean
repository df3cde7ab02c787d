import CachedViews.Engine.Stores

/-!
What actions return and which world they leave, equation by equation. A calm world has
both stores within reach and no fault ahead, so its store calls end as the stores answer.
-/
namespace CachedViews

namespace Action

variable {α β : Type}

/-- What an action returns in a world, and the world it leaves. -/
def on (action : Action α) (world : World) : Except EngineError α × World := action.run.run world

theorem on_pure (value : α) (world : World) :
    (pure value : Action α).on world = (.ok value, world) := rfl

theorem on_throw (error : EngineError) (world : World) :
    (throw error : Action α).on world = (.error error, world) := rfl

theorem on_get (world : World) : (get : Action World).on world = (.ok world, world) := rfl

theorem on_modify (change : World → World) (world : World) :
    (modify change : Action Unit).on world = (.ok (), change world) := rfl

theorem on_modifyGet (change : World → α × World) (world : World) :
    (modifyGet change : Action α).on world = (.ok (change world).1, (change world).2) := rfl

theorem on_bind (action : Action α) (next : α → Action β) (world : World) :
    (action >>= next).on world =
      match action.on world with
      | (.ok value, after) => (next value).on after
      | (.error error, after) => (.error error, after) := by
  rcases ended : action.on world with ⟨error | value, after⟩ <;>
  · simp only [on, ExceptT.run_bind, StateT.run_bind] at ended ⊢
    rw [ended]
    rfl

theorem on_map (change : α → β) (action : Action α) (world : World) :
    (change <$> action).on world =
      match action.on world with
      | (.ok value, after) => (.ok (change value), after)
      | (.error error, after) => (.error error, after) := by
  rw [map_eq_pure_bind, on_bind]
  rfl

theorem map_on {action : Action α} {world after : World} {result : Except EngineError α}
    (ended : action.on world = (result, after)) (change : α → β) :
    (change <$> action).on world = (result.map change, after) := by
  rw [on_map, ended]
  cases result <;> rfl

theorem on_tryCatch (action : Action α) (handler : EngineError → Action α) (world : World) :
    (tryCatch action handler).on world =
      match action.on world with
      | (.ok value, after) => (.ok value, after)
      | (.error error, after) => (handler error).on after := by
  rcases ended : action.on world with ⟨error | value, after⟩ <;>
  · simp only [on, ExceptT.run, tryCatch, tryCatchThe, MonadExceptOf.tryCatch, ExceptT.tryCatch,
      ExceptT.mk, StateT.run_bind] at ended ⊢
    rw [ended]
    rfl

/-- An action that ends well hands its value and its world to what follows. -/
theorem on_bind_ok {action : Action α} {next : α → Action β} {world after : World} {value : α}
    (ended : action.on world = (.ok value, after)) :
    (action >>= next).on world = (next value).on after := by
  rw [on_bind, ended]

theorem on_bind_error {action : Action α} {next : α → Action β} {world after : World}
    {error : EngineError} (ended : action.on world = (.error error, after)) :
    (action >>= next).on world = (.error error, after) := by
  rw [on_bind, ended]

theorem after_discard (action : Action α) (world : World) :
    ((discard action).on world).2 = (action.on world).2 := by
  have mapped : discard action = (fun _ => ()) <$> action := rfl
  rw [mapped, on_map]
  rcases action.on world with ⟨error | value, after⟩ <;> rfl

theorem discard_on_ok {action : Action α} {world after : World} {value : α}
    (ended : action.on world = (.ok value, after)) :
    (discard action).on world = (.ok (), after) := by
  have mapped : discard action = (fun _ => ()) <$> action := rfl
  rw [mapped, on_map, ended]

theorem ok_of_map {ε : Type} {result : Except ε α} {change : α → β} {value : β}
    (ended : result.map change = .ok value) :
    ∃ before, result = .ok before ∧ change before = value := by
  cases result with
  | error error => cases ended
  | ok before => exact ⟨before, rfl, Except.ok.inj ended⟩

theorem ok_of_toOption {ε : Type} {result : Except ε α} {value : α}
    (shown : result.toOption = some value) : result = .ok value := by
  cases result with
  | error error => cases shown
  | ok other => exact congrArg Except.ok (Option.some.inj shown)

theorem error_of_toOption {action : Action α} {world : World}
    (shown : (action.on world).1.toOption.isNone = true) :
    ∃ error, (action.on world).1 = .error error := by
  cases ended : (action.on world).1 with
  | error error => exact ⟨error, rfl⟩
  | ok value =>
    rw [ended] at shown
    cases shown

/-- An action that is seen to return something ends well. -/
theorem ok_of_seen {action : Action α} {world : World} (look : α → β) {seen : β}
    (shown : (action.on world).1.toOption.map look = some seen) :
    ∃ value, (action.on world).1 = .ok value ∧ look value = seen := by
  obtain ⟨value, found, same⟩ := Option.map_eq_some_iff.mp shown
  exact ⟨value, ok_of_toOption found, same⟩

/-- Steps that leave the world alone, one for each member of a list. -/
theorem mapM_on {action : α → Action β} {value : α → β} {world : World} {members : List α}
    (each : ∀ member ∈ members, (action member).on world = (.ok (value member), world)) :
    (members.mapM action).on world = (.ok (members.map value), world) := by
  induction members with
  | nil => rw [List.mapM_nil, on_pure, List.map_nil]
  | cons first rest ih =>
    rw [List.mapM_cons, on_bind_ok (each first List.mem_cons_self),
      on_bind_ok (ih fun member inside => each member (List.mem_cons_of_mem _ inside)), on_pure,
      List.map_cons]

theorem ofStorage_on (result : Except StorageError α) (world : World) :
    (ofStorage result).on world = (result.mapError .storage, world) := by
  cases result <;> rfl

theorem ofValidation_on (result : Except ValidationError α) (world : World) :
    (ofValidation result).on world = (result.mapError .validation, world) := by
  cases result <;> rfl

theorem orNotFound_on {action : Action α} {world after : World} {value : α}
    (ended : action.on world = (.ok value, after)) :
    (orNotFound action).on world = (.ok (some value), after) := by
  rw [orNotFound, on_tryCatch, on_map, ended]

theorem orNotFound_on_missing {action : Action α} {world after : World} {uuid : Uuid}
    (ended : action.on world = (.error (.storage (.notFound uuid)), after)) :
    (orNotFound action).on world = (.ok none, after) := by
  rw [orNotFound, on_tryCatch, on_map, ended]
  rfl

theorem count_on (update : Metrics → Metrics) (world : World) :
    (count update).on world = (.ok (), { world with metrics := update world.metrics }) := rfl

end Action

/-- Both stores are within reach and no fault lies ahead. -/
structure World.Calm (world : World) : Prop where
  writable : world.write.available = true
  readable : world.read.available = true
  outages : world.faults.outages = []
  records : world.faults.records = []
  views : world.faults.views = []
  prompt : world.faults.recordDelay.isZero = true
  delays : world.faults.delays = []

/-- With the same faults ahead, a world is calm when its stores are within reach. -/
theorem World.Calm.of_faults {world other : World} (calm : world.Calm)
    (faults : other.faults = world.faults) (writable : other.write.available = true)
    (readable : other.read.available = true) : other.Calm where
  writable := writable
  readable := readable
  outages := faults ▸ calm.outages
  records := faults ▸ calm.records
  views := faults ▸ calm.views
  prompt := faults ▸ calm.prompt
  delays := faults ▸ calm.delays

namespace WriteStore

theorem get_of_record {store : WriteStore} {uuid : Uuid} {record : EntityRecord}
    (found : store.record? uuid = some record) : store.get uuid = .ok record := by
  rw [get, found]

theorem get_of_missing {store : WriteStore} {uuid : Uuid} (missing : store.record? uuid = none) :
    store.get uuid = .error (.notFound uuid) := by
  rw [get, missing]

end WriteStore

namespace Action

variable {world : World}

theorem pause_on_zero {duration : Duration} (zero : duration.isZero = true) (world : World) :
    (pause duration).on world = (.ok (), world) := by
  simp only [pause, zero, Bool.not_true, Bool.false_eq_true, ↓reduceIte]
  rfl

theorem reach_on (calm : world.Calm) : reach.on world = (.ok false, world) := by
  have prompt : nextDelay.on world = (.ok .zero, world) := by
    rw [nextDelay, on_modifyGet, calm.delays]
  rw [reach, on_bind_ok prompt, on_bind_ok (pause_on_zero rfl world), nextOutage, on_modifyGet,
    calm.outages]

theorem writeStore_on (calm : world.Calm) : writeStore.on world = (.ok world.write, world) := by
  rw [writeStore, on_bind_ok (reach_on calm), on_bind_ok (on_get world)]
  simp [calm.writable, on_pure]

theorem readStore_on (calm : world.Calm) : readStore.on world = (.ok world.read, world) := by
  rw [readStore, on_bind_ok (reach_on calm), on_bind_ok (on_get world)]
  simp [calm.readable, on_pure]

theorem currentRecord_on (calm : world.Calm) (uuid : Uuid) :
    (currentRecord uuid).on world = ((world.write.get uuid).mapError .storage, world) := by
  rw [currentRecord, on_bind_ok (writeStore_on calm), ofStorage_on]

theorem record_on (calm : world.Calm) (uuid : Uuid) :
    (record uuid).on world = ((world.write.get uuid).mapError .storage, world) := by
  rw [record, on_bind_ok (on_get world), on_bind_ok (pause_on_zero calm.prompt world)]
  -- No fault is injected, so the store is asked.
  have pass : nextRecordFault.on world = (.ok .pass, world) := by
    rw [nextRecordFault, on_modifyGet, calm.records]
  rw [on_bind_ok pass, currentRecord_on calm]

theorem record_on_found (calm : world.Calm) {uuid : Uuid} {found : EntityRecord}
    (current : world.write.record? uuid = some found) :
    (record uuid).on world = (.ok found, world) := by
  rw [record_on calm, WriteStore.get_of_record current]
  rfl

theorem record_on_missing (calm : world.Calm) {uuid : Uuid}
    (missing : world.write.record? uuid = none) :
    (record uuid).on world = (.error (.storage (.notFound uuid)), world) := by
  rw [record_on calm, WriteStore.get_of_missing missing]
  rfl

/-- Looking up a record that may be missing. -/
theorem orNotFound_record_on (calm : world.Calm) (uuid : Uuid) :
    (orNotFound (record uuid)).on world = (.ok (world.write.record? uuid), world) := by
  cases found : world.write.record? uuid with
  | none => exact orNotFound_on_missing (record_on_missing calm found)
  | some record => exact orNotFound_on (record_on_found calm found)

theorem revLinks_on (calm : world.Calm) (uuid : Uuid) :
    (revLinks uuid).on world = (.ok (world.write.revLinks uuid), world) := by
  rw [revLinks, on_bind_ok (writeStore_on calm), on_pure]

theorem history_on (calm : world.Calm) (uuid : Uuid) :
    (history uuid).on world = ((world.write.history uuid).mapError .storage, world) := by
  rw [history, on_bind_ok (writeStore_on calm), ofStorage_on]

theorem itemTypeOf_on (calm : world.Calm) (uuid : Uuid) :
    (itemTypeOf uuid).on world = (.ok (world.write.itemTypeOf uuid), world) := by
  rw [itemTypeOf, on_bind_ok (writeStore_on calm), on_pure]

theorem currentSids_on (calm : world.Calm) (uuids : List Uuid) :
    (currentSids uuids).on world = (.ok (world.write.currentSids uuids), world) := by
  rw [currentSids, on_bind_ok (writeStore_on calm), on_pure]

theorem writeMaxSid_on (calm : world.Calm) :
    writeMaxSid.on world = (.ok world.write.maxSid, world) := by
  rw [writeMaxSid, on_bind_ok (writeStore_on calm), on_pure]

theorem listEntities_on (calm : world.Calm) (types : Option (List ItemType)) :
    (listEntities types).on world = (.ok (world.write.list types), world) := by
  rw [listEntities, on_bind_ok (writeStore_on calm), on_pure]

/-- Keys of those entities that a store holds. -/
def keysIn (store : WriteStore) (uuids : List Uuid) : List EntityKey :=
  uuids.filterMap fun uuid =>
    (store.itemTypeOf uuid).map fun itemType => (⟨itemType, uuid⟩ : EntityKey)

theorem liveKeys_on (calm : world.Calm) (uuids : List Uuid) :
    (liveKeys uuids).on world = (.ok (keysIn world.write uuids), world) := by
  have each : ∀ uuid ∈ uuids, (do
      return (← itemTypeOf uuid).map fun itemType => (⟨itemType, uuid⟩ : EntityKey)).on world =
        (.ok ((world.write.itemTypeOf uuid).map fun itemType => (⟨itemType, uuid⟩ : EntityKey)),
          world) := by
    intro uuid _
    rw [on_bind_ok (itemTypeOf_on calm uuid), on_pure]
  rw [liveKeys, on_bind_ok (mapM_on each), on_pure, List.filterMap_map]
  rfl

theorem mem_keysIn_iff (store : WriteStore) (uuids : List Uuid) (key : EntityKey) :
    key ∈ keysIn store uuids ↔ key.uuid ∈ uuids ∧ store.itemTypeOf key.uuid = some key.itemType := by
  simp only [keysIn, List.mem_filterMap, Option.map_eq_some_iff]
  constructor
  · rintro ⟨uuid, listed, itemType, found, rfl⟩
    exact ⟨listed, found⟩
  · rintro ⟨listed, found⟩
    exact ⟨key.uuid, listed, key.itemType, found, rfl⟩

theorem commit_on (calm : world.Calm) {α : Type}
    (write : WriteStore → Except StorageError (α × WriteStore)) :
    (commit write).on world =
      match write world.write with
      | .ok (value, store) => (.ok value, { world with write := store })
      | .error error => (.error (.storage error), world) := by
  rw [commit, on_bind_ok (writeStore_on calm)]
  cases write world.write with
  | error error => rfl
  | ok result => rfl

theorem send_on (lane : Lane) (messages : List Message) (world : World) :
    (send lane messages).on world =
      (.ok (world.queue.send lane world.now messages).1,
        { world with queue := (world.queue.send lane world.now messages).2 }) := rfl

end Action

end CachedViews
