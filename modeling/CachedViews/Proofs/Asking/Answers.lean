import CachedViews.Proofs.Asking.Cycles
import CachedViews.Proofs.Invalidation.Scope

/-!
What the engine is told when it looks something up, under any faults. A look-up that ends well
tells what the stores hold, and one that fails for a fault does not claim that nothing was found.
-/
namespace CachedViews

theorem World.counted_load (read : ReadStore) (stats : ReadStats) (uuid : Uuid) :
    (counted read stats).load uuid = read.load uuid := by
  cases read <;> rfl

namespace Action

variable {α β : Type} {world after : World} {store : MemoryViews}

/-- The action yields this value if it ends well. -/
def Yields (action : Action α) (value : α) (world : World) : Prop :=
  ∀ result after, action.on world = (.ok result, after) → result = value

theorem yields_pure (value : α) : (pure value : Action α).Yields value world := by
  intro result after ended
  cases ended
  rfl

theorem yields_ofStorage {result : Except StorageError α} {value : α}
    (same : ∀ found, result = .ok found → found = value) : (ofStorage result).Yields value world := by
  intro found after ended
  rw [ofStorage_on] at ended
  cases result with
  | error error => cases ended
  | ok result =>
    cases ended
    exact same _ rfl

/-- Looking something up leaves to what follows what the stores hold. -/
theorem Yields.bind {action : Action α} {next : α → Action β} {value : α} {result : β}
    (first : action.Yields value world) (looks : action.Looks)
    (second : ∀ later, world.Looked later → (next value).Yields result later) :
    (action >>= next).Yields result world := by
  intro told after ended
  obtain ⟨found, middle, here, there⟩ := bind_ok ended
  obtain rfl := first found middle here
  exact second middle (looks.of_on here) told after there

theorem yields_mapM {action : α → Action β} {value : α → β} {members : List α}
    (looks : ∀ member, (action member).Looks)
    (each : ∀ member ∈ members, ∀ later, world.Looked later →
      (action member).Yields (value member) later) :
    (members.mapM action).Yields (members.map value) world := by
  induction members generalizing world with
  | nil => exact yields_pure []
  | cons first rest ih =>
    rw [List.mapM_cons]
    refine (each first List.mem_cons_self world (.refl world)).bind (looks first)
      fun later looked => ?_
    have others := @ih later fun member listed further looking =>
      each member (List.mem_cons_of_mem _ listed) further (looked.trans looking)
    exact others.bind (keeps_mapM looks rest) fun _ _ => yields_pure _

theorem yields_ofValidation {result : Except ValidationError α} {value : α}
    (same : result = .ok value) : (ofValidation result).Yields value world := by
  rw [same]
  exact yields_pure value

theorem writeStore_yields (world : World) : writeStore.Yields world.write world := by
  intro found after ended
  have reached := writeStore_result world
  rw [ended] at reached
  rcases reached with same | ⟨_, same, -⟩ <;> cases same
  rfl

theorem revLinks_yields (uuid : Uuid) (world : World) :
    (revLinks uuid).Yields (world.write.revLinks uuid) world :=
  (writeStore_yields world).bind writeStore_looks fun _ _ => yields_pure _

theorem itemTypeOf_yields (uuid : Uuid) (world : World) :
    (itemTypeOf uuid).Yields (world.write.itemTypeOf uuid) world :=
  (writeStore_yields world).bind writeStore_looks fun _ _ => yields_pure _

theorem history_yields {uuid : Uuid} {record : EntityRecord}
    (found : world.write.record? uuid = some record) :
    (history uuid).Yields (world.write.revisions uuid) world := by
  refine (writeStore_yields world).bind writeStore_looks fun _ _ => yields_ofStorage ?_
  rw [WriteStore.history_of_record? found]
  intro revisions same
  exact (Except.ok.inj same).symm

theorem liveKeys_yields (uuids : List Uuid) (world : World) :
    (liveKeys uuids).Yields (keysIn world.write uuids) world := by
  have keys : (uuids.map fun uuid => (world.write.itemTypeOf uuid).map fun itemType =>
      (⟨itemType, uuid⟩ : EntityKey)).filterMap id = keysIn world.write uuids := by
    rw [List.filterMap_map]
    rfl
  have looks : ∀ uuid, (do
      return (← itemTypeOf uuid).map fun itemType => (⟨itemType, uuid⟩ : EntityKey)).Looks :=
    fun uuid => (itemTypeOf_looks uuid).bind fun _ => keeps_pure _
  rw [← keys]
  refine (yields_mapM looks fun uuid _ later looked => ?_).bind (keeps_mapM looks uuids)
    fun _ _ => yields_pure _
  have told := itemTypeOf_yields uuid later
  rw [looked.write] at told
  exact told.bind (itemTypeOf_looks uuid) fun _ _ => yields_pure _

theorem readStore_error {error : EngineError}
    (ended : readStore.on world = (.error error, after)) : Unanswered .read error := by
  rcases bind_error ended with failed | ⟨outage, middle, -, ended⟩
  · exact Or.inr (reach_error failed)
  · rw [on_bind_ok (on_get middle)] at ended
    dsimp only at ended
    split at ended <;> cases ended
    exact Or.inl rfl

/-- The read store is out of reach, or what follows goes on with the one in memory. -/
theorem readStore_cases {next : ReadStore → Action α} {result : Except EngineError α}
    (holds : world.Holds store) (ended : (readStore >>= next).on world = (result, after)) :
    ((∃ error, result = .error error ∧ Unanswered .read error) ∧ world.Looked after) ∨
      ∃ later stats, world.Looked later ∧ later.read = .memory { store with stats } ∧
        (next (.memory { store with stats })).on later = (result, after) := by
  rw [on_bind] at ended
  rcases reached : readStore.on world with ⟨error | read, later⟩
  · rw [reached] at ended
    cases ended
    exact Or.inl ⟨⟨error, rfl, readStore_error reached⟩, readStore_looks.of_on reached⟩
  · have looked := readStore_looks.of_on reached
    obtain ⟨stats, memory⟩ := looked.holds holds
    rw [reached, readStore_ok reached, memory] at ended
    exact Or.inr ⟨later, stats, looked, memory, ended⟩

/-- The read store that is looked into holds what it held. -/
theorem Yields.readStore {next : ReadStore → Action α} {value : α} (holds : world.Holds store)
    (each : ∀ later stats, world.Looked later →
      (next (.memory { store with stats })).Yields value later) :
    (readStore >>= next).Yields value world := by
  intro result after ended
  rcases readStore_cases holds ended with ⟨⟨_, failed, -⟩, -⟩ | ⟨later, stats, looked, -, ended⟩
  · cases failed
  · exact each later stats looked result after ended

theorem findDependents_yields (holds : world.Holds store) (uuid : Uuid) :
    (findDependents uuid).Yields (store.findDependents uuid) world := by
  exact .readStore holds fun later stats _ => yields_pure _

theorem viewSids_ok {uuid : Uuid} {sids : SortedMap Uuid Sid} (holds : world.Holds store)
    (ended : (viewSids [uuid]).on world = (.ok sids, after)) :
    sids.get? uuid = (store.views.get? uuid).map View.sid := by
  have told : (viewSids [uuid]).Yields (SortedMap.ofList
      ([(store.views.get? uuid).map fun view => (uuid, view.sid)].filterMap id)) world := by
    exact .readStore holds fun later stats _ =>
      yields_ofStorage fun found same => (Except.ok.inj same).symm
  rw [told sids after ended]
  cases store.views.get? uuid with
  | none => rfl
  | some view => exact SortedMap.get?_insert_self (∅ : SortedMap Uuid Sid) uuid view.sid

theorem load_error {store : DurableViews} {uuid : Uuid} {error : StorageError}
    (failed : store.load uuid = .error error) : error = DurableViews.unreadable := by
  unfold DurableViews.load DurableViews.read at failed
  split at failed
  · split at failed <;> cases failed
    rfl
  · cases failed

/-- Looking a view up tells what is loaded of it, if it tells anything. -/
theorem view_loads (uuid : Uuid) (world : World) :
    match ((view uuid).on world).1 with
    | .ok found => world.read.load uuid = .ok (some found)
    | .error error => error.isNotFound = true → world.read.load uuid = .ok none := by
  rw [view, on_bind]
  rcases next : nextViewFault.on world with ⟨error | fault, later⟩
  · rw [nextViewFault, on_modifyGet] at next
    cases next
  · have early := nextViewFault_looks.of_on next
    cases fault with
    | transient => exact fun missing => by cases missing
    | poisoned => exact fun missing => by cases missing
    | pass =>
      dsimp only
      rw [on_bind]
      rcases reached : readStore.on later with ⟨error | read, last⟩
      · intro missing
        rw [(readStore_error reached).isNotFound] at missing
        cases missing
      · have looked := early.trans (readStore_looks.of_on reached)
        obtain ⟨stats, counting⟩ := looked.read
        have loaded := World.counted_load world.read stats uuid
        rw [← counting] at loaded
        rw [readStore_ok reached, ← loaded]
        cases last.read with
        | memory store =>
          dsimp only [ReadStore.get, ReadStore.load, MemoryViews.get]
          cases store.views.get? uuid with
          | none => exact fun _ => rfl
          | some found => rfl
        | durable store =>
          dsimp only [ReadStore.get, ReadStore.load, DurableViews.get]
          cases loading : store.load uuid with
          | error error =>
            obtain rfl := load_error loading
            exact fun missing => by cases missing
          | ok found =>
            cases found with
            | none => exact fun _ => rfl
            | some found => rfl

theorem orNotFound_view_loads {uuid : Uuid} {found : Option View}
    (ended : (orNotFound (view uuid)).on world = (.ok found, after)) :
    world.read.load uuid = .ok found := by
  have loads := view_loads uuid world
  cases found with
  | some found =>
    rw [orNotFound_some ended] at loads
    exact loads
  | none =>
    obtain ⟨error, failed, missing⟩ := orNotFound_none ended
    rw [failed] at loads
    exact loads missing

theorem orNotFound_view_yields (holds : world.Holds store) (uuid : Uuid) :
    (orNotFound (view uuid)).Yields (store.views.get? uuid) world := fun _ _ ended =>
  Except.ok.inj ((orNotFound_view_loads ended).symm.trans (holds.load uuid))

/-- The action does not fail by saying that something was not found. -/
def Certain (action : Action α) : Prop :=
  ∀ world error after, action.on world = (.error error, after) → error.isNotFound = false

theorem certain_pure (value : α) : (pure value : Action α).Certain := by
  intro world error after ended
  cases ended

theorem certain_get : (get : Action World).Certain := by
  intro world error after ended
  cases ended

theorem certain_modify (change : World → World) : (modify change : Action Unit).Certain := by
  intro world error after ended
  cases ended

theorem Certain.bind {action : Action α} {next : α → Action β} (first : action.Certain)
    (second : ∀ value, (next value).Certain) : (action >>= next).Certain := by
  intro world error after ended
  rcases bind_error ended with here | ⟨value, middle, -, there⟩
  · exact first world error after here
  · exact second value middle error after there

theorem certain_foldlM {step : β → α → Action β} (each : ∀ state member, (step state member).Certain)
    (members : List α) (start : β) : (members.foldlM step start).Certain := by
  induction members generalizing start with
  | nil => exact certain_pure start
  | cons first rest ih =>
    rw [List.foldlM_cons]
    exact (each start first).bind fun state => ih state

theorem certain_orNotFound (action : Action α) : (orNotFound action).Certain := by
  intro world error after ended
  rw [orNotFound, on_tryCatch, on_map] at ended
  rcases looked : action.on world with ⟨failed | found, middle⟩
  · rw [looked] at ended
    dsimp only at ended
    split at ended
    · cases ended
    · rename_i known
      cases ended
      exact Bool.eq_false_iff.mpr known
  · rw [looked] at ended
    cases ended

theorem certain_writeStore : writeStore.Certain := by
  intro world error after ended
  have reached := writeStore_result world
  rw [ended] at reached
  rcases reached with same | ⟨_, same, unanswered⟩ <;> cases same
  exact unanswered.isNotFound

end Action

namespace Invalidation

open CachedViews.Action WriteStore

variable {engine : Engine} {world : World} {store : MemoryViews}

theorem linkingEntities_yields (holds : world.Holds store) (uuid : Uuid) :
    (linkingEntities uuid).Yields (linkingIn world.write store uuid) world := by
  refine (orNotFound_view_yields holds uuid).bind (view_looks uuid).orNotFound fun later looked => ?_
  rw [linkingIn]
  cases store.views.get? uuid with
  | some view => exact yields_pure _
  | none =>
    rw [← looked.write]
    exact (revLinks_yields uuid later).bind (revLinks_looks uuid) fun _ _ => yields_pure _

theorem baseline_yields (holds : world.Holds store) (uuid : Uuid) :
    (baseline uuid).Yields (baselineIn world.write store uuid) world := by
  refine (findDependents_yields holds uuid).bind (findDependents_looks uuid) fun later looked => ?_
  rw [baselineIn, ← looked.write]
  refine (linkingEntities_yields (looked.holds holds) uuid).bind (linkingEntities_looks uuid)
    fun last further => ?_
  rw [← further.write]
  exact (liveKeys_yields _ last).bind (liveKeys_looks _) fun _ _ => yields_pure _

/-- The scope of a change of an entity that is there. -/
theorem scope_yields (engine : Engine) (holds : world.Holds store) {uuid : Uuid}
    {changed : ItemType} (typed : world.write.itemTypeOf uuid = some changed)
    (diff : Option (List String)) :
    (scope engine uuid diff).Yields (scopeIn engine world.write store uuid changed diff) world := by
  refine (baseline_yields holds uuid).bind (baseline_looks uuid) fun later looked => ?_
  unfold scopeIn
  cases diff with
  | none => exact yields_pure _
  | some diff =>
    dsimp only
    by_cases disabled : engine.mode = .disabled
    · rw [if_pos disabled, if_pos disabled]
      exact yields_pure _
    · rw [if_neg disabled, if_neg disabled]
      have known : (changedType uuid).Yields (some changed) later := by
        have told := itemTypeOf_yields uuid later
        rw [looked.write, typed] at told
        exact told.bind (itemTypeOf_looks uuid) fun _ _ => yields_pure _
      refine known.bind (changedType_looks uuid) fun last _ => ?_
      dsimp only
      cases FieldDiff.decode engine.registry.contains changed diff <;> exact yields_pure _

theorem linkTargets_yields (consistent : Consistent engine.registry world.write)
    {record : EntityRecord} (current : world.write.record? record.uuid = some record)
    (since : Option Sid) :
    (linkTargets engine record since).Yields
      (SortedSet.ofList (keysIn world.write (changedTargets record.uuid
        (linkSets engine.registry world.write record since)).toList)) world := by
  have listed : ∀ (targets : List Uuid) (later : World), world.Looked later →
      (liveKeys targets >>= fun keys => pure (SortedSet.ofList keys)).Yields
        (SortedSet.ofList (keysIn world.write targets)) later := by
    intro targets later looked
    rw [← looked.write]
    exact (liveKeys_yields targets later).bind (liveKeys_looks _) fun _ _ => yields_pure _
  unfold linkTargets
  cases since with
  | none =>
    exact (yields_pure [({} : SortedSet Link)]).bind (keeps_pure _) fun later looked =>
      listed _ later looked
  | some since =>
    have earlier : (earlierLinks engine record since).Yields
        ((earlierRevisions world.write record since).map
          (linksAt engine.registry record.itemType)) world := by
      refine (history_yields current).bind (history_looks record.uuid) fun later _ => ?_
      exact yields_mapM (fun _ => keeps_ofValidation _) fun revision inside last _ =>
        yields_ofValidation (linksOfRevision_retained consistent current inside)
    exact earlier.bind (earlierLinks_looks engine record since) fun later looked =>
      listed _ later looked

end Invalidation

end CachedViews
