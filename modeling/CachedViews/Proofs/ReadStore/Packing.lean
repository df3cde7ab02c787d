import CachedViews.Proofs.Bytes
import CachedViews.Proofs.ReadStore.Backends
import CachedViews.ReadStore.Packed

/-!
The durable store in its directory. Packing the rows of the two tables into bytes keeps their order
and keeps what is found under each key, so that every call does to the packed tables what it does to
the rows, and gives the same answer. What a scan for the bytes of an entity comes to are the rows of
that entity, in the order of the views.
-/
namespace CachedViews

namespace DurableViews

theorem compare_dependentKey (a b : Uuid × Uuid) :
    compare (PackedViews.dependentKey a.1 a.2) (PackedViews.dependentKey b.1 b.2) =
      compare a b := by
  have level : a.1.bytes.length = b.1.bytes.length := by simp
  rw [PackedViews.dependentKey, PackedViews.dependentKey, Bytes.compare_append level,
    Uuid.compare_bytes, Uuid.compare_bytes]
  rfl

def packRows (rows : SortedMap (Uuid × Uuid) ItemType) : SortedMap Bytes Bytes :=
  rows.recode (fun itemType => Bytes.ofText itemType.name) compare_dependentKey

/-- The tables as bytes. -/
def pack (store : DurableViews) : PackedViews where
  views := store.texts.recode Bytes.ofText Uuid.compare_bytes
  dependents := packRows store.dependents
  stats := store.stats

theorem decode_ofText (text : String) : PackedViews.decode (.ofText text) = read text := by
  rw [PackedViews.decode, Bytes.text?_ofText, read]
  rfl

theorem erase_packRows (uuid : Uuid) (view : View) (rows : SortedMap (Uuid × Uuid) ItemType) :
    (PackedViews.dependentKeys uuid view).foldl SortedMap.erase (packRows rows) =
      packRows ((dependentKeys uuid view).foldl SortedMap.erase rows) := by
  rw [PackedViews.dependentKeys, dependentKeys, List.foldl_map, List.foldl_map]
  exact List.foldl_hom packRows fun rows linked =>
    SortedMap.erase_recode _ compare_dependentKey rows (linked, uuid)

theorem insert_packRows (uuid : Uuid) (view : View) (itemType : ItemType)
    (rows : SortedMap (Uuid × Uuid) ItemType) :
    (PackedViews.dependentKeys uuid view).foldl
        (fun rows key => rows.insert key (.ofText itemType.name)) (packRows rows) =
      packRows
        ((dependentKeys uuid view).foldl (fun rows key => rows.insert key itemType) rows) := by
  rw [PackedViews.dependentKeys, dependentKeys, List.foldl_map, List.foldl_map]
  exact List.foldl_hom packRows fun rows linked =>
    SortedMap.insert_recode _ compare_dependentKey rows (linked, uuid) itemType

variable (store : DurableViews)

theorem pack_load (uuid : Uuid) : store.pack.load uuid = store.load uuid := by
  rw [PackedViews.load, load, pack, SortedMap.get?_recode]
  cases store.texts.get? uuid with
  | none => rfl
  | some text => exact congrArg (some <$> ·) (decode_ofText text)

theorem pack_all : store.pack.all = store.all := by
  rw [PackedViews.all, all, pack, SortedMap.values_recode, List.mapM_map]
  exact congrArg (store.texts.values.mapM ·) (funext decode_ofText)

theorem pack_maxSid : store.pack.maxSid = (ReadStore.durable store).maxSid := by
  rw [PackedViews.maxSid, pack_all]
  rfl

theorem pack_viewSids (uuids : List Uuid) :
    store.pack.viewSids uuids = (ReadStore.durable store).viewSids uuids := by
  simp only [PackedViews.viewSids, pack_load]
  rfl

theorem pack_count (itemType : ItemType) :
    store.pack.count itemType = (ReadStore.durable store).count itemType := by
  rw [PackedViews.count, pack_all]
  rfl

theorem pack_reopen : store.pack.reopen = store.reopen.map pack := by
  rw [PackedViews.reopen, pack_all, reopen]
  cases store.all <;> rfl

theorem pack_remove (uuid : Uuid) :
    store.pack.remove uuid = (store.remove uuid).map fun ended => (ended.1, ended.2.pack) := by
  rw [PackedViews.remove, pack_load, remove]
  cases store.load uuid with
  | error error => rfl
  | ok found =>
    cases found with
    | none => rfl
    | some previous =>
      have texts := SortedMap.erase_recode Bytes.ofText Uuid.compare_bytes store.texts uuid
      have rows := erase_packRows uuid previous store.dependents
      change Except.ok (true, PackedViews.mk _ _ _) = Except.ok (true, PackedViews.mk _ _ _)
      exact congrArg Except.ok (congrArg (Prod.mk true)
        (congrArg₂ (fun views rows => PackedViews.mk views rows store.stats) texts rows))

theorem pack_put (view : View) : store.pack.put view = (store.put view).map pack := by
  rw [PackedViews.put, pack_remove, put]
  cases store.remove view.uuid with
  | error error => rfl
  | ok ended =>
    obtain ⟨replaced, cleared⟩ := ended
    have texts :=
      SortedMap.insert_recode Bytes.ofText Uuid.compare_bytes cleared.texts view.uuid view.text
    have rows := insert_packRows view.uuid view view.itemType cleared.dependents
    let counted := store.stats.put replaced
    exact congrArg Except.ok
      (congrArg₂ (fun views rows => PackedViews.mk views rows counted) texts rows)

theorem pack_get (uuid : Uuid) :
    store.pack.get uuid = (store.get uuid).map fun ended => (ended.1, ended.2.pack) := by
  rw [PackedViews.get, pack_load, get]
  cases store.load uuid with
  | error error => rfl
  | ok found => cases found <;> rfl

theorem pack_delete (uuid : Uuid) :
    store.pack.delete uuid = (store.delete uuid).map fun ended => (ended.1, ended.2.pack) := by
  rw [PackedViews.delete, pack_remove, delete]
  cases store.remove uuid with
  | error error => rfl
  | ok ended =>
    obtain ⟨_ | _, cleared⟩ := ended <;> rfl

/-- A key begins with the bytes of an entity when it is one of a row for that entity. -/
theorem isPrefixOf_dependentKey (uuid : Uuid) (key : Uuid × Uuid) :
    uuid.bytes.isPrefixOf (PackedViews.dependentKey key.1 key.2) = decide (key.1 = uuid) := by
  have front : (PackedViews.dependentKey key.1 key.2).take uuid.bytes.length = key.1.bytes :=
    List.take_left' (by simp)
  rw [Bool.eq_iff_iff, List.isPrefixOf_iff_prefix, List.prefix_iff_eq_take, front,
    decide_eq_true_iff, eq_comm]
  exact ⟨fun same => Uuid.bytes_injective same, congrArg Uuid.bytes⟩

theorem dependentOf_row (key : Uuid × Uuid) (itemType : ItemType) :
    PackedViews.dependentOf (PackedViews.dependentKey key.1 key.2, .ofText itemType.name) =
      .ok ⟨itemType, key.2⟩ := by
  have back : (PackedViews.dependentKey key.1 key.2).drop 16 = key.2.bytes :=
    List.drop_left' key.1.length_bytes
  rw [PackedViews.dependentOf, back, Uuid.ofBytes?_bytes, Bytes.text?_ofText]

/-- The rows of an entity are found by its bytes, and each names its view. -/
theorem pack_findDependents (uuid : Uuid) :
    store.pack.findDependents uuid = .ok (store.findDependents uuid) := by
  let packRow := fun row : (Uuid × Uuid) × ItemType =>
    (PackedViews.dependentKey row.1.1 row.1.2, Bytes.ofText row.2.name)
  have scanned : store.pack.dependents.entries.filter (fun row => uuid.bytes.isPrefixOf row.1) =
      (store.dependents.entries.filter fun row => decide (row.1.1 = uuid)).map packRow := by
    refine List.filter_map.trans (congrArg _ (List.filter_congr fun row _ => ?_))
    exact isPrefixOf_dependentKey uuid row.1
  have named : PackedViews.dependentOf ∘ packRow = fun row => .ok ⟨row.2, row.1.2⟩ :=
    funext fun row => dependentOf_row row.1 row.2
  rw [PackedViews.findDependents, scanned, List.mapM_map, named]
  refine List.mapM_pure.trans (congrArg Except.ok ?_)
  rw [findDependents, ← List.filterMap_eq_map, List.filterMap_filter]
  exact congrArg (store.dependents.entries.filterMap ·) (funext fun row => by simp)

end DurableViews

namespace PackedViews

/-- A call that fails in the store writes nothing. -/
def settle (store : PackedViews) :
    Except StorageError (Except EngineError ViewAnswer × PackedViews) →
      Except EngineError ViewAnswer × PackedViews
  | .ok ended => ended
  | .error error => (.error (.storage error), store)

def perform (store : PackedViews) : ViewCall → Except EngineError ViewAnswer × PackedViews
  | .put view => store.settle do return (.ok .done, ← store.put view)
  | .get uuid => store.settle do
    let (found, next) ← store.get uuid
    return (.found <$> Action.lookedUp uuid found, next)
  | .delete uuid => store.settle do
    let (existed, next) ← store.delete uuid
    return (.ok (.deleted existed), next)
  | .maxSid => store.settle do return (.ok (.maxSid (← store.maxSid)), store)
  | .dependents uuid => store.settle do
    return (.ok (.dependents (← store.findDependents uuid)), store)
  | .sids uuids => store.settle do return (.ok (.sids (← store.viewSids uuids)), store)
  | .count itemType => store.settle do return (.ok (.count (← store.count itemType)), store)
  | .stats => (.ok (.stats store.stats), store)
  | .reopen => store.settle do return (.ok .done, ← store.reopen)

def performAll : List ViewCall → PackedViews → List (Except EngineError ViewAnswer) × PackedViews
  | [], store => ([], store)
  | call :: rest, store =>
    let (answers, last) := performAll rest (store.perform call).2
    ((store.perform call).1 :: answers, last)

end PackedViews

/-- What comes of a call that may write to the read store: when it fails there, nothing is
written. -/
def World.settle {Answer : Type} (world : World) :
    Except StorageError (Except EngineError Answer × ReadStore) → Except EngineError Answer × World
  | .ok (answer, next) => (answer, { world with read := next })
  | .error error => (.error (.storage error), world)

namespace Action

variable {world : World} (calm : world.Calm)
include calm

theorem putView_settles (view : View) (unfailing : world.read.takeFailure = (false, world.read)) :
    (putView view).on world =
      world.settle ((world.read.put view).map fun next => (.ok (), next)) := by
  rw [putView, on_bind_ok (readStore_on calm), unfailing]
  dsimp only
  rw [if_neg Bool.false_ne_true]
  cases world.read.put view <;> rfl

theorem view_settles (uuid : Uuid) :
    (view uuid).on world = world.settle
      ((world.read.get uuid).map fun ended => (lookedUp uuid ended.1, ended.2)) := by
  have pass : nextViewFault.on world = (.ok .pass, world) := by
    rw [nextViewFault, on_modifyGet, calm.views]
  rw [view, on_bind_ok pass]
  dsimp only
  rw [on_bind_ok (readStore_on calm)]
  cases world.read.get uuid with
  | error error => rfl
  | ok ended =>
    obtain ⟨_ | found, next⟩ := ended <;> rfl

theorem deleteView_settles (uuid : Uuid) :
    (deleteView uuid).on world =
      world.settle ((world.read.delete uuid).map fun ended => (.ok ended.1, ended.2)) := by
  rw [deleteView, on_bind_ok (readStore_on calm)]
  cases world.read.delete uuid <;> rfl

end Action

namespace ViewCall

open CachedViews.Action

variable {world : World} {store : DurableViews}

/-- What a call comes to over the rows, and over their bytes. -/
def Packs (call : ViewCall) (world : World) (store : DurableViews) : Prop :=
  ∃ next, call.run.on world =
      ((store.pack.perform call).1, { world with read := .durable next }) ∧
    (store.pack.perform call).2 = next.pack

theorem with_own_rows (reads : world.read = .durable store) :
    { world with read := .durable store } = world := by
  rw [← reads]

theorem packs_of_settled {call : ViewCall}
    (result : Except StorageError (Except EngineError ViewAnswer × DurableViews))
    (reads : world.read = .durable store)
    (ran : call.run.on world =
      world.settle (result.map fun ended => (ended.1, .durable ended.2)))
    (packed : store.pack.perform call =
      store.pack.settle (result.map fun ended => (ended.1, ended.2.pack))) :
    Packs call world store := by
  rw [Packs, ran, packed]
  cases result with
  | ok ended => exact ⟨ended.2, rfl, rfl⟩
  | error error => exact ⟨store, congrArg _ (with_own_rows reads).symm, rfl⟩

/-- A question leaves the rows and the bytes as they are. -/
theorem packs_of_asked {α : Type} {call : ViewCall} {action : Action α} {answer : α → ViewAnswer}
    (result : Except StorageError α) (reads : world.read = .durable store)
    (ran : call.run = answer <$> action)
    (ended : action.on world = (result.mapError .storage, world))
    (packed : store.pack.perform call =
      store.pack.settle (result.map fun value => (.ok (answer value), store.pack))) :
    Packs call world store := by
  refine packs_of_settled (result.map fun value => (.ok (answer value), store)) reads ?_ ?_
  · rw [ran, map_on ended]
    cases result with
    | ok value => exact congrArg _ (with_own_rows reads).symm
    | error error => rfl
  · rw [packed]
    cases result <;> rfl

theorem packs (calm : world.Calm) (reads : world.read = .durable store) (call : ViewCall) :
    Packs call world store := by
  cases call with
  | put view =>
    have unfailing : world.read.takeFailure = (false, world.read) := by
      rw [reads]
      rfl
    refine packs_of_settled ((store.put view).map fun next => (.ok .done, next)) reads ?_ ?_
    · rw [run, map_on (putView_settles calm view unfailing), reads, ReadStore.put]
      cases store.put view <;> rfl
    · rw [PackedViews.perform, DurableViews.pack_put]
      cases store.put view <;> rfl
  | get uuid =>
    refine packs_of_settled ((store.get uuid).map fun ended =>
      (.found <$> lookedUp uuid ended.1, ended.2)) reads ?_ ?_
    · rw [run, map_on (view_settles calm uuid), reads, ReadStore.get]
      cases store.get uuid <;> rfl
    · rw [PackedViews.perform, DurableViews.pack_get]
      cases store.get uuid <;> rfl
  | delete uuid =>
    refine packs_of_settled ((store.delete uuid).map fun ended =>
      (.ok (.deleted ended.1), ended.2)) reads ?_ ?_
    · rw [run, map_on (deleteView_settles calm uuid), reads, ReadStore.delete]
      cases store.delete uuid <;> rfl
    · rw [PackedViews.perform, DurableViews.pack_delete]
      cases store.delete uuid <;> rfl
  | maxSid =>
    refine packs_of_asked world.read.maxSid reads rfl (readMaxSid_on calm) ?_
    rw [PackedViews.perform, DurableViews.pack_maxSid, reads]
    cases (ReadStore.durable store).maxSid <;> rfl
  | dependents uuid =>
    refine packs_of_asked (.ok (world.read.findDependents uuid)) reads rfl
      (findDependents_ended calm uuid) ?_
    rw [PackedViews.perform, DurableViews.pack_findDependents, reads]
    rfl
  | sids uuids =>
    refine packs_of_asked (world.read.viewSids uuids) reads rfl (viewSids_ended calm uuids) ?_
    rw [PackedViews.perform, DurableViews.pack_viewSids, reads]
    cases (ReadStore.durable store).viewSids uuids <;> rfl
  | count itemType =>
    refine packs_of_asked (world.read.count itemType) reads rfl (countViews_ended calm itemType) ?_
    rw [PackedViews.perform, DurableViews.pack_count, reads]
    cases (ReadStore.durable store).count itemType <;> rfl
  | stats =>
    refine packs_of_settled (.ok (.ok (.stats store.stats), store)) reads ?_ rfl
    change (Except.ok (ViewAnswer.stats world.read.stats), world) = (_, { world with read := _ })
    rw [with_own_rows reads, reads]
    rfl
  | reopen =>
    refine packs_of_settled (store.reopen.map fun next => (.ok .done, next)) reads ?_ ?_
    · have opened : reopenReadStore.on world =
          world.settle (world.read.reopen.map fun next => (.ok (), next)) := by
        rw [reopenReadStore, on_bind_ok (on_get world)]
        cases world.read.reopen <;> rfl
      rw [run, map_on opened, reads, ReadStore.reopen]
      cases store.reopen <;> rfl
    · rw [PackedViews.perform, DurableViews.pack_reopen]
      cases store.reopen <;> rfl

/-- Whatever is called of a durable store, calls of its bytes are answered the same, and the bytes
stay those of its rows. -/
theorem runAll_packs (calm : world.Calm) (reads : world.read = .durable store)
    (calls : List ViewCall) : ∃ last, (runAll calls world).2.read = .durable last ∧
      store.pack.performAll calls = ((runAll calls world).1, last.pack) := by
  induction calls generalizing world store with
  | nil => exact ⟨store, reads, rfl⟩
  | cons call rest ih =>
    obtain ⟨next, ran, packed⟩ := packs calm reads call
    have calmNext : ({ world with read := .durable next } : World).Calm :=
      calm.of_faults rfl calm.writable rfl
    obtain ⟨last, readLast, later⟩ := ih calmNext rfl
    refine ⟨last, ?_, ?_⟩
    · rw [runAll, ran]
      exact readLast
    · rw [PackedViews.performAll, packed, later, runAll, ran]

/-- A durable store that was empty at first is told apart by no call from tables of bytes. -/
theorem bytes_answer_alike (calm : world.Calm) (empty : world.read = .durable .empty)
    (calls : List ViewCall) : (PackedViews.empty.performAll calls).1 = (runAll calls world).1 := by
  obtain ⟨_, -, ended⟩ := runAll_packs calm empty calls
  exact congrArg Prod.fst ended

end ViewCall

end CachedViews
