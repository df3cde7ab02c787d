import CachedViews.Proofs.ReadStore.Serving

/-!
Two read stores, one of each kind, that hold the same views: one as values with nested sets of
dependents, the other as texts with one row for each pair of linked entity and view. Whatever is
asked of either is answered alike, and every write leaves two such stores.
-/
namespace CachedViews

/-- The type under which an entity's view is listed for a linked entity, if it is listed. -/
def listedType (view : Option View) (linked : Uuid) : Option ItemType :=
  (view.filter fun view => linked ∈ view.linked).map View.itemType

theorem listedType_eq_some {view : Option View} {linked : Uuid} {itemType : ItemType} :
    listedType view linked = some itemType ↔
      ∃ held, view = some held ∧ linked ∈ held.linked ∧ held.itemType = itemType := by
  simp [listedType, Option.filter_eq_some_iff, and_assoc]

namespace DurableViews

theorem mem_dependentKeys_iff (uuid : Uuid) (view : View) (linked source : Uuid) :
    (linked, source) ∈ dependentKeys uuid view ↔ linked ∈ view.linked ∧ source = uuid := by
  simp only [dependentKeys, List.mem_map, Prod.mk.injEq]
  constructor
  · rintro ⟨_, listed, rfl, rfl⟩
    exact ⟨listed, rfl⟩
  · rintro ⟨listed, rfl⟩
    exact ⟨linked, listed, rfl, rfl⟩

/-- Rows for one linked entity stand in the order of their views. -/
theorem findDependents_increasing (store : DurableViews) (linked : Uuid) :
    (store.findDependents linked).Pairwise fun a b => compare a.uuid b.uuid = .lt := by
  refine List.Pairwise.filterMap _ ?_ store.dependents.sorted
  rintro ⟨⟨one, source⟩, oneType⟩ ⟨⟨two, other⟩, twoType⟩ less key made next madeNext
  simp only [Option.ite_none_right_eq_some, Option.some.injEq] at made madeNext
  obtain ⟨rfl, rfl⟩ := made
  obtain ⟨rfl, rfl⟩ := madeNext
  exact (compare_pair _ source other).symm.trans less

end DurableViews

/-- A store of each kind, and the views that both hold. -/
structure Twins (views : Uuid → Option View) (memory : MemoryViews) (durable : DurableViews) :
    Prop where
  unfailing : memory.failingPuts = 0
  mirrored : memory.Mirrored
  held : ∀ uuid, memory.views.get? uuid = views uuid
  texts : ∀ uuid, durable.texts.get? uuid = (views uuid).map View.text
  readable : ∀ uuid view, views uuid = some view → View.ofText? view.text = some view
  rows : ∀ linked source,
    durable.dependents.get? (linked, source) = listedType (views source) linked
  sizes : memory.stats.viewCount = memory.views.size ∧ durable.stats.viewCount = memory.views.size

namespace Twins

variable {views : Uuid → Option View} {memory : MemoryViews} {durable : DurableViews}

theorem empty : Twins (fun _ => none) .empty .empty where
  unfailing := rfl
  mirrored := .empty
  held _ := rfl
  texts _ := rfl
  readable _ _ found := by cases found
  rows _ _ := rfl
  sizes := ⟨rfl, rfl⟩

section Reads

variable (twins : Twins views memory durable)
include twins

theorem loads : (ReadStore.memory memory).Loads views := fun uuid =>
  congrArg Except.ok (twins.held uuid)

theorem durable_loads : (ReadStore.durable durable).Loads views := by
  intro uuid
  cases found : views uuid with
  | none => rw [ReadStore.load, DurableViews.load, twins.texts, found]; rfl
  | some view =>
    have text : durable.texts.get? uuid = some view.text := by rw [twins.texts, found]; rfl
    rw [ReadStore.load, DurableViews.load_of_text text, DurableViews.read,
      twins.readable uuid view found]
    rfl

theorem load_eq (uuid : Uuid) :
    (ReadStore.durable durable).load uuid = (ReadStore.memory memory).load uuid :=
  (twins.durable_loads uuid).trans (twins.loads uuid).symm

/-- The durable table lists the texts of the views in the order of their entities. -/
theorem texts_eq : durable.texts = memory.views.map fun _ view => view.text := by
  refine SortedMap.ext_get? fun uuid => ?_
  have mapped := Entries.get?_map_value uuid View.text memory.views.entries
  rw [twins.texts, ← twins.held]
  exact mapped.symm

theorem all_eq : (ReadStore.durable durable).all = (ReadStore.memory memory).all := by
  have back : ∀ views : List View, (∀ view ∈ views, View.ofText? view.text = some view) →
      (views.map View.text).mapM DurableViews.read = Except.ok views := by
    intro views readable
    induction views with
    | nil => rfl
    | cons first rest ih =>
      rw [List.map_cons, List.mapM_cons, ih fun view later =>
        readable view (List.mem_cons_of_mem _ later), DurableViews.read,
        readable first List.mem_cons_self]
      rfl
  have texts : durable.texts.values = memory.views.values.map View.text := by
    rw [twins.texts_eq]
    simp [SortedMap.values, SortedMap.map]
  rw [ReadStore.all, ReadStore.all, DurableViews.all, texts]
  refine back _ fun view listed => ?_
  obtain ⟨⟨uuid, held⟩, inside, rfl⟩ := List.mem_map.mp listed
  have found := (memory.views.mem_entries_iff uuid held).mp inside
  exact twins.readable uuid held ((twins.held uuid).symm.trans found)

theorem maxSid_eq : (ReadStore.durable durable).maxSid = (ReadStore.memory memory).maxSid := by
  rw [ReadStore.maxSid, twins.all_eq, ReadStore.maxSid]

theorem count_eq (itemType : ItemType) :
    (ReadStore.durable durable).count itemType = (ReadStore.memory memory).count itemType := by
  rw [ReadStore.count, twins.all_eq, ReadStore.count]

theorem viewSids_eq (uuids : List Uuid) :
    (ReadStore.durable durable).viewSids uuids = (ReadStore.memory memory).viewSids uuids := by
  simp only [ReadStore.viewSids, twins.load_eq]

/-- An entity's row in the durable index says what the entity's view says. -/
theorem mem_durable_findDependents_iff (linked : Uuid) (key : EntityKey) :
    key ∈ durable.findDependents linked ↔
      ∃ view, views key.uuid = some view ∧ linked ∈ view.linked ∧ view.itemType = key.itemType := by
  rw [← listedType_eq_some, ← twins.rows, ← SortedMap.mem_entries_iff]
  simp only [DurableViews.findDependents, List.mem_filterMap]
  constructor
  · rintro ⟨⟨⟨first, source⟩, itemType⟩, listed, made⟩
    split at made
    · rename_i same
      cases made
      exact same ▸ listed
    · cases made
  · exact fun listed => ⟨_, listed, if_pos rfl⟩

theorem mem_memory_findDependents_iff (linked : Uuid) (key : EntityKey) :
    key ∈ memory.findDependents linked ↔
      ∃ view, views key.uuid = some view ∧ linked ∈ view.linked ∧ view.itemType = key.itemType := by
  rw [MemoryViews.mem_findDependents_iff twins.mirrored, twins.held]
  exact exists_congr fun view => and_congr_right fun _ => and_comm

theorem memory_findDependents_increasing (linked : Uuid) :
    (memory.findDependents linked).Pairwise fun a b => compare a.uuid b.uuid = .lt := by
  refine List.Pairwise.filterMap _ ?_ (memory.dependents.getD linked {}).sorted
  intro source other less key made next madeNext
  obtain ⟨view, found, rfl⟩ := Option.map_eq_some_iff.mp made
  obtain ⟨later, foundLater, rfl⟩ := Option.map_eq_some_iff.mp madeNext
  rw [View.key, View.key, twins.mirrored.own source view found,
    twins.mirrored.own other later foundLater]
  exact less

theorem findDependents_eq (linked : Uuid) :
    durable.findDependents linked = memory.findDependents linked :=
  eq_of_increasing EntityKey.uuid (durable.findDependents_increasing linked)
    (twins.memory_findDependents_increasing linked) fun key =>
      (twins.mem_durable_findDependents_iff linked key).trans
        (twins.mem_memory_findDependents_iff linked key).symm

end Reads

section Writes

variable (twins : Twins views memory durable)
include twins

theorem counted {one two : ReadStats} (first : one.viewCount = memory.stats.viewCount)
    (second : two.viewCount = durable.stats.viewCount) :
    Twins views { memory with stats := one } { durable with stats := two } where
  unfailing := twins.unfailing
  mirrored := ⟨twins.mirrored.own, twins.mirrored.mirrors⟩
  held := twins.held
  texts := twins.texts
  readable := twins.readable
  rows := twins.rows
  sizes := ⟨first.trans twins.sizes.1, second.trans twins.sizes.2⟩

theorem get (uuid : Uuid) : ∃ one two, memory.get uuid = (views uuid, { memory with stats := one }) ∧
    durable.get uuid = .ok (views uuid, { durable with stats := two }) ∧
    one.viewCount = memory.stats.viewCount ∧ two.viewCount = durable.stats.viewCount ∧
    (memory.stats = durable.stats → one = two) := by
  have loaded : durable.load uuid = .ok (views uuid) := twins.durable_loads uuid
  rw [MemoryViews.get, DurableViews.get, loaded, twins.held]
  cases views uuid with
  | none => exact ⟨_, _, rfl, rfl, rfl, rfl, congrArg ReadStats.miss⟩
  | some view => exact ⟨_, _, rfl, rfl, rfl, rfl, congrArg ReadStats.hit⟩

/-- Both stores have the same entry written, and nothing else. -/
theorem with_entry (uuid : Uuid) (entry : Option View) (memoryNext : MemoryViews)
    (durableNext : DurableViews) (unfailing : memoryNext.failingPuts = 0)
    (mirrored : memoryNext.Mirrored)
    (readable : ∀ view, entry = some view → View.ofText? view.text = some view)
    (held : ∀ other, memoryNext.views.get? other =
      if other = uuid then entry else memory.views.get? other)
    (texts : ∀ other, durableNext.texts.get? other =
      if other = uuid then entry.map View.text else durable.texts.get? other)
    (rows : ∀ linked source, durableNext.dependents.get? (linked, source) =
      if source = uuid then listedType entry linked else durable.dependents.get? (linked, source))
    (sizes : memoryNext.stats.viewCount = memoryNext.views.size ∧
      durableNext.stats.viewCount = memoryNext.views.size) :
    Twins (Function.update views uuid entry) memoryNext durableNext where
  unfailing := unfailing
  mirrored := mirrored
  held other := by rw [held, twins.held, Function.update_apply]
  texts other := by rw [texts, twins.texts, Function.update_apply, apply_ite (Option.map View.text)]
  readable other view found := by
    rw [Function.update_apply] at found
    split at found
    · exact readable view found
    · exact twins.readable other view found
  rows linked source := by
    rw [rows, twins.rows, Function.update_apply]
    split <;> rfl
  sizes := sizes

/-- Removing a view from the durable tables takes its text and all of its rows. -/
theorem remove (uuid : Uuid) : ∃ cleared,
    durable.remove uuid = .ok ((views uuid).isSome, cleared) ∧ cleared.stats = durable.stats ∧
    (∀ other, cleared.texts.get? other = if other = uuid then none else durable.texts.get? other) ∧
    ∀ linked source, cleared.dependents.get? (linked, source) =
      if source = uuid then none else durable.dependents.get? (linked, source) := by
  have loaded : durable.load uuid = .ok (views uuid) := twins.durable_loads uuid
  rw [DurableViews.remove, loaded]
  cases found : views uuid with
  | none =>
    refine ⟨durable, rfl, rfl, fun other => ?_, fun linked source => ?_⟩
    · by_cases same : other = uuid
      · rw [if_pos same, twins.texts, same, found]
        rfl
      · rw [if_neg same]
    · by_cases same : source = uuid
      · rw [if_pos same, twins.rows, same, found]
        rfl
      · rw [if_neg same]
  | some previous =>
    refine ⟨_, rfl, rfl, fun other => SortedMap.get?_erase_eq _ _ _, fun linked source => ?_⟩
    rw [SortedMap.get?_eraseAll]
    simp only [DurableViews.mem_dependentKeys_iff]
    by_cases same : source = uuid
    · -- A row of the entity is there for what its view links, and goes with it.
      by_cases linking : linked ∈ previous.linked
      · rw [if_pos ⟨linking, same⟩, if_pos same]
      · rw [if_neg fun both => linking both.1, if_pos same, twins.rows, same, found]
        simp [listedType, Option.filter, linking]
    · rw [if_neg fun both => same both.2, if_neg same]

theorem put {view : View} (back : View.ofText? view.text = some view) : ∃ next,
    durable.put view = .ok next ∧
    Twins (Function.update views view.uuid (some view)) (memory.put view) next ∧
    (memory.stats = durable.stats → (memory.put view).stats = next.stats) := by
  obtain ⟨cleared, removed, -, texts, rows⟩ := twins.remove view.uuid
  have replaced : (memory.views.get? view.uuid).isSome = (views view.uuid).isSome := by
    rw [twins.held]
  have size : (memory.put view).views.size = if (views view.uuid).isSome then memory.views.size
      else memory.views.size + 1 := by
    rw [← twins.held]
    exact memory.views.size_insert view.uuid view
  rw [DurableViews.put, removed]
  refine ⟨_, rfl, twins.with_entry _ (some view) _ _ twins.unfailing (twins.mirrored.put view)
    (fun other same => Option.some.inj same ▸ back) (memory.put_views view) (fun other => ?_)
    (fun linked source => ?_) ⟨?_, ?_⟩, fun same => ?_⟩
  · dsimp only
    rw [SortedMap.get?_insert_eq, texts]
    split <;> rfl
  · dsimp only
    rw [SortedMap.get?_insertAll, rows]
    simp only [DurableViews.mem_dependentKeys_iff]
    by_cases same : source = view.uuid <;> by_cases linking : linked ∈ view.linked <;>
      simp [same, linking, listedType, Option.filter]
  · rw [size, ← twins.sizes.1, ← replaced]
    rfl
  · rw [size, ← twins.sizes.2]
    rfl
  · rw [← same, ← replaced]
    rfl

theorem delete (uuid : Uuid) : ∃ next,
    durable.delete uuid = .ok ((views uuid).isSome, next) ∧
    (memory.delete uuid).1 = (views uuid).isSome ∧
    Twins (Function.update views uuid none) (memory.delete uuid).2 next ∧
    (memory.stats = durable.stats → (memory.delete uuid).2.stats = next.stats) := by
  obtain ⟨cleared, removed, stats, texts, rows⟩ := twins.remove uuid
  have write := fun next texts rows => twins.with_entry uuid none _ next
    ((memory.delete_failingPuts uuid).trans twins.unfailing)
    (twins.mirrored.delete uuid) (fun _ never => by cases never) (memory.delete_views uuid) texts
    rows
  rw [DurableViews.delete, removed]
  cases found : views uuid with
  | none =>
    have missing : memory.delete uuid = (false, memory) := by
      rw [MemoryViews.delete, twins.held, found]
    rw [missing] at write ⊢
    refine ⟨cleared, rfl, rfl, write cleared texts rows ?_, fun same => ?_⟩
    · rw [stats]
      exact twins.sizes
    · rw [stats]
      exact same
  | some previous =>
    have size := memory.views.size_erase uuid
    rw [twins.held, found] at size
    have gone : memory.delete uuid = (true, { memory with
        views := memory.views.erase uuid
        dependents := MemoryViews.unindex memory.dependents previous
        stats := memory.stats.delete }) := by
      rw [MemoryViews.delete, twins.held, found]
    rw [gone] at write ⊢
    refine ⟨_, rfl, rfl, write { cleared with stats := durable.stats.delete } texts rows ?_,
      congrArg ReadStats.delete⟩
    have counts := twins.sizes
    exact ⟨(congrArg (· - 1) counts.1).trans size.symm, (congrArg (· - 1) counts.2).trans size.symm⟩

/-- Closing the durable store and opening it again counts its views and starts afresh otherwise. -/
theorem reopen : durable.reopen =
    .ok { durable with stats := { ReadStats.start with viewCount := durable.stats.viewCount } } := by
  have listed : durable.all = .ok memory.views.values := twins.all_eq
  have size : memory.views.values.length = durable.stats.viewCount :=
    (List.length_map _).trans twins.sizes.2.symm
  rw [DurableViews.reopen, listed, ← size]
  rfl

end Writes

end Twins

end CachedViews
