import CachedViews.Proofs.ReadStore.Index
import CachedViews.Proofs.Running

/-!
Calls to the read store. Looking up a view only moves the counters, so most of what an engine asks
leaves the world as it was in everything else.
-/
namespace CachedViews

namespace ReadStore

/-- The store gives these views when it is asked. -/
def Loads (store : ReadStore) (views : Uuid → Option View) : Prop :=
  ∀ uuid, store.load uuid = .ok (views uuid)

end ReadStore

namespace World

/-- The read store is in memory and holds this, whatever it counted. -/
def Holds (world : World) (store : MemoryViews) : Prop :=
  ∃ stats, world.read = .memory { store with stats }

/-- A read store with other counters. -/
def counted (read : ReadStore) (stats : ReadStats) : ReadStore :=
  match read with
  | .memory store => .memory { store with stats }
  | .durable store => .durable { store with stats }

theorem counted_counted (read : ReadStore) (first second : ReadStats) :
    counted (counted read first) second = counted read second := by
  cases read <;> rfl

theorem exists_counted (read : ReadStore) : ∃ stats, read = counted read stats := by
  cases read with
  | memory store => exact ⟨store.stats, rfl⟩
  | durable store => exact ⟨store.stats, rfl⟩

/-- The world with other counters in its read store. -/
def counting (world : World) (stats : ReadStats) : World :=
  { world with read := counted world.read stats }

variable {world : World} {store : MemoryViews}

theorem Holds.load (holds : world.Holds store) : world.read.Loads store.views.get? := by
  obtain ⟨stats, memory⟩ := holds
  intro uuid
  rw [memory]
  rfl

theorem Holds.of_memory (memory : world.read = .memory store) : world.Holds store :=
  ⟨store.stats, memory⟩

theorem Holds.of_read {other : World} (holds : world.Holds store)
    (same : other.read = world.read) : other.Holds store := by
  obtain ⟨stats, memory⟩ := holds
  exact ⟨stats, same.trans memory⟩

theorem Holds.available (holds : world.Holds store) : world.read.available = store.available := by
  obtain ⟨stats, memory⟩ := holds
  rw [memory]
  rfl

theorem counting_eq (holds : world.Holds store) (stats : ReadStats) :
    world.counting stats = { world with read := .memory { store with stats } } := by
  obtain ⟨_, memory⟩ := holds
  rw [counting, memory]
  rfl

theorem counting_self (world : World) : ∃ stats, world.counting stats = world := by
  obtain ⟨stats, same⟩ := exists_counted world.read
  exact ⟨stats, by rw [counting, ← same]⟩

@[simp] theorem counting_counting (first second : ReadStats) :
    (world.counting first).counting second = world.counting second := by
  simp only [counting, counted_counted]

theorem counted_available (read : ReadStore) (stats : ReadStats) :
    (counted read stats).available = read.available := by
  cases read <;> rfl

theorem Calm.counting (calm : world.Calm) (stats : ReadStats) : (world.counting stats).Calm :=
  calm.of_faults rfl calm.writable ((counted_available _ _).trans calm.readable)

/-- Another store in memory that is as available keeps the reads of a calm world within reach. -/
theorem Calm.readable_of_holds {other : World} {views : MemoryViews} (calm : world.Calm)
    (holds : world.Holds store) (after : other.Holds views)
    (same : views.available = store.available) : other.read.available = true :=
  after.available.trans (same.trans (holds.available.symm.trans calm.readable))

theorem Holds.counting (holds : world.Holds store) (stats : ReadStats) :
    (world.counting stats).Holds store := by
  rw [counting_eq holds]
  exact ⟨stats, rfl⟩

end World

namespace ReadStore

variable {store : ReadStore} {views : Uuid → Option View}

theorem Loads.counted (loads : store.Loads views) (stats : ReadStats) :
    (World.counted store stats).Loads views := by
  cases store <;> exact loads

/-- Looking up a view only moves the counters. -/
theorem Loads.get (loads : store.Loads views) (uuid : Uuid) :
    ∃ stats, store.get uuid = .ok (views uuid, World.counted store stats) := by
  have loaded := loads uuid
  cases store with
  | memory store =>
    have held : store.views.get? uuid = views uuid := Except.ok.inj loaded
    rw [← held, get, MemoryViews.get]
    cases store.views.get? uuid <;> exact ⟨_, rfl⟩
  | durable store =>
    rw [load] at loaded
    rw [get, DurableViews.get, loaded]
    cases views uuid <;> exact ⟨_, rfl⟩

theorem Loads.viewSids (loads : store.Loads views) (uuid : Uuid) :
    ∃ sids, store.viewSids [uuid] = .ok sids ∧ sids.get? uuid = (views uuid).map View.sid := by
  refine ⟨SortedMap.ofList ([(views uuid).map fun view => (uuid, view.sid)].filterMap id), ?_, ?_⟩
  · rw [ReadStore.viewSids, List.mapM_cons, loads]
    rfl
  · cases views uuid with
    | none => rfl
    | some view => exact SortedMap.get?_insert_self (∅ : SortedMap Uuid Sid) uuid view.sid

end ReadStore

namespace MemoryViews

theorem delete_available (store : MemoryViews) (uuid : Uuid) :
    (store.delete uuid).2.available = store.available := by
  unfold delete
  split <;> rfl

theorem delete_failingPuts (store : MemoryViews) (uuid : Uuid) :
    (store.delete uuid).2.failingPuts = store.failingPuts := by
  unfold delete
  split <;> rfl

/-- What is removed does not depend on the counters. -/
theorem delete_counted (store : MemoryViews) (stats : ReadStats) (uuid : Uuid) :
    ∃ counted, (({ store with stats } : MemoryViews).delete uuid).2 =
      { (store.delete uuid).2 with stats := counted } := by
  unfold delete
  cases store.views.get? uuid with
  | none => exact ⟨stats, rfl⟩
  | some view => exact ⟨stats.delete, rfl⟩

theorem delete_views (store : MemoryViews) (uuid other : Uuid) :
    (store.delete uuid).2.views.get? other =
      if other = uuid then none else store.views.get? other := by
  unfold delete
  cases found : store.views.get? uuid with
  | none =>
    dsimp only
    by_cases same : other = uuid
    · rw [if_pos same, same, found]
    · rw [if_neg same]
  | some view => exact SortedMap.get?_erase_eq _ _ _

theorem put_views (store : MemoryViews) (view : View) (other : Uuid) :
    (store.put view).views.get? other =
      if other = view.uuid then some view else store.views.get? other :=
  SortedMap.get?_insert_eq _ _ _ _

end MemoryViews

namespace Action

variable {α β : Type}

/-- The action ends well with this value and leaves everything but the counters alone. -/
def Peeks (action : Action α) (value : α) (world : World) : Prop :=
  ∃ stats, action.on world = (.ok value, world.counting stats)

theorem Peeks.of_on {action : Action α} {value : α} {world : World}
    (ended : action.on world = (.ok value, world)) : Peeks action value world := by
  obtain ⟨stats, same⟩ := world.counting_self
  exact ⟨stats, by rw [ended, same]⟩

theorem Peeks.bind {action : Action α} {next : α → Action β} {value : α} {result : β}
    {world : World} (first : Peeks action value world)
    (second : ∀ stats, Peeks (next value) result (world.counting stats)) :
    Peeks (action >>= next) result world := by
  obtain ⟨stats, ended⟩ := first
  obtain ⟨more, endedNext⟩ := second stats
  exact ⟨more, by rw [on_bind_ok ended, endedNext, World.counting_counting]⟩

/-- The action ends well and leaves everything but the counters alone. -/
def Returns (action : Action α) (world : World) : Prop := ∃ value, Peeks action value world

theorem Returns.of_on {action : Action α} {value : α} {world : World}
    (ended : action.on world = (.ok value, world)) : action.Returns world := ⟨value, .of_on ended⟩

theorem returns_pure (value : α) (world : World) : (pure value : Action α).Returns world :=
  .of_on (on_pure value world)

theorem Returns.bind {action : Action α} {next : α → Action β} {world : World}
    (first : action.Returns world)
    (second : ∀ value stats, (next value).Returns (world.counting stats)) :
    (action >>= next).Returns world := by
  obtain ⟨value, stats, ended⟩ := first
  obtain ⟨result, more, endedNext⟩ := second value stats
  exact ⟨result, more, by rw [on_bind_ok ended, endedNext, World.counting_counting]⟩

variable {world : World} {store : MemoryViews}

section

variable {views : Uuid → Option View}

theorem view_loaded (calm : world.Calm) (loads : world.read.Loads views) (uuid : Uuid) :
    ∃ stats, (view uuid).on world =
      (match views uuid with
        | some view => .ok view
        | none => .error (.storage (.notFound uuid)), world.counting stats) := by
  have pass : nextViewFault.on world = (.ok .pass, world) := by
    rw [nextViewFault, on_modifyGet, calm.views]
  obtain ⟨stats, got⟩ := loads.get uuid
  refine ⟨stats, ?_⟩
  rw [view, on_bind_ok pass]
  dsimp only
  rw [on_bind_ok (readStore_on calm), got]
  cases views uuid <;> rfl

theorem orNotFound_view_loaded (calm : world.Calm) (loads : world.read.Loads views)
    (uuid : Uuid) : Peeks (orNotFound (view uuid)) (views uuid) world := by
  obtain ⟨stats, ended⟩ := view_loaded calm loads uuid
  refine ⟨stats, ?_⟩
  rw [orNotFound, on_tryCatch, on_map, ended]
  cases views uuid <;> rfl

theorem viewSids_loaded (calm : world.Calm) (loads : world.read.Loads views) (uuid : Uuid) :
    ∃ sids, (viewSids [uuid]).on world = (.ok sids, world) ∧
      sids.get? uuid = (views uuid).map View.sid := by
  obtain ⟨sids, looked, stored⟩ := loads.viewSids uuid
  refine ⟨sids, ?_, stored⟩
  rw [viewSids, on_bind_ok (readStore_on calm), looked]
  rfl

end

theorem view_on (calm : world.Calm) (holds : world.Holds store) (uuid : Uuid) :
    ∃ stats, (view uuid).on world =
      (match store.views.get? uuid with
        | some view => .ok view
        | none => .error (.storage (.notFound uuid)), world.counting stats) :=
  view_loaded calm holds.load uuid

theorem orNotFound_view_peeks (calm : world.Calm) (holds : world.Holds store) (uuid : Uuid) :
    Peeks (orNotFound (view uuid)) (store.views.get? uuid) world :=
  orNotFound_view_loaded calm holds.load uuid

theorem findDependents_on (calm : world.Calm) (holds : world.Holds store) (uuid : Uuid) :
    (findDependents uuid).on world = (.ok (store.findDependents uuid), world) := by
  obtain ⟨stats, memory⟩ := holds
  rw [findDependents, on_bind_ok (readStore_on calm), on_pure, memory]
  rfl

theorem viewSids_on (calm : world.Calm) (holds : world.Holds store) (uuid : Uuid) :
    ∃ sids, (viewSids [uuid]).on world = (.ok sids, world) ∧
      sids.get? uuid = (store.views.get? uuid).map View.sid :=
  viewSids_loaded calm holds.load uuid

theorem findDependents_returns (calm : world.Calm) (uuid : Uuid) :
    (findDependents uuid).Returns world := by
  rw [findDependents]
  exact .of_on (by rw [on_bind_ok (readStore_on calm)]; exact on_pure _ _)

theorem countViews_on (calm : world.Calm) (holds : world.Holds store) (itemType : ItemType) :
    (countViews itemType).on world =
      (.ok (store.views.values.filter fun view => view.itemType = itemType).length, world) := by
  obtain ⟨stats, memory⟩ := holds
  rw [countViews, on_bind_ok (readStore_on calm), memory]
  rfl

theorem deleteView_on (calm : world.Calm) (holds : world.Holds store) (uuid : Uuid) :
    ∃ existed read, (deleteView uuid).on world = (.ok existed, { world with read }) ∧
      ({ world with read } : World).Holds (store.delete uuid).2 := by
  obtain ⟨stats, memory⟩ := holds
  refine ⟨(({ store with stats } : MemoryViews).delete uuid).1,
    .memory (({ store with stats } : MemoryViews).delete uuid).2, ?_, ?_⟩
  · rw [deleteView, on_bind_ok (readStore_on calm), memory]
    rfl
  · obtain ⟨counted, same⟩ := store.delete_counted stats uuid
    exact ⟨counted, congrArg ReadStore.memory same⟩

/-- A view is stored, or one injected failure is used up. -/
theorem putView_on (calm : world.Calm) (holds : world.Holds store) (view : View) :
    (store.failingPuts ≠ 0 ∧
      ∃ error read, (putView view).on world = (.error error, { world with read }) ∧
        ({ world with read } : World).Holds { store with failingPuts := store.failingPuts - 1 }) ∨
      ∃ read, (putView view).on world = (.ok (), { world with read }) ∧
        ({ world with read } : World).Holds (store.put view) := by
  obtain ⟨stats, memory⟩ := holds
  rw [putView, on_bind_ok (readStore_on calm), memory]
  simp only [ReadStore.takeFailure, MemoryViews.takeFailure]
  by_cases none : store.failingPuts = 0
  · right
    rw [if_pos none]
    exact ⟨_, rfl, _, rfl⟩
  · left
    rw [if_neg none]
    exact ⟨none, _, _, rfl, stats, rfl⟩

end Action

end CachedViews
