import CachedViews.Proofs.ReadStore.Calls
import CachedViews.Proofs.ReadStore.Updates
import Mathlib.Logic.Function.Basic

/-!
Read stores of either kind that work as they should: each look-up gives the view that was stored,
and no injected failure is left. A view that the durable store holds as a text counts only if its
text is read back as that view.
-/
namespace CachedViews

namespace ReadStore

/-- The view is read back as it was stored. In memory nothing can get lost. -/
def ReadsBack (store : ReadStore) (view : View) : Prop :=
  match store with
  | memory _ => True
  | durable _ => View.ofText? view.text = some view

/-- What a write leaves as it was. -/
structure Remains (before after : ReadStore) : Prop where
  available : after.available = before.available
  readsBack : after.ReadsBack = before.ReadsBack

theorem Remains.refl (store : ReadStore) : Remains store store := ⟨rfl, rfl⟩

theorem Remains.trans {first second third : ReadStore} (one : Remains first second)
    (two : Remains second third) : Remains first third :=
  ⟨two.available.trans one.available, two.readsBack.trans one.readsBack⟩

theorem remains_counted (store : ReadStore) (stats : ReadStats) :
    Remains store (World.counted store stats) := by
  cases store <;> exact ⟨rfl, rfl⟩

/-- The store holds these views, each can be read, and the next writes go through. -/
structure Serves (store : ReadStore) (views : Uuid → Option View) : Prop where
  unfailing : store.takeFailure = (false, store)
  loads : store.Loads views

variable {store : ReadStore} {views : Uuid → Option View} {uuid : Uuid}

theorem serves_memory {store : MemoryViews} (unfailing : store.failingPuts = 0)
    (held : ∀ uuid, store.views.get? uuid = views uuid) : (memory store).Serves views where
  unfailing := by
    rw [takeFailure, MemoryViews.takeFailure, if_pos unfailing]
  loads uuid := congrArg Except.ok (held uuid)

theorem failingPuts_of_serves {store : MemoryViews} (serves : (memory store).Serves views) :
    store.failingPuts = 0 := by
  by_contra failing
  have unfailing := serves.unfailing
  rw [takeFailure, MemoryViews.takeFailure, if_neg failing] at unfailing
  cases unfailing

theorem held_of_serves {store : MemoryViews} (serves : (memory store).Serves views) (uuid : Uuid) :
    store.views.get? uuid = views uuid := Except.ok.inj (serves.loads uuid)

theorem Serves.counted (serves : store.Serves views) (stats : ReadStats) :
    (World.counted store stats).Serves views := by
  cases store with
  | memory store =>
    have unfailing := failingPuts_of_serves serves
    have held := held_of_serves serves
    exact serves_memory unfailing held
  | durable store => exact ⟨rfl, serves.loads⟩

end ReadStore

namespace DurableViews

variable {store : DurableViews} {uuid : Uuid}

theorem load_congr {other : DurableViews}
    (same : other.texts.get? uuid = store.texts.get? uuid) : other.load uuid = store.load uuid := by
  rw [load, load, same]

theorem load_of_text {text : String} (held : store.texts.get? uuid = some text) :
    store.load uuid = some <$> read text := by
  rw [load, held]

theorem vacant_of_load (loaded : store.load uuid = .ok none) : store.texts.get? uuid = none := by
  cases held : store.texts.get? uuid with
  | none => rfl
  | some text =>
    rw [load_of_text held] at loaded
    cases read : read text <;>
    · rw [read] at loaded
      cases loaded

section

variable {found : Option View} (loaded : store.load uuid = .ok found)
include loaded

/-- Whatever can be read can be removed. -/
theorem remove_ok : ∃ cleared, store.remove uuid = .ok (found.isSome, cleared) ∧
    ∀ other, cleared.texts.get? other = if other = uuid then none else store.texts.get? other := by
  rw [remove, loaded]
  cases found with
  | none =>
    refine ⟨store, rfl, fun other => ?_⟩
    by_cases same : other = uuid
    · rw [if_pos same, same, vacant_of_load loaded]
    · rw [if_neg same]
  | some view => exact ⟨_, rfl, fun other => SortedMap.get?_erase_eq _ _ _⟩

theorem delete_ok : ∃ next, store.delete uuid = .ok (found.isSome, next) ∧
    ∀ other, next.texts.get? other = if other = uuid then none else store.texts.get? other := by
  obtain ⟨cleared, removed, texts⟩ := remove_ok loaded
  rw [delete, removed]
  cases found with
  | none => exact ⟨cleared, rfl, texts⟩
  | some view => exact ⟨_, rfl, texts⟩

end

/-- Whatever can be read can be replaced. -/
theorem put_ok {view : View} {found : Option View} (loaded : store.load view.uuid = .ok found) :
    ∃ next, store.put view = .ok next ∧ ∀ other, next.texts.get? other =
      if other = view.uuid then some view.text else store.texts.get? other := by
  obtain ⟨cleared, removed, texts⟩ := remove_ok loaded
  rw [put, removed]
  refine ⟨_, rfl, fun other => ?_⟩
  dsimp only
  rw [SortedMap.get?_insert_eq]
  by_cases same : other = view.uuid
  · rw [if_pos same, if_pos same]
  · rw [if_neg same, if_neg same, texts, if_neg same]

end DurableViews

namespace ReadStore

variable {store : ReadStore} {views : Uuid → Option View}

/-- A view that is read back is there once it is stored. -/
theorem Serves.put (serves : store.Serves views) {view : View} (back : store.ReadsBack view) :
    ∃ next, store.put view = .ok next ∧ Remains store next ∧
      next.Serves (Function.update views view.uuid (some view)) := by
  cases store with
  | memory store =>
    have unfailing := failingPuts_of_serves serves
    refine ⟨memory (store.put view), rfl, ⟨rfl, rfl⟩, serves_memory unfailing fun uuid => ?_⟩
    rw [MemoryViews.put_views, Function.update_apply, held_of_serves serves]
  | durable store =>
    obtain ⟨next, stored, texts⟩ := DurableViews.put_ok (serves.loads view.uuid)
    refine ⟨durable next, congrArg (durable <$> ·) stored, ⟨rfl, rfl⟩, rfl, fun uuid => ?_⟩
    rw [Function.update_apply, load]
    by_cases same : uuid = view.uuid
    · have written : next.texts.get? view.uuid = some view.text := by
        rw [texts, if_pos rfl]
      rw [if_pos same, same, DurableViews.load_of_text written, DurableViews.read, back]
      rfl
    · rw [if_neg same, ← serves.loads]
      exact DurableViews.load_congr ((texts uuid).trans (if_neg same))

theorem Serves.delete (serves : store.Serves views) (uuid : Uuid) :
    ∃ existed next, store.delete uuid = .ok (existed, next) ∧ Remains store next ∧
      next.Serves (Function.update views uuid none) := by
  cases store with
  | memory store =>
    have unfailing := (store.delete_failingPuts uuid).trans (failingPuts_of_serves serves)
    refine ⟨_, memory (store.delete uuid).2, rfl, ⟨store.delete_available uuid, rfl⟩,
      serves_memory unfailing fun other => ?_⟩
    rw [MemoryViews.delete_views, Function.update_apply, held_of_serves serves]
  | durable store =>
    obtain ⟨next, deleted, texts⟩ := DurableViews.delete_ok (serves.loads uuid)
    refine ⟨_, durable next, by rw [delete, deleted]; rfl, ⟨rfl, rfl⟩, rfl, fun other => ?_⟩
    rw [Function.update_apply, load]
    by_cases same : other = uuid
    · rw [if_pos same, DurableViews.load, texts, if_pos same]
    · rw [if_neg same, ← serves.loads]
      exact DurableViews.load_congr ((texts other).trans (if_neg same))

theorem load_of_shows {view : View} (shows : store.Shows view) (back : store.ReadsBack view) :
    store.load view.uuid = .ok (some view) := by
  cases store with
  | memory store =>
    rcases shows with held | held
    · obtain ⟨other, found, same⟩ := Option.map_eq_some_iff.mp held
      cases same
      exact congrArg Except.ok found
    · obtain ⟨other, found, same⟩ := Option.map_eq_some_iff.mp held
      cases same
  | durable store =>
    rcases shows with held | held
    · obtain ⟨text, found, same⟩ := Option.map_eq_some_iff.mp held
      cases same
    · obtain ⟨text, found, same⟩ := Option.map_eq_some_iff.mp held
      cases same
      rw [load, DurableViews.load_of_text found, DurableViews.read, back]
      rfl

theorem load_of_vacant {uuid : Uuid} (vacant : store.slot? uuid = none) :
    store.load uuid = .ok none := by
  cases store with
  | memory store => exact congrArg Except.ok (Option.map_eq_none_iff.mp vacant)
  | durable store =>
    have none : store.texts.get? uuid = Option.none := Option.map_eq_none_iff.mp vacant
    rw [load, DurableViews.load, none]

/-- A store whose views are all read back serves them once no injected failure is left. -/
theorem exists_serves {P : Uuid → View → Prop} (unfailing : store.takeFailure = (false, store))
    (each : ∀ uuid slot, store.slot? uuid = some slot →
      ∃ view, view.uuid = uuid ∧ store.Shows view ∧ store.ReadsBack view ∧ P uuid view) :
    ∃ views, store.Serves views ∧ ∀ uuid view, views uuid = some view → P uuid view := by
  have found : ∀ uuid, ∃ found, store.load uuid = .ok found ∧ ∀ view ∈ found, P uuid view := by
    intro uuid
    cases held : store.slot? uuid with
    | none => exact ⟨none, load_of_vacant held, fun view never => by cases never⟩
    | some slot =>
      obtain ⟨view, rfl, shows, back, listed⟩ := each uuid slot held
      exact ⟨some view, load_of_shows shows back, fun other same => Option.some.inj same ▸ listed⟩
  obtain ⟨views, loaded⟩ := Classical.skolem.mp found
  exact ⟨views, ⟨unfailing, fun uuid => (loaded uuid).1⟩, fun uuid => (loaded uuid).2⟩

/-- What is injected into a store has no say in what is read back. -/
theorem injected_readsBack (store : ReadStore) (readable : Bool) (failing : Nat) :
    ((store.setAvailable readable).failNextPuts failing).ReadsBack = store.ReadsBack := by
  cases store <;> rfl

theorem takeFailure_failNextPuts_zero (store : ReadStore) :
    (store.failNextPuts 0).takeFailure = (false, store.failNextPuts 0) := by
  cases store <;> rfl

end ReadStore

namespace Action

variable {world : World} {views : Uuid → Option View}

theorem putView_served (calm : world.Calm) (serves : world.read.Serves views) {view : View}
    (back : world.read.ReadsBack view) :
    ∃ read, (putView view).on world = (.ok (), { world with read }) ∧
      ReadStore.Remains world.read read ∧
        read.Serves (Function.update views view.uuid (some view)) := by
  obtain ⟨next, stored, remains, held⟩ := serves.put back
  refine ⟨next, ?_, remains, held⟩
  rw [putView, on_bind_ok (readStore_on calm), serves.unfailing]
  dsimp only
  rw [if_neg Bool.false_ne_true, stored]
  rfl

theorem deleteView_served (calm : world.Calm) (serves : world.read.Serves views) (uuid : Uuid) :
    ∃ existed read, (deleteView uuid).on world = (.ok existed, { world with read }) ∧
      ReadStore.Remains world.read read ∧ read.Serves (Function.update views uuid none) := by
  obtain ⟨existed, next, dropped, remains, held⟩ := serves.delete uuid
  refine ⟨existed, next, ?_, remains, held⟩
  rw [deleteView, on_bind_ok (readStore_on calm), dropped]
  rfl

end Action

end CachedViews
