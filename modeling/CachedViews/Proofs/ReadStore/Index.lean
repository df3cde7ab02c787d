import CachedViews.Proofs.Sorted
import CachedViews.ReadStore.Memory

/-!
The index of the store in memory mirrors its views: an entity is listed for a linked entity
exactly when its stored view links that entity.
-/
namespace CachedViews

namespace MemoryViews

/-- Views listed for a linked entity. -/
def listed (index : Index) (linked : Uuid) : SortedSet Uuid := index.getD linked {}

theorem mem_indexOne_iff (index : Index) (view linked other source : Uuid) :
    source ∈ listed (indexOne index view linked) other ↔
      (other = linked ∧ source = view) ∨ source ∈ listed index other := by
  simp only [listed, indexOne, SortedMap.getD, SortedMap.get?_insert_eq]
  split
  · rename_i same
    subst same
    simp
  · rename_i apart
    simp [apart]

theorem mem_unindexOne_iff (index : Index) (view linked other source : Uuid) :
    source ∈ listed (unindexOne index view linked) other ↔
      source ∈ listed index other ∧ ¬ (other = linked ∧ source = view) := by
  unfold unindexOne
  cases found : index.get? linked with
  | none =>
    constructor
    · intro inside
      refine ⟨inside, ?_⟩
      rintro ⟨rfl, rfl⟩
      simp [listed, SortedMap.getD, found] at inside
    · exact fun both => both.1
  | some views =>
    dsimp only
    split
    · rename_i emptied
      simp only [listed, SortedMap.getD, SortedMap.get?_erase_eq]
      split
      · rename_i same
        subst same
        have none : source ∉ views.erase view := by
          rw [SortedSet.mem_def]
          simp only [SortedSet.isEmpty, List.isEmpty_iff] at emptied
          simp [emptied]
        simp only [SortedSet.mem_erase, not_and, Classical.not_not] at none
        simp only [Option.getD_none, SortedSet.not_mem_emptyCollection, found, Option.getD_some,
          true_and, false_iff, not_and, Classical.not_not]
        exact none
      · rename_i apart
        simp [apart]
    · simp only [listed, SortedMap.getD, SortedMap.get?_insert_eq]
      split
      · rename_i same
        subst same
        simp [found]
      · rename_i apart
        simp [apart]

theorem mem_index_iff (index : Index) (view : View) (other source : Uuid) :
    source ∈ listed (MemoryViews.index index view) other ↔
      (other ∈ view.linked ∧ source = view.uuid) ∨ source ∈ listed index other := by
  refine (foldl_iff_or (fun index : Index => source ∈ listed index other)
    (fun linked _ index => (mem_indexOne_iff index view.uuid linked other source).trans or_comm)
    index).trans (or_comm.trans (or_congr_left ?_))
  constructor
  · rintro ⟨linked, inside, rfl, same⟩
    exact ⟨inside, same⟩
  · rintro ⟨inside, same⟩
    exact ⟨other, inside, rfl, same⟩

theorem mem_unindex_iff (index : Index) (view : View) (other source : Uuid) :
    source ∈ listed (unindex index view) other ↔
      source ∈ listed index other ∧ ¬ (other ∈ view.linked ∧ source = view.uuid) := by
  refine (foldl_iff_and (fun index : Index => source ∈ listed index other)
    (fun linked _ index => mem_unindexOne_iff index view.uuid linked other source) index).trans
      (and_congr_right fun _ => ?_)
  constructor
  · rintro kept ⟨inside, same⟩
    exact kept other inside ⟨rfl, same⟩
  · rintro kept linked inside ⟨rfl, same⟩
    exact kept ⟨inside, same⟩

/-- Views are stored under their own entities, and the index mirrors them. -/
structure Mirrored (store : MemoryViews) : Prop where
  own : ∀ uuid view, store.views.get? uuid = some view → view.uuid = uuid
  mirrors : ∀ linked source, source ∈ listed store.dependents linked ↔
    ∃ view, store.views.get? source = some view ∧ linked ∈ view.linked

theorem Mirrored.empty : Mirrored .empty where
  own _ _ found := by cases found
  mirrors linked source := by
    constructor
    · exact fun inside => absurd inside (SortedSet.not_mem_empty source)
    · rintro ⟨view, found, -⟩
      cases found

/-- The index without the entries of an entity's earlier view. -/
def cleared (store : MemoryViews) (uuid : Uuid) : Index :=
  match store.views.get? uuid with
  | some previous => unindex store.dependents previous
  | none => store.dependents

theorem put_dependents (store : MemoryViews) (view : View) :
    (store.put view).dependents = MemoryViews.index (store.cleared view.uuid) view := rfl

theorem mem_cleared_iff {store : MemoryViews} (mirrored : Mirrored store)
    (uuid linked source : Uuid) :
    source ∈ listed (store.cleared uuid) linked ↔
      source ≠ uuid ∧ source ∈ listed store.dependents linked := by
  unfold cleared
  cases found : store.views.get? uuid with
  | none =>
    dsimp only
    refine ⟨fun inside => ⟨?_, inside⟩, fun both => both.2⟩
    rintro rfl
    obtain ⟨held, there, -⟩ := (mirrored.mirrors linked source).mp inside
    rw [found] at there
    cases there
  -- Whatever the index lists under the entity comes from its stored view, and goes with it.
  | some previous =>
    dsimp only
    rw [mem_unindex_iff, mirrored.own uuid previous found, and_comm]
    refine and_congr_left fun inside => ?_
    obtain ⟨held, there, links⟩ := (mirrored.mirrors linked source).mp inside
    constructor
    · rintro kept rfl
      rw [found] at there
      cases there
      exact kept ⟨links, rfl⟩
    · exact fun apart both => apart both.2

/-- Replacing a view first drops the old view's entries, then adds the new one's. -/
theorem Mirrored.put {store : MemoryViews} (mirrored : Mirrored store) (view : View) :
    Mirrored (store.put view) where
  own uuid held found := by
    simp only [MemoryViews.put, SortedMap.get?_insert_eq] at found
    split at found
    · rename_i same
      cases found
      exact same.symm
    · exact mirrored.own uuid held found
  mirrors linked source := by
    rw [put_dependents, mem_index_iff, mem_cleared_iff mirrored, mirrored.mirrors]
    simp only [MemoryViews.put, SortedMap.get?_insert_eq]
    by_cases same : source = view.uuid
    · subst same
      simp
    · simp [same]

theorem Mirrored.delete {store : MemoryViews} (mirrored : Mirrored store) (uuid : Uuid) :
    Mirrored (store.delete uuid).2 := by
  unfold MemoryViews.delete
  cases found : store.views.get? uuid with
  | none => exact mirrored
  | some previous =>
    have own := mirrored.own uuid previous found
    constructor
    · intro other held there
      rw [SortedMap.get?_erase_eq] at there
      split at there
      · cases there
      · exact mirrored.own other held there
    · intro linked source
      dsimp only
      rw [mem_unindex_iff, mirrored.mirrors, own, SortedMap.get?_erase_eq]
      by_cases same : source = uuid
      · subst same
        simp [found]
      · simp [same]

theorem mem_findDependents_iff {store : MemoryViews} (mirrored : Mirrored store) (linked : Uuid)
    (key : EntityKey) :
    key ∈ store.findDependents linked ↔
      ∃ view, store.views.get? key.uuid = some view ∧ view.itemType = key.itemType ∧
        linked ∈ view.linked := by
  simp only [findDependents, List.mem_filterMap, Option.map_eq_some_iff]
  constructor
  · rintro ⟨source, inside, view, found, rfl⟩
    obtain ⟨held, there, links⟩ := (mirrored.mirrors linked source).mp inside
    rw [found] at there
    cases there
    exact ⟨view, by rw [View.key, mirrored.own source view found]; exact found, rfl, links⟩
  · rintro ⟨view, found, typed, links⟩
    refine ⟨key.uuid, (mirrored.mirrors linked key.uuid).mpr ⟨view, found, links⟩, view, found, ?_⟩
    rw [View.key, mirrored.own key.uuid view found, typed]

end MemoryViews

end CachedViews
