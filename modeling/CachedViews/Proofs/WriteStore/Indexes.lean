import CachedViews.Proofs.WriteStore.Revisions

/-!
The two indexes of a write store mirror its rows: an edge is listed under its target exactly
while its source holds the link, and a key has an owner exactly while that entity holds the
key. Every write and every purge keeps them so: releasing old keys and claiming new ones one by
one takes no key from anyone else.
-/
namespace CachedViews

namespace WriteStore

variable {store : WriteStore} {uuid : Uuid} {row : EntityRow} {write : EntityWrite}

/-- Keys of other owners stay; those of `owner` are its new ones. -/
theorem replaceKeys_get?_iff (owners : SortedMap UniqueKey Uuid) (owner : Uuid)
    (old new : SortedSet UniqueKey)
    (mirrored : ∀ key, owners.get? key = some owner ↔ key ∈ old)
    (free : ∀ key ∈ new, ∀ holder, owners.get? key = some holder → holder = owner)
    (key : UniqueKey) (holder : Uuid) :
    (replaceKeys owners owner old new).get? key = some holder ↔
      if holder = owner then key ∈ new else owners.get? key = some holder := by
  simp only [replaceKeys, SortedMap.get?_insertAll, SortedMap.get?_eraseAll, ← SortedSet.mem_def,
    SortedSet.mem_diff]
  by_cases same : holder = owner
  · subst same
    by_cases before : key ∈ old <;> by_cases after : key ∈ new <;>
      simp [before, after, mirrored]
  · have other : owner ≠ holder := fun turned => same turned.symm
    rw [if_neg same]
    by_cases before : key ∈ old <;> by_cases after : key ∈ new
    · simp [before, after]
    · -- A released key was the owner's, so nobody else had it.
      have held := (mirrored key).mpr before
      simp [before, after, held, other]
    · have taken : owners.get? key ≠ some holder := fun held => same (free key after holder held)
      simp [before, after, taken, other]
    · simp [before, after]

def EdgesMirrored (store : WriteStore) : Prop :=
  ∀ target edge, edge ∈ edgesInto store.incoming target ↔
    target = edge.link.target ∧
      ∃ row, store.rows.get? edge.source = some row ∧ edge.link ∈ row.links

structure Indexed (store : WriteStore) : Prop where
  edges : EdgesMirrored store
  owners : ∀ key owner, store.owners.get? key = some owner ↔
    ∃ row, store.rows.get? owner = some row ∧ key ∈ row.uniqueKeys

theorem Indexed.empty : Indexed .empty where
  edges target edge := by
    constructor
    · intro inside
      exact absurd inside (SortedSet.not_mem_empty edge)
    · rintro ⟨-, row, found, -⟩
      cases found
  owners key owner := by
    constructor
    · intro found
      cases found
    · rintro ⟨row, found, -⟩
      cases found

theorem Indexed.mem_revLinks_iff (indexed : Indexed store) (target : Uuid) (edge : LinkEdge) :
    edge ∈ store.revLinks target ↔
      target = edge.link.target ∧
        ∃ row, store.rows.get? edge.source = some row ∧ edge.link ∈ row.links := by
  rw [revLinks, ← SortedSet.mem_def]
  exact indexed.edges target edge

/-- The row that a write goes over: the stored one, or a bare one when there is none. -/
def Continues (store : WriteStore) (uuid : Uuid) (row : EntityRow) : Prop :=
  store.rows.get? uuid = some row ∨
    store.rows.get? uuid = none ∧ row.links = {} ∧ row.uniqueKeys = {}

namespace Continues

variable (continues : Continues store uuid row)
include continues

theorem mem_links_iff (link : Link) :
    link ∈ row.links ↔ ∃ stored, store.rows.get? uuid = some stored ∧ link ∈ stored.links := by
  rcases continues with stored | ⟨missing, links, -⟩
  · simp [stored]
  · simp [missing, links]

theorem mem_uniqueKeys_iff (key : UniqueKey) :
    key ∈ row.uniqueKeys ↔
      ∃ stored, store.rows.get? uuid = some stored ∧ key ∈ stored.uniqueKeys := by
  rcases continues with stored | ⟨missing, -, keys⟩
  · simp [stored]
  · simp [missing, keys]

end Continues

theorem ownedByOther_iff (store : WriteStore) (uuid : Uuid) (key : UniqueKey) :
    store.ownedByOther uuid key = true ↔
      ∃ owner, owner ≠ uuid ∧ store.owners.get? key = some owner := by
  unfold ownedByOther
  cases found : store.owners.get? key with
  | none => simp
  | some owner => simp

theorem owner_of_no_conflict (free : store.keyConflicts uuid write.uniqueKeys = []) :
    ∀ key ∈ write.uniqueKeys, ∀ owner, store.owners.get? key = some owner → owner = uuid := by
  intro key inside owner found
  apply Classical.byContradiction
  intro apart
  exact List.filter_eq_nil_iff.mp free key inside
    ((ownedByOther_iff store uuid key).mpr ⟨owner, apart, found⟩)

theorem EdgesMirrored.commit (edges : EdgesMirrored store)
    (continues : ∀ link, link ∈ row.links ↔
      ∃ stored, store.rows.get? uuid = some stored ∧ link ∈ stored.links) :
    EdgesMirrored (store.commit uuid row write).2 := by
  intro target edge
  have mirrored : edge.source = uuid →
      (edge ∈ edgesInto store.incoming target ↔ target = edge.link.target ∧ edge.link ∈ row.links) := by
    intro same
    rw [edges target edge, continues, same]
  apply (mem_replaceEdges store.incoming uuid target row.links write.links edge mirrored).trans
  rw [commit_rows, SortedMap.get?_insert_eq]
  by_cases same : edge.source = uuid
  · simp [same, committedRow]
  · rw [if_neg same, if_neg same, edges target edge]

theorem Indexed.commit (indexed : Indexed store) (continues : Continues store uuid row)
    (free : store.keyConflicts uuid write.uniqueKeys = []) :
    Indexed (store.commit uuid row write).2 where
  edges := indexed.edges.commit continues.mem_links_iff
  owners key owner := by
    have held : ∀ key, store.owners.get? key = some uuid ↔ key ∈ row.uniqueKeys := fun key => by
      rw [indexed.owners, continues.mem_uniqueKeys_iff]
    apply (replaceKeys_get?_iff store.owners uuid row.uniqueKeys write.uniqueKeys held
      (owner_of_no_conflict free) key owner).trans
    rw [commit_rows, SortedMap.get?_insert_eq]
    by_cases same : owner = uuid
    · simp [same, committedRow]
    · rw [if_neg same, if_neg same, indexed.owners]

theorem create_ok {itemType : ItemType} {sid : Sid} {next : WriteStore}
    (ended : store.create uuid itemType write = .ok (sid, next)) :
    store.rows.get? uuid = none ∧ store.keyConflicts uuid write.uniqueKeys = [] ∧
      (sid, next) = store.commit uuid ⟨itemType, store.nextSid, {}, {}, {}⟩ write := by
  unfold create at ended
  split at ended
  · cases ended
  · rename_i unknown
    have vacant : store.rows.get? uuid = none := by
      simpa [contains, SortedMap.contains] using unknown
    split at ended
    · rename_i free
      exact ⟨vacant, free, (Except.ok.inj ended).symm⟩
    · cases ended

theorem update_ok {base : Option Sid} {sid : Sid} {next : WriteStore}
    (ended : store.update uuid write base = .ok (sid, next)) :
    ∃ row, store.rows.get? uuid = some row ∧ store.keyConflicts uuid write.uniqueKeys = [] ∧
      (sid, next) = store.commit uuid row write := by
  unfold update at ended
  split at ended
  · cases ended
  · rename_i row stored
    dsimp only at ended
    split at ended
    · cases ended
    · split at ended
      · rename_i free
        exact ⟨row, stored, free, (Except.ok.inj ended).symm⟩
      · cases ended

/-- The store that a purge leaves. -/
def removed (store : WriteStore) (uuid : Uuid) (row : EntityRow) : WriteStore :=
  { store with
    rows := store.rows.erase uuid
    incoming := (replaceEdges store.incoming uuid row.links {}).erase uuid
    owners := replaceKeys store.owners uuid row.uniqueKeys {} }

theorem purge_ok {uuid : Uuid} {next : WriteStore} (ended : store.purge uuid = .ok next) :
    ∃ row, store.rows.get? uuid = some row ∧ next = store.removed uuid row ∧
      ∀ edge ∈ store.revLinks uuid, edge.source = uuid := by
  unfold purge at ended
  split at ended
  · cases ended
  · rename_i row stored
    split at ended
    · rename_i unlinked
      cases ended
      refine ⟨row, stored, rfl, ?_⟩
      intro edge listed
      apply Classical.byContradiction
      intro apart
      have inside : edge.source ∈ store.linkedFrom uuid := by
        simp only [linkedFrom, SortedSet.mem_ofList, List.mem_filter, List.mem_map]
        exact ⟨⟨edge, listed, rfl⟩, by simpa using apart⟩
      rw [SortedSet.mem_def, unlinked] at inside
      cases inside
    · cases ended

/-- A purged entity may have linked to itself, but no other did. -/
theorem EdgesMirrored.removed (edges : EdgesMirrored store)
    (stored : store.rows.get? uuid = some row)
    (unlinked : ∀ edge ∈ store.revLinks uuid, edge.source = uuid) :
    EdgesMirrored (store.removed uuid row) := by
  intro target edge
  have mirrored : edge.source = uuid →
      (edge ∈ edgesInto store.incoming target ↔ target = edge.link.target ∧ edge.link ∈ row.links) := by
    intro same
    rw [edges target edge, same, stored]
    simp
  simp only [WriteStore.removed, mem_edgesInto_erase, SortedMap.get?_erase_eq]
  rw [mem_replaceEdges store.incoming uuid target row.links {} edge mirrored]
  by_cases same : edge.source = uuid
  · simp [same]
  · rw [if_neg same, if_neg same, edges target edge]
    constructor
    · exact fun both => both.2
    · rintro ⟨rfl, linking⟩
      refine ⟨fun here => same (unlinked edge ?_), rfl, linking⟩
      rw [revLinks, ← SortedSet.mem_def]
      exact (edges uuid edge).mpr ⟨here.symm, linking⟩

theorem Indexed.removed (indexed : Indexed store) (stored : store.rows.get? uuid = some row)
    (unlinked : ∀ edge ∈ store.revLinks uuid, edge.source = uuid) :
    Indexed (store.removed uuid row) where
  edges := indexed.edges.removed stored unlinked
  owners key owner := by
    have held : ∀ key, store.owners.get? key = some uuid ↔ key ∈ row.uniqueKeys := fun key => by
      rw [indexed.owners, stored]
      simp
    have none : ∀ key ∈ ({} : SortedSet UniqueKey), ∀ holder,
        store.owners.get? key = some holder → holder = uuid :=
      fun key inside => absurd inside (SortedSet.not_mem_empty key)
    apply (replaceKeys_get?_iff store.owners uuid row.uniqueKeys {} held none key owner).trans
    simp only [WriteStore.removed, SortedMap.get?_erase_eq]
    by_cases same : owner = uuid
    · simp [same]
    · rw [if_neg same, if_neg same, indexed.owners]

end WriteStore

end CachedViews
