import CachedViews.Proofs.Registry.Links
import CachedViews.Proofs.WriteStore.Stamped

/-!
Consistent write stores: every retained sheet has links that its type accepts, stamps stay
below the watermark, and the edge index mirrors the links of the current records. A write of
an accepted sheet and a purge keep a store consistent.
-/
namespace CachedViews

namespace WriteStore

variable {registry : Registry} {store : WriteStore}

/-- Links extracted from a sheet under a declared type. -/
def Extracts (registry : Registry) (itemType : ItemType) (properties : Properties)
    (links : SortedSet Link) : Prop :=
  ∃ decl, registry.get? itemType = some decl ∧ decl.extractLinks properties = .ok links

structure RowSound (registry : Registry) (maxSid : Sid) (row : EntityRow) : Prop where
  current : ∃ revision, row.history.getLast? = some revision ∧
    Extracts registry row.itemType revision.properties row.links
  accepted : ∀ revision ∈ row.history,
    revision.sid ≤ maxSid ∧ ∃ links, Extracts registry row.itemType revision.properties links
  created : row.createdSid ≤ maxSid

structure Consistent (registry : Registry) (store : WriteStore) : Prop where
  rows : ∀ uuid row, store.rows.get? uuid = some row → RowSound registry store.maxSid row
  edges : ∀ target edge, edge ∈ edgesInto store.incoming target ↔
    target = edge.link.target ∧
      ∃ row, store.rows.get? edge.source = some row ∧ edge.link ∈ row.links
  creations : ∀ left right leftRow rightRow, store.rows.get? left = some leftRow →
    store.rows.get? right = some rightRow → leftRow.createdSid = rightRow.createdSid → left = right

theorem Consistent.empty : Consistent registry .empty where
  rows uuid row found := by cases found
  edges target edge := by
    constructor
    · intro inside
      exact absurd inside (SortedSet.not_mem_empty edge)
    · rintro ⟨-, row, found, -⟩
      cases found
  creations left right leftRow rightRow found := by cases found

namespace Consistent

variable (consistent : Consistent registry store)
include consistent

theorem record?_of_row {uuid : Uuid} {row : EntityRow} (found : store.rows.get? uuid = some row) :
    ∃ record, store.record? uuid = some record ∧ record.itemType = row.itemType ∧
      record.links = row.links := by
  obtain ⟨revision, last, -⟩ := (consistent.rows uuid row found).current
  exact ⟨_, WriteStore.record?_of_row found last, rfl, rfl⟩

theorem itemTypeOf_eq (uuid : Uuid) :
    store.itemTypeOf uuid = (store.record? uuid).map EntityRecord.itemType := by
  cases found : store.rows.get? uuid with
  | none => simp [itemTypeOf, record?_eq, found]
  | some row =>
    obtain ⟨record, current, typed, -⟩ := consistent.record?_of_row found
    simp [itemTypeOf, found, current, typed]

theorem record_extracts {uuid : Uuid} {record : EntityRecord}
    (found : store.record? uuid = some record) :
    Extracts registry record.itemType record.properties record.links := by
  obtain ⟨row, revision, stored, last, rfl⟩ := row_of_record? found
  obtain ⟨same, again, extracts⟩ := (consistent.rows uuid row stored).current
  rw [last] at again
  cases again
  exact extracts

/-- The links of a current record are the declared links that its sheet holds. -/
theorem mem_links_iff {uuid : Uuid} {record : EntityRecord}
    (found : store.record? uuid = some record) (link : Link) :
    link ∈ record.links ↔
      registry.isLink record.itemType link.field = true ∧
        link.target ∈ Embedding.linkTargets (record.properties.get? link.field) := by
  obtain ⟨decl, declared, extracted⟩ := consistent.record_extracts found
  rw [TypeDecl.mem_extractLinks extracted, Registry.isLink, declared]

theorem record_sid_le {uuid : Uuid} {record : EntityRecord}
    (found : store.record? uuid = some record) : record.sid ≤ store.maxSid := by
  obtain ⟨row, revision, stored, last, rfl⟩ := row_of_record? found
  exact ((consistent.rows uuid row stored).accepted revision (List.mem_of_getLast? last)).1

theorem mem_revLinks_iff (target : Uuid) (edge : LinkEdge) :
    edge ∈ store.revLinks target ↔
      target = edge.link.target ∧
        ∃ record, store.record? edge.source = some record ∧ edge.link ∈ record.links := by
  rw [revLinks, ← SortedSet.mem_def]
  refine (consistent.edges target edge).trans (and_congr_right fun _ => ?_)
  constructor
  · rintro ⟨row, found, inside⟩
    obtain ⟨record, current, -, same⟩ := consistent.record?_of_row found
    exact ⟨record, current, same ▸ inside⟩
  · rintro ⟨record, current, inside⟩
    obtain ⟨row, revision, stored, -, rfl⟩ := row_of_record? current
    exact ⟨row, stored, inside⟩

end Consistent

section Commit

variable {uuid : Uuid} {row : EntityRow} {write : EntityWrite}

/-- What a row must be so that a write over it keeps the store consistent: the stored row, or
a new row without history. -/
structure Writable (registry : Registry) (store : WriteStore) (uuid : Uuid) (row : EntityRow) :
    Prop where
  accepted : ∀ revision ∈ row.history,
    revision.sid ≤ store.maxSid ∧ ∃ links, Extracts registry row.itemType revision.properties links
  created : row.createdSid ≤ store.nextSid
  single : ∀ other otherRow, store.rows.get? other = some otherRow →
    otherRow.createdSid = row.createdSid → other = uuid
  mirrored : ∀ link, link ∈ row.links ↔
    ∃ stored, store.rows.get? uuid = some stored ∧ link ∈ stored.links

theorem Writable.of_stored (consistent : Consistent registry store)
    (stored : store.rows.get? uuid = some row) : Writable registry store uuid row where
  accepted := (consistent.rows uuid row stored).accepted
  created := Int.le_trans (consistent.rows uuid row stored).created store.maxSid_le_nextSid
  single other otherRow found same := consistent.creations other uuid otherRow row found stored same
  mirrored link := by simp [stored]

theorem Writable.of_new (consistent : Consistent registry store)
    (missing : store.rows.get? uuid = none) (itemType : ItemType) :
    Writable registry store uuid ⟨itemType, store.nextSid, {}, {}, {}⟩ where
  accepted revision inside := by
    rw [EntityRow.mem_history_iff] at inside
    cases inside
  created := Int.le_refl _
  single other otherRow found same := by
    have bound := (consistent.rows other otherRow found).created
    rw [same] at bound
    exact absurd store.maxSid_lt_nextSid (Int.not_lt.mpr bound)
  mirrored link := by simp [missing]

theorem RowSound.committed (writable : Writable registry store uuid row) (single : write.sheets = {})
    (extracts : Extracts registry row.itemType write.properties write.links) :
    RowSound registry store.nextSid (store.committedRow row write) := by
  have history := committedRow_history single fun revision inside =>
    (writable.accepted revision inside).1
  refine ⟨⟨⟨store.nextSid, write.properties⟩, ?_, ?_⟩, ?_, ?_⟩
  · simp [history]
  · rw [committedRow_itemType]
    exact extracts
  · intro revision inside
    rw [committedRow_itemType]
    rw [history, List.mem_append, List.mem_singleton] at inside
    rcases inside with earlier | rfl
    · obtain ⟨bound, accepted⟩ := writable.accepted revision earlier
      exact ⟨Int.le_trans bound store.maxSid_le_nextSid, accepted⟩
    · exact ⟨Int.le_refl _, write.links, extracts⟩
  · rw [committedRow_createdSid]
    exact writable.created

theorem Consistent.commit (consistent : Consistent registry store)
    (writable : Writable registry store uuid row) (single : write.sheets = {})
    (extracts : Extracts registry row.itemType write.properties write.links) :
    Consistent registry (store.commit uuid row write).2 where
  rows other otherRow found := by
    rw [commit_rows, SortedMap.get?_insert_eq] at found
    split at found
    · cases found
      exact RowSound.committed writable single extracts
    · have sound := consistent.rows other otherRow found
      refine ⟨sound.current, ?_, Int.le_trans sound.created store.maxSid_le_nextSid⟩
      intro revision inside
      obtain ⟨bound, accepted⟩ := sound.accepted revision inside
      exact ⟨Int.le_trans bound store.maxSid_le_nextSid, accepted⟩
  edges := EdgesMirrored.commit consistent.edges writable.mirrored
  creations := CreatedApart.commit consistent.creations writable.single write

end Commit

theorem removed_record? (uuid : Uuid) (row : EntityRow) (other : Uuid) :
    (store.removed uuid row).record? other =
      if other = uuid then none else store.record? other := by
  simp only [record?_eq, removed, SortedMap.get?_erase_eq]
  split <;> rfl

theorem Consistent.removed (consistent : Consistent registry store) {uuid : Uuid} {row : EntityRow}
    (stored : store.rows.get? uuid = some row)
    (unlinked : ∀ edge ∈ store.revLinks uuid, edge.source = uuid) :
    Consistent registry (store.removed uuid row) where
  rows other otherRow found := by
    simp only [WriteStore.removed, SortedMap.get?_erase_eq] at found
    split at found
    · cases found
    · exact consistent.rows other otherRow found
  edges := EdgesMirrored.removed consistent.edges stored unlinked
  creations := CreatedApart.removed consistent.creations uuid row

end WriteStore

end CachedViews
