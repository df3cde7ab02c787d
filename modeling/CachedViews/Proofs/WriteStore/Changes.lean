import CachedViews.Proofs.WriteStore.Consistent

/-!
What one write or one purge changes, and what a history of them keeps. A record with an old
stamp is an old record, and the target of a link stays as long as the record that links it.
-/
namespace CachedViews

namespace WriteStore

variable {registry : Registry} {store next earlier between later : WriteStore}

/-- Every retained default sheet of an entity; none without a row. -/
def revisions (store : WriteStore) (uuid : Uuid) : List Revision :=
  match store.rows.get? uuid with
  | some row => row.history
  | none => []

theorem history_of_record? {uuid : Uuid} {record : EntityRecord}
    (found : store.record? uuid = some record) : store.history uuid = .ok (store.revisions uuid) := by
  obtain ⟨row, _, stored, -, -⟩ := row_of_record? found
  simp [history, revisions, stored]

/-- One write: `record` is current now, under the next stamp. -/
structure Wrote (store : WriteStore) (record : EntityRecord) (next : WriteStore) : Prop where
  stamped : record.sid = store.nextSid
  watermark : next.maxSid = store.nextSid
  records : ∀ other, next.record? other =
    if other = record.uuid then some record else store.record? other
  typed : ∀ old, store.record? record.uuid = some old → old.itemType = record.itemType
  histories : ∀ other, next.revisions other =
    if other = record.uuid then store.revisions other ++ [⟨record.sid, record.properties⟩]
    else store.revisions other
  available : next.available = store.available

/-- One purge: `uuid` is gone, and no other entity links to it. -/
structure Purged (store : WriteStore) (uuid : Uuid) (next : WriteStore) : Prop where
  watermark : next.maxSid = store.maxSid
  records : ∀ other, next.record? other = if other = uuid then none else store.record? other
  unlinked : ∀ source record link, source ≠ uuid → store.record? source = some record →
    link ∈ record.links → link.target ≠ uuid
  available : next.available = store.available

inductive Change (store next : WriteStore) : Prop where
  | wrote (record : EntityRecord) (wrote : Wrote store record next)
  | purged (uuid : Uuid) (purged : Purged store uuid next)

/-- A write over a stored row or a new one. -/
theorem Wrote.of_commit {uuid : Uuid} {row : EntityRow} {write : EntityWrite}
    (writable : Writable registry store uuid row)
    (placed : store.rows.get? uuid = some row ∨ store.rows.get? uuid = none ∧ row.history = [])
    (single : write.sheets = {}) :
    Wrote store (store.committedRecord uuid row.itemType write) (store.commit uuid row write).2 where
  stamped := rfl
  watermark := rfl
  records := commit_record? single fun revision inside => (writable.accepted revision inside).1
  typed old found := by
    obtain ⟨oldRow, _, stored, -, rfl⟩ := row_of_record? found
    rcases placed with same | ⟨missing, -⟩
    · have stored : store.rows.get? uuid = some oldRow := stored
      rw [same] at stored
      cases stored
      rfl
    · have stored : store.rows.get? uuid = some oldRow := stored
      rw [missing] at stored
      cases stored
  histories other := by
    have appended := committedRow_history single fun revision inside =>
      (writable.accepted revision inside).1
    have kept : store.revisions uuid = row.history := by
      rcases placed with same | ⟨missing, new⟩
      · simp [revisions, same]
      · simp [revisions, missing, new]
    by_cases same : other = uuid
    · subst same
      rw [if_pos (show other = (store.committedRecord other row.itemType write).uuid from rfl), kept]
      simp only [revisions, commit_rows, SortedMap.get?_insert_self]
      exact appended
    · have apart : other ≠ (store.committedRecord uuid row.itemType write).uuid := same
      rw [if_neg apart]
      simp only [revisions, commit_rows, SortedMap.get?_insert_eq, if_neg same]
  available := rfl

theorem Purged.of_removed (consistent : Consistent registry store) {uuid : Uuid} {row : EntityRow}
    (unlinked : ∀ edge ∈ store.revLinks uuid, edge.source = uuid) :
    Purged store uuid (store.removed uuid row) where
  watermark := rfl
  records := removed_record? uuid row
  unlinked source record link apart found linking reached := by
    have listed : (⟨source, link⟩ : LinkEdge) ∈ store.revLinks uuid :=
      (consistent.mem_revLinks_iff uuid _).mpr ⟨reached.symm, record, found, linking⟩
    exact apart (unlinked _ listed)
  available := rfl

/-- An entity is there. -/
def Lives (store : WriteStore) (uuid : Uuid) : Prop :=
  ∃ record, store.record? uuid = some record

namespace Wrote

variable {record : EntityRecord} {uuid : Uuid} (wrote : Wrote store record next)
include wrote

theorem old_sid_lt : store.maxSid < record.sid := by
  rw [wrote.stamped]
  exact store.maxSid_lt_nextSid

theorem record?_new : next.record? record.uuid = some record :=
  (wrote.records record.uuid).trans (if_pos rfl)

theorem record?_of_ne (apart : uuid ≠ record.uuid) : next.record? uuid = store.record? uuid :=
  (wrote.records uuid).trans (if_neg apart)

theorem lives (lives : store.Lives uuid) : next.Lives uuid := by
  by_cases same : uuid = record.uuid
  · exact ⟨record, same ▸ wrote.record?_new⟩
  · obtain ⟨other, found⟩ := lives
    exact ⟨other, (wrote.record?_of_ne same).trans found⟩

end Wrote

theorem Purged.record?_of_ne {gone uuid : Uuid} (purged : Purged store gone next)
    (apart : uuid ≠ gone) : next.record? uuid = store.record? uuid :=
  (purged.records uuid).trans (if_neg apart)

namespace Change

theorem maxSid_le (change : Change store next) : store.maxSid ≤ next.maxSid := by
  cases change with
  | wrote record wrote =>
    rw [wrote.watermark]
    exact store.maxSid_le_nextSid
  | purged uuid purged => exact Int.le_of_eq purged.watermark.symm

/-- What is current under an old stamp was current before. -/
theorem kept (change : Change store next) {uuid : Uuid} {record : EntityRecord}
    (found : next.record? uuid = some record) (old : record.sid ≤ store.maxSid) :
    store.record? uuid = some record := by
  cases change with
  | wrote written wrote =>
    rw [wrote.records] at found
    split at found
    · cases found
      exact absurd wrote.old_sid_lt (Int.not_lt.mpr old)
    · exact found
  | purged gone purged =>
    rw [purged.records] at found
    split at found
    · cases found
    · exact found

/-- A linked entity does not vanish while the record that links it stays. -/
theorem missing_of_linked (change : Change store next) {source : Uuid} {record : EntityRecord}
    {link : Link} (current : next.record? source = some record) (old : record.sid ≤ store.maxSid)
    (linking : link ∈ record.links) (missing : next.record? link.target = none) :
    store.record? link.target = none := by
  have before := change.kept current old
  cases change with
  | wrote written wrote =>
    rw [wrote.records] at missing
    split at missing
    · cases missing
    · exact missing
  | purged gone purged =>
    rw [purged.records] at missing current
    split at missing
    -- Were the target purged now, its linking record would have stood in the way.
    · rename_i reached
      split at current
      · cases current
      · rename_i apart
        exact absurd reached (purged.unlinked source record link apart before linking)
    · exact missing

end Change

/-- Stores that come one after the other by writes and purges. -/
inductive History (earlier : WriteStore) : WriteStore → Prop where
  | start : History earlier earlier
  | next {between later : WriteStore} (before : History earlier between)
    (change : Change between later) : History earlier later

namespace History

theorem trans (first : History earlier between) (second : History between later) :
    History earlier later := by
  induction second with
  | start => exact first
  | next _ change ih => exact ih.next change

theorem maxSid_le (history : History earlier later) : earlier.maxSid ≤ later.maxSid := by
  induction history with
  | start => exact Int.le_refl _
  | next _ change ih => exact Int.le_trans ih change.maxSid_le

theorem kept (history : History earlier later) {uuid : Uuid} {record : EntityRecord}
    (found : later.record? uuid = some record) (old : record.sid ≤ earlier.maxSid) :
    earlier.record? uuid = some record := by
  induction history with
  | start => exact found
  | next before change ih => exact ih (change.kept found (Int.le_trans old before.maxSid_le))

theorem missing_of_linked (history : History earlier later) {source : Uuid}
    {record : EntityRecord} {link : Link} (current : later.record? source = some record)
    (old : record.sid ≤ earlier.maxSid) (linking : link ∈ record.links)
    (missing : later.record? link.target = none) : earlier.record? link.target = none := by
  induction history with
  | start => exact missing
  | next before change ih =>
    have still := Int.le_trans old before.maxSid_le
    exact ih (change.kept current still) (change.missing_of_linked current still linking missing)

end History

end WriteStore

end CachedViews
