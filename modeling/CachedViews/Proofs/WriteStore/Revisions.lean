import CachedViews.Proofs.WriteStore.Edges
import CachedViews.Registry.Basic

/-!
Current records and the revisions behind them. A commit adds one revision to one entity,
makes it current, and leaves every other entity as it was.
-/
namespace CachedViews

namespace EntityWrite

/-- What a write puts under a name. A named sheet that goes by the name of the default sheet
takes its place. -/
def sheet? (write : EntityWrite) (name : String) : Option Properties :=
  (write.sheets.get? name).or (if name = defaultSheet then some write.properties else none)

theorem sheet?_default (write : EntityWrite) :
    write.sheet? defaultSheet = some ((write.sheets.get? defaultSheet).getD write.properties) := by
  rw [sheet?, if_pos rfl]
  cases write.sheets.get? defaultSheet <;> rfl

theorem sheet?_named (write : EntityWrite) {name : String} (apart : name ≠ defaultSheet) :
    write.sheet? name = write.sheets.get? name := by
  rw [sheet?, if_neg apart, Option.or_none]

end EntityWrite

namespace EntityRow

theorem current?_defaultSheet (row : EntityRow) :
    row.current? defaultSheet = row.history.getLast? := by
  simp [current?, history, List.getLast?_map]

/-- The current sheet is among the retained ones. -/
theorem get?_of_current (row : EntityRow) {name : String} {revision : Revision}
    (current : row.current? name = some revision) :
    (row.rows name).get? revision.sid = some revision.properties := by
  obtain ⟨entry, last, rfl⟩ := Option.map_eq_some_iff.mp current
  exact (SortedMap.mem_entries_iff _ _ _).mp (List.mem_of_getLast? last)

theorem mem_history_iff (row : EntityRow) (revision : Revision) :
    revision ∈ row.history ↔
      (revision.sid, revision.properties) ∈ (row.rows defaultSheet).entries := by
  simp only [history, List.mem_map, Prod.exists]
  constructor
  · rintro ⟨sid, properties, inside, rfl⟩
    exact inside
  · intro inside
    exact ⟨_, _, inside, rfl⟩

/-- A row with a higher stamp than every other comes last. -/
theorem entries_insert_later {rows : SheetRows} {sid : Sid} (properties : Properties)
    (above : ∀ entry ∈ rows.entries, entry.1 < sid) :
    (rows.insert sid properties).entries = rows.entries ++ [(sid, properties)] :=
  Entries.insert_eq_append fun entry inside => Int.compare_eq_lt.mpr (above entry inside)

theorem history_writeSheet {row : EntityRow} {sid : Sid} (properties : Properties)
    (above : ∀ revision ∈ row.history, revision.sid < sid) :
    (row.writeSheet sid defaultSheet properties).history =
      row.history ++ [⟨sid, properties⟩] := by
  have later : ∀ entry ∈ (row.rows defaultSheet).entries, entry.1 < sid := fun entry inside =>
    above ⟨entry.1, entry.2⟩ ((row.mem_history_iff _).mpr inside)
  have rows : (row.writeSheet sid defaultSheet properties).rows defaultSheet =
      (row.rows defaultSheet).insert sid properties := by
    simp [writeSheet, EntityRow.rows, SortedMap.getD]
  simp only [history, rows, entries_insert_later properties later, List.map_append,
    List.map_cons, List.map_nil]

theorem writeSheets_default {write : EntityWrite} (row : EntityRow) (sid : Sid)
    (single : write.sheets = {}) :
    row.writeSheets sid write = row.writeSheet sid defaultSheet write.properties := by
  rw [writeSheets, single]
  rfl

theorem rows_writeSheet (row : EntityRow) (sid : Sid) (sheet name : String)
    (properties : Properties) :
    (row.writeSheet sid sheet properties).rows name =
      if name = sheet then (row.rows name).insert sid properties else row.rows name := by
  simp only [writeSheet, rows, SortedMap.getD, SortedMap.get?_insert_eq]
  by_cases same : name = sheet
  · subst same
    simp
  · simp [same]

/-- Sheets written one after the other, each once. -/
theorem rows_writeEach {sheets : List (String × Properties)} (sorted : Entries.Sorted sheets)
    (row : EntityRow) (sid : Sid) (name : String) :
    (sheets.foldl (fun row sheet => row.writeSheet sid sheet.1 sheet.2) row).rows name =
      match Entries.get? name sheets with
      | some properties => (row.rows name).insert sid properties
      | none => row.rows name := by
  induction sheets generalizing row with
  | nil => rfl
  | cons first rest ih =>
    obtain ⟨above, tail⟩ := List.pairwise_cons.mp sorted
    rw [List.foldl_cons, ih tail, rows_writeSheet]
    by_cases same : name = first.1
    · subst same
      simp [Entries.get?, Entries.get?_eq_none_of_above above]
    · have apart : compare name first.1 ≠ .eq := fun hit => same (compare_eq_iff.mp hit)
      simp [Entries.get?, apart, same]

theorem rows_writeSheets (row : EntityRow) (sid : Sid) (write : EntityWrite) (name : String) :
    (row.writeSheets sid write).rows name =
      match write.sheet? name with
      | some properties => (row.rows name).insert sid properties
      | none => row.rows name := by
  rw [writeSheets, rows_writeEach write.sheets.sorted, rows_writeSheet, EntityWrite.sheet?]
  change (match write.sheets.get? name with
    | some properties => _
    | none => _) = _
  by_cases same : name = defaultSheet
  · cases write.sheets.get? name with
    | none => simp [same]
    | some properties => simp [same, SortedMap.insert_insert]
  · cases write.sheets.get? name <;> simp [same]

/-- Writing sheets touches nothing else of a row. -/
theorem writeSheets_eq (row : EntityRow) (sid : Sid) (write : EntityWrite) :
    row.writeSheets sid write = { row with sheets := (row.writeSheets sid write).sheets } := by
  have each : ∀ (sheets : List (String × Properties)) (start : EntityRow),
      sheets.foldl (fun row sheet => row.writeSheet sid sheet.1 sheet.2) start =
        { start with sheets :=
          (sheets.foldl (fun row sheet => row.writeSheet sid sheet.1 sheet.2) start).sheets } := by
    intro sheets
    induction sheets with
    | nil => exact fun start => rfl
    | cons first rest ih => exact fun start => ih (start.writeSheet sid first.1 first.2)
  exact each write.sheets.entries _

/-- Revisions come in the order of their stamps. -/
theorem history_sorted (row : EntityRow) :
    row.history.Pairwise fun earlier later => earlier.sid < later.sid := by
  refine List.pairwise_map.mpr ((row.rows defaultSheet).sorted.imp ?_)
  intro a b less
  exact Int.compare_eq_lt.mp less

end EntityRow

namespace WriteStore

/-- The record that a row stands for at one of its revisions. -/
def recordAt (uuid : Uuid) (row : EntityRow) (revision : Revision) : EntityRecord :=
  ⟨uuid, row.itemType, revision.sid, revision.properties, row.links, row.uniqueKeys⟩

theorem record?_eq (store : WriteStore) (uuid : Uuid) :
    store.record? uuid =
      (store.rows.get? uuid).bind fun row => row.history.getLast?.map (recordAt uuid row) := by
  unfold record?
  cases store.rows.get? uuid with
  | none => rfl
  | some row =>
    simp only [bind, Option.bind, EntityRow.current?_defaultSheet]
    cases row.history.getLast? <;> rfl

theorem record?_of_row {store : WriteStore} {uuid : Uuid} {row : EntityRow} {revision : Revision}
    (found : store.rows.get? uuid = some row) (last : row.history.getLast? = some revision) :
    store.record? uuid = some (recordAt uuid row revision) := by
  simp [record?_eq, found, last]

theorem row_of_record? {store : WriteStore} {uuid : Uuid} {record : EntityRecord}
    (found : store.record? uuid = some record) :
    ∃ row revision, store.rows.get? uuid = some row ∧ row.history.getLast? = some revision ∧
      record = recordAt uuid row revision := by
  rw [record?_eq] at found
  obtain ⟨row, stored, last⟩ := Option.bind_eq_some_iff.mp found
  obtain ⟨revision, last, same⟩ := Option.map_eq_some_iff.mp last
  exact ⟨row, revision, stored, last, same.symm⟩

theorem record?_uuid {store : WriteStore} {uuid : Uuid} {record : EntityRecord}
    (found : store.record? uuid = some record) : record.uuid = uuid := by
  obtain ⟨_, _, -, -, rfl⟩ := row_of_record? found
  rfl

theorem itemTypeOf_of_record? {store : WriteStore} {uuid : Uuid} {record : EntityRecord}
    (found : store.record? uuid = some record) :
    store.itemTypeOf uuid = some record.itemType := by
  obtain ⟨row, _, stored, -, rfl⟩ := row_of_record? found
  simp [itemTypeOf, stored, recordAt]

theorem currentSid?_eq (store : WriteStore) (uuid : Uuid) :
    store.currentSid? uuid = (store.record? uuid).map EntityRecord.sid := by
  rw [record?_eq]
  unfold currentSid?
  cases store.rows.get? uuid with
  | none => rfl
  | some row =>
    simp only [bind, Option.bind, EntityRow.current?_defaultSheet]
    cases row.history.getLast? <;> rfl

theorem currentSids_get? (store : WriteStore) {uuids : List Uuid} {uuid : Uuid}
    (listed : uuid ∈ uuids) :
    (store.currentSids uuids).get? uuid = (store.record? uuid).map EntityRecord.sid := by
  rw [currentSids, SortedMap.get?_ofList_filterMap _ _ _ listed, currentSid?_eq]

/-- The row that a commit writes. -/
def committedRow (store : WriteStore) (row : EntityRow) (write : EntityWrite) : EntityRow :=
  { row.writeSheets store.nextSid write with links := write.links, uniqueKeys := write.uniqueKeys }

theorem commit_rows (store : WriteStore) (uuid : Uuid) (row : EntityRow) (write : EntityWrite) :
    (store.commit uuid row write).2.rows =
      store.rows.insert uuid (store.committedRow row write) := rfl

theorem committedRow_history {store : WriteStore} {row : EntityRow} {write : EntityWrite}
    (single : write.sheets = {})
    (bounded : ∀ revision ∈ row.history, revision.sid ≤ store.maxSid) :
    (store.committedRow row write).history =
      row.history ++ [⟨store.nextSid, write.properties⟩] := by
  have above : ∀ revision ∈ row.history, revision.sid < store.nextSid := fun revision inside =>
    Int.lt_add_one_of_le (bounded revision inside)
  rw [← EntityRow.history_writeSheet write.properties above, committedRow,
    row.writeSheets_default _ single]
  rfl

theorem committedRow_itemType (store : WriteStore) (row : EntityRow) (write : EntityWrite) :
    (store.committedRow row write).itemType = row.itemType := by
  rw [committedRow, row.writeSheets_eq]

theorem committedRow_createdSid (store : WriteStore) (row : EntityRow) (write : EntityWrite) :
    (store.committedRow row write).createdSid = row.createdSid := by
  rw [committedRow, row.writeSheets_eq]

/-- The record that a commit makes current. -/
def committedRecord (store : WriteStore) (uuid : Uuid) (itemType : ItemType)
    (write : EntityWrite) : EntityRecord :=
  ⟨uuid, itemType, store.nextSid, write.properties, write.links, write.uniqueKeys⟩

theorem commit_record? {store : WriteStore} {uuid : Uuid} {row : EntityRow} {write : EntityWrite}
    (single : write.sheets = {})
    (bounded : ∀ revision ∈ row.history, revision.sid ≤ store.maxSid) (other : Uuid) :
    (store.commit uuid row write).2.record? other =
      if other = uuid then some (store.committedRecord uuid row.itemType write)
      else store.record? other := by
  by_cases same : other = uuid
  · subst same
    have found : (store.commit other row write).2.rows.get? other =
        some (store.committedRow row write) := by
      simp [commit_rows]
    have last : (store.committedRow row write).history.getLast? =
        some ⟨store.nextSid, write.properties⟩ := by
      simp [committedRow_history single bounded]
    rw [record?_of_row found last, if_pos rfl, recordAt, committedRow_itemType]
    rfl
  · simp [record?_eq, commit_rows, SortedMap.get?_insert_eq, same]

end WriteStore

end CachedViews
