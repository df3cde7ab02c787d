import CachedViews.Proofs.WriteStore.Indexes

/-!
Stamps in a store. Those of retained sheets were handed out before, counted from one, and no two
entities were created under the same one. So the rows of a write come after all others.
-/
namespace CachedViews

namespace WriteStore

variable {store : WriteStore} {uuid : Uuid} {row : EntityRow} {write : EntityWrite}

theorem maxSid_lt_nextSid (store : WriteStore) : store.maxSid < store.nextSid :=
  Int.lt_add_one_of_le (Int.le_refl _)

theorem maxSid_le_nextSid (store : WriteStore) : store.maxSid ≤ store.nextSid :=
  Int.le_of_lt store.maxSid_lt_nextSid

/-- No two entities were created under one stamp. -/
def CreatedApart (store : WriteStore) : Prop :=
  ∀ left right leftRow rightRow, store.rows.get? left = some leftRow →
    store.rows.get? right = some rightRow → leftRow.createdSid = rightRow.createdSid → left = right

namespace CreatedApart

variable (apart : CreatedApart store)
include apart

theorem commit (single : ∀ other otherRow, store.rows.get? other = some otherRow →
    otherRow.createdSid = row.createdSid → other = uuid) (write : EntityWrite) :
    CreatedApart (store.commit uuid row write).2 := by
  intro left right leftRow rightRow foundLeft foundRight made
  rw [commit_rows, SortedMap.get?_insert_eq] at foundLeft foundRight
  -- Each of the two rows is the written one or an older one.
  split at foundLeft <;> split at foundRight
  · rename_i left right
    exact left.trans right.symm
  · rename_i left _
    cases foundLeft
    rw [committedRow_createdSid] at made
    exact left.trans (single right rightRow foundRight made.symm).symm
  · rename_i _ right
    cases foundRight
    rw [committedRow_createdSid] at made
    exact (single left leftRow foundLeft made).trans right.symm
  · exact apart left right leftRow rightRow foundLeft foundRight made

theorem removed (uuid : Uuid) (row : EntityRow) : CreatedApart (store.removed uuid row) := by
  intro left right leftRow rightRow foundLeft foundRight made
  simp only [WriteStore.removed, SortedMap.get?_erase_eq] at foundLeft foundRight
  split at foundLeft <;> split at foundRight
  · cases foundLeft
  · cases foundLeft
  · cases foundRight
  · exact apart left right leftRow rightRow foundLeft foundRight made

end CreatedApart

/-- Stamps of a row, of its creation and of every retained sheet, are at most `sid`. -/
structure StampedBy (sid : Sid) (row : EntityRow) : Prop where
  created : row.createdSid ≤ sid
  counted : ∀ name, ∀ entry ∈ (row.rows name).entries, 0 < entry.1
  sheets : ∀ name, ∀ entry ∈ (row.rows name).entries, entry.1 ≤ sid

theorem StampedBy.later (stamped : StampedBy store.maxSid row) (name : String) :
    ∀ entry ∈ (row.rows name).entries, entry.1 < store.nextSid := fun entry inside =>
  Int.lt_add_one_of_le (stamped.sheets name entry inside)

theorem rows_committedRow (store : WriteStore) (row : EntityRow) (write : EntityWrite)
    (name : String) :
    (store.committedRow row write).rows name =
      match write.sheet? name with
      | some properties => (row.rows name).insert store.nextSid properties
      | none => row.rows name :=
  row.rows_writeSheets store.nextSid write name

/-- The sheets that a write carries are current now, and the others stay so. -/
theorem current?_committedRow (write : EntityWrite) {name : String}
    (later : ∀ entry ∈ (row.rows name).entries, entry.1 < store.nextSid) :
    ((store.committedRow row write).current? name) =
      ((write.sheet? name).map (⟨store.nextSid, ·⟩)).or (row.current? name) := by
  simp only [EntityRow.current?, rows_committedRow]
  cases write.sheet? name with
  | none => rfl
  | some properties => simp [EntityRow.entries_insert_later properties later]

/-- A row of the written entity is an old one or has the next stamp. -/
theorem mem_committedRow {name : String}
    (later : ∀ entry ∈ (row.rows name).entries, entry.1 < store.nextSid)
    {entry : Sid × Properties}
    (inside : entry ∈ ((store.committedRow row write).rows name).entries) :
    entry ∈ (row.rows name).entries ∨ entry.1 = store.nextSid := by
  rw [rows_committedRow] at inside
  split at inside
  · rw [EntityRow.entries_insert_later _ later, List.mem_append, List.mem_singleton] at inside
    exact inside.imp_right (congrArg Prod.fst)
  · exact Or.inl inside

/-- The row that a write goes over: the stored one, or the one made for a new entity. -/
inductive Prior (store : WriteStore) (uuid : Uuid) : EntityRow → Prop where
  | stored {row : EntityRow} (found : store.rows.get? uuid = some row) : Prior store uuid row
  | new (vacant : store.rows.get? uuid = none) (itemType : ItemType) :
    Prior store uuid ⟨itemType, store.nextSid, {}, {}, {}⟩

theorem Prior.continues (prior : Prior store uuid row) : Continues store uuid row := by
  cases prior with
  | stored found => exact Or.inl found
  | new vacant itemType => exact Or.inr ⟨vacant, rfl, rfl⟩

structure Stamped (store : WriteStore) : Prop where
  counted : 0 ≤ store.maxSid
  rows : ∀ uuid row, store.rows.get? uuid = some row → StampedBy store.maxSid row
  apart : CreatedApart store

namespace Prior

variable (prior : Prior store uuid row) (stamped : Stamped store)
include prior stamped

theorem later (name : String) : ∀ entry ∈ (row.rows name).entries, entry.1 < store.nextSid := by
  cases prior with
  | stored found => exact (stamped.rows uuid row found).later name
  | new vacant itemType => exact fun entry inside => absurd inside List.not_mem_nil

theorem counted (name : String) : ∀ entry ∈ (row.rows name).entries, 0 < entry.1 := by
  cases prior with
  | stored found => exact (stamped.rows uuid row found).counted name
  | new vacant itemType => exact fun entry inside => absurd inside List.not_mem_nil

theorem created : row.createdSid ≤ store.nextSid := by
  cases prior with
  | stored found => exact Int.le_trans (stamped.rows uuid row found).created store.maxSid_le_nextSid
  | new vacant itemType => exact Int.le_refl _

/-- No other entity was created under the same stamp. -/
theorem single {other : Uuid} {otherRow : EntityRow} (found : store.rows.get? other = some otherRow)
    (made : otherRow.createdSid = row.createdSid) : other = uuid := by
  cases prior with
  | stored here => exact stamped.apart other uuid otherRow row found here made
  | new vacant itemType =>
    have bound := (stamped.rows other otherRow found).created
    rw [made] at bound
    exact absurd store.maxSid_lt_nextSid (Int.not_lt.mpr bound)

end Prior

namespace Stamped

theorem empty : Stamped .empty where
  counted := Int.le_refl 0
  rows uuid row found := by cases found
  apart left right leftRow rightRow found := by cases found

variable (stamped : Stamped store)
include stamped

theorem committed (prior : Prior store uuid row) (write : EntityWrite) :
    Stamped (store.commit uuid row write).2 where
  counted := Int.le_trans stamped.counted store.maxSid_le_nextSid
  rows other otherRow found := by
    rw [commit_rows, SortedMap.get?_insert_eq] at found
    split at found
    · cases found
      have later := prior.later stamped
      refine ⟨?_, fun name entry inside => ?_, fun name entry inside => ?_⟩
      · rw [committedRow_createdSid]
        exact prior.created stamped
      · rcases mem_committedRow (later name) inside with old | next
        · exact prior.counted stamped name entry old
        · exact next ▸ Int.lt_of_le_of_lt stamped.counted store.maxSid_lt_nextSid
      · rcases mem_committedRow (later name) inside with old | next
        · exact Int.le_of_lt (later name entry old)
        · exact Int.le_of_eq next
    · have old := stamped.rows other otherRow found
      exact ⟨Int.le_trans old.created store.maxSid_le_nextSid, old.counted,
        fun name entry inside => Int.le_of_lt (old.later name entry inside)⟩
  apart := stamped.apart.commit (fun _ _ found made => prior.single stamped found made) write

theorem removed (uuid : Uuid) (row : EntityRow) : Stamped (store.removed uuid row) where
  counted := stamped.counted
  rows other otherRow found := by
    rw [WriteStore.removed, SortedMap.get?_erase_eq] at found
    split at found
    · cases found
    · exact stamped.rows other otherRow found
  apart := stamped.apart.removed uuid row

end Stamped

end WriteStore

end CachedViews
