import CachedViews.Proofs.WriteStore.Sheets
import CachedViews.Proofs.WriteStore.Tables

/-!
One transaction on the tables. Where the tables stand for rows, every write has the answer of the
rows and leaves tables that stand for the new rows, a write that is refused leaves tables and
sequence as they were, and every read has the answer of the rows and leaves everything.
-/
namespace CachedViews

/-- A number of the upper half comes round only past the greatest. -/
theorem Width.wrapSigned_of_lt {n : Int} (above : 0 < n) (below : n < Width.values 63) :
    Width.wrapSigned 64 n = n := by
  have width : ((values 64 : Nat) : Int) = 2 * values 63 := by decide
  refine Int.bmod_eq_of_le_mul_two ?_ ?_ <;> rw [width] <;> omega

namespace WriteTables.Mirrors

open WriteStore (Stamped)

variable {tables : WriteTables} {store : WriteStore} (mirrors : Mirrors tables store)
include mirrors

theorem places_eq :
    (tables.resources.entries.map fun entry => (entry.1, entry.2.itemType, entry.2.createdSid)) =
      store.places := by
  refine Entries.eq_of_get? (Entries.sorted_map (fun _ (row : ResourceRow) =>
    (row.itemType, row.createdSid)) tables.resources.sorted) store.places_sorted fun uuid => ?_
  rw [WriteStore.places_get?, Entries.get?_map_value uuid
    (fun row : ResourceRow => (row.itemType, row.createdSid))]
  have held := mirrors.resources uuid
  rw [SortedMap.get?] at held
  rw [held, Option.map_map]
  rfl

end WriteTables.Mirrors

/-- How a call ends and the store that it leaves. -/
def Transaction.on {α : Type} (transaction : Transaction α) (store : TableStore) :
    Except StorageError α × TableStore :=
  transaction.run.run store

namespace TableStore

open Transaction

variable {store : TableStore} (available : store.available = true)
include available

theorem locked_bind_on {α : Type} (next : WriteTables → Transaction α) :
    (locked >>= next).on store = (next store.tables).on store := by
  obtain ⟨tables, sequence, _⟩ := store
  cases available
  rfl

theorem create_on (uuid : Uuid) (itemType : ItemType) (write : EntityWrite) :
    (create uuid itemType write).on store =
      if store.tables.resources.contains uuid then (.error (.uuidConflict uuid), store)
      else
        match store.tables.keyConflicts uuid write.uniqueKeys with
        | [] =>
          let (sid, sequence) := store.sequence.next
          let placed := { store.tables with
            resources := store.tables.resources.insert uuid ⟨itemType, sid⟩ }
          (.ok sid, { store with tables := placed.apply uuid sid write, sequence })
        | conflicts => (.error (.keyConflict conflicts), store) := by
  rw [create, locked_bind_on available]
  split
  · rfl
  · cases store.tables.keyConflicts uuid write.uniqueKeys <;> rfl

theorem update_on (uuid : Uuid) (write : EntityWrite) (base : Option Sid) :
    (update uuid write base).on store =
      if store.tables.resources.contains uuid then
        let current := store.tables.current.getD (uuid, defaultSheet) 0
        match base.filter (· ≠ current) with
        | some expected => (.error (.staleWrite uuid expected current), store)
        | none =>
          match store.tables.keyConflicts uuid write.uniqueKeys with
          | [] =>
            let (sid, sequence) := store.sequence.next
            (.ok sid, { store with tables := store.tables.apply uuid sid write, sequence })
          | conflicts => (.error (.keyConflict conflicts), store)
      else (.error (.notFound uuid), store) := by
  rw [update, locked_bind_on available]
  split
  · dsimp only
    cases base.filter (· ≠ store.tables.current.getD (uuid, defaultSheet) 0) with
    | some expected => rfl
    | none => cases store.tables.keyConflicts uuid write.uniqueKeys <;> rfl
  · rfl

theorem purge_on (uuid : Uuid) :
    (purge uuid).on store =
      if store.tables.resources.contains uuid then
        match (store.tables.linkedFrom uuid).toList with
        | [] => (.ok (), { store with tables := store.tables.remove uuid })
        | linkedFrom => (.error (.referentialIntegrity uuid linkedFrom), store)
      else (.error (.notFound uuid), store) := by
  rw [purge, locked_bind_on available]
  split
  · cases (store.tables.linkedFrom uuid).toList <;> rfl
  · rfl

omit available

/-- The store stands for rows: its tables hold the same, and its sequence goes on after the highest
stamp. -/
structure Represents (store : TableStore) (rows : WriteStore) : Prop where
  mirrors : WriteTables.Mirrors store.tables rows
  stamped : WriteStore.Stamped rows
  sequence : store.sequence.current = rows.maxSid

theorem Represents.empty : Represents .empty .empty := ⟨.empty, .empty, rfl⟩

/-- A transaction and what it means for rows: the same answer, and a store that stands for the new
rows; or the same refusal, and everything as it was. -/
def Agree {Answer : Type} (store : TableStore) (outcome : Except StorageError Answer × TableStore)
    (model : Except StorageError (Answer × WriteStore)) : Prop :=
  (∃ answer next rows, outcome = (.ok answer, next) ∧ model = .ok (answer, rows) ∧
    next.available = store.available ∧ Represents next rows) ∨
  ∃ error, outcome = (.error error, store) ∧ model = .error error

namespace Represents

variable {rows : WriteStore} (represents : Represents store rows)
include represents

/-- The sequence does not come round before the greatest stamp. -/
theorem next_eq (room : rows.nextSid < Width.values 63) :
    store.sequence.next = (rows.nextSid, ⟨rows.nextSid⟩) := by
  have within := Width.wrapSigned_of_lt
    (Int.lt_of_le_of_lt represents.stamped.counted rows.maxSid_lt_nextSid) room
  rw [WriteStore.nextSid] at within
  rw [Sequence.next, represents.sequence, within, WriteStore.nextSid]

variable (available : store.available = true) {uuid : Uuid} {write : EntityWrite}

theorem applied {row : EntityRow} (prior : WriteStore.Prior rows uuid row)
    {resources : SortedMap Uuid ResourceRow}
    (placed : ∀ other, resources.get? other =
      if other = uuid then some ⟨row.itemType, row.createdSid⟩
      else store.tables.resources.get? other) :
    Represents ⟨WriteTables.apply { store.tables with resources } uuid rows.nextSid write,
      ⟨rows.nextSid⟩, store.available⟩ (rows.commit uuid row write).2 where
  mirrors := represents.mirrors.applied represents.stamped prior placed write
  stamped := represents.stamped.committed prior write
  sequence := rfl

include available

theorem create_agree {itemType : ItemType} (room : ∀ sid next,
    rows.create uuid itemType write = .ok (sid, next) → next.maxSid < Width.values 63) :
    Agree store ((create uuid itemType write).on store) (rows.create uuid itemType write) := by
  rw [WriteStore.create] at room
  rw [create_on available, WriteStore.create, represents.mirrors.contains_eq,
    represents.mirrors.keyConflicts_eq]
  by_cases taken : rows.contains uuid = true
  · rw [if_pos taken, if_pos taken]
    exact Or.inr ⟨_, rfl, rfl⟩
  · rw [if_neg taken] at room
    have vacant : rows.rows.get? uuid = none := by
      simpa [WriteStore.contains, SortedMap.contains] using taken
    rw [if_neg taken, if_neg taken]
    cases free : rows.keyConflicts uuid write.uniqueKeys with
    | cons key rest => exact Or.inr ⟨_, rfl, rfl⟩
    | nil =>
      rw [free] at room
      rw [represents.next_eq (room _ _ rfl)]
      refine Or.inl ⟨_, _, _, rfl, rfl, rfl, ?_⟩
      exact represents.applied (.new vacant itemType) fun other => SortedMap.get?_insert_eq _ _ _ _

theorem update_agree {base : Option Sid} (room : ∀ sid next,
    rows.update uuid write base = .ok (sid, next) → next.maxSid < Width.values 63) :
    Agree store ((update uuid write base).on store) (rows.update uuid write base) := by
  rw [WriteStore.update_eq] at room
  rw [update_on available, WriteStore.update_eq, represents.mirrors.contains_eq,
    represents.mirrors.keyConflicts_eq, WriteStore.contains, SortedMap.contains, SortedMap.getD,
    represents.mirrors.currentSid_eq]
  cases found : rows.rows.get? uuid with
  | none => exact Or.inr ⟨_, rfl, rfl⟩
  | some row =>
    rw [found] at room
    rw [Option.isSome_some, if_pos rfl]
    dsimp only at room ⊢
    cases fits : base.filter fun sid => decide (sid ≠ (rows.currentSid? uuid).getD 0) with
    | some expected => exact Or.inr ⟨_, rfl, rfl⟩
    | none =>
      rw [fits] at room
      cases free : rows.keyConflicts uuid write.uniqueKeys with
      | cons key rest => exact Or.inr ⟨_, rfl, rfl⟩
      | nil =>
        rw [free] at room
        rw [represents.next_eq (room _ _ rfl)]
        refine Or.inl ⟨_, _, _, rfl, rfl, rfl, represents.applied (.stored found) fun other => ?_⟩
        split
        · rename_i same
          rw [same, represents.mirrors.resources, found]
          rfl
        · rfl

theorem purge_agree (uuid : Uuid) :
    Agree store ((purge uuid).on store) ((rows.purge uuid).map fun next => ((), next)) := by
  rw [purge_on available, WriteStore.purge, represents.mirrors.contains_eq,
    represents.mirrors.linkedFrom_eq, WriteStore.contains, SortedMap.contains]
  cases found : rows.rows.get? uuid with
  | none => exact Or.inr ⟨_, rfl, rfl⟩
  | some row =>
    rw [Option.isSome_some, if_pos rfl]
    dsimp only
    cases (rows.linkedFrom uuid).toList with
    | cons source rest => exact Or.inr ⟨_, rfl, rfl⟩
    | nil =>
      refine Or.inl ⟨(), _, rows.removed uuid row, rfl, rfl, rfl, ?_⟩
      exact ⟨represents.mirrors.removed found, represents.stamped.removed uuid row,
        represents.sequence⟩

end Represents

/-- The answers of all reads, none of which changes anything. -/
structure AnswersAs (store : TableStore) (ledger : Ledger) : Prop where
  record : ∀ uuid, (TableStore.record uuid).on store = (ledger.get uuid, store)
  recordByKey : ∀ key, (TableStore.recordByKey key).on store = (ledger.getByUniqueKey key, store)
  keyOwners : ∀ keys, (TableStore.keyOwners keys).on store = (.ok (ledger.keyOwners keys), store)
  sheet : ∀ uuid name, (TableStore.sheet uuid name).on store = (ledger.sheet uuid name, store)
  history : ∀ uuid, (TableStore.history uuid).on store = (ledger.history uuid, store)
  revLinks : ∀ uuid, (TableStore.revLinks uuid).on store = (.ok (ledger.revLinks uuid), store)
  maxSid : TableStore.maxSid.on store = (.ok ledger.highest, store)
  currentSids : ∀ uuids,
    (TableStore.currentSids uuids).on store = (.ok (ledger.currentSids uuids), store)
  itemTypeOf : ∀ uuid, (TableStore.itemTypeOf uuid).on store = (.ok (ledger.itemTypeOf uuid), store)
  list : ∀ types, (TableStore.list types).on store = (.ok (ledger.list types), store)

namespace Represents

variable {rows : WriteStore} (represents : Represents store rows)
  (available : store.available = true)
include represents available

theorem record_on (uuid : Uuid) : (record uuid).on store = (rows.get uuid, store) := by
  rw [record, locked_bind_on available, represents.mirrors.record_eq]
  cases rows.get uuid <;> rfl

theorem recordByKey_on (key : UniqueKey) :
    (recordByKey key).on store = (rows.getByUniqueKey key, store) := by
  rw [recordByKey, locked_bind_on available, represents.mirrors.owners, WriteStore.getByUniqueKey]
  cases rows.owners.get? key with
  | none => rfl
  | some owner =>
    dsimp only
    rw [represents.mirrors.record_eq]
    cases rows.get owner <;> rfl

theorem keyOwners_on (keys : List UniqueKey) :
    (keyOwners keys).on store = (.ok (rows.keyOwners keys), store) := by
  rw [keyOwners, locked_bind_on available, represents.mirrors.owners]
  rfl

theorem sheet_on (uuid : Uuid) (name : String) :
    (sheet uuid name).on store = (rows.sheet uuid name, store) := by
  rw [sheet, locked_bind_on available, represents.mirrors.contains_eq, WriteStore.contains,
    SortedMap.contains, WriteStore.sheet]
  cases found : rows.rows.get? uuid with
  | none => rfl
  | some row =>
    rw [Option.isSome_some, if_pos rfl, represents.mirrors.sheet_eq found]
    rfl

theorem history_on (room : rows.maxSid < Width.values 63) (uuid : Uuid) :
    (history uuid).on store = (rows.history uuid, store) := by
  rw [history, locked_bind_on available, represents.mirrors.contains_eq, WriteStore.contains,
    SortedMap.contains, WriteStore.history]
  cases found : rows.rows.get? uuid with
  | none => rfl
  | some row =>
    rw [Option.isSome_some, if_pos rfl, represents.mirrors.history_eq represents.stamped room found]
    rfl

theorem revLinks_on (uuid : Uuid) :
    (revLinks uuid).on store = (.ok (rows.revLinks uuid), store) := by
  rw [revLinks, locked_bind_on available, represents.mirrors.edges]
  rfl

theorem maxSid_on : maxSid.on store = (.ok rows.maxSid, store) := by
  rw [maxSid, locked_bind_on available, represents.mirrors.maxSid]
  rfl

theorem currentSids_on (uuids : List Uuid) :
    (currentSids uuids).on store = (.ok (rows.currentSids uuids), store) := by
  rw [currentSids, locked_bind_on available]
  simp only [represents.mirrors.currentSid_eq]
  rfl

theorem itemTypeOf_on (uuid : Uuid) :
    (itemTypeOf uuid).on store = (.ok (rows.itemTypeOf uuid), store) := by
  rw [itemTypeOf, locked_bind_on available, represents.mirrors.resources, Option.map_map]
  rfl

theorem list_on (types : Option (List ItemType)) :
    (list types).on store = (.ok (rows.list types), store) := by
  rw [list, locked_bind_on available, WriteStore.list_eq_sorted represents.stamped.apart,
    ← represents.mirrors.places_eq, List.filter_map, List.map_map]
  rfl

end Represents

end TableStore

end CachedViews
