import CachedViews.Proofs.Running
import CachedViews.Proofs.WriteStore.Ledger
import CachedViews.Proofs.WriteStore.Stamped
import CachedViews.Service.Entities

/-!
The write store answers as its ledger does. A row and a ledger entry hold the same; writes and
purges keep them so, and every refusal and every read then comes out alike.
-/
namespace CachedViews

namespace LedgerEntry

variable (entry : LedgerEntry) (sid : Sid) (write : EntityWrite)

theorem write_sheets_get? (name : String) :
    (entry.write sid write).sheets.get? name =
      (write.sheets.get? name).or (entry.sheets.get? name) :=
  SortedMap.get?_insertEach write.sheets.sorted entry.sheets name

end LedgerEntry

namespace Ledger

variable {ledger : Ledger}

theorem heldByOther_iff (ledger : Ledger) (uuid : Uuid) (key : UniqueKey) :
    ledger.heldByOther uuid key = true ↔
      ∃ owner, owner ≠ uuid ∧
        ∃ entry, ledger.entities.get? owner = some entry ∧ key ∈ entry.uniqueKeys := by
  simp only [heldByOther, List.any_eq_true, decide_eq_true_eq, Prod.exists,
    SortedMap.mem_entries_iff]
  constructor
  · rintro ⟨owner, entry, found, apart, inside⟩
    exact ⟨owner, apart, entry, found, inside⟩
  · rintro ⟨owner, apart, entry, found, inside⟩
    exact ⟨owner, entry, found, apart, inside⟩

theorem mem_linkingTo_iff (ledger : Ledger) (uuid source : Uuid) :
    source ∈ ledger.linkingTo uuid ↔
      source ≠ uuid ∧
        ∃ entry, ledger.entities.get? source = some entry ∧
          ∃ link ∈ entry.links, link.target = uuid := by
  simp only [linkingTo, SortedMap.keys, SortedMap.filter, List.mem_map, List.mem_filter,
    Prod.exists, SortedMap.mem_entries_iff, Bool.and_eq_true, List.any_eq_true,
    decide_eq_true_eq, SortedSet.mem_def]
  constructor
  · rintro ⟨_, entry, ⟨found, apart, link, inside, reached⟩, rfl⟩
    exact ⟨apart, entry, found, link, inside, reached⟩
  · rintro ⟨apart, entry, found, link, inside, reached⟩
    exact ⟨source, entry, ⟨found, apart, link, inside, reached⟩, rfl⟩

theorem mem_edges_iff (ledger : Ledger) (edge : LinkEdge) :
    edge ∈ ledger.edges ↔
      ∃ entry, ledger.entities.get? edge.source = some entry ∧ edge.link ∈ entry.links := by
  simp only [edges, List.mem_flatMap, List.mem_map, Prod.exists, SortedMap.mem_entries_iff,
    SortedSet.mem_def]
  constructor
  · rintro ⟨source, entry, found, link, inside, rfl⟩
    exact ⟨entry, found, inside⟩
  · rintro ⟨entry, found, inside⟩
    exact ⟨edge.source, entry, found, edge.link, inside, rfl⟩

def places (ledger : Ledger) : List (Uuid × ItemType × Sid) :=
  ledger.entities.entries.map fun entry => (entry.1, entry.2.itemType, entry.2.createdSid)

theorem places_sorted (ledger : Ledger) : Entries.Sorted ledger.places :=
  Entries.sorted_map (fun _ (entry : LedgerEntry) => (entry.itemType, entry.createdSid))
    ledger.entities.sorted

theorem places_get? (ledger : Ledger) (uuid : Uuid) :
    Entries.get? uuid ledger.places =
      (ledger.entities.get? uuid).map fun entry => (entry.itemType, entry.createdSid) :=
  Entries.get?_map_value uuid (fun entry : LedgerEntry => (entry.itemType, entry.createdSid)) _

theorem list_eq_sorted (ledger : Ledger) (types : Option (List ItemType)) :
    ledger.list types =
      (((ledger.places.filter fun place => WriteStore.isSelected types place.2.1).map
        fun place => (place.2.1, place.2.2, place.1)).mergeSort
          fun a b => (compare a b).isLE).map fun place => ⟨place.1, place.2.2⟩ := by
  rw [list, places, List.filter_map, List.map_map]
  rfl

/-- Looking through the entries finds an owner, when every key has at most one. -/
theorem owner?_eq_some_iff {key : UniqueKey} {owner : Uuid}
    (single : ∀ left right leftEntry rightEntry, ledger.entities.get? left = some leftEntry →
      key ∈ leftEntry.uniqueKeys → ledger.entities.get? right = some rightEntry →
      key ∈ rightEntry.uniqueKeys → left = right) :
    ledger.owner? key = some owner ↔
      ∃ entry, ledger.entities.get? owner = some entry ∧ key ∈ entry.uniqueKeys := by
  simp only [owner?, Option.map_eq_some_iff, Prod.exists]
  constructor
  · rintro ⟨_, entry, found, rfl⟩
    exact ⟨entry, (SortedMap.mem_entries_iff _ _ _).mp (List.mem_of_find?_eq_some found),
      by simpa using List.find?_some found⟩
  · rintro ⟨entry, found, inside⟩
    have some : (ledger.entities.entries.find? fun entity =>
        decide (key ∈ entity.2.uniqueKeys)).isSome := by
      rw [List.find?_isSome]
      exact ⟨(owner, entry), (SortedMap.mem_entries_iff _ _ _).mpr found, by simpa using inside⟩
    obtain ⟨⟨holder, held⟩, first⟩ := Option.isSome_iff_exists.mp some
    have listed := (SortedMap.mem_entries_iff _ _ _).mp (List.mem_of_find?_eq_some first)
    have holding : key ∈ held.uniqueKeys := by simpa using List.find?_some first
    cases single holder owner held entry listed holding found inside
    exact ⟨owner, held, first, rfl⟩

end Ledger

namespace WriteStore

/-- A row holds what a ledger entry says. -/
structure Matches (row : EntityRow) (entry : LedgerEntry) : Prop where
  itemType : row.itemType = entry.itemType
  createdSid : row.createdSid = entry.createdSid
  history : row.history = entry.revisions
  sheets : ∀ name, name ≠ defaultSheet →
    (row.current? name).map Revision.properties = entry.sheets.get? name
  links : row.links = entry.links
  uniqueKeys : row.uniqueKeys = entry.uniqueKeys

structure Refines (store : WriteStore) (ledger : Ledger) : Prop where
  rows : ∀ uuid, store.rows.get? uuid = none ∧ ledger.entities.get? uuid = none ∨
    ∃ row entry, store.rows.get? uuid = some row ∧ ledger.entities.get? uuid = some entry ∧
      Matches row entry
  highest : store.maxSid = ledger.highest
  available : store.available = true
  indexed : Indexed store
  stamped : Stamped store

section Commit

variable {store : WriteStore} {row : EntityRow} {entry : LedgerEntry} {write : EntityWrite}

/-- A write adds the same to a row and to the entry that it holds. -/
theorem Matches.committed (same : Matches row entry) (named : write.sheets.get? defaultSheet = none)
    (later : ∀ name, ∀ entry ∈ (row.rows name).entries, entry.1 < store.nextSid) :
    Matches (store.committedRow row write) (entry.write store.nextSid write) where
  itemType := (committedRow_itemType store row write).trans same.itemType
  createdSid := (committedRow_createdSid store row write).trans same.createdSid
  history := by
    simp only [EntityRow.history, rows_committedRow, write.sheet?_default, named, Option.getD_none,
      EntityRow.entries_insert_later write.properties (later defaultSheet), List.map_append,
      List.map_cons, List.map_nil]
    rw [← EntityRow.history, same.history]
    rfl
  sheets name apart := by
    rw [entry.write_sheets_get?, ← same.sheets name apart, current?_committedRow write (later name),
      write.sheet?_named apart, Option.map_or, Option.map_map]
    cases write.sheets.get? name <;> rfl
  links := rfl
  uniqueKeys := rfl

end Commit

/-- What `list` looks at, entity by entity. -/
def places (store : WriteStore) : List (Uuid × ItemType × Sid) :=
  store.rows.entries.map fun entry => (entry.1, entry.2.itemType, entry.2.createdSid)

theorem places_sorted (store : WriteStore) : Entries.Sorted store.places :=
  Entries.sorted_map (fun _ (row : EntityRow) => (row.itemType, row.createdSid)) store.rows.sorted

theorem places_get? (store : WriteStore) (uuid : Uuid) :
    Entries.get? uuid store.places =
      (store.rows.get? uuid).map fun row => (row.itemType, row.createdSid) :=
  Entries.get?_map_value uuid (fun row : EntityRow => (row.itemType, row.createdSid)) _

theorem mem_places_iff {store : WriteStore} {uuid : Uuid} {key : ItemType × Sid} :
    (uuid, key) ∈ store.places ↔
      ∃ row, store.rows.get? uuid = some row ∧ (row.itemType, row.createdSid) = key := by
  rw [← Option.map_eq_some_iff, ← places_get?]
  exact ⟨Entries.get?_of_mem store.places_sorted, Entries.mem_of_get?⟩

theorem places_nodup (store : WriteStore) : store.places.Nodup :=
  nodup_of_increasing Prod.fst store.places_sorted

theorem list_eq_placed (store : WriteStore) (types : Option (List ItemType)) :
    store.list types =
      (SortedMap.ofList ((store.places.filter fun place => isSelected types place.2.1).map
        Prod.swap)).entries.map fun entry => ⟨entry.1.1, entry.2⟩ := by
  rw [list, places, List.filter_map, List.map_map]
  rfl

/-- Places are ordered by type, then by creation, then by identifier. -/
theorem compare_place_of_lt {left right : ItemType × Sid} (a b : Uuid)
    (less : compare left right = .lt) :
    compare (left.1, left.2, a) (right.1, right.2, b) = .lt := by
  have parts : (compare left.1 right.1).then (compare left.2 right.2) = .lt := less
  change (compare left.1 right.1).then ((compare left.2 right.2).then (compare a b)) = .lt
  revert parts
  cases compare left.1 right.1 <;> cases compare left.2 right.2 <;> simp [Ordering.then]

/-- Placing entities in a map by type and creation sorts them, when no two were created
under one stamp. -/
theorem placed_eq_sorted {rows : List (Uuid × ItemType × Sid)} (distinct : rows.Nodup)
    (single : ∀ left right key, (left, key) ∈ rows → (right, key) ∈ rows → left = right) :
    (SortedMap.ofList (rows.map Prod.swap)).entries.map
        (fun entry => (entry.1.1, entry.1.2, entry.2)) =
      (rows.map fun row => (row.2.1, row.2.2, row.1)).mergeSort fun a b => (compare a b).isLE := by
  have held : ∀ key uuid, (key, uuid) ∈ rows.map Prod.swap ↔ (uuid, key) ∈ rows := by
    intro key uuid
    rw [List.mem_map]
    constructor
    · rintro ⟨row, inside, same⟩
      cases same
      exact inside
    · intro inside
      exact ⟨(uuid, key), inside, rfl⟩
  have perm := SortedMap.entries_ofList_perm
    (List.Pairwise.map Prod.swap (fun a b apart same => apart (congrArg Prod.swap same)) distinct)
    fun key left right first second =>
      single left right key ((held _ _).mp first) ((held _ _).mp second)
  have same := perm.map fun entry : (ItemType × Sid) × Uuid => (entry.1.1, entry.1.2, entry.2)
  rw [List.map_map] at same
  refine (same.trans (List.mergeSort_perm _ _).symm).eq_of_pairwise ?_ ?_
    (List.pairwise_mergeSort ?_ ?_ _)
  · intro a b _ _ ab ba
    exact Std.LawfulEqOrd.eq_of_compare (Std.OrientedCmp.isLE_antisymm ab ba)
  · refine List.pairwise_map.mpr ((SortedMap.ofList _).sorted.imp fun {a b} less => ?_)
    simp [compare_place_of_lt a.2 b.2 less]
  · intro a b c ab bc
    exact Std.TransCmp.isLE_trans ab bc
  · intro a b
    rw [Std.OrientedOrd.eq_swap (a := b)]
    cases compare a b <;> rfl

/-- Entities are listed by type, creation and identifier. -/
theorem list_eq_sorted {store : WriteStore} (apart : CreatedApart store)
    (types : Option (List ItemType)) :
    store.list types =
      (((store.places.filter fun place => isSelected types place.2.1).map
        fun place => (place.2.1, place.2.2, place.1)).mergeSort
          fun a b => (compare a b).isLE).map fun place => ⟨place.1, place.2.2⟩ := by
  have single : ∀ left right key,
      (left, key) ∈ store.places.filter (fun place => isSelected types place.2.1) →
        (right, key) ∈ store.places.filter (fun place => isSelected types place.2.1) →
          left = right := by
    intro left right key first second
    obtain ⟨leftRow, leftStored, rfl⟩ := mem_places_iff.mp (List.mem_filter.mp first).1
    obtain ⟨rightRow, rightStored, made⟩ := mem_places_iff.mp (List.mem_filter.mp second).1
    exact apart left right leftRow rightRow leftStored rightStored (congrArg Prod.snd made).symm
  rw [list_eq_placed, ← placed_eq_sorted (store.places_nodup.filter _) single, List.map_map]
  rfl

namespace Refines

variable {store : WriteStore} {ledger : Ledger}

theorem empty : Refines .empty .empty where
  rows _ := Or.inl ⟨rfl, rfl⟩
  highest := rfl
  available := rfl
  indexed := Indexed.empty
  stamped := Stamped.empty

section Writes

variable {uuid : Uuid} {row : EntityRow} {entry : LedgerEntry} {write : EntityWrite}

/-- A row that a write goes over, with the entry that it holds: both are stored, or both are new
and bare. -/
structure Place (store : WriteStore) (uuid : Uuid) (row : EntityRow) (entry : LedgerEntry) :
    Prop where
  prior : Prior store uuid row
  same : Matches row entry

theorem Place.of_new (vacant : store.rows.get? uuid = none) (itemType : ItemType) :
    Place store uuid ⟨itemType, store.nextSid, {}, {}, {}⟩ (.blank itemType store.nextSid) where
  prior := .new vacant itemType
  same := ⟨rfl, rfl, rfl, fun _ _ => rfl, rfl, rfl⟩

theorem commit (refines : Refines store ledger) (place : Place store uuid row entry)
    (named : write.sheets.get? defaultSheet = none)
    (free : store.keyConflicts uuid write.uniqueKeys = []) :
    Refines (store.commit uuid row write).2 (ledger.write uuid entry write).2 where
  rows other := by
    have sid : store.nextSid = ledger.highest + 1 := congrArg (· + 1) refines.highest
    simp only [commit_rows, Ledger.write, SortedMap.get?_insert_eq]
    by_cases here : other = uuid
    · rw [if_pos here, if_pos here, ← sid]
      exact Or.inr ⟨_, _, rfl, rfl,
        place.same.committed named (place.prior.later refines.stamped)⟩
    · rw [if_neg here, if_neg here]
      exact refines.rows other
  highest := congrArg (· + 1) refines.highest
  available := refines.available
  indexed := refines.indexed.commit place.prior.continues free
  stamped := refines.stamped.committed place.prior write

theorem removed (refines : Refines store ledger) (stored : store.rows.get? uuid = some row)
    (unlinked : ∀ edge ∈ store.revLinks uuid, edge.source = uuid) :
    Refines (store.removed uuid row) { ledger with entities := ledger.entities.erase uuid } where
  rows other := by
    simp only [WriteStore.removed, SortedMap.get?_erase_eq]
    by_cases here : other = uuid
    · exact Or.inl ⟨if_pos here, if_pos here⟩
    · rw [if_neg here, if_neg here]
      exact refines.rows other
  highest := refines.highest
  available := refines.available
  indexed := refines.indexed.removed stored unlinked
  stamped := refines.stamped.removed uuid row

end Writes

section Reads

variable (refines : Refines store ledger)
include refines

theorem edge_iff (edge : LinkEdge) :
    (∃ row, store.rows.get? edge.source = some row ∧ edge.link ∈ row.links) ↔
      ∃ entry, ledger.entities.get? edge.source = some entry ∧ edge.link ∈ entry.links := by
  rcases refines.rows edge.source with ⟨missing, unknown⟩ | ⟨row, entry, stored, known, same⟩
  · simp [missing, unknown]
  · simp [stored, known, same.links]

theorem holder_iff (key : UniqueKey) (owner : Uuid) :
    store.owners.get? key = some owner ↔
      ∃ entry, ledger.entities.get? owner = some entry ∧ key ∈ entry.uniqueKeys := by
  rw [refines.indexed.owners]
  rcases refines.rows owner with ⟨missing, unknown⟩ | ⟨row, entry, stored, known, same⟩
  · simp [missing, unknown]
  · simp [stored, known, same.uniqueKeys]

theorem owner?_eq (key : UniqueKey) : store.owners.get? key = ledger.owner? key := by
  apply Option.ext
  intro owner
  rw [refines.holder_iff, Ledger.owner?_eq_some_iff]
  -- The store has one owner for each key, so the ledger has one holder.
  intro left right leftEntry rightEntry foundLeft holdsLeft foundRight holdsRight
  have ownsLeft := (refines.holder_iff key left).mpr ⟨leftEntry, foundLeft, holdsLeft⟩
  have ownsRight := (refines.holder_iff key right).mpr ⟨rightEntry, foundRight, holdsRight⟩
  exact Option.some.inj (ownsLeft.symm.trans ownsRight)

theorem keyConflicts_eq (uuid : Uuid) (keys : SortedSet UniqueKey) :
    store.keyConflicts uuid keys = ledger.takenKeys uuid keys := by
  refine List.filter_congr fun key _ => ?_
  rw [Bool.eq_iff_iff, ownedByOther_iff, Ledger.heldByOther_iff]
  exact exists_congr fun owner => and_congr_right fun _ => refines.holder_iff key owner

theorem linkedFrom_eq (uuid : Uuid) : (store.linkedFrom uuid).toList = ledger.linkingTo uuid := by
  have sets : store.linkedFrom uuid = ⟨ledger.linkingTo uuid, SortedMap.keys_sorted _⟩ := by
    apply SortedSet.ext_mem
    intro source
    rw [linkedFrom, SortedSet.mem_ofList, SortedSet.mem_def, Ledger.mem_linkingTo_iff]
    simp only [List.mem_filter, List.mem_map, decide_eq_true_eq]
    constructor
    · rintro ⟨⟨edge, listed, rfl⟩, apart⟩
      obtain ⟨reached, linking⟩ := (refines.indexed.mem_revLinks_iff uuid edge).mp listed
      obtain ⟨entry, known, inside⟩ := (refines.edge_iff edge).mp linking
      exact ⟨apart, entry, known, edge.link, inside, reached.symm⟩
    · rintro ⟨apart, entry, known, link, inside, reached⟩
      have linking := (refines.edge_iff ⟨source, link⟩).mpr ⟨entry, known, inside⟩
      exact ⟨⟨⟨source, link⟩, (refines.indexed.mem_revLinks_iff uuid _).mpr
        ⟨reached.symm, linking⟩, rfl⟩, apart⟩
  rw [sets]

theorem record?_eq (uuid : Uuid) : store.record? uuid = ledger.record? uuid := by
  rw [WriteStore.record?_eq, Ledger.record?]
  rcases refines.rows uuid with ⟨missing, unknown⟩ | ⟨row, entry, stored, known, same⟩
  · simp [missing, unknown]
  · rw [stored, known, Option.bind_some, Option.bind_some, same.history, LedgerEntry.record?]
    cases entry.revisions.getLast? with
    | none => rfl
    | some current => simp [recordAt, same.itemType, same.links, same.uniqueKeys]

theorem currentSid?_eq (uuid : Uuid) :
    store.currentSid? uuid = (ledger.record? uuid).map EntityRecord.sid := by
  rw [WriteStore.currentSid?_eq, refines.record?_eq]

theorem get_eq (uuid : Uuid) : store.get uuid = ledger.get uuid := by
  have same := refines.record?_eq uuid
  cases found : ledger.record? uuid <;> simp only [get, Ledger.get, same.trans found, found]

theorem getByUniqueKey_eq (key : UniqueKey) :
    store.getByUniqueKey key = ledger.getByUniqueKey key := by
  rw [getByUniqueKey, Ledger.getByUniqueKey, refines.owner?_eq]
  cases ledger.owner? key with
  | none => rfl
  | some owner => exact refines.get_eq owner

theorem keyOwners_eq (keys : List UniqueKey) : store.keyOwners keys = ledger.keyOwners keys := by
  simp only [keyOwners, Ledger.keyOwners, refines.owner?_eq]

theorem sheet_eq (uuid : Uuid) (name : String) : store.sheet uuid name = ledger.sheet uuid name := by
  rcases refines.rows uuid with ⟨missing, unknown⟩ | ⟨row, entry, stored, known, same⟩
  · simp [sheet, Ledger.sheet, missing, unknown]
  · simp only [sheet, Ledger.sheet, stored, known, LedgerEntry.sheet?]
    by_cases default : name = defaultSheet
    · rw [if_pos default, default, EntityRow.current?_defaultSheet, same.history]
    · rw [if_neg default, same.sheets name default]

theorem history_eq (uuid : Uuid) : store.history uuid = ledger.history uuid := by
  rcases refines.rows uuid with ⟨missing, unknown⟩ | ⟨row, entry, stored, known, same⟩
  · simp [history, Ledger.history, missing, unknown]
  · simp [history, Ledger.history, stored, known, same.history]

theorem revLinks_eq (uuid : Uuid) : store.revLinks uuid = ledger.revLinks uuid := by
  rw [revLinks, Ledger.revLinks]
  apply congrArg SortedSet.toList
  apply SortedSet.ext_mem
  intro edge
  rw [SortedSet.mem_ofList, List.mem_filter, Ledger.mem_edges_iff, decide_eq_true_eq]
  change edge ∈ edgesInto store.incoming uuid ↔ _
  rw [refines.indexed.edges uuid edge, refines.edge_iff, and_comm, eq_comm]

theorem currentSids_eq (uuids : List Uuid) : store.currentSids uuids = ledger.currentSids uuids := by
  simp only [currentSids, Ledger.currentSids, refines.currentSid?_eq, Option.map_map]
  rfl

theorem itemTypeOf_eq (uuid : Uuid) : store.itemTypeOf uuid = ledger.itemTypeOf uuid := by
  rcases refines.rows uuid with ⟨missing, unknown⟩ | ⟨row, entry, stored, known, same⟩
  · simp [itemTypeOf, Ledger.itemTypeOf, missing, unknown]
  · simp [itemTypeOf, Ledger.itemTypeOf, stored, known, same.itemType]

theorem places_eq : store.places = ledger.places := by
  refine Entries.eq_of_get? store.places_sorted ledger.places_sorted fun uuid => ?_
  rw [places_get?, Ledger.places_get?]
  rcases refines.rows uuid with ⟨missing, unknown⟩ | ⟨row, entry, stored, known, same⟩
  · simp [missing, unknown]
  · simp [stored, known, same.itemType, same.createdSid]

theorem list_eq (types : Option (List ItemType)) : store.list types = ledger.list types := by
  rw [WriteStore.list_eq_sorted refines.stamped.apart, refines.places_eq, Ledger.list_eq_sorted]

end Reads

end Refines

end WriteStore

end CachedViews
