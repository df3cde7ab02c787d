import CachedViews.Proofs.WriteStore.Stamped
import CachedViews.WriteStore.Tables

/-!
The tables and the rows. Entity by entity the tables hold what a row gathers, and the edges by
target and the owners of keys are the same in both. Writes and removals keep it so: each touches
what the tables have of its own entity and leaves the rest alone.
-/
namespace CachedViews

namespace WriteTables

section Sheets

variable (tables : WriteTables) (uuid : Uuid) (sid : Sid)

/-- Sheets written one after the other, each once. -/
theorem writeEach_sheets {sheets : List (String × Properties)} (sorted : Entries.Sorted sheets)
    (other : Uuid) (name : String) (stamp : Sid) :
    (sheets.foldl (fun tables sheet => tables.writeSheet uuid sid sheet.1 sheet.2) tables).sheets.get?
        (other, name, stamp) =
      (if other = uuid ∧ stamp = sid then Entries.get? name sheets else none).or
        (tables.sheets.get? (other, name, stamp)) := by
  induction sheets generalizing tables with
  | nil => simp [Entries.get?]
  | cons first rest ih =>
    obtain ⟨above, tail⟩ := List.pairwise_cons.mp sorted
    rw [List.foldl_cons, ih _ tail, writeSheet, SortedMap.get?_insert_eq]
    by_cases here : other = uuid ∧ stamp = sid
    · obtain ⟨rfl, rfl⟩ := here
      by_cases same : name = first.1
      · subst same
        simp [Entries.get?, Entries.get?_eq_none_of_above above]
      · have apart : compare name first.1 ≠ .eq := fun hit => same (compare_eq_iff.mp hit)
        simp [Entries.get?, apart, same]
    · have apart : (other, name, stamp) ≠ (uuid, first.1, sid) := fun same => by
        cases same
        exact here ⟨rfl, rfl⟩
      rw [if_neg here, if_neg apart, if_neg here]

theorem writeEach_current (sheets : List (String × Properties)) (other : Uuid) (name : String) :
    (sheets.foldl (fun tables sheet => tables.writeSheet uuid sid sheet.1 sheet.2) tables).current.get?
        (other, name) =
      if other = uuid ∧ (Entries.get? name sheets).isSome then some sid
      else tables.current.get? (other, name) := by
  induction sheets generalizing tables with
  | nil => simp [Entries.get?]
  | cons first rest ih =>
    rw [List.foldl_cons, ih, writeSheet, SortedMap.get?_insert_eq]
    by_cases here : other = uuid
    · subst here
      by_cases same : name = first.1
      · subst same
        simp [Entries.get?]
      · have apart : compare name first.1 ≠ .eq := fun hit => same (compare_eq_iff.mp hit)
        simp [Entries.get?, apart, same]
    · simp [here]

theorem writeSheets_sheets (write : EntityWrite) (other : Uuid) (name : String) (stamp : Sid) :
    (tables.writeSheets uuid sid write).sheets.get? (other, name, stamp) =
      (if other = uuid ∧ stamp = sid then write.sheet? name else none).or
        (tables.sheets.get? (other, name, stamp)) := by
  rw [writeSheets, writeEach_sheets _ _ _ write.sheets.sorted, writeSheet, SortedMap.get?_insert_eq,
    EntityWrite.sheet?]
  change (if _ then write.sheets.get? name else none).or _ = _
  by_cases here : other = uuid ∧ stamp = sid
  · obtain ⟨rfl, rfl⟩ := here
    by_cases same : name = defaultSheet
    · subst same
      cases write.sheets.get? defaultSheet <;> simp
    · simp [same]
  · have apart : (other, name, stamp) ≠ (uuid, defaultSheet, sid) := fun same => by
      cases same
      exact here ⟨rfl, rfl⟩
    rw [if_neg here, if_neg apart, if_neg here]

theorem writeSheets_current (write : EntityWrite) (other : Uuid) (name : String) :
    (tables.writeSheets uuid sid write).current.get? (other, name) =
      if other = uuid ∧ (write.sheet? name).isSome then some sid
      else tables.current.get? (other, name) := by
  rw [writeSheets, writeEach_current, writeSheet, SortedMap.get?_insert_eq, EntityWrite.sheet?]
  change (if other = uuid ∧ (write.sheets.get? name).isSome = true then _ else _) = _
  by_cases here : other = uuid <;> by_cases same : name = defaultSheet <;>
    cases write.sheets.get? name <;> simp [here, same]

/-- Writing sheets touches nothing but sheets and their pointers. -/
theorem writeSheets_eq (write : EntityWrite) :
    tables.writeSheets uuid sid write =
      { tables with
        sheets := (tables.writeSheets uuid sid write).sheets
        current := (tables.writeSheets uuid sid write).current } := by
  have each : ∀ (sheets : List (String × Properties)) (start : WriteTables),
      let written := sheets.foldl
        (fun tables sheet => tables.writeSheet uuid sid sheet.1 sheet.2) start
      written = { start with sheets := written.sheets, current := written.current } := by
    intro sheets
    induction sheets with
    | nil => exact fun start => rfl
    | cons first rest ih => exact fun start => ih (start.writeSheet uuid sid first.1 first.2)
  exact each write.sheets.entries _

end Sheets

section Links

theorem mem_edgesOf {uuid : Uuid} {links : SortedSet Link} {edge : LinkEdge} :
    edge ∈ edgesOf uuid links ↔ edge.source = uuid ∧ edge.link ∈ links := by
  rw [edgesOf, SortedSet.mem_ofList, List.mem_map, SortedSet.mem_def]
  constructor
  · rintro ⟨link, inside, rfl⟩
    exact ⟨rfl, inside⟩
  · rintro ⟨rfl, inside⟩
    exact ⟨edge.link, inside, rfl⟩

theorem edgesOf_toList (uuid : Uuid) (links : SortedSet Link) :
    (edgesOf uuid links).toList = links.toList.map (⟨uuid, ·⟩) := by
  refine eq_of_increasing id (edgesOf uuid links).sorted
    (List.pairwise_map.mpr (links.sorted.imp fun {a b} less => ?_)) fun edge => ?_
  · have same : compare uuid uuid = .eq := Std.ReflCmp.compare_self
    change (compare uuid uuid).then (compare a b) = .lt
    rw [same, Ordering.eq_then]
    exact less
  · rw [← SortedSet.mem_def, mem_edgesOf, List.mem_map]
    constructor
    · rintro ⟨rfl, inside⟩
      exact ⟨edge.link, inside, rfl⟩
    · rintro ⟨link, inside, rfl⟩
      exact ⟨rfl, inside⟩

theorem edgesOf_diff (uuid : Uuid) (left right : SortedSet Link) :
    (edgesOf uuid left).diff (edgesOf uuid right) = edgesOf uuid (left.diff right) := by
  apply SortedSet.ext_mem
  intro edge
  rw [SortedSet.mem_diff, mem_edgesOf, mem_edgesOf, mem_edgesOf, SortedSet.mem_diff, and_assoc]
  refine and_congr_right fun same => and_congr_right fun _ => not_congr ?_
  exact and_iff_right same

theorem link_links (links : SortedSet Link) (uuid : Uuid) :
    SortedSet.ofList ((edgesOf uuid links).toList.map LinkEdge.link) = links := by
  rw [edgesOf_toList, List.map_map]
  apply SortedSet.ext_mem
  intro link
  rw [SortedSet.mem_ofList, SortedSet.mem_def]
  simp

theorem unlink_eq (byTarget : WriteStore.EdgeIndex) (source : Uuid) (link : Link) :
    unlink byTarget ⟨source, link⟩ = WriteStore.removeEdge byTarget source link := by
  rw [unlink, WriteStore.removeEdge, SortedMap.getD]
  cases found : byTarget.get? link.target with
  | some edges => rfl
  | none =>
    -- There is no entry to drop.
    have none : byTarget.erase link.target = byTarget := SortedMap.ext_get? fun target => by
      rw [SortedMap.get?_erase_eq]
      split
      · rename_i same
        rw [same, found]
      · rfl
    exact none.symm

/-- The edges by target follow the links of a source as they do without the edges by source. -/
theorem applyLinks_linksByTarget {tables : WriteTables} {uuid : Uuid} {old : SortedSet Link}
    (before : tables.linksBySource.getD uuid {} = edgesOf uuid old) (new : SortedSet Link) :
    (tables.applyLinks uuid new).linksByTarget =
      WriteStore.replaceEdges tables.linksByTarget uuid old new := by
  simp only [applyLinks, before, edgesOf_diff, edgesOf_toList, List.foldl_map, unlink_eq,
    WriteStore.replaceEdges]
  rfl

end Links

/-- A table of sets without empty sets reads as the one set under each key. -/
theorem getD_replaced {K A : Type} [Ord K] [Std.TransOrd K] [Std.LawfulEqOrd K] [DecidableEq K]
    [Ord A] (table : SortedMap K (SortedSet A)) (key other : K) (set : SortedSet A) :
    (if set.isEmpty then table.erase key else (table.erase key).insert key set).getD other {} =
      if other = key then set else table.getD other {} := by
  by_cases none : set.isEmpty = true
  · have empty : set = {} := SortedSet.toList_injective (List.isEmpty_iff.mp none)
    rw [if_pos none, SortedMap.getD, SortedMap.get?_erase_eq]
    split
    · exact empty.symm
    · rfl
  · rw [if_neg none, SortedMap.getD, SortedMap.get?_insert_eq, SortedMap.get?_erase_eq]
    by_cases same : other = key
    · rw [if_pos same, if_pos same]
      rfl
    · rw [if_neg same, if_neg same, if_neg same]
      rfl

theorem applyKeys_keys {tables : WriteTables} {uuid : Uuid} {old : SortedSet UniqueKey}
    (before : tables.keysByOwner.getD uuid {} = old) (new : SortedSet UniqueKey) :
    (tables.applyKeys uuid new).keys = WriteStore.replaceKeys tables.keys uuid old new := by
  subst before
  rfl

section Applied

variable (tables : WriteTables) (uuid other : Uuid) (sid : Sid) (write : EntityWrite)

theorem apply_resources : (tables.apply uuid sid write).resources = tables.resources := by
  rw [apply, writeSheets_eq]
  rfl

theorem apply_linksBySource :
    (tables.apply uuid sid write).linksBySource.getD other {} =
      if other = uuid then edgesOf uuid write.links else tables.linksBySource.getD other {} := by
  rw [apply, writeSheets_eq]
  exact getD_replaced tables.linksBySource uuid other _

theorem apply_keysByOwner :
    (tables.apply uuid sid write).keysByOwner.getD other {} =
      if other = uuid then write.uniqueKeys else tables.keysByOwner.getD other {} := by
  rw [apply, writeSheets_eq]
  exact getD_replaced tables.keysByOwner uuid other _

variable {tables uuid}

theorem apply_linksByTarget {old : SortedSet Link}
    (before : tables.linksBySource.getD uuid {} = edgesOf uuid old) :
    (tables.apply uuid sid write).linksByTarget =
      WriteStore.replaceEdges tables.linksByTarget uuid old write.links := by
  rw [apply, writeSheets_eq]
  rw [← applyLinks_linksByTarget before]
  rfl

theorem apply_keys {old : SortedSet UniqueKey} (before : tables.keysByOwner.getD uuid {} = old) :
    (tables.apply uuid sid write).keys =
      WriteStore.replaceKeys tables.keys uuid old write.uniqueKeys := by
  rw [apply, writeSheets_eq, ← applyKeys_keys before]
  rfl

end Applied

/-- What the tables have of one entity is what a row gathers. -/
structure Shows (tables : WriteTables) (uuid : Uuid) (row : EntityRow) : Prop where
  sheets : ∀ name sid, tables.sheets.get? (uuid, name, sid) = (row.rows name).get? sid
  current : ∀ name, tables.current.get? (uuid, name) = (row.current? name).map Revision.sid
  links : tables.linksBySource.getD uuid {} = edgesOf uuid row.links
  keys : tables.keysByOwner.getD uuid {} = row.uniqueKeys

namespace Shows

variable {tables : WriteTables} {store : WriteStore} {uuid : Uuid} {row : EntityRow}

theorem applied (shows : Shows tables uuid row) (write : EntityWrite)
    (later : ∀ name, ∀ entry ∈ (row.rows name).entries, entry.1 < store.nextSid) :
    Shows (tables.apply uuid store.nextSid write) uuid (store.committedRow row write) where
  sheets name sid := by
    change (tables.writeSheets uuid store.nextSid write).sheets.get? (uuid, name, sid) = _
    rw [writeSheets_sheets, shows.sheets, WriteStore.rows_committedRow]
    by_cases same : sid = store.nextSid
    · rw [if_pos ⟨rfl, same⟩]
      cases write.sheet? name <;> simp [same]
    · rw [if_neg fun both => same both.2]
      cases write.sheet? name with
      | none => rfl
      | some properties => rw [Option.none_or, SortedMap.get?_insert_eq, if_neg same]
  current name := by
    change (tables.writeSheets uuid store.nextSid write).current.get? (uuid, name) = _
    rw [writeSheets_current, shows.current, WriteStore.current?_committedRow write (later name)]
    cases write.sheet? name <;> simp
  links := (apply_linksBySource tables uuid uuid _ write).trans (if_pos rfl)
  keys := (apply_keysByOwner tables uuid uuid _ write).trans (if_pos rfl)

theorem applied_of_ne (shows : Shows tables uuid row) {other : Uuid} (apart : uuid ≠ other)
    (sid : Sid) (write : EntityWrite) : Shows (tables.apply other sid write) uuid row where
  sheets name stamp := by
    change (tables.writeSheets other sid write).sheets.get? (uuid, name, stamp) = _
    rw [writeSheets_sheets, if_neg fun both => apart both.1, Option.none_or, shows.sheets]
  current name := by
    change (tables.writeSheets other sid write).current.get? (uuid, name) = _
    rw [writeSheets_current, if_neg fun both => apart both.1, shows.current]
  links :=
    (apply_linksBySource tables other uuid sid write).trans ((if_neg apart).trans shows.links)
  keys := (apply_keysByOwner tables other uuid sid write).trans ((if_neg apart).trans shows.keys)

theorem vacated (uuid : Uuid) (tables : WriteTables) (itemType : ItemType) (sid : Sid) :
    Shows (tables.remove uuid) uuid ⟨itemType, sid, {}, {}, {}⟩ where
  sheets name stamp := by
    rw [remove, SortedMap.get?_filter_eq]
    exact if_neg (by simp)
  current name := by
    rw [remove, SortedMap.get?_filter_eq]
    exact if_neg (by simp)
  links := (getD_replaced _ uuid uuid {}).trans (if_pos rfl)
  keys := (getD_replaced _ uuid uuid {}).trans (if_pos rfl)

theorem removed_of_ne (shows : Shows tables uuid row) {other : Uuid} (apart : uuid ≠ other) :
    Shows (tables.remove other) uuid row where
  sheets name stamp := by
    rw [remove, SortedMap.get?_filter_eq, if_pos (by simpa using apart)]
    exact shows.sheets name stamp
  current name := by
    rw [remove, SortedMap.get?_filter_eq, if_pos (by simpa using apart)]
    exact shows.current name
  links := (getD_replaced _ other uuid {}).trans ((if_neg apart).trans shows.links)
  keys := (getD_replaced _ other uuid {}).trans ((if_neg apart).trans shows.keys)

end Shows

/-- The tables hold what the rows hold. -/
structure Mirrors (tables : WriteTables) (store : WriteStore) : Prop where
  resources : ∀ uuid, tables.resources.get? uuid =
    (store.rows.get? uuid).map fun row => ⟨row.itemType, row.createdSid⟩
  stored : ∀ uuid row, store.rows.get? uuid = some row → Shows tables uuid row
  vacant : ∀ uuid itemType sid, store.rows.get? uuid = none →
    Shows tables uuid ⟨itemType, sid, {}, {}, {}⟩
  edges : tables.linksByTarget = store.incoming
  owners : tables.keys = store.owners
  maxSid : tables.maxSid = store.maxSid

namespace Mirrors

open WriteStore (Prior Stamped)

variable {tables : WriteTables} {store : WriteStore} {uuid : Uuid} {row : EntityRow}

theorem empty : Mirrors .empty .empty where
  resources uuid := rfl
  stored uuid row found := by cases found
  vacant uuid itemType sid _ := ⟨fun _ _ => rfl, fun _ => rfl, rfl, rfl⟩
  edges := rfl
  owners := rfl
  maxSid := rfl

theorem prior (mirrors : Mirrors tables store) (prior : Prior store uuid row) :
    Shows tables uuid row := by
  cases prior with
  | stored found => exact mirrors.stored uuid row found
  | new vacant itemType => exact mirrors.vacant uuid itemType store.nextSid vacant

/-- A write over a row of the store, with the resource of its entity in place. -/
theorem applied (mirrors : Mirrors tables store) (stamped : Stamped store)
    (prior : Prior store uuid row) {resources : SortedMap Uuid ResourceRow}
    (placed : ∀ other, resources.get? other =
      if other = uuid then some ⟨row.itemType, row.createdSid⟩ else tables.resources.get? other)
    (write : EntityWrite) :
    Mirrors (apply { tables with resources } uuid store.nextSid write)
      (store.commit uuid row write).2 := by
  have shows : ∀ {other : Uuid} {row : EntityRow}, Shows tables other row →
      Shows { tables with resources } other row :=
    fun shown => ⟨shown.sheets, shown.current, shown.links, shown.keys⟩
  refine ⟨fun other => ?_, fun other otherRow found => ?_, fun other itemType sid missing => ?_,
    ?_, ?_, rfl⟩
  · rw [apply_resources]
    refine (placed other).trans ?_
    rw [WriteStore.commit_rows, SortedMap.get?_insert_eq, mirrors.resources]
    split
    · rw [Option.map_some, WriteStore.committedRow_itemType, WriteStore.committedRow_createdSid]
    · rfl
  · rw [WriteStore.commit_rows, SortedMap.get?_insert_eq] at found
    split at found
    · rename_i same
      cases found
      exact same ▸ (shows (mirrors.prior prior)).applied write (prior.later stamped)
    · rename_i apart
      exact (shows (mirrors.stored other otherRow found)).applied_of_ne apart _ write
  · rw [WriteStore.commit_rows, SortedMap.get?_insert_eq] at missing
    split at missing
    · cases missing
    · rename_i apart
      exact (shows (mirrors.vacant other itemType sid missing)).applied_of_ne apart _ write
  · rw [apply_linksByTarget _ write (shows (mirrors.prior prior)).links]
    exact congrArg (WriteStore.replaceEdges · uuid row.links write.links) mirrors.edges
  · rw [apply_keys _ write (shows (mirrors.prior prior)).keys]
    exact congrArg (WriteStore.replaceKeys · uuid row.uniqueKeys write.uniqueKeys) mirrors.owners

theorem removed (mirrors : Mirrors tables store) (found : store.rows.get? uuid = some row) :
    Mirrors (tables.remove uuid) (store.removed uuid row) where
  resources other := by
    change (tables.resources.erase uuid).get? other = _
    rw [WriteStore.removed, SortedMap.get?_erase_eq, SortedMap.get?_erase_eq, mirrors.resources]
    split <;> rfl
  stored other otherRow held := by
    rw [WriteStore.removed, SortedMap.get?_erase_eq] at held
    split at held
    · cases held
    · rename_i apart
      exact (mirrors.stored other otherRow held).removed_of_ne apart
  vacant other itemType sid missing := by
    rw [WriteStore.removed, SortedMap.get?_erase_eq] at missing
    split at missing
    · rename_i same
      exact same ▸ Shows.vacated uuid tables itemType sid
    · rename_i apart
      exact (mirrors.vacant other itemType sid missing).removed_of_ne apart
  edges := by
    change (tables.applyLinks uuid {}).linksByTarget.erase uuid = _
    rw [applyLinks_linksByTarget (mirrors.stored uuid row found).links, mirrors.edges]
    rfl
  owners := by
    have before : (tables.applyLinks uuid {}).keysByOwner.getD uuid {} = row.uniqueKeys :=
      (mirrors.stored uuid row found).keys
    refine (applyKeys_keys before {}).trans ?_
    exact congrArg (WriteStore.replaceKeys · uuid row.uniqueKeys {}) mirrors.owners
  maxSid := mirrors.maxSid

section Reads

variable (mirrors : Mirrors tables store)
include mirrors

theorem contains_eq (uuid : Uuid) : tables.resources.contains uuid = store.contains uuid := by
  rw [WriteStore.contains, SortedMap.contains, mirrors.resources, Option.isSome_map]
  rfl

theorem record_eq (uuid : Uuid) : tables.record uuid = store.get uuid := by
  rw [record, mirrors.resources, WriteStore.get, WriteStore.record?]
  cases found : store.rows.get? uuid with
  | none => rfl
  | some row =>
    have shows := mirrors.stored uuid row found
    simp only [Option.map_some, shows.current, shows.links, shows.keys, link_links, bind,
      Option.bind_some]
    cases current : row.current? defaultSheet with
    | none => rfl
    | some revision =>
      simp only [Option.map_some, Option.bind_some, SortedMap.getD, shows.sheets,
        row.get?_of_current current, Option.getD_some]
      rfl

theorem keyConflicts_eq (uuid : Uuid) (keys : SortedSet UniqueKey) :
    tables.keyConflicts uuid keys = store.keyConflicts uuid keys := by
  rw [keyConflicts, mirrors.owners]
  rfl

theorem linkedFrom_eq (uuid : Uuid) : tables.linkedFrom uuid = store.linkedFrom uuid := by
  rw [linkedFrom, mirrors.edges]
  rfl

theorem currentSid_eq (uuid : Uuid) :
    tables.current.get? (uuid, defaultSheet) = store.currentSid? uuid := by
  rw [WriteStore.currentSid?]
  cases found : store.rows.get? uuid with
  | none => exact (mirrors.vacant uuid default 0 found).current defaultSheet
  | some row =>
    rw [(mirrors.stored uuid row found).current]
    simp only [bind, Option.bind_some]
    cases row.current? defaultSheet <;> rfl

theorem sheet_eq (found : store.rows.get? uuid = some row) (name : String) :
    ((tables.current.get? (uuid, name)).bind fun sid => tables.sheets.get? (uuid, name, sid)) =
      (row.current? name).map Revision.properties := by
  have shows := mirrors.stored uuid row found
  rw [shows.current]
  cases current : row.current? name with
  | none => rfl
  | some revision =>
    rw [Option.map_some, Option.bind_some, shows.sheets, row.get?_of_current current]
    rfl

/-- All stamps lie between the least and the greatest. -/
theorem mem_defaults_iff (stamped : Stamped store) (room : store.maxSid < Width.values 63)
    (found : store.rows.get? uuid = some row) (owner : Uuid) (name : String) (sid : Sid)
    (properties : Properties) :
    ((owner, name, sid), properties) ∈ tables.defaults uuid ↔
      owner = uuid ∧ name = defaultSheet ∧
        (sid, properties) ∈ (row.rows defaultSheet).entries := by
  have shown := (mirrors.stored uuid row found).sheets defaultSheet sid
  rw [defaults, SortedMap.mem_between_iff, SortedMap.mem_entries_iff, between_pairs, between_pairs,
    Int.isLE_compare, Int.isLE_compare]
  constructor
  · rintro ⟨held, here, default, -⟩
    cases here
    cases default
    exact ⟨rfl, rfl, shown.symm.trans held⟩
  · rintro ⟨rfl, rfl, held⟩
    have inside := (SortedMap.mem_entries_iff _ _ _).mpr held
    have bounds := stamped.rows owner row found
    have least : leastSid < 0 := by decide
    refine ⟨shown.trans held, rfl, rfl, ?_, ?_⟩
    · exact Int.le_of_lt (Int.lt_trans least (bounds.counted _ _ inside))
    · exact Int.le_sub_one_of_lt (Int.lt_of_le_of_lt (bounds.sheets _ _ inside) room)

theorem history_eq (stamped : Stamped store) (room : store.maxSid < Width.values 63)
    (found : store.rows.get? uuid = some row) :
    (tables.defaults uuid).map (fun place => (⟨place.1.2.2, place.2⟩ : Revision)) =
      row.history := by
  have within := mirrors.mem_defaults_iff stamped room found
  have same : (tables.defaults uuid).map (fun place => (place.1.2.2, place.2)) =
      (row.rows defaultSheet).entries := by
    refine eq_of_increasing Prod.fst (List.pairwise_map.mpr ?_) (row.rows defaultSheet).sorted ?_
    · refine List.Pairwise.imp_of_mem ?_
        (List.Pairwise.sublist List.filter_sublist tables.sheets.sorted)
      rintro ⟨⟨_, _, earlier⟩, _⟩ ⟨⟨_, _, later⟩, _⟩ first second less
      obtain ⟨rfl, rfl, -⟩ := (within _ _ _ _).mp first
      obtain ⟨rfl, rfl, -⟩ := (within _ _ _ _).mp second
      rwa [compare_pair, compare_pair] at less
    · rintro ⟨sid, properties⟩
      simp only [List.mem_map, Prod.exists, Prod.mk.injEq]
      constructor
      · rintro ⟨_, _, _, _, inside, rfl, rfl⟩
        exact ((within _ _ _ _).mp inside).2.2
      · intro inside
        exact ⟨uuid, defaultSheet, sid, properties, (within _ _ _ _).mpr ⟨rfl, rfl, inside⟩, rfl,
          rfl⟩
  rw [EntityRow.history, ← same, List.map_map]
  rfl

end Reads

end Mirrors

end WriteTables

end CachedViews
