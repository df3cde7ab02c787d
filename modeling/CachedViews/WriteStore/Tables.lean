import CachedViews.Sequence
import CachedViews.WriteStore

/-!
The tables behind the write store, one per concern, with the sequence that its stamps come from.
Links are kept by their source and by their target, unique keys by value and by owner, and a
pointer leads to the current row of each sheet. A call is one transaction on all of them. It looks
for everything that stands in its way before it takes a stamp or writes a row.
-/
namespace CachedViews

structure ResourceRow where
  itemType : ItemType
  createdSid : Sid

structure WriteTables where
  resources : SortedMap Uuid ResourceRow
  /-- Retained sheets by entity, name and stamp. -/
  sheets : SortedMap (Uuid × String × Sid) Properties
  /-- Stamp of the current row of each sheet. -/
  current : SortedMap (Uuid × String) Sid
  linksBySource : SortedMap Uuid (SortedSet LinkEdge)
  linksByTarget : SortedMap Uuid (SortedSet LinkEdge)
  keys : SortedMap UniqueKey Uuid
  keysByOwner : SortedMap Uuid (SortedSet UniqueKey)
  maxSid : Sid

namespace WriteTables

def empty : WriteTables := ⟨{}, {}, {}, {}, {}, {}, {}, 0⟩

def record (tables : WriteTables) (uuid : Uuid) : Except StorageError EntityRecord :=
  match tables.resources.get? uuid with
  | none => .error (.notFound uuid)
  | some resource =>
    match tables.current.get? (uuid, defaultSheet) with
    | none => .error (.notFound uuid)
    | some sid =>
      .ok ⟨uuid, resource.itemType, sid, tables.sheets.getD (uuid, defaultSheet, sid) {},
        SortedSet.ofList ((tables.linksBySource.getD uuid {}).toList.map LinkEdge.link),
        tables.keysByOwner.getD uuid {}⟩

/-- The least and the greatest stamp that there can be. -/
def leastSid : Sid := -(Width.values 63)

def greatestSid : Sid := Width.values 63 - 1

/-- Rows of an entity's default sheet, oldest first. -/
def defaults (tables : WriteTables) (uuid : Uuid) : List ((Uuid × String × Sid) × Properties) :=
  tables.sheets.between (uuid, defaultSheet, leastSid) (uuid, defaultSheet, greatestSid)

def keyConflicts (tables : WriteTables) (uuid : Uuid) (keys : SortedSet UniqueKey) :
    List UniqueKey :=
  keys.toList.filter fun key =>
    match tables.keys.get? key with
    | some owner => decide (owner ≠ uuid)
    | none => false

def writeSheet (tables : WriteTables) (uuid : Uuid) (sid : Sid) (name : String)
    (properties : Properties) : WriteTables :=
  { tables with
    sheets := tables.sheets.insert (uuid, name, sid) properties
    current := tables.current.insert (uuid, name) sid }

/-- Adds the default sheet and then each named sheet at one stamp. -/
def writeSheets (tables : WriteTables) (uuid : Uuid) (sid : Sid) (write : EntityWrite) :
    WriteTables :=
  write.sheets.entries.foldl (fun tables sheet => tables.writeSheet uuid sid sheet.1 sheet.2)
    (tables.writeSheet uuid sid defaultSheet write.properties)

/-- Removes an edge from those of its target, and the target with its last edge. -/
def unlink (byTarget : SortedMap Uuid (SortedSet LinkEdge)) (edge : LinkEdge) :
    SortedMap Uuid (SortedSet LinkEdge) :=
  match byTarget.get? edge.link.target with
  | none => byTarget
  | some edges =>
    let left := edges.erase edge
    if left.isEmpty then byTarget.erase edge.link.target
    else byTarget.insert edge.link.target left

def link (byTarget : SortedMap Uuid (SortedSet LinkEdge)) (edge : LinkEdge) :
    SortedMap Uuid (SortedSet LinkEdge) :=
  byTarget.insert edge.link.target ((byTarget.getD edge.link.target {}).insert edge)

def edgesOf (uuid : Uuid) (links : SortedSet Link) : SortedSet LinkEdge :=
  SortedSet.ofList (links.toList.map (⟨uuid, ·⟩))

/-- Makes `links` those of an entity. Edges that were there before are left alone. -/
def applyLinks (tables : WriteTables) (uuid : Uuid) (links : SortedSet Link) : WriteTables :=
  let wanted := edgesOf uuid links
  let existing := tables.linksBySource.getD uuid {}
  let released := (existing.diff wanted).toList.foldl unlink tables.linksByTarget
  let others := tables.linksBySource.erase uuid
  { tables with
    linksByTarget := (wanted.diff existing).toList.foldl link released
    linksBySource := if wanted.isEmpty then others else others.insert uuid wanted }

/-- Makes `keys` those of an entity. Keys that it had before are left alone. -/
def applyKeys (tables : WriteTables) (uuid : Uuid) (keys : SortedSet UniqueKey) : WriteTables :=
  let existing := tables.keysByOwner.getD uuid {}
  let released := (existing.diff keys).toList.foldl SortedMap.erase tables.keys
  let others := tables.keysByOwner.erase uuid
  { tables with
    keys := (keys.diff existing).toList.foldl (fun owners key => owners.insert key uuid) released
    keysByOwner := if keys.isEmpty then others else others.insert uuid keys }

/-- Everything that a write leaves under its stamp. -/
def apply (tables : WriteTables) (uuid : Uuid) (sid : Sid) (write : EntityWrite) : WriteTables :=
  let written := tables.writeSheets uuid sid write
  { (written.applyLinks uuid write.links).applyKeys uuid write.uniqueKeys with maxSid := sid }

/-- Other entities with a link to `uuid`. -/
def linkedFrom (tables : WriteTables) (uuid : Uuid) : SortedSet Uuid :=
  SortedSet.ofList (((tables.linksByTarget.getD uuid {}).toList.map LinkEdge.source).filter
    fun source => source ≠ uuid)

/-- The tables without an entity. -/
def remove (tables : WriteTables) (uuid : Uuid) : WriteTables :=
  let bare := (tables.applyLinks uuid {}).applyKeys uuid {}
  { bare with
    linksByTarget := bare.linksByTarget.erase uuid
    sheets := bare.sheets.filter fun place _ => decide (place.1 ≠ uuid)
    current := bare.current.filter fun place _ => decide (place.1 ≠ uuid)
    resources := bare.resources.erase uuid }

end WriteTables

structure TableStore where
  tables : WriteTables
  sequence : Sequence
  available : Bool

/-- A call to the store. What it leaves stands also where it fails. -/
abbrev Transaction (α : Type) := ExceptT StorageError (StateM TableStore) α

namespace TableStore

def empty : TableStore := ⟨.empty, .start, true⟩

/-- The tables, when the store is within reach. -/
def locked : Transaction WriteTables := do
  let store ← get
  if store.available then return store.tables
  else throw (.unavailable .write)

def change (tables : WriteTables → WriteTables) : Transaction Unit :=
  modify fun store => { store with tables := tables store.tables }

def nextSid : Transaction Sid :=
  modifyGet fun store =>
    let (sid, sequence) := store.sequence.next
    (sid, { store with sequence })

def create (uuid : Uuid) (itemType : ItemType) (write : EntityWrite) : Transaction Sid := do
  let tables ← locked
  if tables.resources.contains uuid then throw (.uuidConflict uuid)
  else
    match tables.keyConflicts uuid write.uniqueKeys with
    | [] =>
      let sid ← nextSid
      change fun tables =>
        { tables with resources := tables.resources.insert uuid ⟨itemType, sid⟩ }
      change fun tables => tables.apply uuid sid write
      return sid
    | conflicts => throw (.keyConflict conflicts)

/-- Replaces the default sheet. A base stamp must be the current one. -/
def update (uuid : Uuid) (write : EntityWrite) (base : Option Sid) : Transaction Sid := do
  let tables ← locked
  if tables.resources.contains uuid then
    let current := tables.current.getD (uuid, defaultSheet) 0
    match base.filter (· ≠ current) with
    | some expected => throw (.staleWrite uuid expected current)
    | none =>
      match tables.keyConflicts uuid write.uniqueKeys with
      | [] =>
        let sid ← nextSid
        change fun tables => tables.apply uuid sid write
        return sid
      | conflicts => throw (.keyConflict conflicts)
  else throw (.notFound uuid)

/-- Removes an entity from every table, unless another links to it. -/
def purge (uuid : Uuid) : Transaction Unit := do
  let tables ← locked
  if tables.resources.contains uuid then
    match (tables.linkedFrom uuid).toList with
    | [] => change fun tables => tables.remove uuid
    | linkedFrom => throw (.referentialIntegrity uuid linkedFrom)
  else throw (.notFound uuid)

def record (uuid : Uuid) : Transaction EntityRecord := do
  MonadExcept.ofExcept ((← locked).record uuid)

def recordByKey (key : UniqueKey) : Transaction EntityRecord := do
  let tables ← locked
  match tables.keys.get? key with
  | some owner => MonadExcept.ofExcept (tables.record owner)
  | none => throw (.keyNotFound key)

/-- Owners of those keys that are taken. -/
def keyOwners (keys : List UniqueKey) : Transaction (SortedMap UniqueKey Uuid) := do
  let tables ← locked
  return SortedMap.ofList (keys.filterMap fun key => (tables.keys.get? key).map (key, ·))

def sheet (uuid : Uuid) (name : String) : Transaction (Option Properties) := do
  let tables ← locked
  if tables.resources.contains uuid then
    return (tables.current.get? (uuid, name)).bind fun sid => tables.sheets.get? (uuid, name, sid)
  else throw (.notFound uuid)

/-- Every retained default sheet, oldest first. -/
def history (uuid : Uuid) : Transaction (List Revision) := do
  let tables ← locked
  if tables.resources.contains uuid then
    return (tables.defaults uuid).map fun row => ⟨row.1.2.2, row.2⟩
  else throw (.notFound uuid)

/-- Live edges into an entity. -/
def revLinks (uuid : Uuid) : Transaction (List LinkEdge) := do
  return ((← locked).linksByTarget.getD uuid {}).toList

def maxSid : Transaction Sid := do
  return (← locked).maxSid

def currentSids (uuids : List Uuid) : Transaction (SortedMap Uuid Sid) := do
  let tables ← locked
  return SortedMap.ofList (uuids.filterMap fun uuid =>
    (tables.current.get? (uuid, defaultSheet)).map (uuid, ·))

def itemTypeOf (uuid : Uuid) : Transaction (Option ItemType) := do
  return ((← locked).resources.get? uuid).map ResourceRow.itemType

/-- Entities of the given types, sorted by type name, creation and identifier. -/
def list (types : Option (List ItemType)) : Transaction (List EntityKey) := do
  let tables ← locked
  let selected := tables.resources.entries.filter fun entry =>
    WriteStore.isSelected types entry.2.itemType
  let places := selected.map fun entry => (entry.2.itemType, entry.2.createdSid, entry.1)
  return (places.mergeSort fun a b => (compare a b).isLE).map fun place => ⟨place.1, place.2.2⟩

end TableStore

end CachedViews
