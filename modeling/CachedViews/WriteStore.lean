import CachedViews.Error

/-!
The write store as an engine works on it: canonical entities, each gathered in one row with
every retained sheet, an index from each entity to the edges that point at it, and the owner
of each unique key. A write either fails and yields no new state, or applies all its effects
and takes the next stamp. `WriteStore.Tables` has the tables that the rows are gathered from.
-/
namespace CachedViews

/-- Name of the sheet that holds an entity's properties. -/
def defaultSheet : String := ""

/-- Rows of one sheet by stamp; the current row is the last. -/
abbrev SheetRows := SortedMap Sid Properties

structure EntityRow where
  itemType : ItemType
  createdSid : Sid
  sheets : SortedMap String SheetRows
  links : SortedSet Link
  uniqueKeys : SortedSet UniqueKey
  deriving Inhabited

namespace EntityRow

def rows (row : EntityRow) (sheet : String) : SheetRows := row.sheets.getD sheet {}

def current? (row : EntityRow) (sheet : String) : Option Revision :=
  (row.rows sheet).entries.getLast?.map fun entry => ⟨entry.1, entry.2⟩

def writeSheet (row : EntityRow) (sid : Sid) (sheet : String) (properties : Properties) :
    EntityRow :=
  { row with sheets := row.sheets.insert sheet ((row.rows sheet).insert sid properties) }

/-- Adds the default sheet and then each named sheet at one stamp. -/
def writeSheets (row : EntityRow) (sid : Sid) (write : EntityWrite) : EntityRow :=
  write.sheets.entries.foldl (fun row sheet => row.writeSheet sid sheet.1 sheet.2)
    (row.writeSheet sid defaultSheet write.properties)

def history (row : EntityRow) : List Revision :=
  (row.rows defaultSheet).entries.map fun entry => ⟨entry.1, entry.2⟩

end EntityRow

structure WriteStore where
  rows : SortedMap Uuid EntityRow
  /-- Edges by their target. A target without edges has no entry. -/
  incoming : SortedMap Uuid (SortedSet LinkEdge)
  owners : SortedMap UniqueKey Uuid
  /-- The highest stamp handed out. Stamps count writes from one, so no store runs out of
  them. -/
  maxSid : Sid
  available : Bool
  deriving Inhabited

namespace WriteStore

def empty : WriteStore := ⟨{}, {}, {}, 0, true⟩

def nextSid (store : WriteStore) : Sid := store.maxSid + 1

def contains (store : WriteStore) (uuid : Uuid) : Bool := store.rows.contains uuid

def currentSid? (store : WriteStore) (uuid : Uuid) : Option Sid := do
  return (← (← store.rows.get? uuid).current? defaultSheet).sid

def record? (store : WriteStore) (uuid : Uuid) : Option EntityRecord := do
  let row ← store.rows.get? uuid
  let current ← row.current? defaultSheet
  return ⟨uuid, row.itemType, current.sid, current.properties, row.links, row.uniqueKeys⟩

def get (store : WriteStore) (uuid : Uuid) : Except StorageError EntityRecord :=
  match store.record? uuid with
  | some record => .ok record
  | none => .error (.notFound uuid)

def getByUniqueKey (store : WriteStore) (key : UniqueKey) : Except StorageError EntityRecord :=
  match store.owners.get? key with
  | some owner => store.get owner
  | none => .error (.keyNotFound key)

/-- Owners of those keys that are taken. -/
def keyOwners (store : WriteStore) (keys : List UniqueKey) : SortedMap UniqueKey Uuid :=
  SortedMap.ofList (keys.filterMap fun key => (store.owners.get? key).map (key, ·))

def ownedByOther (store : WriteStore) (uuid : Uuid) (key : UniqueKey) : Bool :=
  match store.owners.get? key with
  | some owner => decide (owner ≠ uuid)
  | none => false

/-- Keys of a write that other entities own. -/
def keyConflicts (store : WriteStore) (uuid : Uuid) (keys : SortedSet UniqueKey) :
    List UniqueKey :=
  keys.toList.filter (store.ownedByOther uuid)

def sheet (store : WriteStore) (uuid : Uuid) (name : String) :
    Except StorageError (Option Properties) :=
  match store.rows.get? uuid with
  | some row => .ok ((row.current? name).map Revision.properties)
  | none => .error (.notFound uuid)

/-- Every retained default sheet, oldest first. -/
def history (store : WriteStore) (uuid : Uuid) : Except StorageError (List Revision) :=
  match store.rows.get? uuid with
  | some row => .ok row.history
  | none => .error (.notFound uuid)

/-- Live edges into an entity. -/
def revLinks (store : WriteStore) (uuid : Uuid) : List LinkEdge :=
  (store.incoming.getD uuid {}).toList

def currentSids (store : WriteStore) (uuids : List Uuid) : SortedMap Uuid Sid :=
  SortedMap.ofList (uuids.filterMap fun uuid => (store.currentSid? uuid).map (uuid, ·))

def itemTypeOf (store : WriteStore) (uuid : Uuid) : Option ItemType :=
  (store.rows.get? uuid).map EntityRow.itemType

def isSelected (types : Option (List ItemType)) (itemType : ItemType) : Bool :=
  match types with
  | none => true
  | some types => decide (itemType ∈ types)

/-- Entities of the given types, by type name and then by creation. -/
def list (store : WriteStore) (types : Option (List ItemType)) : List EntityKey :=
  let selected := store.rows.entries.filter fun entry => isSelected types entry.2.itemType
  let placed := SortedMap.ofList
    (selected.map fun (uuid, row) => ((row.itemType, row.createdSid), uuid))
  placed.entries.map fun entry => ⟨entry.1.1, entry.2⟩

def removeEdge (incoming : SortedMap Uuid (SortedSet LinkEdge)) (source : Uuid) (link : Link) :
    SortedMap Uuid (SortedSet LinkEdge) :=
  let remaining := (incoming.getD link.target {}).erase ⟨source, link⟩
  if remaining.isEmpty then incoming.erase link.target
  else incoming.insert link.target remaining

def addEdge (incoming : SortedMap Uuid (SortedSet LinkEdge)) (source : Uuid) (link : Link) :
    SortedMap Uuid (SortedSet LinkEdge) :=
  incoming.insert link.target ((incoming.getD link.target {}).insert ⟨source, link⟩)

/-- Moves the edges of `source` from one set of links to another; edges in both stay
untouched. -/
def replaceEdges (incoming : SortedMap Uuid (SortedSet LinkEdge)) (source : Uuid)
    (old new : SortedSet Link) : SortedMap Uuid (SortedSet LinkEdge) :=
  (new.diff old).toList.foldl (fun incoming link => addEdge incoming source link)
    ((old.diff new).toList.foldl (fun incoming link => removeEdge incoming source link) incoming)

def replaceKeys (owners : SortedMap UniqueKey Uuid) (owner : Uuid) (old new : SortedSet UniqueKey) :
    SortedMap UniqueKey Uuid :=
  (new.diff old).toList.foldl (fun owners key => owners.insert key owner)
    ((old.diff new).toList.foldl SortedMap.erase owners)

/-- Writes one row with everything derived from it and takes the next stamp. -/
def commit (store : WriteStore) (uuid : Uuid) (row : EntityRow) (write : EntityWrite) :
    Sid × WriteStore :=
  let sid := store.nextSid
  let written := { row.writeSheets sid write with links := write.links, uniqueKeys := write.uniqueKeys }
  (sid, { store with
    rows := store.rows.insert uuid written
    incoming := replaceEdges store.incoming uuid row.links write.links
    owners := replaceKeys store.owners uuid row.uniqueKeys write.uniqueKeys
    maxSid := sid })

def create (store : WriteStore) (uuid : Uuid) (itemType : ItemType) (write : EntityWrite) :
    Except StorageError (Sid × WriteStore) :=
  if store.contains uuid then .error (.uuidConflict uuid)
  else
    match store.keyConflicts uuid write.uniqueKeys with
    | [] => .ok (store.commit uuid ⟨itemType, store.nextSid, {}, {}, {}⟩ write)
    | conflicts => .error (.keyConflict conflicts)

/-- Replaces the default sheet. A base stamp must be the current one. -/
def update (store : WriteStore) (uuid : Uuid) (write : EntityWrite) (base : Option Sid) :
    Except StorageError (Sid × WriteStore) :=
  match store.rows.get? uuid with
  | none => .error (.notFound uuid)
  | some row =>
    let current := (store.currentSid? uuid).getD 0
    let expected := base.getD current
    if expected ≠ current then .error (.staleWrite uuid expected current)
    else
      match store.keyConflicts uuid write.uniqueKeys with
      | [] => .ok (store.commit uuid row write)
      | conflicts => .error (.keyConflict conflicts)

/-- Other entities with a link to `uuid`. -/
def linkedFrom (store : WriteStore) (uuid : Uuid) : SortedSet Uuid :=
  SortedSet.ofList (((store.revLinks uuid).map LinkEdge.source).filter fun source => source ≠ uuid)

/-- Removes an entity with its sheets, edges and keys, unless another links to it. -/
def purge (store : WriteStore) (uuid : Uuid) : Except StorageError WriteStore :=
  match store.rows.get? uuid with
  | none => .error (.notFound uuid)
  | some row =>
    match (store.linkedFrom uuid).toList with
    | [] => .ok { store with
        rows := store.rows.erase uuid
        incoming := (replaceEdges store.incoming uuid row.links {}).erase uuid
        owners := replaceKeys store.owners uuid row.uniqueKeys {} }
    | linkedFrom => .error (.referentialIntegrity uuid linkedFrom)

end WriteStore

end CachedViews
