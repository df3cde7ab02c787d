import CachedViews.WriteStore

/-!
The write store without its indexes: one entry for each live entity and the highest stamp.
Every answer is found by looking at the entries, so nothing has to be kept in step.
-/
namespace CachedViews

structure LedgerEntry where
  itemType : ItemType
  createdSid : Sid
  /-- Every default sheet, oldest first. -/
  revisions : List Revision
  /-- The last value of each named sheet. -/
  sheets : SortedMap String Properties
  links : SortedSet Link
  uniqueKeys : SortedSet UniqueKey

namespace LedgerEntry

def blank (itemType : ItemType) (createdSid : Sid) : LedgerEntry :=
  ⟨itemType, createdSid, [], {}, {}, {}⟩

/-- Zero when nothing was written. -/
def currentSid (entry : LedgerEntry) : Sid := (entry.revisions.getLast?.map Revision.sid).getD 0

def record? (uuid : Uuid) (entry : LedgerEntry) : Option EntityRecord :=
  entry.revisions.getLast?.map fun current =>
    ⟨uuid, entry.itemType, current.sid, current.properties, entry.links, entry.uniqueKeys⟩

def sheet? (entry : LedgerEntry) (name : String) : Option Properties :=
  if name = defaultSheet then entry.revisions.getLast?.map Revision.properties
  else entry.sheets.get? name

def write (entry : LedgerEntry) (sid : Sid) (write : EntityWrite) : LedgerEntry :=
  { entry with
    revisions := entry.revisions ++ [⟨sid, write.properties⟩]
    sheets := write.sheets.entries.foldl (fun sheets sheet => sheets.insert sheet.1 sheet.2)
      entry.sheets
    links := write.links
    uniqueKeys := write.uniqueKeys }

end LedgerEntry

structure Ledger where
  entities : SortedMap Uuid LedgerEntry
  highest : Sid

namespace Ledger

def empty : Ledger := ⟨{}, 0⟩

/-- The entity that holds a key. -/
def owner? (ledger : Ledger) (key : UniqueKey) : Option Uuid :=
  (ledger.entities.entries.find? fun entity => decide (key ∈ entity.2.uniqueKeys)).map Prod.fst

def heldByOther (ledger : Ledger) (uuid : Uuid) (key : UniqueKey) : Bool :=
  ledger.entities.entries.any fun entity =>
    decide (entity.1 ≠ uuid ∧ key ∈ entity.2.uniqueKeys)

/-- The keys of a write that other entities hold, in order. -/
def takenKeys (ledger : Ledger) (uuid : Uuid) (keys : SortedSet UniqueKey) : List UniqueKey :=
  keys.toList.filter (ledger.heldByOther uuid)

/-- The other entities that link to an entity, in order. -/
def linkingTo (ledger : Ledger) (uuid : Uuid) : List Uuid :=
  (ledger.entities.filter fun source entry =>
    decide (source ≠ uuid) && entry.links.toList.any fun link => decide (link.target = uuid)).keys

/-- Writes one entity under the next stamp. -/
def write (ledger : Ledger) (uuid : Uuid) (entry : LedgerEntry) (write : EntityWrite) :
    Sid × Ledger :=
  let sid := ledger.highest + 1
  (sid, ⟨ledger.entities.insert uuid (entry.write sid write), sid⟩)

def create (ledger : Ledger) (uuid : Uuid) (itemType : ItemType) (write : EntityWrite) :
    Except StorageError (Sid × Ledger) :=
  match ledger.entities.get? uuid with
  | some _ => .error (.uuidConflict uuid)
  | none =>
    match ledger.takenKeys uuid write.uniqueKeys with
    | [] => .ok (ledger.write uuid (.blank itemType (ledger.highest + 1)) write)
    | taken => .error (.keyConflict taken)

def update (ledger : Ledger) (uuid : Uuid) (write : EntityWrite) (base : Option Sid) :
    Except StorageError (Sid × Ledger) :=
  match ledger.entities.get? uuid with
  | none => .error (.notFound uuid)
  | some entry =>
    match base.filter fun sid => decide (sid ≠ entry.currentSid) with
    | some expected => .error (.staleWrite uuid expected entry.currentSid)
    | none =>
      match ledger.takenKeys uuid write.uniqueKeys with
      | [] => .ok (ledger.write uuid entry write)
      | taken => .error (.keyConflict taken)

def purge (ledger : Ledger) (uuid : Uuid) : Except StorageError Ledger :=
  match ledger.entities.get? uuid with
  | none => .error (.notFound uuid)
  | some _ =>
    match ledger.linkingTo uuid with
    | [] => .ok { ledger with entities := ledger.entities.erase uuid }
    | sources => .error (.referentialIntegrity uuid sources)

def record? (ledger : Ledger) (uuid : Uuid) : Option EntityRecord :=
  (ledger.entities.get? uuid).bind (LedgerEntry.record? uuid)

def get (ledger : Ledger) (uuid : Uuid) : Except StorageError EntityRecord :=
  match ledger.record? uuid with
  | some record => .ok record
  | none => .error (.notFound uuid)

def getByUniqueKey (ledger : Ledger) (key : UniqueKey) : Except StorageError EntityRecord :=
  match ledger.owner? key with
  | some owner => ledger.get owner
  | none => .error (.keyNotFound key)

def keyOwners (ledger : Ledger) (keys : List UniqueKey) : SortedMap UniqueKey Uuid :=
  SortedMap.ofList (keys.filterMap fun key => (ledger.owner? key).map (key, ·))

def sheet (ledger : Ledger) (uuid : Uuid) (name : String) :
    Except StorageError (Option Properties) :=
  match ledger.entities.get? uuid with
  | some entry => .ok (entry.sheet? name)
  | none => .error (.notFound uuid)

def history (ledger : Ledger) (uuid : Uuid) : Except StorageError (List Revision) :=
  match ledger.entities.get? uuid with
  | some entry => .ok entry.revisions
  | none => .error (.notFound uuid)

/-- Every edge of a live entity. -/
def edges (ledger : Ledger) : List LinkEdge :=
  ledger.entities.entries.flatMap fun entity => entity.2.links.toList.map (⟨entity.1, ·⟩)

/-- The edges into an entity, in order. -/
def revLinks (ledger : Ledger) (uuid : Uuid) : List LinkEdge :=
  (SortedSet.ofList (ledger.edges.filter fun edge => decide (edge.link.target = uuid))).toList

def currentSids (ledger : Ledger) (uuids : List Uuid) : SortedMap Uuid Sid :=
  SortedMap.ofList (uuids.filterMap fun uuid =>
    (ledger.record? uuid).map fun record => (uuid, record.sid))

def itemTypeOf (ledger : Ledger) (uuid : Uuid) : Option ItemType :=
  (ledger.entities.get? uuid).map LedgerEntry.itemType

/-- Entities of the given types, sorted by type, creation and identifier. -/
def list (ledger : Ledger) (types : Option (List ItemType)) : List EntityKey :=
  let selected := ledger.entities.entries.filter fun entity =>
    WriteStore.isSelected types entity.2.itemType
  let places := selected.map fun entity => (entity.2.itemType, entity.2.createdSid, entity.1)
  (places.mergeSort fun a b => (compare a b).isLE).map fun place => ⟨place.1, place.2.2⟩

end Ledger

end CachedViews
