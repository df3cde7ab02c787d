import CachedViews.Entity.Basic
import CachedViews.Json.Reader
import CachedViews.Sha256

/-!
Cached views: documents with everything they embed, stamped with the state they were
built from. The fingerprint covers the content and leaves the stamps out.
-/
namespace CachedViews

/-- Linking entities by the field that holds the link. -/
abbrev ReverseLinks := SortedMap String (SortedSet Uuid)

namespace ReverseLinks

def add (links : ReverseLinks) (edge : LinkEdge) : ReverseLinks :=
  links.insert edge.link.field ((links.getD edge.link.field {}).insert edge.source)

/-- Edges into `root`, grouped by field; links of `root` to itself are left out. -/
def ofEdges (root : Uuid) (edges : List LinkEdge) : ReverseLinks :=
  (edges.filter fun edge => edge.source ≠ root).foldl add {}

def sources (links : ReverseLinks) : SortedSet Uuid :=
  SortedSet.ofList (links.values.flatMap SortedSet.toList)

end ReverseLinks

structure View where
  uuid : Uuid
  itemType : ItemType
  embedded : Json
  /-- Stamp of the entity when the view was built. -/
  sid : Sid
  /-- Watermark of the write store when the view was built. -/
  maxSid : Sid
  /-- Every entity visited while embedding, the entity itself left out. -/
  linked : SortedSet Uuid
  revLinks : ReverseLinks
  deriving Inhabited

namespace View

def key (view : View) : EntityKey := ⟨view.itemType, view.uuid⟩

def uuidsJson (uuids : SortedSet Uuid) : Json :=
  .array (uuids.toList.map fun uuid => .string uuid.text)

def revLinksJson (links : ReverseLinks) : Json :=
  .object (links.map fun _ sources => uuidsJson sources).entries

/-- The content that a rebuild from the same state reproduces. -/
def contentJson (view : View) : Json :=
  .object [
    ("embedded", view.embedded),
    ("item_type", .string view.itemType.name),
    ("linked_uuids", uuidsJson view.linked),
    ("rev_links", revLinksJson view.revLinks),
    ("uuid", .string view.uuid.text)]

def fingerprint (view : View) : String :=
  Sha256.hex view.contentJson.text.toUTF8.toList

def toJson (view : View) : Json :=
  .object [
    ("embedded", view.embedded),
    ("item_type", .string view.itemType.name),
    ("linked_uuids", uuidsJson view.linked),
    ("max_sid", .integer view.maxSid),
    ("rev_links", revLinksJson view.revLinks),
    ("sid", .integer view.sid),
    ("uuid", .string view.uuid.text)]

def sid? (value : Json) : Option Sid := do
  let n ← value.integer?
  if Width.holdsSigned 64 n then some n else none

def uuid? (value : Json) : Option Uuid := value.text? >>= Uuid.parse?

def uuids? (value : Json) : Option (SortedSet Uuid) := do
  return SortedSet.ofList (← (← value.items?).mapM uuid?)

def revLinks? (value : Json) : Option ReverseLinks := do
  let entries ← (← value.entries?).mapM fun entry => do return (entry.1, ← uuids? entry.2)
  return SortedMap.ofList entries

def fieldNames : List String :=
  ["uuid", "item_type", "embedded", "sid", "max_sid", "linked_uuids", "rev_links"]

/-- A view is given by its seven fields, by name or in order. -/
def fields? : Json → Option (List Json)
  | .object entries => fieldNames.mapM fun name => Entries.get? name entries
  | .array items => if items.length = fieldNames.length then some items else none
  | _ => none

def ofJson? (value : Json) : Option View := do
  match ← fields? value with
  | [uuid, itemType, embedded, sid, maxSid, linked, revLinks] =>
    return {
      uuid := ← uuid? uuid
      itemType := ⟨← itemType.text?⟩
      embedded
      sid := ← sid? sid
      maxSid := ← sid? maxSid
      linked := ← uuids? linked
      revLinks := ← revLinks? revLinks }
  | _ => none

def text (view : View) : String := view.toJson.text

/-- Reads a view back from its text. Text is read less exactly than it is written: nesting has
a limit, and a fraction can change in its last place. -/
def ofText? (source : String) : Option View := Json.parse? source >>= ofJson?

end View

/-- Why a view no longer matches the write store. -/
inductive StaleReason where
  | entityAdvanced (viewSid currentSid : Sid)
  | linkAdvanced (uuid : Uuid) (currentSid : Sid)
  | entityPurged
  | revLinksChanged
  deriving DecidableEq

inductive ViewState where
  | fresh
  | stale (reasons : List StaleReason)
  | missing
  deriving DecidableEq

def ViewState.isFresh : ViewState → Bool
  | fresh => true
  | _ => false

end CachedViews
