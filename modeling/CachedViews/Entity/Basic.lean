import CachedViews.Json.Text
import CachedViews.Sorted.Keys
import CachedViews.Sorted.Set
import CachedViews.Uuid

/-!
Entities as the write store holds them: their keys, the links and unique keys
derived from their properties, and the payload of one write.
-/
namespace CachedViews

/-- Version stamp of a write. Zero means that nothing was written. -/
abbrev Sid := Int

@[ext]
structure ItemType where
  name : String
  deriving DecidableEq, Inhabited

instance : Ord ItemType := ⟨compareOn ItemType.name⟩

instance : Std.TransOrd ItemType := inferInstanceAs (Std.TransCmp (compareOn ItemType.name))

instance : Std.LawfulEqOrd ItemType where
  eq_of_compare same := ItemType.ext (eq_of_compareOn ItemType.name same)

@[ext]
structure EntityKey where
  itemType : ItemType
  uuid : Uuid
  deriving DecidableEq, Inhabited

instance : Ord EntityKey := ⟨compareLex (compareOn EntityKey.itemType) (compareOn EntityKey.uuid)⟩

instance : Std.TransOrd EntityKey :=
  inferInstanceAs
    (Std.TransCmp (compareLex (compareOn EntityKey.itemType) (compareOn EntityKey.uuid)))

instance : Std.LawfulEqOrd EntityKey where
  eq_of_compare same :=
    have parts := eq_and_eq_of_compareLex same
    EntityKey.ext (eq_of_compareOn _ parts.1) (eq_of_compareOn _ parts.2)

def EntityKey.text (key : EntityKey) : String := key.itemType.name ++ "/" ++ key.uuid.text

/-- An outgoing reference of some entity: the property that holds it and its target. -/
@[ext]
structure Link where
  field : String
  target : Uuid
  deriving DecidableEq, Inhabited

instance : Ord Link := ⟨compareLex (compareOn Link.field) (compareOn Link.target)⟩

instance : Std.TransOrd Link :=
  inferInstanceAs (Std.TransCmp (compareLex (compareOn Link.field) (compareOn Link.target)))

instance : Std.LawfulEqOrd Link where
  eq_of_compare same :=
    have parts := eq_and_eq_of_compareLex same
    Link.ext (eq_of_compareOn _ parts.1) (eq_of_compareOn _ parts.2)

/-- A link together with the entity that holds it. -/
@[ext]
structure LinkEdge where
  source : Uuid
  link : Link
  deriving DecidableEq, Inhabited

instance : Ord LinkEdge := ⟨compareLex (compareOn LinkEdge.source) (compareOn LinkEdge.link)⟩

instance : Std.TransOrd LinkEdge :=
  inferInstanceAs (Std.TransCmp (compareLex (compareOn LinkEdge.source) (compareOn LinkEdge.link)))

instance : Std.LawfulEqOrd LinkEdge where
  eq_of_compare same :=
    have parts := eq_and_eq_of_compareLex same
    LinkEdge.ext (eq_of_compareOn _ parts.1) (eq_of_compareOn _ parts.2)

/-- A named value that at most one entity holds at a time. -/
@[ext]
structure UniqueKey where
  name : String
  value : String
  deriving DecidableEq, Inhabited

instance : Ord UniqueKey := ⟨compareLex (compareOn UniqueKey.name) (compareOn UniqueKey.value)⟩

instance : Std.TransOrd UniqueKey :=
  inferInstanceAs (Std.TransCmp (compareLex (compareOn UniqueKey.name) (compareOn UniqueKey.value)))

instance : Std.LawfulEqOrd UniqueKey where
  eq_of_compare same :=
    have parts := eq_and_eq_of_compareLex same
    UniqueKey.ext (eq_of_compareOn _ parts.1) (eq_of_compareOn _ parts.2)

def UniqueKey.text (key : UniqueKey) : String := key.name ++ "=" ++ key.value

/-- The current canonical state of an entity. -/
structure EntityRecord where
  uuid : Uuid
  itemType : ItemType
  sid : Sid
  properties : Properties
  links : SortedSet Link
  uniqueKeys : SortedSet UniqueKey
  deriving Inhabited

def EntityRecord.key (record : EntityRecord) : EntityKey := ⟨record.itemType, record.uuid⟩

/-- One write: the new default sheet, further named sheets, and the complete sets of
links and unique keys that hold after it. -/
structure EntityWrite where
  properties : Properties
  sheets : SortedMap String Properties
  links : SortedSet Link
  uniqueKeys : SortedSet UniqueKey
  deriving Inhabited

/-- A retained row of a sheet. -/
structure Revision where
  sid : Sid
  properties : Properties
  deriving Inhabited

end CachedViews
