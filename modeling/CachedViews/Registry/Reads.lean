import CachedViews.Registry.Basic

/-!
What a view reads: for one dependent type, the fields of each type that its embed
paths and calculated dependencies follow through declared links.
-/
namespace CachedViews

/-- Fields of one type; `all` stands for every one of them. -/
structure FieldSelection where
  all : Bool
  fields : SortedSet String
  deriving DecidableEq

namespace FieldSelection

def nothing : FieldSelection := ⟨false, {}⟩

/-- Whether a change of `field` is read; below a dot only the first segment counts. -/
def covers (selection : FieldSelection) (field : String) : Bool :=
  selection.all || selection.fields.contains ((Path.segments field).headD field)

end FieldSelection

structure Reads where
  byType : SortedMap ItemType FieldSelection
  /-- Targets of the links that calculated dependencies follow. -/
  calculatedTypes : SortedSet ItemType
  deriving DecidableEq

namespace Reads

def nothing : Reads := ⟨{}, {}⟩

def selection (reads : Reads) (itemType : ItemType) : FieldSelection :=
  reads.byType.getD itemType .nothing

def addAll (reads : Reads) (itemType : ItemType) : Reads :=
  { reads with byType := reads.byType.insert itemType { reads.selection itemType with all := true } }

def addField (reads : Reads) (itemType : ItemType) (field : String) : Reads :=
  let selection := reads.selection itemType
  { reads with
    byType := reads.byType.insert itemType
      { selection with fields := selection.fields.insert field } }

def addCalculated (reads : Reads) (itemType : ItemType) : Reads :=
  { reads with calculatedTypes := reads.calculatedTypes.insert itemType }

def covers (reads : Reads) (itemType : ItemType) (field : String) : Bool :=
  match reads.byType.get? itemType with
  | some selection => selection.covers field
  | none => false

end Reads

namespace Registry

def linkTarget? (registry : Registry) (itemType : ItemType) (field : String) : Option ItemType := do
  let decl ← registry.get? itemType
  return (← decl.links.get? field).target

/-- Follows one path from `current`. A calculated path that ends on a link reads the
whole target. -/
def follow (registry : Registry) (calculated : Bool) :
    ItemType → List String → Reads → Reads
  | _, [], reads => reads
  | current, segment :: rest, reads =>
    if segment = Path.wildcard then reads.addAll current
    else
      let reads := reads.addField current segment
      match registry.linkTarget? current segment with
      | none => reads
      | some target =>
        let reads := if calculated then reads.addCalculated target else reads
        if rest = [] then (if calculated then reads.addAll target else reads)
        else registry.follow calculated target rest reads

def followAll (registry : Registry) (calculated : Bool) (itemType : ItemType)
    (paths : List String) (reads : Reads) : Reads :=
  paths.foldl
    (fun reads path => registry.follow calculated itemType (Path.segments path) reads) reads

/-- What a view of `itemType` reads; `none` for a type without declaration, which must
be taken to read everything. -/
def reads? (registry : Registry) (itemType : ItemType) : Option Reads := do
  let decl ← registry.get? itemType
  let embedded := registry.followAll false itemType decl.embedded .nothing
  return registry.followAll true itemType (decl.calculated.flatMap CalculatedField.dependsOn)
    embedded

end Registry

end CachedViews
