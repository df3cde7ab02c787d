import CachedViews.Registry.EmbedTree
import CachedViews.Registry.TypeDecl

/-!
The type registry: declarations by type name, admitted only with well-formed paths.
-/
namespace CachedViews

structure Registry where
  types : SortedMap ItemType TypeDecl

namespace Registry

instance : EmptyCollection Registry := ⟨⟨{}⟩⟩

instance : Inhabited Registry := ⟨{}⟩

def get? (registry : Registry) (itemType : ItemType) : Option TypeDecl :=
  registry.types.get? itemType

def contains (registry : Registry) (name : String) : Bool := registry.types.contains ⟨name⟩

def typeNames (registry : Registry) : List ItemType := registry.types.keys

def require (registry : Registry) (itemType : ItemType) : Except ValidationError TypeDecl :=
  match registry.get? itemType with
  | some decl => .ok decl
  | none => .error (.unknownItemType itemType)

def pathRule : String := "expected segment(.segment)* with an optional trailing .*"

/-- Adds a declaration; the first ill-formed path is reported. -/
def register (registry : Registry) (decl : TypeDecl) : Except ValidationError Registry :=
  if (registry.get? decl.name).isSome then .error (.duplicateItemType decl.name)
  else
    match decl.paths.find? fun path => !Path.wellFormed path with
    | some path => .error (.invalidEmbedPath decl.name path pathRule)
    | none => .ok ⟨registry.types.insert decl.name decl⟩

def isLink (registry : Registry) (itemType : ItemType) (field : String) : Bool :=
  match registry.get? itemType with
  | some decl => decl.isLink field
  | none => false

/-- Embed paths of a type; a type without declaration embeds nothing. -/
def embedPaths (registry : Registry) (itemType : ItemType) : List String :=
  match registry.get? itemType with
  | some decl => decl.embedded
  | none => []

def calculated (registry : Registry) (itemType : ItemType) : List CalculatedField :=
  match registry.get? itemType with
  | some decl => decl.calculated
  | none => []

end Registry

end CachedViews
