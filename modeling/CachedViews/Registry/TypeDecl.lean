import CachedViews.Error

/-!
Declarations of entity types: what a view of the type embeds, which properties are
links or unique keys, and which properties are calculated when a view is built.
-/
namespace CachedViews

structure LinkDecl where
  target : ItemType
  /-- The property holds a list of identifiers. -/
  many : Bool
  deriving DecidableEq, Inhabited

/-- Resolved values by dependency path. -/
abbrev CalculatedInputs := SortedMap String Json

/-- A property computed from the entity's own properties and the values at its
dependency paths. -/
structure CalculatedField where
  name : String
  dependsOn : List String
  compute : Properties → CalculatedInputs → Json
  deriving Inhabited

structure TypeDecl where
  name : ItemType
  embedded : List String
  links : SortedMap String LinkDecl
  uniqueFields : List String
  calculated : List CalculatedField
  /-- What the reader of identifiers says of a text that is none. -/
  unreadable : String → String
  deriving Inhabited

namespace TypeDecl

def ofName (name : ItemType) : TypeDecl := ⟨name, [], {}, [], [], fun _ => "invalid uuid"⟩

/-- A path declared twice counts once. -/
def embed (decl : TypeDecl) (path : String) : TypeDecl :=
  if path ∈ decl.embedded then decl else { decl with embedded := decl.embedded ++ [path] }

def link (decl : TypeDecl) (field : String) (target : ItemType) (many : Bool) : TypeDecl :=
  { decl with links := decl.links.insert field ⟨target, many⟩ }

def uniqueKey (decl : TypeDecl) (field : String) : TypeDecl :=
  { decl with uniqueFields := decl.uniqueFields ++ [field] }

def calculate (decl : TypeDecl) (field : CalculatedField) : TypeDecl :=
  { decl with calculated := decl.calculated ++ [field] }

/-- Every declared path, embedded ones first. -/
def paths (decl : TypeDecl) : List String :=
  decl.embedded ++ decl.calculated.flatMap CalculatedField.dependsOn

def isLink (decl : TypeDecl) (field : String) : Bool := decl.links.contains field

def uniqueKeyName (decl : TypeDecl) (field : String) : String := decl.name.name ++ ":" ++ field

def invalidLink (decl : TypeDecl) (field reason : String) : ValidationError :=
  .invalidLink decl.name field reason

def linkTo (decl : TypeDecl) (field raw : String) : Except ValidationError Link :=
  match Uuid.parse? raw with
  | some target => .ok ⟨field, target⟩
  | none => .error (decl.invalidLink field (decl.unreadable raw))

def linkItem (decl : TypeDecl) (field : String) : Json → Except ValidationError Link
  | .string raw => decl.linkTo field raw
  | _ => .error (decl.invalidLink field "array items must be uuid strings")

/-- Links held by the value of one declared property. -/
def linksOfValue (decl : TypeDecl) (field : String) (many : Bool) (value : Json) :
    Except ValidationError (List Link) :=
  match many, value with
  | _, .null => .ok []
  | false, .string raw => do return [← decl.linkTo field raw]
  | true, .array items => items.mapM (decl.linkItem field)
  | _, other => .error (decl.invalidLink field ("unexpected value " ++ other.text))

def linksOfField (decl : TypeDecl) (properties : Properties) (entry : String × LinkDecl) :
    Except ValidationError (List Link) :=
  match properties.get? entry.1 with
  | none => .ok []
  | some value => decl.linksOfValue entry.1 entry.2.many value

/-- The links that a sheet declares; the first field in order with a value that is no
link is reported. -/
def extractLinks (decl : TypeDecl) (properties : Properties) :
    Except ValidationError (SortedSet Link) := do
  let links ← decl.links.entries.mapM (decl.linksOfField properties)
  return SortedSet.ofList links.flatten

def uniqueKey? (decl : TypeDecl) (properties : Properties) (field : String) : Option UniqueKey := do
  let value ← properties.get? field
  return ⟨decl.uniqueKeyName field, ← value.scalarText?⟩

/-- The unique keys that a sheet declares; only scalars make keys. -/
def extractUniqueKeys (decl : TypeDecl) (properties : Properties) : SortedSet UniqueKey :=
  SortedSet.ofList (decl.uniqueFields.filterMap (decl.uniqueKey? properties))

def entityWrite (decl : TypeDecl) (properties : Properties) :
    Except ValidationError EntityWrite := do
  return ⟨properties, {}, ← decl.extractLinks properties, decl.extractUniqueKeys properties⟩

end TypeDecl

end CachedViews
