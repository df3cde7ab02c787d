import CachedViews.Registry.Basic

/-!
Building an embedded document. A tree of kept fields turns a record into a document in
which followed links are replaced by what they lead to: the target's own document, its
bare identifier when the target is already being built, or null when it is missing.
-/
namespace CachedViews

namespace Document

mutual

/-- Applies an embed tree to a value that is no link. -/
def select (tree : EmbedTree) : Json → Json
  | .object entries => .object (selectEntries tree entries)
  | .array items => .array (selectItems tree items)
  | other => other

def selectItems (tree : EmbedTree) : List Json → List Json
  | [] => []
  | item :: rest => select tree item :: selectItems tree rest

def selectEntries (tree : EmbedTree) : List (String × Json) → List (String × Json)
  | [] => []
  | (field, value) :: rest =>
    if tree.keeps field then
      (field, match tree.child? field with
        | some child => select child value
        | none => value) :: selectEntries tree rest
    else selectEntries tree rest

end

mutual

/-- Replaces the identifiers in a link value; other values stay. -/
def replaceLinks (render : Uuid → Json) : Json → Json
  | .string raw =>
    match Uuid.parse? raw with
    | some target => render target
    | none => .string raw
  | .array items => .array (replaceLinkItems render items)
  | other => other

def replaceLinkItems (render : Uuid → Json) : List Json → List Json
  | [] => []
  | item :: rest => replaceLinks render item :: replaceLinkItems render rest

end

/-- Builds a document from a record and the entities on the path to it. -/
abbrev Builder := EntityRecord → List Uuid → Json

section

variable (registry : Registry) (lookup : Uuid → Option EntityRecord)

def target (build : Builder) (path : List Uuid) (uuid : Uuid) : Json :=
  if uuid ∈ path then .string uuid.text
  else
    match lookup uuid with
    | some record => build record (path ++ [uuid])
    | none => .null

/-- Every document names its own entity and type. -/
def withIdentity (record : EntityRecord) (entries : List (String × Json)) : Json :=
  .object (Entries.insert "@type" (.string record.itemType.name)
    (Entries.insert "uuid" (.string record.uuid.text) entries))

/-- The kept fields of a record; `builders` follow the links that the tree expands. -/
def keptEntries (tree : EmbedTree) (builders : List (String × Builder)) (record : EntityRecord)
    (path : List Uuid) : List (String × Json) :=
  record.properties.entries.filterMap fun (field, value) =>
    if tree.keeps field then
      match tree.child? field, Entries.get? field builders with
      | some child, some build =>
        if registry.isLink record.itemType field then
          some (field, replaceLinks (target lookup build path) value)
        else some (field, select child value)
      | _, _ => some (field, value)
    else none

mutual

def builder : EmbedTree → Builder
  | .node fields children => fun record path =>
    withIdentity record
      (keptEntries registry lookup (.node fields children) (builders children) record path)

def builders : List (String × EmbedTree) → List (String × Builder)
  | [] => []
  | (field, tree) :: rest => (field, builder tree) :: builders rest

end

/-- The value at a path of segments, following links. A link at the end gives the
target's whole sheet. -/
def valueAt : List String → List (String × Json) → ItemType → Json
  | [], entries, _ => .object entries
  | segment :: rest, entries, itemType =>
    match Entries.get? segment entries with
    | none => .null
    | some value =>
      if registry.isLink itemType segment then
        let follow := fun (raw : Json) =>
          match raw.text? >>= Uuid.parse? >>= lookup with
          | some record => valueAt rest record.properties.entries record.itemType
          | none => .null
        match value with
        | .array items => .array (items.map follow)
        | single => follow single
      else if rest = [] then value
      else
        match value with
        | .object nested => valueAt rest nested itemType
        | _ => .null

def inputs (field : CalculatedField) (record : EntityRecord) : CalculatedInputs :=
  SortedMap.ofList (field.dependsOn.map fun path =>
    (path, valueAt registry lookup (Path.segments path) record.properties.entries record.itemType))

def addCalculated (record : EntityRecord) (fields : List CalculatedField) : Json → Json
  | .object entries =>
    .object (fields.foldl (fun entries field =>
      Entries.insert field.name
        (field.compute record.properties (inputs registry lookup field record)) entries) entries)
  | other => other

/-- The document of an entity under an embed specification. -/
def ofRecord (spec : List String) (record : EntityRecord) : Json :=
  addCalculated registry lookup record (registry.calculated record.itemType)
    (builder registry lookup (EmbedTree.ofPaths spec) record [record.uuid])

end

end Document

end CachedViews
