import CachedViews.Toml.Basic

/-!
How the statements of a document build its tables. A key is written once, a header opens
its table once, and neither reaches into a value.
-/
namespace CachedViews

namespace Toml

structure KeyPath where
  parents : List String
  last : String
  deriving DecidableEq, Repr

/-- What leads through tables: headers and dotted keys follow different rules. -/
inductive Walk where
  | header
  | dottedKey
  deriving DecidableEq, Repr

namespace Walk

/-- The origin of the tables that are missing on the way. -/
def created : Walk → TableOrigin
  | header => .headerPath
  | dottedKey => .dottedPath

/-- Braces close a table to headers, and a header of its own closes it to dotted keys. -/
def passes : Walk → TableOrigin → Bool
  | header, origin => origin ≠ .braces
  | dottedKey, origin => origin = .headerPath ∨ origin = .dottedPath

end Walk

/-- Changes the table at the end of a path, creating what is missing on the way. The way
leads to the latest of tables in double brackets. -/
def updateAt (walk : Walk) (change : TableOrigin → Table → Option Table) :
    TableOrigin → List String → Table → Option Table
  | origin, [], entries => change origin entries
  | _, key :: path, entries => do
    let child ← match Entries.get? key entries with
      | none => (updateAt walk change walk.created path []).map (.table walk.created)
      | some (.table origin inner) =>
        if walk.passes origin then (updateAt walk change origin path inner).map (.table origin)
        else none
      | some (.tables earlier latest) =>
        (updateAt walk change .header path latest).map (.tables earlier)
      | some _ => none
    return Entries.insert key child entries

/-- Writes a key that the table does not have yet. -/
def addEntry (key : String) (value : Toml) (entries : Table) : Option Table :=
  if (Entries.get? key entries).isSome then none else some (Entries.insert key value entries)

/-- A dotted key ends in a table that only dotted keys have made. -/
def assign (key : KeyPath) (value : Toml) (origin : TableOrigin) (entries : Table) :
    Option Table :=
  if key.parents.isEmpty then addEntry key.last value entries
  else
    updateAt .dottedKey
      (fun origin entries =>
        if origin = .dottedPath then addEntry key.last value entries else none)
      origin key.parents entries

def ofBraces? (pairs : List (KeyPath × Toml)) : Option Toml :=
  (pairs.foldlM (fun entries pair => assign pair.1 pair.2 .braces entries) []).map
    (.table .braces)

/-- Opens the table of a header. Only one that longer headers have made may exist already. -/
def openTable (key : String) (entries : Table) : Option Table :=
  match Entries.get? key entries with
  | none => some (Entries.insert key (.table .header []) entries)
  | some (.table .headerPath inner) => some (Entries.insert key (.table .header inner) entries)
  | some _ => none

/-- Appends a table for a header in double brackets. -/
def appendTable (key : String) (entries : Table) : Option Table :=
  match Entries.get? key entries with
  | none => some (Entries.insert key (.tables [] []) entries)
  | some (.tables earlier latest) =>
    some (Entries.insert key (.tables (earlier ++ [latest]) []) entries)
  | some _ => none

inductive Statement where
  | assign (key : KeyPath) (value : Toml)
  | header (name : KeyPath)
  /-- A header in double brackets. -/
  | element (name : KeyPath)

/-- A document read so far, and the path of the table that assignments go to. -/
structure Draft where
  root : Table
  current : List String

namespace Draft

def empty : Draft := ⟨[], []⟩

def openAt (draft : Draft) (name : KeyPath) (change : String → Table → Option Table) :
    Option Draft := do
  let root ← updateAt .header (fun _ => change name.last) .header name.parents draft.root
  return ⟨root, name.parents ++ [name.last]⟩

def extend (draft : Draft) : Statement → Option Draft
  | .assign key value => do
    let root ← updateAt .header (Toml.assign key value) .header draft.current draft.root
    return { draft with root }
  | .header name => draft.openAt name openTable
  | .element name => draft.openAt name appendTable

end Draft

def ofStatements? (statements : List Statement) : Option Toml :=
  (statements.foldlM Draft.extend .empty).map fun draft => .table .header draft.root

end Toml

end CachedViews
