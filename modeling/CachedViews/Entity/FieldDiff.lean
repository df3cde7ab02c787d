import CachedViews.Entity.Basic

/-!
Field-level differences between two sheets, as text entries `Type.field`, and the
fields that such entries name for a given type.
-/
namespace CachedViews

namespace FieldDiff

def sameField (a b : Option Json) : Bool :=
  match a, b with
  | none, none => true
  | some a, some b => a.same b
  | _, _ => false

/-- Top-level fields that are new, gone or hold another value. -/
def changedFields (old new : Properties) : SortedSet String :=
  (SortedSet.ofList (old.keys ++ new.keys)).filter fun field =>
    !sameField (old.get? field) (new.get? field)

def entry (itemType : ItemType) (field : String) : String := itemType.name ++ "." ++ field

def encode (itemType : ItemType) (old new : Properties) : List String :=
  (changedFields old new).toList.map (entry itemType)

/-- What follows `front` in a text that begins with it. -/
def remainder? (front text : String) : Option String :=
  if front.toList.isPrefixOf text.toList then
    some (String.ofList (text.toList.drop front.toList.length))
  else none

/-- The text before the first dot, when there is one. -/
def head? (text : String) : Option String :=
  match text.toList.span (· ≠ '.') with
  | (_, []) => none
  | (head, _ :: _) => some (String.ofList head)

/-- The field of `changed` named by one entry. A bare name counts as a field of
`changed`, and an entry of another registered type names none. -/
def field? (isRegistered : String → Bool) (changed : ItemType) (text : String) : Option String :=
  match remainder? (changed.name ++ ".") text with
  | some field => some field
  | none =>
    match head? text with
    | some head => if isRegistered head then none else some text
    | none => some text

def decode (isRegistered : String → Bool) (changed : ItemType) (diff : List String) : List String :=
  diff.filterMap (field? isRegistered changed)

end FieldDiff

end CachedViews
