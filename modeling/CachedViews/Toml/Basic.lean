import CachedViews.Number.Double
import CachedViews.Sorted.Entries
import CachedViews.Sorted.Keys

/-!
TOML values. A table may be extended later or not depending on what brought it about, so
each table knows that.
-/
namespace CachedViews

/-- What brought a table about. -/
inductive TableOrigin where
  /-- Its own header; the document itself counts as having one. -/
  | header
  /-- A longer header that leads through it. -/
  | headerPath
  /-- A dotted key that leads through it. -/
  | dottedPath
  /-- A value in braces. -/
  | braces
  deriving DecidableEq, Repr

inductive Toml where
  | string (text : String)
  | integer (value : Int)
  | double (value : Double)
  | bool (value : Bool)
  /-- A date, a time of day, or both. -/
  | moment
  | array (items : List Toml)
  | table (origin : TableOrigin) (entries : List (String × Toml))
  /-- One table for each header in double brackets. -/
  | tables (earlier : List (List (String × Toml))) (latest : List (String × Toml))
  deriving Inhabited

namespace Toml

/-- Entries in increasing key order, each key once. -/
abbrev Table := List (String × Toml)

def string? : Toml → Option String
  | string text => some text
  | _ => none

def bool? : Toml → Option Bool
  | bool value => some value
  | _ => none

def natBelow? (limit : Nat) : Toml → Option Nat
  | integer value => if 0 ≤ value ∧ value < limit then some value.toNat else none
  | _ => none

/-- Whole numbers count as numbers. -/
def number? : Toml → Option Double
  | integer value => some (.ofInt value)
  | double value => some value
  | _ => none

/-- The fields of a section with these names: written by name in a table, or by place in
an array. A moment has no fields. -/
def fields? (names : List String) : Toml → Option Table
  | table _ entries => some entries
  | array items => some (names.zip items)
  | tables earlier latest => some (names.zip ((earlier ++ [latest]).map (table .header)))
  | moment => some []
  | _ => none

/-- A table or an array that holds nothing. -/
def isEmpty : Toml → Bool
  | array items => items.isEmpty
  | table _ entries => entries.isEmpty
  | _ => false

end Toml

end CachedViews
