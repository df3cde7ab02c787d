import CachedViews.Number.Double
import CachedViews.Sorted.Map

/-!
JSON values. Whole numbers and binary64 numbers are different values; an object
is an entry list in increasing key order, each key once.
-/
namespace CachedViews

inductive Json where
  | null
  | bool (value : Bool)
  | integer (value : Int)
  | double (value : Double)
  | string (text : String)
  | array (items : List Json)
  | object (entries : List (String × Json))
  deriving Inhabited

/-- The properties of one sheet. -/
abbrev Properties := SortedMap String Json

namespace Json

mutual

/-- Equality of values: the two zeros of binary64 are equal, a whole number never
equals a binary64 number. -/
def same : Json → Json → Bool
  | null, null => true
  | bool a, bool b => a == b
  | integer a, integer b => a == b
  | double a, double b => a.same b
  | string a, string b => a == b
  | array a, array b => sameItems a b
  | object a, object b => sameEntries a b
  | _, _ => false

def sameItems : List Json → List Json → Bool
  | [], [] => true
  | a :: as, b :: bs => same a b && sameItems as bs
  | _, _ => false

def sameEntries : List (String × Json) → List (String × Json) → Bool
  | [], [] => true
  | (k, a) :: as, (l, b) :: bs => k == l && same a b && sameEntries as bs
  | _, _ => false

end

def get? (key : String) : Json → Option Json
  | object entries => Entries.get? key entries
  | _ => none

def ofEntries (pairs : List (String × Json)) : Json := object (Entries.ofList pairs)

def ofProperties (properties : Properties) : Json := object properties.entries

def ofOption {α : Type} (encode : α → Json) : Option α → Json
  | none => null
  | some value => encode value

def ofList {α : Type} (encode : α → Json) (items : List α) : Json := array (items.map encode)

def ofNat (n : Nat) : Json := integer n

def text? : Json → Option String
  | string text => some text
  | _ => none

def integer? : Json → Option Int
  | integer value => some value
  | _ => none

def items? : Json → Option (List Json)
  | array items => some items
  | _ => none

def entries? : Json → Option (List (String × Json))
  | object entries => some entries
  | _ => none

def properties? : Json → Option Properties
  | object entries => some (SortedMap.ofList entries)
  | _ => none

end Json

end CachedViews
