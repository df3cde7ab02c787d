/-!
Embed paths: property names joined by dots. A registered path has well-formed names
and may end in the wildcard, which stands for every property.
-/
namespace CachedViews

namespace Path

def wildcard : String := "*"

def splitDots : List Char → List (List Char)
  | [] => [[]]
  | c :: rest =>
    match splitDots rest with
    | [] => [[c]]
    | first :: more => if c = '.' then [] :: first :: more else (c :: first) :: more

def segments (path : String) : List String := (splitDots path.toList).map String.ofList

def isNameStart (c : Char) : Bool := c.isAlpha || c = '_' || c = '@'

def isNameChar (c : Char) : Bool := isNameStart c || c.isDigit

def isName : List Char → Bool
  | [] => false
  | c :: rest => isNameStart c && rest.all isNameChar

/-- Names, the last of which may be the wildcard unless it is the first. -/
def wellFormedTail : List (List Char) → Bool
  | [] => true
  | [last] => isName last || last = ['*']
  | name :: rest => isName name && wellFormedTail rest

def wellFormed (path : String) : Bool :=
  match splitDots path.toList with
  | [] => false
  | first :: rest => isName first && wellFormedTail rest

end Path

end CachedViews
