import CachedViews.Json.Basic
import CachedViews.Number.Decimal

/-!
Compact JSON text: no blanks, entries in key order. Each writer puts its text in
front of what follows, so a value's text can be read off the front of a longer one.
-/
namespace CachedViews

namespace Json

/-- A number keeps its point; it is written positionally down to 10⁻⁵ and below 10¹⁶. -/
def decimalStyle : DecimalStyle := ⟨some (-5, 15), true⟩

def hexDigit (n : Nat) : Char := Nat.digitChar (n % 16)

/-- Quotes, backslashes and control characters are escaped, everything else is raw. -/
def escaped (c : Char) : List Char :=
  match c with
  | '"' => ['\\', '"']
  | '\\' => ['\\', '\\']
  | '\n' => ['\\', 'n']
  | '\r' => ['\\', 'r']
  | '\t' => ['\\', 't']
  | '\x08' => ['\\', 'b']
  | '\x0c' => ['\\', 'f']
  | c =>
    if c.toNat < 32 then ['\\', 'u', '0', '0', hexDigit (c.toNat / 16), hexDigit c.toNat]
    else [c]

def writeString (text : String) (rest : List Char) : List Char :=
  '"' :: text.toList.flatMap escaped ++ '"' :: rest

def integerText (n : Int) : List Char :=
  (if n < 0 then ['-'] else []) ++ digitsOf n.natAbs

def doubleText : Double → List Char
  | .finite negative units => Double.finiteText decimalStyle negative units
  | _ => "null".toList

mutual

def write : Json → List Char → List Char
  | null, rest => "null".toList ++ rest
  | bool value, rest => (if value then "true" else "false").toList ++ rest
  | integer value, rest => integerText value ++ rest
  | double value, rest => doubleText value ++ rest
  | string text, rest => writeString text rest
  | array items, rest => '[' :: writeItems items (']' :: rest)
  | object entries, rest => '{' :: writeEntries entries ('}' :: rest)

def writeItems : List Json → List Char → List Char
  | [], rest => rest
  | value :: values, rest => write value (writeMoreItems values rest)

def writeMoreItems : List Json → List Char → List Char
  | [], rest => rest
  | value :: values, rest => ',' :: write value (writeMoreItems values rest)

def writeEntries : List (String × Json) → List Char → List Char
  | [], rest => rest
  | (key, value) :: entries, rest =>
    writeString key (':' :: write value (writeMoreEntries entries rest))

def writeMoreEntries : List (String × Json) → List Char → List Char
  | [], rest => rest
  | (key, value) :: entries, rest =>
    ',' :: writeString key (':' :: write value (writeMoreEntries entries rest))

end

def text (value : Json) : String := String.ofList (value.write [])

/-- Text of a scalar as a key value: strings bare, numbers and truth values as written. -/
def scalarText? : Json → Option String
  | string text => some text
  | integer value => some (String.ofList (integerText value))
  | double value => some (String.ofList (doubleText value))
  | bool value => some (if value then "true" else "false")
  | _ => none

end Json

end CachedViews
