import CachedViews.Toml.Scalar
import CachedViews.Toml.Table

/-!
Reading TOML documents: keys, nested values and statements, one statement a line.
-/
namespace CachedViews

namespace Toml

namespace Document

open Reading Scalar

/-- Values may be nested less deep than this, and a dotted key has fewer parts. -/
def nestingLimit : Nat := 80

/-! Keys -/

def isBareKeyChar (c : Char) : Bool := c.isAlphanum || c = '_' || c = '-'

def bareKey : Reading (List Char) := do
  let chars ← charsWhere isBareKeyChar
  if chars.isEmpty then failure else return chars

def simpleKey : Reading String :=
  String.ofList <$> (basicString <|> literalString <|> bareKey)

def keyPath : Reading KeyPath := do
  let parts ← separatedSome (blanks *> simpleKey <* blanks) (char '.')
  match parts.getLast? with
  | some last => if parts.length < nestingLimit then return ⟨parts.dropLast, last⟩ else failure
  | none => failure

/-! Values -/

def arrayOf (item : Reading Toml) : Reading Toml := do
  char '['
  let items ← separated (gap *> item <* gap) (char ',')
  let _ ← if items.isEmpty then pure none else optional (char ',')
  gap
  char ']'
  return .array items

def assignmentOf (item : Reading Toml) : Reading (KeyPath × Toml) := do
  let key ← keyPath
  char '='
  blanks
  return (key, ← item)

def bracesOf (item : Reading Toml) : Reading Toml := do
  char '{'
  let pairs ← separated (assignmentOf item <* blanks) (char ',')
  blanks
  char '}'
  match ofBraces? pairs with
  | some value => return value
  | none => failure

/-- A value with at most `depth` arrays and braces around each other. -/
def value (depth : Nat) : Reading Toml :=
  match depth with
  | 0 => scalar
  | depth + 1 => scalar <|> arrayOf (value depth) <|> bracesOf (value depth)

/-! Statements -/

def assignment : Reading Statement := do
  let (key, value) ← assignmentOf (value (nestingLimit - 1))
  return .assign key value

def header : Reading Statement := .header <$> (char '[' *> keyPath <* char ']')

def element : Reading Statement := .element <$> (word "[[" *> keyPath <* word "]]")

/-- The statement of a line; an empty line and a comment have none. -/
def line : Reading (Option Statement) :=
  newline *> pure none <|> comment *> lineEnd *> pure none <|>
    some <$> (element <|> header <|> assignment) <* restOfLine

def byteOrderMark : Char := '\ufeff'

def statements : Reading (List Statement) := do
  let _ ← optional (char byteOrderMark)
  blanks
  let lines ← many (line <* blanks)
  return lines.filterMap id

end Document

def parse? (source : String) : Option Toml := Document.statements.whole? source >>= ofStatements?

end Toml

end CachedViews
