import CachedViews.Number.Width
import CachedViews.Text.Digits
import CachedViews.Text.Reading
import CachedViews.Toml.Basic

/-!
Strings, numbers, truth values and moments of TOML, with blanks, comments and line ends.
-/
namespace CachedViews

namespace Toml

namespace Scalar

open Reading

def isBlank (c : Char) : Bool := c = ' ' || c = '\t'

/-- Characters that may stand for themselves: all but controls, tabs excepted. -/
def isPlain (c : Char) : Bool := c = '\t' || (' ' ≤ c && c ≠ '\x7f')

def blanks : Reading Unit := discard (charsWhere isBlank)

def newline : Reading Unit := char '\n' <|> char '\r' *> char '\n'

def comment : Reading Unit := char '#' *> discard (charsWhere isPlain)

def lineEnd : Reading Unit := newline <|> atEnd

/-- What may follow a statement on its line. -/
def restOfLine : Reading Unit := blanks *> discard (optional comment) *> lineEnd

/-- Blanks, comments and line ends between the items of an array. -/
def gap : Reading Unit :=
  discard (many (discard (charWhere isBlank) <|> newline <|> comment *> newline))

/-! Strings -/

def codePoint (digits : Nat) : Reading Char := do
  let number? := Digits.number? 16 (← times (charWhere (Digits.isDigitBelow 16)) digits)
  match number? >>= Digits.character? with
  | some c => return c
  | none => failure

def escapedChar : Reading Char :=
  char 'b' *> pure '\x08' <|> char 't' *> pure '\t' <|> char 'n' *> pure '\n' <|>
    char 'f' *> pure '\x0c' <|> char 'r' *> pure '\r' <|> char '"' *> pure '"' <|>
    char '\\' *> pure '\\' <|> char 'u' *> codePoint 4 <|> char 'U' *> codePoint 8

/-- A character of a string in double quotes, on one line. -/
def basicChar : Reading Char :=
  charWhere (fun c => isPlain c && c ≠ '"' && c ≠ '\\') <|> char '\\' *> escapedChar

def basicString : Reading (List Char) := char '"' *> many basicChar <* char '"'

def isLiteralChar (c : Char) : Bool := isPlain c && c ≠ '\''

def literalString : Reading (List Char) := char '\'' *> charsWhere isLiteralChar <* char '\''

/-- A line that ends in a backslash goes on at the next character that is no white space. -/
def continuation : Reading Unit :=
  char '\\' *> blanks *> newline *> discard (many (discard (charWhere isBlank) <|> newline))

def single (reading : Reading Char) : Reading (List Char) := reading.map ([·])

/-- The text between tripled quotes. A line end right after the opening ones is dropped,
and one or two quotes belong to the text, also right before the closing ones. -/
def tripled (quote : Char) (piece : Reading (List Char)) : Reading (List Char) := do
  let _ ← times (char quote) 3
  let _ ← optional newline
  let pieces ← many (piece <|> innerQuotes)
  let closing ← charsWhere (· = quote)
  if 3 ≤ closing.length ∧ closing.length ≤ 5 then return pieces.flatten ++ closing.drop 3
  else failure
where
  innerQuotes : Reading (List Char) := do
    let quotes ← charsWhere (· = quote)
    if 1 ≤ quotes.length ∧ quotes.length ≤ 2 then return quotes else failure

def basicPiece : Reading (List Char) :=
  continuation *> pure [] <|> single basicChar <|> newline *> pure ['\n']

def literalPiece : Reading (List Char) :=
  single (charWhere isLiteralChar) <|> newline *> pure ['\n']

def text : Reading String :=
  String.ofList <$>
    (tripled '"' basicPiece <|> basicString <|> tripled '\'' literalPiece <|> literalString)

/-! Numbers -/

/-- True of a minus sign. -/
def sign : Reading Bool := char '-' *> pure true <|> char '+' *> pure false <|> pure false

/-- Digits with single underscores between them. -/
def digitRun (test : Char → Bool) : Reading (List Char) := do
  let first ← charWhere test
  return first :: (← many (optional (char '_') *> charWhere test))

/-- Digits without a leading zero. -/
def wholeDigits : Reading (List Char) :=
  char '0' *> pure ['0'] <|> digitRun Char.isDigit

def exponent : Reading Int := do
  let _ ← charWhere fun c => c = 'e' || c = 'E'
  let negative ← sign
  let magnitude := Digits.decimal (← digitRun Char.isDigit)
  return if negative then -magnitude else magnitude

/-- A number with a fraction, an exponent or both. One that is too large is refused, one
that is too far below zero is infinite. -/
def fractional (negative : Bool) : Reading Double := do
  let whole ← wholeDigits
  let fraction ← optional (char '.' *> digitRun Char.isDigit)
  let power ← optional exponent
  let places := fraction.getD []
  let value := Double.ofDecimal negative (Digits.decimal (whole ++ places))
    (power.getD 0 - places.length)
  if (fraction.isSome ∨ power.isSome) ∧ value ≠ .infinite false then return value else failure

def double : Reading Double := do
  let negative ← sign
  word "inf" *> pure (.infinite negative) <|> word "nan" *> pure .nan <|> fractional negative

def inBase (mark : String) (base : Nat) : Reading Int := do
  word mark
  match Digits.number? base (← digitRun (Digits.isDigitBelow base)) with
  | some n => return n
  | none => failure

def signedDecimal : Reading Int := do
  let negative ← sign
  let magnitude := Digits.decimal (← wholeDigits)
  return if negative then -magnitude else magnitude

/-- Whole numbers have 64 bits. -/
def integer : Reading Int := do
  let value ← inBase "0x" 16 <|> inBase "0o" 8 <|> inBase "0b" 2 <|> signedDecimal
  if Width.holdsSigned 64 value then return value else failure

/-! Moments -/

def digitsWithin (count least greatest : Nat) : Reading Nat := do
  let value := Digits.decimal (← times (charWhere Char.isDigit) count)
  if least ≤ value ∧ value ≤ greatest then return value else failure

def isLeapYear (year : Nat) : Bool := year % 4 = 0 && (year % 100 ≠ 0 || year % 400 = 0)

def daysIn (year month : Nat) : Nat :=
  if month = 2 then (if isLeapYear year then 29 else 28)
  else if month ∈ [4, 6, 9, 11] then 30
  else 31

def date : Reading Unit := do
  let year ← digitsWithin 4 0 9999
  char '-'
  let month ← digitsWithin 2 1 12
  char '-'
  let _ ← digitsWithin 2 1 (daysIn year month)

def hourAndMinute : Reading Unit := do
  let _ ← digitsWithin 2 0 23
  char ':'
  let _ ← digitsWithin 2 0 59

/-- A leap second is admitted in every minute. -/
def timeOfDay : Reading Unit := do
  hourAndMinute
  char ':'
  let _ ← digitsWithin 2 0 60
  let _ ← optional (char '.' *> digitRunPlain)
where
  digitRunPlain : Reading Unit := charWhere Char.isDigit *> discard (charsWhere Char.isDigit)

def offset : Reading Unit :=
  discard (charWhere fun c => c = 'Z' || c = 'z') <|>
    charWhere (fun c => c = '+' || c = '-') *> hourAndMinute

def dateAndTime : Reading Unit := do
  date
  let _ ← optional do
    let _ ← charWhere fun c => c = 'T' || c = 't' || c = ' '
    timeOfDay
    optional offset

def scalar : Reading Toml :=
  Toml.string <$> text <|> word "true" *> pure (.bool true) <|> word "false" *> pure (.bool false) <|>
    (dateAndTime <|> timeOfDay) *> pure .moment <|> Toml.double <$> double <|>
    Toml.integer <$> integer

end Scalar

end Toml

end CachedViews
