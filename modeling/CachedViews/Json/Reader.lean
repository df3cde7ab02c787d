import CachedViews.Json.Basic
import CachedViews.Number.Scaled
import CachedViews.Text.Digits

/-!
Reading JSON text. A number without fraction and exponent that fits 64 bits, signed
or unsigned, is whole; any other is a binary64 number read by scaling, and one too large
for that is refused. The last of equal keys wins. Nesting is limited.
-/
namespace CachedViews

namespace Json

def isBlank (c : Char) : Bool := c = ' ' || c = '\n' || c = '\r' || c = '\t'

def skipBlanks (cs : List Char) : List Char := cs.dropWhile isBlank

/-- Splits off the digits of a non-empty run. -/
def takeDigits? (cs : List Char) : Option (List Char × List Char) :=
  match cs.span Char.isDigit with
  | ([], _) => none
  | split => some split

def wholeDigits? : List Char → Option (List Char × List Char)
  | '0' :: rest =>
    match rest with
    | c :: _ => if c.isDigit then none else some (['0'], rest)
    | [] => some (['0'], [])
  | cs => takeDigits? cs

def fraction? : List Char → Option (List Char × List Char)
  | '.' :: rest => takeDigits? rest
  | cs => some ([], cs)

def exponent? : List Char → Option (Option Int × List Char)
  | e :: rest =>
    if e = 'e' ∨ e = 'E' then
      let signed : Bool × List Char :=
        match rest with
        | '-' :: r => (true, r)
        | '+' :: r => (false, r)
        | r => (false, r)
      (takeDigits? signed.2).map fun (digits, rest) =>
        (some (if signed.1 then -(Digits.decimal digits : Int) else Digits.decimal digits), rest)
    else some (none, e :: rest)
  | [] => some (none, [])

/-- Whole numbers fit 64 bits, signed or unsigned. -/
def isWhole (n : Int) : Bool :=
  Width.holdsSigned 64 n || decide (0 ≤ n ∧ n < Width.values 64)

def number? (negative : Bool) (cs : List Char) : Option (Json × List Char) := do
  let (whole, afterWhole) ← wholeDigits? cs
  let (fraction, afterFraction) ← fraction? afterWhole
  let (exponent, rest) ← exponent? afterFraction
  let magnitude := Digits.decimal whole
  let value : Int := if negative then -magnitude else magnitude
  let zeroBelow := negative && magnitude == 0
  if fraction.isEmpty && exponent.isNone && !zeroBelow && isWhole value then
    return (integer value, rest)
  else
    let number := Scaled.read negative whole fraction (exponent.getD 0)
    if number.isFinite then return (double number, rest) else none

def fourHex? : List Char → Option (Nat × List Char)
  | a :: b :: c :: d :: rest => (Digits.number? 16 [a, b, c, d]).map (·, rest)
  | _ => none

/-- The character of a `\u` escape. A high surrogate must be followed by the escape
of a low one. -/
def unicodeEscape? (cs : List Char) : Option (Char × List Char) := do
  let (high, rest) ← fourHex? cs
  if 0xD800 ≤ high ∧ high < 0xDC00 then
    match rest with
    | '\\' :: 'u' :: more =>
      let (low, rest) ← fourHex? more
      if 0xDC00 ≤ low ∧ low < 0xE000 then
        return (← Digits.character? (0x10000 + (high - 0xD800) * 0x400 + (low - 0xDC00)), rest)
      else none
    | _ => none
  else return (← Digits.character? high, rest)

def simpleEscape? : Char → Option Char
  | '"' => some '"'
  | '\\' => some '\\'
  | '/' => some '/'
  | 'b' => some '\x08'
  | 'f' => some '\x0c'
  | 'n' => some '\n'
  | 'r' => some '\r'
  | 't' => some '\t'
  | _ => none

/-- The text up to the closing quote, given the characters read so far in reverse. -/
def stringTail? (fuel : Nat) (read : List Char) (cs : List Char) : Option (String × List Char) :=
  match fuel, cs with
  | 0, _ | _, [] => none
  | _ + 1, '"' :: rest => some (String.ofList read.reverse, rest)
  | fuel + 1, '\\' :: 'u' :: rest =>
    match unicodeEscape? rest with
    | some (c, rest) => stringTail? fuel (c :: read) rest
    | none => none
  | fuel + 1, '\\' :: e :: rest =>
    match simpleEscape? e with
    | some c => stringTail? fuel (c :: read) rest
    | none => none
  | fuel + 1, c :: rest => if c.toNat < 32 || c = '\\' then none else stringTail? fuel (c :: read) rest

def string? (cs : List Char) : Option (String × List Char) := stringTail? (cs.length + 1) [] cs

def keyword? (word : String) (value : Json) (cs : List Char) : Option (Json × List Char) :=
  if word.toList.isPrefixOf cs then some (value, cs.drop word.length) else none

mutual

def readValue? (fuel depth : Nat) (cs : List Char) : Option (Json × List Char) :=
  match fuel with
  | 0 => none
  | fuel + 1 =>
    match skipBlanks cs with
    | [] => none
    | '"' :: rest => (string? rest).map fun (text, rest) => (string text, rest)
    | '-' :: rest => number? true rest
    | '[' :: rest =>
      match depth with
      | 0 => none
      | depth + 1 =>
        match skipBlanks rest with
        | ']' :: rest => some (array [], rest)
        | rest => (readItems? fuel depth [] rest).map fun (items, rest) => (array items, rest)
    | '{' :: rest =>
      match depth with
      | 0 => none
      | depth + 1 =>
        match skipBlanks rest with
        | '}' :: rest => some (object [], rest)
        | rest => (readEntries? fuel depth [] rest).map fun (entries, rest) => (object entries, rest)
    | 'n' :: rest => keyword? "ull" null rest
    | 't' :: rest => keyword? "rue" (bool true) rest
    | 'f' :: rest => keyword? "alse" (bool false) rest
    | cs => number? false cs

def readItems? (fuel depth : Nat) (read : List Json) (cs : List Char) :
    Option (List Json × List Char) :=
  match fuel with
  | 0 => none
  | fuel + 1 =>
    match readValue? fuel depth cs with
    | none => none
    | some (value, rest) =>
      match skipBlanks rest with
      | ',' :: rest => readItems? fuel depth (value :: read) rest
      | ']' :: rest => some ((value :: read).reverse, rest)
      | _ => none

def readEntries? (fuel depth : Nat) (read : List (String × Json)) (cs : List Char) :
    Option (List (String × Json) × List Char) :=
  match fuel with
  | 0 => none
  | fuel + 1 =>
    match skipBlanks cs with
    | '"' :: rest =>
      match string? rest with
      | none => none
      | some (key, rest) =>
        match skipBlanks rest with
        | ':' :: rest =>
          match readValue? fuel depth rest with
          | none => none
          | some (value, rest) =>
            let read := Entries.insert key value read
            match skipBlanks rest with
            | ',' :: rest => readEntries? fuel depth read rest
            | '}' :: rest => some (read, rest)
            | _ => none
        | _ => none
    | _ => none

end

/-- Arrays and objects may be nested this deep. -/
def nestingLimit : Nat := 127

def parse? (source : String) : Option Json :=
  let cs := source.toList
  match readValue? (2 * cs.length + 2) nestingLimit cs with
  | some (value, rest) => if (skipBlanks rest).isEmpty then some value else none
  | none => none

end Json

end CachedViews
