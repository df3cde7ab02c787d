/-!
Numbers and characters from their digits.
-/
namespace CachedViews

namespace Digits

def decimalDigit (c : Char) : Nat := c.toNat - '0'.toNat

def decimal (digits : List Char) : Nat :=
  digits.foldl (fun value c => value * 10 + decimalDigit c) 0

/-- The value of a digit in bases up to sixteen, in either case. -/
def digit? (c : Char) : Option Nat :=
  if c.isDigit then some (decimalDigit c)
  else if 'a' ≤ c ∧ c ≤ 'f' then some (c.toNat - 'a'.toNat + 10)
  else if 'A' ≤ c ∧ c ≤ 'F' then some (c.toNat - 'A'.toNat + 10)
  else none

def isDigitBelow (base : Nat) (c : Char) : Bool := (digit? c).any (· < base)

def number? (base : Nat) (digits : List Char) : Option Nat :=
  digits.foldlM (fun value c => do return value * base + (← digit? c)) 0

/-- The character with a code point; surrogates are none. -/
def character? (codePoint : Nat) : Option Char :=
  if h : codePoint.isValidChar then some (Char.ofNatAux codePoint h) else none

end Digits

end CachedViews
