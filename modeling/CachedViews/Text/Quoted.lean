import CachedViews.Json.Text
import CachedViews.Text.Printable

/-!
Quoted text for messages: quotes, backslashes and characters without a printed form
are escaped, so that the text can be told apart from the message around it.
-/
namespace CachedViews

namespace Quoted

def hexText (n : Nat) : List Char := Nat.toDigits 16 n

def codePointEscape (c : Char) : List Char := ['\\', 'u', '{'] ++ hexText c.toNat ++ ['}']

def escaped (c : Char) : List Char :=
  match c with
  | '\x00' => ['\\', '0']
  | '\t' => ['\\', 't']
  | '\n' => ['\\', 'n']
  | '\r' => ['\\', 'r']
  | '"' => ['\\', '"']
  | '\\' => ['\\', '\\']
  | c =>
    if c.toNat < 128 then (if c.toNat < 32 ∨ c.toNat = 127 then codePointEscape c else [c])
    else if Printable.isUnprinted c then codePointEscape c
    else [c]

def text (s : String) : String :=
  String.ofList ('"' :: s.toList.flatMap escaped ++ ['"'])

/-- Items between brackets, separated by a comma and a blank. -/
def listText (items : List String) : String := "[" ++ ", ".intercalate items ++ "]"

end Quoted

end CachedViews
