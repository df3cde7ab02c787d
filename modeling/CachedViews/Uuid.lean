import CachedViews.Sorted.Keys
import CachedViews.Text.Digits

/-!
Entity identifiers: 128 bits, ordered as numbers, which is their order as sixteen
bytes. They are written in lower case with hyphens and read in four spellings.
-/
namespace CachedViews

@[ext]
structure Uuid where
  bits : BitVec 128
  deriving DecidableEq

namespace Uuid

instance : Inhabited Uuid := ⟨⟨0⟩⟩

instance : Ord Uuid := ⟨compareOn Uuid.bits⟩

instance : Std.TransOrd Uuid := inferInstanceAs (Std.TransCmp (compareOn Uuid.bits))

instance : Std.LawfulEqOrd Uuid where
  eq_of_compare same := Uuid.ext (eq_of_compareOn Uuid.bits same)

/-- The digit at a place counted from the right. -/
def nibble (uuid : Uuid) (place : Nat) : Nat := (uuid.bits >>> (4 * place)).toNat % 16

/-- `count` digits, the last at `place`. -/
def digits (uuid : Uuid) (place count : Nat) : List Char :=
  (List.range count).map fun i => Nat.digitChar (uuid.nibble (place + count - 1 - i))

def chars (uuid : Uuid) : List Char :=
  uuid.digits 24 8 ++ '-' :: uuid.digits 20 4 ++ '-' :: uuid.digits 16 4 ++
    '-' :: uuid.digits 12 4 ++ '-' :: uuid.digits 0 12

def text (uuid : Uuid) : String := String.ofList uuid.chars

def ofDigits? (digits : List Char) : Option Uuid :=
  if digits.length = 32 then
    (Digits.number? 16 digits).map fun n => ⟨BitVec.ofNat 128 n⟩
  else none

def hyphenPlaces : List Nat := [8, 13, 18, 23]

/-- The digits of a hyphenated spelling. -/
def unhyphenated? (cs : List Char) : Option (List Char) :=
  if cs.length = 36 ∧ hyphenPlaces.all (fun i => cs[i]? = some '-') then
    some (cs.take 8 ++ (cs.drop 9).take 4 ++ (cs.drop 14).take 4 ++ (cs.drop 19).take 4 ++ cs.drop 24)
  else none

/-- What may stand before the hyphenated form, in either case. -/
def urnFront : List Char := "urn:uuid:".toList

/-- Reads 32 digits, the hyphenated form, and the hyphenated form in braces or after
`urn:uuid:`. Digits and letters may be in either case. -/
def parse? (source : String) : Option Uuid :=
  let cs := source.toList
  if cs.length = 32 then ofDigits? cs
  else if cs.length = 36 then unhyphenated? cs >>= ofDigits?
  else if cs.length = 38 ∧ cs.head? = some '{' ∧ cs.getLast? = some '}' then
    unhyphenated? (cs.drop 1).dropLast >>= ofDigits?
  else if (cs.take urnFront.length).map Char.toLower = urnFront then
    unhyphenated? (cs.drop urnFront.length) >>= ofDigits?
  else none

end Uuid

end CachedViews
