import CachedViews.Number.Double
import CachedViews.Text.Digits

/-!
Decimals read by scaling: the leading digits, as far as their number fits 64 bits, are
multiplied or divided by a power of ten. The digits and each step are rounded on their own, so
the result can differ from the nearest number in its last place.
-/
namespace CachedViews

namespace Scaled

/-- Appends digits to a number as long as it fits 64 bits; counts those left over. -/
def appendDigits (n : Nat) : List Char → Nat × Nat
  | [] => (n, 0)
  | digit :: rest =>
    let longer := n * 10 + Digits.decimalDigit digit
    if longer < Width.values 64 then appendDigits longer rest else (n, rest.length + 1)

/-- The greatest power of ten that is a finite number. -/
def greatestPower : Nat := 308

def power (exponent : Nat) : Double := .ofDecimal false 1 exponent

def isZero : Double → Bool
  | .finite _ units => units = 0
  | _ => false

/-- Divides by `10 ^ exponent`, by the greatest power first. -/
def divide (value : Double) (exponent : Nat) : Double :=
  if exponent ≤ greatestPower then value.div (power exponent)
  else if isZero value then value
  else divide (value.div (power greatestPower)) (exponent - greatestPower)
termination_by exponent
decreasing_by simp only [greatestPower] at *; omega

/-- Multiplies by `10 ^ exponent`. A power that is no finite number has no finite product
but zero. -/
def multiply (value : Double) (exponent : Nat) : Double :=
  if exponent ≤ greatestPower then value.mul (power exponent)
  else if isZero value then value
  else .infinite false

def scale (value : Double) (exponent : Int) : Double :=
  if 0 ≤ exponent then multiply value exponent.toNat else divide value exponent.natAbs

def withSign (negative : Bool) : Double → Double
  | .finite _ units => .finite negative units
  | .infinite _ => .infinite negative
  | .nan => .nan

/-- The number written with these digits before and after the point, times
`10 ^ exponent`. -/
def read (negative : Bool) (whole fraction : List Char) (exponent : Int) : Double :=
  let (leading, dropped) := appendDigits 0 whole
  let (digits, ignored) := appendDigits leading fraction
  let places : Int := fraction.length - ignored
  withSign negative (scale (.ofNat digits) (exponent + dropped - places))

end Scaled

end CachedViews
