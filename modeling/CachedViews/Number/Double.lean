import CachedViews.Number.Width

/-!
Binary64 numbers as exact values. A finite number is a sign and a whole count of
units of 2⁻¹⁰⁷⁴, the smallest positive one; the counts that occur have at most
53 significant bits. Arithmetic computes the exact result and rounds it once, to
nearest, ties to even.
-/
namespace CachedViews

inductive Double where
  | nan
  | infinite (negative : Bool)
  | finite (negative : Bool) (units : Nat)
  deriving DecidableEq, Repr, Inhabited

/-- The quotient rounded to the nearest whole number, ties to even. -/
def divNearest (numerator denominator : Nat) : Nat :=
  let quotient := numerator / denominator
  let twice := 2 * (numerator % denominator)
  if twice < denominator then quotient
  else if twice = denominator ∧ quotient % 2 = 0 then quotient
  else quotient + 1

namespace Double

def unitExponent : Nat := 1074

def unitsPerOne : Nat := Width.values unitExponent

/-- The least count too large for a finite number. -/
def overflow : Nat := Width.values (1024 + unitExponent)

/-- Distance, in units, between a number and the next larger one. -/
def spacing (units : Nat) : Nat := Width.values (Nat.log2 units - 52)

/-- The number nearest to `numerator / denominator` units. -/
def roundUnits (negative : Bool) (numerator denominator : Nat) : Double :=
  let step := spacing (numerator / denominator)
  let units := divNearest numerator (denominator * step) * step
  if overflow ≤ units then infinite negative else finite negative units

def ofRatio (negative : Bool) (numerator denominator : Nat) : Double :=
  roundUnits negative (numerator * unitsPerOne) denominator

def ofNat (n : Nat) : Double := ofRatio false n 1

def ofInt (n : Int) : Double := ofRatio (decide (n < 0)) n.natAbs 1

/-- The number nearest to `digits * 10 ^ exponent`. Exponents beyond the range of
any finite number are settled without computing the power. -/
def ofDecimal (negative : Bool) (digits : Nat) (exponent : Int) : Double :=
  if digits = 0 then finite negative 0
  else
    let magnitude := exponent + (Nat.log2 digits / 3 : Nat)
    if 400 < exponent then infinite negative
    else if magnitude < -400 then finite negative 0
    else if 0 ≤ exponent then ofRatio negative (digits * Nat.pow 10 exponent.toNat) 1
    else ofRatio negative digits (Nat.pow 10 (-exponent).toNat)

def isFinite : Double → Bool
  | finite .. => true
  | _ => false

def mul : Double → Double → Double
  | finite s m, finite t n => roundUnits (s != t) (m * n) unitsPerOne
  | finite s m, infinite t | infinite t, finite s m => if m = 0 then nan else infinite (s != t)
  | infinite s, infinite t => infinite (s != t)
  | nan, _ | _, nan => nan

def div : Double → Double → Double
  | finite s m, finite t n =>
    if n = 0 then (if m = 0 then nan else infinite (s != t))
    else roundUnits (s != t) (m * unitsPerOne) n
  | finite s _, infinite t => finite (s != t) 0
  | infinite s, finite t _ => infinite (s != t)
  | infinite _, infinite _ => nan
  | nan, _ | _, nan => nan

def signedUnits (negative : Bool) (units : Nat) : Int := if negative then -units else units

/-- A zero sum is negative only when both terms are. -/
def add : Double → Double → Double
  | finite s m, finite t n =>
    let total := signedUnits s m + signedUnits t n
    roundUnits (if total = 0 then s && t else decide (total < 0)) total.natAbs 1
  | finite .., infinite t => infinite t
  | infinite s, finite .. => infinite s
  | infinite s, infinite t => if s = t then infinite s else nan
  | nan, _ | _, nan => nan

/-- Never true of `nan`; the two zeros are equal. -/
def lt : Double → Double → Bool
  | finite s m, finite t n => decide (signedUnits s m < signedUnits t n)
  | finite .., infinite t => !t
  | infinite s, finite .. => s
  | infinite s, infinite t => s && !t
  | nan, _ | _, nan => false

/-- Equality of the numbers meant: the two zeros are equal. -/
def same : Double → Double → Bool
  | finite s m, finite t n => m == n && (s == t || m == 0)
  | infinite s, infinite t => s == t
  | _, _ => false

/-- The smaller operand; an operand that is `nan` gives way to the other. -/
def min (a b : Double) : Double :=
  match a, b with
  | nan, _ => b
  | _, nan => a
  | _, _ => if b.lt a then b else a

def max (a b : Double) : Double :=
  match a, b with
  | nan, _ => b
  | _, nan => a
  | _, _ => if a.lt b then b else a

def zero : Double := finite false 0

def one : Double := ofNat 1

def powLoop (result base : Double) (n : Nat) : Double :=
  let result := if n % 2 = 1 then result.mul base else result
  if n / 2 = 0 then result else powLoop result (base.mul base) (n / 2)
termination_by n
decreasing_by omega

/-- A power by repeated squaring; each product is rounded on its own. -/
def pow (base : Double) (n : Nat) : Double := powLoop one base n

/-- The nearest whole number to `scale` times a finite number, sign dropped. -/
def scaledNearest (scale units : Nat) : Nat := divNearest (units * scale) unitsPerOne

end Double

end CachedViews
