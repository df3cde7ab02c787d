import CachedViews.Number.Double

/-!
Decimal text of binary64 numbers. `Double.shortest` finds the fewest digits that
read back as the same number, `DecimalStyle` says how digits are laid out, and
`Double.fixed` writes a given number of places.
-/
namespace CachedViews

/-- The positive number `digits * 10 ^ exponent`. -/
structure Decimal where
  digits : Nat
  exponent : Int
  deriving DecidableEq, Repr

/-- Whole and fractional layouts of decimal digits. -/
structure DecimalStyle where
  /-- Scientific exponents written without an exponent part; `none` for all. -/
  positional : Option (Int × Int)
  /-- A whole number keeps the fraction `.0`. -/
  keepsPoint : Bool

def digitsOf (n : Nat) : List Char := Nat.toDigits 10 n

namespace Decimal

/-- Moves trailing zeros of the digits into the exponent. -/
def strip (fuel : Nat) (d : Decimal) : Decimal :=
  match fuel with
  | 0 => d
  | fuel + 1 => if d.digits % 10 = 0 then strip fuel ⟨d.digits / 10, d.exponent + 1⟩ else d

/-- Exponent of the leading digit. -/
def scientific (d : Decimal) : Int := d.exponent + (digitsOf d.digits).length - 1

def positionalText (keepsPoint : Bool) (d : Decimal) : List Char :=
  let ds := digitsOf d.digits
  if 0 ≤ d.exponent then
    ds ++ List.replicate d.exponent.toNat '0' ++ (if keepsPoint then ['.', '0'] else [])
  else
    let places := (-d.exponent).toNat
    let padded := List.replicate (places + 1 - ds.length) '0' ++ ds
    let whole := padded.length - places
    padded.take whole ++ '.' :: padded.drop whole

def signedExponent (e : Int) : List Char :=
  (if e < 0 then '-' else '+') :: digitsOf e.natAbs

def scientificText (d : Decimal) : List Char :=
  match digitsOf d.digits with
  | [] => []
  | first :: rest =>
    first :: (if rest = [] then [] else '.' :: rest) ++ 'e' :: signedExponent d.scientific

def text (style : DecimalStyle) (d : Decimal) : List Char :=
  match style.positional with
  | none => d.positionalText style.keepsPoint
  | some (low, high) =>
    if low ≤ d.scientific ∧ d.scientific ≤ high then d.positionalText style.keepsPoint
    else d.scientificText

end Decimal

namespace Double

/-- Scientific exponent of a positive count of units. Scaling by 10⁴⁰⁰ makes every
such number exceed one. -/
def leadingExponent (units : Nat) : Int :=
  ((digitsOf (units * Nat.pow 10 400 / unitsPerOne)).length : Int) - 401

/-- The decimals that round to `units` fill an interval around it. Bounds are in
quarter units, and both count as inside when the significand is even. -/
def roundingInterval (units : Nat) : Nat × Nat × Bool :=
  let above := spacing units
  let below := if units = Width.values (Nat.log2 units) ∧ 1 < above then above / 2 else above
  (4 * units - 2 * below, 4 * units + 2 * above, (units / above) % 2 = 0)

def insideInterval (interval : Nat × Nat × Bool) (numerator denominator : Nat) : Bool :=
  let (low, high, closed) := interval
  if closed then low * denominator ≤ numerator && numerator ≤ high * denominator
  else low * denominator < numerator && numerator < high * denominator

/-- The nearer of the two neighbours on the grid of multiples of `10 ^ exponent`
that round to `units`; of two equally near, the even one. -/
def nearestOnGrid (units : Nat) (exponent : Int) : Option Nat :=
  let step := 4 * unitsPerOne * Nat.pow 10 exponent.toNat
  let denominator := Nat.pow 10 (-exponent).toNat
  let target := 4 * units * denominator
  let low := target / step
  let inside := fun n => insideInterval (roundingInterval units) (n * step) denominator
  match inside low, inside (low + 1) with
  | true, false => some low
  | false, true => some (low + 1)
  | true, true => some (divNearest target step)
  | false, false => none

def shortestFrom (units : Nat) (leading : Int) (count fuel : Nat) : Decimal :=
  let exponent := leading + 1 - count
  match fuel with
  | 0 => ⟨0, 0⟩
  | fuel + 1 =>
    match nearestOnGrid units exponent with
    | some digits => Decimal.strip 400 ⟨digits, exponent⟩
    | none => shortestFrom units leading (count + 1) fuel

/-- The fewest digits that read back as `units`, and of those the nearest. Seventeen
always suffice. -/
def shortest (units : Nat) : Decimal :=
  if units = 0 then ⟨0, 0⟩ else shortestFrom units (leadingExponent units) 1 17

def finiteText (style : DecimalStyle) (negative : Bool) (units : Nat) : List Char :=
  (if negative then ['-'] else []) ++ (shortest units).text style

/-- A finite number with exactly `places` digits after the point, ties to even. -/
def fixedText (places : Nat) (negative : Bool) (units : Nat) : List Char :=
  (if negative then ['-'] else []) ++
    Decimal.positionalText true ⟨scaledNearest (Nat.pow 10 places) units, -(places : Int)⟩

end Double

end CachedViews
