import CachedViews.Number.Decimal

/-!
Spans of time in whole nanoseconds. Their text uses the largest unit that is not
larger than the span and drops trailing zeros of the fraction.
-/
namespace CachedViews

structure Duration where
  nanos : Nat
  deriving DecidableEq, Repr, Inhabited

namespace Duration

def perMilli : Nat := 1000000

def perSecond : Nat := 1000000000

def zero : Duration := ⟨0⟩

def ofMillis (ms : Nat) : Duration := ⟨ms * perMilli⟩

def millis (d : Duration) : Nat := d.nanos / perMilli

def isZero (d : Duration) : Bool := d.nanos = 0

def add (a b : Duration) : Duration := ⟨a.nanos + b.nanos⟩

/-- Seconds as a binary64 number: the whole seconds and the fraction are each
rounded, then their sum. -/
def seconds (d : Duration) : Double :=
  (Double.ofNat (d.nanos / perSecond)).add
    ((Double.ofNat (d.nanos % perSecond)).div (Double.ofNat perSecond))

/-- Whole seconds have 64 bits. -/
def secondLimit : Nat := Width.values 64

/-- The nearest span to a number of seconds. Nothing below zero or beyond the limit is a
span. -/
def ofSeconds? (s : Double) : Option Duration :=
  match s with
  | .finite negative units =>
    let span : Duration := ⟨Double.scaledNearest perSecond units⟩
    if (negative && units != 0) || secondLimit * perSecond ≤ span.nanos then none else some span
  | _ => none

def inUnit (d : Duration) (unit places : Nat) (suffix : String) : String :=
  let fraction := Decimal.strip places ⟨d.nanos % unit + unit, -(places : Int)⟩
  let fractionText := (digitsOf fraction.digits).drop 1
  String.ofList (digitsOf (d.nanos / unit) ++
    (if fractionText = [] then [] else '.' :: fractionText)) ++ suffix

def text (d : Duration) : String :=
  if perSecond ≤ d.nanos then d.inUnit perSecond 9 "s"
  else if perMilli ≤ d.nanos then d.inUnit perMilli 6 "ms"
  else if 1000 ≤ d.nanos then d.inUnit 1000 3 "µs"
  else d.inUnit 1 0 "ns"

end Duration

end CachedViews
