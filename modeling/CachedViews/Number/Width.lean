/-!
Whole numbers of a fixed number of bits.
-/
namespace CachedViews

namespace Width

/-- The number of values of so many bits. -/
def values (bits : Nat) : Nat := Nat.pow 2 bits

/-- Numbers of `bits` bits, half of them below zero. -/
def holdsSigned (bits : Nat) (n : Int) : Bool :=
  decide (-(values (bits - 1) : Int) ≤ n ∧ n < values (bits - 1))

/-- The number that a word of `bits` bits, half of its numbers below zero, holds in place of
`n`: past the greatest number, counting goes on at the least. -/
def wrapSigned (bits : Nat) (n : Int) : Int := Int.bmod n (values bits)

end Width

end CachedViews
