import CachedViews.Duration

/-!
Bounded exponential backoff between attempts.
-/
namespace CachedViews

structure RetryConfig where
  /-- Failed attempts after which a message is given up. -/
  maxAttempts : UInt32
  initialBackoff : Duration
  maxBackoff : Duration
  multiplier : Double
  deriving DecidableEq, Repr, Inhabited

namespace RetryConfig

def standard : RetryConfig := ⟨12, .ofMillis 250, .ofMillis 20000, .ofNat 2⟩

/-- Growth stops at this power. -/
def largestExponent : Nat := 63

/-- Seconds before retry number `attempt`, counted from one: the initial wait times a power
of the multiplier, within zero and the greatest wait. -/
def backoffSeconds (retry : RetryConfig) (attempt : Nat) : Double :=
  let growth := retry.multiplier.pow (min (attempt - 1) largestExponent)
  let scaled := retry.initialBackoff.seconds.mul growth
  (scaled.min retry.maxBackoff.seconds).max .zero

def backoff (retry : RetryConfig) (attempt : Nat) : Duration :=
  (Duration.ofSeconds? (retry.backoffSeconds attempt)).getD .zero

def sumBackoffs (retry : RetryConfig) : Nat → Duration
  | 0 => .zero
  | attempt + 1 => (retry.sumBackoffs attempt).add (retry.backoff (attempt + 1))

/-- All waits of a message that is given up in the end. -/
def totalBudget (retry : RetryConfig) : Duration := retry.sumBackoffs (retry.maxAttempts.toNat - 1)

end RetryConfig

end CachedViews
