import CachedViews.Number.Decimal

/-!
Counters of a read store.
-/
namespace CachedViews

structure ReadStats where
  hits : Nat
  misses : Nat
  puts : Nat
  deletes : Nat
  viewCount : Nat
  deriving DecidableEq, Repr, Inhabited

namespace ReadStats

def start : ReadStats := ⟨0, 0, 0, 0, 0⟩

def hit (stats : ReadStats) : ReadStats := { stats with hits := stats.hits + 1 }

def miss (stats : ReadStats) : ReadStats := { stats with misses := stats.misses + 1 }

def put (stats : ReadStats) (replaced : Bool) : ReadStats :=
  { stats with
    puts := stats.puts + 1
    viewCount := if replaced then stats.viewCount else stats.viewCount + 1 }

def delete (stats : ReadStats) : ReadStats :=
  { stats with deletes := stats.deletes + 1, viewCount := stats.viewCount - 1 }

/-- Share of look-ups that found a view; zero before the first. -/
def hitRate (stats : ReadStats) : Double :=
  let total := stats.hits + stats.misses
  if total = 0 then .zero else (Double.ofNat stats.hits).div (Double.ofNat total)

/-- The hit rate with six places. -/
def hitRateText (stats : ReadStats) : String :=
  match stats.hitRate with
  | .finite negative units => String.ofList (Double.fixedText 6 negative units)
  | _ => "NaN"

end ReadStats

end CachedViews
