import CachedViews.Entity.Basic
import CachedViews.Number.Width

/-!
Sequences of version stamps that can be resumed after any stamp. Each stamp is one more
than the last; stamps have 64 bits, and the least follows the greatest.
-/
namespace CachedViews

structure Sequence where
  /-- The highest stamp handed out so far. -/
  current : Sid
  deriving DecidableEq, Inhabited

namespace Sequence

def start : Sequence := ⟨0⟩

def startingAfter (last : Sid) : Sequence := ⟨last⟩

def next (sequence : Sequence) : Sid × Sequence :=
  let sid := Width.wrapSigned 64 (sequence.current + 1)
  (sid, ⟨sid⟩)

end Sequence

end CachedViews
