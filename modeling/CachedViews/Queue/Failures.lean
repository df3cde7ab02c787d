import CachedViews.Error
import CachedViews.Queue.Message

/-!
The report of messages whose retries ran out: one entry for each entity, oldest first.
-/
namespace CachedViews

structure PermanentFailure where
  /-- The message as last attempted. -/
  message : Message
  error : IndexError
  deriving DecidableEq

structure FailureReport where
  entries : List PermanentFailure
  deriving DecidableEq

namespace FailureReport

def empty : FailureReport := ⟨[]⟩

def failureOf (message : Message) (reason : String) : PermanentFailure :=
  ⟨message, .permanent message.uuid message.attempts reason⟩

/-- Adds a failure in place of an earlier one of the same entity. -/
def record (report : FailureReport) (message : Message) (reason : String) :
    PermanentFailure × FailureReport :=
  let failure := failureOf message reason
  let others := report.entries.filter fun entry => entry.message.uuid ≠ message.uuid
  (failure, ⟨others ++ [failure]⟩)

def size (report : FailureReport) : Nat := report.entries.length

def contains (report : FailureReport) (uuid : Uuid) : Bool :=
  report.entries.any fun entry => entry.message.uuid = uuid

end FailureReport

end CachedViews
