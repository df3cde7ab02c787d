import CachedViews.Entity.Basic

/-!
Messages of the propagation queue and its three lanes.
-/
namespace CachedViews

/-- Lanes in the order in which they are drained: changed entities, their dependents,
and failed attempts that wait for a retry. -/
inductive Lane where
  | primary
  | secondary
  | deferred
  deriving DecidableEq, Repr, Inhabited

namespace Lane

def all : List Lane := [primary, secondary, deferred]

def name : Lane → String
  | primary => "primary"
  | secondary => "secondary"
  | deferred => "deferred"

end Lane

structure Message where
  itemType : ItemType
  uuid : Uuid
  /-- Stamp of the write that caused the message, when known. -/
  sid : Option Sid
  /-- Rebuild this view only. -/
  strict : Bool
  /-- Changed fields; `none` when they are not known. -/
  diff : Option (List String)
  /-- Failed attempts so far. -/
  attempts : UInt32
  telemetryId : Option String
  deriving DecidableEq, Inhabited

namespace Message

def key (message : Message) : EntityKey := ⟨message.itemType, message.uuid⟩

/-- For an entity whose own state changed. -/
def primary (key : EntityKey) (sid : Option Sid) (diff : Option (List String)) : Message :=
  ⟨key.itemType, key.uuid, sid, false, diff, 0, none⟩

/-- For a dependent that only needs a rebuild. -/
def secondary (key : EntityKey) (sid : Option Sid) : Message :=
  ⟨key.itemType, key.uuid, sid, true, none, 0, none⟩

end Message

/-- A received message and the receipt that finishes it. -/
structure Delivery where
  receipt : Nat
  lane : Lane
  message : Message
  deriving DecidableEq, Inhabited

end CachedViews
