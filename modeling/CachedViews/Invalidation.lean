import CachedViews.Engine.Stores
import CachedViews.Entity.FieldDiff

/-!
Which views a change reaches: the views that embed the changed entity and the entities
that link to it, trimmed by the fields that changed, and the targets whose links from
the entity changed.
-/
namespace CachedViews

namespace Invalidation

/-- Whether a view of `dependent` reads one of `fields` of `changed`. -/
def reaches (engine : Engine) (dependent changed : ItemType) (fields : List String) : Bool :=
  match engine.registry.reads? dependent with
  | none => true
  | some reads =>
    (engine.mode = .calculatedConservative && reads.calculatedTypes.contains changed) ||
      fields.any (reads.covers changed)

/-- Entities that the stored view lists as linking to this one; without a stored view,
those that link to it now. -/
def linkingEntities (uuid : Uuid) : Action (SortedSet Uuid) := do
  match ← Action.orNotFound (Action.view uuid) with
  | some view => return view.revLinks.sources
  | none => return SortedSet.ofList ((← Action.revLinks uuid).map LinkEdge.source)

/-- Every view that may depend on an entity. -/
def baseline (uuid : Uuid) : Action (SortedSet EntityKey) := do
  let dependents ← Action.findDependents uuid
  let sources ← linkingEntities uuid
  let linking ← Action.liveKeys (sources.erase uuid).toList
  return (SortedSet.ofList (dependents ++ linking)).filter fun key => key.uuid ≠ uuid

/-- The type of a changed entity, from its stored view when it is gone. -/
def changedType (uuid : Uuid) : Action (Option ItemType) := do
  match ← Action.itemTypeOf uuid with
  | some itemType => return some itemType
  | none => return (← Action.orNotFound (Action.view uuid)).map View.itemType

/-- Views to rebuild after a change. Without a diff nothing is trimmed. -/
def scope (engine : Engine) (uuid : Uuid) (diff : Option (List String)) :
    Action (SortedSet EntityKey) := do
  let candidates ← baseline uuid
  match diff with
  | none => return candidates
  | some diff =>
    if engine.mode = .disabled then return candidates
    match ← changedType uuid with
    | none => return candidates
    | some changed =>
      match FieldDiff.decode engine.registry.contains changed diff with
      | [] => return {}
      | fields => return candidates.filter fun key => reaches engine key.itemType changed fields

/-- Links of one retained sheet; a type without declaration has none. -/
def linksOfRevision (engine : Engine) (itemType : ItemType) (revision : Revision) :
    Except ValidationError (SortedSet Link) :=
  match engine.registry.get? itemType with
  | some decl => decl.extractLinks revision.properties
  | none => .ok {}

/-- Links of the revisions from `since` up to the record's own, which is left out. -/
def earlierLinks (engine : Engine) (record : EntityRecord) (since : Sid) :
    Action (List (SortedSet Link)) := do
  let revisions := (← Action.history record.uuid).filter fun revision =>
    since ≤ revision.sid && revision.sid < record.sid
  revisions.mapM fun revision =>
    Action.ofValidation (linksOfRevision engine record.itemType revision)

/-- Targets, other than `self`, of links that some of the sets hold and some do not. -/
def changedTargets (self : Uuid) (sets : List (SortedSet Link)) : SortedSet Uuid :=
  let seen := SortedSet.ofList (sets.flatMap SortedSet.toList)
  let changed := seen.toList.filter fun link =>
    link.target ≠ self && !sets.all fun links => links.contains link
  SortedSet.ofList (changed.map Link.target)

/-- Link targets whose reverse links changed since the view stored at `since`. Without a
stored view every current target counts. Missing targets are skipped. -/
def linkTargets (engine : Engine) (record : EntityRecord) (since : Option Sid) :
    Action (SortedSet EntityKey) := do
  let earlier ← match since with
    | none => pure [({} : SortedSet Link)]
    | some since => earlierLinks engine record since
  let targets := changedTargets record.uuid (record.links :: earlier)
  return SortedSet.ofList (← Action.liveKeys targets.toList)

end Invalidation

end CachedViews
