import CachedViews.Engine.Stores

/-!
Comparing views with the write store. A view is stale when its entity was written or
purged since, when an entity that it visited was written above the view's watermark, or
when the links into its entity changed.
-/
namespace CachedViews

structure FreshnessReport where
  /-- Entities examined. -/
  checked : Nat
  stale : List (EntityKey × List StaleReason)
  missing : List EntityKey

namespace FreshnessReport

def isClean (report : FreshnessReport) : Bool := report.stale.isEmpty && report.missing.isEmpty

/-- Entities whose views need a rebuild, stale ones first. -/
def uuids (report : FreshnessReport) : List Uuid :=
  report.stale.map (fun entry => entry.1.uuid) ++ report.missing.map EntityKey.uuid

end FreshnessReport

namespace Freshness

def entityReasons (view : View) (current : Sid) : List StaleReason :=
  if view.sid < current then [.entityAdvanced view.sid current] else []

/-- A visited entity that is missing now was embedded as null and gives no reason. -/
def linkReasons (view : View) (current : SortedMap Uuid Sid) : List StaleReason :=
  view.linked.toList.filterMap fun linked =>
    match current.get? linked with
    | some sid => if view.maxSid < sid then some (.linkAdvanced linked sid) else none
    | none => none

def revLinkReasons (view : View) (edges : List LinkEdge) : List StaleReason :=
  if ReverseLinks.ofEdges view.uuid edges = view.revLinks then [] else [.revLinksChanged]

/-- Reasons why a view does not match the write store; none when it is fresh. -/
def reasons (view : View) : Action (List StaleReason) := do
  let current ← Action.currentSids (view.uuid :: view.linked.toList)
  match current.get? view.uuid with
  | none => return [.entityPurged]
  | some sid =>
    let edges ← Action.revLinks view.uuid
    return entityReasons view sid ++ linkReasons view current ++ revLinkReasons view edges

/-- The state of an entity's view. An entity that never was needs none. -/
def checkView (uuid : Uuid) : Action ViewState := do
  match ← Action.orNotFound (Action.view uuid) with
  | some view =>
    match ← reasons view with
    | [] => return .fresh
    | found => return .stale found
  | none => return if (← Action.itemTypeOf uuid).isSome then .missing else .fresh

def addState (report : FreshnessReport) (key : EntityKey) (state : ViewState) : FreshnessReport :=
  let report := { report with checked := report.checked + 1 }
  match state with
  | .fresh => report
  | .stale reasons => { report with stale := report.stale ++ [(key, reasons)] }
  | .missing => { report with missing := report.missing ++ [key] }

/-- Checks every entity of the given types. -/
def report (types : Option (List ItemType)) : Action FreshnessReport := do
  (← Action.listEntities types).foldlM
    (fun report key => do return addState report key (← checkView key.uuid)) ⟨0, [], []⟩

/-- How far the views trail the write store, in a word of 64 bits. -/
def lag : Action Sid := do
  let written ← Action.writeMaxSid
  let indexed ← Action.readMaxSid
  return max (Width.wrapSigned 64 (written - indexed)) 0

end Freshness

end CachedViews
