import CachedViews.Freshness
import CachedViews.Indexing
import CachedViews.Proofs.Asking.Calls
import CachedViews.Proofs.Indexing.Handling

/-!
Resolving an entity, computing what a change affects, storing its view and checking that the view
is fresh: each of them only asks and queues.
-/
namespace CachedViews

section

open CachedViews.Action

variable {M : Message → Prop} {P : View → Prop} (engine : Engine) (registry : Registry)

namespace Embedding

theorem load_looks (uuid : Uuid) : (load uuid).Looks := by
  intro world
  rw [load, on_bind_ok (on_get world)]
  split
  · exact .refl world
  · rw [on_bind]
    rcases ended : (orNotFound (record uuid)).on world with ⟨error | found, after⟩
    · exact (record_looks uuid).orNotFound.of_on ended
    · have looked := (record_looks uuid).orNotFound.of_on ended
      exact looked.remembering uuid fun truthful => orNotFound_record_ok truthful ended

theorem loadRoot_looks (uuid : Uuid) : (loadRoot uuid).Looks := by
  intro world
  rw [loadRoot, on_bind]
  have told := fun unstale : world.Unstale => record_tells uuid unstale
  rcases ended : (record uuid).on world with ⟨error | found, after⟩
  · exact (record_looks uuid).of_on ended
  · rw [ended] at told
    have looked := (record_looks uuid).of_on ended
    exact looked.remembering uuid fun truthful => (told truthful.unstale).symm

theorem visitHop_looks (segment : String) (reached : List Uuid × Visit) (hop : Uuid × Uuid) :
    (visitHop segment reached hop).Looks := by
  refine (load_looks hop.2).bind fun live => ?_
  split
  · exact keeps_pure _
  · exact keeps_pure _

theorem visitPath_looks (followLast : Bool) (path : List String) (frontier : List Uuid)
    (visit : Visit) : (visitPath registry followLast path frontier visit).Looks := by
  induction path generalizing frontier visit with
  | nil => exact keeps_pure visit
  | cons segment rest ih =>
    rw [visitPath]
    split
    · exact keeps_pure visit
    · exact keeps_get.bind fun world => (keeps_foldlM (visitHop_looks segment) _ _).bind
        fun reached => ih reached.1 reached.2

theorem visitPaths_looks (followLast : Bool) (root : Uuid) (paths : List String) (visit : Visit) :
    (visitPaths registry followLast root paths visit).Looks :=
  keeps_foldlM (fun visit _ => visitPath_looks registry followLast _ _ visit) paths visit

theorem resolveRecord_looks (record : EntityRecord) (spec : List String) :
    (resolveRecord registry record spec).Looks :=
  (visitPaths_looks registry false _ _ _).bind fun _ =>
    (visitPaths_looks registry true _ _ _).bind fun _ =>
      keeps_get.bind fun _ => (revLinks_looks _).bind fun _ => keeps_pure _

theorem resolve_looks (uuid : Uuid) (spec : Option (List String)) :
    (resolve registry uuid spec).Looks :=
  (loadRoot_looks uuid).bind fun record => resolveRecord_looks registry record _

end Embedding

namespace Invalidation

theorem linkingEntities_looks (uuid : Uuid) : (linkingEntities uuid).Looks :=
  (view_looks uuid).orNotFound.bind fun found => by
    cases found with
    | some view => exact keeps_pure _
    | none => exact (revLinks_looks uuid).bind fun _ => keeps_pure _

theorem baseline_looks (uuid : Uuid) : (baseline uuid).Looks :=
  (findDependents_looks uuid).bind fun _ => (linkingEntities_looks uuid).bind fun _ =>
    (liveKeys_looks _).bind fun _ => keeps_pure _

theorem changedType_looks (uuid : Uuid) : (changedType uuid).Looks :=
  (itemTypeOf_looks uuid).bind fun found => by
    cases found with
    | some itemType => exact keeps_pure _
    | none => exact (view_looks uuid).orNotFound.bind fun _ => keeps_pure _

theorem scope_looks (uuid : Uuid) (diff : Option (List String)) :
    (scope engine uuid diff).Looks := by
  refine (baseline_looks uuid).bind fun candidates => ?_
  cases diff with
  | none => exact keeps_pure _
  | some diff =>
    dsimp only
    split
    · exact keeps_pure _
    · refine (changedType_looks uuid).bind fun changed => ?_
      cases changed with
      | none => exact keeps_pure _
      | some changed =>
        dsimp only
        split
        · exact keeps_pure _
        · exact keeps_pure _

theorem earlierLinks_looks (record : EntityRecord) (since : Sid) :
    (earlierLinks engine record since).Looks :=
  (history_looks record.uuid).bind fun _ => keeps_mapM (fun _ => keeps_ofValidation _) _

theorem linkTargets_looks (record : EntityRecord) (since : Option Sid) :
    (linkTargets engine record since).Looks := by
  have listed := fun (earlier : List (SortedSet Link)) =>
    (liveKeys_looks
      (changedTargets record.uuid (record.links :: earlier)).toList).bind fun keys =>
        keeps_pure (SortedSet.ofList keys)
  cases since with
  | none => exact (keeps_pure _).bind listed
  | some since => exact (earlierLinks_looks engine record since).bind listed

end Invalidation

namespace Indexing

variable (message : Message)

theorem removeView_posts (uuid : Uuid) : (removeView uuid).Posts M P :=
  (deleteView_posts uuid).bind fun _ => (count_looks _).posts.bind fun _ => keeps_pure _

/-- Dependents are queued under the stamp of the record. -/
theorem propagate_posts {record : EntityRecord} (storedSid : Option Sid)
    (stamped : ∀ message : Message, message.sid = some record.sid → M message) :
    (propagate engine message record storedSid).Posts M P := by
  refine (Invalidation.scope_looks engine _ _).posts.bind fun scope =>
    (Invalidation.linkTargets_looks engine record storedSid).posts.bind fun targets => ?_
  split
  · exact keeps_pure _
  · refine (send_posts _ fun other listed => ?_).bind fun _ =>
      (count_looks _).posts.bind fun _ => keeps_pure _
    obtain ⟨key, -, rfl⟩ := List.mem_map.mp listed
    exact stamped _ rfl

theorem storeView_posts {resolution : Resolution} {snapshot : Sid}
    (listed : P (resolution.toView snapshot))
    (stamped : ∀ message : Message, message.sid = some resolution.record.sid → M message) :
    (storeView engine message resolution snapshot).Posts M P := by
  refine (viewSids_looks _).posts.bind fun sids => ?_
  dsimp only
  split
  · exact (count_looks _).posts.bind fun _ => keeps_pure _
  · refine (putView_posts listed).bind fun _ => (count_looks _).posts.bind fun _ => ?_
    split
    · exact (keeps_pure _).bind fun _ => keeps_pure _
    · exact (propagate_posts engine message _ stamped).bind fun _ => keeps_pure _

variable {snapshot : Sid} {world : World}

/-- A cycle stores the view of what its entity resolves to, if it stores any, and queues messages
under the stamp of its record, if it queues any. -/
theorem rebuild_posts_of (each : ∀ resolution after,
      (Embedding.resolve engine.registry message.uuid none).on world = (.ok resolution, after) →
        P (resolution.toView snapshot) ∧
          ∀ message : Message, message.sid = some resolution.record.sid → M message) :
    World.Posted M P world ((rebuild engine message snapshot).on world).2 := by
  rw [rebuild]
  rcases requireCovered_cases message snapshot world with covered | ⟨⟨error, refused⟩, -⟩
  · rw [on_bind_ok covered, on_bind]
    have posted := (Embedding.resolve_looks engine.registry message.uuid none).orNotFound.posts
      (M := M) (P := P) world
    rcases ended : (orNotFound (Embedding.resolve engine.registry message.uuid none)).on world with
      ⟨error | found, after⟩
    · rw [ended] at posted
      exact posted
    · rw [ended] at posted
      cases found with
      | none => exact World.Chain.trans posted (removeView_posts message.uuid after)
      | some resolution =>
        obtain ⟨listed, stamped⟩ := each resolution after (orNotFound_some ended)
        exact World.Chain.trans posted (storeView_posts engine message listed stamped after)
  · rw [on_bind_error refused]
    exact World.Chain.refl world

/-- A cycle stores the view of what its entity resolves to, if it stores any. -/
theorem rebuild_asks_of (each : ∀ resolution after,
      (Embedding.resolve engine.registry message.uuid none).on world = (.ok resolution, after) →
        P (resolution.toView snapshot)) :
    World.Asked P world ((rebuild engine message snapshot).on world).2 :=
  (rebuild_posts_of (M := fun _ => True) engine message fun resolution after resolved =>
    ⟨each resolution after resolved, fun _ _ => trivial⟩).toAsked

/-- A cycle may store any view. -/
theorem rebuild_asks (snapshot : Sid) : (rebuild engine message snapshot).Asks fun _ => True :=
  fun _ => rebuild_asks_of engine message fun _ _ _ => trivial

end Indexing

namespace Freshness

theorem reasons_looks (view : View) : (reasons view).Looks := by
  refine (currentSids_looks _).bind fun current => ?_
  split
  · exact keeps_pure _
  · exact (revLinks_looks _).bind fun _ => keeps_pure _

theorem checkView_looks (uuid : Uuid) : (checkView uuid).Looks := by
  refine (view_looks uuid).orNotFound.bind fun found => ?_
  cases found with
  | some view =>
    refine (reasons_looks view).bind fun reasons => ?_
    split <;> exact keeps_pure _
  | none => exact (itemTypeOf_looks uuid).bind fun _ => keeps_pure _

theorem report_looks (types : Option (List ItemType)) : (report types).Looks := by
  rw [report]
  refine (listEntities_looks types).bind fun keys => keeps_foldlM (fun _ key => ?_) keys _
  exact (checkView_looks key.uuid).bind fun _ => keeps_pure _

end Freshness

end

end CachedViews
