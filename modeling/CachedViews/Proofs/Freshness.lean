import CachedViews.Freshness
import CachedViews.Proofs.Embedding.Declared
import CachedViews.Proofs.Service.Edits

/-!
A view without reasons is a view that would be built again. Stamps grow along a history, so a
visited entity below the watermark is as it was; a visited entity that is missing now was
missing before, because whatever links to it is as it was and a linked entity cannot be purged.
-/
namespace CachedViews

namespace Freshness

open CachedViews.Action CachedViews.Embedding WriteStore

variable {registry : Registry} {world : World} {store earlier later : WriteStore}

/-- Why a view does not match a write store. -/
def reasonsIn (store : WriteStore) (view : View) : List StaleReason :=
  match store.record? view.uuid with
  | none => [.entityPurged]
  | some record =>
    entityReasons view record.sid ++
      linkReasons view (store.currentSids (view.uuid :: view.linked.toList)) ++
      revLinkReasons view (store.revLinks view.uuid)

theorem reasons_on (calm : world.Calm) (view : View) :
    (reasons view).on world = (.ok (reasonsIn world.write view), world) := by
  rw [reasons, on_bind_ok (currentSids_on calm _), currentSids_get? _ List.mem_cons_self, reasonsIn]
  cases world.write.record? view.uuid with
  | none => rfl
  | some record =>
    dsimp only [Option.map_some]
    rw [on_bind_ok (revLinks_on calm _)]
    rfl

/-- A view without a reason against it is found fresh. -/
theorem checkView_fresh {views : Uuid → Option View} (calm : world.Calm)
    (loads : world.read.Loads views) {uuid : Uuid} {view : View} (held : views uuid = some view)
    (none : reasonsIn world.write view = []) : ((checkView uuid).on world).1 = .ok .fresh := by
  obtain ⟨stats, looked⟩ := orNotFound_view_loaded calm loads uuid
  rw [held] at looked
  have reasoned := reasons_on (calm.counting stats) view
  rw [World.counting] at looked reasoned
  rw [checkView, on_bind_ok looked]
  dsimp only
  rw [on_bind_ok reasoned, none]
  rfl

/-- What it takes for a view to have no reasons against it. -/
structure Matches (store : WriteStore) (view : View) (record : EntityRecord) : Prop where
  current : store.record? view.uuid = some record
  root : record.sid ≤ view.sid
  linked : ∀ uuid ∈ view.linked, ∀ target, store.record? uuid = some target →
    target.sid ≤ view.maxSid
  revLinks : ReverseLinks.ofEdges view.uuid (store.revLinks view.uuid) = view.revLinks

theorem linkReasons_eq_nil_iff (view : View) (current : SortedMap Uuid Sid) :
    linkReasons view current = [] ↔
      ∀ uuid ∈ view.linked, ∀ sid, current.get? uuid = some sid → sid ≤ view.maxSid := by
  rw [linkReasons, List.filterMap_eq_nil_iff]
  refine forall₂_congr fun uuid _ => ?_
  cases current.get? uuid with
  | none => simp
  | some sid => simp

theorem reasonsIn_eq_nil_iff (view : View) :
    reasonsIn store view = [] ↔ ∃ record, Matches store view record := by
  unfold reasonsIn
  cases found : store.record? view.uuid with
  | none =>
    constructor
    · intro none
      cases none
    · rintro ⟨record, matched⟩
      have current := matched.current
      rw [found] at current
      cases current
  | some record =>
    have sids : ∀ uuid ∈ view.linked, ∀ sid,
        (store.currentSids (view.uuid :: view.linked.toList)).get? uuid = some sid ↔
          ∃ target, store.record? uuid = some target ∧ target.sid = sid := by
      intro uuid listed sid
      rw [currentSids_get? _ (List.mem_cons_of_mem _ listed), Option.map_eq_some_iff]
    simp only [List.append_eq_nil_iff, linkReasons_eq_nil_iff]
    constructor
    · rintro ⟨⟨root, linked⟩, edges⟩
      refine ⟨record, found, ?_, ?_, ?_⟩
      · simpa [entityReasons, Int.not_lt] using root
      · intro uuid listed target current
        exact linked uuid listed target.sid ((sids uuid listed _).mpr ⟨target, current, rfl⟩)
      · simpa [revLinkReasons] using edges
    · rintro ⟨same, current, root, linked, edges⟩
      rw [found] at current
      cases current
      refine ⟨⟨?_, ?_⟩, ?_⟩
      · simpa [entityReasons, Int.not_lt] using root
      · intro uuid listed sid at_
        obtain ⟨target, current, rfl⟩ := (sids uuid listed sid).mp at_
        exact linked uuid listed target current
      · simpa [revLinkReasons] using edges

section

variable (before : Consistent registry earlier) (history : History earlier later)
  {record current : EntityRecord} {watermark : Sid} {cache : RecordCache}
  (live : earlier.record? record.uuid = some record) (bounded : watermark ≤ earlier.maxSid)
  (matched : Matches later ((resolution registry earlier cache
    (registry.embedPaths record.itemType) record).toView watermark) current)
include before history live bounded matched

/-- Agreement of two stores passes along a followed link when the view has no reasons. -/
theorem passes_of_matches {edge : LinkEdge} (listed : edge ∈ followed registry earlier.record?
      (registry.embedPaths record.itemType) record)
    (agreed : earlier.record? edge.source = later.record? edge.source) :
    earlier.record? edge.link.target = later.record? edge.link.target := by
  obtain ⟨source, found, declared, reached⟩ := edge_of_mem_followed listed
  have still : later.record? edge.source = some source := agreed ▸ found
  have linking := (before.mem_links_iff found edge.link).mpr ⟨declared, reached⟩
  cases now : later.record? edge.link.target with
  -- A purge would have needed the link to go first.
  | none => exact history.missing_of_linked still (before.record_sid_le found) linking now
  | some target =>
    have below : max watermark record.sid ≤ earlier.maxSid :=
      Int.max_le.mpr ⟨bounded, before.record_sid_le live⟩
    -- A stamp that is not above the watermark of the view is an old one.
    refine history.kept now (Int.le_trans ?_ below)
    by_cases root : edge.link.target = record.uuid
    · rw [root] at now
      have same : target = current := Option.some.inj (now.symm.trans matched.current)
      exact same ▸ Int.le_trans matched.root (Int.le_max_right _ _)
    · refine matched.linked edge.link.target ?_ target now
      rw [Resolution.toView, resolution]
      exact SortedSet.mem_erase.mpr
        ⟨(mem_linked_note _ _ _).mpr (Or.inr ⟨edge, listed, rfl⟩), root⟩

omit bounded in
/-- An entity whose view has no reasons is as it was. -/
theorem current_eq_of_matches : current = record := by
  have old : current.sid ≤ earlier.maxSid :=
    Int.le_trans matched.root (before.record_sid_le live)
  exact Option.some.inj ((history.kept matched.current old).symm.trans live)

omit bounded in
theorem root_of_matches : earlier.record? record.uuid = later.record? record.uuid := by
  have same := current_eq_of_matches before history live matched
  exact live.trans (same ▸ matched.current.symm)

/-- So is everything that was visited. -/
theorem visited_of_matches {uuid : Uuid}
    (visits : Visits registry earlier.record? record uuid) :
    earlier.record? uuid = later.record? uuid := by
  obtain ⟨edge, listed, rfl⟩ := (mem_followed_iff live uuid).mpr visits
  refine (followed_agrees (root_of_matches before history live matched) ?_).2 edge listed
  intro edge listed agreed
  exact passes_of_matches before history live bounded matched listed agreed

end

/-- An entity whose view has no reasons resolves to what it resolved to before. -/
theorem resolution_eq_of_matches (before : Consistent registry earlier)
    (history : History earlier later)
    {record current : EntityRecord} {watermark : Sid}
    (live : earlier.record? record.uuid = some record) (bounded : watermark ≤ earlier.maxSid)
    (matched : Matches later ((resolutionAlone registry earlier record).toView watermark) current) :
    current = record ∧ resolutionAlone registry later record =
      resolutionAlone registry earlier record := by
  have root := root_of_matches before history live matched
  have edges : ReverseLinks.ofEdges record.uuid (later.revLinks record.uuid) =
      (resolutionAlone registry earlier record).revLinks := matched.revLinks
  refine ⟨current_eq_of_matches before history live matched, ?_⟩
  rw [resolutionAlone_eq root fun edge listed agreed =>
    passes_of_matches before history live bounded matched listed agreed, edges]

/-- A view built after some edits, under a watermark that its store had reached, is judged
soundly after any further edits: without a reason against it, its entity is still there and
resolves as it did. -/
theorem resolution_unchanged_of_no_reasons (engine : Engine) (edits further : List Edit)
    (uuid : Uuid) (watermark : Sid)
    (live : ((Edit.worldAfter engine edits).write.record? uuid).isSome = true)
    (bounded : watermark ≤ (Edit.worldAfter engine edits).write.maxSid) :
    ∃ resolution,
      ((resolveAlone engine.registry uuid).on (Edit.worldAfter engine edits)).1 = .ok resolution ∧
        (((reasons (resolution.toView watermark)).on
            (Edit.worldAfter engine (edits ++ further))).1 = .ok [] →
          ((Edit.worldAfter engine (edits ++ further)).write.record? uuid).isSome = true ∧
            ((resolveAlone engine.registry uuid).on
              (Edit.worldAfter engine (edits ++ further))).1 = .ok resolution) := by
  obtain ⟨calm, before, -⟩ := Edit.sound_worldAfter engine edits
  obtain ⟨calmLater, after, -⟩ := Edit.sound_worldAfter engine (edits ++ further)
  have history := Edit.history_worldAfter engine edits further
  obtain ⟨record, found⟩ := Option.isSome_iff_exists.mp live
  obtain rfl := record?_uuid found
  refine ⟨_, by rw [resolveAlone_on calm found], ?_⟩
  rw [reasons_on calmLater]
  intro none
  obtain ⟨current, matched⟩ := (reasonsIn_eq_nil_iff _).mp (Except.ok.inj none)
  obtain ⟨rfl, same⟩ := resolution_eq_of_matches before history found bounded matched
  have still : (Edit.worldAfter engine (edits ++ further)).write.record? current.uuid =
      some current := matched.current
  rw [resolveAlone_on calmLater still, same]
  exact ⟨Option.isSome_iff_exists.mpr ⟨_, still⟩, rfl⟩

/-- A book and its author, who writes another one. -/
def written : List Edit := [
  .put ⟨1⟩ ⟨"Author"⟩ (.ofText "name" "Ann") none,
  .put ⟨2⟩ ⟨"Book"⟩ (.ofText "author" (Uuid.text ⟨1⟩)) none]

/-- Other books come and go, and one book has the view that it had. -/
theorem other_books_leave_view :
    ∃ resolution,
      ((resolveAlone .books ⟨2⟩).on (Edit.worldAfter (.precise .books) written)).1 =
        .ok resolution ∧
      ((reasons (resolution.toView 2)).on (Edit.worldAfter (.precise .books) (written ++
        [.put ⟨3⟩ ⟨"Book"⟩ (.ofText "author" (Uuid.text ⟨1⟩)) none, .purge ⟨3⟩]))).1 = .ok [] ∧
      ((resolveAlone .books ⟨2⟩).on (Edit.worldAfter (.precise .books) (written ++
        [.put ⟨3⟩ ⟨"Book"⟩ (.ofText "author" (Uuid.text ⟨1⟩)) none, .purge ⟨3⟩]))).1 =
        .ok resolution := by
  have quiet : ((resolveAlone .books ⟨2⟩).on
      (Edit.worldAfter (.precise .books) written)).1.toOption.map (fun resolution =>
        ((reasons (resolution.toView 2)).on (Edit.worldAfter (.precise .books) (written ++
          [.put ⟨3⟩ ⟨"Book"⟩ (.ofText "author" (Uuid.text ⟨1⟩)) none,
            .purge ⟨3⟩]))).1.toOption) = some (some []) := by
    decide +kernel
  obtain ⟨resolution, resolved, unchanged⟩ := resolution_unchanged_of_no_reasons (.precise .books)
    written [.put ⟨3⟩ ⟨"Book"⟩ (.ofText "author" (Uuid.text ⟨1⟩)) none, .purge ⟨3⟩] ⟨2⟩ 2
    (by decide +kernel) (by decide +kernel)
  obtain ⟨seen, again, none⟩ := Action.ok_of_seen _ quiet
  cases resolved.symm.trans again
  have judged := Action.ok_of_toOption none
  exact ⟨resolution, resolved, judged, (unchanged judged).2⟩

end Freshness

end CachedViews
