import CachedViews.Proofs.Embedding.Loading
import CachedViews.Proofs.Indexing.Cycle
import CachedViews.Proofs.Queue.Owing

/-!
How one cycle ends under any faults that do not lie about records. A cycle that fails queues
nothing, but it may already have stored the view.
-/
namespace CachedViews

namespace Indexing

open CachedViews.Action WriteStore Invalidation

variable {engine : Engine} {world after last next : World} {store views : MemoryViews}
  {message : Message} {record : EntityRecord} {snapshot : Sid}

/-- A view made of the current record of an entity and the edges into it. -/
structure Reflects (write : WriteStore) (record : EntityRecord) (view : View) : Prop where
  own : view.uuid = record.uuid
  stamped : view.sid = record.sid
  listed : view.revLinks = .ofEdges record.uuid (write.revLinks record.uuid)

/-- The stored view of an entity, if there is one, is not newer than its record. -/
def NotNewer (store : MemoryViews) (record : EntityRecord) : Prop :=
  ∀ view, store.views.get? record.uuid = some view → view.sid ≤ record.sid

/-- How a cycle ends under faults, and what it leaves of the views and the queue. -/
inductive Ended (engine : Engine) (message : Message) (world : World) (store : MemoryViews)
    (after : World) : Except EngineError Outcome → Prop where
  | failed (error : EngineError) (left : Nat) (holds : after.Holds { store with failingPuts := left })
    (queue : after.queue = world.queue) : Ended engine message world store after (.error error)
  /-- The view is stored, and what should follow from it failed. -/
  | brokeOff (error : EngineError) (record : EntityRecord) (view : View)
    (found : world.write.record? message.uuid = some record)
    (reflects : Reflects world.write record view) (older : NotNewer store record)
    (holds : after.Holds (store.put view)) (queue : after.queue = world.queue) :
    Ended engine message world store after (.error error)
  | removed (outcome : Outcome) (missing : world.write.record? message.uuid = none)
    (holds : after.Holds (store.delete message.uuid).2) (queue : after.queue = world.queue) :
    Ended engine message world store after (.ok outcome)
  | outdated (outcome : Outcome) (record : EntityRecord)
    (found : world.write.record? message.uuid = some record) (newer : ¬ NotNewer store record)
    (holds : after.Holds store) (queue : after.queue = world.queue) :
    Ended engine message world store after (.ok outcome)
  | indexed (outcome : Outcome) (record : EntityRecord) (view : View) (now : Instant)
    (found : world.write.record? message.uuid = some record)
    (reflects : Reflects world.write record view) (older : NotNewer store record)
    (holds : after.Holds (store.put view))
    (queue : after.queue = queued engine { world with now } (store.put view) message record
      ((store.views.get? message.uuid).map View.sid)) :
    Ended engine message world store after (.ok outcome)

theorem deleteView_ended {uuid : Uuid} {result : Except EngineError Bool} (holds : world.Holds store)
    (ended : (deleteView uuid).on world = (result, after)) : after.queue = world.queue ∧
      match result with
      | .ok _ => after.Holds (store.delete uuid).2
      | .error _ => after.Holds store := by
  rw [deleteView] at ended
  rcases readStore_cases holds ended with ⟨⟨_, rfl, -⟩, looked⟩ | ⟨later, stats, looked, -, ended⟩
  · exact ⟨looked.queue, looked.holds holds⟩
  · cases ended
    obtain ⟨counted, same⟩ := store.delete_counted stats uuid
    exact ⟨looked.queue, counted, congrArg ReadStore.memory same⟩

theorem putView_ended {view : View} {result : Except EngineError Unit} (holds : world.Holds store)
    (ended : (putView view).on world = (result, after)) : after.queue = world.queue ∧
      match result with
      | .ok _ => after.Holds (store.put view)
      | .error _ => ∃ left, after.Holds { store with failingPuts := left } := by
  rw [putView] at ended
  rcases readStore_cases holds ended with ⟨⟨_, rfl, -⟩, looked⟩ | ⟨later, stats, looked, -, ended⟩
  · exact ⟨looked.queue, store.failingPuts, looked.holds holds⟩
  · simp only [ReadStore.takeFailure, MemoryViews.takeFailure] at ended
    by_cases none : store.failingPuts = 0
    · rw [if_pos none] at ended
      cases ended
      exact ⟨looked.queue, _, rfl⟩
    · rw [if_neg none] at ended
      cases ended
      exact ⟨looked.queue, store.failingPuts - 1, stats, rfl⟩

theorem propagate_ended {since : Option Sid} {result : Except EngineError Nat}
    (holds : world.Holds store) (consistent : Consistent engine.registry world.write)
    (found : world.write.record? message.uuid = some record)
    (ended : (propagate engine message record since).on world = (result, after)) :
    after.Holds store ∧ match result with
      | .ok _ => ∃ now, after.queue = (world.queue.send .secondary now (secondaries message record
          (fanOut engine world.write store message record since))).2
      | .error _ => after.queue = world.queue := by
  have current : world.write.record? record.uuid = some record := record?_uuid found ▸ found
  rw [propagate, on_bind] at ended
  rcases selected : (scope engine message.uuid message.diff).on world with ⟨error | scope, first⟩
  · rw [selected] at ended
    cases ended
    have looked := (scope_looks engine message.uuid message.diff).of_on selected
    exact ⟨looked.holds holds, looked.queue⟩
  · have looked := (scope_looks engine message.uuid message.diff).of_on selected
    obtain rfl := scope_yields engine holds (itemTypeOf_of_record? found) message.diff _ _ selected
    rw [selected] at ended
    dsimp only at ended
    rw [on_bind] at ended
    rcases changed : (linkTargets engine record since).on first with ⟨error | targets, second⟩
    · rw [changed] at ended
      cases ended
      have further := looked.trans ((linkTargets_looks engine record since).of_on changed)
      exact ⟨further.holds holds, further.queue⟩
    · have further := looked.trans ((linkTargets_looks engine record since).of_on changed)
      have told := linkTargets_yields (looked.write ▸ consistent) (looked.write ▸ current) since
        _ _ changed
      rw [looked.write] at told
      subst told
      rw [changed] at ended
      unfold secondaries fanOut
      dsimp only at ended
      split at ended
      · rename_i none
        rw [none]
        cases ended
        exact ⟨further.holds holds, world.now, further.queue⟩
      · cases ended
        refine ⟨(further.holds holds).of_read rfl, second.now, ?_⟩
        rw [← further.queue]

/-- Looking something up first makes no difference to how a cycle ends. -/
theorem Ended.of_looked {result : Except EngineError Outcome} (looked : world.Looked next)
    (ended : Ended engine message next store after result) :
    Ended engine message world store after result := by
  have write := looked.write
  cases ended with
  | failed error left holds queue => exact .failed error left holds (queue.trans looked.queue)
  | brokeOff error record view found reflects older holds queue =>
    exact .brokeOff error record view (write ▸ found) (write ▸ reflects) older holds
      (queue.trans looked.queue)
  | removed outcome missing holds queue =>
    exact .removed outcome (write ▸ missing) holds (queue.trans looked.queue)
  | outdated outcome record found newer holds queue =>
    exact .outdated outcome record (write ▸ found) newer holds (queue.trans looked.queue)
  | indexed outcome record view now found reflects older holds queue =>
    refine .indexed outcome record view now (write ▸ found) (write ▸ reflects) older holds
      (queue.trans ?_)
    simp only [queued, write, looked.queue]

/-- What follows once the view is stored. -/
theorem spread_ended {since : Option Sid} {sid : Sid} {result : Except EngineError Outcome}
    (holds : world.Holds store) (consistent : Consistent engine.registry world.write)
    (found : world.write.record? message.uuid = some record)
    (ended : (if message.strict then pure 0 >>= fun count => pure (.indexed sid count)
      else propagate engine message record since >>= fun count =>
        pure (.indexed sid count) : Action Outcome).on world = (result, after)) :
    after.Holds store ∧ match result with
      | .ok _ => ∃ now, after.queue = queued engine { world with now } store message record since
      | .error _ => after.queue = world.queue := by
  unfold queued
  by_cases strict : message.strict = true
  · rw [if_pos strict] at ended
    cases ended
    exact ⟨holds, world.now, (if_pos strict).symm⟩
  · rw [if_neg strict, on_bind] at ended
    rcases spreading : (propagate engine message record since).on world with ⟨error | count, last⟩
    · have broke := propagate_ended holds consistent found spreading
      rw [spreading] at ended
      cases ended
      exact broke
    · have spread := propagate_ended holds consistent found spreading
      rw [spreading] at ended
      cases ended
      obtain ⟨held, now, sent⟩ := spread
      exact ⟨held, now, sent.trans (if_neg strict).symm⟩

theorem storeView_ended {resolution : Resolution} {result : Except EngineError Outcome}
    (holds : world.Holds store) (consistent : Consistent engine.registry world.write)
    (found : world.write.record? message.uuid = some resolution.record)
    (reflects : Reflects world.write resolution.record (resolution.toView snapshot))
    (ended : (storeView engine message resolution snapshot).on world = (result, after)) :
    Ended engine message world store after result := by
  have same : resolution.record.uuid = message.uuid := record?_uuid found
  rw [storeView, on_bind] at ended
  rcases looking : (viewSids [message.uuid]).on world with ⟨error | sids, first⟩
  · rw [looking] at ended
    cases ended
    have looked := (viewSids_looks [message.uuid]).of_on looking
    exact .failed error store.failingPuts (looked.holds holds) looked.queue
  have looked := (viewSids_looks [message.uuid]).of_on looking
  have stored := viewSids_ok holds looking
  rw [looking] at ended
  dsimp only at ended
  rw [stored] at ended
  have held := looked.holds holds
  rw [← looked.write] at consistent found reflects
  refine .of_looked looked ?_
  cases conflicts : ((store.views.get? message.uuid).map View.sid).filter fun stored =>
      (resolution.toView snapshot).sid < stored with
  | some newer =>
    obtain ⟨mapped, less⟩ := Option.filter_eq_some_iff.mp conflicts
    obtain ⟨view, there, rfl⟩ := Option.map_eq_some_iff.mp mapped
    rw [conflicts] at ended
    cases ended
    refine .outdated _ resolution.record found (fun older => ?_) (held.of_read rfl) rfl
    have below := older view (same ▸ there)
    rw [← reflects.stamped] at below
    exact absurd (of_decide_eq_true less) (Int.not_lt.mpr below)
  | none =>
    have older : NotNewer store resolution.record := by
      intro view there
      rw [same] at there
      rw [there] at conflicts
      have kept := Option.filter_eq_none_iff.mp conflicts view.sid rfl
      rw [← reflects.stamped]
      exact Int.not_lt.mp (by simpa using kept)
    rw [conflicts] at ended
    dsimp only at ended
    rw [on_bind] at ended
    rcases storing : (putView (resolution.toView snapshot)).on first with ⟨error | _, second⟩
    · obtain ⟨queue, left, failing⟩ := putView_ended held storing
      rw [storing] at ended
      cases ended
      exact .failed error left failing queue
    obtain ⟨queue, placed⟩ := putView_ended held storing
    have write := ((putView_asks (P := fun _ => True) trivial).of_on storing).write
    rw [storing] at ended
    dsimp only at ended placed
    rw [on_bind_ok (count_on _ _)] at ended
    generalize ({ second.metrics with indexed := second.metrics.indexed + 1 } : Metrics) = metrics
      at ended
    rw [← write] at consistent found
    have here : ({ second with metrics } : World).Holds _ := placed.of_read rfl
    obtain ⟨holdsAfter, left⟩ := spread_ended here consistent found ended
    rw [write] at found
    cases result with
    | error error =>
      exact .brokeOff error resolution.record _ found reflects older holdsAfter (left.trans queue)
    | ok outcome =>
      obtain ⟨now, left⟩ := left
      refine .indexed outcome resolution.record _ now found reflects older holdsAfter
        (left.trans ?_)
      simp only [queued, write, queue]

/-- One cycle under any faults that do not lie about records. -/
theorem rebuild_ended {result : Except EngineError Outcome} (truthful : world.Truthful)
    (holds : world.Holds store) (consistent : Consistent engine.registry world.write)
    (ended : (rebuild engine message snapshot).on world = (result, after)) :
    Ended engine message world store after result := by
  rw [rebuild] at ended
  rcases requireCovered_cases message snapshot world with covered | ⟨⟨error, refused⟩, -⟩
  · rw [on_bind_ok covered, on_bind] at ended
    rcases resolving : (orNotFound (Embedding.resolve engine.registry message.uuid none)).on world
      with ⟨error | resolution, later⟩
    · rw [resolving] at ended
      cases ended
      have looked := (Embedding.resolve_looks _ _ _).orNotFound.of_on resolving
      exact .failed error store.failingPuts (looked.holds holds) looked.queue
    have looked := (Embedding.resolve_looks _ _ _).orNotFound.of_on resolving
    have held := looked.holds holds
    rw [resolving] at ended
    cases resolution with
    | none =>
      have missing := Embedding.resolve_missing truthful resolving
      dsimp only at ended
      rw [removeView, on_bind] at ended
      rcases removing : (deleteView message.uuid).on later with ⟨error | existed, last⟩
      · obtain ⟨queue, kept⟩ := deleteView_ended held removing
        rw [removing] at ended
        cases ended
        exact .failed error store.failingPuts kept (queue.trans looked.queue)
      · obtain ⟨queue, gone⟩ := deleteView_ended held removing
        rw [removing] at ended
        cases ended
        exact .removed _ missing (gone.of_read rfl) (queue.trans looked.queue)
    | some resolution =>
      obtain ⟨found, shown, -⟩ := Embedding.resolve_built truthful (orNotFound_some resolving)
      have reflects : Reflects world.write resolution.record (resolution.toView snapshot) :=
        ⟨rfl, rfl, shown⟩
      rw [← looked.write] at consistent found reflects
      exact .of_looked looked (storeView_ended held consistent found reflects ended)
  · rw [on_bind_error refused] at ended
    cases ended
    exact .failed error store.failingPuts holds rfl

end Indexing

end CachedViews
