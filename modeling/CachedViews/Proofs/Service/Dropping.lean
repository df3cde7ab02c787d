import CachedViews.Proofs.Asking.Answers
import CachedViews.Proofs.Service.Queueing
import CachedViews.Proofs.Service.Reindexing
import CachedViews.Proofs.Service.Weathering

/-!
What a reindex leaves of the messages that wait, however it ends. It drops them only when it goes over
all types and queues their rebuilds, and it does so before anything can fail. From then on it only
appends rebuilds to the primary lane, so that a run that fails has kept what waited, or has dropped
all of it and leaves the rebuilds that it came to.
-/
namespace CachedViews

/-- Messages that satisfy `M` were appended to the primary lane, and otherwise things were looked
up. -/
structure World.Appends (M : Message → Prop) (before after : World) : Prop where
  write : after.write = before.write
  failures : after.failures = before.failures
  read : ∃ stats, after.read = counted before.read stats
  queue : ∃ messages, (∀ message ∈ messages, M message) ∧
    after.queue = { before.queue with primary := before.queue.primary ++ messages }

theorem World.Looked.appends {M : Message → Prop} {before after : World}
    (looked : World.Looked before after) : World.Appends M before after where
  write := looked.write
  failures := looked.failures
  read := looked.read
  queue := ⟨[], fun _ never => absurd never List.not_mem_nil, by
    rw [looked.queue, List.append_nil]⟩

instance (M : Message → Prop) : World.Chain (World.Appends M) where
  refl world := (World.Looked.refl world).appends
  trans one two := by
    obtain ⟨early, here⟩ := one.read
    obtain ⟨late, there⟩ := two.read
    obtain ⟨first, sent, queue⟩ := one.queue
    obtain ⟨second, sentLate, queueLate⟩ := two.queue
    refine ⟨two.write.trans one.write, two.failures.trans one.failures,
      ⟨late, by rw [there, here, World.counted_counted]⟩, first ++ second, ?_, ?_⟩
    · intro message listed
      exact (List.mem_append.mp listed).elim (sent message) (sentLate message)
    · rw [queueLate, queue]
      dsimp only
      rw [List.append_assoc]

namespace Service

open CachedViews.Action

variable {options : ReindexOptions} {store : WriteStore}

/-- A rebuild that a reindex queues: of an entity that is listed, strict in a run over all types. -/
def IsRebuild (options : ReindexOptions) (store : WriteStore) (message : Message) : Prop :=
  options.skipPropagation = false ∧ ∃ telemetryId, ∃ key ∈ store.list options.types,
    message = rebuildMessage (options.strict || options.types.isNone) telemetryId key

theorem reindexType_appends {telemetryId : String} {itemType : ItemType} {keys : List EntityKey}
    (listed : ∀ key ∈ keys, key ∈ store.list options.types) :
    Keeps (World.Appends (IsRebuild options store))
      (reindexType options (options.strict || options.types.isNone) telemetryId itemType keys) := by
  have judging : (isSkipped options itemType keys.length).Looks := by
    unfold isSkipped
    split
    · exact isUpToDate_looks itemType keys.length
    · exact keeps_pure false
  rw [reindexType_eq]
  refine (judging.mono fun _ _ => World.Looked.appends).bind fun skipped => ?_
  unfold requeueType
  cases skipped with
  | true => exact keeps_pure _
  | false =>
    rw [if_neg Bool.false_ne_true]
    cases silent : options.skipPropagation with
    | true => exact (keeps_pure _).bind fun _ => keeps_pure _
    | false =>
      rw [if_neg Bool.false_ne_true]
      refine Keeps.bind (keeps_modifyGet fun world => ?_) fun _ => keeps_pure _
      refine ⟨rfl, rfl, World.exists_counted world.read,
        keys.map (rebuildMessage (options.strict || options.types.isNone) telemetryId), ?_,
        Queue.send_primary world.queue world.now _⟩
      intro message inside
      obtain ⟨key, held, rfl⟩ := List.mem_map.mp inside
      exact ⟨silent, telemetryId, key, listed key held, rfl⟩

theorem requeueTypes_appends (options : ReindexOptions) (telemetryId : String) (count : Nat)
    (world : World) : World.Appends (IsRebuild options world.write) world
      ((requeueTypes options telemetryId count).on world).2 := by
  unfold requeueTypes
  dsimp only
  rw [on_bind]
  have told : (listEntities options.types).Yields (world.write.list options.types) world :=
    (writeStore_yields world).bind writeStore_looks fun _ _ => yields_pure _
  have looks := listEntities_looks options.types
  rcases ended : (listEntities options.types).on world with ⟨error | keys, after⟩
  · exact (looks.of_on ended).appends
  · obtain rfl := told keys after ended
    refine World.Chain.trans (looks.of_on ended).appends ?_
    refine Keeps.bind (keeps_mapM_of fun group inside => reindexType_appends fun key held => ?_)
      (fun _ => keeps_pure _) after
    have filed : (groupByType (world.write.list options.types)).getD group.1 [] = group.2 := by
      rw [SortedMap.getD, (SortedMap.mem_entries_iff _ group.1 group.2).mp inside]
      rfl
    exact ((mem_groupByType _ group.1 key).mp (filed ▸ held)).1

/-- However a reindex ends, the rebuilds that it came to follow what it did not drop. -/
theorem reindex_queue (options : ReindexOptions) (world : World) :
    World.Appends (IsRebuild options world.write)
      { world with queue := requeueBase options world.queue } ((reindex options).on world).2 := by
  obtain ⟨telemetryId, reindexRuns, named⟩ : ∃ telemetryId reindexRuns, nextTelemetryId.on world =
      (.ok telemetryId, { world with reindexRuns }) := ⟨_, _, rfl⟩
  obtain ⟨count, cleared⟩ : ∃ count, (clearQueue options).on { world with reindexRuns } =
      (.ok count, { world with reindexRuns, queue := requeueBase options world.queue }) := by
    unfold clearQueue requeueBase
    split <;> exact ⟨_, rfl⟩
  rw [reindex_eq, on_bind_ok named, on_bind_ok cleared]
  have rest := requeueTypes_appends options telemetryId count
    { world with reindexRuns, queue := requeueBase options world.queue }
  exact ⟨rest.write, rest.failures, rest.read, rest.queue⟩

/-- A reindex of chosen types, or one that only reports, leaves every message where it waits, in
order, however it ends. One that queues rebuilds over all types drops everything that waits before it
asks for anything, and what waits when it ends are strict rebuilds that it queued. What is in flight,
both stores and the failure report stay. -/
theorem reindex_drops_in_full_runs_only {options : ReindexOptions} {world after : World}
    {result : Except EngineError ReindexReport}
    (ended : (reindex options).on world = (result, after)) :
    (options.types.isSome = true ∨ options.skipPropagation = true →
        ∀ lane, world.queue.waiting lane <+: after.queue.waiting lane) ∧
      (options.types = none → options.skipPropagation = false →
        ∀ lane, ∀ message ∈ after.queue.waiting lane,
          lane = .primary ∧ message.strict = true ∧ IsRebuild options world.write message) ∧
      after.queue.inFlight = world.queue.inFlight ∧ after.write = world.write ∧
      after.failures = world.failures ∧ ∃ stats, after.read = World.counted world.read stats := by
  have appends := reindex_queue options world
  rw [ended] at appends
  obtain ⟨rebuilds, each, queue⟩ := appends.queue
  dsimp only at queue each
  refine ⟨?_, ?_, ?_, appends.write, appends.failures, appends.read⟩
  · intro keeps lane
    have base : requeueBase options world.queue = world.queue := by
      rw [requeueBase, if_neg]
      rcases keeps with chosen | silent
      · simp [Option.isNone_eq_false_iff.mpr chosen]
      · simp [silent]
    rw [queue, base]
    cases lane with
    | primary => exact List.prefix_append _ rebuilds
    | secondary => exact List.prefix_rfl
    | deferred => exact List.prefix_rfl
  · intro full sends lane message listed
    have base : requeueBase options world.queue = world.queue.purge.2 := by
      rw [requeueBase, if_pos]
      simp [full, sends]
    rw [queue, base] at listed
    cases lane with
    | primary =>
      have rebuild := each message listed
      obtain ⟨-, telemetryId, key, -, rfl⟩ := id rebuild
      exact ⟨rfl, by simp [rebuildMessage, full], rebuild⟩
    | secondary => cases listed
    | deferred => cases listed
  · rw [queue, requeueBase]
    split <;> rfl

/-- An author was stored, and then the write store went out of reach. -/
def unlistable : World :=
  (Edit.worldAfter (.precise .books)
    [.put ⟨1⟩ ⟨"Author"⟩ (.ofText "name" "Ann") none]).disturbed .none false true 0

def reindexed (types : Option (List ItemType)) : World :=
  ((reindex ⟨types, false, false, false⟩).on unlistable).2

/-- A reindex of authors that fails leaves the author's message. -/
theorem failed_reindex_of_authors_keeps_message :
    ((reindex ⟨some [⟨"Author"⟩], false, false, false⟩).on unlistable).1.toOption.isNone = true ∧
      unlistable.queue.waiting .primary <+: (reindexed (some [⟨"Author"⟩])).queue.waiting .primary ∧
      ∀ message ∈ (reindexed none).queue.waiting .primary, message.strict = true := by
  obtain ⟨keeps, -⟩ := reindex_drops_in_full_runs_only
    (Prod.eta ((reindex ⟨some [⟨"Author"⟩], false, false, false⟩).on unlistable)).symm
  obtain ⟨-, rebuilds, -⟩ := reindex_drops_in_full_runs_only
    (Prod.eta ((reindex ⟨none, false, false, false⟩).on unlistable)).symm
  exact ⟨by decide +kernel, keeps (Or.inl rfl) .primary,
    fun message listed => (rebuilds rfl rfl .primary message listed).2.1⟩

/-- A reindex of all types fails at once, and the author's message is gone. The author has no view,
and nothing is left to do. -/
theorem failed_reindex_forgets_author :
    Weathered (.precise .books) unlistable ∧
      unlistable.queue.waiting .primary = [.primary ⟨⟨"Author"⟩, ⟨1⟩⟩ (some 1) none] ∧
      ((reindex ⟨none, false, false, false⟩).on unlistable).1.toOption.isNone = true ∧
      (reindexed none).queue.waiting .primary = [] ∧
      (reindexed none).queue.isIdle = true ∧
      ((Freshness.checkView ⟨1⟩).on (reindexed none).recovered).1 = .ok .missing := by
  refine ⟨?_, ?_, ?_, ?_, ?_, ok_of_toOption ?_⟩
  · exact .disturbed (.edited (.start _ fun _ => rfl) _) .none List.not_mem_nil false true 0
  all_goals decide +kernel

end Service

end CachedViews
