import CachedViews.Proofs.Freshness
import CachedViews.Proofs.Queue
import CachedViews.Proofs.ReadStore.Calls
import CachedViews.Service.Reindex

/-!
What a reindex queues. A run over all types leaves no entity behind: each is queued, or all
views of its type were found fresh.
-/
namespace CachedViews

namespace WriteStore

variable {registry : Registry} {store : WriteStore}

/-- Every entity of a selected type is listed, since no two were created under one stamp. -/
theorem mem_list (consistent : Consistent registry store) {uuid : Uuid} {record : EntityRecord}
    (found : store.record? uuid = some record) {types : Option (List ItemType)}
    (selected : isSelected types record.itemType = true) :
    (⟨record.itemType, uuid⟩ : EntityKey) ∈ store.list types := by
  obtain ⟨row, _, stored, -, rfl⟩ := row_of_record? found
  have place : (SortedMap.ofList ((store.rows.entries.filter fun entry =>
      isSelected types entry.2.itemType).map fun entry =>
        ((entry.2.itemType, entry.2.createdSid), entry.1))).get?
          (row.itemType, row.createdSid) = some uuid := by
    apply SortedMap.get?_ofList_of_mem
    · exact List.mem_map.mpr ⟨(uuid, row), List.mem_filter.mpr
        ⟨(store.rows.mem_entries_iff uuid row).mpr stored, selected⟩, rfl⟩
    · intro other listed
      obtain ⟨⟨_, held⟩, inside, same⟩ := List.mem_map.mp listed
      obtain ⟨⟨-, stamps⟩, rfl⟩ := Prod.mk.inj same |>.imp_left Prod.mk.inj
      have there := (store.rows.mem_entries_iff _ held).mp (List.mem_filter.mp inside).1
      exact consistent.creations _ _ _ _ there stored stamps
  exact List.mem_map.mpr ⟨_, (SortedMap.mem_entries_iff _ _ _).mpr place, rfl⟩

/-- Everything that is listed is there. -/
theorem exists_of_mem_list (consistent : Consistent registry store)
    {types : Option (List ItemType)} {key : EntityKey} (listed : key ∈ store.list types) :
    store.Lives key.uuid := by
  obtain ⟨entry, inside, rfl⟩ := List.mem_map.mp listed
  obtain ⟨⟨uuid, row⟩, selected, rfl⟩ := List.mem_map.mp (SortedMap.mem_of_mem_ofList inside)
  have stored := (store.rows.mem_entries_iff uuid row).mp (List.mem_filter.mp selected).1
  obtain ⟨record, found, -⟩ := consistent.record?_of_row stored
  exact ⟨record, found⟩

end WriteStore

namespace Freshness

open CachedViews.Action WriteStore

variable {world : World} {store : MemoryViews}

/-- The state of an entity's view. -/
def stateIn (write : WriteStore) (store : MemoryViews) (uuid : Uuid) : ViewState :=
  match store.views.get? uuid with
  | some view =>
    match reasonsIn write view with
    | [] => .fresh
    | found => .stale found
  | none => if (write.itemTypeOf uuid).isSome then .missing else .fresh

/-- An entity has a view, and there is no reason against it. -/
def IsFresh (write : WriteStore) (store : MemoryViews) (uuid : Uuid) : Prop :=
  ∃ view, store.views.get? uuid = some view ∧ reasonsIn write view = []

theorem checkView_peeks (calm : world.Calm) (holds : world.Holds store) (uuid : Uuid) :
    Peeks (checkView uuid) (stateIn world.write store uuid) world := by
  rw [checkView, stateIn]
  refine (orNotFound_view_peeks calm holds uuid).bind fun stats => ?_
  cases store.views.get? uuid with
  | none =>
    refine .of_on ?_
    dsimp only
    rw [on_bind_ok (itemTypeOf_on (calm.counting stats) uuid)]
    rfl
  | some view =>
    refine .of_on ?_
    dsimp only
    rw [on_bind_ok (reasons_on (calm.counting stats) view)]
    change (match reasonsIn world.write view with
      | [] => pure ViewState.fresh
      | found => pure (ViewState.stale found) : Action ViewState).on _ = _
    cases reasonsIn world.write view <;> rfl

theorem isFresh_of_stateIn {write : WriteStore} {uuid : Uuid} {record : EntityRecord}
    (found : write.record? uuid = some record) (fresh : stateIn write store uuid = .fresh) :
    IsFresh write store uuid := by
  unfold stateIn at fresh
  split at fresh
  · rename_i view stored
    split at fresh
    · rename_i none
      exact ⟨view, stored, none⟩
    · cases fresh
  · rw [itemTypeOf_of_record? found] at fresh
    cases fresh

/-- The report over some entities, after an earlier part of it. -/
def reportIn (write : WriteStore) (store : MemoryViews) (start : FreshnessReport)
    (keys : List EntityKey) : FreshnessReport :=
  keys.foldl (fun report key => addState report key (stateIn write store key.uuid)) start

theorem checkAll_peeks (keys : List EntityKey) (start : FreshnessReport) (calm : world.Calm)
    (holds : world.Holds store) :
    Peeks (keys.foldlM (fun report key => do
        return addState report key (← checkView key.uuid)) start)
      (reportIn world.write store start keys) world := by
  induction keys generalizing world start with
  | nil => exact .of_on (on_pure _ _)
  | cons key rest ih =>
    rw [List.foldlM_cons]
    have first : Peeks (do return addState start key (← checkView key.uuid))
        (addState start key (stateIn world.write store key.uuid)) world := by
      refine (checkView_peeks calm holds key.uuid).bind fun stats => ?_
      exact .of_on (on_pure _ _)
    exact first.bind fun stats => ih _ (calm.counting stats) (holds.counting stats)

theorem isClean_addState {start : FreshnessReport} {key : EntityKey} {state : ViewState}
    (clean : (addState start key state).isClean = true) :
    start.isClean = true ∧ state = .fresh := by
  cases state with
  | fresh => exact ⟨clean, rfl⟩
  | stale reasons => simp [addState, FreshnessReport.isClean] at clean
  | missing => simp [addState, FreshnessReport.isClean] at clean

/-- A clean report has met nothing but fresh views. -/
theorem isClean_reportIn {write : WriteStore} {start : FreshnessReport} {keys : List EntityKey}
    (clean : (reportIn write store start keys).isClean = true) :
    start.isClean = true ∧ ∀ key ∈ keys, stateIn write store key.uuid = .fresh := by
  induction keys generalizing start with
  | nil => exact ⟨clean, fun _ listed => absurd listed List.not_mem_nil⟩
  | cons key rest ih =>
    obtain ⟨first, later⟩ := ih clean
    obtain ⟨before, fresh⟩ := isClean_addState first
    refine ⟨before, fun other listed => ?_⟩
    rcases List.mem_cons.mp listed with rfl | inside
    · exact fresh
    · exact later other inside

end Freshness

namespace Service

open CachedViews.Action WriteStore Freshness

variable {engine : Engine} {world : World} {store : MemoryViews} {live : Uuid → Prop}

/-- A type counts as up to date only when every entity of it has a fresh view. -/
theorem isUpToDate_peeks (calm : world.Calm) (holds : world.Holds store)
    (consistent : Consistent engine.registry world.write) (itemType : ItemType) (entities : Nat) :
    ∃ upToDate, Peeks (isUpToDate itemType entities) upToDate world ∧
      (upToDate = true → ∀ uuid record, world.write.record? uuid = some record →
        record.itemType = itemType → IsFresh world.write store uuid) := by
  rw [isUpToDate]
  -- With as many views as entities each is looked at; the count alone would not do.
  by_cases counted : (store.views.values.filter fun view => view.itemType = itemType).length =
      entities
  · refine ⟨(reportIn world.write store ⟨0, [], []⟩
      (world.write.list (some [itemType]))).isClean, ?_, ?_⟩
    · refine (Peeks.of_on (countViews_on calm holds itemType)).bind fun stats => ?_
      rw [if_neg (not_not_intro counted)]
      have listed : Peeks (listEntities (some [itemType])) (world.write.list (some [itemType]))
          (world.counting stats) := .of_on (listEntities_on (calm.counting stats) _)
      have reported : Peeks (Freshness.report (some [itemType]))
          (reportIn world.write store ⟨0, [], []⟩ (world.write.list (some [itemType])))
          (world.counting stats) := listed.bind fun more =>
        checkAll_peeks _ _ ((calm.counting stats).counting more) ((holds.counting stats).counting more)
      refine reported.bind fun more => ?_
      exact .of_on (on_pure _ _)
    · rintro clean uuid record found rfl
      refine isFresh_of_stateIn found ((isClean_reportIn clean).2 ⟨record.itemType, uuid⟩ ?_)
      exact mem_list consistent found (by simp [isSelected])
  · refine ⟨false, ?_, fun never => by cases never⟩
    refine (Peeks.of_on (countViews_on calm holds itemType)).bind fun stats => ?_
    rw [if_pos counted]
    exact .of_on (on_pure _ _)

/-- Messages that a reindex queues: rebuilds of whole entities, all strict or none. -/
def Requests (live : Uuid → Prop) (strict : Bool) (messages : List Message) : Prop :=
  ∀ message ∈ messages, live message.uuid ∧ message.strict = strict ∧ message.sid = none

/-- Each entity among these was queued, or has a fresh view. -/
def Covered (write : WriteStore) (store : MemoryViews) (messages : List Message)
    (keys : List EntityKey) : Prop :=
  ∀ key ∈ keys, ∀ record, write.record? key.uuid = some record → record.itemType = key.itemType →
    (∃ message ∈ messages, message.uuid = key.uuid) ∨ IsFresh write store key.uuid

/-- The world after messages were added to the primary lane. -/
def queueing (world : World) (stats : ReadStats) (messages : List Message) : World :=
  { world.counting stats with
    queue := { world.queue with primary := world.queue.primary ++ messages } }

theorem queueing_nil (world : World) (stats : ReadStats) :
    queueing world stats [] = world.counting stats := by
  rw [queueing, List.append_nil]
  rfl

theorem queueing_queueing (world : World) (first second : ReadStats) (before after : List Message) :
    queueing (queueing world first before) second after =
      queueing world second (before ++ after) := by
  unfold queueing World.counting
  dsimp only
  rw [World.counted_counted, List.append_assoc]

theorem calm_queueing (calm : world.Calm) (stats : ReadStats) (messages : List Message) :
    (queueing world stats messages).Calm :=
  calm.of_faults rfl calm.writable ((World.counted_available _ _).trans calm.readable)

/-- Whether a type is skipped. -/
def isSkipped (options : ReindexOptions) (itemType : ItemType) (entities : Nat) : Action Bool :=
  if options.checkExisting then isUpToDate itemType entities else pure false

/-- The rest of a type's reindex, once it is known whether the type is skipped. -/
def requeueType (options : ReindexOptions) (strict : Bool) (telemetryId : String)
    (itemType : ItemType) (keys : List EntityKey) (skipped : Bool) : Action TypeReindex := do
  if skipped then return ⟨itemType, keys.length, 0, true⟩
  let queued ←
    if options.skipPropagation then pure keys.length
    else Action.send .primary (keys.map (rebuildMessage strict telemetryId))
  return ⟨itemType, keys.length, queued, false⟩

theorem reindexType_eq (options : ReindexOptions) (strict : Bool) (telemetryId : String)
    (itemType : ItemType) (keys : List EntityKey) :
    reindexType options strict telemetryId itemType keys =
      isSkipped options itemType keys.length >>=
        requeueType options strict telemetryId itemType keys := by
  unfold reindexType isSkipped
  cases options.checkExisting <;> rfl

theorem reindexType_on (options : ReindexOptions) (strict : Bool) (telemetryId : String)
    (calm : world.Calm) (holds : world.Holds store)
    (consistent : Consistent engine.registry world.write) (itemType : ItemType)
    (keys : List EntityKey) (typed : ∀ key ∈ keys, key.itemType = itemType)
    (lives : ∀ key ∈ keys, live key.uuid) :
    ∃ line stats messages,
      (reindexType options strict telemetryId itemType keys).on world =
          (.ok line, queueing world stats messages) ∧
        Requests live strict messages ∧
        (options.skipPropagation = false → Covered world.write store messages keys) := by
  have judged : ∃ upToDate, Peeks (isSkipped options itemType keys.length) upToDate world ∧
      (upToDate = true → Covered world.write store [] keys) := by
    unfold isSkipped
    split
    · obtain ⟨upToDate, peeks, fresh⟩ := isUpToDate_peeks calm holds consistent itemType keys.length
      refine ⟨upToDate, peeks, fun clean key listed record found same => Or.inr ?_⟩
      exact fresh clean key.uuid record found (same.trans (typed key listed))
    · exact ⟨false, .of_on (on_pure _ _), fun never => by cases never⟩
  -- A type that is skipped was found fresh, one that is not has each entity queued.
  obtain ⟨upToDate, ⟨stats, ended⟩, fresh⟩ := judged
  rw [reindexType_eq, on_bind_ok ended]
  cases upToDate with
  | true =>
    refine ⟨⟨itemType, keys.length, 0, true⟩, stats, [], ?_, fun _ listed =>
      absurd listed List.not_mem_nil, fun _ => fresh rfl⟩
    rw [queueing_nil]
    rfl
  | false =>
    rw [requeueType, if_neg Bool.false_ne_true]
    cases skipped : options.skipPropagation with
    | true =>
      refine ⟨⟨itemType, keys.length, keys.length, false⟩, stats, [], ?_, fun _ listed =>
        absurd listed List.not_mem_nil, fun never => by cases never⟩
      rw [queueing_nil]
      rfl
    | false =>
      have sent : (send .primary (keys.map (rebuildMessage strict telemetryId))).on
          (world.counting stats) = _ := send_on _ _ _
      rw [Queue.send_primary] at sent
      rw [if_neg Bool.false_ne_true]
      dsimp only
      rw [on_bind_ok sent]
      refine ⟨_, stats, keys.map (rebuildMessage strict telemetryId), rfl, ?_, fun _ key listed _ _ _ =>
        Or.inl ⟨_, List.mem_map_of_mem listed, rfl⟩⟩
      · intro message listed
        obtain ⟨key, inside, rfl⟩ := List.mem_map.mp listed
        exact ⟨lives key inside, rfl, rfl⟩

theorem Requests.append {strict : Bool} {first second : List Message}
    (one : Requests live strict first) (two : Requests live strict second) :
    Requests live strict (first ++ second) := by
  intro message listed
  rcases List.mem_append.mp listed with early | late
  · exact one message early
  · exact two message late

theorem reindexTypes_on (options : ReindexOptions) (strict : Bool) (telemetryId : String)
    (groups : List (ItemType × List EntityKey)) (calm : world.Calm) (holds : world.Holds store)
    (consistent : Consistent engine.registry world.write)
    (typed : ∀ group ∈ groups, ∀ key ∈ group.2, key.itemType = group.1)
    (lives : ∀ group ∈ groups, ∀ key ∈ group.2, live key.uuid) :
    ∃ lines stats messages,
      (groups.mapM fun (itemType, keys) =>
          reindexType options strict telemetryId itemType keys).on world =
          (.ok lines, queueing world stats messages) ∧
        Requests live strict messages ∧
        (options.skipPropagation = false → ∀ group ∈ groups,
          Covered world.write store messages group.2) := by
  -- One type after the other; what an earlier one queued and counted the next one finds.
  induction groups generalizing world with
  | nil =>
    obtain ⟨stats, same⟩ := World.counting_self _
    refine ⟨[], stats, [], ?_, fun _ listed => absurd listed List.not_mem_nil, fun _ _ listed =>
      absurd listed List.not_mem_nil⟩
    rw [List.mapM_nil, on_pure, queueing_nil, same]
  | cons first rest ih =>
    obtain ⟨line, stats, messages, ended, requests, covered⟩ := reindexType_on options strict
      telemetryId calm holds consistent first.1 first.2 (typed first List.mem_cons_self)
      (lives first List.mem_cons_self)
    obtain ⟨lines, more, others, endedRest, requestsRest, coveredRest⟩ :=
      @ih (queueing world stats messages) (calm_queueing calm stats messages)
        ((holds.counting stats).of_read rfl) consistent
        (fun group listed => typed group (List.mem_cons_of_mem _ listed))
        fun group listed => lives group (List.mem_cons_of_mem _ listed)
    refine ⟨line :: lines, more, messages ++ others, ?_, requests.append requestsRest, ?_⟩
    · rw [List.mapM_cons, on_bind_ok ended, on_bind_ok endedRest, on_pure, queueing_queueing]
    · intro sends group listed key inside record found same
      rcases List.mem_cons.mp listed with rfl | later
      · apply (covered sends key inside record found same).imp_left
        rintro ⟨message, queued, same⟩
        exact ⟨message, List.mem_append_left _ queued, same⟩
      · apply (coveredRest sends group later key inside record found same).imp_left
        rintro ⟨message, queued, same⟩
        exact ⟨message, List.mem_append_right _ queued, same⟩

/-- Files one key under its type. -/
def fileUnder (groups : SortedMap ItemType (List EntityKey)) (key : EntityKey) :
    SortedMap ItemType (List EntityKey) :=
  groups.insert key.itemType (groups.getD key.itemType [] ++ [key])

theorem mem_fileUnder (groups : SortedMap ItemType (List EntityKey)) (filed : EntityKey)
    (itemType : ItemType) (key : EntityKey) :
    key ∈ (fileUnder groups filed).getD itemType [] ↔
      key ∈ groups.getD itemType [] ∨ key = filed ∧ key.itemType = itemType := by
  simp only [fileUnder, SortedMap.getD]
  rw [SortedMap.get?_insert_eq]
  split
  · rename_i same
    subst same
    rw [Option.getD_some, List.mem_append, List.mem_singleton]
    refine or_congr_right ⟨fun same => ⟨same, congrArg EntityKey.itemType same⟩, And.left⟩
  · rename_i apart
    refine ⟨Or.inl, fun either => either.resolve_right ?_⟩
    rintro ⟨rfl, typed⟩
    exact apart typed.symm

/-- Grouping files every key under its type. -/
theorem mem_groupByType (keys : List EntityKey) (itemType : ItemType) (key : EntityKey) :
    key ∈ (groupByType keys).getD itemType [] ↔ key ∈ keys ∧ key.itemType = itemType := by
  refine (foldl_iff_or (fun groups : SortedMap ItemType (List EntityKey) =>
    key ∈ groups.getD itemType []) (fun filed _ groups => mem_fileUnder groups filed itemType key)
    {}).trans ?_
  constructor
  · rintro (none | ⟨filed, listed, rfl, typed⟩)
    · exact absurd none List.not_mem_nil
    · exact ⟨listed, typed⟩
  · rintro ⟨listed, typed⟩
    exact Or.inr ⟨key, listed, rfl, typed⟩

/-- Every key is in the group of its type. -/
theorem exists_group {keys : List EntityKey} {key : EntityKey} (listed : key ∈ keys) :
    ∃ group ∈ (groupByType keys).entries, key ∈ group.2 := by
  have inside := (mem_groupByType keys key.itemType key).mpr ⟨listed, rfl⟩
  rw [SortedMap.getD] at inside
  cases group : (groupByType keys).get? key.itemType with
  | none =>
    rw [group] at inside
    cases inside
  | some members =>
    rw [group] at inside
    exact ⟨(key.itemType, members), (SortedMap.mem_entries_iff _ _ _).mpr group, inside⟩

/-- The queue that a reindex starts from: a run over all types drops what waits. -/
def requeueBase (options : ReindexOptions) (queue : Queue) : Queue :=
  if options.types.isNone && !options.skipPropagation then queue.purge.2 else queue

def clearQueue (options : ReindexOptions) : Action Nat :=
  if options.types.isNone && !options.skipPropagation then Action.purgeQueue else pure 0

/-- The rest of a reindex, once waiting messages were dropped. -/
def requeueTypes (options : ReindexOptions) (telemetryId : String) (purgedMessages : Nat) :
    Action ReindexReport := do
  let total := options.types.isNone
  let strict := options.strict || total
  let groups := groupByType (← Action.listEntities options.types)
  let types ← groups.entries.mapM fun (itemType, keys) =>
    reindexType options strict telemetryId itemType keys
  return { telemetryId, total, strict, purgedMessages, types }

theorem reindex_eq (options : ReindexOptions) :
    reindex options = nextTelemetryId >>= fun telemetryId =>
      clearQueue options >>= requeueTypes options telemetryId := by
  unfold reindex clearQueue
  dsimp only
  refine bind_congr fun telemetryId => ?_
  split <;> rfl

theorem requeueTypes_on (options : ReindexOptions) (telemetryId : String) (count : Nat)
    (calm : world.Calm) (holds : world.Holds store)
    (consistent : Consistent engine.registry world.write) :
    ∃ report stats messages,
      (requeueTypes options telemetryId count).on world =
          (.ok report, queueing world stats messages) ∧
        Requests world.write.Lives (options.strict || options.types.isNone) messages ∧
        (options.types = none → options.skipPropagation = false →
          ∀ uuid record, world.write.record? uuid = some record →
            (∃ message ∈ messages, message.uuid = uuid) ∨ IsFresh world.write store uuid) := by
  have filed : ∀ group ∈ (groupByType (world.write.list options.types)).entries,
      (groupByType (world.write.list options.types)).getD group.1 [] = group.2 := by
    intro group listed
    rw [SortedMap.getD, (SortedMap.mem_entries_iff _ group.1 group.2).mp listed]
    rfl
  have listed : ∀ group ∈ (groupByType (world.write.list options.types)).entries,
      ∀ key ∈ group.2, key ∈ world.write.list options.types ∧ key.itemType = group.1 :=
    fun group listed key inside => (mem_groupByType _ group.1 key).mp (filed group listed ▸ inside)
  have lives : ∀ group ∈ (groupByType (world.write.list options.types)).entries,
      ∀ key ∈ group.2, world.write.Lives key.uuid :=
    fun group inside key held => exists_of_mem_list consistent (listed group inside key held).1
  obtain ⟨lines, stats, messages, ended, requests, covered⟩ := reindexTypes_on options
    (options.strict || options.types.isNone) telemetryId
    (groupByType (world.write.list options.types)).entries calm holds consistent
    (fun group inside key held => (listed group inside key held).2) lives
  rw [requeueTypes]
  dsimp only
  rw [on_bind_ok (listEntities_on calm options.types), on_bind_ok ended]
  refine ⟨_, stats, messages, rfl, requests, ?_⟩
  · intro total sends uuid record found
    have listed := mem_list consistent found (show isSelected options.types record.itemType = true by
      rw [total]
      rfl)
    obtain ⟨group, grouped, inside⟩ := exists_group listed
    exact covered sends group grouped ⟨record.itemType, uuid⟩ inside record found rfl

/-- A reindex only queues messages, after it may have dropped those that wait. -/
theorem reindex_on (options : ReindexOptions) (calm : world.Calm) (holds : world.Holds store)
    (consistent : Consistent engine.registry world.write) :
    ∃ report stats messages reindexRuns,
      (reindex options).on world = (.ok report, queueing
        { world with reindexRuns, queue := requeueBase options world.queue } stats messages) ∧
        Requests world.write.Lives (options.strict || options.types.isNone) messages ∧
        (options.types = none → options.skipPropagation = false →
          ∀ uuid record, world.write.record? uuid = some record →
            (∃ message ∈ messages, message.uuid = uuid) ∨ IsFresh world.write store uuid) := by
  obtain ⟨telemetryId, reindexRuns, named⟩ : ∃ telemetryId reindexRuns, nextTelemetryId.on world =
      (.ok telemetryId, { world with reindexRuns }) := ⟨_, _, rfl⟩
  obtain ⟨count, cleared⟩ : ∃ count, (clearQueue options).on { world with reindexRuns } =
      (.ok count, { world with reindexRuns, queue := requeueBase options world.queue }) := by
    unfold clearQueue requeueBase
    split <;> exact ⟨_, rfl⟩
  have calmCleared : ({ world with reindexRuns, queue := requeueBase options world.queue } :
      World).Calm :=
    calm.of_faults rfl calm.writable calm.readable
  obtain ⟨report, stats, messages, ended, requests, complete⟩ := requeueTypes_on options telemetryId
    count calmCleared (holds.of_read rfl) consistent
  refine ⟨report, stats, messages, reindexRuns, ?_, requests, complete⟩
  rw [reindex_eq, on_bind_ok named, on_bind_ok cleared, ended]

end Service

end CachedViews
