import CachedViews.Proofs.Asking.Calls
import CachedViews.Proofs.WriteStore.Calls
import CachedViews.Proofs.WriteStore.Changes

/-!
Trails of write stores that calls make, one call after the other, with any sheets written. Stamps
grow along a trail, so a record that is current is at least as new as every revision of its entity
that any earlier store had.
-/
namespace CachedViews

namespace WriteStore

variable {store next : WriteStore} {uuid : Uuid} {row : EntityRow}

/-- Whatever sheets are written, one of them is the new default sheet. -/
theorem history_committedRow (store : WriteStore) (write : EntityWrite)
    (bounded : ∀ revision ∈ row.history, revision.sid ≤ store.maxSid) :
    (store.committedRow row write).history = row.history ++
      [⟨store.nextSid, (write.sheets.get? defaultSheet).getD write.properties⟩] := by
  have later : ∀ entry ∈ (row.rows defaultSheet).entries, entry.1 < store.nextSid :=
    fun entry inside => Int.lt_add_one_of_le
      (bounded ⟨entry.1, entry.2⟩ ((row.mem_history_iff _).mpr inside))
  change ((row.writeSheets store.nextSid write).rows defaultSheet).entries.map _ = _
  rw [EntityRow.rows_writeSheets, write.sheet?_default]
  dsimp only
  rw [EntityRow.entries_insert_later _ later, List.map_append]
  rfl

/-- What one call may do to the revisions of a store. -/
inductive Moves (store next : WriteStore) : Prop where
  | still (watermark : next.maxSid = store.maxSid)
    (revisions : ∀ other, next.revisions other = store.revisions other)
  | wrote (uuid : Uuid) (properties : Properties) (watermark : next.maxSid = store.nextSid)
    (revisions : ∀ other, next.revisions other =
      if other = uuid then store.revisions other ++ [⟨store.nextSid, properties⟩]
      else store.revisions other)
  | purged (uuid : Uuid) (watermark : next.maxSid = store.maxSid)
    (revisions : ∀ other, next.revisions other =
      if other = uuid then [] else store.revisions other)

/-- No retained revision is newer than the watermark. -/
def Bounded (store : WriteStore) : Prop :=
  ∀ uuid, ∀ revision ∈ store.revisions uuid, revision.sid ≤ store.maxSid

/-- A row to write over: the stored one, or a bare one for an entity that has none. -/
def Placeable (store : WriteStore) (uuid : Uuid) (row : EntityRow) : Prop :=
  store.rows.get? uuid = some row ∨ store.rows.get? uuid = none ∧ row.history = []

theorem Placeable.revisions_eq (placeable : Placeable store uuid row) :
    store.revisions uuid = row.history := by
  rcases placeable with stored | ⟨vacant, bare⟩
  · simp [revisions, stored]
  · simp [revisions, vacant, bare]

theorem Placeable.history (placeable : Placeable store uuid row) (bounded : Bounded store)
    (write : EntityWrite) :
    ∃ properties, (store.committedRow row write).history =
      row.history ++ [⟨store.nextSid, properties⟩] :=
  ⟨_, history_committedRow store write fun revision inside =>
    bounded uuid revision (placeable.revisions_eq ▸ inside)⟩

theorem moves_of_commit (bounded : Bounded store) (write : EntityWrite)
    (placeable : Placeable store uuid row) : Moves store (store.commit uuid row write).2 := by
  obtain ⟨properties, history⟩ := placeable.history bounded write
  refine .wrote uuid properties rfl fun other => ?_
  unfold revisions
  rw [commit_rows, SortedMap.get?_insert_eq]
  by_cases same : other = uuid
  · subst same
    rw [if_pos rfl, if_pos rfl]
    exact history.trans (congrArg (· ++ _) placeable.revisions_eq.symm)
  · rw [if_neg same, if_neg same]

theorem moves_of_removed (store : WriteStore) (uuid : Uuid) (row : EntityRow) :
    Moves store (store.removed uuid row) := by
  refine .purged uuid rfl fun other => ?_
  simp only [revisions, removed, SortedMap.get?_erase_eq]
  by_cases same : other = uuid
  · rw [if_pos same, if_pos same]
  · rw [if_neg same, if_neg same]

theorem Moves.maxSid_le (moves : Moves store next) : store.maxSid ≤ next.maxSid := by
  cases moves with
  | still watermark => exact Int.le_of_eq watermark.symm
  | wrote _ _ watermark => exact watermark ▸ store.maxSid_le_nextSid
  | purged _ watermark => exact Int.le_of_eq watermark.symm

/-- A revision is from before, or takes the next stamp. -/
theorem Moves.old_or_new (moves : Moves store next) {revision : Revision}
    (inside : revision ∈ next.revisions uuid) :
    revision ∈ store.revisions uuid ∨
      revision.sid = store.nextSid ∧ next.maxSid = store.nextSid := by
  cases moves with
  | still _ revisions => exact Or.inl (revisions uuid ▸ inside)
  | wrote written properties watermark revisions =>
    rw [revisions] at inside
    split at inside
    · rcases List.mem_append.mp inside with old | new
      · exact Or.inl old
      · obtain rfl := List.mem_singleton.mp new
        exact Or.inr ⟨rfl, watermark⟩
    · exact Or.inl inside
  | purged gone _ revisions =>
    rw [revisions] at inside
    split at inside
    · cases inside
    · exact Or.inl inside

theorem Moves.bounded (moves : Moves store next) (bounded : Bounded store) : Bounded next := by
  intro uuid revision inside
  rcases moves.old_or_new inside with old | ⟨stamped, watermark⟩
  · exact Int.le_trans (bounded uuid revision old) moves.maxSid_le
  · exact Int.le_of_eq (stamped.trans watermark.symm)

/-- A store that comes last among some: nothing that any of them held is newer than its
watermark, or than what it holds of the same entity. -/
structure Ahead (past : List WriteStore) (now : WriteStore) : Prop where
  listed : now ∈ past
  bounded : ∀ moment ∈ past, ∀ uuid, ∀ revision ∈ moment.revisions uuid, revision.sid ≤ now.maxSid
  newest : ∀ moment ∈ past, ∀ uuid, ∀ revision ∈ moment.revisions uuid,
    ∀ last, (now.revisions uuid).getLast? = some last → revision.sid ≤ last.sid

theorem Ahead.single (bounded : Bounded store) : Ahead [store] store where
  listed := List.mem_singleton_self store
  bounded moment listed uuid revision inside := by
    obtain rfl := List.mem_singleton.mp listed
    exact bounded uuid revision inside
  newest moment listed uuid revision inside last ends := by
    obtain rfl := List.mem_singleton.mp listed
    unfold revisions at inside ends
    cases stored : moment.rows.get? uuid with
    | none =>
      rw [stored] at inside
      cases inside
    | some row =>
      rw [stored] at inside ends
      -- Revisions are in order, so none comes after the last.
      obtain ⟨front, shape⟩ := List.getLast?_eq_some_iff.mp ends
      dsimp only at shape inside
      have sorted := row.history_sorted
      rw [shape] at sorted inside
      rcases List.mem_append.mp inside with earlier | same
      · exact Int.le_of_lt ((List.pairwise_append.mp sorted).2.2 revision earlier last
          (List.mem_singleton_self last))
      · obtain rfl := List.mem_singleton.mp same
        exact Int.le_refl _

theorem Ahead.moved {past : List WriteStore} (ahead : Ahead past store) (moves : Moves store next) :
    Ahead (past ++ [next]) next := by
  have bounded : ∀ moment ∈ past ++ [next], ∀ uuid, ∀ revision ∈ moment.revisions uuid,
      revision.sid ≤ next.maxSid := by
    intro moment listed uuid revision inside
    have old : ∀ moment ∈ past, revision ∈ moment.revisions uuid → revision.sid ≤ next.maxSid :=
      fun moment listed inside =>
        Int.le_trans (ahead.bounded moment listed uuid revision inside) moves.maxSid_le
    rcases List.mem_append.mp listed with before | last
    · exact old moment before inside
    · obtain rfl := List.mem_singleton.mp last
      rcases moves.old_or_new inside with kept | ⟨stamped, watermark⟩
      · exact old store ahead.listed kept
      · exact Int.le_of_eq (stamped.trans watermark.symm)
  refine ⟨List.mem_append_right _ (List.mem_singleton_self next), bounded, ?_⟩
  intro moment listed uuid revision inside last ends
  -- The entity was just written, and its last revision has the new watermark, or it was not.
  have untouched : next.revisions uuid = store.revisions uuid → revision.sid ≤ last.sid := by
    intro same
    rw [same] at ends
    rcases List.mem_append.mp listed with before | here
    · exact ahead.newest moment before uuid revision inside last ends
    · obtain rfl := List.mem_singleton.mp here
      exact ahead.newest store ahead.listed uuid revision (same ▸ inside) last ends
  cases moves with
  | still _ revisions => exact untouched (revisions uuid)
  | wrote written properties watermark revisions =>
    by_cases same : uuid = written
    · rw [revisions, if_pos same, List.getLast?_append] at ends
      cases ends
      exact watermark ▸ bounded moment listed uuid revision inside
    · exact untouched ((revisions uuid).trans (if_neg same))
  | purged gone _ revisions =>
    by_cases same : uuid = gone
    · rw [revisions, if_pos same] at ends
      cases ends
    · exact untouched ((revisions uuid).trans (if_neg same))

theorem Ahead.bounded_now {past : List WriteStore} (ahead : Ahead past store) : Bounded store :=
  ahead.bounded store ahead.listed

theorem getLast?_of_record? {record : EntityRecord} (found : store.record? uuid = some record) :
    (store.revisions uuid).getLast? = some ⟨record.sid, record.properties⟩ := by
  obtain ⟨row, revision, stored, last, rfl⟩ := row_of_record? found
  rw [revisions, stored]
  exact last

theorem revisions_of_missing (missing : store.record? uuid = none) : store.revisions uuid = [] := by
  rw [record?_eq] at missing
  unfold revisions
  cases stored : store.rows.get? uuid with
  | none => rfl
  | some row =>
    rw [stored] at missing
    exact List.getLast?_eq_none_iff.mp (Option.map_eq_none_iff.mp missing)

/-- How one call may end for the store. -/
inductive Step (store : WriteStore) : WriteStore → Prop where
  | refused : Step store store
  | committed (uuid : Uuid) (row : EntityRow) (write : EntityWrite)
    (placeable : Placeable store uuid row) : Step store (store.commit uuid row write).2
  | removed (uuid : Uuid) (row : EntityRow) : Step store (store.removed uuid row)

/-- Revisions have stamps that were handed out, and no row is without one. -/
structure Grounded (store : WriteStore) : Prop where
  bounded : Bounded store
  rooted : ∀ uuid row, store.rows.get? uuid = some row → row.history ≠ []

theorem Grounded.empty : Grounded .empty where
  bounded _ _ inside := by cases inside
  rooted _ _ stored := by cases stored

theorem Grounded.record?_of_row (grounded : Grounded store)
    (stored : store.rows.get? uuid = some row) :
    ∃ revision, row.history.getLast? = some revision ∧
      store.record? uuid = some (recordAt uuid row revision) := by
  have last := List.getLast?_eq_some_getLast (grounded.rooted uuid row stored)
  exact ⟨_, last, WriteStore.record?_of_row stored last⟩

namespace Step

theorem moves (step : Step store next) (bounded : Bounded store) : Moves store next := by
  cases step with
  | refused => exact .still rfl fun _ => rfl
  | committed uuid row write placeable => exact moves_of_commit bounded write placeable
  | removed uuid row => exact moves_of_removed store uuid row

theorem grounded (step : Step store next) (grounded : Grounded store) : Grounded next where
  bounded := (step.moves grounded.bounded).bounded grounded.bounded
  rooted other later stored := by
    cases step with
    | refused => exact grounded.rooted other later stored
    | committed uuid row write placeable =>
      rw [commit_rows, SortedMap.get?_insert_eq] at stored
      split at stored
      · cases stored
        obtain ⟨properties, history⟩ := placeable.history grounded.bounded write
        rw [history]
        exact List.append_ne_nil_of_right_ne_nil _ (List.cons_ne_nil _ _)
      · exact grounded.rooted other later stored
    | removed uuid row =>
      rw [WriteStore.removed, SortedMap.get?_erase_eq] at stored
      split at stored
      · cases stored
      · exact grounded.rooted other later stored

/-- What is current under an old stamp was current before. -/
theorem kept (step : Step store next) (bounded : Bounded store) {record : EntityRecord}
    (found : next.record? uuid = some record) (old : record.sid ≤ store.maxSid) :
    store.record? uuid = some record := by
  cases step with
  | refused => exact found
  | committed written row write placeable =>
    by_cases same : uuid = written
    · subst same
      obtain ⟨properties, history⟩ := placeable.history bounded write
      have last := getLast?_of_record? found
      rw [revisions, commit_rows, SortedMap.get?_insert_self] at last
      dsimp only at last
      rw [history, List.getLast?_append] at last
      have stamped : record.sid = store.nextSid :=
        (congrArg Revision.sid (Option.some.inj last)).symm
      exact absurd store.maxSid_lt_nextSid (Int.not_lt.mpr (stamped ▸ old))
    · rw [record?_eq, commit_rows, SortedMap.get?_insert_eq, if_neg same] at found
      rw [record?_eq]
      exact found
  | removed gone row =>
    rw [removed_record?] at found
    split at found
    · cases found
    · exact found

end Step

/-- A change that takes the store one step whenever it succeeds. -/
def Advances {α : Type} (change : WriteStore → Except StorageError (α × WriteStore)) : Prop :=
  ∀ store value next, change store = .ok (value, next) → Step store next

theorem advances_create (uuid : Uuid) (itemType : ItemType) (write : EntityWrite) :
    Advances fun store => store.create uuid itemType write := by
  intro store sid next ended
  obtain ⟨vacant, -, committed⟩ := create_ok ended
  cases committed
  exact .committed uuid _ write (Or.inr ⟨vacant, rfl⟩)

theorem advances_update (uuid : Uuid) (write : EntityWrite) (base : Option Sid) :
    Advances fun store => store.update uuid write base := by
  intro store sid next ended
  obtain ⟨row, stored, -, committed⟩ := update_ok ended
  cases committed
  exact .committed uuid row write (Or.inl stored)

theorem advances_purge (uuid : Uuid) :
    Advances fun store => do return ((), ← store.purge uuid) := by
  intro store value next ended
  dsimp only at ended
  cases purged : store.purge uuid with
  | error error =>
    rw [purged] at ended
    cases ended
  | ok removed =>
    rw [purged] at ended
    cases ended
    obtain ⟨row, -, rfl, -⟩ := purge_ok purged
    exact .removed uuid row

/-- A stamp that an entity can have had: it was handed out, and the entity is not older now. -/
structure Aged (store : WriteStore) (uuid : Uuid) (sid : Sid) : Prop where
  issued : sid ≤ store.maxSid
  current : ∀ record, store.record? uuid = some record → sid ≤ record.sid

theorem Aged.of_record {record : EntityRecord} (bounded : Bounded store)
    (found : store.record? uuid = some record) : Aged store uuid record.sid where
  issued := bounded uuid _ (List.mem_of_getLast? (getLast?_of_record? found))
  current _ there := Int.le_of_eq (congrArg EntityRecord.sid
    (Option.some.inj (found.symm.trans there)))

/-- An entity that was written since has a later stamp, even one that was removed in between. -/
theorem Aged.step {sid : Sid} (aged : Aged store uuid sid) (step : Step store next)
    (bounded : Bounded store) : Aged next uuid sid where
  issued := Int.le_trans aged.issued (step.moves bounded).maxSid_le
  current record found := by
    by_cases old : record.sid ≤ store.maxSid
    · exact aged.current record (step.kept bounded found old)
    · exact Int.le_trans aged.issued (Int.le_of_lt (Int.not_le.mp old))

/-- What was read of an entity at some moment is its newest revision up to a stamp: nothing that
was committed before is newer, and an entity that was missing has no revision that old. -/
structure UpTo (past : List WriteStore) (now : WriteStore) (bound : Sid) (uuid : Uuid)
    (entry : Option EntityRecord) : Prop where
  genuine : ∃ moment ∈ past, moment.record? uuid = entry
  newest : ∀ record, entry = some record → ∀ moment ∈ past, ∀ revision ∈ moment.revisions uuid,
    revision.sid ≤ bound → revision.sid ≤ record.sid
  missing : entry = none → ∀ revision ∈ now.revisions uuid, bound < revision.sid

/-- What is current is the newest up to any stamp. -/
theorem UpTo.of_current {past : List WriteStore} (ahead : Ahead past store) (bound : Sid)
    (uuid : Uuid) : UpTo past store bound uuid (store.record? uuid) where
  genuine := ⟨store, ahead.listed, rfl⟩
  newest record found moment listed revision inside _ :=
    ahead.newest moment listed uuid revision inside _ (getLast?_of_record? found)
  missing gone revision inside := by
    rw [revisions_of_missing gone] at inside
    cases inside

/-- Later revisions have later stamps. -/
theorem UpTo.moved {past : List WriteStore} {bound : Sid} {entry : Option EntityRecord}
    (upTo : UpTo past store bound uuid entry) (listed : store ∈ past)
    (moves : Moves store next) (reached : bound ≤ store.maxSid) :
    UpTo (past ++ [next]) next bound uuid entry where
  genuine := by
    obtain ⟨moment, before, same⟩ := upTo.genuine
    exact ⟨moment, List.mem_append_left _ before, same⟩
  newest record read moment inside revision held old := by
    rcases List.mem_append.mp inside with before | last
    · exact upTo.newest record read moment before revision held old
    · obtain rfl := List.mem_singleton.mp last
      rcases moves.old_or_new held with kept | ⟨stamped, -⟩
      · exact upTo.newest record read store listed revision kept old
      · rw [stamped] at old
        exact absurd (Int.lt_add_one_of_le reached) (Int.not_lt.mpr old)
  missing gone revision held := by
    rcases moves.old_or_new held with kept | ⟨stamped, -⟩
    · exact upTo.missing gone revision kept
    · exact stamped ▸ Int.lt_add_one_of_le reached

end WriteStore

namespace StoreCall

open WriteStore

/-- A call takes time, changes what lies ahead and takes the write store one step, and nothing
else. -/
theorem run_step (call : StoreCall) (world : World) :
    ∃ now outages delays store, (call.run.on world).2 =
        { world.asking now outages delays with write := store } ∧
      Step world.write store := by
  have mapped : ∀ {Answer : Type} (shown : Answer → Option Sid) (action : Action Answer),
      ((shown <$> action).on world).2 = (action.on world).2 := by
    intro Answer shown action
    rw [Action.on_map]
    rcases action.on world with ⟨error | answer, after⟩ <;> rfl
  have stepped : ∀ {α : Type} (change : WriteStore → Except StorageError (α × WriteStore)),
      Advances change → ∃ now outages delays store, ((Action.commit change).on world).2 =
          { world.asking now outages delays with write := store } ∧
        Step world.write store := by
    intro α change advances
    obtain ⟨now, outages, delays, same | ⟨value, store, ended, same⟩⟩ :=
      Action.commit_after change world
    · exact ⟨now, outages, delays, world.write, same, .refused⟩
    · exact ⟨now, outages, delays, store, same, advances _ _ _ ended⟩
  cases call with
  | create uuid itemType write =>
    rw [run, mapped]
    exact stepped _ (advances_create uuid itemType write)
  | update uuid write base =>
    rw [run, mapped]
    exact stepped _ (advances_update uuid write base)
  | purge uuid =>
    rw [run, mapped]
    exact stepped _ (advances_purge uuid)

theorem run_after (call : StoreCall) {world : World} (bounded : Bounded world.write) :
    ∃ now outages delays store, (call.run.on world).2 =
        { world.asking now outages delays with write := store } ∧
      Moves world.write store := by
  obtain ⟨now, outages, delays, store, after, step⟩ := call.run_step world
  exact ⟨now, outages, delays, store, after, step.moves bounded⟩

/-- Stores made one after the other by calls, in any worlds; the last one is at hand. -/
inductive Trail (start : WriteStore) : List WriteStore → WriteStore → Prop where
  | start : Trail start [start] start
  | call {past : List WriteStore} {world : World} (before : Trail start past world.write)
    (call : StoreCall) :
    Trail start (past ++ [(call.run.on world).2.write]) (call.run.on world).2.write

namespace Trail

variable {start now : WriteStore} {past : List WriteStore}

theorem ahead (trail : Trail start past now) (bounded : Bounded start) : Ahead past now := by
  induction trail with
  | start => exact .single bounded
  | call before call ih =>
    obtain ⟨now, outages, delays, store, after, moves⟩ := call.run_after ih.bounded_now
    rw [after]
    exact ih.moved moves

theorem grounded (trail : Trail start past now) (grounded : Grounded start) : Grounded now := by
  induction trail with
  | start => exact grounded
  | call before call ih =>
    obtain ⟨now, outages, delays, store, after, step⟩ := call.run_step _
    rw [after]
    exact step.grounded ih

/-- Whatever is held at the end of a trail was there at its start, or came later. -/
theorem old_or_later (trail : Trail start past now) (bounded : Bounded start) :
    start.maxSid ≤ now.maxSid ∧ ∀ uuid, ∀ revision ∈ now.revisions uuid,
      revision ∈ start.revisions uuid ∨ start.maxSid < revision.sid := by
  induction trail with
  | start => exact ⟨Int.le_refl _, fun _ _ inside => Or.inl inside⟩
  | call before call ih =>
    obtain ⟨now, outages, delays, store, after, moves⟩ := call.run_after (before.ahead bounded).bounded_now
    obtain ⟨reached, earlier⟩ := ih
    rw [after]
    refine ⟨Int.le_trans reached moves.maxSid_le, fun uuid revision inside => ?_⟩
    rcases moves.old_or_new inside with kept | ⟨stamped, -⟩
    · exact earlier uuid revision kept
    · exact Or.inr (stamped ▸ Int.lt_add_one_of_le reached)

end Trail

end StoreCall

end CachedViews
