import CachedViews.Proofs.ReadStore.Calls
import CachedViews.Proofs.WriteStore.Changes
import CachedViews.Service.Entities

/-!
How storing and removing an entity end in a calm world: with an error and the world as it
was, or with one change of the write store and the messages that go with it.
-/
namespace CachedViews

namespace World

/-- A calm world with a consistent write store and views kept in memory. -/
structure Sound (registry : Registry) (world : World) : Prop where
  calm : world.Calm
  consistent : WriteStore.Consistent registry world.write
  memory : ∃ store, world.Holds store

variable {registry : Registry} {world : World}

theorem Sound.start : Sound registry (.start (.memory .empty)) where
  calm := ⟨rfl, rfl, rfl, rfl, rfl, rfl, rfl⟩
  consistent := .empty
  memory := ⟨.empty, .of_memory rfl⟩

end World

namespace WriteStore

/-- What a stored sheet leaves: the record that is current now and what changed. -/
structure Placed (registry : Registry) (store : WriteStore) (uuid : Uuid) (itemType : ItemType)
    (properties : Properties) (stored : Service.Stored) (next : WriteStore) : Prop where
  consistent : Consistent registry next
  wrote : ∃ record, Wrote store record next ∧ record.uuid = uuid ∧ record.itemType = itemType ∧
    record.properties = properties ∧ stored.sid = record.sid
  diff : stored.diff = (store.record? uuid).map fun old =>
    FieldDiff.encode itemType old.properties properties

end WriteStore

namespace Service

open CachedViews.Action WriteStore

variable {registry : Registry} {world : World} {uuid : Uuid} {itemType : ItemType}
  {decl : TypeDecl} {write : EntityWrite} {properties : Properties}

theorem attempt_on {α : Type} (action : Action α) (world : World) :
    (attempt action).on world =
      match action.on world with
      | (.ok value, after) => (.ok (.ok value), after)
      | (.error error, after) => (.ok (.error error), after) := by
  rw [attempt, on_tryCatch, on_map]
  rcases action.on world with ⟨error | value, after⟩ <;> rfl

theorem attempt_commit_on (calm : world.Calm) (diff : Option (List String))
    (change : WriteStore → Except StorageError (Sid × WriteStore)) :
    (attempt do return ⟨← Action.commit change, diff⟩ : Action (Except EngineError Stored)).on world =
      match change world.write with
      | .ok (sid, store) => (.ok (.ok ⟨sid, diff⟩), { world with write := store })
      | .error error => (.ok (.error (.storage error)), world) := by
  rw [attempt_on, on_bind, commit_on calm]
  rcases change world.write with error | ⟨sid, store⟩ <;> rfl

theorem placed_of_create {store : WriteStore} (consistent : Consistent registry store)
    (declared : registry.get? itemType = some decl)
    (made : decl.entityWrite properties = .ok write) (missing : store.record? uuid = none)
    {sid : Sid} {next : WriteStore} (ended : store.create uuid itemType write = .ok (sid, next)) :
    Placed registry store uuid itemType properties ⟨sid, none⟩ next := by
  obtain ⟨sheet, single, extracted⟩ := TypeDecl.entityWrite_ok made
  obtain ⟨vacant, -, committed⟩ := create_ok ended
  cases committed
  have writable := Writable.of_new consistent vacant itemType
  have extracts : Extracts registry itemType write.properties write.links :=
    ⟨decl, declared, sheet ▸ extracted⟩
  exact ⟨consistent.commit writable single extracts,
    ⟨_, Wrote.of_commit writable (Or.inr ⟨vacant, rfl⟩) single, rfl, rfl, sheet, rfl⟩,
    by simp [missing]⟩

theorem placed_of_update {store : WriteStore} (consistent : Consistent registry store)
    (declared : registry.get? itemType = some decl)
    (made : decl.entityWrite properties = .ok write) {record : EntityRecord}
    (found : store.record? uuid = some record) (typed : record.itemType = itemType)
    {base : Option Sid} {sid : Sid} {next : WriteStore}
    (ended : store.update uuid write base = .ok (sid, next)) :
    Placed registry store uuid itemType properties
      ⟨sid, some (FieldDiff.encode itemType record.properties write.properties)⟩ next := by
  obtain ⟨sheet, single, extracted⟩ := TypeDecl.entityWrite_ok made
  obtain ⟨row, revision, stored, last, rfl⟩ := row_of_record? found
  have rowTyped : row.itemType = itemType := typed
  obtain ⟨same, again, -, committed⟩ := update_ok ended
  rw [stored] at again
  cases again
  cases committed
  have writable := Writable.of_stored consistent stored
  have extracts : Extracts registry row.itemType write.properties write.links :=
    ⟨decl, rowTyped ▸ declared, sheet ▸ extracted⟩
  exact ⟨consistent.commit writable single extracts,
    ⟨_, Wrote.of_commit writable (Or.inl stored) single, rfl, rowTyped, sheet, rfl⟩,
    by simp [found, sheet]⟩

/-- One try: nothing was stored and nothing changed, or the sheet is in place. -/
theorem tryPut_cases (calm : world.Calm) (consistent : Consistent registry world.write)
    (declared : registry.get? itemType = some decl)
    (made : decl.entityWrite properties = .ok write) (uuid : Uuid) (base : Option Sid) :
    (∃ result, (tryPut uuid itemType write base).on world = (result, world) ∧
        ∀ stored, result ≠ .ok (.ok stored)) ∨
      ∃ stored next, (tryPut uuid itemType write base).on world =
          (.ok (.ok stored), { world with write := next }) ∧
        Placed registry world.write uuid itemType properties stored next := by
  rw [tryPut, on_bind_ok (orNotFound_record_on calm uuid)]
  cases found : world.write.record? uuid with
  | none =>
    rw [writeOver]
    by_cases based : base.isSome = true
    · rw [if_pos based, on_bind_error (on_throw _ _)]
      exact Or.inl ⟨_, rfl, fun stored same => by cases same⟩
    · rw [if_neg based]
      dsimp only
      rw [attempt_commit_on calm]
      cases ended : world.write.create uuid itemType write with
      | error error => exact Or.inl ⟨_, rfl, fun stored same => by cases same⟩
      | ok result =>
        exact Or.inr ⟨_, _, rfl, placed_of_create consistent declared made found ended⟩
  | some record =>
    rw [writeOver]
    by_cases typed : record.itemType = itemType
    · rw [if_neg (not_not_intro typed)]
      dsimp only
      rw [attempt_commit_on calm]
      cases ended : world.write.update uuid write (some (base.getD record.sid)) with
      | error error => exact Or.inl ⟨_, rfl, fun stored same => by cases same⟩
      | ok result =>
        exact Or.inr ⟨_, _, rfl, placed_of_update consistent declared made found typed ended⟩
    · rw [if_pos typed, on_bind_error (on_throw _ _)]
      exact Or.inl ⟨_, rfl, fun stored same => by cases same⟩

theorem putLoop_cases (calm : world.Calm) (consistent : Consistent registry world.write)
    (declared : registry.get? itemType = some decl)
    (made : decl.entityWrite properties = .ok write) (uuid : Uuid) (base : Option Sid)
    (retries : Nat) :
    (∃ error, (putLoop uuid itemType write base retries).on world = (.error error, world)) ∨
      ∃ stored next, (putLoop uuid itemType write base retries).on world =
          (.ok stored, { world with write := next }) ∧
        Placed registry world.write uuid itemType properties stored next := by
  -- A try that is refused leaves the world as it was, so the next one meets the same world.
  have once := tryPut_cases calm consistent declared made uuid base
  induction retries with
  | zero =>
    rw [putLoop]
    rcases once with ⟨result, ended, refused⟩ | ⟨stored, next, ended, placed⟩
    · rcases result with error | error | stored
      · exact Or.inl ⟨error, on_bind_error ended⟩
      · exact Or.inl ⟨error, by rw [on_bind_ok ended]; rfl⟩
      · exact absurd rfl (refused stored)
    · exact Or.inr ⟨stored, next, by rw [on_bind_ok ended]; rfl, placed⟩
  | succ retries ih =>
    rw [putLoop]
    rcases once with ⟨result, ended, refused⟩ | ⟨stored, next, ended, placed⟩
    · rcases result with error | error | stored
      · exact Or.inl ⟨error, on_bind_error ended⟩
      · rw [on_bind_ok ended]
        dsimp only
        split
        · exact ih
        · exact Or.inl ⟨error, rfl⟩
      · exact absurd rfl (refused stored)
    · exact Or.inr ⟨stored, next, by rw [on_bind_ok ended]; rfl, placed⟩

/-- A put fails and changes nothing, or stores the sheet and queues one message for it. -/
theorem put_cases {engine : Engine} (calm : world.Calm)
    (consistent : Consistent engine.registry world.write) (uuid : Uuid) (itemType : ItemType)
    (properties : Properties) (base : Option Sid) :
    (∃ error, (put engine uuid itemType properties base).on world = (.error error, world)) ∨
      ∃ stored next, (put engine uuid itemType properties base).on world =
          (.ok stored.sid, { world with
            write := next
            queue := (world.queue.send .primary world.now
              [.primary ⟨itemType, uuid⟩ (some stored.sid) stored.diff]).2 }) ∧
        Placed engine.registry world.write uuid itemType properties stored next := by
  rw [put]
  cases declared : engine.registry.get? itemType with
  | none =>
    have required : (ofValidation (engine.registry.require itemType)).on world =
        (.error (.validation (.unknownItemType itemType)), world) := by
      rw [ofValidation_on, Registry.require, declared]
      rfl
    exact Or.inl ⟨_, on_bind_error required⟩
  | some decl =>
    have required : (ofValidation (engine.registry.require itemType)).on world =
        (.ok decl, world) := by
      rw [ofValidation_on, Registry.require, declared]
      rfl
    rw [on_bind_ok required]
    cases made : decl.entityWrite properties with
    | error error => exact Or.inl ⟨_, on_bind_error (ofValidation_on _ _)⟩
    | ok write =>
      rw [on_bind_ok (ofValidation_on _ _)]
      rcases putLoop_cases calm consistent declared made uuid base putRetries with
        ⟨error, ended⟩ | ⟨stored, next, ended, placed⟩
      · exact Or.inl ⟨error, on_bind_error ended⟩
      · refine Or.inr ⟨stored, next, ?_, placed⟩
        rw [on_bind_ok ended]
        rfl

/-- What a purge queues: entities that are left and lost a link. -/
def unlinkedMessages (store : WriteStore) (targets : List Uuid) : List Message :=
  (keysIn store targets).map fun key => .secondary key none

/-- A purge fails and changes nothing, or removes an entity that no other links to. -/
theorem purge_cases {registry : Registry} (calm : world.Calm)
    (consistent : Consistent registry world.write) {views : MemoryViews}
    (holds : world.Holds views) (uuid : Uuid) :
    (∃ error, (purge uuid).on world = (.error error, world)) ∨
      ∃ record next read, world.write.record? uuid = some record ∧
        (purge uuid).on world = (.ok (), { world with
          write := next
          read
          queue := (world.queue.send .secondary world.now (unlinkedMessages next
            ((record.links.toList.map Link.target).filter fun target => target ≠ uuid))).2 }) ∧
        ({ world with read } : World).Holds (views.delete uuid).2 ∧
        Consistent registry next ∧ Purged world.write uuid next := by
  rw [purge, on_bind_ok (orNotFound_record_on calm uuid)]
  cases ended : world.write.purge uuid with
  | error error =>
    have failed : (purgeRecord uuid).on world = (.error (.storage error), world) := by
      rw [purgeRecord, commit_on calm, ended]
      rfl
    exact Or.inl ⟨_, on_bind_error failed⟩
  | ok next =>
    -- A row always has a record, so the purged entity was one that could be looked up.
    obtain ⟨row, stored, rfl, unlinked⟩ := purge_ok ended
    obtain ⟨record, found, -, -⟩ := consistent.record?_of_row stored
    have removed : (purgeRecord uuid).on world =
        (.ok (), { world with write := world.write.removed uuid row }) := by
      rw [purgeRecord, commit_on calm, ended]
      rfl
    have after : ({ world with write := world.write.removed uuid row } : World).Calm :=
      calm.of_faults rfl calm.writable calm.readable
    obtain ⟨existed, read, deleted, remaining⟩ := deleteView_on after holds uuid
    refine Or.inr ⟨record, world.write.removed uuid row, read, found, ?_, remaining,
      consistent.removed stored unlinked, .of_removed consistent unlinked⟩
    have calmStill : ({ world with
        write := world.write.removed uuid row
        read } : World).Calm :=
      calm.of_faults rfl calm.writable
        (calm.readable_of_holds holds remaining (views.delete_available uuid))
    rw [found, on_bind_ok removed, on_bind_ok deleted, on_bind_ok (liveKeys_on calmStill _)]
    dsimp only
    rw [unlinkedMessages]
    split
    · rename_i none
      rw [none]
      rfl
    · rename_i keys _
      rfl

end Service

end CachedViews
