import CachedViews.Proofs.Embedding.Declared
import CachedViews.Proofs.Service.Queueing
import CachedViews.Proofs.WriteStore.Projected

/-!
Puts and purges in any world: with any faults ahead, stores out of reach, and whatever the read
store, the queue and the clock hold. However they end, they leave a write store whose edges and
keys are those of the current sheets.
-/
namespace CachedViews

open WriteStore (Projected)

/-- A commit leaves the write store, or applies its change to it. -/
theorem Action.commit_write {α : Type}
    {change : WriteStore → Except StorageError (α × WriteStore)} {world after : World}
    {result : Except EngineError α} (ended : (Action.commit change).on world = (result, after)) :
    (world.Unstale → after.Unstale) ∧
      (after.write = world.write ∨ ∃ value, change world.write = .ok (value, after.write)) := by
  obtain ⟨now, outages, delays, same | ⟨value, store, changed, same⟩⟩ := commit_after change world
  · rw [ended] at same
    cases same
    exact ⟨id, Or.inl rfl⟩
  · rw [ended] at same
    cases same
    exact ⟨id, Or.inr ⟨value, changed⟩⟩

namespace World

/-- On the way from one world to the other the indexes of the write store stayed those of its
sheets. -/
def Projects (registry : Registry) (before after : World) : Prop :=
  before.Unstale → after.Unstale ∧ (Projected registry before.write → Projected registry after.write)

variable {registry : Registry}

instance (registry : Registry) : World.Chain (Projects registry) where
  refl _ unstale := ⟨unstale, id⟩
  trans one two unstale := by
    obtain ⟨between, here⟩ := one unstale
    obtain ⟨last, there⟩ := two between
    exact ⟨last, there ∘ here⟩

theorem Asked.projects {P : View → Prop} {before after : World}
    (asked : Asked P before after) : Projects registry before after := fun unstale =>
  ⟨asked.unstale unstale, fun projected => asked.write ▸ projected⟩

end World

namespace Service

open CachedViews.Action WriteStore

variable {registry : Registry} {uuid : Uuid} {itemType : ItemType} {decl : TypeDecl}
  {write : EntityWrite} {properties : Properties}

theorem attempt_commit_after (diff : Option (List String))
    (change : WriteStore → Except StorageError (Sid × WriteStore)) (world : World) :
    ((attempt do return ⟨← Action.commit change, diff⟩ :
      Action (Except EngineError Stored)).on world).2 = ((Action.commit change).on world).2 := by
  rw [attempt_on, on_bind]
  rcases (Action.commit change).on world with ⟨error | sid, after⟩ <;> rfl

/-- A try to commit a change that keeps the indexes those of the sheets. -/
theorem attempt_commit_projects {world : World} (diff : Option (List String))
    {change : WriteStore → Except StorageError (Sid × WriteStore)}
    (projects : ∀ sid next, change world.write = .ok (sid, next) →
      Projected registry world.write → Projected registry next) :
    world.Projects registry ((attempt do return ⟨← Action.commit change, diff⟩ :
      Action (Except EngineError Stored)).on world).2 := by
  intro unstale
  rw [attempt_commit_after]
  rcases ended : (Action.commit change).on world with ⟨result, after⟩
  obtain ⟨still, same | ⟨sid, applied⟩⟩ := commit_write ended
  · exact ⟨still unstale, fun projected => same ▸ projected⟩
  · exact ⟨still unstale, projects sid after.write applied⟩

theorem tryPut_projects (declared : registry.get? itemType = some decl)
    (made : decl.entityWrite properties = .ok write) (uuid : Uuid) (base : Option Sid) :
    Keeps (World.Projects registry) (tryPut uuid itemType write base) := by
  intro world unstale
  rw [tryPut, on_bind]
  rcases looked : (orNotFound (Action.record uuid)).on world with ⟨error | existing, after⟩
  · exact ((record_looks uuid).orNotFound.asks (P := fun _ => False)).of_on looked |>.projects unstale
  · have asked := ((record_looks uuid).orNotFound.asks (P := fun _ => False)).of_on looked
    refine World.Chain.trans (R := World.Projects registry) asked.projects ?_ unstale
    dsimp only
    cases existing with
    | none =>
      rw [writeOver]
      split
      · rw [on_bind_error (on_throw _ _)]
        exact World.Chain.refl after
      · exact attempt_commit_projects none fun sid next ended projected =>
          projected.created declared made ended
    | some record =>
      rw [writeOver]
      split
      · rw [on_bind_error (on_throw _ _)]
        exact World.Chain.refl after
      · rename_i typed
        -- The record that was looked up is still the current one when the update comes.
        have found : after.write.record? uuid = some record :=
          asked.write ▸ orNotFound_record_some unstale looked
        have same : record.itemType = itemType := Decidable.not_not.mp typed
        exact attempt_commit_projects _ fun sid next ended projected =>
          projected.updated found (same ▸ declared) made ended

theorem put_projects (engine : Engine) (uuid : Uuid) (itemType : ItemType)
    (properties : Properties) (base : Option Sid) :
    Keeps (World.Projects engine.registry) (put engine uuid itemType properties base) := by
  intro world
  rw [put]
  cases declared : engine.registry.get? itemType with
  | none =>
    have required : engine.registry.require itemType = .error (.unknownItemType itemType) := by
      rw [Registry.require, declared]
    rw [required]
    exact World.Chain.refl world
  | some decl =>
    have required : engine.registry.require itemType = .ok decl := by
      rw [Registry.require, declared]
    rw [required]
    cases made : decl.entityWrite properties with
    | error error =>
      rw [on_bind_ok (ofValidation_on _ _), made, on_bind_error (ofValidation_on _ _)]
      exact World.Chain.refl world
    | ok write =>
      rw [on_bind_ok (ofValidation_on _ _), made, on_bind_ok (ofValidation_on _ _)]
      have tries := tryPut_projects declared made uuid base
      have stores := (putLoop_keeps uuid itemType write base tries putRetries).bind fun stored =>
        ((send_asks (P := fun _ => False) .primary
          [.primary ⟨itemType, uuid⟩ (some stored.sid) stored.diff]).mono fun _ _ asked =>
            asked.projects).bind fun _ => keeps_pure stored.sid
      exact stores world

theorem purgeRecord_write {uuid : Uuid} {world after : World} {result : Except EngineError Unit}
    (ended : (purgeRecord uuid).on world = (result, after)) :
    (world.Unstale → after.Unstale) ∧
      (after.write = world.write ∨ world.write.purge uuid = .ok after.write) := by
  obtain ⟨still, applied⟩ := commit_write ended
  refine ⟨still, applied.imp_right ?_⟩
  rintro ⟨value, changed⟩
  cases purged : world.write.purge uuid with
  | error error =>
    rw [purged] at changed
    cases changed
  | ok next =>
    rw [purged] at changed
    exact congrArg Except.ok (congrArg Prod.snd (Except.ok.inj changed))

/-- How a purge goes on once the record is gone. -/
def unlink (uuid : Uuid) (existing : Option EntityRecord) : Action Unit := do
  let targets := match existing with
    | some record => record.links.toList.map Link.target
    | none => []
  let _ ← deleteView uuid
  match ← liveKeys (targets.filter fun target => target ≠ uuid) with
  | [] => return ()
  | keys => discard (send .secondary (keys.map fun key => .secondary key none))

theorem purge_eq (uuid : Uuid) :
    purge uuid = (do
      let existing ← orNotFound (Action.record uuid)
      purgeRecord uuid
      unlink uuid existing) := rfl

theorem unlink_asks {P : View → Prop} (uuid : Uuid) (existing : Option EntityRecord) :
    (unlink uuid existing).Asks P := by
  refine (deleteView_asks uuid).bind fun _ => (liveKeys_looks _).asks.bind fun keys => ?_
  split
  · exact keeps_pure ()
  · exact (send_asks _ _).map _

/-- A purge leaves the write store, or purges it. Nothing before or after the commit does. -/
theorem purge_write (uuid : Uuid) (world : World) :
    (world.Unstale → ((purge uuid).on world).2.Unstale) ∧
      (((purge uuid).on world).2.write = world.write ∨
        world.write.purge uuid = .ok ((purge uuid).on world).2.write) := by
  rw [purge_eq, on_bind]
  rcases looked : (orNotFound (Action.record uuid)).on world with ⟨error | existing, after⟩
  · have before := (record_looks uuid).orNotFound.of_on looked
    exact ⟨before.unstale, Or.inl before.write⟩
  · have before := (record_looks uuid).orNotFound.of_on looked
    dsimp only
    rw [on_bind]
    rcases ended : (purgeRecord uuid).on after with ⟨error | _, between⟩
    · obtain ⟨still, applied⟩ := purgeRecord_write ended
      exact ⟨still ∘ before.unstale, before.write ▸ applied⟩
    · obtain ⟨still, applied⟩ := purgeRecord_write ended
      have later := unlink_asks (P := fun _ => False) uuid existing between
      refine ⟨later.unstale ∘ still ∘ before.unstale, ?_⟩
      dsimp only
      rw [later.write, ← before.write]
      exact applied

theorem purge_projects (registry : Registry) (uuid : Uuid) :
    Keeps (World.Projects registry) (purge uuid) := by
  intro world unstale
  obtain ⟨still, same | purged⟩ := purge_write uuid world
  · exact ⟨still unstale, fun projected => same ▸ projected⟩
  · exact ⟨still unstale, fun projected => projected.purged purged⟩

end Service

namespace Edit

variable {engine : Engine} {store : WriteStore}

theorem after_projects (engine : Engine) (world : World) (edit : Edit) :
    world.Projects engine.registry (after engine world edit) := by
  cases edit with
  | put uuid itemType properties base =>
    rw [after, action, Action.after_discard]
    exact Service.put_projects engine uuid itemType properties base world
  | purge uuid => exact Service.purge_projects engine.registry uuid world

/-- Write stores that edits make. An edit may meet any faults but look-ups that show outdated
records, and anything else may have happened to the rest of the world before it. The store may
go out of reach and come back at any time. -/
inductive Reaches (engine : Engine) : WriteStore → Prop where
  | start : Reaches engine .empty
  | edited {world : World} (before : Reaches engine world.write) (unstale : world.Unstale)
    (edit : Edit) : Reaches engine (after engine world edit).write
  | switched {store : WriteStore} (before : Reaches engine store) (available : Bool) :
    Reaches engine { store with available }

theorem Reaches.run {world : World} (before : Reaches engine world.write)
    (unstale : world.Unstale) (edits : List Edit) :
    Reaches engine (Edit.run engine edits world).write := by
  induction edits generalizing world with
  | nil => exact before
  | cons edit rest ih =>
    exact ih (before.edited unstale edit) (after_projects engine world edit unstale).1

theorem Reaches.projected (reaches : Reaches engine store) : Projected engine.registry store := by
  induction reaches with
  | start => exact .empty
  | edited before unstale edit ih => exact (after_projects engine _ edit unstale).2 ih
  | switched before available ih => exact ih.switched available

/-- In every store that edits make, the edges into an entity and the keys by which entities are
found are those that the current sheets hold under their types. So no two entities of a type
share the text of a unique field, and a purge leaves no link without its target. -/
theorem edges_and_keys_of_sheets (reaches : Reaches engine store) :
    (∀ target edge, edge ∈ store.revLinks target ↔
      target = edge.link.target ∧ ∃ record, store.record? edge.source = some record ∧
        engine.registry.HoldsLink record edge.link) ∧
      (∀ key record, store.getByUniqueKey key = .ok record ↔
        store.record? record.uuid = some record ∧ engine.registry.HoldsKey record key) ∧
      (∀ left right decl field text, store.record? left.uuid = some left →
        store.record? right.uuid = some right → left.itemType = right.itemType →
        engine.registry.get? left.itemType = some decl → field ∈ decl.uniqueFields →
        (left.properties.get? field).bind Json.scalarText? = some text →
        (right.properties.get? field).bind Json.scalarText? = some text →
        left.uuid = right.uuid) ∧
      ∀ world uuid target edge, world.write = store → (store.record? target).isSome = true →
        edge ∈ (after engine world (.purge uuid)).write.revLinks target →
        ((after engine world (.purge uuid)).write.record? target).isSome = true := by
  have projected := reaches.projected
  refine ⟨projected.mem_revLinks_iff, projected.getByUniqueKey_iff, ?_, ?_⟩
  · intro left right decl field text foundLeft foundRight typed declared unique heldLeft heldRight
    exact projected.unique foundLeft foundRight typed declared unique heldLeft heldRight
  · rintro world uuid target edge rfl lives listed
    rcases (Service.purge_write uuid world).2 with same | purged
    · rw [after, action, same]
      exact lives
    · exact projected.target_lives purged listed lives

/-- Authors go by their names, and books link them. -/
def authors : Registry := .ofDecls [
  (TypeDecl.ofName ⟨"Author"⟩).uniqueKey "name",
  (TypeDecl.ofName ⟨"Book"⟩).link "author" ⟨"Author"⟩ false]

/-- A second author of the same name and the purge of a linked author, both refused. -/
def refusals : List Edit := [
  .put ⟨1⟩ ⟨"Author"⟩ (.ofText "name" "Ann") none,
  .put ⟨2⟩ ⟨"Book"⟩ (.ofText "author" (Uuid.text ⟨1⟩)) none,
  .put ⟨3⟩ ⟨"Author"⟩ (.ofText "name" "Ann") none,
  .purge ⟨1⟩]

theorem refused_edits_leave_indexes :
    (∃ book, (worldAfter (.precise authors) refusals).write.record? ⟨2⟩ = some book ∧
      authors.HoldsLink book ⟨"author", ⟨1⟩⟩) ∧
      ∃ author, (worldAfter (.precise authors) refusals).write.getByUniqueKey
          ⟨"Author:name", "Ann"⟩ = .ok author ∧
        author.uuid = ⟨1⟩ ∧ authors.HoldsKey author ⟨"Author:name", "Ann"⟩ := by
  have unstale : (World.start (.memory .empty)).Unstale := List.not_mem_nil
  have reaches : Reaches (.precise authors) (worldAfter (.precise authors) refusals).write :=
    .run .start unstale refusals
  obtain ⟨edges, keys, -⟩ := edges_and_keys_of_sheets reaches
  have listed : (worldAfter (.precise authors) refusals).write.revLinks ⟨1⟩ =
      [⟨⟨2⟩, ⟨"author", ⟨1⟩⟩⟩] := by
    decide +kernel
  have found : ((worldAfter (.precise authors) refusals).write.getByUniqueKey
      ⟨"Author:name", "Ann"⟩).toOption.map EntityRecord.uuid = some ⟨1⟩ := by
    decide +kernel
  obtain ⟨-, linked⟩ := (edges ⟨1⟩ ⟨⟨2⟩, ⟨"author", ⟨1⟩⟩⟩).mp (listed ▸ List.mem_singleton_self _)
  obtain ⟨author, answered, named⟩ := Option.map_eq_some_iff.mp found
  cases ended : (worldAfter (.precise authors) refusals).write.getByUniqueKey
      ⟨"Author:name", "Ann"⟩ with
  | error error =>
    rw [ended] at answered
    cases answered
  | ok other =>
    rw [ended] at answered
    cases answered
    exact ⟨linked, author, rfl, named, ((keys _ author).mp ended).2⟩

end Edit

end CachedViews
