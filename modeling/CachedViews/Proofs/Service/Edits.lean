import CachedViews.Proofs.Service.Entities

/-!
Runs of puts and purges. Every edit leaves a sound world sound, and the write stores of a run
form a history.
-/
namespace CachedViews

/-- What a caller can do to the write store. -/
inductive Edit where
  | put (uuid : Uuid) (itemType : ItemType) (properties : Properties) (base : Option Sid)
  | purge (uuid : Uuid)

namespace Edit

def action (engine : Engine) : Edit → Action Unit
  | put uuid itemType properties base => discard (Service.put engine uuid itemType properties base)
  | purge uuid => Service.purge uuid

/-- The world that an edit leaves, whether it ends well or not. -/
def after (engine : Engine) (world : World) (edit : Edit) : World :=
  ((edit.action engine).on world).2

def run (engine : Engine) (edits : List Edit) (world : World) : World :=
  edits.foldl (after engine) world

theorem run_append (engine : Engine) (first second : List Edit) (world : World) :
    run engine (first ++ second) world = run engine second (run engine first world) :=
  List.foldl_append

/-- The world that edits make out of empty stores in memory. -/
def worldAfter (engine : Engine) (edits : List Edit) : World :=
  run engine edits (.start (.memory .empty))

variable {engine : Engine} {world : World}

/-- An edit changes nothing, or takes the write store one change on. -/
theorem sound_after (sound : world.Sound engine.registry) (edit : Edit) :
    (after engine world edit).Sound engine.registry ∧
      ((after engine world edit).write = world.write ∨
        WriteStore.Change world.write (after engine world edit).write) := by
  obtain ⟨calm, consistent, views, holds⟩ := sound
  cases edit with
  | put uuid itemType properties base =>
    rw [after, action, Action.after_discard]
    rcases Service.put_cases calm consistent uuid itemType properties base with
      ⟨error, ended⟩ | ⟨stored, next, ended, placed⟩
    · rw [ended]
      exact ⟨⟨calm, consistent, views, holds⟩, Or.inl rfl⟩
    · rw [ended]
      obtain ⟨record, wrote, -⟩ := placed.wrote
      exact ⟨⟨calm.of_faults rfl (wrote.available.trans calm.writable) calm.readable,
        placed.consistent, views, holds⟩, Or.inr (.wrote record wrote)⟩
  | purge uuid =>
    rw [after, action]
    rcases Service.purge_cases calm consistent holds uuid with
      ⟨error, ended⟩ | ⟨record, next, read, -, ended, remaining, kept, purged⟩
    · rw [ended]
      exact ⟨⟨calm, consistent, views, holds⟩, Or.inl rfl⟩
    · rw [ended]
      have readable := calm.readable_of_holds holds remaining (views.delete_available uuid)
      exact ⟨⟨calm.of_faults rfl (purged.available.trans calm.writable) readable, kept, _,
        remaining⟩, Or.inr (.purged uuid purged)⟩

theorem sound_run (sound : world.Sound engine.registry) (edits : List Edit) :
    (run engine edits world).Sound engine.registry ∧
      WriteStore.History world.write (run engine edits world).write := by
  induction edits generalizing world with
  | nil => exact ⟨sound, .start⟩
  | cons edit rest ih =>
    obtain ⟨soundAfter, changed⟩ := sound_after sound edit
    obtain ⟨soundRest, history⟩ := ih soundAfter
    refine ⟨soundRest, ?_⟩
    rcases changed with same | change
    · exact same ▸ history
    · exact (WriteStore.History.start.next change).trans history

theorem sound_worldAfter (engine : Engine) (edits : List Edit) :
    (worldAfter engine edits).Sound engine.registry := (sound_run .start edits).1

theorem history_worldAfter (engine : Engine) (edits further : List Edit) :
    WriteStore.History (worldAfter engine edits).write
      (worldAfter engine (edits ++ further)).write := by
  rw [worldAfter, worldAfter, run_append]
  exact (sound_run (sound_worldAfter engine edits) further).2

end Edit

end CachedViews
