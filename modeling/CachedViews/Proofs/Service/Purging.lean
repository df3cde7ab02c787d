import CachedViews.Proofs.ReadStore.Serving
import CachedViews.Proofs.Service.Interleaving
import CachedViews.Proofs.Service.Weathering

/-!
How a purge ends, with any faults ahead and each store in or out of reach. It removes the entity
first and its view after that, and nothing takes the first step back when the second one fails. So a
failed purge changes nothing, except that it may leave a view whose entity is gone, and purging
again does not help.
-/
namespace CachedViews

/-- No view is left of an entity whose view was deleted. -/
theorem ReadStore.slot?_of_delete {store next : ReadStore} {uuid : Uuid} {existed : Bool}
    (ended : store.delete uuid = .ok (existed, next)) : next.slot? uuid = none := by
  cases store with
  | memory store =>
    cases ended
    exact congrArg (Option.map Sum.inl) ((store.delete_views uuid uuid).trans (if_pos rfl))
  | durable store =>
    rw [delete] at ended
    cases loaded : store.load uuid with
    | error error =>
      rw [DurableViews.delete, DurableViews.remove, loaded] at ended
      cases ended
    | ok found =>
      obtain ⟨cleared, removed, texts⟩ := DurableViews.delete_ok loaded
      rw [removed] at ended
      cases ended
      simp [slot?, texts]

theorem ReadStore.available_of_delete {store next : ReadStore} {uuid : Uuid} {existed : Bool}
    (ended : store.delete uuid = .ok (existed, next)) : next.available = store.available := by
  cases store with
  | memory store =>
    cases ended
    exact store.delete_available uuid
  | durable store =>
    rw [delete] at ended
    cases deleted : store.delete uuid <;>
    · rw [deleted] at ended
      cases ended <;> rfl

/-- Without faults ahead, a world is calm when its stores are within reach. -/
theorem World.Calm.of_steady {world : World} (steady : world.faults = .none)
    (writable : world.write.available = true) (readable : world.read.available = true) :
    world.Calm where
  writable := writable
  readable := readable
  outages := steady ▸ rfl
  records := steady ▸ rfl
  views := steady ▸ rfl
  prompt := steady ▸ rfl
  delays := steady ▸ rfl

namespace Action

variable {world after : World} {uuid : Uuid}

theorem liveKeys_waits (uuids : List Uuid) : Keeps World.Waited (liveKeys uuids) :=
  (keeps_mapM (fun _ => (writeStore_waits.bind fun _ => keeps_pure _).bind fun _ => keeps_pure _)
    uuids).bind fun _ => keeps_pure _

theorem readStore_waits : Keeps World.Waited readStore := by
  refine Keeps.bind reach_waits fun outage => keeps_get.bind fun world => ?_
  dsimp only
  split
  · exact keeps_pure _
  · exact keeps_throw _

/-- Deleting a view fails and leaves the store, or does what the store does. -/
theorem deleteView_cases {result : Except EngineError Bool}
    (ended : (deleteView uuid).on world = (result, after)) :
    (∃ error, result = .error error) ∧ world.Waited after ∨
      ∃ existed read, result = .ok existed ∧ world.read.delete uuid = .ok (existed, read) ∧
        { world with read }.Waited after := by
  rw [deleteView, on_bind] at ended
  rcases reached : readStore.on world with ⟨error | store, middle⟩
  · rw [reached] at ended
    cases ended
    exact Or.inl ⟨⟨error, rfl⟩, readStore_waits.of_on reached⟩
  · obtain ⟨now, faults, rfl⟩ := readStore_waits.of_on reached
    obtain rfl := readStore_ok reached
    rw [reached] at ended
    dsimp only at ended
    rw [on_bind, ofStorage_on] at ended
    cases removed : world.read.delete uuid with
    | error error =>
      rw [removed] at ended
      cases ended
      exact Or.inl ⟨⟨_, rfl⟩, now, faults, rfl⟩
    | ok done =>
      rw [removed] at ended
      cases ended
      exact Or.inr ⟨done.1, done.2, rfl, rfl, now, faults, rfl⟩

end Action

namespace Service

open CachedViews.Action WriteStore

variable {world after : World} {uuid : Uuid}

/-- How a purge ends. -/
inductive PurgeEnds (uuid : Uuid) (world : World) : Except EngineError Unit → World → Prop where
  /-- The entity could not be looked up, or it was not to be removed. -/
  | refused {error : EngineError} {after : World} (waited : world.Waited after) :
    PurgeEnds uuid world (.error error) after
  /-- The entity was removed, and its view could not be. -/
  | stranded {error : EngineError} {next : WriteStore} {after : World}
    (purged : world.write.purge uuid = .ok next)
    (waited : { world with write := next }.Waited after) :
    PurgeEnds uuid world (.error error) after
  /-- Both were removed, and what the entity linked could not be looked up. -/
  | unlisted {error : EngineError} {next : WriteStore} {existed : Bool} {read : ReadStore}
    {after : World} (purged : world.write.purge uuid = .ok next)
    (deleted : world.read.delete uuid = .ok (existed, read))
    (waited : { world with write := next, read }.Waited after) :
    PurgeEnds uuid world (.error error) after
  /-- Both were removed, and what the entity linked was queued. -/
  | done {next : WriteStore} {existed : Bool} {read : ReadStore} {later : World} {queue : Queue}
    (purged : world.write.purge uuid = .ok next)
    (deleted : world.read.delete uuid = .ok (existed, read))
    (waited : { world with write := next, read }.Waited later) :
    PurgeEnds uuid world (.ok ()) { later with queue }

theorem unlink_ends {existing : Option EntityRecord} {result : Except EngineError Unit}
    {before : World} {next : WriteStore} (purged : before.write.purge uuid = .ok next)
    (waited : { before with write := next }.Waited world)
    (ended : (unlink uuid existing).on world = (result, after)) :
    PurgeEnds uuid before result after := by
  unfold unlink at ended
  dsimp only at ended
  rw [on_bind] at ended
  rcases removal : (deleteView uuid).on world with ⟨outcome, middle⟩
  rw [removal] at ended
  rcases deleteView_cases removal with ⟨⟨error, rfl⟩, further⟩ | ⟨existed, read, rfl, deleted, further⟩
  · cases ended
    exact .stranded purged (World.Chain.trans waited further)
  · obtain ⟨now, faults, rfl⟩ := waited
    have emptied : { before with write := next, read }.Waited middle := by
      obtain ⟨late, left, rfl⟩ := further
      exact ⟨late, left, rfl⟩
    dsimp only at ended
    rw [on_bind] at ended
    split at ended
    · rename_i keys last looked
      have settled := World.Chain.trans emptied ((liveKeys_waits _).of_on looked)
      split at ended
      · cases ended
        exact .done purged deleted settled
      · cases ended
        exact .done purged deleted settled
    · rename_i error last looked
      cases ended
      exact .unlisted purged deleted (World.Chain.trans emptied ((liveKeys_waits _).of_on looked))

theorem purge_ends {result : Except EngineError Unit}
    (ended : (purge uuid).on world = (result, after)) : PurgeEnds uuid world result after := by
  rw [purge_eq, on_bind] at ended
  rcases looked : (orNotFound (Action.record uuid)).on world with ⟨error | existing, middle⟩
  · rw [looked] at ended
    cases ended
    exact .refused ((record_waits uuid).orNotFound.of_on looked)
  · obtain ⟨now, faults, rfl⟩ := (record_waits uuid).orNotFound.of_on looked
    rw [looked] at ended
    dsimp only at ended
    rw [on_bind] at ended
    obtain ⟨later, outages, delays, ⟨error, failed⟩ | ⟨_, next, purged, removed⟩⟩ := commit_cases
      (fun store => do return ((), ← store.purge uuid)) { world with now, faults }
    · rw [purgeRecord, failed] at ended
      cases ended
      exact .refused ⟨later, _, rfl⟩
    · rw [purgeRecord, removed] at ended
      refine unlink_ends ?_ ⟨later, _, rfl⟩ ended
      cases purging : world.write.purge uuid with
      | error error =>
        rw [purging] at purged
        cases purged
      | ok store =>
        rw [purging] at purged
        cases purged
        rfl

/-- The write store would remove the entity, and the read store cannot delete its view. -/
structure Strands (world : World) (uuid : Uuid) : Prop where
  writable : world.write.available = true
  purgeable : ∃ next, world.write.purge uuid = .ok next
  stuck : world.read.available = false ∨ ∃ error, world.read.delete uuid = .error error

section

variable (steady : world.faults = .none)
include steady

theorem reach_steady : reach.on world = (.ok false, world) := by
  have prompt : nextDelay.on world = (.ok .zero, world) := by
    rw [nextDelay, on_modifyGet, steady]
    rfl
  rw [reach, on_bind_ok prompt, on_bind_ok (pause_on_zero rfl world), nextOutage, on_modifyGet,
    steady]
  rfl

theorem writeStore_steady : writeStore.on world =
    (if world.write.available then .ok world.write else .error (.storage (.unavailable .write)),
      world) := by
  rw [writeStore, on_bind_ok (reach_steady steady), on_bind_ok (on_get world)]
  dsimp only
  cases world.write.available <;> rfl

theorem readStore_steady : readStore.on world =
    (if world.read.available then .ok world.read else .error (.storage (.unavailable .read)),
      world) := by
  rw [readStore, on_bind_ok (reach_steady steady), on_bind_ok (on_get world)]
  dsimp only
  cases world.read.available <;> rfl

theorem record_steady (uuid : Uuid) : (Action.record uuid).on world =
    (if world.write.available then (world.write.get uuid).mapError .storage
      else .error (.storage (.unavailable .write)), world) := by
  have pass : nextRecordFault.on world = (.ok .pass, world) := by
    rw [nextRecordFault, on_modifyGet, steady]
    rfl
  have prompt : world.faults.recordDelay.isZero = true := by rw [steady]; rfl
  rw [Action.record, on_bind_ok (on_get world), on_bind_ok (pause_on_zero prompt world),
    on_bind_ok pass, currentRecord, on_bind, writeStore_steady steady]
  cases world.write.available with
  | false => rfl
  | true => exact ofStorage_on _ world

theorem orNotFound_record_steady (uuid : Uuid) :
    (orNotFound (Action.record uuid)).on world =
      (if world.write.available then .ok (world.write.record? uuid)
        else .error (.storage (.unavailable .write)), world) := by
  rw [orNotFound, on_tryCatch, on_map, record_steady steady]
  cases world.write.available with
  | false => rfl
  | true =>
    rw [WriteStore.get]
    cases world.write.record? uuid <;> rfl

theorem purgeRecord_steady (uuid : Uuid) : (purgeRecord uuid).on world =
    if world.write.available then
      match world.write.purge uuid with
      | .ok next => (.ok (), { world with write := next })
      | .error error => (.error (.storage error), world)
    else (.error (.storage (.unavailable .write)), world) := by
  rw [purgeRecord, Action.commit, on_bind, writeStore_steady steady]
  cases world.write.available with
  | false => rfl
  | true =>
    cases purged : world.write.purge uuid <;>
    · simp only [if_true, purged]
      rfl

theorem deleteView_steady (uuid : Uuid) : (deleteView uuid).on world =
    if world.read.available then
      match world.read.delete uuid with
      | .ok (existed, read) => (.ok existed, { world with read })
      | .error error => (.error (.storage error), world)
    else (.error (.storage (.unavailable .read)), world) := by
  rw [deleteView, on_bind, readStore_steady steady]
  cases world.read.available with
  | false => rfl
  | true =>
    cases deleted : world.read.delete uuid <;>
    · simp only [if_true, deleted]
      rfl

/-- Nothing changes as long as the entity is not removed. -/
theorem purge_refused
    (kept : ¬ (world.write.available = true ∧ ∃ next, world.write.purge uuid = .ok next)) :
    ∃ error, (purge uuid).on world = (.error error, world) := by
  rw [purge_eq, on_bind, orNotFound_record_steady steady]
  cases writable : world.write.available with
  | false => exact ⟨_, rfl⟩
  | true =>
    rw [if_pos rfl]
    dsimp only
    rw [on_bind, purgeRecord_steady steady, writable, if_pos rfl]
    cases purged : world.write.purge uuid with
    | error error => exact ⟨_, rfl⟩
    | ok next => exact absurd ⟨writable, next, purged⟩ kept

theorem purge_on_removed (writable : world.write.available = true) {next : WriteStore}
    (purged : world.write.purge uuid = .ok next) :
    (purge uuid).on world =
      (unlink uuid (world.write.record? uuid)).on { world with write := next } := by
  rw [purge_eq, on_bind, orNotFound_record_steady steady, writable, if_pos rfl]
  dsimp only
  rw [on_bind, purgeRecord_steady steady, writable, if_pos rfl, purged]

theorem unlink_stuck (stuck : world.read.available = false ∨
      ∃ error, world.read.delete uuid = .error error) (existing : Option EntityRecord) :
    ∃ error, (unlink uuid existing).on world = (.error error, world) := by
  unfold unlink
  dsimp only
  rw [on_bind, deleteView_steady steady]
  rcases stuck with unreadable | ⟨error, failed⟩
  · rw [unreadable]
    exact ⟨_, rfl⟩
  · rw [failed]
    cases world.read.available <;> exact ⟨_, rfl⟩

theorem unlink_free (writable : world.write.available = true)
    (readable : world.read.available = true) {existed : Bool} {read : ReadStore}
    (deleted : world.read.delete uuid = .ok (existed, read)) (existing : Option EntityRecord) :
    ∃ after, (unlink uuid existing).on world = (.ok (), after) := by
  have calm : ({ world with read } : World).Calm :=
    .of_steady steady writable ((ReadStore.available_of_delete deleted).trans readable)
  unfold unlink
  dsimp only
  rw [on_bind, deleteView_steady steady, readable, if_pos rfl, deleted]
  dsimp only
  rw [on_bind_ok (liveKeys_on calm _)]
  split <;> exact ⟨_, rfl⟩

/-- Without faults ahead, a purge leaves a view without its entity, or a failed one leaves
everything. -/
theorem purge_steady (uuid : Uuid) :
    (Strands world uuid ∧ ∃ error next, world.write.purge uuid = .ok next ∧
        (purge uuid).on world = (.error error, { world with write := next })) ∨
      ¬ Strands world uuid ∧
        ∀ error after, (purge uuid).on world = (.error error, after) → after = world := by
  by_cases removed : world.write.available = true ∧ ∃ next, world.write.purge uuid = .ok next
  · obtain ⟨writable, next, purged⟩ := removed
    have steadyNext : ({ world with write := next } : World).faults = .none := steady
    have goesOn := purge_on_removed steady writable purged
    by_cases stuck : world.read.available = false ∨ ∃ error, world.read.delete uuid = .error error
    · obtain ⟨error, failed⟩ := unlink_stuck steadyNext stuck (world.write.record? uuid)
      exact Or.inl ⟨⟨writable, ⟨next, purged⟩, stuck⟩, error, next, purged, goesOn.trans failed⟩
    · right
      refine ⟨fun strands => stuck strands.stuck, fun error after ended => ?_⟩
      obtain ⟨readable, unfailing⟩ := not_or.mp stuck
      rcases deleted : world.read.delete uuid with failure | ⟨existed, read⟩
      · exact absurd ⟨failure, deleted⟩ unfailing
      · obtain ⟨row, -, rfl, -⟩ := purge_ok purged
        obtain ⟨later, done⟩ := unlink_free steadyNext writable (Bool.not_eq_false _ |>.mp readable)
          deleted (world.write.record? uuid)
        cases ended.symm.trans (goesOn.trans done)
  · right
    obtain ⟨failure, refused⟩ := purge_refused steady removed
    refine ⟨fun strands => removed ⟨strands.writable, strands.purgeable⟩, fun error after ended => ?_⟩
    cases refused.symm.trans ended
    rfl

end

/-- A purge that ends well leaves neither the entity nor its view. One that fails leaves the queue,
and it leaves both stores unless the entity had been removed by then. Without faults ahead that is
so exactly when the write store would remove the entity and the read store is out of reach or cannot
read the view back: then the purge fails, the entity is gone, and its view stays. -/
theorem failed_purge_keeps_all_but_stranded {uuid : Uuid} {world after : World}
    {result : Except EngineError Unit} (ended : (purge uuid).on world = (result, after)) :
    (result = .ok () → after.write.record? uuid = none ∧ after.read.slot? uuid = none) ∧
      (∀ error, result = .error error → after.queue = world.queue ∧
        (after.write = world.write ∧ after.read = world.read ∨
          world.write.purge uuid = .ok after.write ∧ (after.read = world.read ∨
            ∃ existed, world.read.delete uuid = .ok (existed, after.read)))) ∧
      (world.faults = .none →
        (Strands world uuid → (∃ error, result = .error error) ∧
          world.write.purge uuid = .ok after.write ∧ after.read = world.read) ∧
        (¬ Strands world uuid → ∀ error, result = .error error → after = world)) := by
  refine ⟨?_, ?_, fun steady => ?_⟩
  · rintro rfl
    cases purge_ends ended with
    | done purged deleted waited =>
      obtain ⟨now, faults, rfl⟩ := waited
      obtain ⟨row, -, rfl, -⟩ := purge_ok purged
      exact ⟨(removed_record? uuid row uuid).trans (if_pos rfl), ReadStore.slot?_of_delete deleted⟩
  · rintro error rfl
    cases purge_ends ended with
    | refused waited =>
      obtain ⟨now, faults, rfl⟩ := waited
      exact ⟨rfl, Or.inl ⟨rfl, rfl⟩⟩
    | stranded purged waited =>
      obtain ⟨now, faults, rfl⟩ := waited
      exact ⟨rfl, Or.inr ⟨purged, Or.inl rfl⟩⟩
    | unlisted purged deleted waited =>
      obtain ⟨now, faults, rfl⟩ := waited
      exact ⟨rfl, Or.inr ⟨purged, Or.inr ⟨_, deleted⟩⟩⟩
  · rcases purge_steady steady uuid with ⟨strands, error, next, purged, failed⟩ | ⟨free, leaves⟩
    · cases failed.symm.trans ended
      exact ⟨fun _ => ⟨⟨error, rfl⟩, purged, rfl⟩, fun free => absurd strands free⟩
    · refine ⟨fun strands => absurd strands free, ?_⟩
      rintro - error rfl
      exact leaves error after ended

/-- What a purge stranded no later purge removes: the entity is not found any more. -/
theorem purge_keeps_orphan {result : Except EngineError Unit}
    (missing : world.write.rows.get? uuid = none)
    (ended : (purge uuid).on world = (result, after)) :
    (∃ error, result = .error error) ∧ after.read = world.read := by
  have unpurgeable : ∀ next, world.write.purge uuid ≠ .ok next := by
    intro next purged
    obtain ⟨row, stored, -⟩ := purge_ok purged
    cases missing.symm.trans stored
  cases purge_ends ended with
  | refused waited =>
    obtain ⟨now, faults, rfl⟩ := waited
    exact ⟨⟨_, rfl⟩, rfl⟩
  | stranded purged => exact absurd purged (unpurgeable _)
  | unlisted purged => exact absurd purged (unpurgeable _)
  | done purged => exact absurd purged (unpurgeable _)

/-- An author whose view is stored. -/
def shownAuthor : World :=
  Edit.indexed (.precise .books) [.put ⟨1⟩ ⟨"Author"⟩ (.ofText "name" "Ann") none]

/-- The read store is out of reach. -/
def outOfReach : World := shownAuthor.disturbed .none true false 0

theorem weathered_outOfReach : Weathered (.precise .books) outOfReach :=
  .disturbed (.handled (.edited (.start _ fun _ => rfl) _) 10) .none List.not_mem_nil true false 0

/-- The author is removed with the view, or is gone while the view stays. -/
theorem purge_with_and_without_view :
    (((purge ⟨1⟩).on shownAuthor).2.write.record? ⟨1⟩ = none ∧
        ((purge ⟨1⟩).on shownAuthor).2.read.slot? ⟨1⟩ = none) ∧
      outOfReach.write.purge ⟨1⟩ = .ok ((purge ⟨1⟩).on outOfReach).2.write ∧
        ((purge ⟨1⟩).on outOfReach).2.read = outOfReach.read := by
  have done : ((purge ⟨1⟩).on shownAuthor).1 = .ok () := by
    apply ok_of_toOption
    decide +kernel
  have strands : Strands outOfReach ⟨1⟩ := by
    refine ⟨by decide +kernel, ?_, Or.inl (by decide +kernel)⟩
    have removable : (outOfReach.write.purge ⟨1⟩).toOption.isSome = true := by decide +kernel
    cases purged : outOfReach.write.purge ⟨1⟩ with
    | ok next => exact ⟨next, rfl⟩
    | error error =>
      rw [purged] at removable
      cases removable
  have steady : outOfReach.faults = .none := rfl
  obtain ⟨gone, -, -⟩ :=
    failed_purge_keeps_all_but_stranded (Prod.eta ((purge ⟨1⟩).on shownAuthor)).symm
  obtain ⟨-, -, stranded⟩ :=
    failed_purge_keeps_all_but_stranded (Prod.eta ((purge ⟨1⟩).on outOfReach)).symm
  exact ⟨gone done, ((stranded steady).1 strands).2⟩

/-- With the read store out of reach, the purge of the author fails. The author is gone, the view
stays with nothing queued, and once the store is back the purge fails again, since there is no author
to remove. -/
theorem failed_purge_strands_view :
    Weathered (.precise .books) outOfReach ∧
      (outOfReach.write.record? ⟨1⟩).isSome = true ∧
      ((purge ⟨1⟩).on outOfReach).1.toOption = none ∧
      ((purge ⟨1⟩).on outOfReach).2.write.record? ⟨1⟩ = none ∧
      (((purge ⟨1⟩).on outOfReach).2.read.slot? ⟨1⟩).isSome = true ∧
      ((purge ⟨1⟩).on outOfReach).2.queue.isIdle = true ∧
      ((purge ⟨1⟩).on ((purge ⟨1⟩).on outOfReach).2.recovered).1.toOption = none := by
  refine ⟨weathered_outOfReach, ?_, ?_, ?_, ?_, ?_, ?_⟩ <;> decide +kernel

end Service

end CachedViews
