import CachedViews.Proofs.Convergence.Settling
import CachedViews.Proofs.Embedding.Declared

/-!
Views converge. Through every command each view is current or announced to be rebuilt, so a
queue that has come to rest leaves nothing but current views.
-/
namespace CachedViews

namespace Convergence

open CachedViews.Action CachedViews.Embedding WriteStore Indexing

variable {engine : Engine} {world after : World} {store views : MemoryViews}

/-- Rebuilds that are still to come: those of a batch under way and those that wait. -/
def owing (deliveries : List Delivery) (queue : Queue) (rebuild : Rebuild) : Prop :=
  (∃ delivery ∈ deliveries, delivery.message.rebuild = rebuild) ∨ rebuild ∈ queue.rebuilds

theorem owing_taken {deliveries : List Delivery} {queue rest : Queue}
    (taken : Queue.Taken queue deliveries rest) {rebuild : Rebuild}
    (waits : owing [] queue rebuild) : owing deliveries rest rebuild := by
  obtain ⟨_, listed, -⟩ | waits := waits
  · cases listed
  · obtain ⟨message, listed, same⟩ := List.mem_map.mp waits
    rcases (taken.messages message).mp listed with delivered | left
    · obtain ⟨delivery, inside, rfl⟩ := List.mem_map.mp delivered
      exact Or.inl ⟨delivery, inside, same⟩
    · exact Or.inr (List.mem_map.mpr ⟨message, left, same⟩)

section

variable {delivery : Delivery} {rest : List Delivery} {queue : Queue}

theorem owing_of_waiting (receipt : Nat) {rebuild : Rebuild} (waits : rebuild ∈ queue.rebuilds) :
    owing rest (queue.ack receipt).2 rebuild :=
  Or.inr waits

/-- A delivery that is handled may have its rebuild done with, and nothing else. -/
theorem owing_leaves {next : Queue}
    (kept : ∀ rebuild, rebuild ∈ queue.rebuilds → rebuild ∈ next.rebuilds) {rebuild : Rebuild}
    (owed : owing (delivery :: rest) queue rebuild) :
    rebuild = delivery.message.rebuild ∨ owing rest (next.ack delivery.receipt).2 rebuild := by
  obtain ⟨other, listed, same⟩ | waits := owed
  · rcases List.mem_cons.mp listed with rfl | later
    · exact Or.inl same.symm
    · exact Or.inr (Or.inl ⟨other, later, same⟩)
  · exact Or.inr (Or.inr (kept rebuild waits))

theorem owing_deferred (attempts : UInt32) (notBefore : Instant) {rebuild : Rebuild}
    (owed : owing (delivery :: rest) queue rebuild) :
    owing rest ((queue.sendDeferred { delivery.message with attempts } notBefore).ack
      delivery.receipt).2 rebuild := by
  have waiting : (queue.sendDeferred { delivery.message with attempts } notBefore).rebuilds =
      queue.rebuilds ++ [delivery.message.rebuild] := by
    simp [Queue.rebuilds, Queue.waitingMessages, Queue.sendDeferred, Message.rebuild]
  have kept : ∀ rebuild, rebuild ∈ queue.rebuilds →
      rebuild ∈ (queue.sendDeferred { delivery.message with attempts } notBefore).rebuilds := by
    intro rebuild waits
    rw [waiting]
    exact List.mem_append_left _ waits
  rcases owing_leaves kept owed with same | left
  · apply Or.inr
    change rebuild ∈ (queue.sendDeferred { delivery.message with attempts } notBefore).rebuilds
    rw [waiting, same]
    exact List.mem_append_right _ List.mem_cons_self
  · exact left

end

theorem Settling.of_failing {write : WriteStore} {owed : Rebuild → Prop} (left : Nat)
    (settling : Settling engine write store owed) :
    Settling engine write { store with failingPuts := left } owed :=
  ⟨settling.live, settling.present, settling.tracked⟩

section

variable {snapshot : Sid} {delivery : Delivery} {rest : List Delivery} {receipts : List Nat}
  (consistent : Consistent engine.registry world.write)
  (typed : WellTyped engine.registry world.write) (bounded : snapshot ≤ world.write.maxSid)
include consistent typed bounded

theorem Settling.rebuilt {outcome : Outcome} (mirrored : store.Mirrored)
    (sound : Queue.Sound world.queue receipts)
    (settling : Settling engine world.write store (owing (delivery :: rest) world.queue))
    (rebuilt : Rebuilt engine delivery.message snapshot world store after views (.ok outcome)) :
    Settling engine world.write views (owing rest (after.queue.ack delivery.receipt).2) := by
  cases rebuilt with
  | removed _ missing stored queue =>
    rw [stored, queue]
    refine settling.removed missing fun rebuild owed => ?_
    exact (owing_leaves (fun _ => id) owed).imp_left (congrArg Rebuild.uuid)
  -- A stored view is never newer than its record.
  | outdated _ record view found held newer _ _ =>
    obtain ⟨earlier, built, same, origin, -⟩ := settling.tracked _ view held
    exact absurd (origin.sid_le (same ▸ found)) (Int.not_le.mpr newer)
  | indexed _ record resolution cache found resolved known _ stored queue =>
    have same := record?_uuid found
    rw [stored, queue]
    have origin : Origin engine.registry world.write (resolution.toView snapshot) world.write
        record :=
      ⟨.start, consistent, typed, same ▸ found, cache, snapshot, bounded, known, by rw [resolved]⟩
    refine settling.indexed mirrored origin same (fun rebuild owed => owing_leaves ?_ owed) ?_
    · intro rebuild waits
      rw [queued]
      split
      · exact waits
      · exact (Queue.sent_secondary sound _ _).kept waits
    · intro lenient key selected
      have strict : ¬ delivery.message.strict = true := by
        rw [show delivery.message.strict = false from lenient]
        exact Bool.false_ne_true
      rw [queued, if_neg strict]
      have listed : ({ Message.secondary key (some record.sid) with
          telemetryId := delivery.message.telemetryId } : Message) ∈
            secondaries delivery.message record (fanOut engine world.write
              (store.put (resolution.toView snapshot)) delivery.message record
              ((store.views.get? delivery.message.uuid).map View.sid)) :=
        List.mem_map_of_mem (SortedSet.mem_union.mpr (Or.inl selected))
      obtain ⟨rebuild, waits, owner⟩ :=
        (Queue.sent_secondary sound world.now _).waits_for listed
      exact ⟨rebuild, owing_of_waiting _ waits, owner⟩

theorem Settling.handled (mirrored : store.Mirrored) (sound : Queue.Sound world.queue receipts)
    (settling : Settling engine world.write store (owing (delivery :: rest) world.queue))
    (handled : Handled engine delivery snapshot world store after views)
    (kept : after.failures.entries = []) :
    Settling engine world.write views (owing rest after.queue) := by
  cases handled with
  | lost _ lost _ _ _ _ => exact absurd kept lost
  | postponed _ left _ attempts notBefore stored queue =>
    rw [stored, queue]
    exact (settling.of_failing left).grow fun rebuild owed =>
      owing_deferred attempts notBefore owed
  | done _ middle rebuilt queue =>
    rw [queue]
    exact settling.rebuilt consistent typed bounded mirrored sound rebuilt

end

theorem Settling.cycles {snapshot : Sid} {deliveries : List Delivery}
    (cycles : Cycles engine snapshot deliveries world store after views)
    (consistent : Consistent engine.registry world.write)
    (typed : WellTyped engine.registry world.write) (bounded : snapshot ≤ world.write.maxSid)
    (mirrored : store.Mirrored)
    (sound : Queue.Sound world.queue (deliveries.map Delivery.receipt))
    (settling : Settling engine world.write store (owing deliveries world.queue))
    (kept : after.failures.entries = []) :
    Settling engine world.write views (owing [] after.queue) := by
  induction cycles with
  | done world store => exact settling
  | @next delivery rest world middle after store views last onward handled later ih =>
    have keptMiddle : middle.failures.entries = [] :=
      Classical.byContradiction fun lost => later.failures lost kept
    have next := settling.handled consistent typed bounded mirrored sound handled keptMiddle
    rw [← onward.write] at consistent typed bounded next ⊢
    exact ih consistent typed bounded (handled.mirrored mirrored) (handled.sound sound) next kept

theorem owing_added {queue : Queue} {rebuild : Rebuild} (messages : List Message)
    (owed : owing [] queue rebuild) :
    owing [] { queue with primary := queue.primary ++ messages } rebuild := by
  obtain ⟨_, listed, -⟩ | waits := owed
  · cases listed
  · exact Or.inr ((Queue.mem_rebuilds_added _ _ _).mpr (Or.inl waits))

theorem owing_message {queue : Queue} {messages : List Message} {message : Message}
    (listed : message ∈ messages) :
    owing [] { queue with primary := queue.primary ++ messages } message.rebuild :=
  Or.inr ((Queue.mem_rebuilds_added _ _ _).mpr (Or.inr ⟨message, listed, rfl⟩))

/-- A reindex may drop what waits only because it looks after every entity itself. -/
theorem Settling.requeued {options : ReindexOptions} {queue : Queue} {messages : List Message}
    (settling : Settling engine world.write store (owing [] queue))
    (complete : options.types = none → options.skipPropagation = false →
      ∀ uuid record, world.write.record? uuid = some record →
        (∃ message ∈ messages, message.uuid = uuid) ∨ Freshness.IsFresh world.write store uuid) :
    Settling engine world.write store (owing [] { Service.requeueBase options queue with
      primary := (Service.requeueBase options queue).primary ++ messages }) := by
  unfold Service.requeueBase
  split
  · rename_i total
    simp only [Bool.and_eq_true, Option.isNone_iff_eq_none, Bool.not_eq_true'] at total
    refine settling.refresh fun uuid record found => ?_
    apply (complete total.1 total.2 uuid record found).imp_left
    rintro ⟨message, listed, same⟩
    exact ⟨message.rebuild, owing_message listed, same⟩
  · exact settling.grow fun _ => owing_added messages

theorem Settling.effect {command : Command} (built : engine.registry.Built)
    (ready : Command.Ready engine.registry world store)
    (typed : WellTyped engine.registry world.write)
    (settling : Settling engine world.write store (owing [] world.queue))
    (effect : Command.Effect engine world store after views command)
    (kept : after.failures.entries = []) :
    Settling engine after.write views (owing [] after.queue) := by
  cases effect with
  | still write queue stored =>
    rw [write, queue, stored]
    exact settling
  | failing write queue stored =>
    rw [write, queue, stored]
    exact settling.of_failing _
  | wrote new diff wrote told queue stored =>
    rw [stored, queue]
    exact settling.wrote wrote (fun _ => owing_added _) (owing_message List.mem_cons_self) told
  | purged _ _ purged queue stored =>
    rw [stored, queue]
    apply settling.purged built ready.consistent purged
    rintro rebuild (⟨_, listed, -⟩ | waits)
    · cases listed
    · exact Or.inr ((Queue.sent_secondary ready.queue _ _).kept waits)
  | requeued messages requests complete write queue stored =>
    rw [write, queue, stored]
    exact settling.requeued complete
  | @batch size deliveries started last taken onward cycles write queue failures =>
    have received := (settling.grow fun rebuild => owing_taken taken).taking size
    have sound := taken.sound_between ready.queue
    have consistent : Consistent engine.registry started.write := onward.write ▸ ready.consistent
    have bounded : world.write.maxSid ≤ started.write.maxSid :=
      Int.le_of_eq (congrArg WriteStore.maxSid onward.write).symm
    rw [← onward.write] at received typed
    rw [write, queue, ← onward.write]
    exact (Settling.cycles cycles consistent typed bounded ready.mirrored sound received
      (failures ▸ kept)).of_taking

/-- Links name missing entities or entities of the declared type, throughout a run. -/
def TypedThroughout (engine : Engine) (commands : List Command) (world : World) : Prop :=
  ∀ earlier, earlier <+: commands →
    WellTyped engine.registry (Command.run engine earlier world).write

instance (engine : Engine) (commands : List Command) (world : World) :
    Decidable (TypedThroughout engine commands world) :=
  decidable_of_iff (∀ taken < commands.length + 1,
    WellTyped engine.registry (Command.run engine (commands.take taken) world).write) <| by
    constructor
    · intro typed earlier inside
      rw [List.prefix_iff_eq_take.mp inside]
      exact typed _ (Nat.lt_succ_of_le inside.length_le)
    · exact fun typed taken _ => typed _ (commands.take_prefix taken)

theorem settling_run (built : engine.registry.Built) (commands : List Command)
    (ready : Command.Ready engine.registry world store)
    (typed : TypedThroughout engine commands world)
    (settling : Settling engine world.write store (owing [] world.queue))
    (kept : (Command.run engine commands world).failures.entries = []) :
    ∃ views, Command.Ready engine.registry (Command.run engine commands world) views ∧
      Settling engine (Command.run engine commands world).write views
        (owing [] (Command.run engine commands world).queue) := by
  induction commands generalizing world store with
  | nil => exact ⟨store, ready, settling⟩
  | cons command rest ih =>
    obtain ⟨views, readyAfter, effect, -⟩ := Command.steps ready command
    -- Failures are never taken back, so a run that ends without one had none on the way.
    have unfailed : (Command.after engine world command).failures.entries = [] :=
      Classical.byContradiction fun lost => (Command.ready_run readyAfter rest).2 lost kept
    have onward := settling.effect built ready (typed [] List.nil_prefix) effect unfailed
    refine ih readyAfter (fun earlier inside => ?_) onward kept
    exact typed (command :: earlier) ((List.cons_prefix_cons).mpr ⟨rfl, inside⟩)

/-- When a run has come to rest and no message was given up, exactly the entities that are there
have views, each with the stamp of its record; and unless a calculated path of its type leads
through a link named like the wildcard, its document and its links are those of resolving it
now. Calculations are taken to be blind to the sign of a zero (`Registry.Pure`), and documents are
compared up to it. -/
theorem views_converge (engine : Engine) (built : engine.registry.Built)
    (pure : engine.registry.Pure) (nested : ∀ itemType, engine.registry.NestedApart itemType)
    (commands : List Command)
    (typed : TypedThroughout engine commands (.start (.memory .empty)))
    (kept : (Command.worldAfter engine commands).failures.entries = [])
    (idle : (Command.worldAfter engine commands).queue.isIdle = true) (uuid : Uuid) :
    ((Command.worldAfter engine commands).write.record? uuid = none →
      ((Action.view uuid).on (Command.worldAfter engine commands)).1 =
        .error (.storage (.notFound uuid))) ∧
      ∀ record, (Command.worldAfter engine commands).write.record? uuid = some record →
        ∃ view resolution,
          ((Action.view uuid).on (Command.worldAfter engine commands)).1 = .ok view ∧
          ((resolveAlone engine.registry uuid).on (Command.worldAfter engine commands)).1 =
            .ok resolution ∧
          view.sid = resolution.record.sid ∧
          (engine.registry.WildcardApart record.itemType →
            view.embedded.plain = resolution.document.plain ∧ view.linked = resolution.linked) := by
  obtain ⟨views, ready, settling⟩ := settling_run built commands (.start engine.registry) typed
    .start kept
  have none : ∀ rebuild, ¬ owing [] (Command.worldAfter engine commands).queue rebuild := by
    rintro rebuild (⟨_, listed, -⟩ | waits)
    · cases listed
    · rw [Queue.rebuilds, Queue.waitingMessages_of_isIdle idle] at waits
      cases waits
  obtain ⟨stats, looked⟩ := view_on ready.calm ready.holds uuid
  constructor
  · intro missing
    cases stored : views.views.get? uuid with
    | none =>
      rw [stored] at looked
      exact congrArg Prod.fst looked
    | some view =>
      obtain ⟨record, found⟩ := settling.live uuid view stored
      exact absurd (missing.symm.trans found) (Option.some_ne_none record).symm
  · intro record found
    obtain rfl := record?_uuid found
    obtain ⟨view, stored, stamped, content⟩ := settling.settled none built pure (nested _)
      ready.consistent (typed commands (List.prefix_refl _)) found
    rw [stored] at looked
    exact ⟨view, _, congrArg Prod.fst looked, congrArg Prod.fst (resolveAlone_on ready.calm found),
      stamped, content⟩

/-- The author of a book is renamed while the next view fails to be written. -/
def authorRenamed : List Command := [
  .edit (.put ⟨1⟩ ⟨"Author"⟩ (.ofText "name" "Ann") none),
  .edit (.put ⟨2⟩ ⟨"Book"⟩ (.ofText "author" (Uuid.text ⟨1⟩)) none),
  .processBatch 10,
  .failPuts 1,
  .edit (.put ⟨1⟩ ⟨"Author"⟩ (.ofText "name" "Eve") none),
  .processBatch 1,
  .processBatch 10,
  .advance (.ofMillis 1),
  .processBatch 10]

theorem renamed_author_shows :
    (Command.worldAfter (.precise .books) authorRenamed).failures.entries = [] ∧
      (Command.worldAfter (.precise .books) authorRenamed).queue.isIdle = true ∧
      ∃ view resolution,
        ((Action.view ⟨2⟩).on (Command.worldAfter (.precise .books) authorRenamed)).1 = .ok view ∧
        ((resolveAlone .books ⟨2⟩).on (Command.worldAfter (.precise .books) authorRenamed)).1 =
          .ok resolution ∧
        view.embedded.plain = resolution.document.plain ∧ view.linked = resolution.linked ∧
        (view.embedded.get? "label" >>= Json.text?) = some "? (Eve)" := by
  have kept : (Command.worldAfter (.precise .books) authorRenamed).failures.entries = [] := by
    decide +kernel
  have idle : (Command.worldAfter (.precise .books) authorRenamed).queue.isIdle = true := by
    decide +kernel
  have there : ((Command.worldAfter (.precise .books) authorRenamed).write.record? ⟨2⟩).map
      EntityRecord.itemType = some ⟨"Book"⟩ := by
    decide +kernel
  have label : ((Action.view ⟨2⟩).on
      (Command.worldAfter (.precise .books) authorRenamed)).1.toOption.map
        (fun view => view.embedded.get? "label" >>= Json.text?) = some (some "? (Eve)") := by
    decide +kernel
  obtain ⟨record, found, typed⟩ := Option.map_eq_some_iff.mp there
  obtain ⟨-, current⟩ := views_converge (.precise .books) (Registry.built_ofDecls _)
    Registry.books_pure Registry.books_nestedApart authorRenamed (by decide +kernel) kept idle ⟨2⟩
  obtain ⟨view, resolution, looked, resolved, -, content⟩ := current record found
  obtain ⟨document, linked⟩ := content (by rw [typed]; decide +kernel)
  rw [looked] at label
  exact ⟨kept, idle, view, resolution, looked, resolved, document, linked, Option.some.inj label⟩

/-- The item in a box changes after a shelf has shown it. -/
def itemChanged : List Command := [
  .edit (.put ⟨1⟩ ⟨"Item"⟩ (.ofText "name" "old") none),
  .edit (.put ⟨2⟩ ⟨"Box"⟩ (.ofText "*" (Uuid.text ⟨1⟩)) none),
  .edit (.put ⟨3⟩ ⟨"Shelf"⟩ (.ofText "box" (Uuid.text ⟨2⟩)) none),
  .processBatch 10,
  .processBatch 10,
  .edit (.put ⟨1⟩ ⟨"Item"⟩ (.ofText "name" "new") none),
  .processBatch 10,
  .processBatch 10]

/-- The view of a shelf stays old: a link that is named like the wildcard is followed by
calculations, but not by the search for what they read. -/
theorem shelf_stays_old :
    Registry.boxes.Built ∧ Registry.boxes.Pure ∧
      (∀ itemType, Registry.boxes.NestedApart itemType) ∧
      TypedThroughout (.precise .boxes) itemChanged (.start (.memory .empty)) ∧
      (Command.worldAfter (.precise .boxes) itemChanged).failures.entries = [] ∧
      (Command.worldAfter (.precise .boxes) itemChanged).queue.isIdle = true ∧
      ∃ view resolution,
        ((Action.view ⟨3⟩).on (Command.worldAfter (.precise .boxes) itemChanged)).1 = .ok view ∧
        ((resolveAlone .boxes ⟨3⟩).on (Command.worldAfter (.precise .boxes) itemChanged)).1 =
          .ok resolution ∧
        view.embedded.plain ≠ resolution.document.plain := by
  have old : ((Action.view ⟨3⟩).on
      (Command.worldAfter (.precise .boxes) itemChanged)).1.toOption.map
        (fun view => view.embedded.plain.get? "shown" >>= Json.get? "name" >>= Json.text?) =
          some (some "old") := by
    decide +kernel
  have new : ((resolveAlone .boxes ⟨3⟩).on
      (Command.worldAfter (.precise .boxes) itemChanged)).1.toOption.map
        (fun resolution =>
          resolution.document.plain.get? "shown" >>= Json.get? "name" >>= Json.text?) =
          some (some "new") := by
    decide +kernel
  obtain ⟨view, looked, shown⟩ := Action.ok_of_seen _ old
  obtain ⟨resolution, resolved, current⟩ := Action.ok_of_seen _ new
  refine ⟨Registry.built_ofDecls _, Registry.boxes_pure, Registry.boxes_nestedApart,
    by decide +kernel, by decide +kernel, by decide +kernel, view, resolution, looked, resolved,
    fun same => ?_⟩
  rw [same, current] at shown
  exact absurd shown (by decide)

end Convergence

end CachedViews
