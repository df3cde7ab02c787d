import CachedViews.Proofs.Convergence.Agenda
import CachedViews.Proofs.Embedding.Declared

/-!
Reverse links converge in runs without purges and faults, but for changes of links that slip
past the comparison that finds the targets: such a change shows in the view of the target only
when that view is rebuilt for another reason, or the change is undone.
-/
namespace CachedViews

namespace Convergence

open CachedViews.Action WriteStore Indexing Invalidation

variable {engine : Engine} {world after : World} {store views : MemoryViews}

/-- The stored view of `target` shows what `source` links now. -/
def Shown (world : World) (source target : Uuid) : Prop :=
  ∀ view, world.read.load target = .ok (some view) →
    Shows world.write view.revLinks source target

/-- The view of `target` does not show what `source` links, and nothing that waits will notice:
the next rebuild of the source is strict, or the source has no view to compare with and links
the target no more. -/
structure Missed (world : World) (source target : Uuid) : Prop where
  apart : source ≠ target
  idle : ∀ message ∈ world.queue.waitingMessages, message.uuid ≠ target
  stale : ¬ Shown world source target
  unnoticed :
    (∃ message ∈ world.queue.primary.find? fun message => message.uuid = source,
      message.strict = true) ∨
    world.read.load source = .ok none ∧ ¬ ∃ field, Links world.write source field target

/-- The view of `target` is to be rebuilt, or shows what `source` links. -/
def Mended (world : World) (source target : Uuid) : Prop :=
  (∃ message ∈ world.queue.waitingMessages, message.uuid = target) ∨ Shown world source target

/-- At some point of a run a view is mended. -/
def MendedAlong (engine : Engine) (source target : Uuid) : List Command → World → Prop
  | [], world => Mended world source target
  | command :: rest, world => Mended world source target ∨
      MendedAlong engine source target rest (Command.after engine world command)

/-- Whenever a put of a run is missed by the view of `target`, the view is mended later in the
run. -/
def MissesMended (engine : Engine) (target : Uuid) : List Command → World → Prop
  | [], _ => True
  | command :: rest, world =>
    (∀ source ∈ command.written?, Missed (Command.after engine world command) source target →
      MendedAlong engine source target rest (Command.after engine world command)) ∧
    MissesMended engine target rest (Command.after engine world command)

instance (write : WriteStore) (source : Uuid) (field : String) (target : Uuid) :
    Decidable (Links write source field target) :=
  decidable_of_iff (∃ record ∈ write.record? source, (⟨field, target⟩ : Link) ∈ record.links)
    Iff.rfl

/-- The fields of the links of an entity. -/
def linkFields (write : WriteStore) (source : Uuid) : List String :=
  match write.record? source with
  | some record => record.links.toList.map Link.field
  | none => []

theorem mem_linkFields {write : WriteStore} {source target : Uuid} {field : String}
    (links : Links write source field target) : field ∈ linkFields write source := by
  obtain ⟨record, found, listed⟩ := links
  rw [linkFields, found]
  exact List.mem_map.mpr ⟨_, listed, rfl⟩

instance (write : WriteStore) (source target : Uuid) :
    Decidable (∃ field, Links write source field target) :=
  decidable_of_iff (∃ field ∈ linkFields write source, Links write source field target)
    ⟨fun ⟨field, _, links⟩ => ⟨field, links⟩,
      fun ⟨field, links⟩ => ⟨field, mem_linkFields links, links⟩⟩

theorem mem_keys_of_listed {listed : ReverseLinks} {field : String} {source : Uuid}
    (inside : source ∈ listed.getD field {}) : field ∈ listed.keys := by
  rw [SortedMap.getD] at inside
  cases found : listed.get? field with
  | none =>
    rw [found] at inside
    exact absurd inside (SortedSet.not_mem_emptyCollection _)
  | some sources =>
    exact List.mem_map.mpr ⟨(field, sources), (listed.mem_entries_iff field sources).mpr found, rfl⟩

/-- Only fields that are listed or linked can differ. -/
theorem shows_iff (write : WriteStore) (listed : ReverseLinks) (source target : Uuid) :
    Shows write listed source target ↔ ∀ field ∈ listed.keys ++ linkFields write source,
      (source ∈ listed.getD field {} ↔ Links write source field target) := by
  constructor
  · exact fun shows field _ => shows field
  · intro each field
    by_cases named : field ∈ listed.keys ++ linkFields write source
    · exact each field named
    · apply iff_of_false
      · exact fun inside => named (List.mem_append_left _ (mem_keys_of_listed inside))
      · exact fun links => named (List.mem_append_right _ (mem_linkFields links))

instance (write : WriteStore) (listed : ReverseLinks) (source target : Uuid) :
    Decidable (Shows write listed source target) :=
  decidable_of_iff _ (shows_iff write listed source target).symm

instance (world : World) (source target : Uuid) : Decidable (Shown world source target) :=
  match loaded : world.read.load target with
  | .ok (some view) => decidable_of_iff (Shows world.write view.revLinks source target) <| by
      rw [Shown, loaded]
      simp
  | .ok none => isTrue fun view found => by
      rw [loaded] at found
      cases found
  | .error _ => isTrue fun view found => by
      rw [loaded] at found
      cases found

instance (loaded : Except StorageError (Option View)) : Decidable (loaded = .ok none) :=
  match loaded with
  | .ok none => isTrue rfl
  | .ok (some _) => isFalse fun same => by cases same
  | .error _ => isFalse fun same => by cases same

instance (world : World) (source target : Uuid) : Decidable (Missed world source target) :=
  decidable_of_iff (source ≠ target ∧
    (∀ message ∈ world.queue.waitingMessages, message.uuid ≠ target) ∧
    ¬ Shown world source target ∧
    ((∃ message ∈ world.queue.primary.find? fun message => message.uuid = source,
      message.strict = true) ∨
      world.read.load source = .ok none ∧ ¬ ∃ field, Links world.write source field target))
    ⟨fun ⟨apart, idle, stale, unnoticed⟩ => ⟨apart, idle, stale, unnoticed⟩,
      fun ⟨apart, idle, stale, unnoticed⟩ => ⟨apart, idle, stale, unnoticed⟩⟩

instance (world : World) (source target : Uuid) : Decidable (Mended world source target) :=
  inferInstanceAs (Decidable (_ ∨ _))

instance decidableMendedAlong (engine : Engine) (source target : Uuid) :
    ∀ commands world, Decidable (MendedAlong engine source target commands world)
  | [], world => inferInstanceAs (Decidable (Mended world source target))
  | command :: rest, world =>
    have := decidableMendedAlong engine source target rest (Command.after engine world command)
    inferInstanceAs (Decidable (_ ∨ _))

instance decidableMissesMended (engine : Engine) (target : Uuid) :
    ∀ commands world, Decidable (MissesMended engine target commands world)
  | [], _ => isTrue trivial
  | command :: rest, world =>
    have := decidableMissesMended engine target rest (Command.after engine world command)
    inferInstanceAs (Decidable (_ ∧ _))

theorem MendedAlong.of_end {source target : Uuid} {commands : List Command} {world : World}
    (mended : Mended (Command.run engine commands world) source target) :
    MendedAlong engine source target commands world := by
  induction commands generalizing world with
  | nil => exact mended
  | cons command rest ih => exact Or.inr (ih mended)

/-- A view that shows every entity in the end has been mended wherever that was needed. -/
theorem MissesMended.of_shown {target : Uuid} {commands : List Command} {world : World}
    (shown : ∀ source, source ≠ target → Shown (Command.run engine commands world) source target) :
    MissesMended engine target commands world := by
  induction commands generalizing world with
  | nil => trivial
  | cons command rest ih =>
    exact ⟨fun source _ missed => .of_end (Or.inr (shown source missed.apart)), ih shown⟩

/-- What the queue owes, and that nothing will be put off, after each command. -/
structure Linking (registry : Registry) (world : World) (store : MemoryViews) : Prop where
  undisturbed : Undisturbed [] world store
  relinking : Relinking registry world.write store (agenda [] world.queue)

theorem Linking.of_same {registry : Registry} (linking : Linking registry world store)
    (write : after.write = world.write) (queue : after.queue = world.queue) :
    Linking registry after store := by
  obtain ⟨undisturbed, relinking⟩ := linking
  refine ⟨undisturbed.of_same write queue, ?_⟩
  rw [write, queue]
  exact relinking

/-- What the view of `target` lists of `source` is accounted for between two commands. -/
def Traced (registry : Registry) (world : World) (store : MemoryViews) (source target : Uuid) :
    Prop :=
  Accounted registry world.write store (agenda [] world.queue) source target

theorem Traced.of_same {registry : Registry} {source target : Uuid}
    (traced : Traced registry world store source target) (write : after.write = world.write)
    (queue : after.queue = world.queue) : Traced registry after store source target := by
  rw [Traced, write, queue]
  exact traced

theorem Traced.of_mended {registry : Registry} {source target : Uuid} (holds : world.Holds store)
    (mended : Mended world source target) : Traced registry world store source target := by
  rcases mended with ⟨message, listed, owner⟩ | shown
  · exact Or.inl ⟨message.rebuild, List.mem_map_of_mem listed, owner⟩
  · exact Or.inr fun view stored => Or.inl (shown view (by rw [holds.load, stored]))

theorem Linking.wrote {new : EntityRecord} {diff : Option (List String)}
    (ready : Command.Ready engine.registry world store) (linking : Linking engine.registry world store)
    (wrote : Wrote world.write new after.write)
    (queue : after.queue = { world.queue with
      primary := world.queue.primary ++ [.primary ⟨new.itemType, new.uuid⟩ (some new.sid) diff] }) :
    Linking engine.registry after store := by
  obtain ⟨undisturbed, relinking⟩ := linking
  refine ⟨undisturbed.wrote wrote queue, ?_⟩
  rw [agenda_between undisturbed.deferred] at relinking
  rw [queue, agenda_added undisturbed.deferred]
  exact relinking.wrote ready.consistent wrote

/-- A put leaves accounted for what was, or is missed. -/
theorem Traced.wrote {new : EntityRecord} {diff : Option (List String)} {source target : Uuid}
    (traced : Traced engine.registry world store source target) (apart : source ≠ target)
    (ready : Command.Ready engine.registry world store)
    (linking : Linking engine.registry world store)
    (holds : after.Holds store) (wrote : Wrote world.write new after.write)
    (queue : after.queue = { world.queue with
      primary := world.queue.primary ++ [.primary ⟨new.itemType, new.uuid⟩ (some new.sid) diff] }) :
    Traced engine.registry after store source target ∨
      source = new.uuid ∧ Missed after source target := by
  by_cases missed : source = new.uuid ∧ Missed after source target
  · exact Or.inr missed
  apply Or.inl
  obtain ⟨undisturbed, relinking⟩ := linking
  have deferred : after.queue.deferred = [] := by
    rw [queue]
    exact undisturbed.deferred
  rw [Traced, agenda_between undisturbed.deferred] at traced
  rw [agenda_between undisturbed.deferred] at relinking
  rw [Traced, queue, agenda_added undisturbed.deferred]
  apply traced.wrote relinking (strict_secondary undisturbed) ready.consistent wrote
  -- The put is not missed, so one of the four ways to miss it fails.
  intro here view stored unowed stale
  have idle : ∀ message ∈ after.queue.waitingMessages, message.uuid ≠ target := by
    intro message listed owner
    refine unowed ⟨message.rebuild, ?_, owner⟩
    have coming : message.rebuild ∈ agenda [] after.queue := List.mem_map_of_mem listed
    rwa [queue, agenda_added undisturbed.deferred] at coming
  have unshown : ¬ Shown after source target := fun shown =>
    stale (shown view (by rw [holds.load, stored]))
  have noticed := fun unnoticed => missed ⟨here, apart, idle, unshown, unnoticed⟩
  constructor
  · intro rebuild first
    rw [List.find?_map] at first
    obtain ⟨message, next, rfl⟩ := Option.map_eq_some_iff.mp first
    refine Bool.eq_false_iff.mpr fun strict => noticed (Or.inl ⟨message, ?_, strict⟩)
    rw [queue, List.find?_append]
    exact Option.or_eq_some_iff.mpr (Or.inl next)
  · intro none
    refine Classical.byContradiction fun dropped => noticed (Or.inr ⟨?_, dropped⟩)
    rw [holds.load, none]

theorem Linking.requeued {options : ReindexOptions} {messages : List Message}
    (ready : Command.Ready engine.registry world store) (linking : Linking engine.registry world store)
    (requests : Service.Requests world.write.Lives (options.strict || options.types.isNone) messages)
    (complete : options.types = none → options.skipPropagation = false →
      ∀ uuid record, world.write.record? uuid = some record →
        (∃ message ∈ messages, message.uuid = uuid) ∨ Freshness.IsFresh world.write store uuid)
    (write : after.write = world.write)
    (queue : after.queue = { Service.requeueBase options world.queue with
      primary := (Service.requeueBase options world.queue).primary ++ messages }) :
    Linking engine.registry after store ∧ ∀ source target, source ≠ target →
      Traced engine.registry world store source target →
        Traced engine.registry after store source target := by
  obtain ⟨undisturbed, relinking⟩ := linking
  have still := undisturbed.requeued requests write queue
  have lives : ∀ rebuild ∈ messages.map Message.rebuild, world.write.Lives rebuild.uuid := by
    intro rebuild listed
    obtain ⟨message, held, rfl⟩ := List.mem_map.mp listed
    exact (requests message held).1
  unfold Service.requeueBase at queue
  split at queue
  -- A run over all types drops what waits and accounts for every view anew.
  · rename_i total
    simp only [Bool.and_eq_true, Option.isNone_iff_eq_none, Bool.not_eq_true'] at total
    have waiting : after.queue.waitingMessages = messages := by
      rw [waitingMessages_eq still.deferred, queue]
      exact List.append_nil messages
    have covers : ∀ uuid, world.write.Lives uuid → Pending (messages.map Message.rebuild) uuid ∨
        Freshness.IsFresh world.write store uuid := by
      rintro uuid ⟨record, found⟩
      apply (complete total.1 total.2 uuid record found).imp_left
      rintro ⟨message, listed, same⟩
      exact ⟨message.rebuild, List.mem_map_of_mem listed, same⟩
    refine ⟨⟨still, ?_⟩, ?_⟩
    · rw [write, agenda, waiting]
      exact relinking.refreshed lives covers
    · intro source target apart _
      rw [Traced, write, agenda, waiting]
      exact .refreshed relinking ready.consistent ready.mirrored covers apart
  · refine ⟨⟨still, ?_⟩, ?_⟩
    · rw [write, queue, agenda_added undisturbed.deferred]
      rw [agenda_between undisturbed.deferred] at relinking
      exact relinking.added lives
    · intro source target _ traced
      rw [Traced, write, queue, agenda_added undisturbed.deferred]
      rw [Traced, agenda_between undisturbed.deferred] at traced
      exact traced.added (strict_secondary undisturbed)

theorem Linking.batch {deliveries : List Delivery} {started last : World}
    (ready : Command.Ready engine.registry world store) (linking : Linking engine.registry world store)
    (taken : Queue.Taken world.queue deliveries started.queue) (onward : world.Onward started)
    (cycles : Cycles engine world.write.maxSid deliveries started store last views) :
    Linking engine.registry last views ∧ ∀ source target, source ≠ target →
      Traced engine.registry world store source target →
        Traced engine.registry last views source target := by
  obtain ⟨undisturbed, relinking⟩ := linking
  have sound := taken.sound_between ready.queue
  have calm := undisturbed.taken taken onward.write
  have same := agenda_taken undisturbed.deferred taken
  have consistent : Consistent engine.registry started.write := onward.write ▸ ready.consistent
  rw [same, ← onward.write] at relinking
  obtain ⟨still, final, keeps⟩ := Relinking.cycles cycles consistent ready.mirrored sound calm
    relinking (by rw [onward.write])
  refine ⟨⟨still, cycles.write.symm ▸ final⟩, fun source target apart traced => ?_⟩
  rw [Traced, same, ← onward.write] at traced
  rw [Traced, cycles.write]
  exact keeps source target apart traced

/-- A steady command keeps what is accounted for, unless it is a put that a view misses. -/
theorem Linking.effect {command : Command} (steady : command.isSteady = true)
    (ready : Command.Ready engine.registry world store)
    (readyAfter : Command.Ready engine.registry (Command.after engine world command) views)
    (linking : Linking engine.registry world store)
    (effect : Command.Effect engine world store (Command.after engine world command) views
      command) :
    Linking engine.registry (Command.after engine world command) views ∧
      ∀ source target, source ≠ target → Traced engine.registry world store source target →
        Traced engine.registry (Command.after engine world command) views source target ∨
          source ∈ command.written? ∧ Missed (Command.after engine world command) source target := by
  cases effect with
  | still write queue stored =>
    rw [stored]
    exact ⟨linking.of_same write queue, fun _ _ _ traced => Or.inl (traced.of_same write queue)⟩
  | failing => cases steady
  | wrote new diff wrote told queue stored =>
    subst stored
    refine ⟨linking.wrote ready wrote queue, fun source target apart traced => ?_⟩
    apply (traced.wrote apart ready linking readyAfter.holds wrote queue).imp_right
    rintro ⟨rfl, missed⟩
    exact ⟨rfl, missed⟩
  | purged => cases steady
  | requeued messages requests complete write queue stored =>
    rw [stored]
    obtain ⟨requeued, keeps⟩ := linking.requeued ready requests complete write queue
    exact ⟨requeued, fun source target apart traced => Or.inl (keeps source target apart traced)⟩
  | @batch size deliveries started last taken onward cycles write queue failures =>
    obtain ⟨done, keeps⟩ := @Linking.batch (engine.taking size) _ _ _ _ _ _ ready linking taken
      onward cycles
    have same := write.trans (cycles.write.trans onward.write).symm
    exact ⟨done.of_same same queue, fun source target apart traced =>
      Or.inl ((keeps source target apart traced).of_same same queue)⟩

/-- Through a whole run a view stays accounted for, and is so again where its misses were
mended. -/
theorem linking_run (target : Uuid) (commands : List Command)
    (steady : ∀ command ∈ commands, command.isSteady = true)
    (ready : Command.Ready engine.registry world store)
    (linking : Linking engine.registry world store) :
    ∃ views, Command.Ready engine.registry (Command.run engine commands world) views ∧
      Linking engine.registry (Command.run engine commands world) views ∧
      (MissesMended engine target commands world → ∀ source, source ≠ target →
        Traced engine.registry world store source target ∨
          MendedAlong engine source target commands world →
        Traced engine.registry (Command.run engine commands world) views source target) := by
  -- Along the run each source is accounted for, or will be once its miss is mended.
  induction commands generalizing world store with
  | nil =>
    refine ⟨store, ready, linking, fun _ source _ either => ?_⟩
    exact either.elim id (Traced.of_mended ready.holds)
  | cons command rest ih =>
    obtain ⟨between, readyAfter, effect, -⟩ := Command.steps ready command
    obtain ⟨linkingAfter, keeps⟩ := linking.effect (steady command List.mem_cons_self) ready
      readyAfter effect
    obtain ⟨views, readyRun, linkingRun, accounts⟩ := ih
      (fun later listed => steady later (List.mem_cons_of_mem _ listed)) readyAfter linkingAfter
    refine ⟨views, readyRun, linkingRun, fun misses source apart either => ?_⟩
    apply accounts misses.2 source apart
    rcases either with traced | mended | later
    · exact (keeps source target apart traced).imp_right fun ⟨put, missed⟩ =>
        misses.1 source put missed
    · exact (keeps source target apart (.of_mended ready.holds mended)).imp_right
        fun ⟨put, missed⟩ => misses.1 source put missed
    · exact Or.inr later

theorem Linking.start (registry : Registry) :
    Linking registry (.start (.memory .empty)) .empty where
  undisturbed := ⟨rfl, rfl, fun _ listed => absurd listed List.not_mem_nil, fun _ listed =>
    absurd listed List.not_mem_nil⟩
  relinking := .start

/-- A view is reported for its reverse links when they are not the edges into its entity. -/
theorem mem_reasonsIn_iff {write : WriteStore} {view : View} {record : EntityRecord}
    (found : write.record? view.uuid = some record) :
    StaleReason.revLinksChanged ∈ Freshness.reasonsIn write view ↔
      view.revLinks ≠ .ofEdges view.uuid (write.revLinks view.uuid) := by
  have entity : StaleReason.revLinksChanged ∉ Freshness.entityReasons view record.sid := by
    unfold Freshness.entityReasons
    split <;> simp
  have linked : StaleReason.revLinksChanged ∉ Freshness.linkReasons view
      (write.currentSids (view.uuid :: view.linked.toList)) := by
    intro listed
    obtain ⟨linked, -, told⟩ := List.mem_filterMap.mp listed
    split at told
    · split at told <;> cases told
    · cases told
  rw [Freshness.reasonsIn, found]
  simp only [List.mem_append, entity, linked, or_false, false_or]
  rw [Freshness.revLinkReasons]
  by_cases same : ReverseLinks.ofEdges view.uuid (write.revLinks view.uuid) = view.revLinks
  · rw [if_pos same]
    exact iff_of_false List.not_mem_nil fun apart => apart same.symm
  · rw [if_neg same]
    exact iff_of_true List.mem_cons_self (Ne.symm same)

/-- The state of an entity that is there names reverse links when they are not current. -/
theorem stale_iff {write : WriteStore} {view : View} {record : EntityRecord}
    (stored : store.views.get? view.uuid = some view)
    (found : write.record? view.uuid = some record) :
    (∀ reasons, Freshness.stateIn write store view.uuid = .stale reasons →
        StaleReason.revLinksChanged ∉ reasons) ↔
      view.revLinks = .ofEdges view.uuid (write.revLinks view.uuid) := by
  have reported := mem_reasonsIn_iff found
  rw [Freshness.stateIn, stored]
  dsimp only
  revert reported
  cases Freshness.reasonsIn write view with
  | nil =>
    intro reported
    refine iff_of_true (fun _ never => by cases never) (Classical.byContradiction fun apart => ?_)
    cases reported.mpr apart
  | cons first others =>
    intro reported
    constructor
    · intro unnamed
      exact Classical.byContradiction fun apart => unnamed _ rfl (reported.mpr apart)
    · intro same reasons told listed
      cases told
      exact reported.mp listed same

/-- When a run of puts, reindexing and batches has come to rest, the view of an entity lists the
edges into it, and is not reported for its reverse links, exactly if every put that the view
missed was mended later in the run. -/
theorem rev_links_converge (engine : Engine) (commands : List Command)
    (steady : ∀ command ∈ commands, command.isSteady = true)
    (idle : (Command.worldAfter engine commands).queue.isIdle = true) (uuid : Uuid)
    (lives : ((Command.worldAfter engine commands).write.record? uuid).isSome = true) :
    ∃ view state,
      ((Action.view uuid).on (Command.worldAfter engine commands)).1 = .ok view ∧
      ((Freshness.checkView uuid).on (Command.worldAfter engine commands)).1 = .ok state ∧
      (MissesMended engine uuid commands (.start (.memory .empty)) ↔
        view.revLinks = .ofEdges uuid ((Command.worldAfter engine commands).write.revLinks uuid)) ∧
      (MissesMended engine uuid commands (.start (.memory .empty)) ↔
        ∀ reasons, state = .stale reasons → StaleReason.revLinksChanged ∉ reasons) ∧
      (MissesMended engine uuid commands (.start (.memory .empty)) →
        ∀ field source, source ∈ view.revLinks.getD field {} ↔ source ≠ uuid ∧ ∃ linking,
          (Command.worldAfter engine commands).write.record? source = some linking ∧
            (⟨field, uuid⟩ : Link) ∈ linking.links) := by
  obtain ⟨views, ready, ⟨undisturbed, relinking⟩, accounts⟩ := linking_run uuid commands steady
    (.start engine.registry) (.start engine.registry)
  -- With nothing on the agenda, what the run accounts for is settled and no view is owed.
  have rest : agenda [] (Command.run engine commands (.start (.memory .empty))).queue = [] := by
    have waiting := Queue.waitingMessages_of_isIdle idle
    rw [Command.worldAfter] at waiting
    rw [agenda, waiting]
    rfl
  unfold Traced at accounts
  rw [rest] at relinking accounts
  obtain ⟨record, found⟩ := Option.isSome_iff_exists.mp lives
  have unowed : ¬ Pending [] uuid := by
    rintro ⟨_, listed, -⟩
    cases listed
  obtain ⟨view, stored⟩ := (relinking.present uuid ⟨record, found⟩).resolve_left unowed
  obtain rfl := ready.mirrored.own uuid view stored
  obtain ⟨stats, looked⟩ := view_on ready.calm ready.holds view.uuid
  rw [stored] at looked
  obtain ⟨more, checked⟩ := Freshness.checkView_peeks ready.calm ready.holds view.uuid
  have current := eq_revLinks_iff ready.consistent (relinking.gathered view.uuid view stored)
  have mended : MissesMended engine view.uuid commands (.start (.memory .empty)) ↔
      ∀ source, source ≠ view.uuid → Shows
        (Command.run engine commands (.start (.memory .empty))).write view.revLinks source
          view.uuid := by
    constructor
    · intro misses source apart
      exact (accounts misses source apart (Or.inl (Or.inr fun _ none => by cases none))).settled
        stored
    · intro shows
      refine .of_shown fun source apart held loaded => ?_
      rw [ready.holds.load, stored] at loaded
      cases loaded
      exact shows source apart
  refine ⟨view, _, congrArg Prod.fst looked, congrArg Prod.fst checked, mended.trans current.symm,
    mended.trans (current.symm.trans (stale_iff stored found).symm), ?_⟩
  intro misses field source
  have shown := mended.mp misses
  rw [current.mpr shown, mem_ofEdges]
  refine and_congr_right fun _ => ?_
  constructor
  · rintro ⟨⟨_, ⟨_, _⟩⟩, listed, rfl, rfl⟩
    obtain ⟨rfl, links⟩ := (ready.consistent.mem_revLinks_iff view.uuid _).mp listed
    exact links
  · intro links
    exact ⟨⟨source, ⟨field, view.uuid⟩⟩,
      (ready.consistent.mem_revLinks_iff view.uuid _).mpr ⟨rfl, links⟩, rfl, rfl⟩

/-- A book passes from one author to another before it has a view, and later all authors are
reindexed. -/
def bookPassed : List Command := [
  .edit (.put ⟨1⟩ ⟨"Author"⟩ (.ofText "name" "Ann") none),
  .edit (.put ⟨2⟩ ⟨"Author"⟩ (.ofText "name" "Eve") none),
  .edit (.put ⟨3⟩ ⟨"Book"⟩ (.ofText "author" (Uuid.text ⟨1⟩)) none),
  .processBatch 2,
  .edit (.put ⟨3⟩ ⟨"Book"⟩ (.ofText "author" (Uuid.text ⟨2⟩)) none),
  .processBatch 10,
  .reindex ⟨some [⟨"Author"⟩], false, false, true⟩,
  .processBatch 10,
  .processBatch 10]

/-- The view of the first author misses that the book passes on, and the reindex mends it. -/
theorem passed_book_is_listed :
    (Command.worldAfter (.precise .books) bookPassed).queue.isIdle = true ∧
      Missed (Command.worldAfter (.precise .books) (bookPassed.take 5)) ⟨3⟩ ⟨1⟩ ∧
      ∃ left kept,
        ((Action.view ⟨1⟩).on (Command.worldAfter (.precise .books) bookPassed)).1 = .ok left ∧
        ((Action.view ⟨2⟩).on (Command.worldAfter (.precise .books) bookPassed)).1 = .ok kept ∧
        left.revLinks = {} ∧ ⟨3⟩ ∈ kept.revLinks.getD "author" {} := by
  have steady : ∀ command ∈ bookPassed, command.isSteady = true := by decide
  have idle : (Command.worldAfter (.precise .books) bookPassed).queue.isIdle = true := by
    decide +kernel
  have none : ReverseLinks.ofEdges ⟨1⟩
      ((Command.worldAfter (.precise .books) bookPassed).write.revLinks ⟨1⟩) = {} := by
    decide +kernel
  have linking : ((Command.worldAfter (.precise .books) bookPassed).write.record? ⟨3⟩).map
      (fun record => decide ((⟨"author", ⟨2⟩⟩ : Link) ∈ record.links.toList)) = some true := by
    decide +kernel
  obtain ⟨left, _, lookedLeft, -, listed, -⟩ := rev_links_converge (.precise .books) bookPassed
    steady idle ⟨1⟩ (by decide +kernel)
  obtain ⟨kept, _, lookedKept, -, -, -, lists⟩ := rev_links_converge (.precise .books) bookPassed
    steady idle ⟨2⟩ (by decide +kernel)
  obtain ⟨book, found, author⟩ := Option.map_eq_some_iff.mp linking
  refine ⟨idle, by decide +kernel, left, kept, lookedLeft, lookedKept,
    (listed.mp (by decide +kernel)).trans none, ?_⟩
  exact (lists (by decide +kernel) "author" ⟨3⟩).mpr
    ⟨by decide, book, found, (of_decide_eq_true author : _ ∈ _)⟩

/-- A book loses its author before it has a view. -/
def authorDropped : List Command := [
  .edit (.put ⟨1⟩ ⟨"Author"⟩ (.ofText "name" "Ann") none),
  .edit (.put ⟨2⟩ ⟨"Book"⟩ (.ofText "author" (Uuid.text ⟨1⟩)) none),
  .processBatch 1,
  .edit (.put ⟨2⟩ ⟨"Book"⟩ {} none),
  .processBatch 1,
  .processBatch 1,
  .processBatch 1]

/-- The view of the author lists the book for ever: the first rebuild of the book has no earlier
sheet to compare with. -/
theorem dropped_author_stays_listed :
    (Command.worldAfter (.precise .books) authorDropped).queue.isIdle = true ∧
      (Command.worldAfter (.precise .books) authorDropped).failures.entries = [] ∧
      (Command.worldAfter (.precise .books) authorDropped).write.revLinks ⟨1⟩ = {} ∧
      (∃ view, ((Action.view ⟨1⟩).on
          (Command.worldAfter (.precise .books) authorDropped)).1 = .ok view ∧
        ⟨2⟩ ∈ view.revLinks.getD "author" {}) ∧
      ((Freshness.checkView ⟨1⟩).on (Command.worldAfter (.precise .books) authorDropped)).1 =
        .ok (.stale [.revLinksChanged]) := by
  have listed : ((Action.view ⟨1⟩).on
      (Command.worldAfter (.precise .books) authorDropped)).1.toOption.map
        (fun view => decide (⟨2⟩ ∈ (view.revLinks.getD "author" {}).toList)) = some true := by
    decide +kernel
  obtain ⟨view, looked, listing⟩ := Action.ok_of_seen _ listed
  refine ⟨by decide +kernel, by decide +kernel, by decide +kernel,
    ⟨view, looked, of_decide_eq_true listing⟩, Action.ok_of_toOption ?_⟩
  decide +kernel

end Convergence

end CachedViews
