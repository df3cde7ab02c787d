import CachedViews.Proofs.Convergence.ReverseLinks
import CachedViews.Proofs.Queue.Owing

/-!
Views that list an entity after it was purged. A purge queues the targets that the entity links
at that moment, but a view lists what the entity linked when the view was built: the view of a
former target that nothing else rebuilds is overlooked, and lists the purged entity for ever.
-/
namespace CachedViews

namespace Command

/-- Everything but making writes of views fail. -/
def isFaultless : Command → Bool
  | failPuts _ => false
  | _ => true

theorem worldAfter_concat (engine : Engine) (earlier : List Command) (command : Command) :
    worldAfter engine (earlier ++ [command]) = after engine (worldAfter engine earlier) command := by
  rw [worldAfter, run, List.foldl_append]
  rfl

end Command

namespace Convergence

open CachedViews.Action WriteStore Indexing

variable {engine : Engine} {registry : Registry} {world after : World} {write next : WriteStore}
  {store views : MemoryViews} {pending others : List Rebuild} {source target : Uuid}
  {delivery : Delivery} {rest : List Delivery}

/-- The stored view of `target` lists `source` among its reverse links. -/
def Lists (world : World) (source target : Uuid) : Prop :=
  ∃ view, world.read.load target = .ok (some view) ∧ ∃ field, source ∈ view.revLinks.getD field {}

/-- The view of `target` lists an entity that is gone, and no rebuild of it is to come. -/
structure Forgotten (world : World) (source target : Uuid) : Prop where
  gone : ¬ world.write.Lives source
  listed : Lists world source target
  unowed : ¬ world.queue.Owes target

/-- A purge of `source` that leaves the view of `target` alone, though it lists `source`: nothing
waits for `target`, and `source` links it no more. -/
structure Overlooked (world : World) (source target : Uuid) : Prop where
  apart : target ≠ source
  purged : ((Service.purge source).on world).1 = .ok ()
  listed : Lists world source target
  unowed : ¬ world.queue.Owes target
  unlinked : ¬ ∃ field, Links world.write source field target

/-- A purge of `source` in a run overlooks `target`, and nothing has mended that since. -/
def OverlookedIn (engine : Engine) (commands : List Command) (source target : Uuid) : Prop :=
  ∃ earlier later, commands = earlier ++ .edit (.purge source) :: later ∧
    Overlooked (Command.worldAfter engine earlier) source target ∧
    ∀ part, part <+: later →
      Forgotten (Command.worldAfter engine (earlier ++ .edit (.purge source) :: part)) source target

instance (write : WriteStore) (uuid : Uuid) : Decidable (write.Lives uuid) :=
  decidable_of_iff ((write.record? uuid).isSome = true) Option.isSome_iff_exists

instance (world : World) (source target : Uuid) : Decidable (Lists world source target) :=
  match loaded : world.read.load target with
  | .ok (some view) =>
    decidable_of_iff (∃ field ∈ view.revLinks.keys, source ∈ view.revLinks.getD field {}) <| by
      rw [Lists, loaded]
      constructor
      · exact fun ⟨field, _, inside⟩ => ⟨view, rfl, field, inside⟩
      · rintro ⟨_, same, field, inside⟩
        cases same
        exact ⟨field, mem_keys_of_listed inside, inside⟩
  | .ok none => isFalse fun ⟨_, found, _⟩ => by
      rw [loaded] at found
      cases found
  | .error _ => isFalse fun ⟨_, found, _⟩ => by
      rw [loaded] at found
      cases found

instance (world : World) (source target : Uuid) : Decidable (Forgotten world source target) :=
  decidable_of_iff (¬ world.write.Lives source ∧ Lists world source target ∧
    ¬ world.queue.Owes target)
    ⟨fun ⟨gone, listed, unowed⟩ => ⟨gone, listed, unowed⟩,
      fun ⟨gone, listed, unowed⟩ => ⟨gone, listed, unowed⟩⟩

/-- The view of `target` is to be rebuilt, or lists `source` only if that is there. -/
def Noted (write : WriteStore) (store : MemoryViews) (pending : List Rebuild)
    (source target : Uuid) : Prop :=
  Pending pending target ∨ ∀ view, store.views.get? target = some view →
    ∀ field, source ∈ view.revLinks.getD field {} → write.Lives source

theorem Noted.mono (noted : Noted write store pending source target)
    (waits : Pending pending target → Pending others target)
    (lives : write.Lives source → next.Lives source) : Noted next store others source target :=
  noted.imp waits fun lists view stored field inside => lives (lists view stored field inside)

theorem owes_iff_pending {queue : Queue} (sound : Queue.Sound queue []) (uuid : Uuid) :
    queue.Owes uuid ↔ Pending (agenda [] queue) uuid := by
  rw [Queue.owes_iff_waitsFor sound, agenda, List.map_nil, List.nil_append]
  constructor
  · rintro ⟨message, listed, owner⟩
    exact ⟨message.rebuild, List.mem_map_of_mem listed, owner⟩
  · rintro ⟨_, listed, owner⟩
    obtain ⟨message, held, rfl⟩ := List.mem_map.mp listed
    exact ⟨message, held, owner⟩

theorem forgotten_iff (ready : Command.Ready registry world store) (source target : Uuid) :
    Forgotten world source target ↔ ¬ Noted world.write store (agenda [] world.queue) source target := by
  constructor
  · rintro ⟨gone, ⟨view, loaded, field, inside⟩, unowed⟩ (waits | lists)
    · exact unowed ((owes_iff_pending ready.queue target).mpr waits)
    · rw [ready.holds.load] at loaded
      exact gone (lists view (Except.ok.inj loaded) field inside)
  · intro unnoted
    refine ⟨fun lives => unnoted (Or.inr fun _ _ _ _ => lives), ?_, fun owes =>
      unnoted (Or.inl ((owes_iff_pending ready.queue target).mp owes))⟩
    apply Classical.byContradiction
    intro unlisted
    refine unnoted (Or.inr fun view stored field inside => absurd ⟨view, ?_, field, inside⟩ unlisted)
    rw [ready.holds.load, stored]

/-- The edges of the write store come from entities that are there. -/
theorem lives_of_mem_revLinks (consistent : Consistent registry write) {field : String}
    (inside : source ∈ (ReverseLinks.ofEdges target (write.revLinks target)).getD field {}) :
    write.Lives source := by
  obtain ⟨-, ⟨_, link⟩, listed, rfl, -⟩ := (mem_ofEdges _ _ _ _).mp inside
  obtain ⟨-, record, found, -⟩ := (consistent.mem_revLinks_iff target _).mp listed
  exact ⟨record, found⟩

section

variable (concluded : Concluded engine delivery world store after views)
include concluded

theorem Concluded.known (known : Known world.write store) : Known world.write views := by
  intro uuid held there
  cases concluded with
  | removed missing stored queue =>
    rw [stored, MemoryViews.delete_views] at there
    split at there
    · cases there
    · exact known uuid held there
  | indexed record cache view added found built stored fanned =>
    rw [stored, MemoryViews.put_views] at there
    split at there
    · rename_i here
      cases there
      have own : uuid = record.uuid := by
        rw [here, built]
        rfl
      rw [own, record?_uuid found, built]
      exact ⟨record, found, Int.le_refl _⟩
    · exact known uuid held there

/-- A delivery rebuilds the view of its entity from the edges of the write store, or removes it;
any other view is still to be rebuilt if it was before. -/
theorem Concluded.noted (consistent : Consistent engine.registry world.write)
    (deferred : world.queue.deferred = [])
    (noted : Noted world.write store (agenda (delivery :: rest) world.queue) source target) :
    Noted world.write views (agenda rest after.queue) source target := by
  have waits : target ≠ delivery.message.uuid →
      Pending (agenda (delivery :: rest) world.queue) target →
        Pending (agenda rest world.queue) target := by
    rintro apart ⟨rebuild, listed, owner⟩
    rcases List.mem_cons.mp listed with rfl | waiting
    · exact absurd owner.symm apart
    · exact ⟨rebuild, waiting, owner⟩
  by_cases here : target = delivery.message.uuid
  · refine Or.inr fun held there field inside => ?_
    cases concluded with
    | removed missing stored queue =>
      rw [stored, MemoryViews.delete_views, if_pos here] at there
      cases there
    | indexed record cache view added found built stored fanned =>
      have own : view.uuid = target := by
        rw [here, ← record?_uuid found, built]
        rfl
      rw [stored, MemoryViews.put_views, if_pos own.symm] at there
      cases there
      rw [built] at inside
      exact lives_of_mem_revLinks consistent inside
  · cases concluded with
    | removed missing stored queue =>
      rw [stored, queue]
      refine noted.imp (waits here) fun lists held there => lists held ?_
      rwa [MemoryViews.delete_views, if_neg here] at there
    | indexed record cache view added found built stored fanned =>
      have apart : target ≠ view.uuid := by
        rw [built]
        exact fun same => here (same.trans (record?_uuid found))
      rw [stored, agenda_fanned deferred fanned]
      refine noted.imp (fun before => (waits here before).append) fun lists held there =>
        lists held ?_
      rwa [MemoryViews.put_views, if_neg apart] at there

end

theorem Noted.cycles {snapshot : Sid} {deliveries : List Delivery}
    (cycles : Cycles engine snapshot deliveries world store after views)
    (consistent : Consistent engine.registry world.write)
    (sound : Queue.Sound world.queue (deliveries.map Delivery.receipt))
    (undisturbed : Undisturbed deliveries world store) (known : Known world.write store)
    (covered : snapshot = world.write.maxSid) :
    Undisturbed [] after views ∧ Known after.write views ∧ ∀ source target,
      Noted world.write store (agenda deliveries world.queue) source target →
        Noted after.write views (agenda [] after.queue) source target := by
  induction cycles with
  | done world store => exact ⟨undisturbed, known, fun _ _ => id⟩
  | @next delivery rest world middle after store views last onward handled later ih =>
    subst covered
    have concluded := undisturbed.concluded known sound handled
    have calm := undisturbed.handled concluded consistent onward.write
    obtain ⟨still, final, keeps⟩ := ih (onward.write ▸ consistent) (handled.sound sound) calm
      (onward.write ▸ concluded.known known) (by rw [onward.write])
    refine ⟨still, final, fun source target noted => keeps source target ?_⟩
    rw [onward.write]
    exact concluded.noted consistent undisturbed.deferred noted

/-- Between two commands of a run without faults nothing waits that will be put off. -/
structure Smooth (world : World) (store : MemoryViews) : Prop where
  undisturbed : Undisturbed [] world store
  known : Known world.write store

theorem Smooth.start : Smooth (.start (.memory .empty)) .empty where
  undisturbed := ⟨rfl, rfl, fun _ listed => absurd listed List.not_mem_nil, fun _ listed =>
    absurd listed List.not_mem_nil⟩
  known _ _ stored := by cases stored

/-- What a purge queues are the entities left among the given ones. -/
theorem mem_unlinkedMessages {targets : List Uuid} (lives : write.Lives target) :
    (∃ message ∈ Service.unlinkedMessages write targets, message.uuid = target) ↔
      target ∈ targets := by
  constructor
  · rintro ⟨message, listed, rfl⟩
    obtain ⟨key, queued, rfl⟩ := List.mem_map.mp listed
    exact ((mem_keysIn_iff write targets key).mp queued).1
  · intro listed
    obtain ⟨record, found⟩ := lives
    obtain rfl := record?_uuid found
    refine ⟨.secondary record.key none, List.mem_map_of_mem ?_, rfl⟩
    exact (mem_keysIn_iff write targets record.key).mpr ⟨listed, itemTypeOf_of_record? found⟩

/-- A purge queues the entities that the purged one links now, and no others. -/
theorem owes_after_purge {gone : Uuid} {record : EntityRecord}
    (sound : Queue.Sound world.queue []) (found : world.write.record? gone = some record)
    (queue : after.queue = (world.queue.send .secondary world.now (Service.unlinkedMessages
      after.write ((record.links.toList.map Link.target).filter fun other => other ≠ gone))).2)
    (apart : target ≠ gone) (lives : after.write.Lives target) :
    after.queue.Owes target ↔
      world.queue.Owes target ∨ ∃ field, Links world.write gone field target := by
  have sent := Queue.sent_secondary sound world.now (Service.unlinkedMessages after.write
    ((record.links.toList.map Link.target).filter fun other => other ≠ gone))
  rw [queue, Queue.owes_iff_waitsFor (sent.sound sound), Queue.owes_iff_waitsFor sound,
    sent.waitsFor_iff, mem_unlinkedMessages lives]
  refine or_congr_right ?_
  rw [List.mem_filter, List.mem_map]
  constructor
  · rintro ⟨⟨link, listed, rfl⟩, -⟩
    exact ⟨link.field, record, found, listed⟩
  · rintro ⟨field, links⟩
    exact ⟨⟨⟨field, target⟩, (links_iff found field).mp links, rfl⟩, decide_eq_true apart⟩

theorem Known.wrote {new : EntityRecord} (known : Known write store)
    (consistent : Consistent registry write) (wrote : Wrote write new next) : Known next store := by
  intro uuid view stored
  obtain ⟨record, found, below⟩ := known uuid view stored
  by_cases here : uuid = new.uuid
  · refine ⟨new, here ▸ wrote.record?_new, Int.le_trans below ?_⟩
    exact Int.le_of_lt (Int.lt_of_le_of_lt (consistent.record_sid_le found) wrote.old_sid_lt)
  · exact ⟨record, (wrote.record?_of_ne here).trans found, below⟩

theorem Known.purged {gone : Uuid} (known : Known write store) (purged : Purged write gone next) :
    Known next (store.delete gone).2 := by
  intro uuid view stored
  rw [MemoryViews.delete_views] at stored
  split at stored
  · cases stored
  · rename_i apart
    rw [purged.record?_of_ne apart]
    exact known uuid view stored

theorem Undisturbed.purged {gone : Uuid} {targets : List Uuid}
    (undisturbed : Undisturbed [] world store) (sound : Queue.Sound world.queue [])
    (watermark : after.write.maxSid = world.write.maxSid)
    (queue : after.queue = (world.queue.send .secondary world.now
      (Service.unlinkedMessages after.write targets)).2) :
    Undisturbed [] after (store.delete gone).2 := by
  obtain ⟨deferred, failing, strict, stamps⟩ := undisturbed
  have sent := Queue.sent_secondary sound world.now (Service.unlinkedMessages after.write targets)
  rw [← queue] at sent
  have still : after.queue.deferred = [] := sent.deferred.trans deferred
  refine ⟨still, (store.delete_failingPuts gone).trans failing, fun message listed => ?_,
    fun message listed sid stamped => ?_⟩
  · obtain ⟨added, drawn, same⟩ := sent.rebuilds
    have inside : message.rebuild ∈ after.queue.secondary.map Message.rebuild :=
      List.mem_map_of_mem listed
    rw [same] at inside
    rcases List.mem_append.mp inside with old | new
    · obtain ⟨before, held, alike⟩ := List.mem_map.mp old
      exact (congrArg Rebuild.strict alike).symm.trans (strict before held)
    · obtain ⟨other, held, alike⟩ := List.mem_map.mp new
      obtain ⟨key, -, rfl⟩ := List.mem_map.mp (drawn other held)
      exact (congrArg Rebuild.strict alike).symm
  · rw [waitingMessages_eq still, sent.primary, List.map_nil, List.nil_append] at listed
    rw [waitingMessages_eq deferred, List.map_nil, List.nil_append] at stamps
    rw [watermark]
    rcases List.mem_append.mp listed with primary | secondary
    · exact stamps message (List.mem_append_left _ primary) sid stamped
    · obtain ⟨before, held, stamp, at_, below⟩ := sent.sids message secondary sid stamped
      rcases List.mem_append.mp held with old | new
      · exact Int.le_trans below (stamps before (List.mem_append_right _ old) stamp at_)
      · obtain ⟨key, -, rfl⟩ := List.mem_map.mp new
        cases at_

/-- A reindex drops what waits only if each view is rebuilt or fresh. -/
theorem Noted.requeued {options : ReindexOptions} {messages : List Message}
    (ready : Command.Ready registry world store) (smooth : Smooth world store)
    (still : Undisturbed [] after store)
    (complete : options.types = none → options.skipPropagation = false →
      ∀ uuid record, world.write.record? uuid = some record →
        (∃ message ∈ messages, message.uuid = uuid) ∨ Freshness.IsFresh world.write store uuid)
    (queue : after.queue = { Service.requeueBase options world.queue with
      primary := (Service.requeueBase options world.queue).primary ++ messages })
    (noted : Noted world.write store (agenda [] world.queue) source target) :
    Noted world.write store (agenda [] after.queue) source target := by
  unfold Service.requeueBase at queue
  split at queue
  · rename_i total
    simp only [Bool.and_eq_true, Option.isNone_iff_eq_none, Bool.not_eq_true'] at total
    by_cases waits : ∃ message ∈ messages, message.uuid = target
    · obtain ⟨message, listed, owner⟩ := waits
      refine Or.inl ⟨message.rebuild, List.mem_map_of_mem ?_, owner⟩
      rw [List.map_nil, List.nil_append, waitingMessages_eq still.deferred, queue]
      exact List.mem_append_left _ (List.mem_append_right _ listed)
    · refine Or.inr fun view stored field inside => ?_
      obtain ⟨record, found, -⟩ := smooth.known target view stored
      obtain ⟨fresh, there, none⟩ := (complete total.1 total.2 target record found).resolve_left waits
      rw [stored] at there
      cases there
      obtain ⟨_, matched⟩ := (Freshness.reasonsIn_eq_nil_iff view).mp none
      rw [← matched.revLinks] at inside
      exact lives_of_mem_revLinks ready.consistent inside
  · rw [queue, agenda_added smooth.undisturbed.deferred]
    rw [agenda_between smooth.undisturbed.deferred] at noted
    exact noted.mono Pending.between id

/-- A purge that removed something ended well. -/
theorem purge_ended {gone : Uuid} {record : EntityRecord}
    (ready : Command.Ready registry world store) (found : world.write.record? gone = some record)
    (purged : Purged world.write gone
      (Command.after engine world (.edit (.purge gone))).write) :
    ((Service.purge gone).on world).1 = .ok () := by
  rcases Service.purge_cases ready.calm ready.consistent ready.holds gone with
    ⟨error, ended⟩ | ⟨_, _, _, -, ended, -⟩
  · have missing := (purged.records gone).trans (if_pos rfl)
    rw [Command.after, Command.action, Edit.action, ended] at missing
    exact absurd (missing.symm.trans found) (Option.some_ne_none record).symm
  · exact congrArg Prod.fst ended

/-- A purge leaves a view that lists the purged entity alone, or all that was noted is so still. -/
theorem Noted.purged {gone : Uuid} {record : EntityRecord}
    (ready : Command.Ready registry world store)
    (readyAfter : Command.Ready registry (Command.after engine world (.edit (.purge gone))) views)
    (known : Known world.write store) (found : world.write.record? gone = some record)
    (purged : Purged world.write gone (Command.after engine world (.edit (.purge gone))).write)
    (queue : (Command.after engine world (.edit (.purge gone))).queue =
      (world.queue.send .secondary world.now (Service.unlinkedMessages
        (Command.after engine world (.edit (.purge gone))).write
        ((record.links.toList.map Link.target).filter fun target => target ≠ gone))).2)
    (noted : Noted world.write store (agenda [] world.queue) source target) :
    Noted (Command.after engine world (.edit (.purge gone))).write (store.delete gone).2
        (agenda [] (Command.after engine world (.edit (.purge gone))).queue) source target ∨
      source = gone ∧ Overlooked world source target := by
  by_cases here : target = gone
  · refine Or.inl (Or.inr fun view stored => ?_)
    rw [MemoryViews.delete_views, if_pos here] at stored
    cases stored
  have lives : ∀ view, store.views.get? target = some view →
      (Command.after engine world (.edit (.purge gone))).write.Lives target := by
    intro view stored
    obtain ⟨current, there, -⟩ := known target view stored
    exact ⟨current, (purged.record?_of_ne here).trans there⟩
  by_cases owes : (Command.after engine world (.edit (.purge gone))).queue.Owes target
  · exact Or.inl (Or.inl ((owes_iff_pending readyAfter.queue target).mp owes))
  by_cases same : source = gone
  · subst same
    by_cases listed : Lists world source target
    · apply Or.inr
      obtain ⟨view, loaded, -⟩ := id listed
      rw [ready.holds.load] at loaded
      have whether := owes_after_purge ready.queue found queue here
        (lives view (Except.ok.inj loaded))
      exact ⟨rfl, here, purge_ended ready found purged, listed,
        fun before => owes (whether.mpr (Or.inl before)),
        fun links => owes (whether.mpr (Or.inr links))⟩
    · refine Or.inl (Or.inr fun view stored field inside => absurd ⟨view, ?_, field, inside⟩ listed)
      rw [MemoryViews.delete_views, if_neg here] at stored
      rw [ready.holds.load, stored]
  · refine Or.inl (Or.inr fun view stored field inside => ?_)
    rw [MemoryViews.delete_views, if_neg here] at stored
    rcases noted with waits | lists
    · have before := (owes_iff_pending ready.queue target).mpr waits
      exact absurd ((owes_after_purge ready.queue found queue here (lives view stored)).mpr
        (Or.inl before)) owes
    · obtain ⟨current, there⟩ := lists view stored field inside
      exact ⟨current, (purged.record?_of_ne same).trans there⟩

/-- Only a purge that overlooks a view makes it list what is gone. -/
theorem Smooth.effect {command : Command} (faultless : command.isFaultless = true)
    (ready : Command.Ready engine.registry world store)
    (readyAfter : Command.Ready engine.registry (Command.after engine world command) views)
    (smooth : Smooth world store)
    (effect : Command.Effect engine world store (Command.after engine world command) views
      command) :
    Smooth (Command.after engine world command) views ∧ ∀ source target,
      Noted world.write store (agenda [] world.queue) source target →
        Noted (Command.after engine world command).write views
            (agenda [] (Command.after engine world command).queue) source target ∨
          command = .edit (.purge source) ∧ Overlooked world source target := by
  obtain ⟨undisturbed, known⟩ := smooth
  cases effect with
  | still write queue stored =>
    subst stored
    refine ⟨⟨undisturbed.of_same write queue, write ▸ known⟩, fun source target noted => Or.inl ?_⟩
    rw [write, queue]
    exact noted
  | failing => cases faultless
  | wrote new diff wrote told queue stored =>
    subst stored
    refine ⟨⟨undisturbed.wrote wrote queue, known.wrote ready.consistent wrote⟩,
      fun source target noted => Or.inl ?_⟩
    rw [queue, agenda_added undisturbed.deferred]
    rw [agenda_between undisturbed.deferred] at noted
    exact noted.mono Pending.between wrote.lives
  | purged record found purged queue stored =>
    subst stored
    refine ⟨⟨undisturbed.purged ready.queue purged.watermark queue, known.purged purged⟩,
      fun source target noted => ?_⟩
    apply (noted.purged ready readyAfter known found purged queue).imp_right
    rintro ⟨rfl, overlooked⟩
    exact ⟨rfl, overlooked⟩
  | requeued messages requests complete write queue stored =>
    subst stored
    have still := undisturbed.requeued requests write queue
    refine ⟨⟨still, write ▸ known⟩, fun source target noted => Or.inl ?_⟩
    rw [write]
    exact noted.requeued ready ⟨undisturbed, known⟩ still complete queue
  | @batch size deliveries started last taken onward cycles write queue failures =>
    obtain ⟨still, final, keeps⟩ := Noted.cycles cycles (onward.write ▸ ready.consistent)
      (taken.sound_between ready.queue) (undisturbed.taken taken onward.write)
      (onward.write ▸ known) (by rw [onward.write])
    have same := write.trans (cycles.write.trans onward.write).symm
    refine ⟨⟨still.of_same same queue, same ▸ final⟩, fun source target noted => Or.inl ?_⟩
    rw [same, queue]
    apply keeps
    rw [onward.write, ← agenda_taken undisturbed.deferred taken]
    exact noted

theorem OverlookedIn.later {commands : List Command} {command : Command}
    (overlooked : OverlookedIn engine commands source target)
    (forgotten : Forgotten (Command.worldAfter engine (commands ++ [command])) source target) :
    OverlookedIn engine (commands ++ [command]) source target := by
  obtain ⟨earlier, later, rfl, missed, ongoing⟩ := overlooked
  refine ⟨earlier, later ++ [command], by simp, missed, fun part inside => ?_⟩
  rcases List.prefix_concat_iff.mp inside with rfl | before
  · rwa [← List.cons_append, ← List.append_assoc]
  · exact ongoing part before

/-- Whatever the views list that is gone was overlooked by a purge of the commands so far. -/
structure Explained (engine : Engine) (commands : List Command) (store : MemoryViews) : Prop where
  ready : Command.Ready engine.registry (Command.worldAfter engine commands) store
  smooth : Smooth (Command.worldAfter engine commands) store
  overlooked : ∀ source target, Forgotten (Command.worldAfter engine commands) source target →
    OverlookedIn engine commands source target

theorem Explained.start (engine : Engine) : Explained engine [] .empty where
  ready := .start engine.registry
  smooth := .start
  overlooked _ _ forgotten := by
    obtain ⟨_, loaded, -⟩ := forgotten.listed
    cases loaded

theorem Explained.step {commands : List Command} {command : Command}
    (explained : Explained engine commands store) (faultless : command.isFaultless = true) :
    ∃ views, Explained engine (commands ++ [command]) views := by
  obtain ⟨ready, smooth, overlooked⟩ := explained
  obtain ⟨views, readyAfter, effect, -⟩ := Command.steps ready command
  obtain ⟨smoothAfter, keeps⟩ := smooth.effect faultless ready readyAfter effect
  rw [← Command.worldAfter_concat] at readyAfter smoothAfter
  refine ⟨views, readyAfter, smoothAfter, fun source target forgotten => ?_⟩
  by_cases before : Forgotten (Command.worldAfter engine commands) source target
  · exact (overlooked source target before).later forgotten
  -- The view was all right so far, so the command is the purge that overlooks it.
  · have noted := Classical.not_not.mp fun unnoted =>
      before ((forgotten_iff ready source target).mpr unnoted)
    have unnoted := (forgotten_iff readyAfter source target).mp forgotten
    rw [Command.worldAfter_concat] at unnoted
    obtain ⟨rfl, missed⟩ := (keeps source target noted).resolve_left unnoted
    refine ⟨commands, [], rfl, missed, fun part inside => ?_⟩
    rw [List.prefix_nil.mp inside]
    exact forgotten

theorem Explained.run {earlier : List Command} (explained : Explained engine earlier store)
    (later : List Command) (faultless : ∀ command ∈ later, command.isFaultless = true) :
    ∃ views, Explained engine (earlier ++ later) views := by
  induction later generalizing earlier store with
  | nil => exact ⟨store, (List.append_nil earlier).symm ▸ explained⟩
  | cons command rest ih =>
    obtain ⟨between, further⟩ := explained.step (faultless command List.mem_cons_self)
    obtain ⟨views, last⟩ := ih further fun other listed =>
      faultless other (List.mem_cons_of_mem _ listed)
    exact ⟨views, List.append_cons earlier command rest ▸ last⟩

/-- In a run without faults a purge that succeeds queues, of the other entities that are there,
exactly those that the purged one links at that moment. So a view goes on listing an entity that
is gone exactly if a purge overlooked it and nothing has rebuilt it since; and when the run has
come to rest, views list none but entities that are there exactly if that never happened. -/
theorem purged_entities_stay_listed_iff (engine : Engine) (commands : List Command)
    (faultless : ∀ command ∈ commands, command.isFaultless = true) :
    (∀ uuid, ((Service.purge uuid).on (Command.worldAfter engine commands)).1 = .ok () →
      ∀ target, target ≠ uuid →
        (Command.worldAfter engine (commands ++ [.edit (.purge uuid)])).write.Lives target →
          ((Command.worldAfter engine (commands ++ [.edit (.purge uuid)])).queue.Owes target ↔
            (Command.worldAfter engine commands).queue.Owes target ∨
              ∃ field, Links (Command.worldAfter engine commands).write uuid field target)) ∧
      (∀ source target, Forgotten (Command.worldAfter engine commands) source target ↔
        OverlookedIn engine commands source target) ∧
      ((Command.worldAfter engine commands).queue.isIdle = true →
        ((∀ source target, Lists (Command.worldAfter engine commands) source target →
            (Command.worldAfter engine commands).write.Lives source) ↔
          ∀ source target, ¬ OverlookedIn engine commands source target)) := by
  obtain ⟨views, ready, -, overlooked⟩ := (Explained.start engine).run commands faultless
  rw [List.nil_append] at ready overlooked
  have exactly : ∀ source target, Forgotten (Command.worldAfter engine commands) source target ↔
      OverlookedIn engine commands source target := by
    refine fun source target => ⟨overlooked source target, ?_⟩
    rintro ⟨earlier, later, rfl, -, ongoing⟩
    exact ongoing later (List.prefix_refl later)
  refine ⟨fun uuid ended target apart lives => ?_, exactly, fun idle => ?_⟩
  · rw [Command.worldAfter_concat] at lives ⊢
    rcases Service.purge_cases ready.calm ready.consistent ready.holds uuid with
      ⟨error, failed⟩ | ⟨record, next, read, found, removed, -⟩
    · rw [failed] at ended
      cases ended
    · refine owes_after_purge ready.queue found ?_ apart lives
      rw [Command.after, Command.action, Edit.action, removed]
  · have unowed : ∀ target, ¬ (Command.worldAfter engine commands).queue.Owes target := by
      intro target owes
      obtain ⟨message, listed, -⟩ := (Queue.owes_iff_waitsFor ready.queue target).mp owes
      rw [Queue.waitingMessages_of_isIdle idle] at listed
      cases listed
    constructor
    · intro lives source target missed
      have forgotten := (exactly source target).mpr missed
      exact forgotten.gone (lives source target forgotten.listed)
    · intro none source target listed
      apply Classical.byContradiction
      intro gone
      exact none source target ((exactly source target).mp ⟨gone, listed, unowed target⟩)

/-- A book passes from one author to another, and its rebuild still waits. -/
def bookPassing : List Command := [
  .edit (.put ⟨1⟩ ⟨"Author"⟩ (.ofText "name" "Ann") none),
  .edit (.put ⟨2⟩ ⟨"Author"⟩ (.ofText "name" "Eve") none),
  .edit (.put ⟨3⟩ ⟨"Book"⟩ (.ofText "author" (Uuid.text ⟨1⟩)) none),
  .processBatch 10,
  .processBatch 10,
  .edit (.put ⟨3⟩ ⟨"Book"⟩ (.ofText "author" (Uuid.text ⟨2⟩)) none)]

/-- The book is purged and all that waits is done. -/
def passingBookPurged : List Command :=
  bookPassing ++ [.edit (.purge ⟨3⟩), .processBatch 10, .processBatch 10]

/-- The purge queues the author that the book has now, and overlooks the one that it had. -/
theorem purge_overlooks_former_author :
    (Command.worldAfter (.precise .books) (bookPassing ++ [.edit (.purge ⟨3⟩)])).queue.Owes ⟨2⟩ ∧
      OverlookedIn (.precise .books) passingBookPurged ⟨3⟩ ⟨1⟩ ∧
      ¬ OverlookedIn (.precise .books) passingBookPurged ⟨3⟩ ⟨2⟩ := by
  have faultless : ∀ command ∈ bookPassing, command.isFaultless = true := by decide
  have purged : ((Service.purge ⟨3⟩).on
      (Command.worldAfter (.precise .books) bookPassing)).1 = .ok () := by
    apply Action.ok_of_toOption
    decide +kernel
  have linking : Links (Command.worldAfter (.precise .books) bookPassing).write ⟨3⟩ "author" ⟨2⟩ := by
    decide +kernel
  obtain ⟨queued, -, -⟩ := purged_entities_stay_listed_iff (.precise .books) bookPassing faultless
  obtain ⟨-, overlooked, -⟩ := purged_entities_stay_listed_iff (.precise .books) passingBookPurged
    (by decide)
  refine ⟨(queued ⟨3⟩ purged ⟨2⟩ (by decide) (by decide +kernel)).mpr (Or.inr ⟨_, linking⟩),
    (overlooked ⟨3⟩ ⟨1⟩).mp (by decide +kernel), fun missed => ?_⟩
  exact absurd ((overlooked ⟨3⟩ ⟨2⟩).mpr missed) (by decide +kernel)

/-- After the purge no rebuild of the former author's view waits though it lists the book, and so
it does for ever. -/
theorem former_author_lists_purged_book :
    (∀ command ∈ passingBookPurged, command.isFaultless = true) ∧
      ((Service.purge ⟨3⟩).on (Command.worldAfter (.precise .books) bookPassing)).1 = .ok () ∧
      (Command.worldAfter (.precise .books) (bookPassing ++ [.edit (.purge ⟨3⟩)])).write.Lives ⟨1⟩ ∧
      Lists (Command.worldAfter (.precise .books) (bookPassing ++ [.edit (.purge ⟨3⟩)])) ⟨3⟩ ⟨1⟩ ∧
      ¬ (Command.worldAfter (.precise .books)
        (bookPassing ++ [.edit (.purge ⟨3⟩)])).queue.Owes ⟨1⟩ ∧
      (Command.worldAfter (.precise .books) passingBookPurged).queue.isIdle = true ∧
      (Command.worldAfter (.precise .books) passingBookPurged).write.record? ⟨3⟩ = none ∧
      Lists (Command.worldAfter (.precise .books) passingBookPurged) ⟨3⟩ ⟨1⟩ ∧
      ((Freshness.checkView ⟨1⟩).on
        (Command.worldAfter (.precise .books) passingBookPurged)).1 =
          .ok (.stale [.revLinksChanged]) := by
  refine ⟨by decide, Action.ok_of_toOption ?_, by decide +kernel, by decide +kernel,
    by decide +kernel, by decide +kernel, Option.isNone_iff_eq_none.mp ?_, by decide +kernel,
    Action.ok_of_toOption ?_⟩ <;> decide +kernel

end Convergence

end CachedViews
