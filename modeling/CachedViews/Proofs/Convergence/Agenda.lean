import CachedViews.Proofs.Convergence.Relinking

/-!
Rebuilds in the order in which they are handled, and what one batch of them does to reverse
links. Without faults nothing is put off, and each message ends with a rebuilt view.
-/
namespace CachedViews

namespace Convergence

open CachedViews.Action WriteStore Indexing Invalidation

variable {engine : Engine} {world after : World} {store views : MemoryViews}
  {delivery : Delivery} {rest : List Delivery} {receipts : List Nat}

/-- Rebuilds to come, in the order in which they will be handled when none is put off. -/
def agenda (deliveries : List Delivery) (queue : Queue) : List Rebuild :=
  (deliveries.map Delivery.message ++ queue.waitingMessages).map Message.rebuild

/-- Nothing that is to be handled will be put off, and dependents wait behind all others. -/
structure Undisturbed (deliveries : List Delivery) (world : World) (store : MemoryViews) :
    Prop where
  deferred : world.queue.deferred = []
  failing : store.failingPuts = 0
  strict : ∀ message ∈ world.queue.secondary, message.strict = true
  stamps : ∀ message ∈ deliveries.map Delivery.message ++ world.queue.waitingMessages,
    ∀ sid, message.sid = some sid → sid ≤ world.write.maxSid

theorem agenda_cons (queue : Queue) :
    agenda (delivery :: rest) queue = delivery.message.rebuild :: agenda rest queue := rfl

theorem waitingMessages_eq {queue : Queue} (deferred : queue.deferred = []) :
    queue.waitingMessages = queue.primary ++ queue.secondary := by
  rw [Queue.waitingMessages, deferred, List.map_nil, List.append_nil]

theorem agenda_eq {queue : Queue} (deferred : queue.deferred = []) (deliveries : List Delivery) :
    agenda deliveries queue = (deliveries.map Delivery.message).map Message.rebuild ++
      queue.primary.map Message.rebuild ++ queue.secondary.map Message.rebuild := by
  rw [agenda, waitingMessages_eq deferred, List.map_append, List.map_append, List.append_assoc]

theorem agenda_between {queue : Queue} (deferred : queue.deferred = []) :
    agenda [] queue = queue.primary.map Message.rebuild ++ queue.secondary.map Message.rebuild :=
  agenda_eq deferred []

theorem agenda_added {queue : Queue} (deferred : queue.deferred = []) (messages : List Message) :
    agenda [] { queue with primary := queue.primary ++ messages } =
      queue.primary.map Message.rebuild ++ messages.map Message.rebuild ++
        queue.secondary.map Message.rebuild := by
  have none : ({ queue with primary := queue.primary ++ messages } : Queue).deferred = [] := deferred
  rw [agenda_between none, List.map_append]

theorem Undisturbed.not_refusable (undisturbed : Undisturbed (delivery :: rest) world store) :
    ¬ Refusable delivery.message world.write.maxSid store := by
  rintro (⟨sid, stamped, ahead⟩ | failing)
  · have below := undisturbed.stamps delivery.message List.mem_cons_self sid stamped
    exact absurd ahead (Int.not_lt.mpr below)
  · exact failing undisturbed.failing

theorem mem_baselineIn_of_scopeIn {write : WriteStore} {uuid : Uuid} {changed : ItemType}
    {diff : Option (List String)} {key : EntityKey}
    (selected : key ∈ scopeIn engine write store uuid changed diff) :
    key ∈ baselineIn write store uuid := by
  unfold scopeIn at selected
  split at selected
  · exact selected
  · split at selected
    · exact selected
    · split at selected
      · exact absurd selected (SortedSet.not_mem_emptyCollection _)
      · exact (SortedSet.mem_filter.mp selected).1

theorem lives_of_mem_keysIn {write : WriteStore} {registry : Registry}
    (consistent : Consistent registry write) {uuids : List Uuid} {key : EntityKey}
    (listed : key ∈ keysIn write uuids) : write.Lives key.uuid := by
  have typed := ((mem_keysIn_iff write uuids key).mp listed).2
  rw [consistent.itemTypeOf_eq] at typed
  obtain ⟨record, found, -⟩ := Option.map_eq_some_iff.mp typed
  exact ⟨record, found⟩

/-- Only entities that are there are queued after a rebuild. -/
theorem lives_of_mem_fanOut {write : WriteStore} {message : Message} {record : EntityRecord}
    {since : Option Sid} (consistent : Consistent engine.registry write)
    (mirrored : store.Mirrored)
    (known : ∀ uuid view, store.views.get? uuid = some view → write.Lives uuid) {key : EntityKey}
    (queued : key ∈ fanOut engine write store message record since) : write.Lives key.uuid := by
  rcases SortedSet.mem_union.mp queued with selected | target
  · have candidate := mem_baselineIn_of_scopeIn selected
    simp only [baselineIn, SortedSet.mem_filter, SortedSet.mem_ofList, List.mem_append] at candidate
    rcases candidate.1 with dependent | linking
    · obtain ⟨view, stored, -⟩ := (MemoryViews.mem_findDependents_iff mirrored _ _).mp dependent
      exact known key.uuid view stored
    · exact lives_of_mem_keysIn consistent linking
  · exact lives_of_mem_keysIn consistent (SortedSet.mem_ofList.mp target)

/-- What a rebuild leaves of the queue: strict rebuilds of dependents are added at its end. -/
structure Fanned (queue : Queue) (message : Message) (record : EntityRecord)
    (keys : SortedSet EntityKey) (after : Queue) (added : List Message) : Prop where
  primary : after.primary = queue.primary
  deferred : after.deferred = queue.deferred
  rebuilds : after.secondary.map Message.rebuild =
    queue.secondary.map Message.rebuild ++ added.map Message.rebuild
  selected : ∀ rebuild ∈ added.map Message.rebuild, ∃ key ∈ keys, rebuild.uuid = key.uuid ∧
    rebuild.strict = true
  stamps : ∀ waiting ∈ after.secondary, ∀ sid, waiting.sid = some sid →
    sid ≤ record.sid ∨ ∃ before ∈ queue.secondary, ∃ stamp, before.sid = some stamp ∧ sid ≤ stamp
  waits : message.strict = false → ∀ key ∈ keys, ∃ waiting ∈ after.secondary,
    waiting.uuid = key.uuid

theorem Fanned.acked {queue next : Queue} {message : Message} {record : EntityRecord}
    {keys : SortedSet EntityKey} {added : List Message}
    (fanned : Fanned queue message record keys next added) (receipt : Nat) :
    Fanned queue message record keys (next.ack receipt).2 added :=
  ⟨fanned.primary, fanned.deferred, fanned.rebuilds, fanned.selected, fanned.stamps, fanned.waits⟩

theorem fanned_of_queued {message : Message} {record : EntityRecord} {since : Option Sid}
    (sound : Queue.Sound world.queue receipts) :
    ∃ added, Fanned world.queue message record
      (fanOut engine world.write store message record since)
      (queued engine world store message record since) added := by
  rw [queued]
  by_cases strict : message.strict = true
  · rw [if_pos strict]
    refine ⟨[], rfl, rfl, (List.append_nil _).symm, fun _ listed => absurd listed List.not_mem_nil,
      fun waiting listed sid stamped => Or.inr ⟨waiting, listed, sid, stamped, Int.le_refl _⟩, ?_⟩
    intro lenient
    rw [strict] at lenient
    cases lenient
  · rw [if_neg strict]
    have sent := Queue.sent_secondary sound world.now (secondaries message record
      (fanOut engine world.write store message record since))
    obtain ⟨added, drawn, same⟩ := sent.rebuilds
    refine ⟨added, sent.primary, sent.deferred, same, ?_, ?_, fun _ key listed => ?_⟩
    · intro rebuild listed
      obtain ⟨other, inside, rfl⟩ := List.mem_map.mp listed
      obtain ⟨key, held, rfl⟩ := List.mem_map.mp (drawn other inside)
      exact ⟨key, held, rfl, rfl⟩
    · intro waiting listed sid stamped
      obtain ⟨before, inside, stamp, at_, below⟩ := sent.sids waiting listed sid stamped
      rcases List.mem_append.mp inside with old | new
      · exact Or.inr ⟨before, old, stamp, at_, below⟩
      · obtain ⟨key, -, rfl⟩ := List.mem_map.mp new
        cases at_
        exact Or.inl below
    · exact sent.waits _ (List.mem_map_of_mem listed)

theorem Undisturbed.fanned {message : Message} {record : EntityRecord}
    {keys : SortedSet EntityKey} {added : List Message}
    (undisturbed : Undisturbed (delivery :: rest) world store)
    (fanned : Fanned world.queue message record keys after.queue added)
    (below : record.sid ≤ world.write.maxSid) (write : after.write = world.write)
    (failing : views.failingPuts = store.failingPuts) : Undisturbed rest after views where
  deferred := fanned.deferred.trans undisturbed.deferred
  failing := failing.trans undisturbed.failing
  strict message listed := by
    have inside : message.rebuild ∈ after.queue.secondary.map Message.rebuild :=
      List.mem_map_of_mem listed
    rw [fanned.rebuilds] at inside
    rcases List.mem_append.mp inside with old | new
    · obtain ⟨before, held, same⟩ := List.mem_map.mp old
      exact (congrArg Rebuild.strict same).symm.trans (undisturbed.strict before held)
    · obtain ⟨_, -, -, strict⟩ := fanned.selected _ new
      exact strict
  stamps message listed sid stamped := by
    rw [write]
    rw [waitingMessages_eq (fanned.deferred.trans undisturbed.deferred), fanned.primary] at listed
    have before := undisturbed.stamps
    rw [waitingMessages_eq undisturbed.deferred] at before
    rcases List.mem_append.mp listed with delivered | waiting
    · exact before message (List.mem_append_left _ (List.mem_cons_of_mem _ delivered)) sid stamped
    · rcases List.mem_append.mp waiting with primary | secondary
      · exact before message (List.mem_append_right _ (List.mem_append_left _ primary)) sid stamped
      · rcases fanned.stamps message secondary sid stamped with new | ⟨old, held, stamp, at_, less⟩
        · exact Int.le_trans new below
        · exact Int.le_trans less
            (before old (List.mem_append_right _ (List.mem_append_right _ held)) stamp at_)

theorem agenda_fanned {message : Message} {record : EntityRecord} {keys : SortedSet EntityKey}
    {queue next : Queue} {added : List Message} (deferred : queue.deferred = [])
    (fanned : Fanned queue message record keys next added) :
    agenda rest next = agenda rest queue ++ added.map Message.rebuild := by
  rw [agenda_eq deferred, agenda_eq (fanned.deferred.trans deferred), fanned.primary,
    fanned.rebuilds, ← List.append_assoc]

/-- Targets that a rebuild notices are queued after it. -/
theorem mem_fanOut_of_noticed {write : WriteStore} {message : Message} {record target : EntityRecord}
    {since : Option Sid} (there : write.record? target.uuid = some target)
    (noticed : target.uuid ∈
      changedTargets record.uuid (linkSets engine.registry write record since)) :
    target.key ∈ fanOut engine write store message record since := by
  apply SortedSet.mem_union.mpr
  apply Or.inr
  apply SortedSet.mem_ofList.mpr
  rw [mem_keysIn_iff]
  exact ⟨noticed, itemTypeOf_of_record? there⟩

/-- Stored views belong to entities that are there, also after a rebuild. -/
theorem Relinking.lives_of_put {pending : List Rebuild} {view : View} {record : EntityRecord}
    (relinking : Relinking engine.registry world.write store pending)
    (found : world.write.record? view.uuid = some record) (uuid : Uuid) (held : View)
    (stored : (store.put view).views.get? uuid = some held) : world.write.Lives uuid := by
  rw [MemoryViews.put_views] at stored
  split at stored
  · rename_i here
    exact ⟨record, here ▸ found⟩
  · obtain ⟨current, now, -⟩ := relinking.known uuid held stored
    exact ⟨current, now⟩

/-- Every view belongs to an entity that is there, and none is newer than its record. -/
def Known (write : WriteStore) (store : MemoryViews) : Prop :=
  ∀ uuid view, store.views.get? uuid = some view →
    ∃ record, write.record? uuid = some record ∧ view.sid ≤ record.sid

/-- How a delivery ends when nothing is put off: the view of an entity that is gone is removed,
any other is rebuilt and what follows from it is queued. -/
inductive Concluded (engine : Engine) (delivery : Delivery) (world : World) (store : MemoryViews)
    (after : World) (views : MemoryViews) : Prop where
  | removed (missing : world.write.record? delivery.message.uuid = none)
    (stored : views = (store.delete delivery.message.uuid).2)
    (queue : after.queue = (world.queue.ack delivery.receipt).2) :
    Concluded engine delivery world store after views
  | indexed (record : EntityRecord) (cache : RecordCache) (view : View) (added : List Message)
    (found : world.write.record? delivery.message.uuid = some record)
    (built : view = (Embedding.resolution engine.registry world.write cache
      (engine.registry.embedPaths record.itemType) record).toView world.write.maxSid)
    (stored : views = store.put view)
    (fanned : Fanned world.queue delivery.message record
      (fanOut engine world.write (store.put view) delivery.message record
        ((store.views.get? delivery.message.uuid).map View.sid)) after.queue added) :
    Concluded engine delivery world store after views

theorem Undisturbed.concluded (undisturbed : Undisturbed (delivery :: rest) world store)
    (known : Known world.write store) (sound : Queue.Sound world.queue receipts)
    (handled : Handled engine delivery world.write.maxSid world store after views) :
    Concluded engine delivery world store after views := by
  cases handled with
  | lost refusable _ _ _ _ _ => exact absurd refusable undisturbed.not_refusable
  | postponed refusable _ _ _ _ _ _ => exact absurd refusable undisturbed.not_refusable
  | done _ middle rebuilt queue =>
    cases rebuilt with
    | removed _ missing stored left => exact .removed missing stored (by rw [queue, left])
    | outdated _ record view found held newer _ _ =>
      obtain ⟨current, there, below⟩ := known _ view held
      rw [found] at there
      cases there
      exact absurd newer (Int.not_lt.mpr below)
    | indexed _ record resolution cache found resolved _ _ stored left =>
      obtain ⟨added, spread⟩ := fanned_of_queued sound
      rw [← left] at spread
      have fanned := spread.acked delivery.receipt
      rw [← queue] at fanned
      exact .indexed record cache _ added found (by rw [resolved]) stored fanned

theorem Undisturbed.handled (undisturbed : Undisturbed (delivery :: rest) world store)
    (concluded : Concluded engine delivery world store after views)
    (consistent : Consistent engine.registry world.write) (write : after.write = world.write) :
    Undisturbed rest after views := by
  cases concluded with
  | removed missing stored queue =>
    obtain ⟨deferred, failing, strict, stamps⟩ := undisturbed
    refine ⟨?_, ?_, ?_, fun message listed => ?_⟩
    · rw [queue]
      exact deferred
    · rw [stored, MemoryViews.delete_failingPuts]
      exact failing
    · rw [queue]
      exact strict
    · rw [queue] at listed
      rw [write]
      exact stamps message (List.mem_cons_of_mem _ listed)
  | indexed record cache view added found built stored fanned =>
    rw [stored]
    exact undisturbed.fanned fanned (consistent.record_sid_le found) write rfl

/-- What is accounted for stays accounted for. -/
def Keeps (registry : Registry) (write : WriteStore) (store : MemoryViews)
    (pending : List Rebuild) (views : MemoryViews) (left : List Rebuild) : Prop :=
  ∀ source target, source ≠ target → Accounted registry write store pending source target →
    Accounted registry write views left source target

theorem Relinking.indexed {record : EntityRecord} {cache : RecordCache} {view : View}
    {added : List Message} (consistent : Consistent engine.registry world.write)
    (mirrored : store.Mirrored) (undisturbed : Undisturbed (delivery :: rest) world store)
    (relinking : Relinking engine.registry world.write store
      (agenda (delivery :: rest) world.queue))
    (found : world.write.record? delivery.message.uuid = some record)
    (built : view = (Embedding.resolution engine.registry world.write cache
      (engine.registry.embedPaths record.itemType) record).toView world.write.maxSid)
    (fanned : Fanned world.queue delivery.message record
      (fanOut engine world.write (store.put view) delivery.message record
        ((store.views.get? delivery.message.uuid).map View.sid)) after.queue added) :
    Relinking engine.registry world.write (store.put view) (agenda rest after.queue) ∧
      Keeps engine.registry world.write store (agenda (delivery :: rest) world.queue)
        (store.put view) (agenda rest after.queue) := by
  have same : record.uuid = delivery.message.uuid := record?_uuid found
  have own : view.uuid = delivery.message.uuid := by
    rw [built, ← same]
    rfl
  have stamped : view.sid = record.sid := by
    rw [built]
    rfl
  have shown : view.revLinks =
      .ofEdges delivery.message.uuid (world.write.revLinks delivery.message.uuid) := by
    rw [built, ← same]
    rfl
  have reached : ∀ rebuild ∈ added.map Message.rebuild, world.write.Lives rebuild.uuid := by
    intro rebuild listed
    obtain ⟨key, inside, owner, -⟩ := fanned.selected rebuild listed
    rw [owner]
    exact lives_of_mem_fanOut consistent (mirrored.put _)
      (relinking.lives_of_put (own ▸ found)) inside
  have noticed : delivery.message.strict = false → ∀ changed ∈ changedTargets
      delivery.message.uuid (linkSets engine.registry world.write record
        ((store.views.get? delivery.message.uuid).map View.sid)),
      world.write.Lives changed →
        Pending (agenda rest world.queue ++ added.map Message.rebuild) changed := by
    rintro lenient changed noticed ⟨current, now⟩
    obtain rfl := record?_uuid now
    obtain ⟨waiting, inside, owner⟩ := fanned.waits lenient current.key
      (mem_fanOut_of_noticed now (same.symm ▸ noticed))
    rw [← agenda_fanned undisturbed.deferred fanned,
      agenda_eq (fanned.deferred.trans undisturbed.deferred)]
    exact ⟨waiting.rebuild, List.mem_append_right _ (List.mem_map_of_mem inside), owner⟩
  rw [agenda_fanned undisturbed.deferred fanned]
  rw [agenda_cons] at relinking ⊢
  constructor
  · exact relinking.rebuilt consistent found own shown stamped reached
  · intro source target apart accounted
    exact Accounted.rebuilt relinking consistent found own shown accounted apart noticed

/-- Handling a message leads from relinking to relinking: as nothing is refused and everything
that waits is there, each message ends with a rebuilt view. -/
theorem Relinking.handled (consistent : Consistent engine.registry world.write)
    (sound : Queue.Sound world.queue receipts) (mirrored : store.Mirrored)
    (undisturbed : Undisturbed (delivery :: rest) world store)
    (relinking : Relinking engine.registry world.write store
      (agenda (delivery :: rest) world.queue))
    (handled : Handled engine delivery world.write.maxSid world store after views)
    (write : after.write = world.write) :
    Undisturbed rest after views ∧
      Relinking engine.registry world.write views (agenda rest after.queue) ∧
      Keeps engine.registry world.write store (agenda (delivery :: rest) world.queue)
        views (agenda rest after.queue) := by
  have concluded := undisturbed.concluded relinking.known sound handled
  refine ⟨undisturbed.handled concluded consistent write, ?_⟩
  cases concluded with
  | removed missing stored queue =>
    obtain ⟨record, found⟩ := relinking.live delivery.message.rebuild List.mem_cons_self
    exact absurd (missing.symm.trans found) (Option.some_ne_none record).symm
  | indexed record cache view added found built stored fanned =>
    rw [stored]
    exact relinking.indexed consistent mirrored undisturbed found built fanned

theorem Relinking.cycles {snapshot : Sid} {deliveries : List Delivery}
    (cycles : Cycles engine snapshot deliveries world store after views)
    (consistent : Consistent engine.registry world.write) (mirrored : store.Mirrored)
    (sound : Queue.Sound world.queue (deliveries.map Delivery.receipt))
    (undisturbed : Undisturbed deliveries world store)
    (relinking : Relinking engine.registry world.write store (agenda deliveries world.queue))
    (covered : snapshot = world.write.maxSid) :
    Undisturbed [] after views ∧
      Relinking engine.registry world.write views (agenda [] after.queue) ∧
      Keeps engine.registry world.write store (agenda deliveries world.queue)
        views (agenda [] after.queue) := by
  -- No cycle writes, so the watermark of the batch covers every message to its end.
  induction cycles with
  | done world store => exact ⟨undisturbed, relinking, fun _ _ _ => id⟩
  | @next delivery rest world middle after store views last onward handled later ih =>
    subst covered
    obtain ⟨calm, further, keeps⟩ := relinking.handled consistent sound mirrored undisturbed
      handled onward.write
    rw [← onward.write] at further consistent
    obtain ⟨still, final, keepsRest⟩ := ih consistent (handled.mirrored mirrored)
      (handled.sound sound) calm further (by rw [onward.write])
    rw [onward.write] at final keepsRest
    refine ⟨still, final, fun source target apart accounted => ?_⟩
    exact keepsRest source target apart (keeps source target apart accounted)

theorem Undisturbed.of_same (undisturbed : Undisturbed [] world store)
    (write : after.write = world.write) (queue : after.queue = world.queue) :
    Undisturbed [] after store := by
  obtain ⟨deferred, failing, strict, stamps⟩ := undisturbed
  rw [← queue] at deferred strict stamps
  rw [← write] at stamps
  exact ⟨deferred, failing, strict, stamps⟩

/-- Messages added to the primary lane disturb nothing when their stamps are covered. -/
theorem Undisturbed.added {messages : List Message} (undisturbed : Undisturbed [] world store)
    (queue : after.queue = { world.queue with primary := world.queue.primary ++ messages })
    (grows : world.write.maxSid ≤ after.write.maxSid)
    (stamps : ∀ message ∈ messages, ∀ sid, message.sid = some sid → sid ≤ after.write.maxSid) :
    Undisturbed [] after store := by
  obtain ⟨deferred, failing, strict, before⟩ := undisturbed
  have still : after.queue.deferred = [] := by
    rw [queue]
    exact deferred
  refine ⟨still, failing, by rw [queue]; exact strict, ?_⟩
  intro message listed sid stamped
  rw [waitingMessages_eq deferred, List.map_nil, List.nil_append] at before
  rw [waitingMessages_eq still, queue, List.map_nil, List.nil_append] at listed
  rcases List.mem_append.mp listed with primary | secondary
  · rcases List.mem_append.mp primary with old | new
    · exact Int.le_trans (before message (List.mem_append_left _ old) sid stamped) grows
    · exact stamps message new sid stamped
  · exact Int.le_trans (before message (List.mem_append_right _ secondary) sid stamped) grows

theorem Undisturbed.wrote {new : EntityRecord} {diff : Option (List String)}
    (undisturbed : Undisturbed [] world store) (wrote : Wrote world.write new after.write)
    (queue : after.queue = { world.queue with
      primary := world.queue.primary ++ [.primary ⟨new.itemType, new.uuid⟩ (some new.sid) diff] }) :
    Undisturbed [] after store := by
  refine undisturbed.added queue (Change.wrote new wrote).maxSid_le ?_
  intro message listed sid stamped
  rw [List.mem_singleton.mp listed] at stamped
  cases stamped
  exact Int.le_of_eq (wrote.stamped.trans wrote.watermark.symm)

/-- What a reindex queues has no stamps, and what it drops cannot be put off. -/
theorem Undisturbed.requeued {options : ReindexOptions} {messages : List Message} {strict : Bool}
    (undisturbed : Undisturbed [] world store)
    (requests : Service.Requests world.write.Lives strict messages)
    (write : after.write = world.write)
    (queue : after.queue = { Service.requeueBase options world.queue with
      primary := (Service.requeueBase options world.queue).primary ++ messages }) :
    Undisturbed [] after store := by
  have stamps : ∀ message ∈ messages, ∀ sid, message.sid = some sid → sid ≤ after.write.maxSid := by
    intro message listed sid stamped
    rw [(requests message listed).2.2] at stamped
    cases stamped
  unfold Service.requeueBase at queue
  split at queue
  · have none : after.queue.deferred = [] := by
      rw [queue]
      rfl
    refine ⟨none, undisturbed.failing, fun message listed => ?_, ?_⟩
    · rw [queue] at listed
      cases listed
    · rw [waitingMessages_eq none, queue]
      exact (List.append_nil messages).symm ▸ stamps
  · exact undisturbed.added queue (Int.le_of_eq (congrArg WriteStore.maxSid write).symm) stamps

theorem Undisturbed.taken {deliveries : List Delivery} (undisturbed : Undisturbed [] world store)
    (taken : Queue.Taken world.queue deliveries after.queue) (write : after.write = world.write) :
    Undisturbed deliveries after store := by
  obtain ⟨none, order⟩ := taken.ordered undisturbed.deferred
  refine ⟨none, undisturbed.failing, fun message listed => ?_, fun message listed => ?_⟩
  · exact undisturbed.strict message (taken.secondary message listed)
  · rw [← order] at listed
    rw [write]
    exact undisturbed.stamps message listed

/-- Taking messages off the lanes leaves the order in which they are handled. -/
theorem agenda_taken {deliveries : List Delivery} {queue next : Queue}
    (deferred : queue.deferred = []) (taken : Queue.Taken queue deliveries next) :
    agenda [] queue = agenda deliveries next := by
  rw [agenda, List.map_nil, List.nil_append, (taken.ordered deferred).2]
  rfl

theorem strict_secondary (undisturbed : Undisturbed [] world store) :
    ∀ rebuild ∈ world.queue.secondary.map Message.rebuild, rebuild.strict = true := by
  intro rebuild listed
  obtain ⟨message, held, rfl⟩ := List.mem_map.mp listed
  exact undisturbed.strict message held

end Convergence

end CachedViews
