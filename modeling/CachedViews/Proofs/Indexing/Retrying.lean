import CachedViews.Proofs.Indexing.Faulty
import CachedViews.Proofs.Service.Commands

/-!
A message that is tried again after its cycle failed. Failed cycles queue nothing. One of them may
have stored the view all the same, and then the cycle that succeeds finds no links changed since:
it queues what the change selects, but no longer the targets of the changed links.
-/
namespace CachedViews

namespace Queue

/-- The secondary lane is the same, and so are its marks. -/
structure SameLane (before after : Queue) : Prop where
  secondary : after.secondary = before.secondary
  marks : after.waitingSecondary = before.waitingSecondary

/-- A message for the entity waits on the secondary lane. -/
def Seconds (queue : Queue) (uuid : Uuid) : Prop :=
  ∃ message ∈ queue.secondary, message.uuid = uuid

instance (queue : Queue) (uuid : Uuid) : Decidable (queue.Seconds uuid) :=
  inferInstanceAs (Decidable (∃ message ∈ queue.secondary, message.uuid = uuid))

theorem SameLane.trans {first second third : Queue} (one : first.SameLane second)
    (two : second.SameLane third) : first.SameLane third :=
  ⟨two.secondary.trans one.secondary, two.marks.trans one.marks⟩

theorem SameLane.seconds_iff {before after : Queue} (same : before.SameLane after) (uuid : Uuid) :
    after.Seconds uuid ↔ before.Seconds uuid := by
  rw [Seconds, Seconds, same.secondary]

end Queue

/-- The records, the views and the secondary lane are the same. Either store may be out of reach
in one of the worlds and not in the other. -/
structure World.Alike (before after : World) : Prop where
  write : ∃ available, after.write = { before.write with available }
  views : ∀ store, before.Holds store →
    ∃ available failingPuts, after.Holds { store with available, failingPuts }
  lane : before.queue.SameLane after.queue

theorem World.Alike.of_same {before after : World} (write : after.write = before.write)
    (read : after.read = before.read) (lane : before.queue.SameLane after.queue) :
    before.Alike after where
  write := ⟨before.write.available, write⟩
  views store holds := ⟨store.available, store.failingPuts, holds.of_read read⟩
  lane := lane

theorem World.Alike.refl (world : World) : world.Alike world := .of_same rfl rfl ⟨rfl, rfl⟩

theorem World.Alike.disturbed (world : World) (faults : Faults) :
    world.Alike { world with faults } := .of_same rfl rfl ⟨rfl, rfl⟩

theorem World.Alike.trans {first second third : World} (one : first.Alike second)
    (two : second.Alike third) : first.Alike third where
  write := by
    obtain ⟨early, here⟩ := one.write
    obtain ⟨late, there⟩ := two.write
    exact ⟨late, by rw [there, here]⟩
  views store holds := by
    obtain ⟨early, left, here⟩ := one.views store holds
    exact two.views { store with available := early, failingPuts := left } here
  lane := one.lane.trans two.lane

namespace Indexing

open CachedViews.Action WriteStore Invalidation

variable {engine : Engine} {registry : Registry} {start world last next after : World}
  {store views : MemoryViews} {message : Message} {record : EntityRecord} {snapshot : Sid}

/-- Cycles for one message that failed one after the other, with no writes in between. Each may
fail wherever a store is called or its time runs out. -/
inductive Retried (engine : Engine) (message : Message) (start : World) : World → Prop where
  | first {world : World} (alike : start.Alike world) : Retried engine message start world
  | again {last failed next : World} {attempts : UInt32} {snapshot : Sid} {error : EngineError}
    (before : Retried engine message start last) (truthful : last.Truthful)
    (ended : (rebuild engine { message with attempts } snapshot).on last = (.error error, failed))
    (alike : failed.Alike next) : Retried engine message start next

/-- The write store and the index of the views are right, and entities that are marked as waiting
on the secondary lane wait there. -/
structure Intact (registry : Registry) (world : World) (store : MemoryViews) : Prop where
  consistent : Consistent registry world.write
  holds : world.Holds store
  mirrored : store.Mirrored
  marked : ∀ uuid ∈ world.queue.waitingSecondary, world.queue.Seconds uuid

theorem Intact.of_ready (ready : Command.Ready registry world store) :
    Intact registry world store :=
  ⟨ready.consistent, ready.holds, ready.mirrored, ready.queue.waiting⟩

/-- What cycles for one message keep of a world: its records, and its views but for the entity's
own, which may show the current record by now. -/
structure Showing (message : Message) (start : World) (store : MemoryViews) (last : World)
    (views : MemoryViews) : Prop where
  write : ∃ available, last.write = { start.write with available }
  holds : last.Holds views
  mirrored : views.Mirrored
  others : ∀ uuid, uuid ≠ message.uuid → views.views.get? uuid = store.views.get? uuid
  own : views.views.get? message.uuid = store.views.get? message.uuid ∨
    ∃ record view, start.write.record? message.uuid = some record ∧ NotNewer store record ∧
      Reflects start.write record view ∧ views.views.get? message.uuid = some view

theorem Intact.showing (intact : Intact registry start store) (message : Message) :
    Showing message start store start store where
  write := ⟨start.write.available, rfl⟩
  holds := intact.holds
  mirrored := intact.mirrored
  others _ _ := rfl
  own := Or.inl rfl

namespace Showing

variable (showing : Showing message start store last views)
include showing

theorem alike (alike : last.Alike next) : ∃ available failingPuts,
    Showing message start store next { views with available, failingPuts } := by
  obtain ⟨reachable, written⟩ := showing.write
  obtain ⟨available, write⟩ := alike.write
  obtain ⟨readable, failingPuts, holds⟩ := alike.views views showing.holds
  exact ⟨readable, failingPuts, {
    write := ⟨available, by rw [write, written]⟩
    holds
    mirrored := ⟨showing.mirrored.own, showing.mirrored.mirrors⟩
    others := showing.others
    own := showing.own }⟩

theorem consistent (consistent : Consistent registry start.write) :
    Consistent registry last.write := by
  obtain ⟨available, write⟩ := showing.write
  rw [write]
  exact ⟨consistent.rows, consistent.edges, consistent.creations⟩

/-- A view of the current record takes the place of the entity's own. -/
theorem put (found : start.write.record? message.uuid = some record) (older : NotNewer store record)
    {view : View} (reflects : Reflects start.write record view) (holds : next.Holds (views.put view))
    (write : next.write = last.write) :
    Showing message start store next (views.put view) ∧
      (views.put view).views.get? message.uuid = some view := by
  have same : view.uuid = message.uuid := reflects.own.trans (record?_uuid found)
  have own : (views.put view).views.get? message.uuid = some view := by
    rw [MemoryViews.put_views, if_pos same.symm]
  refine ⟨{
    write := write ▸ showing.write
    holds
    mirrored := showing.mirrored.put view
    others := fun uuid apart => ?_
    own := Or.inr ⟨record, view, found, older, reflects, own⟩ }, own⟩
  rw [MemoryViews.put_views, if_neg (same ▸ apart)]
  exact showing.others uuid apart

/-- A cycle that failed does not make the stored view newer than the record. -/
theorem notNewer_iff (found : start.write.record? message.uuid = some record) :
    NotNewer views record ↔ NotNewer store record := by
  rw [NotNewer, NotNewer, record?_uuid found]
  rcases showing.own with same | ⟨current, view, there, older, reflects, stored⟩
  · rw [same]
  · obtain rfl := Option.some.inj (found.symm.trans there)
    rw [NotNewer, record?_uuid found] at older
    refine iff_of_true (fun held here => ?_) older
    rw [stored] at here
    exact Int.le_of_eq ((congrArg View.sid (Option.some.inj here)).symm.trans reflects.stamped)

/-- One more cycle that fails. -/
theorem failed (consistent : Consistent engine.registry start.write) (truthful : last.Truthful)
    {error : EngineError}
    (ended : (rebuild engine message snapshot).on last = (.error error, next)) :
    next.queue = last.queue ∧ ∃ later, Showing message start store next later := by
  have write := ((rebuild_asks engine message snapshot).of_on ended).write
  obtain ⟨available, written⟩ := showing.write
  cases rebuild_ended truthful showing.holds (showing.consistent consistent) ended with
  | failed error left holds queue =>
    exact ⟨queue, _, {
      showing with
      write := write ▸ showing.write
      holds
      mirrored := ⟨showing.mirrored.own, showing.mirrored.mirrors⟩ }⟩
  | brokeOff error record view found reflects older holds queue =>
    rw [written] at found reflects
    have before := (showing.notNewer_iff found).mp older
    have reflecting : Reflects start.write record view :=
      ⟨reflects.own, reflects.stamped, reflects.listed⟩
    exact ⟨queue, _, (showing.put found before reflecting holds write).1⟩

end Showing

/-- Attempts do not count for what a cycle does. -/
theorem rebuild_attempts (engine : Engine) (message : Message) (attempts : UInt32) (snapshot : Sid) :
    rebuild engine { message with attempts } snapshot = rebuild engine message snapshot := rfl

theorem Retried.alike (retried : Retried engine message start last) (alike : last.Alike next) :
    Retried engine message start next := by
  cases retried with
  | first before => exact .first (before.trans alike)
  | again before truthful ended after => exact .again before truthful ended (after.trans alike)

/-- Handling a delivery is a cycle. When it fails it is put off or given up, and may be retried
from there. -/
theorem Retried.process (retried : Retried engine message start last) (truthful : last.Truthful)
    {delivery : Delivery} {attempts : UInt32} (tried : delivery.message = { message with attempts })
    {outcome : Outcome}
    (processed : (process engine delivery snapshot).on last = (.ok outcome, after)) :
    Retried engine message start after ∨ ∃ before done, Retried engine message start before ∧
      before.Truthful ∧ (rebuild engine { message with attempts } snapshot).on before =
        (.ok outcome, done) ∧ done.Alike after := by
  obtain ⟨running, ending, metrics, failures, queue, ended, finished⟩ :=
    process_on engine delivery snapshot last
  rcases cycle : (rebuild engine delivery.message snapshot).on { last with cycle := some running }
    with ⟨result, middle⟩
  rw [cycle] at ended finished
  cases ended.symm.trans processed
  rw [tried] at cycle
  have begun : Retried engine message start { last with cycle := some running } :=
    retried.alike (.of_same rfl rfl ⟨rfl, rfl⟩)
  have telling : ({ last with cycle := some running } : World).Truthful :=
    ⟨truthful.unstale, truthful.found⟩
  cases finished with
  | ended done report left =>
    subst done left
    exact Or.inr ⟨_, middle, begun, telling, cycle, .of_same rfl rfl ⟨rfl, rfl⟩⟩
  | reported attempts reason error failed lost report left =>
    subst failed left
    exact Or.inl (begun.again telling cycle (.of_same rfl rfl ⟨rfl, rfl⟩))
  | putOff attempts delay notBefore error failed waits report left =>
    subst failed left
    exact Or.inl (begun.again telling cycle (.of_same rfl rfl ⟨rfl, rfl⟩))

/-- However many cycles failed, none of them queued anything. -/
theorem Retried.showing (retried : Retried engine message start last)
    (intact : Intact engine.registry start store) :
    start.queue.SameLane last.queue ∧ ∃ views, Showing message start store last views := by
  induction retried with
  | first alike =>
    obtain ⟨available, failingPuts, showing⟩ := (intact.showing message).alike alike
    exact ⟨alike.lane, _, showing⟩
  | again before truthful ended alike ih =>
    obtain ⟨lane, views, showing⟩ := ih
    rw [rebuild_attempts] at ended
    obtain ⟨queue, later, showing⟩ := showing.failed intact.consistent truthful ended
    obtain ⟨available, failingPuts, showing⟩ := showing.alike alike
    rw [← queue] at lane
    exact ⟨lane.trans alike.lane, _, showing⟩

/-- What a cycle that succeeds in the end leaves of the secondary lane. -/
inductive Succeeded (engine : Engine) (message : Message) (start : World)
    (store views : MemoryViews) (after : World) : Prop where
  | idle (idle : message.strict = true ∨ ∀ record,
      start.write.record? message.uuid = some record → ¬ NotNewer store record)
    (seconds : ∀ uuid, after.queue.Seconds uuid ↔ start.queue.Seconds uuid)
  | spread (record : EntityRecord) (view : View) (placed : MemoryViews)
    (found : start.write.record? message.uuid = some record) (lenient : ¬ message.strict = true)
    (older : NotNewer store record) (reflects : Reflects start.write record view)
    (showing : Showing message start store after placed)
    (own : placed.views.get? message.uuid = some view)
    (seconds : ∀ uuid, after.queue.Seconds uuid ↔ start.queue.Seconds uuid ∨
      ∃ key ∈ fanOut engine start.write placed message record
        ((views.views.get? message.uuid).map View.sid), key.uuid = uuid)

theorem seconds_secondaries_iff {keys : SortedSet EntityKey} {uuid : Uuid} :
    (∃ sent ∈ secondaries message record keys, sent.uuid = uuid) ↔
      ∃ key ∈ keys, key.uuid = uuid := by
  simp only [secondaries, List.mem_map]
  constructor
  · rintro ⟨_, ⟨key, listed, rfl⟩, same⟩
    exact ⟨key, listed, same⟩
  · rintro ⟨key, listed, same⟩
    exact ⟨_, ⟨key, listed, rfl⟩, same⟩

theorem Showing.succeeded (showing : Showing message start store last views)
    (lane : start.queue.SameLane last.queue) (intact : Intact engine.registry start store)
    (truthful : last.Truthful) {outcome : Outcome}
    (ended : (rebuild engine message snapshot).on last = (.ok outcome, after)) :
    Succeeded engine message start store views after := by
  have write := ((rebuild_asks engine message snapshot).of_on ended).write
  obtain ⟨available, written⟩ := showing.write
  have idle : after.queue = last.queue → ∀ uuid, after.queue.Seconds uuid ↔
      start.queue.Seconds uuid := fun queue => queue ▸ lane.seconds_iff
  cases rebuild_ended truthful showing.holds (showing.consistent intact.consistent) ended with
  | removed outcome missing holds queue =>
    rw [written] at missing
    refine .idle (Or.inr fun record found => ?_) (idle queue)
    cases found.symm.trans missing
  | outdated outcome record found newer holds queue =>
    rw [written] at found
    refine .idle (Or.inr fun other there older => ?_) (idle queue)
    obtain rfl := Option.some.inj (found.symm.trans there)
    exact newer ((showing.notNewer_iff found).mpr older)
  | indexed outcome record view now found reflects older holds queue =>
    rw [written] at found reflects
    by_cases strict : message.strict = true
    · rw [queued, if_pos strict] at queue
      exact .idle (Or.inl strict) (idle queue)
    · rw [queued, if_neg strict, written] at queue
      have before := (showing.notNewer_iff found).mp older
      have reflecting : Reflects start.write record view :=
        ⟨reflects.own, reflects.stamped, reflects.listed⟩
      obtain ⟨placed, own⟩ := showing.put found before reflecting holds write
      refine .spread record view _ found strict before reflecting placed own fun uuid => ?_
      have sound : last.queue.Sound last.queue.inFlight.keys := .of_marked fun uuid inside =>
        (lane.seconds_iff uuid).mpr (intact.marked uuid (lane.marks ▸ inside))
      rw [queue, ← lane.seconds_iff, ← seconds_secondaries_iff]
      exact (Queue.sent_secondary sound now _).secondary_iff uuid

/-- The stored view of an entity is of its current record. -/
def Covered (world : World) (uuid : Uuid) : Prop :=
  ∃ record view, world.write.record? uuid = some record ∧
    world.read.load uuid = .ok (some view) ∧ view.sid = record.sid

/-- The change that a message tells of selects the entity's view. -/
def Selected (engine : Engine) (message : Message) (world : World) (uuid : Uuid) : Prop :=
  ∃ record views, world.write.record? message.uuid = some record ∧ world.read = .memory views ∧
    ∃ key ∈ scopeIn engine world.write views message.uuid record.itemType message.diff,
      key.uuid = uuid

theorem Showing.selected_iff (showing : Showing message start store last views)
    (found : start.write.record? message.uuid = some record) (uuid : Uuid) :
    Selected engine message last uuid ↔
      ∃ key ∈ scopeIn engine start.write views message.uuid record.itemType message.diff,
        key.uuid = uuid := by
  obtain ⟨available, write⟩ := showing.write
  obtain ⟨stats, memory⟩ := showing.holds
  rw [Selected, write, memory]
  constructor
  · rintro ⟨current, held, there, same, selected⟩
    obtain rfl := Option.some.inj (found.symm.trans there)
    obtain rfl := ReadStore.memory.inj same
    exact selected
  · exact fun selected => ⟨record, _, found, rfl, selected⟩

theorem Showing.covered_iff (showing : Showing message start store last views)
    (found : start.write.record? message.uuid = some record) :
    Covered last message.uuid ↔
      (views.views.get? message.uuid).map View.sid = some record.sid := by
  obtain ⟨available, write⟩ := showing.write
  rw [Covered, write, showing.holds.load, Option.map_eq_some_iff]
  constructor
  · rintro ⟨current, view, there, same, stamped⟩
    obtain rfl := Option.some.inj (found.symm.trans there)
    exact ⟨view, Except.ok.inj same, stamped⟩
  · rintro ⟨view, same, stamped⟩
    exact ⟨record, view, found, congrArg Except.ok same, stamped⟩

theorem exists_fanOut_iff {write : WriteStore} {since : Option Sid} {uuid : Uuid} :
    (∃ key ∈ fanOut engine write store message record since, key.uuid = uuid) ↔
      (∃ key ∈ scopeIn engine write store message.uuid record.itemType message.diff,
        key.uuid = uuid) ∨
      ∃ key ∈ keysIn write (changedTargets record.uuid
        (linkSets engine.registry write record since)).toList, key.uuid = uuid := by
  simp only [fanOut, SortedSet.mem_union, SortedSet.mem_ofList, or_and_right, exists_or]

/-- What a cycle that succeeds after any number of failed ones queues, compared to one that ran
without an interruption: the same, unless the stored view is of the current record by then. In that
case it is only what the change selects. -/
theorem retried_cycle_seconds_iff {fresh once done : World} {first attempts : UInt32}
    {early late : Sid}
    {outcome other : Outcome} (intact : Intact engine.registry start store)
    (alike : start.Alike fresh) (steady : fresh.Truthful)
    (uninterrupted : (rebuild engine { message with attempts := first } early).on fresh =
      (.ok other, once))
    (retried : Retried engine message start last) (truthful : last.Truthful)
    (ended : (rebuild engine { message with attempts } late).on last = (.ok outcome, done)) :
    start.queue.SameLane last.queue ∧
      (last.read.load message.uuid = start.read.load message.uuid ∨ Covered last message.uuid) ∧
      ∀ uuid, done.queue.Seconds uuid ↔ once.queue.Seconds uuid ∧
        (¬ Covered last message.uuid ∨ start.queue.Seconds uuid ∨
          Selected engine message once uuid) := by
  obtain ⟨lane, views, showing⟩ := retried.showing intact
  obtain ⟨available, failingPuts, untouched⟩ := (intact.showing message).alike alike
  rw [rebuild_attempts] at ended uninterrupted
  refine ⟨lane, ?_, fun uuid => ?_⟩
  · rw [showing.holds.load, intact.holds.load]
    refine showing.own.imp (congrArg Except.ok) ?_
    rintro ⟨record, view, found, -, reflects, stored⟩
    rw [showing.covered_iff found, stored, ← reflects.stamped]
    rfl
  -- Both cycles meet the same record, so neither spreads where the other has nothing to do.
  cases untouched.succeeded alike.lane intact steady uninterrupted with
  | idle idle seconds =>
    cases showing.succeeded lane intact truthful ended with
    | idle _ secondsDone =>
      rw [secondsDone, seconds]
      exact ⟨fun here => ⟨here, Or.inr (Or.inl here)⟩, And.left⟩
    | spread record view placed found lenient older =>
      exact (idle.elim lenient fun none => none record found older).elim
  | spread record view placed found lenient older reflects shown own seconds =>
    cases showing.succeeded lane intact truthful ended with
    | idle idle =>
      exact (idle.elim lenient fun none => none record found older).elim
    | spread current later moved there _ _ reflecting showed owned secondsDone =>
      obtain rfl := Option.some.inj (found.symm.trans there)
      have same : scopeIn engine start.write moved message.uuid record.itemType message.diff =
          scopeIn engine start.write placed message.uuid record.itemType message.diff := by
        refine scopeIn_congr shown.mirrored showed.mirrored (fun source apart => ?_) ?_ _ _
        · rw [showed.others source apart, shown.others source apart]
        · rw [owned, own, Option.map_some, Option.map_some, reflecting.listed, reflects.listed]
      rw [secondsDone, seconds, exists_fanOut_iff, exists_fanOut_iff, same,
        shown.selected_iff found, showing.covered_iff found]
      -- A stored view of the current record leaves no changed target to queue: the scope remains.
      by_cases covered : (views.views.get? message.uuid).map View.sid = some record.sid
      · rw [covered, changedTargets_linkSets_self]
        constructor
        · rintro (here | selected | ⟨key, listed, -⟩)
          · exact ⟨Or.inl here, Or.inr (Or.inl here)⟩
          · exact ⟨Or.inr (Or.inl selected), Or.inr (Or.inr selected)⟩
          · cases listed
        · rintro ⟨-, uncovered | here | selected⟩
          · exact absurd rfl uncovered
          · exact Or.inl here
          · exact Or.inr (Or.inl selected)
      · have since : views.views.get? message.uuid = store.views.get? message.uuid := by
          rcases showing.own with same | ⟨current, view, there, -, stamped, stored⟩
          · exact same
          · obtain rfl := Option.some.inj (found.symm.trans there)
            rw [stored, Option.map_some, stamped.stamped] at covered
            exact absurd rfl covered
        rw [since] at covered ⊢
        exact (and_iff_left (Or.inl covered)).symm

namespace Interruption

/-- The author's view is there, and the message of her new book waits. -/
def added : List Command := [
  .edit (.put ⟨1⟩ ⟨"Author"⟩ (.ofText "name" "Ann") none),
  .processBatch 10,
  .edit (.put ⟨2⟩ ⟨"Book"⟩ (.ofText "author" (Uuid.text ⟨1⟩)) none)]

def waiting : World := Command.worldAfter (.precise .books) added

theorem intact_waiting : ∃ store, Intact (Engine.precise .books).registry waiting store := by
  obtain ⟨⟨store, ready⟩, -⟩ := Command.ready_run (.start (Engine.precise .books).registry) added
  exact ⟨store, .of_ready ready⟩

/-- The next look-up of a view fails once. -/
def disturbed : World :=
  { waiting with faults := { waiting.faults with views := [.transient] } }

def newBook : Message := .primary ⟨⟨"Book"⟩, ⟨2⟩⟩ (some 2) none

/-- A cycle for the new book. -/
def cycle (attempts : UInt32) (world : World) : Except EngineError Outcome × World :=
  (rebuild (.precise .books) { newBook with attempts } 2).on world

/-- The batch that is disturbed, and others once the message may be tried again. -/
def batches : List Command := [.processBatch 1, .advance (.ofMillis 60000), .processBatch 10,
  .processBatch 10]

theorem cycle_on {attempts : UInt32} {world : World} {result : Except EngineError Outcome}
    (ended : (cycle attempts world).1 = result) :
    (rebuild (.precise .books) { newBook with attempts } 2).on world =
      (result, (cycle attempts world).2) := Prod.ext ended rfl

theorem cycle_disturbed : ∃ error, (cycle 0 disturbed).1 = .error error := by
  apply Action.error_of_toOption
  decide +kernel

theorem cycle_again : (cycle 1 (cycle 0 disturbed).2).1 = .ok (.indexed 2 0) := by
  apply Action.ok_of_toOption
  decide +kernel

theorem cycle_waiting : (cycle 0 waiting).1 = .ok (.indexed 2 1) := by
  apply Action.ok_of_toOption
  decide +kernel

end Interruption

open Interruption in
/-- The cycle that failed had stored the book's view: nothing else keeps the second one from
queueing the author. -/
theorem interrupted_cycle_covers_book :
    (cycle 0 waiting).2.queue.Seconds ⟨1⟩ ∧ ¬ (cycle 1 (cycle 0 disturbed).2).2.queue.Seconds ⟨1⟩ ∧
      Covered (cycle 0 disturbed).2 newBook.uuid := by
  obtain ⟨error, broken⟩ := cycle_disturbed
  obtain ⟨store, intact⟩ := intact_waiting
  have truthful : disturbed.Truthful := .of_records (by decide +kernel)
  have quiet : waiting.Truthful := .of_records (by decide +kernel)
  have after : (cycle 0 disturbed).2.Truthful := .of_records (by decide +kernel)
  have retried : Retried (.precise .books) newBook waiting (cycle 0 disturbed).2 :=
    .again (.first (.disturbed waiting _)) truthful (cycle_on broken) (.refl _)
  obtain ⟨-, -, seconds⟩ := retried_cycle_seconds_iff intact (.refl _) quiet
    (cycle_on cycle_waiting) retried after (cycle_on cycle_again)
  have queued : (cycle 0 waiting).2.queue.Seconds ⟨1⟩ := by decide +kernel
  have lost : ¬ (cycle 1 (cycle 0 disturbed).2).2.queue.Seconds ⟨1⟩ := by decide +kernel
  refine ⟨queued, lost, Classical.byContradiction fun uncovered => ?_⟩
  exact lost ((seconds ⟨1⟩).mpr ⟨queued, Or.inl uncovered⟩)

open Interruption in
/-- The cycle that fails queues nothing, the one that succeeds after it queues nothing, and without
the failure the author would have been queued. Her view stays as it was, without the book. -/
theorem retried_book_forgets_author :
    newBook.strict = false ∧ (∃ error, (cycle 0 disturbed).1 = .error error) ∧
      (cycle 1 (cycle 0 disturbed).2).1 = .ok (.indexed 2 0) ∧
      (cycle 0 waiting).1 = .ok (.indexed 2 1) ∧ (cycle 0 waiting).2.queue.Seconds ⟨1⟩ ∧
      ¬ (cycle 0 disturbed).2.queue.Seconds ⟨1⟩ ∧
      ¬ (cycle 1 (cycle 0 disturbed).2).2.queue.Seconds ⟨1⟩ ∧
      (Command.run (.precise .books) batches disturbed).queue.isIdle = true ∧
      ((Freshness.checkView ⟨1⟩).on (Command.run (.precise .books) batches disturbed)).1 =
        .ok (.stale [.revLinksChanged]) := by
  refine ⟨rfl, cycle_disturbed, cycle_again, cycle_waiting, by decide +kernel, by decide +kernel,
    by decide +kernel, by decide +kernel, Action.ok_of_toOption ?_⟩
  decide +kernel

end Indexing

end CachedViews
