import CachedViews.Proofs.Indexing.Retrying
import CachedViews.Proofs.Invalidation.Repeating
import CachedViews.Proofs.Service.Weathering

/-!
What an acknowledged delivery has queued. A cycle that stores its view queues everything that its
change selects over the stores as it leaves them. A cycle that finds a newer view stops there: the
views that its own change selects are not queued, although the message of the newer view was about
another change.
-/
namespace CachedViews

open CachedViews.Action

/-- Runs in which anything may go wrong. Time may pass at any moment, each store may go out of reach
or come back, and any faults may be injected; a look-up may show a record that is outdated. Besides
whole batches, deliveries may be received and handled one by one, under any watermark. -/
inductive Troubled (engine : Engine) : World → Prop where
  | start (read : ReadStore) : Troubled engine (.start read)
  | edited {world : World} (earlier : Troubled engine world) (edit : Edit) :
    Troubled engine (edit.after engine world)
  | reindexed {world : World} (earlier : Troubled engine world) (options : ReindexOptions) :
    Troubled engine ((Service.reindex options).on world).2
  | requeued {world : World} (earlier : Troubled engine world) :
    Troubled engine (Service.requeueFailures.on world).2
  | batched {world : World} (earlier : Troubled engine world) (size : Nat) :
    Troubled engine ((Indexing.processBatch (engine.taking size)).on world).2
  | received {world : World} (earlier : Troubled engine world) (limit : Nat) :
    Troubled engine ((Action.receive engine limit).on world).2
  | handled {world : World} (earlier : Troubled engine world) (delivery : Delivery)
    (snapshot : Sid) : Troubled engine ((Indexing.process engine delivery snapshot).on world).2
  | waited {world : World} (earlier : Troubled engine world) (now : Instant) :
    Troubled engine { world with now }
  | disturbed {world : World} (earlier : Troubled engine world) (faults : Faults)
    (writable readable : Bool) (failing : Nat) :
    Troubled engine (world.disturbed faults writable readable failing)

theorem Troubled.orderly {engine : Engine} {world : World} (troubled : Troubled engine world) :
    world.queue.Orderly := by
  have asking : ∀ before after, World.Asked (fun _ => False) before after →
      World.Preserves (fun world => world.queue.Orderly) before after := by
    rintro before after asked orderly
    obtain ⟨posts, sent⟩ := asked.queue
    rw [sent]
    exact (Queue.sendAll_adds before.queue posts).orderly orderly
  have receiving : ∀ (engine : Engine) limit,
      Keeps (World.Preserves fun world => world.queue.Orderly) (Action.receive engine limit) :=
    fun _ _ _ orderly => orderly.receive _ _ _ _
  induction troubled with
  | start read => exact .empty
  | @edited world _ edit ih =>
    obtain ⟨posts, sent⟩ := (edit.after_queues engine world).queue
    rw [sent]
    exact (Queue.sendAll_adds world.queue posts).orderly ih
  | reindexed _ options ih =>
    exact Service.reindex_keeps asking options (fun _ _ orderly => orderly.purge) _ ih
  | @requeued world _ ih =>
    exact (world.queue.send_adds .primary world.now _).orderly ih
  | batched _ size ih =>
    exact Indexing.processBatch_keeps (engine.taking size) (receiving _ _)
      (fun before after looked => asking before after looked.asked) (fun _ _ => id)
      (Indexing.process_orderly _) _ ih
  | received _ limit ih => exact receiving engine limit _ ih
  | handled _ delivery snapshot ih => exact Indexing.process_orderly engine delivery snapshot _ ih
  | waited _ now ih => exact ih
  | disturbed _ faults writable readable failing ih => exact ih

namespace Indexing

variable {engine : Engine} {world after : World} {message : Message} {snapshot : Sid}

/-- Every view that the change of a message selects is about to be rebuilt. -/
def Covers (engine : Engine) (message : Message) (world : World) : Prop :=
  ∀ other scope later, world.SameStores other →
    (Invalidation.scope engine message.uuid message.diff).on other = (.ok scope, later) →
      ∀ key ∈ scope, world.queue.Seconds key.uuid

/-- What is sent to the secondary lane waits there. -/
theorem seconds_send {queue : Queue} (orderly : queue.Orderly) (now : Instant)
    {messages : List Message} {sent : Message} (listed : sent ∈ messages) :
    (queue.send .secondary now messages).2.Seconds sent.uuid :=
  (Queue.sent_secondary (.of_marked orderly.marked) now messages).waits sent listed

theorem propagate_covers {record : EntityRecord} {since : Option Sid} {count : Nat}
    (orderly : world.queue.Orderly)
    (ended : (propagate engine message record since).on world = (.ok count, after)) :
    Covers engine message after := by
  rw [propagate] at ended
  obtain ⟨selected, first, asked, ended⟩ := bind_ok ended
  obtain ⟨targets, second, changed, ended⟩ := bind_ok ended
  have looked := ((Invalidation.scope_looks engine _ _).of_on asked).trans
    ((Invalidation.linkTargets_looks engine record since).of_on changed)
  -- Only the queue and the counters change after that.
  have listed : ∀ key ∈ selected, key ∈ (selected.union targets).toList := fun key inside =>
    SortedSet.mem_def.mp (SortedSet.mem_union.mpr (Or.inl inside))
  obtain ⟨write, read, seconds⟩ : after.write = second.write ∧ after.read = second.read ∧
      ∀ key ∈ selected, after.queue.Seconds key.uuid := by
    split at ended
    · rename_i none
      rw [none] at listed
      cases ended
      exact ⟨rfl, rfl, fun key inside => absurd (listed key inside) List.not_mem_nil⟩
    · cases ended
      have still : second.queue.Orderly := looked.queue ▸ orderly
      exact ⟨rfl, rfl, fun key inside =>
        seconds_send still second.now (List.mem_map_of_mem (listed key inside))⟩
  intro other scope later same again key inside
  have stores := looked.sameStores.trans (.of_same write read)
  obtain rfl := Invalidation.scope_settled engine message.uuid message.diff world other
    (stores.trans same) selected scope first later asked again
  exact seconds key inside

/-- What a cycle has queued when it ends. -/
def Queues (engine : Engine) (message : Message) (world after : World) : Outcome → Prop
  | .indexed .. => Covers engine message after
  | .versionConflict .. => after.queue = world.queue ∧ world.SameStores after
  | _ => True

theorem storeView_queues {resolution : Resolution} {outcome : Outcome}
    (orderly : world.queue.Orderly) (full : message.strict = false)
    (ended : (storeView engine message resolution snapshot).on world = (.ok outcome, after)) :
    Queues engine message world after outcome := by
  rw [storeView] at ended
  obtain ⟨sids, first, asked, ended⟩ := bind_ok ended
  have looked := (viewSids_looks [message.uuid]).of_on asked
  dsimp only at ended
  split at ended
  · cases ended
    exact ⟨looked.queue, looked.sameStores.trans (.of_same rfl rfl)⟩
  · obtain ⟨_, second, stored, ended⟩ := bind_ok ended
    obtain ⟨_, third, counted, ended⟩ := bind_ok ended
    have posted := (putView_posts (M := fun _ => False) (P := fun _ => True) trivial).of_on stored
    cases counted
    rw [full, if_neg Bool.false_ne_true] at ended
    obtain ⟨secondaries, last, spread, ended⟩ := bind_ok ended
    cases ended
    obtain ⟨posts, sent⟩ := posted.queue
    have still : second.queue.Orderly := sent ▸
      (Queue.sendAll_adds first.queue posts).orderly (looked.queue ▸ orderly)
    refine propagate_covers ?_ spread
    exact still

theorem rebuild_queues {outcome : Outcome} (orderly : world.queue.Orderly)
    (full : message.strict = false)
    (ended : (rebuild engine message snapshot).on world = (.ok outcome, after)) :
    Queues engine message world after outcome := by
  rw [rebuild] at ended
  rcases requireCovered_cases message snapshot world with covered | ⟨⟨error, refused⟩, -⟩
  · rw [on_bind_ok covered] at ended
    obtain ⟨found, middle, resolved, ended⟩ := bind_ok ended
    have looked := (Embedding.resolve_looks _ _ _).orNotFound.of_on resolved
    cases found with
    | none =>
      obtain ⟨existed, _, -, ended⟩ := bind_ok ended
      cases ended
      trivial
    | some resolution =>
      have queues := storeView_queues (looked.queue ▸ orderly) full ended
      cases outcome with
      | indexed sid secondaries => exact queues
      | versionConflict stored sid =>
        exact ⟨queues.1.trans looked.queue, looked.sameStores.trans queues.2⟩
      | removed => trivial
      | deferred attempts delay => trivial
      | failed attempts => trivial
  · rw [on_bind_error refused] at ended
    cases ended

/-- An acknowledged delivery that was indexed has queued every view that its change selects. One that
met a newer view has queued nothing: the secondary lane and the stores are as they were. -/
theorem acknowledged_cycle_propagates {delivery : Delivery} {outcome : Outcome}
    (troubled : Troubled engine world) (full : delivery.message.strict = false)
    (ended : (process engine delivery snapshot).on world = (.ok outcome, after)) :
    (∀ sid secondaries, outcome = .indexed sid secondaries →
        Covers engine delivery.message after) ∧
      ∀ storedSid sid, outcome = .versionConflict storedSid sid →
        world.SameStores after ∧ after.queue.secondary = world.queue.secondary := by
  obtain ⟨running, done, metrics, failures, queue, processed, finished⟩ :=
    process_on engine delivery snapshot world
  cases processed.symm.trans ended
  have started : ({ world with cycle := some running } : World).queue.Orderly := troubled.orderly
  have rebuilt := @rebuild_queues engine { world with cycle := some running }
  cases finished with
  | ended done _ left =>
    have queues := rebuilt started full (Prod.ext done rfl)
    constructor
    · rintro sid secondaries rfl
      intro other scope later same asked key inside
      rw [left]
      exact queues other scope later ⟨same.write, same.read⟩ asked key inside
    · rintro storedSid sid rfl
      have lane := congrArg Queue.secondary queues.1
      refine ⟨⟨queues.2.write, queues.2.read⟩, ?_⟩
      dsimp only
      rw [left]
      exact lane
  | reported attempts reason error _ lost _ _ =>
    subst lost
    exact ⟨nofun, nofun⟩
  | putOff attempts delay notBefore error _ waits _ _ =>
    subst waits
    exact ⟨nofun, nofun⟩

namespace Overtaking

/-- An author and a book that shows their name, both indexed, with nothing left to do. -/
def shelved : World :=
  let batch (world : World) := ((processBatch ((Engine.precise .books).taking 10)).on world).2
  batch (batch (Edit.worldAfter (.precise .books) [
    .put ⟨1⟩ ⟨"Author"⟩ (.ofText "name" "Ann") none,
    .put ⟨2⟩ ⟨"Book"⟩ (.ofText "author" (Uuid.text ⟨1⟩)) none]))

/-- The author is renamed. -/
def renamed : World :=
  Edit.after (.precise .books) shelved (.put ⟨1⟩ ⟨"Author"⟩ (.ofText "name" "Eve") none)

/-- Then something else about them changes, and both messages are received. -/
def received : World :=
  let aged := Edit.after (.precise .books) renamed (.put ⟨1⟩ ⟨"Author"⟩
    (SortedMap.ofList [("born", .string "1970"), ("name", .string "Eve")]) none)
  ((Action.receive (.precise .books) 10).on aged).2

def nameChange : Delivery :=
  ⟨5, .primary, .primary ⟨⟨"Author"⟩, ⟨1⟩⟩ (some 3) (some ["Author.name"])⟩

def laterChange : Delivery :=
  ⟨6, .primary, .primary ⟨⟨"Author"⟩, ⟨1⟩⟩ (some 4) (some ["Author.born"])⟩

/-- The later message is handled first, and then the write store shows the record that was current
after the renaming once more. -/
def outdated : World :=
  ((process (.precise .books) laterChange 4).on received).2.disturbed
    { Faults.none with records := [.stale], captured := renamed.write.record? ⟨1⟩ } true true 0

/-- The cycle of the renaming. -/
def cycle (world : World) : Except EngineError Outcome × World :=
  (process (.precise .books) nameChange 4).on world

/-- Views that the renaming selects. -/
def selected (world : World) : Option (List EntityKey) :=
  ((Invalidation.scope (.precise .books) nameChange.message.uuid nameChange.message.diff).on
    world).1.toOption.map SortedSet.toList

theorem troubled_received : Troubled (.precise .books) received :=
  .received (.edited (.edited (.batched (.batched (.edited (.edited (.start _) _) _) 10) 10) _) _) 10

theorem troubled_outdated : Troubled (.precise .books) outdated :=
  .disturbed (.handled troubled_received laterChange 4) _ true true 0

theorem cycle_on {world : World} {outcome : Outcome} (ended : (cycle world).1 = .ok outcome) :
    (process (.precise .books) nameChange 4).on world = (.ok outcome, (cycle world).2) :=
  Prod.ext ended rfl

theorem cycle_received : (cycle received).1 = .ok (.indexed 4 1) := by
  apply ok_of_toOption
  decide +kernel

theorem cycle_outdated : (cycle outdated).1 = .ok (.versionConflict 4 3) := by
  apply ok_of_toOption
  decide +kernel

end Overtaking

open Overtaking in
/-- Handled in order, the renaming has the book queued. Overtaken, it leaves the lane alone. -/
theorem prompt_renaming_covers_book :
    (Covers (.precise .books) nameChange.message (cycle received).2 ∧
        (cycle received).2.queue.Seconds ⟨2⟩) ∧
      outdated.SameStores (cycle outdated).2 ∧
        (cycle outdated).2.queue.secondary = outdated.queue.secondary := by
  obtain ⟨covers, -⟩ := acknowledged_cycle_propagates troubled_received rfl (cycle_on cycle_received)
  obtain ⟨-, same⟩ := acknowledged_cycle_propagates troubled_outdated rfl (cycle_on cycle_outdated)
  exact ⟨⟨covers 4 1 rfl, by decide +kernel⟩, same 4 3 rfl⟩

open Overtaking in
/-- The delivery of a renaming meets the view of a later change and is acknowledged. The book that
shows the name is selected by the renaming and by nothing else, and it is not queued: nothing is left
to do, and the book's view is stale. -/
theorem overtaken_renaming_forgets_book :
    Troubled (.precise .books) outdated ∧ nameChange.message.strict = false ∧
      (received.queue.inFlight.get? nameChange.receipt).map InFlight.message =
        some nameChange.message ∧
      (cycle outdated).1 = .ok (.versionConflict 4 3) ∧
      selected outdated = some [⟨⟨"Book"⟩, ⟨2⟩⟩] ∧
      selected (cycle outdated).2 = some [⟨⟨"Book"⟩, ⟨2⟩⟩] ∧
      ¬ (cycle outdated).2.queue.Seconds ⟨2⟩ ∧ (cycle outdated).2.queue.isIdle = true ∧
      ((Freshness.checkView ⟨2⟩).on (cycle outdated).2).1 = .ok (.stale [.linkAdvanced ⟨1⟩ 4]) := by
  refine ⟨troubled_outdated, rfl, ?_, cycle_outdated, ?_, ?_, ?_, ?_, ok_of_toOption ?_⟩ <;>
    decide +kernel

end Indexing

end CachedViews
