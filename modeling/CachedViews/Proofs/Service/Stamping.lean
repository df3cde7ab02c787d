import CachedViews.Proofs.Embedding.Loading
import CachedViews.Proofs.Queue.Stamps
import CachedViews.Proofs.Service.Retention

/-!
Stamps that a run of an engine hands on. Each comes from the write store: a put sends its message
under the stamp that it committed, a cycle builds its view and the messages to dependents from the
current record, and a watermark is read before anything is resolved. So nothing on the queue, in the
failure report or among the views is ahead of the write store, and a view that takes the place of
another is as late as that one.
-/
namespace CachedViews

open WriteStore (Aged Bounded)

/-- A view whose stamps its entity and its write store have reached. -/
structure View.Reached (view : View) (write : WriteStore) : Prop where
  aged : Aged write view.uuid view.sid
  issued : view.maxSid ≤ write.maxSid

/-- A view made of the current record of its entity under the current watermark. -/
structure View.Current (view : View) (write : WriteStore) : Prop where
  record : ∃ record, write.record? view.uuid = some record ∧ view.sid = record.sid
  watermark : view.maxSid = write.maxSid

/-- Neither stamp of the other view is lower. -/
def View.UpTo (view other : View) : Prop := view.sid ≤ other.sid ∧ view.maxSid ≤ other.maxSid

namespace View

variable {view mark : View} {write next : WriteStore}

theorem Reached.step (reached : view.Reached write) (step : WriteStore.Step write next)
    (bounded : Bounded write) : view.Reached next where
  aged := reached.aged.step step bounded
  issued := Int.le_trans reached.issued (step.moves bounded).maxSid_le

theorem Current.reached (current : view.Current write) (bounded : Bounded write) :
    view.Reached write where
  aged := by
    obtain ⟨record, found, stamped⟩ := current.record
    exact stamped ▸ .of_record bounded found
  issued := Int.le_of_eq current.watermark

/-- A view that is made now is not older than any that could have been made before. -/
theorem Reached.upTo (reached : mark.Reached write) (current : view.Current write)
    (same : view.uuid = mark.uuid) : mark.UpTo view := by
  obtain ⟨record, found, stamped⟩ := current.record
  exact ⟨stamped ▸ reached.aged.current record (same ▸ found),
    current.watermark ▸ reached.issued⟩

end View

namespace World

/-- The read store keeps a view in memory. -/
def Stores (world : World) (view : View) : Prop := world.read.slot? view.uuid = some (.inl view)

/-- Stamps are in order: nothing is ahead of the write store, and no stored view is behind one of
its entity that was seen before. -/
structure Stamped (seen : View → Prop) (world : World) : Prop where
  unstale : world.Unstale
  bounded : Bounded world.write
  positive : 0 ≤ world.write.maxSid
  tidy : world.queue.Tidy
  queued : world.queue.Within world.write.maxSid
  reported : ∀ failure ∈ world.failures.entries, failure.message.Within world.write.maxSid
  reached : ∀ view, seen view → view.Reached world.write
  stored : ∀ uuid view, world.read.slot? uuid = some (.inl view) →
    view.uuid = uuid ∧ view.Reached world.write ∧ view.sid ≤ view.maxSid ∧ 0 ≤ view.maxSid
  later : ∀ view, seen view → ∀ other, world.read.slot? view.uuid = some (.inl other) →
    view.UpTo other

variable {seen : View → Prop} {before after world : World}

/-- A stored view was stored before or satisfies `P`. -/
theorem slot?_of_updates {P : View → Prop} {first second : ReadStore}
    (updates : ReadStore.Updates P first second) {uuid : Uuid} {view : View}
    (held : second.slot? uuid = some (.inl view)) :
    first.slot? uuid = some (.inl view) ∨ P view ∧ view.uuid = uuid := by
  rcases updates uuid with same | gone | ⟨other, fits, rfl, shows⟩
  · exact Or.inl (same ▸ held)
  · cases gone.symm.trans held
  · rcases shows with shown | shown
    · cases shown.symm.trans held
      exact Or.inr ⟨fits, rfl⟩
    · cases shown.symm.trans held

/-- Views made of current records and messages that are not ahead keep the stamps in order. -/
theorem Stamped.posted (stamped : before.Stamped seen)
    (posted : Posted (Message.Within before.write.maxSid) (View.Current · before.write)
      before after) : after.Stamped seen := by
  obtain ⟨posts, sent, each⟩ := posted.posts
  obtain ⟨tidy, queued⟩ := stamped.queued.sendAll stamped.tidy each
  have write := posted.write
  refine ⟨posted.unstale stamped.unstale, write ▸ stamped.bounded, write ▸ stamped.positive,
    sent ▸ tidy, ?_, ?_, write ▸ stamped.reached, ?_, ?_⟩
  · rw [sent, write]
    exact queued
  · rw [posted.failures, write]
    exact stamped.reported
  · intro uuid view held
    rw [write]
    rcases slot?_of_updates posted.read held with old | ⟨current, owner⟩
    · exact stamped.stored uuid view old
    · have reached := current.reached stamped.bounded
      exact ⟨owner, reached, current.watermark ▸ reached.aged.issued,
        current.watermark ▸ stamped.positive⟩
  · intro view listed other held
    rcases slot?_of_updates posted.read held with old | ⟨current, owner⟩
    · exact stamped.later view listed other old
    · exact (stamped.reached view listed).upTo current owner

/-- So do messages without a stamp. -/
theorem Stamped.unstamped (stamped : before.Stamped seen)
    (posted : Posted (fun message => message.sid = none) (fun _ => False) before after) :
    after.Stamped seen := by
  obtain ⟨posts, sent, each⟩ := posted.posts
  exact stamped.posted
    { posted with
      read := posted.read.of_none
      posts := ⟨posts, sent, fun post listed message inside =>
        .of_unstamped (each post listed message inside)⟩ }

/-- Stamps stay in order when the write store goes on. -/
theorem Stamped.step (stamped : world.Stamped seen) {next : WriteStore}
    (step : WriteStore.Step world.write next) {now : Instant} {outages : List Bool}
    {delays : List Duration} :
    ({ world.asking now outages delays with write := next } : World).Stamped seen where
  unstale := stamped.unstale
  bounded := (step.moves stamped.bounded).bounded stamped.bounded
  positive := Int.le_trans stamped.positive (step.moves stamped.bounded).maxSid_le
  tidy := stamped.tidy
  queued := stamped.queued.mono (step.moves stamped.bounded).maxSid_le
  reported failure listed :=
    (stamped.reported failure listed).mono (step.moves stamped.bounded).maxSid_le
  reached view listed := (stamped.reached view listed).step step stamped.bounded
  stored uuid view held := by
    obtain ⟨owner, reached, below⟩ := stamped.stored uuid view held
    exact ⟨owner, reached.step step stamped.bounded, below⟩
  later := stamped.later

/-- Only the records, the stores' contents, the queue and the failure report matter. -/
theorem Stamped.of_same (stamped : before.Stamped seen) (unstale : after.Unstale)
    (write : after.write = before.write)
    (read : ∀ uuid, after.read.slot? uuid = before.read.slot? uuid)
    (queue : after.queue = before.queue) (failures : after.failures = before.failures) :
    after.Stamped seen := by
  refine ⟨unstale, write ▸ stamped.bounded, write ▸ stamped.positive, queue ▸ stamped.tidy, ?_, ?_,
    write ▸ stamped.reached, ?_, ?_⟩
  · rw [queue, write]
    exact stamped.queued
  · rw [failures, write]
    exact stamped.reported
  · intro uuid view held
    rw [read] at held
    exact write ▸ stamped.stored uuid view held
  · intro view listed other held
    rw [read] at held
    exact stamped.later view listed other held

/-- The queue may be replaced by another that is not ahead. -/
theorem Stamped.requeue (stamped : world.Stamped seen) {queue : Queue} (tidy : queue.Tidy)
    (queued : queue.Within world.write.maxSid) :
    ({ world with queue } : World).Stamped seen :=
  { stamped with tidy, queued }

/-- Stored views count as seen. -/
theorem Stamped.seeing (stamped : world.Stamped seen) : world.Stamped world.Stores :=
  { stamped with
    reached := fun view held => (stamped.stored view.uuid view held).2.1
    later := by
      intro view held other same
      cases held.symm.trans same
      exact ⟨Int.le_refl _, Int.le_refl _⟩ }

end World

open CachedViews.Action

theorem Action.commit_stamped {seen : View → Prop} {α : Type}
    (change : WriteStore → Except StorageError (α × WriteStore))
    (advances : WriteStore.Advances change) :
    Keeps (World.Preserves (World.Stamped seen)) (Action.commit change) := by
  intro world stamped
  obtain ⟨now, outages, delays, same | ⟨value, store, made, same⟩⟩ := commit_after change world
  · rw [same]
    exact stamped.of_same stamped.unstale rfl (fun _ => rfl) rfl rfl
  · rw [same]
    exact stamped.step (advances _ _ _ made)

namespace Service

/-- What a commit of a sheet returns is the watermark that it leaves. -/
theorem attempt_commit_issued {world after : World} {stored : Stored} {diff : Option (List String)}
    {change : WriteStore → Except StorageError (Sid × WriteStore)}
    (stamping : ∀ store sid next, change store = .ok (sid, next) → sid = next.maxSid)
    (ended : (attempt do return ⟨← Action.commit change, diff⟩ :
      Action (Except EngineError Stored)).on world = (.ok (.ok stored), after)) :
    stored.sid = after.write.maxSid := by
  rw [attempt_on, on_bind] at ended
  obtain ⟨now, outages, delays, ⟨error, failed⟩ | ⟨sid, store, made, committed⟩⟩ :=
    commit_cases change world
  · rw [failed] at ended
    cases ended
  · rw [committed] at ended
    cases ended
    exact stamping _ _ _ made

theorem tryPut_issued {world after : World} {uuid : Uuid} {itemType : ItemType}
    {write : EntityWrite} {base : Option Sid} {stored : Stored}
    (ended : (tryPut uuid itemType write base).on world = (.ok (.ok stored), after)) :
    stored.sid = after.write.maxSid := by
  rw [tryPut] at ended
  obtain ⟨existing, middle, -, ended⟩ := bind_ok ended
  have creating : ∀ (store : WriteStore) sid next,
      store.create uuid itemType write = .ok (sid, next) → sid = next.maxSid := by
    intro store sid next made
    obtain ⟨-, -, committed⟩ := WriteStore.create_ok made
    cases committed
    rfl
  have updating : ∀ (base : Option Sid) (store : WriteStore) sid next,
      store.update uuid write base = .ok (sid, next) → sid = next.maxSid := by
    intro base store sid next made
    obtain ⟨row, -, -, committed⟩ := WriteStore.update_ok made
    cases committed
    rfl
  cases existing with
  | none =>
    rw [writeOver] at ended
    split at ended
    · obtain ⟨_, _, thrown, -⟩ := bind_ok ended
      cases thrown
    · exact attempt_commit_issued creating ended
  | some record =>
    rw [writeOver] at ended
    split at ended
    · obtain ⟨_, _, thrown, -⟩ := bind_ok ended
      cases thrown
    · exact attempt_commit_issued (updating _) ended

/-- A put that goes through returns a stamp that was handed out. -/
theorem putLoop_issued {world after : World} {uuid : Uuid} {itemType : ItemType}
    {write : EntityWrite} {base : Option Sid} {retries : Nat} {stored : Stored}
    (ended : (putLoop uuid itemType write base retries).on world = (.ok stored, after)) :
    stored.sid = after.write.maxSid := by
  induction retries generalizing world with
  | zero =>
    rw [putLoop] at ended
    obtain ⟨result, middle, tried, ended⟩ := bind_ok ended
    cases result with
    | error error => cases ended
    | ok value =>
      cases ended
      exact tryPut_issued tried
  | succ retries ih =>
    rw [putLoop] at ended
    obtain ⟨result, middle, tried, ended⟩ := bind_ok ended
    cases result with
    | error error =>
      dsimp only at ended
      split at ended
      · exact ih ended
      · cases ended
    | ok value =>
      cases ended
      exact tryPut_issued tried

variable {seen : View → Prop}

theorem reindex_stamped (options : ReindexOptions) :
    Keeps (World.Preserves (World.Stamped seen)) (reindex options) := by
  refine reindex_keeps_posted (fun _ _ posted stamped => stamped.unstamped posted) options
    fun _ world stamped => ?_
  obtain ⟨tidy, queued⟩ := stamped.queued.purge stamped.tidy
  exact stamped.requeue tidy queued

theorem requeueFailures_stamped :
    Keeps (World.Preserves (World.Stamped seen)) requeueFailures := by
  intro world stamped
  rw [requeueFailures_on]
  obtain ⟨tidy, queued⟩ := stamped.queued.send stamped.tidy .primary world.now
    (world.failures.entries.map renewed) fun message listed => by
      obtain ⟨failure, -, rfl⟩ := List.mem_map.mp listed
      exact .of_unstamped rfl
  exact { stamped with tidy, queued, reported := fun _ never => nomatch never }

end Service

theorem Edit.after_stamped {seen : View → Prop} (engine : Engine) (world : World) (edit : Edit) :
    World.Preserves (World.Stamped seen) world (edit.after engine world) := by
  refine Edit.after_keeps_posted Action.commit_stamped
    (fun _ _ posted stamped => stamped.unstamped posted)
    (fun uuid itemType base write world stored after ended stamped => ?_) engine world edit
  -- The message of a put has the stamp that its commit returned.
  have issued := Service.putLoop_issued ended
  obtain ⟨tidy, queued⟩ := stamped.queued.send stamped.tidy .primary after.now
    [.primary ⟨itemType, uuid⟩ (some stored.sid) stored.diff]
    fun message listed => by
      obtain rfl := List.mem_singleton.mp listed
      exact .of_stamped rfl (Int.le_of_eq issued)
  exact stamped.requeue tidy queued

end CachedViews
