import CachedViews.Proofs.Asking.Cycles
import CachedViews.Proofs.Service.Edits
import CachedViews.Proofs.WriteStore.Trails
import CachedViews.Service.Reindex

/-!
What the calls of the service do, in any world and however they end. Puts and purges change the
write store one entity at a time, and otherwise only ask and send. Reindexing of chosen types only
sends messages, and requeueing turns the failure report into messages.
-/
namespace CachedViews

/-- Nothing happened to queue and failure report but messages sent. -/
structure World.Queues (before after : World) : Prop where
  failures : after.failures = before.failures
  queue : ∃ posts, after.queue = before.queue.sendAll posts

instance : World.Chain World.Queues where
  refl _ := ⟨rfl, [], rfl⟩
  trans one two := by
    obtain ⟨early, here⟩ := one.queue
    obtain ⟨late, there⟩ := two.queue
    exact ⟨two.failures.trans one.failures, early ++ late, by
      rw [there, here, Queue.sendAll_append]⟩

theorem World.Asked.queues {P : View → Prop} {before after : World}
    (asked : World.Asked P before after) : before.Queues after := ⟨asked.failures, asked.queue⟩

namespace Action

theorem commit_queues {α : Type} (change : WriteStore → Except StorageError (α × WriteStore)) :
    Keeps World.Queues (Action.commit change) := by
  intro world
  obtain ⟨now, outages, delays, same | ⟨value, store, -, same⟩⟩ := commit_after change world
  · rw [same]
    exact ⟨rfl, [], rfl⟩
  · rw [same]
    exact ⟨rfl, [], rfl⟩

end Action

namespace Service

open CachedViews.Action

variable (engine : Engine) (uuid : Uuid) (itemType : ItemType) (write : EntityWrite)
  (base : Option Sid)

theorem attempt_keeps {α : Type} {R : World → World → Prop} [World.Chain R] {action : Action α}
    (keeps : Keeps R action) : Keeps R (attempt action) :=
  (keeps.map _).tryCatch fun _ => keeps_pure _

/-- Trying again keeps what every try keeps. -/
theorem putLoop_keeps {R : World → World → Prop} [World.Chain R]
    (once : Keeps R (tryPut uuid itemType write base)) (retries : Nat) :
    Keeps R (putLoop uuid itemType write base retries) := by
  induction retries with
  | zero =>
    refine once.bind fun result => ?_
    cases result with
    | ok stored => exact keeps_pure stored
    | error error => exact keeps_throw error
  | succ retries ih =>
    refine once.bind fun result => ?_
    cases result with
    | ok stored => exact keeps_pure stored
    | error error =>
      dsimp only
      split
      · exact ih
      · exact keeps_throw error

section

variable {R : World → World → Prop} [World.Chain R]
  (committing : ∀ {α : Type} (change : WriteStore → Except StorageError (α × WriteStore)),
    WriteStore.Advances change → Keeps R (Action.commit change))
include committing

theorem writeOver_keeps (existing : Option EntityRecord) :
    Keeps R (writeOver uuid itemType write base existing) := by
  have trying : ∀ (diff : Option (List String))
      (change : WriteStore → Except StorageError (Sid × WriteStore)),
      WriteStore.Advances change → Keeps R (attempt do return ⟨← Action.commit change, diff⟩ :
        Action (Except EngineError Stored)) := fun diff change advances =>
    attempt_keeps ((committing change advances).bind fun sid => keeps_pure _)
  cases existing with
  | none =>
    have created := trying none _ (WriteStore.advances_create uuid itemType write)
    rw [writeOver]
    split
    · exact (keeps_throw _).bind fun _ => created
    · exact created
  | some record =>
    have updated := fun diff => trying (some diff) _
      (WriteStore.advances_update uuid write (some (base.getD record.sid)))
    rw [writeOver]
    split
    · exact (keeps_throw _).bind fun _ => updated _
    · exact updated _

variable (looking : ∀ before after, World.Looked before after → R before after)
include looking

theorem tryPut_keeps : Keeps R (tryPut uuid itemType write base) :=
  ((record_looks uuid).orNotFound.mono looking).bind
    (writeOver_keeps uuid itemType write base committing)

/-- A put keeps what looking up, single changes of the write store and its own message keep. -/
theorem put_keeps (properties : Properties)
    (posting : ∀ write world stored after,
      (putLoop uuid itemType write base putRetries).on world = (.ok stored, after) →
        R after ((Action.send .primary
          [.primary ⟨itemType, uuid⟩ (some stored.sid) stored.diff]).on after).2) :
    Keeps R (put engine uuid itemType properties base) := by
  refine (keeps_ofValidation _).bind fun _ => (keeps_ofValidation _).bind fun write =>
    (putLoop_keeps uuid itemType write base (tryPut_keeps uuid itemType write base committing looking)
      putRetries).bind_of fun world stored after ended => ?_
  have posted := posting write world stored after ended
  rw [on_bind]
  dsimp only [Action.send, Action.onQueue, on_modifyGet] at posted ⊢
  exact posted

/-- A purge keeps what single changes of the write store and unstamped messages keep. -/
theorem purge_keeps (asking : ∀ before after,
      World.Posted (fun message => message.sid = none) (fun _ => False) before after →
        R before after) :
    Keeps R (purge uuid) := by
  refine ((record_looks uuid).orNotFound.mono looking).bind fun existing =>
    (committing _ (WriteStore.advances_purge uuid)).bind fun _ =>
      ((deleteView_posts uuid).bind fun _ => (liveKeys_looks _).posts.bind fun keys => ?_).mono asking
  split
  · exact keeps_pure ()
  · refine (send_posts _ fun message listed => ?_).map _
    obtain ⟨key, -, rfl⟩ := List.mem_map.mp listed
    rfl

end

theorem tryPut_queues : Keeps World.Queues (tryPut uuid itemType write base) :=
  tryPut_keeps uuid itemType write base (fun change _ => commit_queues change)
    fun _ _ looked => (looked.asked (P := fun _ => False)).queues

theorem isUpToDate_looks (entities : Nat) : (isUpToDate itemType entities).Looks := by
  refine (countViews_looks itemType).bind fun views => ?_
  split
  · exact keeps_pure false
  · exact (Freshness.report_looks _).bind fun _ => keeps_pure _

/-- The messages of a reindex have no stamp. -/
theorem reindexType_posts {P : View → Prop} (options : ReindexOptions) (strict : Bool)
    (telemetryId : String) (keys : List EntityKey) :
    (reindexType options strict telemetryId itemType keys).Posts
      (fun message => message.sid = none) P := by
  have queueing : ∀ upToDate : Bool, Action.Posts (fun message => message.sid = none) P (do
      if upToDate then return (⟨itemType, keys.length, 0, true⟩ : TypeReindex)
      let queued ←
        if options.skipPropagation then pure keys.length
        else Action.send .primary (keys.map (rebuildMessage strict telemetryId))
      return ⟨itemType, keys.length, queued, false⟩) := by
    intro upToDate
    split
    · exact keeps_pure _
    · split
      · exact (keeps_pure _).bind fun _ => keeps_pure _
      · refine (send_posts _ fun message listed => ?_).bind fun _ => keeps_pure _
        obtain ⟨key, -, rfl⟩ := List.mem_map.mp listed
        rfl
  rw [reindexType]
  dsimp only
  split
  · exact (isUpToDate_looks itemType keys.length).posts.bind queueing
  · exact (keeps_pure false).bind queueing

/-- Reindexing asks and queues unstamped messages. Only a run over all types also drops messages. -/
theorem reindex_keeps_posted {P : View → Prop} {R : World → World → Prop} [World.Chain R]
    (weaker : ∀ before after,
      World.Posted (fun message => message.sid = none) P before after → R before after)
    (options : ReindexOptions)
    (dropping : options.types.isNone = true → Keeps R Action.purgeQueue) :
    Keeps R (reindex options) := by
  have posting : ∀ {α : Type} {action : Action α},
      action.Posts (fun message => message.sid = none) P → Keeps R action :=
    fun posts => posts.mono weaker
  have numbering : nextTelemetryId.Looks := by
    refine keeps_get.bind fun world => (keeps_modify fun later => ?_).bind fun _ => keeps_pure _
    exact looked_of_same rfl rfl rfl rfl (fun _ => id) rfl
  have listing : ∀ (telemetryId : String) (purgedMessages : Nat),
      Action.Posts (fun message => message.sid = none) P (do
        let groups := groupByType (← Action.listEntities options.types)
        let types ← groups.entries.mapM fun group =>
          reindexType options (options.strict || options.types.isNone) telemetryId group.1 group.2
        return (⟨telemetryId, options.types.isNone, options.strict || options.types.isNone,
          purgedMessages, types⟩ : ReindexReport)) := by
    intro telemetryId purgedMessages
    refine (listEntities_looks _).posts.bind fun keys =>
      (keeps_mapM (fun group => ?_) _).bind fun _ => keeps_pure _
    exact reindexType_posts group.1 options _ telemetryId group.2
  rw [reindex]
  refine (posting numbering.posts).bind fun telemetryId => ?_
  dsimp only
  split
  · rename_i total
    exact (dropping (Bool.and_eq_true_iff.mp total).1).bind fun purged =>
      posting (listing telemetryId purged)
  · exact (keeps_pure 0).bind fun purged => posting (listing telemetryId purged)

theorem reindex_keeps {P : View → Prop} {R : World → World → Prop} [World.Chain R]
    (weaker : ∀ before after, World.Asked P before after → R before after)
    (options : ReindexOptions)
    (dropping : options.types.isNone = true → Keeps R Action.purgeQueue) :
    Keeps R (reindex options) :=
  reindex_keeps_posted (fun _ _ posted => weaker _ _ posted.toAsked) options dropping

/-- Reindexing chosen types drops no message. -/
theorem reindex_asks {P : View → Prop} {options : ReindexOptions}
    (chosen : options.types.isSome = true) : (reindex options).Asks P :=
  reindex_keeps (fun _ _ => id) options fun total => by
    rw [Option.isNone_iff_eq_none.mp total] at chosen
    cases chosen

theorem requeueFailures_on (world : World) :
    (requeueFailures.on world).2 = { world with
      failures := .empty
      queue := (world.queue.send .primary world.now (world.failures.entries.map renewed)).2 } := rfl

end Service

/-- An edit keeps what single changes of the write store, unstamped messages and the message of a
put keep. -/
theorem Edit.after_keeps_posted {R : World → World → Prop} [World.Chain R]
    (committing : ∀ {α : Type} (change : WriteStore → Except StorageError (α × WriteStore)),
      WriteStore.Advances change → Action.Keeps R (Action.commit change))
    (asking : ∀ before after,
      World.Posted (fun message => message.sid = none) (fun _ => False) before after →
        R before after)
    (posting : ∀ uuid itemType base write world stored after,
      (Service.putLoop uuid itemType write base Service.putRetries).on world =
          (.ok stored, after) →
        R after ((Action.send .primary
          [.primary ⟨itemType, uuid⟩ (some stored.sid) stored.diff]).on after).2)
    (engine : Engine) (world : World) (edit : Edit) : R world (after engine world edit) := by
  have looking : ∀ before after, World.Looked before after → R before after :=
    fun before after looked => asking before after looked.posted
  cases edit with
  | put uuid itemType properties base =>
    rw [after, action, Action.after_discard]
    exact Service.put_keeps engine uuid itemType base committing looking properties
      (posting uuid itemType base) world
  | purge uuid => exact Service.purge_keeps uuid committing looking asking world

/-- An edit keeps what asking, sending and single changes of the write store keep. -/
theorem Edit.after_keeps {R : World → World → Prop} [World.Chain R]
    (committing : ∀ {α : Type} (change : WriteStore → Except StorageError (α × WriteStore)),
      WriteStore.Advances change → Action.Keeps R (Action.commit change))
    (asking : ∀ before after, World.Asked (fun _ => False) before after → R before after)
    (engine : Engine) (world : World) (edit : Edit) : R world (after engine world edit) :=
  after_keeps_posted committing (fun before after posted => asking before after posted.toAsked)
    (fun _ _ _ _ _ _ after _ => asking after _ (Action.send_asks _ _ after)) engine world edit

theorem Edit.after_queues (engine : Engine) (world : World) (edit : Edit) :
    world.Queues (after engine world edit) :=
  after_keeps (fun change _ => Action.commit_queues change) (fun _ _ asked => asked.queues)
    engine world edit

end CachedViews
