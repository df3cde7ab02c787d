import CachedViews.Proofs.Embedding.Caching
import CachedViews.Proofs.Embedding.Dependencies
import CachedViews.Proofs.Service.Commands

/-!
Batches over a write store that stays as it is. However messages are repeated, put in another
order or cut into batches, a rebuilt view has the fingerprint that resolving its entity alone
gives, unless a calculated property asks for an entity that was not loaded for it.
-/
namespace CachedViews

namespace Embedding

/-- The fingerprint of an entity's view when the entity is resolved alone. -/
def fingerprintAlone (registry : Registry) (store : WriteStore) (record : EntityRecord) : String :=
  ((resolutionAlone registry store record).toView record.sid).fingerprint

/-- Whatever the calculated properties of a record ask for is loaded or missing. -/
def SelfContained (registry : Registry) (store : WriteStore) (record : EntityRecord) : Prop :=
  ∀ uuid, Overlooked registry store (registry.embedPaths record.itemType) record uuid →
    store.record? uuid = none

/-- A resolution on a cache, beside the resolution that starts with nothing. -/
theorem resolve_beside_alone {registry : Registry} (spec : Option (List String)) {world : World}
    (calm : world.Calm) (accepted : world.write.Accepted registry) {uuid : Uuid}
    {record : EntityRecord} (found : world.write.record? uuid = some record) {cache : RecordCache}
    (mirrors : (world.withCache cache).Mirrors) :
    ∃ shared alone, ((resolve registry uuid spec).on (world.withCache cache)).1 = .ok shared ∧
      ((resolve registry uuid spec).on (world.withCache {})).1 = .ok alone ∧
      Resolution.SameSource registry shared alone ∧
      ((∀ other, Overlooked registry world.write (spec.getD (registry.embedPaths record.itemType))
          record other → cache.record? other = none) → shared = alone) := by
  obtain rfl := WriteStore.record?_uuid found
  obtain ⟨paths, under⟩ : ∃ paths, paths = spec.getD (registry.embedPaths record.itemType) :=
    ⟨_, rfl⟩
  have names := namesLinks_of_accepted accepted
  have fresh : (world.withCache {}).Mirrors := fun _ _ cached => by cases cached
  have known : ∀ other ∈ loaded registry world.write paths record,
      ((world.withCache cache).knowing (loaded registry world.write paths record)).cache.record?
        other = world.write.record? other := fun other listed => World.knowing_record? _ listed
  have shared : ((resolve registry record.uuid spec).on (world.withCache cache)).1 = _ :=
    congrArg Prod.fst (resolve_spec_on spec (calm.withCache cache) mirrors found)
  have alone : ((resolve registry record.uuid spec).on (world.withCache {})).1 = _ :=
    congrArg Prod.fst (resolve_spec_on spec (calm.withCache {}) fresh found)
  rw [← under] at shared alone ⊢
  refine ⟨_, _, shared, alone, resolution_sameSource names found known, fun hidden => ?_⟩
  refine resolution_eq_resolutionUnder names found known fun other overlooked => ?_
  -- What was overlooked is not among what was just loaded.
  rw [RecordCache.record?, World.knowing_get?, if_neg overlooked.2]
  exact hidden other overlooked

end Embedding

namespace Indexing

open CachedViews.Action WriteStore CachedViews.Embedding

/-- What batches over an unchanged write store leave of the stored views. -/
structure KeepsFingerprints (registry : Registry) (write : WriteStore)
    (store views : MemoryViews) : Prop where
  live : ∀ uuid record, write.record? uuid = some record → SelfContained registry write record →
    (views.views.get? uuid).map View.fingerprint = (store.views.get? uuid).map View.fingerprint ∨
      (views.views.get? uuid).map View.fingerprint = some (fingerprintAlone registry write record)
  missing : ∀ uuid, write.record? uuid = none →
    views.views.get? uuid = store.views.get? uuid ∨ views.views.get? uuid = none

variable {registry : Registry} {write : WriteStore} {store middle views : MemoryViews}

theorem KeepsFingerprints.of_views (same : views.views = store.views) :
    KeepsFingerprints registry write store views where
  live _ _ _ _ := Or.inl (by rw [same])
  missing _ _ := Or.inl (by rw [same])

theorem KeepsFingerprints.trans (first : KeepsFingerprints registry write store middle)
    (second : KeepsFingerprints registry write middle views) :
    KeepsFingerprints registry write store views where
  live uuid record found contained := by
    rcases second.live uuid record found contained with kept | alone
    · exact kept ▸ first.live uuid record found contained
    · exact Or.inr alone
  missing uuid absent := by
    rcases second.missing uuid absent with kept | gone
    · exact kept ▸ first.missing uuid absent
    · exact Or.inr gone

section

variable {engine : Engine} {world after : World} {snapshot : Sid}
  (accepted : world.write.Accepted engine.registry)
include accepted

/-- A cycle stores the view that resolving the entity alone gives, or none. -/
theorem Rebuilt.keepsFingerprints {message : Message} {result : Except EngineError Outcome}
    (rebuilt : Rebuilt engine message snapshot world store after views result) :
    KeepsFingerprints engine.registry world.write store views := by
  cases rebuilt with
  | refused _ _ left _ stored _ => exact .of_views (by rw [stored])
  | outdated _ _ _ _ _ _ stored _ => exact .of_views (by rw [stored])
  | removed _ missing stored _ =>
    rw [stored]
    refine ⟨fun uuid record found _ => Or.inl ?_, fun uuid absent => ?_⟩
    · rw [MemoryViews.delete_views, if_neg]
      rintro rfl
      rw [missing] at found
      cases found
    · rw [MemoryViews.delete_views]
      split
      · exact Or.inr rfl
      · exact Or.inl rfl
  | indexed _ record resolution cache found resolved known current stored _ =>
    have own : world.write.record? record.uuid = some record := record?_uuid found ▸ found
    rw [stored]
    refine ⟨fun uuid other there contained => ?_, fun uuid absent => Or.inl ?_⟩
    · rw [MemoryViews.put_views]
      by_cases root : uuid = record.uuid
      · rw [if_pos (by rw [resolved]; exact root)]
        obtain rfl : record = other := Option.some.inj (own.symm.trans (root ▸ there))
        have hidden : ∀ uuid, Overlooked engine.registry world.write
            (engine.registry.embedPaths record.itemType) record uuid → cache.record? uuid = none := by
          intro uuid overlooked
          cases cached : cache.record? uuid with
          | none => rfl
          | some entry =>
            have live := current uuid entry cached
            rw [contained uuid overlooked] at live
            cases live
        rw [resolved,
          resolution_eq_resolutionUnder (namesLinks_of_accepted accepted) own known hidden]
        exact Or.inr rfl
      · rw [if_neg (by rw [resolved]; exact root)]
        exact Or.inl rfl
    · rw [MemoryViews.put_views, if_neg]
      rintro root
      have there : world.write.record? uuid = some record := by
        rw [root, resolved]
        exact own
      rw [absent] at there
      cases there

theorem Handled.keepsFingerprints {delivery : Delivery}
    (handled : Handled engine delivery snapshot world store after views) :
    KeepsFingerprints engine.registry world.write store views := by
  cases handled with
  | lost _ _ _ _ stored _ => exact .of_views (by rw [stored])
  | postponed _ _ _ _ _ stored _ => exact .of_views (by rw [stored])
  | done _ _ rebuilt _ => exact rebuilt.keepsFingerprints accepted

theorem Cycles.keepsFingerprints {deliveries : List Delivery}
    (cycles : Cycles engine snapshot deliveries world store after views) :
    KeepsFingerprints engine.registry world.write store views := by
  induction cycles with
  | done world store => exact .of_views rfl
  | next onward handled later ih =>
    have rest := ih (onward.write ▸ accepted)
    rw [onward.write] at rest
    exact (handled.keepsFingerprints accepted).trans rest

end

/-- Batches over an unchanged write store. Between two of them the queue, the clock and all else
that is no store may change in any way, so that messages come again, in another order or in other
batches. -/
inductive Regrouped (registry : Registry) (world : World) : World → Prop where
  | start : Regrouped registry world world
  | between {middle after : World} (earlier : Regrouped registry world middle) (calm : after.Calm)
    (write : after.write = middle.write) (read : after.read = middle.read) :
    Regrouped registry world after
  | batch {middle : World} (earlier : Regrouped registry world middle) (engine : Engine)
    (same : engine.registry = registry) :
    Regrouped registry world ((processBatch engine).on middle).2

/-- Messages may come again or be lost. -/
theorem Regrouped.withQueue {world after : World} (regrouped : Regrouped registry world after)
    (calm : after.Calm) (queue : Queue) : Regrouped registry world { after with queue } :=
  regrouped.between (calm.of_faults rfl calm.writable calm.readable) rfl rfl

theorem Regrouped.keepsFingerprints {world after : World}
    (regrouped : Regrouped registry world after) (calm : world.Calm) (holds : world.Holds store)
    (consistent : Consistent registry world.write) :
    after.Calm ∧ after.write = world.write ∧ ∃ views, after.Holds views ∧
      KeepsFingerprints registry world.write store views := by
  induction regrouped with
  | start => exact ⟨calm, rfl, store, holds, .of_views rfl⟩
  | between _ calmAfter write read ih =>
    obtain ⟨-, unchanged, views, held, keeps⟩ := ih
    exact ⟨calmAfter, write.trans unchanged, views, held.of_read read, keeps⟩
  | batch _ engine same ih =>
    subst same
    obtain ⟨calmBefore, unchanged, views, held, keeps⟩ := ih
    obtain ⟨handled, started, after, last, ended, -, begins, onward, heldAfter, cycles⟩ :=
      processBatch_runs engine calmBefore held (unchanged ▸ consistent)
    have write : started.write = world.write := begins.write.trans unchanged
    have further := cycles.keepsFingerprints (write ▸ consistent.accepted)
    rw [write] at further
    rw [ended]
    exact ⟨onward.calm.withCache _, onward.write.trans write, last, heldAfter.of_read rfl,
      keeps.trans further⟩

/-- Resolving on a cache that agrees with the store gives what resolving alone gives, all but the
calculated properties that ask for what the cache holds and the resolution did not load. So no
order or grouping of messages over an unchanged write store gives a rebuilt view another
fingerprint, as long as its calculated properties ask for nothing else that exists. -/
theorem resolves_beside_any_cache (registry : Registry) {world : World} (calm : world.Calm)
    (accepted : world.write.Accepted registry) :
    (∀ spec uuid cache, (world.withCache cache).Mirrors →
      (world.write.record? uuid = none →
        ((resolve registry uuid spec).on (world.withCache cache)).1 =
          .error (.storage (.notFound uuid)) ∧
        ((resolve registry uuid spec).on (world.withCache {})).1 =
          .error (.storage (.notFound uuid))) ∧
      ∀ record, world.write.record? uuid = some record →
        ∃ shared alone,
          ((resolve registry uuid spec).on (world.withCache cache)).1 = .ok shared ∧
          ((resolve registry uuid spec).on (world.withCache {})).1 = .ok alone ∧
          Resolution.SameSource registry shared alone ∧
          ((∀ other, Overlooked registry world.write
              (spec.getD (registry.embedPaths record.itemType)) record other →
            cache.record? other = none) → shared = alone)) ∧
    (Consistent registry world.write → ∀ store, world.Holds store →
      ∀ after, Regrouped registry world after →
        ∃ views, after.Holds views ∧ KeepsFingerprints registry world.write store views) := by
  refine ⟨fun spec uuid cache mirrors => ⟨fun missing => ⟨?_, ?_⟩, fun record found => ?_⟩,
    fun consistent store holds after regrouped => ?_⟩
  · exact congrArg Prod.fst (resolve_spec_on_missing spec (calm.withCache cache) missing)
  · exact congrArg Prod.fst (resolve_spec_on_missing spec (calm.withCache {}) missing)
  · exact resolve_beside_alone spec calm accepted found mirrors
  · exact (regrouped.keepsFingerprints calm holds consistent).2.2

/-- A book and its author are indexed in two batches. -/
def apart : World :=
  ((processBatch (.precise .books)).on ((processBatch ((Engine.precise .books).taking 1)).on
    (Edit.worldAfter (.precise .books) oneBook)).2).2

/-- Then their messages come again, in one batch. -/
def together : World :=
  ((processBatch (.precise .books)).on
    { apart with queue := (Edit.worldAfter (.precise .books) oneBook).queue }).2

/-- A book resolves the same with its author cached, and has the fingerprint of that resolution
when its message has come again. -/
theorem book_keeps_fingerprint_in_any_batch :
    ∃ record shared views,
      (Edit.worldAfter (.precise .books) oneBook).write.record? ⟨2⟩ = some record ∧
      ((resolve .books ⟨2⟩ none).on ((Edit.worldAfter (.precise .books) oneBook).withCache
        (World.knows (Edit.worldAfter (.precise .books) oneBook).write.record? {} [⟨1⟩]))).1 =
          .ok shared ∧
      ((resolve .books ⟨2⟩ none).on
        ((Edit.worldAfter (.precise .books) oneBook).withCache {})).1 = .ok shared ∧
      together.Holds views ∧ (views.views.get? ⟨2⟩).map View.fingerprint =
        some (fingerprintAlone .books (Edit.worldAfter (.precise .books) oneBook).write record) := by
  obtain ⟨world, start⟩ : ∃ world, world = Edit.worldAfter (.precise .books) oneBook := ⟨_, rfl⟩
  have sound : world.Sound .books := start ▸ Edit.sound_worldAfter (.precise .books) oneBook
  have typed : world.write.WellTyped .books := by
    rw [start]
    decide +kernel
  have there : (world.write.record? ⟨2⟩).isSome = true := by
    rw [start]
    decide +kernel
  have empty : world.read.load ⟨2⟩ = .ok none := by
    rw [start]
    rfl
  obtain ⟨record, found⟩ := Option.isSome_iff_exists.mp there
  have same := record?_uuid found
  obtain ⟨store, holds⟩ := sound.memory
  have hidden : ∀ other, ¬ Overlooked .books world.write
      (Registry.books.embedPaths record.itemType) record other :=
    not_overlooked_of_stepsApart (same.symm ▸ found) fun path listed =>
      stepsApart_of_nestsPlainly (linksSound sound.consistent typed)
        (Registry.books_nestedApart record.itemType path listed) ⟨_, found⟩
  obtain ⟨resolving, batches⟩ := resolves_beside_any_cache .books sound.calm
    sound.consistent.accepted
  -- The cache agrees with the store, and the calculated label asks for the author alone.
  have fresh : (world.withCache {}).Mirrors := fun _ _ cached => by cases cached
  obtain ⟨shared, alone, onCache, onNone, -, agree⟩ := (resolving none ⟨2⟩
    (World.knows world.write.record? {} [⟨1⟩]) (fresh.knowing [⟨1⟩])).2 record found
  obtain rfl := agree fun other overlooked => absurd overlooked (hidden other)
  have first : Regrouped .books world apart := by
    rw [apart, ← start]
    exact (Regrouped.start.batch ((Engine.precise .books).taking 1) rfl).batch (.precise .books) rfl
  have calm := (first.keepsFingerprints sound.calm holds sound.consistent).1
  have again : Regrouped .books world together := by
    rw [together, ← start]
    exact (first.withQueue calm world.queue).batch (.precise .books) rfl
  obtain ⟨views, held, keeps⟩ := batches sound.consistent store holds together again
  have indexed : (together.read.load ⟨2⟩).toOption.join.isSome = true := by
    decide +kernel
  rw [held.load] at indexed
  rw [holds.load] at empty
  subst start
  refine ⟨record, shared, views, found, onCache, onNone, held, ?_⟩
  refine (keeps.live ⟨2⟩ record found fun other overlooked =>
    absurd overlooked (hidden other)).resolve_left fun kept => ?_
  rw [Except.ok.inj empty, Option.map_none, Option.map_eq_none_iff] at kept
  rw [kept] at indexed
  cases indexed

/-- Books show what a note in their margin names, under a name that is also that of a link. -/
def margins : Registry := .ofDecls [
  .ofName ⟨"Author"⟩,
  ((TypeDecl.ofName ⟨"Book"⟩).link "author" ⟨"Author"⟩ false).calculate
    (Calculation.first.field "shown" ["meta.author"])]

/-- A book whose margin names an author. -/
def marginal : World :=
  Edit.worldAfter (.precise margins) [
    .put ⟨1⟩ ⟨"Author"⟩ (.ofText "name" "Ann") none,
    .put ⟨2⟩ ⟨"Book"⟩ (SortedMap.ofList [("meta", .object [("author", .string (Uuid.text ⟨1⟩))])])
      none]

/-- The margin shows the author only while the author is cached. -/
theorem margin_shows_cached_author :
    marginal.Calm ∧ Consistent margins marginal.write ∧
      (marginal.withCache (World.knows marginal.write.record? {} [⟨1⟩])).Mirrors ∧
      ∃ shared alone,
        ((resolve margins ⟨2⟩ none).on (marginal.withCache
          (World.knows marginal.write.record? {} [⟨1⟩]))).1 = .ok shared ∧
        ((resolve margins ⟨2⟩ none).on (marginal.withCache {})).1 = .ok alone ∧
        shared.document ≠ alone.document := by
  have sound : marginal.Sound margins := Edit.sound_worldAfter (.precise margins) _
  have fresh : (marginal.withCache {}).Mirrors := fun _ _ cached => by cases cached
  have named : ((resolve margins ⟨2⟩ none).on (marginal.withCache
      (World.knows marginal.write.record? {} [⟨1⟩]))).1.toOption.map (fun resolution =>
        resolution.document.get? "shown" >>= Json.get? "name" >>= Json.text?) =
          some (some "Ann") := by
    decide +kernel
  have unnamed : ((resolve margins ⟨2⟩ none).on (marginal.withCache {})).1.toOption.map
      (fun resolution =>
        resolution.document.get? "shown" >>= Json.get? "name" >>= Json.text?) = some none := by
    decide +kernel
  obtain ⟨shared, onCache, shown⟩ := Action.ok_of_seen _ named
  obtain ⟨alone, onNone, hidden⟩ := Action.ok_of_seen _ unnamed
  refine ⟨sound.calm, sound.consistent, fresh.knowing [⟨1⟩], shared, alone, onCache, onNone,
    fun same => ?_⟩
  rw [same, hidden] at shown
  cases shown

end Indexing

end CachedViews
