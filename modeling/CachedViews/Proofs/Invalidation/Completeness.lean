import CachedViews.Proofs.Embedding.Declared
import CachedViews.Proofs.Entity.FieldDiff
import CachedViews.Proofs.Invalidation.Scope
import CachedViews.Proofs.Service.Edits

/-!
Invalidation misses no document: when an update changes what another entity resolves to, the
updated entity was linked, and unless a calculated path leads through a link named like the
wildcard, one of the changed fields was read.
-/
namespace CachedViews

/-- Read stores in memory as calls make them out of an empty one. -/
inductive MemoryViews.Reached : MemoryViews → Prop where
  | empty : Reached .empty
  | put {store : MemoryViews} (reached : Reached store) (view : View) : Reached (store.put view)
  | get {store : MemoryViews} (reached : Reached store) (uuid : Uuid) : Reached (store.get uuid).2
  | delete {store : MemoryViews} (reached : Reached store) (uuid : Uuid) :
    Reached (store.delete uuid).2

namespace MemoryViews

theorem get_same (store : MemoryViews) (uuid : Uuid) :
    ∃ stats, (store.get uuid).2 = { store with stats } := by
  unfold MemoryViews.get
  split
  · exact ⟨store.stats.hit, rfl⟩
  · exact ⟨store.stats.miss, rfl⟩

theorem Reached.mirrored {store : MemoryViews} (reached : Reached store) :
    Mirrored store ∧ store.available = true := by
  induction reached with
  | empty => exact ⟨.empty, rfl⟩
  | put _ view ih => exact ⟨ih.1.put view, ih.2⟩
  | @get store _ uuid ih =>
    obtain ⟨stats, same⟩ := store.get_same uuid
    rw [same]
    exact ⟨⟨ih.1.own, ih.1.mirrors⟩, ih.2⟩
  | delete _ uuid ih => exact ⟨ih.1.delete uuid, (delete_available _ uuid).trans ih.2⟩

end MemoryViews

namespace Invalidation

open CachedViews.Embedding WriteStore

variable {engine : Engine} {registry : Registry} {before after : WriteStore}
  {old new record : EntityRecord} {reads : Reads}

/-- A record before and after a write that changes nothing that is read. -/
theorem agrees_of_uncovered (uuid : old.uuid = new.uuid) (itemType : old.itemType = new.itemType)
    (uncovered : ∀ field ∈ FieldDiff.changedFields old.properties new.properties,
      reads.covers old.itemType field = false) : Agrees reads old new where
  uuid := uuid
  itemType := itemType
  covered field covered := by
    refine FieldDiff.plain_eq_of_unchanged fun changed => ?_
    rw [uncovered field changed] at covered
    cases covered

/-- A change of the document of another entity comes through a visit. -/
theorem linked_of_document_ne (wrote : Wrote before new after) (apart : record.uuid ≠ new.uuid)
    (found : before.record? record.uuid = some record)
    (differs : (resolutionAlone registry before record).document ≠
      (resolutionAlone registry after record).document) :
    new.uuid ∈ (resolutionAlone registry before record).linked := by
  apply Classical.byContradiction
  intro unlinked
  -- Without a visit nothing that the resolution looks at has changed.
  have elsewhere : ∀ uuid, uuid ≠ new.uuid → before.record? uuid = after.record? uuid :=
    fun uuid other => (wrote.record?_of_ne other).symm
  have unvisited : ¬ Visits registry before.record? record new.uuid := fun visits =>
    unlinked ((mem_resolution_linked_iff found _ _).mpr ⟨visits, apart.symm⟩)
  have same : resolutionAlone registry after record = _ :=
    resolutionAlone_eq (elsewhere record.uuid apart) fun edge listed _ => elsewhere _ fun reached =>
        unvisited ((mem_followed_iff found new.uuid).mp ⟨edge, listed, reached⟩)
  exact differs (by rw [same])

/-- A change of the document of another entity comes through a field that is read. -/
theorem covered_of_document_ne (built : registry.Built) (pure : registry.Pure)
    (consistent : Consistent registry before) (consistentAfter : Consistent registry after)
    (typed : WellTyped registry before) (typedAfter : WellTyped registry after)
    (wrote : Wrote before new after) (apart : record.uuid ≠ new.uuid)
    (found : before.record? record.uuid = some record)
    (foundOld : before.record? new.uuid = some old)
    (nested : registry.NestedApart record.itemType)
    (wildcard : registry.WildcardApart record.itemType)
    (read : registry.reads? record.itemType = some reads)
    (differs : (resolutionAlone registry before record).document.plain ≠
      (resolutionAlone registry after record).document.plain) :
    ∃ field ∈ FieldDiff.changedFields old.properties new.properties,
      reads.covers old.itemType field = true := by
  apply Classical.byContradiction
  intro none
  have uncovered : ∀ field ∈ FieldDiff.changedFields old.properties new.properties,
      reads.covers old.itemType field = false := fun field listed =>
    Bool.eq_false_iff.mpr fun covered => none ⟨field, listed, covered⟩
  have still : after.record? record.uuid = some record :=
    (wrote.record?_of_ne apart).trans found
  have root : Document.RootAgrees registry before.record? after.record? reads record := by
    refine ⟨built, nested, wildcard, linksSound consistent typed, ⟨_, found⟩, read, ?_⟩
    intro uuid _
    by_cases same : uuid = new.uuid
    · rw [same, foundOld, wrote.record?_new]
      exact agrees_of_uncovered (record?_uuid foundOld) (wrote.typed old foundOld) uncovered
    · rw [wrote.record?_of_ne same]
      exact .refl _ _
  apply differs
  rw [documentAlone_plain built pure consistent typed found nested wildcard,
    documentAlone_plain built pure consistentAfter typedAfter still nested wildcard]
  exact root.ofRecord_agrees pure

/-- What an update does to the write store when the sheet that it finds is replaced by the one
that it leaves. -/
theorem wrote_of_update (engine : Engine) (edits : List Edit) (updated : Uuid)
    (itemType : ItemType) (properties : Properties) (base : Option Sid)
    (foundNew : (Edit.worldAfter engine
      (edits ++ [.put updated itemType properties base])).write.record? updated = some new) :
    (Edit.worldAfter engine (edits ++ [.put updated itemType properties base])).write =
        (Edit.worldAfter engine edits).write ∨
      Wrote (Edit.worldAfter engine edits).write new
        (Edit.worldAfter engine (edits ++ [.put updated itemType properties base])).write := by
  obtain ⟨calm, consistent, -⟩ := Edit.sound_worldAfter engine edits
  rw [Edit.worldAfter, Edit.run_append] at foundNew ⊢
  change (Edit.after engine (Edit.worldAfter engine edits) _).write.record? updated = _ at foundNew
  change (Edit.after engine (Edit.worldAfter engine edits) _).write = _ ∨
    Wrote _ new (Edit.after engine (Edit.worldAfter engine edits) _).write
  rw [Edit.after, Edit.action, Action.after_discard] at foundNew ⊢
  rcases Service.put_cases calm consistent updated itemType properties base with
    ⟨error, ended⟩ | ⟨stored, next, ended, placed⟩
  · rw [ended]
    exact Or.inl rfl
  · rw [ended] at foundNew ⊢
    obtain ⟨record, wrote, same, -⟩ := placed.wrote
    have current : next.record? updated = some record := same ▸ wrote.record?_new
    have again : next.record? updated = some new := foundNew
    rw [current] at again
    cases again
    exact Or.inr wrote

theorem resolveAlone_ok {world : World} (calm : world.Calm) {uuid : Uuid}
    {resolution : Resolution}
    (resolved : ((resolveAlone registry uuid).on world).1 = .ok resolution) :
    ∃ record, record.uuid = uuid ∧ world.write.record? uuid = some record ∧
      resolution = resolutionAlone registry world.write record := by
  cases found : world.write.record? uuid with
  | none =>
    rw [resolveAlone_on_missing calm found] at resolved
    cases resolved
  | some record =>
    rw [resolveAlone_on calm found] at resolved
    cases resolved
    exact ⟨record, record?_uuid found, rfl, rfl⟩

/-- The scope of a change holds every dependent that it reaches and that is stored as linking
the changed entity. -/
theorem scope_contains {world : World} (calm : world.Calm) {store : MemoryViews}
    (reached : store.Reached) {uuid : Uuid} {changed : ItemType}
    (typed : world.write.itemTypeOf uuid = some changed) {diff : Option (List String)}
    (view : View) (stored : store.views.get? view.uuid = some view) (apart : view.uuid ≠ uuid)
    (links : uuid ∈ view.linked) (selects : Selects engine view.itemType changed diff) :
    ∃ keys, ((scope engine uuid diff).on { world with read := .memory store }).1 = .ok keys ∧
      view.key ∈ keys := by
  obtain ⟨mirrored, available⟩ := reached.mirrored
  have calmHere : ({ world with read := .memory store } : World).Calm :=
    calm.of_faults rfl calm.writable available
  obtain ⟨stats, ended⟩ := scope_peeks engine calmHere (.of_memory rfl) typed diff
  refine ⟨_, by rw [ended], mem_scopeIn ?_ apart selects⟩
  exact (MemoryViews.mem_findDependents_iff mirrored uuid view.key).mpr ⟨view, stored, rfl, links⟩

/-- When an update changes the document of another entity, that entity linked the updated one
before; and unless one of its calculated paths comes to a link named like the wildcard, its
type reads a changed field, so that the scope of the update holds its stored view. Calculations are
taken to be blind to the sign of a zero (`Registry.Pure`), and documents differ by more than it. -/
theorem scope_contains_changed_documents (engine : Engine) (built : engine.registry.Built)
    (pure : engine.registry.Pure) (nested : ∀ itemType, engine.registry.NestedApart itemType)
    (edits : List Edit) (updated dependent : Uuid) (itemType : ItemType)
    (properties : Properties) (base : Option Sid) (apart : dependent ≠ updated)
    (typed : WellTyped engine.registry (Edit.worldAfter engine edits).write)
    (typedAfter : WellTyped engine.registry
      (Edit.worldAfter engine (edits ++ [.put updated itemType properties base])).write)
    (old new : EntityRecord) (resolution again : Resolution)
    (foundOld : (Edit.worldAfter engine edits).write.record? updated = some old)
    (foundNew : (Edit.worldAfter engine
      (edits ++ [.put updated itemType properties base])).write.record? updated = some new)
    (resolved : ((resolveAlone engine.registry dependent).on
      (Edit.worldAfter engine edits)).1 = .ok resolution)
    (resolvedAgain : ((resolveAlone engine.registry dependent).on
      (Edit.worldAfter engine (edits ++ [.put updated itemType properties base]))).1 = .ok again)
    (differs : resolution.document.plain ≠ again.document.plain) :
    updated ∈ resolution.linked ∧
      (engine.registry.WildcardApart resolution.record.itemType →
        reaches engine resolution.record.itemType old.itemType
            (FieldDiff.changedFields old.properties new.properties).toList = true ∧
          ∀ store : MemoryViews, store.Reached → ∀ watermark,
            store.views.get? dependent = some (resolution.toView watermark) →
              ∃ keys, ((scope engine updated
                  (some (FieldDiff.encode old.itemType old.properties new.properties))).on
                    { Edit.worldAfter engine (edits ++ [.put updated itemType properties base]) with
                      read := .memory store }).1 = .ok keys ∧
                ⟨resolution.record.itemType, dependent⟩ ∈ keys) := by
  obtain ⟨calm, consistent, -⟩ := Edit.sound_worldAfter engine edits
  obtain ⟨calmAfter, consistentAfter, -⟩ := Edit.sound_worldAfter engine
    (edits ++ [.put updated itemType properties base])
  obtain ⟨record, rfl, found, rfl⟩ := resolveAlone_ok calm resolved
  obtain ⟨record', sameUuid, found', rfl⟩ := resolveAlone_ok calmAfter resolvedAgain
  -- A put that failed changed no document.
  rcases wrote_of_update engine edits updated itemType properties base foundNew with same | wrote
  · rw [same, found] at found'
    cases found'
    exact absurd (by rw [same]) differs
  obtain rfl := record?_uuid foundNew
  have still := wrote.record?_of_ne apart
  rw [found, found'] at still
  obtain rfl := Option.some.inj still
  refine ⟨linked_of_document_ne wrote apart found fun same => differs (by rw [same]), ?_⟩
  intro wildcard
  obtain ⟨reads, read⟩ := exists_reads consistent found
  obtain ⟨field, changed, covered⟩ := covered_of_document_ne built pure consistent
    consistentAfter typed typedAfter wrote apart found foundOld (nested _) wildcard read differs
  have covers : ∀ others, engine.registry.reads? record'.itemType = some others →
      others.covers old.itemType field = true := by
    intro others known
    rw [read] at known
    cases known
    exact covered
  refine ⟨reaches_of_covers changed covers, fun store reached watermark stored => ?_⟩
  have linked := linked_of_document_ne wrote apart found fun same => differs (by rw [same])
  have typedNow : (Edit.worldAfter engine
      (edits ++ [.put new.uuid itemType properties base])).write.itemTypeOf new.uuid =
        some old.itemType := by
    rw [itemTypeOf_of_record? foundNew, wrote.typed old foundOld]
  refine scope_contains calmAfter reached typedNow
    ((resolutionAlone engine.registry _ record').toView watermark) stored apart linked ?_
  intro fields same
  cases same
  rw [FieldDiff.decode_encode]
  exact ⟨field, changed, covers⟩

/-- An author and a book of theirs. -/
def authored : List Edit := [
  .put ⟨1⟩ ⟨"Author"⟩ (.ofText "name" "Ann") none,
  .put ⟨2⟩ ⟨"Book"⟩ (.ofText "author" (Uuid.text ⟨1⟩)) none]

/-- Renaming an author selects the view of the book. -/
theorem renamed_author_selects_book :
    ∃ old new resolution again keys,
      (Edit.worldAfter (.precise .books) authored).write.record? ⟨1⟩ = some old ∧
      (Edit.worldAfter (.precise .books) (authored ++
        [.put ⟨1⟩ ⟨"Author"⟩ (.ofText "name" "Eve") none])).write.record? ⟨1⟩ = some new ∧
      ((resolveAlone .books ⟨2⟩).on (Edit.worldAfter (.precise .books) authored)).1 =
        .ok resolution ∧
      ((resolveAlone .books ⟨2⟩).on (Edit.worldAfter (.precise .books) (authored ++
        [.put ⟨1⟩ ⟨"Author"⟩ (.ofText "name" "Eve") none]))).1 = .ok again ∧
      resolution.document.plain ≠ again.document.plain ∧ ⟨1⟩ ∈ resolution.linked ∧
      ((scope (.precise .books) ⟨1⟩
          (some (FieldDiff.encode old.itemType old.properties new.properties))).on
        { Edit.worldAfter (.precise .books) (authored ++
            [.put ⟨1⟩ ⟨"Author"⟩ (.ofText "name" "Eve") none]) with
          read := .memory (MemoryViews.empty.put (resolution.toView 2)) }).1 = .ok keys ∧
      ⟨⟨"Book"⟩, ⟨2⟩⟩ ∈ keys := by
  have before : ((Edit.worldAfter (.precise .books) authored).write.record? ⟨1⟩).isSome := by
    decide +kernel
  have after : ((Edit.worldAfter (.precise .books) (authored ++
      [.put ⟨1⟩ ⟨"Author"⟩ (.ofText "name" "Eve") none])).write.record? ⟨1⟩).isSome := by
    decide +kernel
  have ann : ((resolveAlone .books ⟨2⟩).on
      (Edit.worldAfter (.precise .books) authored)).1.toOption.map (fun resolution =>
        (resolution.record.key, resolution.document.plain.get? "label" >>= Json.text?)) =
          some (⟨⟨"Book"⟩, ⟨2⟩⟩, some "? (Ann)") := by
    decide +kernel
  have eve : ((resolveAlone .books ⟨2⟩).on (Edit.worldAfter (.precise .books) (authored ++
      [.put ⟨1⟩ ⟨"Author"⟩ (.ofText "name" "Eve") none]))).1.toOption.map (fun resolution =>
        resolution.document.plain.get? "label" >>= Json.text?) = some (some "? (Eve)") := by
    decide +kernel
  obtain ⟨old, foundOld⟩ := Option.isSome_iff_exists.mp before
  obtain ⟨new, foundNew⟩ := Option.isSome_iff_exists.mp after
  obtain ⟨resolution, resolved, seen⟩ := Action.ok_of_seen _ ann
  obtain ⟨key, label⟩ := Prod.mk.inj seen
  obtain ⟨again, resolvedAgain, changed⟩ := Action.ok_of_seen _ eve
  have differs : resolution.document.plain ≠ again.document.plain := by
    intro same
    rw [same, changed] at label
    exact absurd label (by decide)
  have book : resolution.record.itemType = ⟨"Book"⟩ := congrArg EntityKey.itemType key
  have owner : resolution.record.uuid = ⟨2⟩ := congrArg EntityKey.uuid key
  obtain ⟨linked, selected⟩ := scope_contains_changed_documents (.precise .books)
    (Registry.built_ofDecls _) Registry.books_pure Registry.books_nestedApart authored ⟨1⟩ ⟨2⟩
    ⟨"Author"⟩ (.ofText "name" "Eve") none (by decide) (by decide +kernel) (by decide +kernel)
    old new resolution again foundOld foundNew resolved resolvedAgain differs
  obtain ⟨-, contains⟩ := selected (by rw [book]; decide +kernel)
  obtain ⟨keys, found, listed⟩ := contains _ (.put .empty (resolution.toView 2)) 2
    (by rw [MemoryViews.put_views]; exact if_pos owner.symm)
  exact ⟨old, new, resolution, again, keys, foundOld, foundNew, resolved, resolvedAgain, differs,
    linked, found, book ▸ listed⟩

/-- An item in a box on a shelf. -/
def boxed : List Edit := [
  .put ⟨1⟩ ⟨"Item"⟩ (.ofText "name" "old") none,
  .put ⟨2⟩ ⟨"Box"⟩ (.ofText "*" (Uuid.text ⟨1⟩)) none,
  .put ⟨3⟩ ⟨"Shelf"⟩ (.ofText "box" (Uuid.text ⟨2⟩)) none]

/-- A change of the item is not seen to reach the shelf, although the shelf shows the item: the
link between them is named like the wildcard. -/
theorem changed_item_misses_shelf :
    Registry.boxes.Built ∧ Registry.boxes.Pure ∧
      (∀ itemType, Registry.boxes.NestedApart itemType) ∧
      WellTyped .boxes (Edit.worldAfter (.precise .boxes) boxed).write ∧
      WellTyped .boxes (Edit.worldAfter (.precise .boxes)
        (boxed ++ [.put ⟨1⟩ ⟨"Item"⟩ (.ofText "name" "new") none])).write ∧
      ∃ resolution again,
        ((resolveAlone .boxes ⟨3⟩).on (Edit.worldAfter (.precise .boxes) boxed)).1 =
          .ok resolution ∧
        ((resolveAlone .boxes ⟨3⟩).on (Edit.worldAfter (.precise .boxes)
          (boxed ++ [.put ⟨1⟩ ⟨"Item"⟩ (.ofText "name" "new") none]))).1 = .ok again ∧
        resolution.document.plain ≠ again.document.plain ∧
        reaches (.precise .boxes) ⟨"Shelf"⟩ ⟨"Item"⟩ (FieldDiff.changedFields
          (.ofText "name" "old") (.ofText "name" "new")).toList = false ∧
        ((scope (.precise .boxes) ⟨1⟩ (some (FieldDiff.encode ⟨"Item"⟩
            (.ofText "name" "old") (.ofText "name" "new")))).on
          { Edit.worldAfter (.precise .boxes)
              (boxed ++ [.put ⟨1⟩ ⟨"Item"⟩ (.ofText "name" "new") none]) with
            read := .memory (MemoryViews.empty.put (resolution.toView 3)) }).1 = .ok {} := by
  have old : ((resolveAlone .boxes ⟨3⟩).on
      (Edit.worldAfter (.precise .boxes) boxed)).1.toOption.map (fun resolution =>
        (resolution.document.plain.get? "shown" >>= Json.get? "name" >>= Json.text?,
          ((scope (.precise .boxes) ⟨1⟩ (some (FieldDiff.encode ⟨"Item"⟩
              (.ofText "name" "old") (.ofText "name" "new")))).on
            { Edit.worldAfter (.precise .boxes)
                (boxed ++ [.put ⟨1⟩ ⟨"Item"⟩ (.ofText "name" "new") none]) with
              read := .memory (MemoryViews.empty.put (resolution.toView 3)) }).1.toOption)) =
          some (some "old", some {}) := by
    decide +kernel
  have new : ((resolveAlone .boxes ⟨3⟩).on (Edit.worldAfter (.precise .boxes)
      (boxed ++ [.put ⟨1⟩ ⟨"Item"⟩ (.ofText "name" "new") none]))).1.toOption.map
        (fun resolution =>
          resolution.document.plain.get? "shown" >>= Json.get? "name" >>= Json.text?) =
          some (some "new") := by
    decide +kernel
  obtain ⟨resolution, resolved, seen⟩ := Action.ok_of_seen _ old
  obtain ⟨again, resolvedAgain, changed⟩ := Action.ok_of_seen _ new
  obtain ⟨shown, none⟩ := Prod.mk.inj seen
  refine ⟨Registry.built_ofDecls _, Registry.boxes_pure, Registry.boxes_nestedApart,
    by decide +kernel, by decide +kernel, resolution, again, resolved, resolvedAgain, ?_,
    by decide +kernel, Action.ok_of_toOption none⟩
  intro same
  rw [same, changed] at shown
  exact absurd shown (by decide)

end Invalidation

end CachedViews
