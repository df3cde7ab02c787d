import CachedViews.Proofs.Embedding.Loading
import CachedViews.Proofs.Freshness
import CachedViews.Proofs.Indexing.Cycle
import CachedViews.Proofs.WriteStore.Trails

/-!
The watermark of a batch. Views built in a batch may be older than the write store, since records
are cached for the whole batch while writers go on; their watermark says how old. It is kept
apart here what a watermark below the batch's own says, and what one that was raised to the stamp
of a root written in the middle of the batch says.
-/
namespace CachedViews

namespace Freshness

open WriteStore

theorem mem_reasonsIn {store : WriteStore} {view : View} {linked : Uuid}
    {record : EntityRecord} (inside : linked ∈ view.linked)
    (found : store.record? linked = some record) (above : view.maxSid < record.sid) :
    reasonsIn store view = [.entityPurged] ∨
      .linkAdvanced linked record.sid ∈ reasonsIn store view := by
  unfold reasonsIn
  cases store.record? view.uuid with
  | none => exact Or.inl rfl
  | some root =>
    refine Or.inr (List.mem_append_left _ (List.mem_append_right _ ?_))
    have current := currentSids_get? store (List.mem_cons_of_mem view.uuid inside)
    rw [found] at current
    exact List.mem_filterMap.mpr ⟨linked, inside, by rw [current]; exact if_pos above⟩

end Freshness

namespace Indexing

open CachedViews.Action CachedViews.Embedding WriteStore

variable {engine : Engine} {snapshot : Sid} {past : List WriteStore} {world : World}

/-- Worlds of a batch, along with every write store that there has been: calls made the first of
them out of an empty one, and in the batch calls and deliveries come in any order. The batch's
snapshot is the stamp that the store had reached, and all its deliveries share one cache. -/
inductive InBatch (engine : Engine) (snapshot : Sid) : List WriteStore → World → Prop where
  | start {past : List WriteStore} {world : World}
    (trail : StoreCall.Trail .empty past world.write) (stamp : snapshot = world.write.maxSid)
    (truthful : world.Truthful) (uncached : world.cache = {}) : InBatch engine snapshot past world
  | call {past : List WriteStore} {world : World} (before : InBatch engine snapshot past world)
    (call : StoreCall) :
    InBatch engine snapshot (past ++ [(call.run.on world).2.write]) (call.run.on world).2
  | handle {past : List WriteStore} {world : World} (before : InBatch engine snapshot past world)
    (delivery : Delivery) :
    InBatch engine snapshot past ((process engine delivery snapshot).on world).2

/-- What a batch relies on: each record that it has cached is the newest up to the snapshot. -/
structure Current (snapshot : Sid) (past : List WriteStore) (world : World) : Prop where
  trail : StoreCall.Trail .empty past world.write
  truthful : world.Truthful
  reached : snapshot ≤ world.write.maxSid
  cached : ∀ uuid entry, world.cache.get? uuid = some entry →
    UpTo past world.write snapshot uuid entry

theorem bounded_empty : Bounded .empty := by
  intro uuid revision inside
  cases inside

theorem Current.ahead (current : Current snapshot past world) : Ahead past world.write :=
  current.trail.ahead bounded_empty

theorem Current.running (current : Current snapshot past world) (running : Cycle) :
    Current snapshot past { world with cycle := some running } where
  trail := current.trail
  truthful := ⟨current.truthful.unstale, current.truthful.found⟩
  reached := current.reached
  cached := current.cached

/-- A cycle caches what is current. -/
theorem Current.asked {P : View → Prop} {after : World} (current : Current snapshot past world)
    (asked : World.Asked P world after) : Current snapshot past after where
  trail := asked.write ▸ current.trail
  truthful := asked.truthful current.truthful
  reached := asked.write ▸ current.reached
  cached uuid entry held := by
    rw [asked.write]
    rcases asked.cache current.truthful uuid entry held with before | rfl
    · exact current.cached uuid entry before
    · exact .of_current current.ahead snapshot uuid

theorem InBatch.current (batch : InBatch engine snapshot past world) :
    Current snapshot past world := by
  induction batch with
  | start trail stamp truthful uncached =>
    refine ⟨trail, truthful, Int.le_of_eq stamp, fun uuid entry held => ?_⟩
    rw [uncached] at held
    cases held
  | call before call ih =>
    obtain ⟨now, outages, delays, store, after, moves⟩ := call.run_after ih.ahead.bounded_now
    have trail := ih.trail.call call
    rw [after] at trail ⊢
    exact ⟨trail, ⟨ih.truthful.unstale, ih.truthful.found⟩,
      Int.le_trans ih.reached moves.maxSid_le, fun uuid entry held =>
        (ih.cached uuid entry held).moved ih.ahead.listed moves ih.reached⟩
  | @handle past world before delivery ih =>
    obtain ⟨running, outcome, metrics, failures, queue, ended, -⟩ :=
      process_on engine delivery snapshot world
    rw [ended]
    obtain ⟨trail, ⟨unstale, found⟩, reached, cached⟩ :=
      (ih.running running).asked (rebuild_asks engine delivery.message snapshot _)
    exact ⟨trail, ⟨unstale, found⟩, reached, cached⟩

/-- A check of freshness, now or later, tells that an entity was written since it was read. -/
def Reports (now : WriteStore) (view : View) (linked : Uuid) (entry : Option EntityRecord) : Prop :=
  ∀ past later record, StoreCall.Trail now past later.write → later.Calm →
    later.write.record? linked = some record → (∀ read, entry = some read → read.sid < record.sid) →
      ∃ found, (Freshness.reasons view).on later = (.ok found, later) ∧
        (found = [.entityPurged] ∨ .linkAdvanced linked record.sid ∈ found)

/-- A view that a batch may store. It is made of the current record of its entity and of what the
batch read of the others. None of these was outdated as far as the batch's snapshot goes. When the
root is not newer than the snapshot, or another entity was first read for this very view, that one
was not outdated as far as the view's watermark goes, and it is noticed if it ever gets so. -/
def Honest (registry : Registry) (snapshot : Sid) (past : List WriteStore) (world : World)
    (view : View) : Prop :=
  ∃ resolution records, view = resolution.toView snapshot ∧
    world.write.record? view.uuid = some resolution.record ∧
    BuiltFrom registry records resolution ∧
    ∀ linked ∈ view.linked, ∀ entry, records.get? linked = some entry →
      UpTo past world.write snapshot linked entry ∧
        (view.sid ≤ snapshot ∨ world.cache.contains linked = false →
          UpTo past world.write view.maxSid linked entry ∧
            Reports world.write view linked entry)

theorem Current.reports (current : Current snapshot past world) {view : View} {linked : Uuid}
    {entry : Option EntityRecord} (inside : linked ∈ view.linked)
    (below : view.maxSid ≤ world.write.maxSid)
    (upTo : UpTo past world.write view.maxSid linked entry) :
    Reports world.write view linked entry := by
  intro follow later record trail calm found outdated
  refine ⟨_, Freshness.reasons_on calm view, Freshness.mem_reasonsIn inside found ?_⟩
  obtain ⟨-, origins⟩ := trail.old_or_later current.ahead.bounded_now
  -- The record is a revision that the batch's store had, and then a newer one than was read, or
  -- it was written after the view was built.
  rcases origins linked _ (List.mem_of_getLast? (getLast?_of_record? found)) with held | written
  · apply Int.not_le.mp
    intro old
    cases read : entry with
    | none => exact absurd old (Int.not_le.mpr (upTo.missing read _ held))
    | some used =>
      have newest := upTo.newest used read _ current.ahead.listed _ held old
      exact absurd (outdated used read) (Int.not_lt.mpr newest)
  · exact Int.lt_of_le_of_lt below written

theorem Current.honest (current : Current snapshot past world) {uuid : Uuid}
    {resolution : Resolution} {after : World}
    (ended : (resolve engine.registry uuid none).on world = (.ok resolution, after)) :
    Honest engine.registry snapshot past world (resolution.toView snapshot) := by
  obtain ⟨found, -, records, built, read⟩ := resolve_built current.truthful ended
  obtain rfl := record?_uuid found
  refine ⟨resolution, records, rfl, found, built, ?_⟩
  intro linked inside entry held
  have rooted : resolution.record.sid ≤ world.write.maxSid := current.ahead.bounded_now _ _
    (List.mem_of_getLast? (getLast?_of_record? found))
  have below : (resolution.toView snapshot).maxSid ≤ world.write.maxSid :=
    Int.max_le.mpr ⟨current.reached, rooted⟩
  have upTo : UpTo past world.write snapshot linked entry := by
    rcases read linked entry held with before | rfl
    · exact current.cached linked entry before
    · exact .of_current current.ahead snapshot linked
  refine ⟨upTo, fun exempt => ?_⟩
  have watermark : UpTo past world.write (resolution.toView snapshot).maxSid linked entry := by
    rcases exempt with covered | unread
    · have same : (resolution.toView snapshot).maxSid = snapshot := Int.max_eq_left covered
      rw [same]
      exact upTo
    · rcases read linked entry held with before | rfl
      · rw [SortedMap.contains, before] at unread
        cases unread
      · exact .of_current current.ahead _ linked
  exact ⟨watermark, current.reports inside below watermark⟩

/-- A cycle stores honest views only. -/
theorem Current.rebuild_asks (current : Current snapshot past world) (message : Message) :
    World.Asked (Honest engine.registry snapshot past world) world
      ((rebuild engine message snapshot).on world).2 :=
  rebuild_asks_of engine message fun _ _ ended => current.honest ended

/-- Every view that a batch stores is honest, whatever was written while the batch went on. -/
theorem InBatch.stores_honest (batch : InBatch engine snapshot past world) (delivery : Delivery) :
    ReadStore.Updates (Honest engine.registry snapshot past world) world.read
      ((process engine delivery snapshot).on world).2.read := by
  obtain ⟨running, outcome, metrics, failures, queue, ended, -⟩ :=
    process_on engine delivery snapshot world
  rw [ended]
  exact ((batch.current.running running).rebuild_asks delivery.message).read

/-- Nothing is exempt as long as no writer comes between the deliveries of a batch. -/
theorem InBatch.covered_of_quiet (batch : InBatch engine snapshot past world)
    (quiet : world.write.maxSid ≤ snapshot) {view : View}
    (honest : Honest engine.registry snapshot past world view) : view.sid ≤ snapshot := by
  obtain ⟨resolution, records, rfl, found, -⟩ := honest
  have stamped := batch.current.ahead.bounded_now _ _
    (List.mem_of_getLast? (getLast?_of_record? found))
  exact Int.le_trans stamped quiet

namespace Renaming

def author (name : String) : EntityWrite := ⟨.ofText "name" name, {}, {}, {}⟩

def book : EntityWrite :=
  ⟨.ofText "author" (Uuid.text ⟨1⟩), {}, .ofList [⟨"author", ⟨1⟩⟩], {}⟩

def next (world : World) (call : StoreCall) : World := (call.run.on world).2

def handled (world : World) (receipt : Nat) (itemType : ItemType) (uuid : Uuid) : World :=
  ((process (.precise .books)
    ⟨receipt, .primary, .primary ⟨itemType, uuid⟩ (some receipt) none⟩ 2).on world).2

/-- An author and a book. -/
def written : World :=
  { World.start (.memory .empty) with
    write := (next (next (.start (.memory .empty)) (.create ⟨1⟩ ⟨"Author"⟩ (author "Ann")))
      (.create ⟨2⟩ ⟨"Book"⟩ book)).write }

/-- The author is renamed once the batch has dealt with it. -/
def renamed : World :=
  next (handled written 1 ⟨"Author"⟩ ⟨1⟩) (.update ⟨1⟩ (author "Eve") none)

/-- The book is written again as well. -/
def rewritten : World := next renamed (.update ⟨2⟩ book none)

theorem inBatch_renamed : ∃ past, InBatch (.precise .books) 2 past renamed :=
  have created : StoreCall.Trail .empty [.empty] (World.start (.memory .empty)).write := .start
  have trail := (created.call (.create ⟨1⟩ ⟨"Author"⟩ (author "Ann"))).call
    (.create ⟨2⟩ ⟨"Book"⟩ book)
  have batch : InBatch (.precise .books) 2 _ written :=
    .start trail (by decide +kernel) ⟨List.not_mem_nil, List.not_mem_nil⟩ rfl
  ⟨_, (batch.handle _).call _⟩

theorem inBatch_rewritten : ∃ past, InBatch (.precise .books) 2 past rewritten :=
  have ⟨_, batch⟩ := inBatch_renamed
  ⟨_, batch.call _⟩

/-- The author's name in the view of the book. -/
def shown (view : View) : Option String :=
  view.embedded.plain.get? "author" >>= Json.get? "name" >>= Json.text?

/-- Stamps and names of the author. -/
def names (store : WriteStore) : List (Sid × Option String) :=
  (store.revisions ⟨1⟩).map fun revision =>
    (revision.sid, revision.properties.get? "name" >>= Json.text?)

end Renaming

open Renaming in
/-- A book that is written again in the middle of a batch shows its author as the batch had read
it, under a watermark that covers the author's new name. Its view counts as fresh. -/
theorem rewritten_book_hides_renaming :
    (∃ past, InBatch (.precise .books) 2 past rewritten) ∧
      names rewritten.write = [(1, some "Ann"), (3, some "Eve")] ∧
      ∃ view, ((Action.view ⟨2⟩).on (handled rewritten 2 ⟨"Book"⟩ ⟨2⟩)).1 = .ok view ∧
        (⟨1⟩ : Uuid) ∈ view.linked ∧ view.maxSid = 4 ∧ shown view = some "Ann" ∧
        ((Freshness.reasons view).on (handled rewritten 2 ⟨"Book"⟩ ⟨2⟩)).1 = .ok [] := by
  have looked : ((Action.view ⟨2⟩).on (handled rewritten 2 ⟨"Book"⟩ ⟨2⟩)).1.toOption.map
      (fun view => (view.linked.toList, view.maxSid, shown view,
        ((Freshness.reasons view).on (handled rewritten 2 ⟨"Book"⟩ ⟨2⟩)).1.toOption)) =
      some ([⟨1⟩], 4, some "Ann", some []) := by
    decide +kernel
  obtain ⟨view, found, seen⟩ := Action.ok_of_seen _ looked
  obtain ⟨linked, maxSid, name, fresh⟩ : _ ∧ _ ∧ _ ∧ _ := by
    simpa only [Prod.mk.injEq] using seen
  refine ⟨inBatch_rewritten, by decide +kernel, view, found, ?_, maxSid, name,
    Action.ok_of_toOption fresh⟩
  rw [SortedSet.mem_def, linked]
  exact List.mem_singleton_self _

open Renaming in
/-- As long as the book is not written again, the renaming of its author will be noticed. -/
theorem renaming_is_noticed :
    ∃ past view entry, InBatch (.precise .books) 2 past renamed ∧
      (handled renamed 2 ⟨"Book"⟩ ⟨2⟩).read.Shows view ∧ (⟨1⟩ : Uuid) ∈ view.linked ∧
      UpTo past renamed.write view.maxSid ⟨1⟩ entry ∧ Reports renamed.write view ⟨1⟩ entry := by
  have looked : ((handled renamed 2 ⟨"Book"⟩ ⟨2⟩).read.slot? ⟨2⟩).map
      (Sum.map (fun view => (view.linked.toList, view.sid)) fun _ => ()) =
        some (.inl ([⟨1⟩], 2)) := by
    decide +kernel
  have before : (renamed.read.slot? ⟨2⟩).isNone = true := by
    decide +kernel
  have stores : ∀ {past : List WriteStore} {world : World}, InBatch (.precise .books) 2 past world →
      ReadStore.Updates (Honest .books 2 past world) world.read
        (handled world 2 ⟨"Book"⟩ ⟨2⟩).read := fun batch => batch.stores_honest _
  obtain ⟨past, batch⟩ := inBatch_renamed
  rcases stores batch ⟨2⟩ with same | gone | ⟨view, honest, named, shows⟩
  · rw [same, Option.isNone_iff_eq_none.mp before] at looked
    cases looked
  · rw [gone] at looked
    cases looked
  · have seen : view.linked.toList = [⟨1⟩] ∧ view.sid = 2 := by
      rcases shows with whole | text
      · rw [named] at whole
        rw [whole] at looked
        simpa using looked
      · rw [named] at text
        rw [text] at looked
        cases looked
    have linked : (⟨1⟩ : Uuid) ∈ view.linked := by
      rw [SortedSet.mem_def, seen.1]
      exact List.mem_singleton_self _
    obtain ⟨resolution, records, rfl, -, built, each⟩ := honest
    obtain ⟨entry, held⟩ := Option.isSome_iff_exists.mp (built.loaded ⟨1⟩ linked)
    obtain ⟨upTo, reports⟩ := (each ⟨1⟩ linked entry held).2 (Or.inl (Int.le_of_eq seen.2))
    exact ⟨past, _, entry, batch, shows, linked, upTo, reports⟩

end Indexing

end CachedViews
