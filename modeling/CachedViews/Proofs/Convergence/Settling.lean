import CachedViews.Proofs.Embedding.Kept
import CachedViews.Proofs.Invalidation.Completeness
import CachedViews.Proofs.Service.Commands

/-!
Stored views on their way to the current state. A view whose entity is not owed a rebuild was
built in an earlier store, and every difference since then is announced by a rebuild that is
owed for the first changed entity on the way: that rebuild will select the view.
-/
namespace CachedViews

namespace Convergence

open CachedViews.Embedding WriteStore Invalidation

variable {engine : Engine} {registry : Registry} {write next earlier : WriteStore}
  {store : MemoryViews} {owed after : Rebuild → Prop} {view : View} {record : EntityRecord}

/-- Some rebuild of an entity is owed. -/
def Owes (owed : Rebuild → Prop) (uuid : Uuid) : Prop :=
  ∃ rebuild, owed rebuild ∧ rebuild.uuid = uuid

/-- A rebuild is owed that selects the dependents of one type. -/
def Hot (engine : Engine) (write : WriteStore) (owed : Rebuild → Prop) (dependent : ItemType)
    (uuid : Uuid) : Prop :=
  ∃ record rebuild, write.record? uuid = some record ∧ owed rebuild ∧ rebuild.uuid = uuid ∧
    rebuild.strict = false ∧ Selects engine dependent record.itemType rebuild.diff

/-- Paths that the index of read properties accounts for. -/
def Route (registry : Registry) (itemType : ItemType) (followLast : Bool) (path : String) : Prop :=
  followLast = false ∧ path ∈ registry.embedPaths itemType ∨
    followLast = true ∧ path ∈ calculatedPaths registry itemType ∧ registry.WildcardApart itemType

/-- A view as it was built from an earlier store. -/
structure Origin (registry : Registry) (write : WriteStore) (view : View) (earlier : WriteStore)
    (record : EntityRecord) : Prop where
  history : History earlier write
  consistent : Consistent registry earlier
  typed : WellTyped registry earlier
  found : earlier.record? record.uuid = some record
  built : ∃ cache watermark, watermark ≤ earlier.maxSid ∧
    (∀ uuid ∈ loaded registry earlier (registry.embedPaths record.itemType) record,
      cache.record? uuid = earlier.record? uuid) ∧
    view = (resolution registry earlier cache (registry.embedPaths record.itemType)
      record).toView watermark

/-- The entity is as it was, and so is all that was read on the way, up to what is hot. -/
structure Tracks (engine : Engine) (write : WriteStore) (owed : Rebuild → Prop)
    (earlier : WriteStore) (record : EntityRecord) : Prop where
  current : write.record? record.uuid = some record
  along : ∀ reads, engine.registry.reads? record.itemType = some reads → ∀ followLast path,
    Route engine.registry record.itemType followLast path →
      Kept engine.registry earlier.record? write.record? (Hot engine write owed record.itemType)
        reads followLast (Path.segments path) record

structure Settling (engine : Engine) (write : WriteStore) (store : MemoryViews)
    (owed : Rebuild → Prop) : Prop where
  live : ∀ uuid view, store.views.get? uuid = some view → ∃ record, write.record? uuid = some record
  present : ∀ uuid record, write.record? uuid = some record →
    Owes owed uuid ∨ ∃ view, store.views.get? uuid = some view
  tracked : ∀ uuid view, store.views.get? uuid = some view → ∃ earlier record, record.uuid = uuid ∧
    Origin engine.registry write view earlier record ∧
      (Owes owed uuid ∨ Tracks engine write owed earlier record)

theorem Route.visits {lookup : Uuid → Option EntityRecord} {followLast : Bool} {path : String}
    (route : Route registry record.itemType followLast path) {uuid : Uuid}
    (meets : Meets registry lookup followLast (Path.segments path) record uuid) :
    Visits registry lookup record uuid := by
  rcases route with ⟨rfl, listed⟩ | ⟨rfl, listed, -⟩
  · exact Or.inl ⟨path, listed, meets⟩
  · exact Or.inr ⟨path, listed, meets⟩

/-- Whatever a route reads is read according to the index. -/
theorem Route.covers (built : registry.Built) {itemType : ItemType} {followLast : Bool}
    {path : String} (route : Route registry itemType followLast path) {reads : Reads}
    (read : registry.reads? itemType = some reads) :
    Named registry followLast itemType (Path.segments path) ∧
      registry.Covers reads followLast itemType (Path.segments path) := by
  obtain ⟨embedded, calculated⟩ := Registry.covers_reads read
  rcases route with ⟨rfl, listed⟩ | ⟨rfl, listed, wildcard⟩
  · exact ⟨named_of_wildcardLast _ (built.wildcardLast listed), embedded path listed⟩
  · exact ⟨wildcard path listed, calculated path listed⟩

namespace Origin

theorem later (origin : Origin registry write view earlier record) (history : History write next) :
    Origin registry next view earlier record :=
  ⟨origin.history.trans history, origin.consistent, origin.typed, origin.found, origin.built⟩

variable (origin : Origin registry write view earlier record)
include origin

theorem itemType : view.itemType = record.itemType := by
  obtain ⟨_, _, -, -, rfl⟩ := origin.built
  rfl

theorem sid : view.sid = record.sid := by
  obtain ⟨_, _, -, -, rfl⟩ := origin.built
  rfl

theorem mem_linked_iff (uuid : Uuid) :
    uuid ∈ view.linked ↔ Visits registry earlier.record? record uuid ∧ uuid ≠ record.uuid := by
  obtain ⟨cache, _, -, -, rfl⟩ := origin.built
  exact mem_resolution_linked_iff origin.found cache uuid

/-- No view is newer than the record of its entity. -/
theorem sid_le {current : EntityRecord} (found : write.record? record.uuid = some current) :
    view.sid ≤ current.sid := by
  rw [origin.sid]
  apply Int.not_lt.mp
  intro less
  have old : current.sid ≤ earlier.maxSid :=
    Int.le_trans (Int.le_of_lt less) (origin.consistent.record_sid_le origin.found)
  have before := origin.history.kept found old
  rw [origin.found] at before
  cases before
  exact Int.lt_irrefl _ less

end Origin

/-- A view just built tracks whatever is owed. -/
theorem tracks_now (found : write.record? record.uuid = some record) :
    Tracks engine write owed write record :=
  ⟨found, fun _ _ _ _ _ => .of_agrees fun _ _ => .refl _ _⟩

/-- More may be owed, and a rebuild of an entity that was not visited may be done with. -/
theorem Tracks.mono (tracks : Tracks engine write owed earlier record)
    (heats : ∀ uuid, Visits engine.registry earlier.record? record uuid →
      Hot engine write owed record.itemType uuid → Hot engine write after record.itemType uuid) :
    Tracks engine write after earlier record where
  current := tracks.current
  along reads read followLast path route := (tracks.along reads read followLast path route).step
    (fun uuid meets hit => heats uuid (route.visits meets) hit) fun _ _ => Or.inr (.refl _ _)

theorem Hot.mono {dependent : ItemType} {uuid : Uuid} (hot : Hot engine write owed dependent uuid)
    (grows : ∀ rebuild, rebuild.uuid = uuid → owed rebuild → after rebuild) :
    Hot engine write after dependent uuid := by
  obtain ⟨record, rebuild, found, pending, same, rest⟩ := hot
  exact ⟨record, rebuild, found, grows rebuild same pending, same, rest⟩

theorem Owes.mono {uuid : Uuid} (owes : Owes owed uuid)
    (grows : ∀ rebuild, rebuild.uuid = uuid → owed rebuild → after rebuild) : Owes after uuid := by
  obtain ⟨rebuild, pending, same⟩ := owes
  exact ⟨rebuild, grows rebuild same pending, same⟩

theorem Settling.start : Settling engine .empty .empty owed where
  live uuid view stored := by cases stored
  present uuid record found := by cases found
  tracked uuid view stored := by cases stored

/-- Owing more keeps everything. -/
theorem Settling.grow (settling : Settling engine write store owed)
    (grows : ∀ rebuild, owed rebuild → after rebuild) : Settling engine write store after where
  live := settling.live
  present uuid record found :=
    (settling.present uuid record found).imp_left fun owes => owes.mono fun r _ => grows r
  tracked uuid view stored := by
    obtain ⟨earlier, record, same, origin, either⟩ := settling.tracked uuid view stored
    refine ⟨earlier, record, same, origin, either.imp (fun owes => owes.mono fun r _ => grows r) ?_⟩
    exact fun tracks => tracks.mono fun uuid _ hot => hot.mono fun r _ => grows r

/-- A write heats its entity for a type of views, or changes nothing that the type reads. -/
theorem hot_or_agrees_of_wrote {new : EntityRecord} {dependent : ItemType} {reads : Reads}
    (wrote : Wrote write new next) (read : engine.registry.reads? dependent = some reads)
    {diff : Option (List String)} (sent : after ⟨new.uuid, false, diff⟩)
    (told : diff = (write.record? new.uuid).map fun old =>
      FieldDiff.encode new.itemType old.properties new.properties) :
    Hot engine next after dependent new.uuid ∨
      AgreesAt reads (write.record? new.uuid) (next.record? new.uuid) := by
  have hot : Selects engine dependent new.itemType diff → Hot engine next after dependent new.uuid :=
    fun selects => ⟨new, _, wrote.record?_new, sent, rfl, rfl, selects⟩
  rw [wrote.record?_new]
  cases found : write.record? new.uuid with
  | none =>
    -- A new entity is announced without a diff, which selects every dependent.
    rw [found] at told
    exact Or.inl (hot fun fields some => by rw [told] at some; cases some)
  | some old =>
    rw [found] at told
    by_cases covered : ∃ field ∈ FieldDiff.changedFields old.properties new.properties,
        reads.covers new.itemType field = true
    · obtain ⟨field, changed, covers⟩ := covered
      apply Or.inl
      apply hot
      intro fields some
      rw [told] at some
      cases some
      rw [FieldDiff.decode_encode]
      refine ⟨field, changed, fun others known => ?_⟩
      rw [read] at known
      cases known
      exact covers
    · apply Or.inr
      apply agrees_of_uncovered (record?_uuid found) (wrote.typed old found)
      intro field changed
      rw [wrote.typed old found]
      exact Bool.eq_false_iff.mpr fun covers => covered ⟨field, changed, covers⟩

/-- A view tracks on through a write of another entity. -/
theorem Tracks.wrote {new : EntityRecord} (tracks : Tracks engine write owed earlier record)
    (wrote : Wrote write new next) (apart : record.uuid ≠ new.uuid)
    (grows : ∀ rebuild, owed rebuild → after rebuild) {diff : Option (List String)}
    (sent : after ⟨new.uuid, false, diff⟩)
    (told : diff = (write.record? new.uuid).map fun old =>
      FieldDiff.encode new.itemType old.properties new.properties) :
    Tracks engine next after earlier record where
  current := by
    rw [wrote.record?_of_ne apart]
    exact tracks.current
  along reads read followLast path route := by
    apply (tracks.along reads read followLast path route).step
    -- What was hot stays hot.
    · rintro uuid - ⟨found, rebuild, current, pending, same, strict, selects⟩
      by_cases here : uuid = new.uuid
      · subst here
        exact ⟨new, rebuild, wrote.record?_new, grows rebuild pending, same, strict,
          wrote.typed found current ▸ selects⟩
      · refine ⟨found, rebuild, ?_, grows rebuild pending, same, strict, selects⟩
        rw [wrote.record?_of_ne here]
        exact current
    · intro uuid _
      by_cases here : uuid = new.uuid
      · subst here
        exact hot_or_agrees_of_wrote wrote read sent told
      · rw [wrote.record?_of_ne here]
        exact Or.inr (.refl _ _)

/-- What is written is queued with the fields that changed. -/
theorem Settling.wrote {new : EntityRecord} (settling : Settling engine write store owed)
    (wrote : Wrote write new next) (grows : ∀ rebuild, owed rebuild → after rebuild)
    {diff : Option (List String)} (sent : after ⟨new.uuid, false, diff⟩)
    (told : diff = (write.record? new.uuid).map fun old =>
      FieldDiff.encode new.itemType old.properties new.properties) :
    Settling engine next store after where
  live uuid view stored := wrote.lives (settling.live uuid view stored)
  present uuid record found := by
    rw [wrote.records] at found
    split at found
    · rename_i same
      exact Or.inl ⟨_, sent, same.symm⟩
    · exact (settling.present uuid record found).imp_left fun owes => owes.mono fun r _ => grows r
  tracked uuid view stored := by
    obtain ⟨earlier, record, same, origin, either⟩ := settling.tracked uuid view stored
    refine ⟨earlier, record, same, origin.later (History.start.next (.wrote new wrote)), ?_⟩
    -- The view of the written entity is owed a rebuild; every other one tracks on.
    by_cases here : record.uuid = new.uuid
    · exact Or.inl ⟨_, sent, here.symm.trans same⟩
    · refine either.imp (fun owes => owes.mono fun r _ => grows r) fun tracks => ?_
      exact tracks.wrote wrote here grows sent told

/-- A purge cools nothing that a view meets. -/
theorem Tracks.purged (built : engine.registry.Built) {gone : Uuid}
    (tracks : Tracks engine write owed earlier record)
    (origin : Origin engine.registry write view earlier record)
    (consistent : Consistent engine.registry write) (purged : Purged write gone next)
    (apart : record.uuid ≠ gone) (grows : ∀ rebuild, owed rebuild → after rebuild) :
    Tracks engine next after earlier record where
  current := by
    rw [purged.record?_of_ne apart]
    exact tracks.current
  along reads read followLast path route := by
    obtain ⟨named, covers⟩ := route.covers built read
    have kept := (tracks.along reads read followLast path route).purged
      (linksSound origin.consistent origin.typed) consistent purged ⟨_, origin.found⟩
      tracks.current (.refl _ _) apart named covers
    refine kept.step ?_ fun _ _ => Or.inr (.refl _ _)
    rintro uuid - ⟨⟨found, rebuild, current, pending, rest⟩, left⟩
    refine ⟨found, rebuild, ?_, grows rebuild pending, rest⟩
    rw [purged.record?_of_ne left]
    exact current

/-- A purged entity takes its view along. -/
theorem Settling.purged (built : engine.registry.Built) {gone : Uuid}
    (settling : Settling engine write store owed) (consistent : Consistent engine.registry write)
    (purged : Purged write gone next) (grows : ∀ rebuild, owed rebuild → after rebuild) :
    Settling engine next (store.delete gone).2 after where
  live uuid view stored := by
    rw [MemoryViews.delete_views] at stored
    split at stored
    · cases stored
    · rename_i apart
      rw [purged.record?_of_ne apart]
      exact settling.live uuid view stored
  present uuid record found := by
    rw [purged.records] at found
    split at found
    · cases found
    · rename_i apart
      rw [MemoryViews.delete_views, if_neg apart]
      exact (settling.present uuid record found).imp_left fun owes => owes.mono fun r _ => grows r
  tracked uuid view stored := by
    rw [MemoryViews.delete_views] at stored
    split at stored
    · cases stored
    · rename_i apart
      obtain ⟨earlier, record, rfl, origin, either⟩ := settling.tracked uuid view stored
      refine ⟨earlier, record, rfl, origin.later (History.start.next (.purged gone purged)), ?_⟩
      refine either.imp (fun owes => owes.mono fun r _ => grows r) fun tracks => ?_
      exact tracks.purged built origin consistent purged apart grows

/-- A rebuild of an entity that is gone leaves no view of it. -/
theorem Settling.removed {gone : Uuid} (settling : Settling engine write store owed)
    (missing : write.record? gone = none)
    (leaves : ∀ rebuild, owed rebuild → rebuild.uuid = gone ∨ after rebuild) :
    Settling engine write (store.delete gone).2 after where
  live uuid view stored := by
    rw [MemoryViews.delete_views] at stored
    split at stored
    · cases stored
    · exact settling.live uuid view stored
  present uuid record found := by
    have apart : uuid ≠ gone := by
      rintro rfl
      rw [missing] at found
      cases found
    rw [MemoryViews.delete_views, if_neg apart]
    refine (settling.present uuid record found).imp_left fun owes => owes.mono fun rebuild same r => ?_
    exact (leaves rebuild r).resolve_left (same ▸ apart)
  tracked uuid view stored := by
    rw [MemoryViews.delete_views] at stored
    split at stored
    · cases stored
    · rename_i apart
      obtain ⟨earlier, record, same, origin, either⟩ := settling.tracked uuid view stored
      refine ⟨earlier, record, same, origin, ?_⟩
      rcases either with owes | tracks
      · refine Or.inl (owes.mono fun rebuild same r => ?_)
        exact (leaves rebuild r).resolve_left (same ▸ apart)
      · refine Or.inr (tracks.mono fun other _ hot => hot.mono fun rebuild same r => ?_)
        refine (leaves rebuild r).resolve_left fun here => ?_
        obtain ⟨found, _, current, -⟩ := hot
        rw [← same, here, missing] at current
        cases current

/-- A stored view that visits a changed entity and reads the change is in the scope of it. -/
theorem mem_scopeIn_of_visits {changed : Uuid} {itemType : ItemType} {diff : Option (List String)}
    (mirrored : store.Mirrored) (stored : store.views.get? record.uuid = some view)
    (origin : Origin registry write view earlier record)
    (visits : Visits registry earlier.record? record changed) (apart : record.uuid ≠ changed)
    (selects : Selects engine record.itemType itemType diff) :
    record.key ∈ scopeIn engine write store changed itemType diff := by
  have links : changed ∈ view.linked := (origin.mem_linked_iff _).mpr ⟨visits, apart.symm⟩
  have listed : record.key ∈ store.findDependents changed :=
    (MemoryViews.mem_findDependents_iff mirrored _ _).mpr ⟨view, stored, origin.itemType, links⟩
  exact mem_scopeIn listed apart selects

/-- A rebuilt view is current, and whatever its rebuild had promised to select is owed now. -/
theorem Settling.indexed (settling : Settling engine write store owed)
    (mirrored : store.Mirrored) {done : Rebuild} (origin : Origin engine.registry write view write record)
    (same : record.uuid = done.uuid)
    (leaves : ∀ rebuild, owed rebuild → rebuild = done ∨ after rebuild)
    (selected : done.strict = false → ∀ key ∈ scopeIn engine write (store.put view) done.uuid
      record.itemType done.diff, Owes after key.uuid) :
    Settling engine write (store.put view) after := by
  have own : view.uuid = record.uuid := by
    obtain ⟨_, _, -, -, rfl⟩ := origin.built
    rfl
  have others : ∀ uuid, uuid ≠ view.uuid → ∀ rebuild, rebuild.uuid = uuid → owed rebuild →
      after rebuild := by
    rintro uuid apart rebuild here pending
    apply (leaves rebuild pending).resolve_left
    rintro rfl
    exact apart (here.symm.trans (same.symm.trans own.symm))
  constructor
  case live =>
    intro uuid stored there
    rw [MemoryViews.put_views] at there
    split at there
    · rename_i here
      exact ⟨record, by rw [here, own]; exact origin.found⟩
    · exact settling.live uuid stored there
  case present =>
    intro uuid found current
    rw [MemoryViews.put_views]
    split
    · exact Or.inr ⟨view, rfl⟩
    · rename_i apart
      exact (settling.present uuid found current).imp_left fun owes => owes.mono (others uuid apart)
  case tracked =>
    intro uuid stored there
    have held := there
    rw [MemoryViews.put_views] at there
    split at there
    · rename_i here
      cases there
      exact ⟨write, record, own.symm.trans here.symm, origin, Or.inr (tracks_now origin.found)⟩
    · rename_i apart
      obtain ⟨earlier, dependent, rfl, source, either⟩ := settling.tracked uuid stored there
      refine ⟨earlier, dependent, rfl, source, ?_⟩
      by_cases owes : Owes after dependent.uuid
      · exact Or.inl owes
      · apply Or.inr
        have tracks := either.resolve_left fun before => owes (before.mono (others _ apart))
        apply tracks.mono
        rintro uuid visits ⟨found, rebuild, current, pending, here, strict, selects⟩
        refine ⟨found, rebuild, current, ?_, here, strict, selects⟩
        -- Were this the rebuild just done, it would have selected the view, which links its entity.
        apply (leaves rebuild pending).resolve_left
        rintro rfl
        have typed : found = record := by
          rw [← here, ← same, origin.found] at current
          exact (Option.some.inj current).symm
        have away : dependent.uuid ≠ rebuild.uuid := fun meets =>
          apart (meets.trans (same.symm.trans own.symm))
        have listed := mem_scopeIn_of_visits (mirrored.put view) held source (here ▸ visits) away
          (typed ▸ selects)
        exact owes (selected strict _ listed)

/-- When nothing waits any more, entities with fresh views need no rebuild. -/
theorem Settling.refresh (settling : Settling engine write store owed)
    (covers : ∀ uuid record, write.record? uuid = some record →
      Owes after uuid ∨ Freshness.IsFresh write store uuid) :
    Settling engine write store after where
  live := settling.live
  present uuid record found := (covers uuid record found).imp_right fun ⟨view, stored, _⟩ =>
    ⟨view, stored⟩
  tracked uuid view stored := by
    obtain ⟨current, found⟩ := settling.live uuid view stored
    obtain ⟨earlier, record, rfl, origin, -⟩ := settling.tracked uuid view stored
    refine ⟨earlier, record, rfl, origin, (covers _ current found).imp_right ?_⟩
    rintro ⟨fresh, there, none⟩
    rw [stored] at there
    cases there
    -- Stamps tell that nothing which the view visited has moved since it was built.
    obtain ⟨now, matched⟩ := (Freshness.reasonsIn_eq_nil_iff view).mp none
    obtain ⟨cache, watermark, bounded, -, rfl⟩ := origin.built
    refine ⟨?_, fun reads read followLast path route => .of_agrees fun uuid meets => ?_⟩
    · rw [← Freshness.root_of_matches origin.consistent origin.history origin.found matched]
      exact origin.found
    · rw [Freshness.visited_of_matches origin.consistent origin.history origin.found bounded
        matched (route.visits meets)]
      exact .refl _ _

/-- The size of batches has no part in this. -/
theorem Settling.taking (settling : Settling engine write store owed) (size : Nat) :
    Settling (engine.taking size) write store owed where
  live := settling.live
  present := settling.present
  tracked uuid view stored := by
    obtain ⟨earlier, record, same, origin, either⟩ := settling.tracked uuid view stored
    exact ⟨earlier, record, same, origin, either.imp_right fun tracks =>
      ⟨tracks.current, tracks.along⟩⟩

theorem Settling.of_taking {size : Nat} (settling : Settling (engine.taking size) write store owed) :
    Settling engine write store owed where
  live := settling.live
  present := settling.present
  tracked uuid view stored := by
    obtain ⟨earlier, record, same, origin, either⟩ := settling.tracked uuid view stored
    exact ⟨earlier, record, same, origin, either.imp_right fun tracks =>
      ⟨tracks.current, tracks.along⟩⟩

/-- When nothing is owed, every stored view is what its entity resolves to now. -/
theorem Settling.settled (settling : Settling engine write store owed)
    (none : ∀ rebuild, ¬ owed rebuild) (built : engine.registry.Built)
    (pure : engine.registry.Pure) (nested : engine.registry.NestedApart record.itemType)
    (consistent : Consistent engine.registry write) (typed : WellTyped engine.registry write)
    (found : write.record? record.uuid = some record) :
    ∃ view, store.views.get? record.uuid = some view ∧ view.sid = record.sid ∧
      (engine.registry.WildcardApart record.itemType →
        view.embedded.plain = (resolutionAlone engine.registry write record).document.plain ∧
          view.linked = (resolutionAlone engine.registry write record).linked) := by
  have unowed : ∀ uuid, ¬ Owes owed uuid := fun _ ⟨rebuild, pending, _⟩ => none rebuild pending
  obtain ⟨view, stored⟩ := (settling.present _ _ found).resolve_left (unowed _)
  obtain ⟨earlier, current, same, origin, either⟩ := settling.tracked _ _ stored
  have tracks := either.resolve_left (unowed _)
  have still : current = record := by
    have now := tracks.current
    rw [same, found] at now
    exact (Option.some.inj now).symm
  subst still
  refine ⟨view, stored, origin.sid, fun wildcard => ?_⟩
  obtain ⟨reads, read⟩ := exists_reads origin.consistent origin.found
  have cold : ∀ uuid, ¬ Hot engine write owed current.itemType uuid :=
    fun _ ⟨_, rebuild, _, pending, _⟩ => none rebuild pending
  have root : Document.RootAgrees engine.registry earlier.record? write.record? reads current := by
    refine ⟨built, nested, wildcard, linksSound origin.consistent origin.typed, ⟨_, origin.found⟩,
      read, ?_⟩
    rintro uuid (⟨path, listed, meets⟩ | ⟨path, listed, meets⟩)
    · exact (tracks.along reads read false path (Or.inl ⟨rfl, listed⟩)).agrees cold meets
    · exact (tracks.along reads read true path (Or.inr ⟨rfl, listed, wildcard⟩)).agrees cold meets
  constructor
  · rw [documentAlone_plain built pure consistent typed found nested wildcard]
    obtain ⟨cache, watermark, -, known, rfl⟩ := origin.built
    exact (document_plain built pure origin.consistent origin.typed origin.found nested wildcard
      known).trans (root.ofRecord_agrees pure)
  · refine SortedSet.ext_mem fun uuid => ?_
    rw [origin.mem_linked_iff, root.visits_iff, resolutionAlone, mem_resolution_linked_iff found]

end Convergence

end CachedViews
