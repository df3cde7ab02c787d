import CachedViews.Proofs.Embedding.Positions
import CachedViews.Proofs.Invalidation.Completeness
import CachedViews.Proofs.Invalidation.Precision

/-!
Which runs keep links well typed. Puts look at no link target, so the types hold as long as every
put brings a record that goes with what is stored, and not beyond. While they hold, precise
invalidation knows every entity that the path of a view comes to by the type that it has.
-/
namespace CachedViews

namespace WriteStore

variable {registry : Registry} {store next : WriteStore} {new : EntityRecord}

/-- Whether a record goes with what is stored: its links lead to entities of the declared types,
itself among them, or to nothing, and the links of others that lead to it declare its type. -/
structure Fits (registry : Registry) (store : WriteStore) (new : EntityRecord) : Prop where
  linking : ∀ link ∈ new.links, ∀ itemType,
    registry.linkTarget? new.itemType link.field = some itemType →
      ∀ target, (if link.target = new.uuid then some new else store.record? link.target) =
        some target → target.itemType = itemType
  linked : ∀ uuid record, uuid ≠ new.uuid → store.record? uuid = some record →
    ∀ link ∈ record.links, link.target = new.uuid →
      ∀ itemType, registry.linkTarget? record.itemType link.field = some itemType →
        new.itemType = itemType

theorem WellTyped.empty : WellTyped registry .empty := by
  intro uuid record found
  cases found

/-- A write keeps links well typed exactly if its record goes with what is stored. -/
theorem Wrote.wellTyped_iff (typed : WellTyped registry store) (wrote : Wrote store new next) :
    WellTyped registry next ↔ Fits registry store new := by
  constructor
  · refine fun after => ⟨fun link listed itemType declared target there => ?_,
      fun uuid record apart found link listed reached itemType declared => ?_⟩
    · rw [← wrote.records] at there
      exact after new.uuid new wrote.record?_new link listed itemType declared target there
    · have still := (wrote.record?_of_ne apart).trans found
      exact after uuid record still link listed itemType declared new (reached ▸ wrote.record?_new)
  · intro fits uuid record found link listed itemType declared target there
    rw [wrote.records] at found there
    -- Either end of the link may be the written record.
    split at found
    · cases found
      exact fits.linking link listed itemType declared target there
    · rename_i apart
      split at there
      · rename_i reached
        cases there
        exact fits.linked uuid record apart found link listed reached itemType declared
      · exact typed uuid record found link listed itemType declared target there

/-- A purge takes records away and changes none. -/
theorem Purged.wellTyped {gone : Uuid} (typed : WellTyped registry store)
    (purged : Purged store gone next) : WellTyped registry next := by
  have before : ∀ uuid record, next.record? uuid = some record → store.record? uuid = some record := by
    intro uuid record found
    rw [purged.records] at found
    split at found
    · cases found
    · exact found
  intro uuid record found link listed itemType declared target there
  exact typed uuid record (before _ _ found) link listed itemType declared target
    (before _ _ there)

end WriteStore

namespace Edit

open WriteStore

variable {engine : Engine} {world : World}

/-- Whether what an edit stores, if anything, goes with what is there. -/
def FitsTypes (engine : Engine) (world : World) : Edit → Prop
  | put uuid itemType properties base => ∀ sid after new,
    (Service.put engine uuid itemType properties base).on world = (.ok sid, after) →
      after.write.record? uuid = some new → Fits engine.registry world.write new
  | purge _ => True

/-- One edit keeps links well typed exactly if what it stores fits. -/
theorem wellTyped_after_iff (sound : world.Sound engine.registry)
    (typed : WellTyped engine.registry world.write) (edit : Edit) :
    WellTyped engine.registry (after engine world edit).write ↔ FitsTypes engine world edit := by
  obtain ⟨calm, consistent, views, holds⟩ := sound
  cases edit with
  | put uuid itemType properties base =>
    rw [after, action, Action.after_discard, FitsTypes]
    rcases Service.put_cases calm consistent uuid itemType properties base with
      ⟨error, ended⟩ | ⟨stored, next, ended, placed⟩
    · rw [ended]
      refine ⟨fun _ sid after new other => ?_, fun _ => typed⟩
      cases other
    · rw [ended]
      obtain ⟨record, wrote, rfl, -⟩ := placed.wrote
      refine (wrote.wellTyped_iff typed).trans
        ⟨fun fits sid after new same current => ?_, fun fits => ?_⟩
      · cases same
        cases wrote.record?_new.symm.trans current
        exact fits
      · exact fits stored.sid _ record rfl wrote.record?_new
  | purge uuid =>
    rw [after, action, FitsTypes, iff_true]
    rcases Service.purge_cases calm consistent holds uuid with
      ⟨error, ended⟩ | ⟨record, next, read, -, ended, -, -, purged⟩
    · rw [ended]
      exact typed
    · rw [ended]
      exact purged.wellTyped typed

theorem worldAfter_take_succ (engine : Engine) {edits : List Edit} {count : Nat} {edit : Edit}
    (listed : edits[count]? = some edit) :
    worldAfter engine (edits.take (count + 1)) =
      after engine (worldAfter engine (edits.take count)) edit := by
  rw [List.take_add_one, listed, worldAfter, run_append]
  rfl

/-- Links are well typed all through a run exactly if each of its edits fits where it comes. -/
theorem wellTyped_throughout_iff (engine : Engine) (edits : List Edit) :
    (∀ count, WellTyped engine.registry (worldAfter engine (edits.take count)).write) ↔
      ∀ count edit, edits[count]? = some edit →
        FitsTypes engine (worldAfter engine (edits.take count)) edit := by
  have step : ∀ count edit, edits[count]? = some edit →
      WellTyped engine.registry (worldAfter engine (edits.take count)).write →
        (WellTyped engine.registry (worldAfter engine (edits.take (count + 1))).write ↔
          FitsTypes engine (worldAfter engine (edits.take count)) edit) := by
    intro count edit listed typed
    rw [worldAfter_take_succ engine listed]
    exact wellTyped_after_iff (sound_worldAfter engine _) typed edit
  constructor
  · intro typed count edit listed
    exact (step count edit listed (typed count)).mp (typed (count + 1))
  · intro fits count
    induction count with
    | zero => exact .empty
    | succ count ih =>
      cases listed : edits[count]? with
      | none =>
        rw [List.take_add_one, listed]
        simpa using ih
      | some edit => exact (step count edit listed ih).mpr (fits count edit listed)

end Edit

namespace Invalidation

open CachedViews.Embedding WriteStore

variable {engine : Engine} {world : World} {root found : EntityRecord} {path : Bool × List String}
  {left : List String}

/-- Precise invalidation knows what the path of a view comes to: by its type, which the declared
links name at that position, so that a change of what the path takes there reaches the view. -/
structure Tracks (engine : Engine) (world : World) (path : Bool × List String)
    (root : EntityRecord) (left : List String) (found : EntityRecord) : Prop where
  typed : ∀ itemType,
    (itemType, left) ∈ engine.registry.crossings root.itemType path.2 ↔ itemType = found.itemType
  known : changedTypeIn world found.uuid = some found.itemType
  reached : ∀ fields, ∀ field ∈ fields, Path.Takes path.1 field left →
    reaches engine root.itemType found.itemType fields = true
  selected : found.uuid ≠ root.uuid → ∀ diff,
    ∀ field ∈ FieldDiff.decode engine.registry.contains found.itemType diff,
      Path.Takes path.1 field left → ∀ views : MemoryViews, views.Reached → ∀ watermark,
        views.views.get? root.uuid =
            some ((resolutionAlone engine.registry world.write root).toView watermark) →
          ∃ keys, ((scope engine found.uuid (some diff)).on
              { world with read := .memory views }).1 = .ok keys ∧ root.key ∈ keys

/-- What the paths of a type find is visited. -/
theorem visits_of_finds {registry : Registry} {store : WriteStore}
    (listed : path ∈ registry.readPaths root.itemType) (there : store.record? found.uuid = some found)
    (finds : Finds registry store.record? path.1 path.2 root left found) :
    Visits registry store.record? root found.uuid := by
  have meets := (finds_iff_meets (fun _ _ => record?_uuid) there).mp ⟨left, finds⟩
  exact (Registry.exists_readPath_iff root.itemType fun path =>
    Meets registry store.record? path.1 path.2 root found.uuid).mp ⟨path, listed, meets⟩

theorem named_of_readPath {registry : Registry} (built : registry.Built) {itemType : ItemType}
    (listed : path ∈ registry.readPaths itemType)
    (wildcard : path.1 = true → registry.WildcardApart itemType) :
    Named registry path.1 itemType path.2 := by
  rcases List.mem_append.mp listed with embedded | calculated
  · obtain ⟨text, inside, rfl⟩ := List.mem_map.mp embedded
    exact named_of_wildcardLast itemType (built.wildcardLast inside)
  · obtain ⟨text, inside, rfl⟩ := List.mem_map.mp calculated
    exact wildcard rfl text inside

theorem tracks_of_wellTyped (built : engine.registry.Built) (sound : world.Sound engine.registry)
    (typed : WellTyped engine.registry world.write)
    (current : world.write.record? root.uuid = some root)
    (listed : path ∈ engine.registry.readPaths root.itemType)
    (wildcard : path.1 = true → engine.registry.WildcardApart root.itemType)
    (finds : Finds engine.registry world.write.record? path.1 path.2 root left found) :
    Tracks engine world path root left found := by
  obtain ⟨uuid, there⟩ := exists_uuid_of_finds finds
  obtain rfl := record?_uuid there
  have known := itemTypeOf_of_record? there
  have crossed := crossed_iff_of_finds (linksSound sound.consistent typed) ⟨_, current⟩
    (named_of_readPath built listed wildcard) finds
  -- What the path takes at the position is among the reads of the root's type.
  have covers : ∀ field, Path.Takes path.1 field left → ∀ reads,
      engine.registry.reads? root.itemType = some reads →
        reads.covers found.itemType field = true := by
    intro field takes reads read
    exact (Registry.covers_reads_iff read).mpr
      (Or.inl ⟨path, listed, _, (crossed _).mpr rfl, rfl, takes⟩)
  refine ⟨crossed, by rw [changedTypeIn, known], fun fields field inside takes =>
    reaches_of_covers inside (covers field takes), ?_⟩
  intro apart diff field inside takes views reached watermark stored
  have linked : found.uuid ∈ (resolutionAlone engine.registry world.write root).linked :=
    (mem_resolution_linked_iff current _ _).mpr ⟨visits_of_finds listed there finds, apart⟩
  refine scope_contains sound.calm reached known
    ((resolutionAlone engine.registry world.write root).toView watermark) stored apart.symm linked ?_
  intro fields same
  cases same
  exact ⟨field, inside, covers field takes⟩

/-- Links are well typed all through a run of puts and purges exactly if each put that stores
something fits where it comes; and when they are, invalidation tracks whatever the path of a view
comes to. -/
theorem links_typed_while_edits_fit (engine : Engine) (built : engine.registry.Built)
    (edits : List Edit) :
    ((∀ count, WellTyped engine.registry (Edit.worldAfter engine (edits.take count)).write) ↔
        ∀ count edit, edits[count]? = some edit →
          Edit.FitsTypes engine (Edit.worldAfter engine (edits.take count)) edit) ∧
      (WellTyped engine.registry (Edit.worldAfter engine edits).write →
        ∀ root, (Edit.worldAfter engine edits).write.record? root.uuid = some root →
          ∀ path ∈ engine.registry.readPaths root.itemType,
            (path.1 = true → engine.registry.WildcardApart root.itemType) →
              ∀ left found, Finds engine.registry (Edit.worldAfter engine edits).write.record?
                  path.1 path.2 root left found →
                Tracks engine (Edit.worldAfter engine edits) path root left found) := by
  refine ⟨Edit.wellTyped_throughout_iff engine edits, ?_⟩
  intro typed root current path listed wildcard left found finds
  exact tracks_of_wellTyped built (Edit.sound_worldAfter engine edits) typed current listed wildcard
    finds

/-- The book of an author fits, and its path to the author's name is tracked. -/
theorem authored_book_tracks_author :
    (∀ count edit, authored[count]? = some edit → Edit.FitsTypes (.precise .books)
        (Edit.worldAfter (.precise .books) (authored.take count)) edit) ∧
      ∃ root found, (Edit.worldAfter (.precise .books) authored).write.record? ⟨2⟩ = some root ∧
        (Edit.worldAfter (.precise .books) authored).write.record? ⟨1⟩ = some found ∧
        Tracks (.precise .books) (Edit.worldAfter (.precise .books) authored)
          (false, ["author", "name"]) root ["name"] found := by
  obtain ⟨fitting, tracking⟩ := links_typed_while_edits_fit (.precise .books)
    (Registry.built_ofDecls _) authored
  have typed : ∀ count, WellTyped .books
      (Edit.worldAfter (.precise .books) (authored.take count)).write := by
    intro count
    match count with
    | 0 => exact .empty
    | 1 => decide +kernel
    | _ + 2 =>
      simp only [authored, List.take_succ_cons, List.take_nil]
      decide +kernel
  have book : ((Edit.worldAfter (.precise .books) authored).write.record? ⟨2⟩).map
      (fun record => (record.itemType, Embedding.linkTargets (record.properties.get? "author"))) =
        some (⟨"Book"⟩, [⟨1⟩]) := by
    decide +kernel
  have author : ((Edit.worldAfter (.precise .books) authored).write.record? ⟨1⟩).isSome := by
    decide +kernel
  obtain ⟨root, current, seen⟩ := Option.map_eq_some_iff.mp book
  obtain ⟨itemType, linked⟩ := Prod.mk.inj seen
  obtain ⟨found, there⟩ := Option.isSome_iff_exists.mp author
  refine ⟨fitting.mp typed, root, found, current, there, ?_⟩
  have known : root.uuid = ⟨2⟩ := record?_uuid current
  refine tracking (typed 2) root (known ▸ current) (false, ["author", "name"]) ?_
    (fun calculated => Bool.noConfusion calculated) _ found
    ⟨follows_of_longer nofun, ?_, ⟨1⟩, ?_, found, there, Or.inl ⟨rfl, rfl⟩⟩
  · rw [itemType]
    decide +kernel
  · rw [itemType]
    decide +kernel
  · rw [linked]
    exact List.mem_singleton_self _

/-- Books show the names of their authors; publishers are not among them. -/
def imprints : Registry := .ofDecls [
  .ofName ⟨"Author"⟩,
  .ofName ⟨"Publisher"⟩,
  ((TypeDecl.ofName ⟨"Book"⟩).link "author" ⟨"Author"⟩ false).embed "author.name"]

/-- A book that gives a publisher for its author. -/
def misattributed : List Edit := [
  .put ⟨2⟩ ⟨"Publisher"⟩ (.ofText "name" "Pan") none,
  .put ⟨3⟩ ⟨"Book"⟩ (.ofText "author" (Uuid.text ⟨2⟩)) none]

/-- Both puts are accepted, in either order. The book shows the publisher's name, which its reads
take from authors, and a new name of the publisher does not reach it. -/
theorem publisher_as_author_is_missed :
    ¬ WellTyped imprints (Edit.worldAfter (.precise imprints) misattributed).write ∧
      ¬ WellTyped imprints (Edit.worldAfter (.precise imprints) misattributed.reverse).write ∧
      ((resolveAlone imprints ⟨3⟩).on
          (Edit.worldAfter (.precise imprints) misattributed)).1.toOption.map (fun resolution =>
        resolution.document.get? "author" >>= Json.get? "name" >>= Json.text?) =
          some (some "Pan") ∧
      (∀ path ∈ imprints.readPaths ⟨"Book"⟩,
        imprints.crossings ⟨"Book"⟩ path.2 = [(⟨"Author"⟩, ["name"])]) ∧
      reaches (.precise imprints) ⟨"Book"⟩ ⟨"Publisher"⟩ ["name"] = false ∧
      scopeOf imprints ⟨2⟩ ["Publisher.name"] (Edit.after (.precise imprints)
        (Edit.indexed (.precise imprints) misattributed)
        (.put ⟨2⟩ ⟨"Publisher"⟩ (.ofText "name" "Tor") none)) = some [] := by
  refine ⟨?_, ?_, ?_, ?_, ?_, ?_⟩ <;> decide +kernel

end Invalidation

end CachedViews
