import CachedViews.Proofs.Embedding.Declared
import CachedViews.Proofs.Embedding.Reading
import CachedViews.Proofs.Service.Edits

/-!
Resolving as one pass over the store. Loading along the paths first and building from what was
loaded gives the document that reading the store node by node gives, and warns of exactly the
missing targets that the paths come to.
-/
namespace CachedViews

namespace EmbedTree

theorem sizeOf_child?_lt {tree child : EmbedTree} {field : String}
    (found : tree.child? field = some child) : sizeOf child < sizeOf tree := by
  obtain ⟨fields, children⟩ := tree
  have listed := List.sizeOf_lt_of_mem (Entries.mem_of_get? found)
  simp only [Prod.mk.sizeOf_spec, node.sizeOf_spec, EmbedTree.children] at listed ⊢
  omega

end EmbedTree

namespace Document

open CachedViews.Embedding EmbedTree

section

variable (registry : Registry) (store : WriteStore)

/-- What stands for a link: its target, its targets in their order, or nothing. -/
def shownLink (shown : Uuid → Json) : Json → Json
  | .string raw => ((Uuid.parse? raw).map shown).getD .null
  | .array items => .array ((linkTargets (some (.array items))).map shown)
  | _ => .null

/-- The document of a record, made in one go from what the store holds. A link with a subtree
shows its target, a target on the path from the root its identifier alone, a missing one null. -/
def embedding (tree : EmbedTree) (record : EntityRecord) (path : List Uuid) : Json :=
  let value (field : String) (held : Json) : Json :=
    match _found : tree.child? field with
    | none => held
    | some child =>
      if registry.isLink record.itemType field then
        shownLink (fun uuid =>
          if uuid ∈ path then .string uuid.text
          else
            match store.record? uuid with
            | none => .null
            | some next => embedding child next (path ++ [uuid])) held
      else select child held
  .object ((((record.properties.filter fun field _ => tree.keeps field).map value).insert "uuid"
    (.string record.uuid.text)).insert "@type" (.string record.itemType.name)).entries
termination_by sizeOf tree
decreasing_by exact sizeOf_child?_lt _found

end

variable {registry : Registry} {store : WriteStore}

theorem replaceLinkItems_eq_shown (shown : Uuid → Json) {items : List Json}
    (names : items.all (fun item => (item.text? >>= Uuid.parse?).isSome) = true) :
    replaceLinkItems shown items = (linkTargets (some (.array items))).map shown := by
  induction items with
  | nil => rfl
  | cons first rest ih =>
    simp only [List.all_cons, Bool.and_eq_true] at names
    obtain ⟨uuid, parsed⟩ := Option.isSome_iff_exists.mp names.1
    simp only [linkTargets] at ih ⊢
    rw [List.filterMap_cons, parsed, replaceLinkItems, ih names.2]
    cases first <;> try cases parsed
    simp only [Json.text?, Option.bind_eq_bind, Option.bind_some] at parsed
    simp [replaceLinks, parsed]

/-- Identifiers are all that a link value consists of. -/
theorem replaceLinks_eq_shown (shown : Uuid → Json) {value : Json} (names : value.namesLinks = true) :
    replaceLinks shown value = shownLink shown value := by
  cases value with
  | string raw =>
    obtain ⟨uuid, parsed⟩ := Option.isSome_iff_exists.mp names
    simp [replaceLinks, shownLink, parsed]
  | array items => simp only [replaceLinks, shownLink, replaceLinkItems_eq_shown shown names]
  | null => rfl
  | bool _ => cases names
  | integer _ => cases names
  | double _ => cases names
  | object _ => cases names

/-- What stands for a kept property. -/
def embeddedValue (registry : Registry) (store : WriteStore) (tree : EmbedTree)
    (record : EntityRecord) (path : List Uuid) (field : String) (held : Json) : Json :=
  match tree.child? field with
  | none => held
  | some child =>
    if registry.isLink record.itemType field then
      shownLink (target store.record? (embedding registry store child) path) held
    else select child held

theorem embedding_eq (tree : EmbedTree) (record : EntityRecord) (path : List Uuid) :
    embedding registry store tree record path =
      withIdentity record ((record.properties.entries.filter fun entry => tree.keeps entry.1).map
        fun entry => (entry.1, embeddedValue registry store tree record path entry.1 entry.2)) := by
  rw [embedding]
  refine congrArg (withIdentity record) (List.map_congr_left fun entry _ => ?_)
  dsimp only
  unfold embeddedValue
  split <;> rename_i there <;> rw [there]
  dsimp only
  congr 3
  funext uuid
  unfold target
  cases store.record? uuid <;> rfl

/-- Over the records of a store, building follows the direct embedding node by node. -/
theorem builder_eq_embedding (names : NamesLinks registry store.record?) (tree : EmbedTree)
    (record : EntityRecord) (path : List Uuid) (known : ∃ uuid, store.record? uuid = some record) :
    builder registry store.record? tree record path =
      embedding registry store tree record path := by
  obtain ⟨source, current⟩ := known
  obtain ⟨fields, children⟩ := tree
  rw [builder, embedding_eq]
  dsimp only
  rw [keptEntries_eq, ← List.filterMap_eq_map, List.filterMap_filter]
  refine congrArg (withIdentity record) (List.filterMap_congr fun entry listed => ?_)
  have held := (record.properties.mem_entries_iff entry.1 entry.2).mp listed
  have same : keptValue registry store.record? children record path entry.1 entry.2 =
      embeddedValue registry store (.node fields children) record path entry.1 entry.2 := by
    unfold keptValue embeddedValue
    rw [child?, EmbedTree.children]
    cases found : Entries.get? entry.1 children with
    | none => rfl
    | some child =>
      dsimp only
      by_cases declared : registry.isLink record.itemType entry.1 = true
      · rw [if_pos declared, if_pos declared, replaceLinks_eq_shown _
          (names source record current entry.1 entry.2 declared held)]
        congr 1
        funext uuid
        unfold target
        cases next : store.record? uuid with
        | none => rfl
        | some reached =>
          dsimp only
          rw [builder_eq_embedding names child reached (path ++ [uuid]) ⟨uuid, next⟩]
      · rw [if_neg declared, if_neg declared]
  rw [keptValue?, same]
  split <;> rfl
termination_by sizeOf tree
decreasing_by
  exact sizeOf_child?_lt found
end Document

namespace Embedding

section

variable (registry : Registry) (lookup : Uuid → Option EntityRecord)

/-- Whether following a path from a record comes to a link, whatever is at its end. -/
def Follows (followLast : Bool) : List String → EntityRecord → LinkEdge → Prop
  | [], _, _ => False
  | segment :: rest, record, edge =>
    ¬ (rest = [] ∧ !followLast) ∧ registry.isLink record.itemType segment = true ∧
      ∃ target ∈ linkTargets (record.properties.get? segment),
        edge = ⟨record.uuid, segment, target⟩ ∨
          ∃ next, lookup target = some next ∧ Follows followLast rest next edge

end

variable {registry : Registry} {lookup : Uuid → Option EntityRecord}

theorem mem_trail_iff_follows (own : ∀ uuid record, lookup uuid = some record → record.uuid = uuid)
    (followLast : Bool) (path : List String) (frontier : List Uuid) (edge : LinkEdge) :
    edge ∈ trail registry lookup followLast path frontier ↔
      ∃ source ∈ frontier, ∃ record, lookup source = some record ∧
        Follows registry lookup followLast path record edge := by
  induction path generalizing frontier with
  | nil => simp [trail, Follows]
  | cons segment rest ih =>
    rw [trail]
    split
    · rename_i stops
      simp [Follows, stops]
    · rename_i follows
      rw [List.mem_append, ih]
      constructor
      · rintro (here | ⟨target, there, next, found, later⟩)
        · obtain ⟨source, inside, from_⟩ := List.mem_flatMap.mp here
          obtain ⟨rfl, rfl, record, found, declared, held⟩ := (mem_edgesFrom_iff _ _ _).mp from_
          refine ⟨_, inside, record, found, follows, declared, _, held, Or.inl ?_⟩
          rw [own _ _ found]
        · obtain ⟨⟨before, listed, rfl⟩, -⟩ := (mem_reached_iff _ _).mp there
          obtain ⟨source, inside, from_⟩ := List.mem_flatMap.mp listed
          obtain ⟨rfl, rfl, record, held, declared, target⟩ := (mem_edgesFrom_iff _ _ _).mp from_
          exact ⟨_, inside, record, held, follows, declared, _, target, Or.inr ⟨next, found, later⟩⟩
      · rintro ⟨source, inside, record, found, -, declared, target, held, either⟩
        have listed : (⟨source, segment, target⟩ : LinkEdge) ∈
            edgesAt registry lookup segment frontier :=
          List.mem_flatMap.mpr ⟨source, inside,
            (mem_edgesFrom_iff _ _ _).mpr ⟨rfl, rfl, record, found, declared, held⟩⟩
        rcases either with rfl | ⟨next, there, later⟩
        · rw [own _ _ found]
          exact Or.inl listed
        · refine Or.inr ⟨target, (mem_reached_iff _ _).mpr ⟨⟨_, listed, rfl⟩, ?_⟩, next, there, later⟩
          simp [there]

theorem mem_trails_iff_follows (own : ∀ uuid record, lookup uuid = some record → record.uuid = uuid)
    (followLast : Bool) {record : EntityRecord} (found : lookup record.uuid = some record)
    (paths : List String) (edge : LinkEdge) :
    edge ∈ trails registry lookup followLast record.uuid paths ↔
      ∃ path ∈ paths, Follows registry lookup followLast (Path.segments path) record edge := by
  rw [trails, List.mem_flatMap]
  refine exists_congr fun path => and_congr_right fun _ => ?_
  rw [mem_trail_iff_follows own]
  simp [found]

theorem addWarning_nodup {visit : Visit} (nodup : visit.warnings.Nodup) (warning : DanglingLink) :
    (visit.addWarning warning).warnings.Nodup := by
  unfold Visit.addWarning
  split
  · exact nodup
  · rename_i new
    simpa [List.nodup_append, nodup] using fun other listed (same : other = warning) =>
      new (same ▸ listed)

theorem mem_addWarning (visit : Visit) (warning other : DanglingLink) :
    other ∈ (visit.addWarning warning).warnings ↔ other ∈ visit.warnings ∨ other = warning := by
  unfold Visit.addWarning
  split
  · rename_i known
    exact (or_iff_left_of_imp fun same => same ▸ known).symm
  · simp

theorem note_warnings (visit : Visit) (edge : LinkEdge) (warning : DanglingLink) :
    warning ∈ (visit.note lookup edge).warnings ↔ warning ∈ visit.warnings ∨
      lookup edge.link.target = none ∧ warning = ⟨edge.source, edge.link.field, edge.link.target⟩ := by
  unfold Visit.note
  dsimp only
  cases lookup edge.link.target with
  | none => simp [mem_addWarning]
  | some record => simp

theorem note_nodup {visit : Visit} (nodup : visit.warnings.Nodup) (edge : LinkEdge) :
    (visit.note lookup edge).warnings.Nodup := by
  unfold Visit.note
  dsimp only
  split
  · exact nodup
  · have same : ({ visit with linked := visit.linked.insert edge.link.target } : Visit).warnings.Nodup :=
      nodup
    exact addWarning_nodup same _

/-- Every followed link with a missing target is warned of. -/
theorem mem_warnings_note (edges : List LinkEdge) (visit : Visit) (warning : DanglingLink) :
    warning ∈ (edges.foldl (Visit.note lookup) visit).warnings ↔ warning ∈ visit.warnings ∨
      lookup warning.target = none ∧
        (⟨warning.source, warning.field, warning.target⟩ : LinkEdge) ∈ edges := by
  refine (foldl_iff_or (fun visit : Visit => warning ∈ visit.warnings)
    (fun edge _ visit => note_warnings visit edge warning) visit).trans (or_congr_right ?_)
  constructor
  · rintro ⟨edge, listed, missing, rfl⟩
    exact ⟨missing, listed⟩
  · rintro ⟨missing, listed⟩
    exact ⟨_, listed, missing, rfl⟩

theorem warnings_nodup (edges : List LinkEdge) {visit : Visit} (nodup : visit.warnings.Nodup) :
    (edges.foldl (Visit.note lookup) visit).warnings.Nodup := by
  induction edges generalizing visit with
  | nil => exact nodup
  | cons first rest ih => exact ih (note_nodup nodup first)

/-- The missing targets that the embed paths and the calculated properties of a record come to,
each with the link that leads there. -/
def Dangles (registry : Registry) (store : WriteStore) (paths : List String)
    (record : EntityRecord) (warning : DanglingLink) : Prop :=
  store.record? warning.target = none ∧
    ((∃ path ∈ paths, Follows registry store.record? false (Path.segments path) record
        ⟨warning.source, warning.field, warning.target⟩) ∨
      ∃ path ∈ calculatedPaths registry record.itemType,
        Follows registry store.record? true (Path.segments path) record
          ⟨warning.source, warning.field, warning.target⟩)

theorem mem_warnings_iff {store : WriteStore} {record : EntityRecord}
    (found : store.record? record.uuid = some record) (cache : RecordCache) (paths : List String)
    (warning : DanglingLink) :
    warning ∈ (resolution registry store cache paths record).warnings ↔
      Dangles registry store paths record warning := by
  rw [resolution, mem_warnings_note, followed, List.mem_append,
    mem_trails_iff_follows (fun _ _ => WriteStore.record?_uuid) false found,
    mem_trails_iff_follows (fun _ _ => WriteStore.record?_uuid) true found, Dangles]
  exact or_iff_right List.not_mem_nil

/-- Resolving an entity under any embed paths, on any cache that agrees with the store, gives the
direct embedding of its record, calculated properties apart, and warns once of each missing target
that a path comes to. -/
theorem resolves_to_direct_embedding (registry : Registry) (spec : Option (List String))
    {world : World} (calm : world.Calm) (mirrors : world.Mirrors)
    (accepted : world.write.Accepted registry) {uuid : Uuid} {record : EntityRecord}
    (found : world.write.record? uuid = some record) :
    ∃ resolution, ((resolve registry uuid spec).on world).1 = .ok resolution ∧
      Document.uncalculated registry record.itemType resolution.document =
        Document.uncalculated registry record.itemType (Document.embedding registry world.write
          (EmbedTree.ofPaths (spec.getD (registry.embedPaths record.itemType))) record [uuid]) ∧
      resolution.warnings.Nodup ∧
      ∀ warning, warning ∈ resolution.warnings ↔ Dangles registry world.write
        (spec.getD (registry.embedPaths record.itemType)) record warning := by
  obtain rfl := WriteStore.record?_uuid found
  have names := namesLinks_of_accepted accepted
  have known : ∀ uuid ∈ loaded registry world.write
      (spec.getD (registry.embedPaths record.itemType)) record,
      (world.knowing (loaded registry world.write (spec.getD (registry.embedPaths record.itemType))
        record)).cache.record? uuid = world.write.record? uuid := fun uuid listed =>
    World.knowing_record? _ listed
  refine ⟨_, congrArg Prod.fst (resolve_spec_on spec calm mirrors found), ?_, ?_, ?_⟩
  · rw [uncalculated_over_loaded names found known,
      Document.builder_eq_embedding names _ record _ ⟨_, found⟩]
  · exact warnings_nodup _ List.nodup_nil
  · exact mem_warnings_iff found _ _

/-- Authors list their books and books name their author. -/
def libraries : Registry := .ofDecls [
  (TypeDecl.ofName ⟨"Author"⟩).link "books" ⟨"Book"⟩ true,
  ((((TypeDecl.ofName ⟨"Book"⟩).link "author" ⟨"Author"⟩ false).embed "author.name").embed
    "author.books.author.name").calculate (Calculation.title.field "label" ["author.name"])]

/-- An author of two books, one of which is missing. -/
def halfLibrary : World :=
  (Edit.worldAfter (.precise libraries) [
    .put ⟨1⟩ ⟨"Author"⟩ (.ofList [("name", .string "Ann"),
      ("books", .array [.string (Uuid.text ⟨2⟩), .string (Uuid.text ⟨3⟩)])]) none,
    .put ⟨2⟩ ⟨"Book"⟩ (.ofText "author" (Uuid.text ⟨1⟩)) none]).withCache {}

/-- A book shows its author and, below, itself by its identifier and the missing book as null. -/
theorem half_library_embeds_directly :
    ∃ resolution record,
      ((resolve libraries ⟨2⟩ none).on (halfLibrary.knowing [⟨1⟩, ⟨3⟩])).1 = .ok resolution ∧
      halfLibrary.write.record? ⟨2⟩ = some record ∧
      Document.uncalculated libraries ⟨"Book"⟩ resolution.document =
        Document.uncalculated libraries ⟨"Book"⟩ (Document.embedding libraries halfLibrary.write
          (EmbedTree.ofPaths ["author.name", "author.books.author.name"]) record [⟨2⟩]) ∧
      resolution.warnings = [⟨⟨1⟩, "books", ⟨3⟩⟩] := by
  have sound := Edit.sound_worldAfter (.precise libraries) [
    .put ⟨1⟩ ⟨"Author"⟩ (.ofList [("name", .string "Ann"),
      ("books", .array [.string (Uuid.text ⟨2⟩), .string (Uuid.text ⟨3⟩)])]) none,
    .put ⟨2⟩ ⟨"Book"⟩ (.ofText "author" (Uuid.text ⟨1⟩)) none]
  have mirrors : halfLibrary.Mirrors := fun _ _ cached => by cases cached
  have typed : (halfLibrary.write.record? ⟨2⟩).map EntityRecord.itemType = some ⟨"Book"⟩ := by
    decide +kernel
  obtain ⟨record, found, type⟩ := Option.map_eq_some_iff.mp typed
  have warned : ((resolve libraries ⟨2⟩ none).on (halfLibrary.knowing [⟨1⟩, ⟨3⟩])).1.toOption.map
      Resolution.warnings = some [⟨⟨1⟩, "books", ⟨3⟩⟩] := by
    decide +kernel
  obtain ⟨shown, seen, warnings⟩ := Action.ok_of_seen _ warned
  obtain ⟨resolution, resolved, direct, -, -⟩ := resolves_to_direct_embedding libraries none
    ((sound.calm.withCache {}).knowing [⟨1⟩, ⟨3⟩]) (mirrors.knowing [⟨1⟩, ⟨3⟩])
    sound.consistent.accepted found
  obtain rfl : shown = resolution := Except.ok.inj (seen.symm.trans resolved)
  have paths : libraries.embedPaths ⟨"Book"⟩ = ["author.name", "author.books.author.name"] := by
    decide +kernel
  rw [type] at direct
  refine ⟨shown, record, resolved, found, ?_, warnings⟩
  rw [direct, Option.getD_none, paths]
  rfl

end Embedding

end CachedViews
