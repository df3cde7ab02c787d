import Mathlib.Data.List.Basic
import CachedViews.Proofs.Embedding.Stores

/-!
What a document looks up. The embedded part follows the links that were visited. A calculated path
also steps into nested objects, and there it follows whatever is named like a link, visited or not.
-/
namespace CachedViews

namespace Json

open CachedViews.Embedding (linkTargets)

theorem replaceLinkItems_congr {render other : Uuid → Json} {items : List Json}
    (names : items.all (fun item => (item.text? >>= Uuid.parse?).isSome) = true)
    (same : ∀ uuid ∈ items.filterMap (fun item => item.text? >>= Uuid.parse?),
      render uuid = other uuid) :
    Document.replaceLinkItems render items = Document.replaceLinkItems other items := by
  induction items with
  | nil => rfl
  | cons first rest ih =>
    simp only [List.all_cons, Bool.and_eq_true] at names
    obtain ⟨uuid, parsed⟩ := Option.isSome_iff_exists.mp names.1
    rw [List.filterMap_cons, parsed] at same
    cases first <;> try cases parsed
    rename_i raw
    simp only [text?, Option.bind_eq_bind, Option.bind_some] at parsed
    simp only [Document.replaceLinkItems, Document.replaceLinks, parsed]
    rw [same uuid List.mem_cons_self,
      ih names.2 fun later listed => same later (List.mem_cons_of_mem _ listed)]

/-- Only the targets of a link value are shown. -/
theorem replaceLinks_congr {render other : Uuid → Json} {value : Json}
    (names : value.namesLinks = true)
    (same : ∀ uuid ∈ linkTargets (some value), render uuid = other uuid) :
    Document.replaceLinks render value = Document.replaceLinks other value := by
  cases value with
  | string raw =>
    obtain ⟨uuid, parsed⟩ := Option.isSome_iff_exists.mp names
    simp only [Document.replaceLinks, parsed]
    exact same uuid (by simp [linkTargets, parsed])
  | array items =>
    simp only [Document.replaceLinks]
    rw [replaceLinkItems_congr names same]
  | null => rfl
  | bool _ => rfl
  | integer _ => rfl
  | double _ => rfl
  | object _ => rfl

end Json

namespace WriteStore

/-- No declared type refuses the sheet of one of its entities. -/
def Accepted (registry : Registry) (store : WriteStore) : Prop :=
  ∀ uuid record, store.record? uuid = some record → ∀ decl,
    registry.get? record.itemType = some decl →
      ∃ write, decl.entityWrite record.properties = .ok write

theorem Consistent.accepted {registry : Registry} {store : WriteStore}
    (consistent : Consistent registry store) : Accepted registry store := by
  intro uuid record found decl known
  obtain ⟨declared, there, extracted⟩ := consistent.record_extracts found
  obtain rfl := Option.some.inj (known.symm.trans there)
  exact ⟨_, by rw [TypeDecl.entityWrite, extracted]; rfl⟩

end WriteStore

namespace Embedding

open EmbedTree

/-- The declared links of every record hold identifiers and nothing else. -/
def NamesLinks (registry : Registry) (lookup : Uuid → Option EntityRecord) : Prop :=
  ∀ uuid record, lookup uuid = some record → ∀ field value,
    registry.isLink record.itemType field = true → record.properties.get? field = some value →
      value.namesLinks = true

theorem namesLinks_of_accepted {registry : Registry} {store : WriteStore}
    (accepted : store.Accepted registry) : NamesLinks registry store.record? := by
  intro uuid record found field value declared held
  unfold Registry.isLink at declared
  cases known : registry.get? record.itemType with
  | none =>
    rw [known] at declared
    cases declared
  | some decl =>
    rw [known] at declared
    obtain ⟨write, ended⟩ := accepted uuid record found decl known
    obtain ⟨-, -, extracted⟩ := TypeDecl.entityWrite_ok ended
    exact TypeDecl.namesLinks_of_extractLinks extracted declared held

section

variable (registry : Registry) (lookup : Uuid → Option EntityRecord)

/-- The entities that a dependency path asks for. After a property that is no link the type stays
the same, so that a nested property may be taken for a link. -/
def Consults : List String → List (String × Json) → ItemType → Uuid → Prop
  | [], _, _, _ => False
  | segment :: rest, entries, itemType, uuid =>
    ∃ value, Entries.get? segment entries = some value ∧
      if registry.isLink itemType segment = true then
        ∃ target ∈ linkTargets (some value), uuid = target ∨ ∃ next, lookup target = some next ∧
          Consults rest next.properties.entries next.itemType uuid
      else rest ≠ [] ∧ ∃ nested, value = .object nested ∧ Consults rest nested itemType uuid

/-- The entities that the calculated properties of a record ask for. -/
def Consulted (record : EntityRecord) (uuid : Uuid) : Prop :=
  ∃ path ∈ calculatedPaths registry record.itemType,
    Consults registry lookup (Path.segments path) record.properties.entries record.itemType uuid

end

/-- Whatever an embed path meets is loaded. -/
theorem mem_loaded_of_meets {registry : Registry} {store : WriteStore} {paths : List String}
    {record : EntityRecord} (found : store.record? record.uuid = some record) {tail : List String}
    (from_ : FromPaths paths tail) {uuid : Uuid}
    (meets : Meets registry store.record? false tail record uuid) :
    uuid ∈ loaded registry store paths record := by
  rcases from_ with rfl | ⟨path, listed, rfl⟩
  · exact absurd ⟨rfl, rfl⟩ meets.1
  · obtain ⟨edge, inside, rfl⟩ := (mem_trails_iff false found paths uuid).mpr ⟨path, listed, meets⟩
    exact List.mem_cons_of_mem _ (List.mem_map_of_mem (List.mem_append_left _ inside))

theorem mem_loaded_of_calculated {registry : Registry} {store : WriteStore} {paths : List String}
    {record : EntityRecord} (found : store.record? record.uuid = some record) {path : String}
    (listed : path ∈ calculatedPaths registry record.itemType) {uuid : Uuid}
    (meets : Meets registry store.record? true (Path.segments path) record uuid) :
    uuid ∈ loaded registry store paths record := by
  obtain ⟨edge, inside, rfl⟩ := (mem_trails_iff true found _ uuid).mpr ⟨path, listed, meets⟩
  exact List.mem_cons_of_mem _ (List.mem_map_of_mem (List.mem_append_right _ inside))

end Embedding

namespace Document

open CachedViews.Embedding EmbedTree

variable {registry : Registry} {left right : Uuid → Option EntityRecord} {record : EntityRecord}

theorem target_congr {build other : Builder} {path : List Uuid} {uuid : Uuid}
    (same : left uuid = right uuid)
    (built : ∀ next, left uuid = some next → build next (path ++ [uuid]) =
      other next (path ++ [uuid])) :
    target left build path uuid = target right other path uuid := by
  unfold target
  split
  · rfl
  · rw [← same]
    cases found : left uuid with
    | none => rfl
    | some next => exact built next found

/-- A tree looks up nothing but what its paths meet. The induction is on the tree; each link below
a node shortens every path by one step. -/
theorem builder_congr (names : NamesLinks registry left) {tails : List String → Prop}
    {tree : EmbedTree} (grown : Grown tails tree) (known : ∃ uuid, left uuid = some record)
    (along : ∀ tail, tails tail → ∀ uuid, Meets registry left false tail record uuid →
      left uuid = right uuid) (stack : List Uuid) :
    builder registry left tree record stack = builder registry right tree record stack := by
  induction grown generalizing record stack with
  | @node tails fields children kept sourced below ih =>
    obtain ⟨source, current⟩ := known
    have values : ∀ field value, record.properties.get? field = some value →
        keptValue registry left children record stack field value =
          keptValue registry right children record stack field value := by
      intro field value held
      unfold keptValue
      cases found : Entries.get? field children with
      | none => rfl
      | some child =>
        dsimp only
        by_cases declared : registry.isLink record.itemType field = true
        · rw [if_pos declared, if_pos declared]
          refine Json.replaceLinks_congr (names source record current field value declared held)
            fun uuid listed => ?_
          rw [← held] at listed
          -- An expanded property lies before the last step of some path, which goes on through
          -- the link.
          obtain ⟨rest, longer, tail⟩ := sourced field child found
          refine target_congr (along _ tail uuid
            ⟨follows_of_longer longer, declared, uuid, listed, Or.inl rfl⟩) fun next there => ?_
          refine ih field child found ⟨uuid, there⟩ ?_ (stack ++ [uuid])
          rintro rest ⟨longer, from_⟩ later meets
          exact along _ from_ later
            ⟨follows_of_longer longer, declared, uuid, listed, Or.inr ⟨next, there, meets⟩⟩
        · rw [if_neg declared, if_neg declared]
    rw [builder, builder]
    dsimp only
    rw [keptEntries_eq, keptEntries_eq]
    refine congrArg (withIdentity record) (List.filterMap_congr fun entry listed => ?_)
    rw [keptValue?, keptValue?, values entry.1 entry.2
      ((record.properties.mem_entries_iff entry.1 entry.2).mp listed)]

theorem behind_congr {rest : List String} {raw : Json}
    (same : ∀ uuid, raw.text? >>= Uuid.parse? = some uuid → left uuid = right uuid)
    (below : ∀ uuid next, raw.text? >>= Uuid.parse? = some uuid → left uuid = some next →
      valueAt registry left rest next.properties.entries next.itemType =
        valueAt registry right rest next.properties.entries next.itemType) :
    behind registry left rest raw = behind registry right rest raw := by
  unfold behind
  cases parsed : raw.text? >>= Uuid.parse? with
  | none => rfl
  | some uuid =>
    simp only [Option.bind_eq_bind, Option.bind_some, ← same uuid parsed]
    cases found : left uuid with
    | none => rfl
    | some next => exact below uuid next parsed found

theorem behindLink_congr {rest : List String} {value : Json}
    (same : ∀ uuid ∈ linkTargets (some value), left uuid = right uuid)
    (below : ∀ uuid ∈ linkTargets (some value), ∀ next, left uuid = some next →
      valueAt registry left rest next.properties.entries next.itemType =
        valueAt registry right rest next.properties.entries next.itemType) :
    behindLink registry left rest value = behindLink registry right rest value := by
  have single : ∀ raw : Json,
      (∀ uuid, raw.text? >>= Uuid.parse? = some uuid → uuid ∈ linkTargets (some value)) →
        behind registry left rest raw = behind registry right rest raw :=
    fun raw listed => behind_congr (fun uuid parsed => same uuid (listed uuid parsed))
      fun uuid next parsed => below uuid (listed uuid parsed) next
  cases value with
  | array items =>
    refine congrArg Json.array (List.map_congr_left fun item listed => single item ?_)
    exact fun uuid parsed => List.mem_filterMap.mpr ⟨item, listed, parsed⟩
  | string raw =>
    refine single _ fun uuid parsed => ?_
    simp only [Json.text?, Option.bind_eq_bind, Option.bind_some] at parsed
    simp [linkTargets, parsed]
  -- No other value holds an identifier.
  | null => rfl
  | bool _ => rfl
  | integer _ => rfl
  | double _ => rfl
  | object _ => rfl

/-- The value at a dependency path depends on what the path consults. -/
theorem valueAt_congr {path : List String} {entries : List (String × Json)} {itemType : ItemType}
    (same : ∀ uuid, Consults registry left path entries itemType uuid → left uuid = right uuid) :
    valueAt registry left path entries itemType = valueAt registry right path entries itemType := by
  induction path generalizing entries itemType with
  | nil => rfl
  | cons segment rest ih =>
    cases declared : registry.isLink itemType segment with
    | true =>
      rw [valueAt_link declared, valueAt_link declared]
      cases held : Entries.get? segment entries with
      | none => rfl
      | some value =>
        have listed : ∀ uuid, (∃ target ∈ linkTargets (some value), uuid = target ∨
            ∃ next, left target = some next ∧
              Consults registry left rest next.properties.entries next.itemType uuid) →
            left uuid = right uuid :=
          fun uuid reached => same uuid ⟨value, held, by rw [if_pos declared]; exact reached⟩
        refine behindLink_congr (fun uuid inside => listed uuid ⟨uuid, inside, Or.inl rfl⟩) ?_
        intro uuid inside next found
        exact ih fun later consults =>
          listed later ⟨uuid, inside, Or.inr ⟨next, found, consults⟩⟩
    | false =>
      rw [valueAt_plain declared, valueAt_plain declared]
      cases held : Entries.get? segment entries with
      | none => rfl
      | some value =>
        dsimp only
        split
        · rfl
        · rename_i longer
          cases value <;> try rfl
          rename_i nested
          refine ih fun uuid consults => same uuid ⟨_, held, ?_⟩
          rw [if_neg (by rw [declared]; exact Bool.false_ne_true)]
          exact ⟨longer, nested, rfl, consults⟩

theorem inputs_congr
    (same : ∀ uuid, Consulted registry left record uuid → left uuid = right uuid)
    {field : CalculatedField} (listed : field ∈ registry.calculated record.itemType) :
    inputs registry left field record = inputs registry right field record := by
  unfold inputs
  refine congrArg SortedMap.ofList (List.map_congr_left fun path inside => ?_)
  rw [valueAt_congr fun uuid consults =>
    same uuid ⟨path, List.mem_flatMap.mpr ⟨field, listed, inside⟩, consults⟩]

/-- Calculations on the same inputs give the same document. -/
theorem addCalculated_congr {fields : List CalculatedField}
    (same : ∀ field ∈ fields, inputs registry left field record =
      inputs registry right field record) (document : Json) :
    addCalculated registry left record fields document =
      addCalculated registry right record fields document := by
  cases document <;> try rfl
  rename_i entries
  refine congrArg Json.object ?_
  induction fields generalizing entries with
  | nil => rfl
  | cons first rest ih =>
    rw [List.foldl_cons, List.foldl_cons, same first List.mem_cons_self]
    exact ih (fun field later => same field (List.mem_cons_of_mem _ later)) _

/-- Whether a name is none of the calculated properties of a type. -/
def isUncalculated (registry : Registry) (itemType : ItemType) (name : String) : Bool :=
  decide (name ∉ (registry.calculated itemType).map CalculatedField.name)

/-- A document without the calculated properties of its type. -/
def uncalculated (registry : Registry) (itemType : ItemType) : Json → Json
  | .object entries => .object (entries.filter fun entry =>
      isUncalculated registry itemType entry.1)
  | other => other

theorem uncalculated_addCalculated (lookup : Uuid → Option EntityRecord) (document : Json) :
    uncalculated registry record.itemType (addCalculated registry lookup record
        (registry.calculated record.itemType) document) =
      uncalculated registry record.itemType document := by
  cases document <;> try rfl
  rename_i entries
  refine congrArg Json.object ?_
  -- The induction is on the properties written, while those dropped stay the same.
  suffices fold : ∀ (fields : List CalculatedField) (entries : List (String × Json)),
      (∀ field ∈ fields, field ∈ registry.calculated record.itemType) →
        (fields.foldl (fun entries field => Entries.insert field.name
          (field.compute record.properties (inputs registry lookup field record)) entries)
            entries).filter (fun entry => isUncalculated registry record.itemType entry.1) =
        entries.filter (fun entry => isUncalculated registry record.itemType entry.1) from
    fold _ entries fun _ => id
  intro fields
  induction fields with
  | nil => exact fun _ _ => rfl
  | cons first rest ih =>
    intro entries listed
    rw [List.foldl_cons, ih _ fun field later => listed field (List.mem_cons_of_mem _ later)]
    have named : first.name ∈ (registry.calculated record.itemType).map CalculatedField.name :=
      List.mem_map_of_mem (listed first List.mem_cons_self)
    have dropped : isUncalculated registry record.itemType first.name = false := by
      simpa [isUncalculated] using named
    exact Entries.filter_insert dropped _ entries

end Document

namespace Embedding

variable {registry : Registry} {store : WriteStore} {cache : RecordCache} {paths : List String}
  {record : EntityRecord}

section

variable (names : NamesLinks registry store.record?) (found : store.record? record.uuid = some record)
  (known : ∀ uuid ∈ loaded registry store paths record, cache.record? uuid = store.record? uuid)
include names found known

/-- What was loaded stands for the whole store, as far as the embedded part goes. -/
theorem builder_over_loaded (stack : List Uuid) :
    Document.builder registry cache.record? (EmbedTree.ofPaths paths) record stack =
      Document.builder registry store.record? (EmbedTree.ofPaths paths) record stack := by
  refine (Document.builder_congr names (EmbedTree.grown_ofPaths paths) ⟨_, found⟩ ?_ stack).symm
  exact fun tail from_ uuid meets => (known uuid (mem_loaded_of_meets found from_ meets)).symm

theorem uncalculated_over_loaded :
    Document.uncalculated registry record.itemType (resolution registry store cache paths
        record).document =
      Document.uncalculated registry record.itemType (Document.builder registry store.record?
        (EmbedTree.ofPaths paths) record [record.uuid]) := by
  rw [resolution, Document.ofRecord, Document.uncalculated_addCalculated,
    builder_over_loaded names found known]

end

end Embedding

end CachedViews
