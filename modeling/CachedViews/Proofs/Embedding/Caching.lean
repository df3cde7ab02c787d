import CachedViews.Proofs.Embedding.Reading

/-!
What a shared cache can change in a resolution. Everything but the calculated properties is read
along the links that were visited. A calculated property may ask for more, and then it sees what
happens to be cached.
-/
namespace CachedViews

namespace Embedding

open Document

variable {registry : Registry} {store : WriteStore} {cache : RecordCache} {paths : List String}
  {record : EntityRecord}

/-- What resolving a record loads, and nothing else. -/
def ownCache (registry : Registry) (store : WriteStore) (paths : List String)
    (record : EntityRecord) : RecordCache :=
  World.knows store.record? {} (loaded registry store paths record)

/-- An entity that a calculated property asks for, though resolving the record does not load it. -/
def Overlooked (registry : Registry) (store : WriteStore) (paths : List String)
    (record : EntityRecord) (uuid : Uuid) : Prop :=
  Consulted registry (ownCache registry store paths record).record? record uuid ∧
    uuid ∉ loaded registry store paths record

/-- Resolutions of one record that may differ in what is calculated. -/
structure Resolution.SameSource (registry : Registry) (left right : Resolution) : Prop where
  record : left.record = right.record
  document : uncalculated registry left.record.itemType left.document =
    uncalculated registry right.record.itemType right.document
  linked : left.linked = right.linked
  revLinks : left.revLinks = right.revLinks
  warnings : left.warnings = right.warnings

theorem ownCache_loaded (uuid : Uuid) (listed : uuid ∈ loaded registry store paths record) :
    (ownCache registry store paths record).record? uuid = store.record? uuid := by
  rw [RecordCache.record?, ownCache, World.knows_get?, if_pos listed]
  rfl

theorem ownCache_other (uuid : Uuid) (other : uuid ∉ loaded registry store paths record) :
    (ownCache registry store paths record).record? uuid = none := by
  rw [RecordCache.record?, ownCache, World.knows_get?, if_neg other]
  rfl

section

variable (names : NamesLinks registry store.record?) (found : store.record? record.uuid = some record)
  (known : ∀ uuid ∈ loaded registry store paths record, cache.record? uuid = store.record? uuid)
include names found known

theorem resolution_sameSource :
    Resolution.SameSource registry (resolution registry store cache paths record)
      (resolutionUnder registry store paths record) where
  record := rfl
  document := by
    refine (uncalculated_over_loaded names found known).trans ?_
    exact (uncalculated_over_loaded names found ownCache_loaded).symm
  linked := rfl
  revLinks := rfl
  warnings := rfl

/-- A cache that shows nothing of what is overlooked is as good as none. -/
theorem resolution_eq_resolutionUnder
    (hidden : ∀ uuid, Overlooked registry store paths record uuid → cache.record? uuid = none) :
    resolution registry store cache paths record = resolutionUnder registry store paths record := by
  have agree : ∀ uuid, Consulted registry (ownCache registry store paths record).record? record
      uuid → (ownCache registry store paths record).record? uuid = cache.record? uuid := by
    intro uuid consulted
    by_cases listed : uuid ∈ loaded registry store paths record
    · rw [ownCache_loaded uuid listed, known uuid listed]
    · rw [ownCache_other uuid listed, hidden uuid ⟨consulted, listed⟩]
  have same : Document.ofRecord registry cache.record? paths record =
      Document.ofRecord registry (ownCache registry store paths record).record? paths record := by
    rw [Document.ofRecord, Document.ofRecord, builder_over_loaded names found known,
      builder_over_loaded names found ownCache_loaded]
    exact (addCalculated_congr (fun field listed => inputs_congr agree listed) _).symm
  exact congrArg (fun document => { resolution registry store cache paths record with document })
    same

end

section

variable (registry : Registry) (lookup : Uuid → Option EntityRecord)

/-- Whether a dependency path never steps from a property that is no link into one that is named
like a link of the same type. -/
def StepsApart : List String → EntityRecord → Prop
  | [], _ => True
  | segment :: rest, record =>
    if registry.isLink record.itemType segment = true then
      ∀ target ∈ linkTargets (record.properties.get? segment), ∀ next, lookup target = some next →
        StepsApart rest next
    else ∀ later ∈ rest, registry.isLink record.itemType later = false

end

theorem not_consults_of_plain {lookup : Uuid → Option EntityRecord} {path : List String}
    {entries : List (String × Json)} {itemType : ItemType}
    (plain : ∀ segment ∈ path, registry.isLink itemType segment = false) (uuid : Uuid) :
    ¬ Consults registry lookup path entries itemType uuid := by
  induction path generalizing entries with
  | nil => exact id
  | cons segment rest ih =>
    rintro ⟨value, -, consults⟩
    rw [plain segment List.mem_cons_self, if_neg Bool.false_ne_true] at consults
    obtain ⟨-, nested, -, later⟩ := consults
    exact ih (fun other inside => plain other (List.mem_cons_of_mem _ inside)) later

/-- A path that steps apart asks for nothing but what it meets. -/
theorem meets_of_consults {lookup seen : Uuid → Option EntityRecord} {path : List String}
    {record : EntityRecord} {uuid : Uuid}
    (within : ∀ target next, seen target = some next → lookup target = some next)
    (apart : StepsApart registry lookup path record)
    (consults : Consults registry seen path record.properties.entries record.itemType uuid) :
    Meets registry lookup true path record uuid := by
  induction path generalizing record with
  | nil => exact consults.elim
  | cons segment rest ih =>
    obtain ⟨value, there, consults⟩ := consults
    have held : record.properties.get? segment = some value := there
    rw [StepsApart] at apart
    by_cases declared : registry.isLink record.itemType segment = true
    · rw [if_pos declared] at apart consults
      obtain ⟨target, listed, reached⟩ := consults
      have inside : target ∈ linkTargets (record.properties.get? segment) := by
        rwa [held]
      refine ⟨follows_of_last, declared, target, inside, reached.imp_right ?_⟩
      rintro ⟨next, found, later⟩
      have there := within target next found
      exact ⟨next, there, ih (apart target inside next there) later⟩
    · rw [if_neg declared] at apart consults
      obtain ⟨-, nested, -, later⟩ := consults
      exact absurd later (not_consults_of_plain apart uuid)

/-- Nothing is overlooked when the calculated paths of a record step apart. -/
theorem not_overlooked_of_stepsApart (found : store.record? record.uuid = some record)
    (apart : ∀ path ∈ calculatedPaths registry record.itemType,
      StepsApart registry store.record? (Path.segments path) record) (uuid : Uuid) :
    ¬ Overlooked registry store paths record uuid := by
  rintro ⟨⟨path, listed, consults⟩, other⟩
  refine other (mem_loaded_of_calculated found listed ?_)
  refine meets_of_consults (fun target next seen => ?_) (apart path listed) consults
  by_cases inside : target ∈ loaded registry store paths record
  · exact (ownCache_loaded target inside).symm.trans seen
  · rw [ownCache_other target inside] at seen
    cases seen

/-- Declared paths that nest plainly step apart wherever links are well typed. -/
theorem stepsApart_of_nestsPlainly (sound : LinksSound registry store.record?) {path : List String}
    (nests : registry.NestsPlainly record.itemType path)
    (known : ∃ uuid, store.record? uuid = some record) :
    StepsApart registry store.record? path record := by
  induction path generalizing record with
  | nil => exact trivial
  | cons segment rest ih =>
    obtain ⟨source, current⟩ := known
    rw [Registry.NestsPlainly] at nests
    rw [StepsApart]
    cases link : registry.linkTarget? record.itemType segment with
    | none =>
      rw [link] at nests
      have plain : registry.isLink record.itemType segment = false := by
        rw [isLink_eq_isSome, link]
        rfl
      rw [plain, if_neg Bool.false_ne_true]
      exact nests
    | some itemType =>
      rw [link] at nests
      have declared : registry.isLink record.itemType segment = true := by
        rw [isLink_eq_isSome, link]
        rfl
      rw [if_pos declared]
      intro target listed next found
      have typed := sound.typed source record current segment itemType link target listed next found
      exact ih (typed ▸ nests) ⟨target, found⟩

end Embedding

end CachedViews
