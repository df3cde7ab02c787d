import CachedViews.Proofs.Embedding.Documents

/-!
Calculated properties over records that agree, and with them whole documents. A calculation
sees the values at its dependency paths, which look at nothing but what is read on the way.
-/
namespace CachedViews

namespace Registry

/-- After a property that is no link, no later segment is a link of the same type. -/
def NestsPlainly (registry : Registry) : ItemType → List String → Prop
  | _, [] => True
  | current, segment :: rest =>
    match registry.linkTarget? current segment with
    | some target => NestsPlainly registry target rest
    | none => ∀ later ∈ rest, registry.isLink current later = false

/-- Calculated paths of a type step into nested properties by names that are no links. -/
def NestedApart (registry : Registry) (itemType : ItemType) : Prop :=
  ∀ path ∈ Embedding.calculatedPaths registry itemType,
    registry.NestsPlainly itemType (Path.segments path)

/-- No calculated path of a type comes to a link whose name is the wildcard. -/
def WildcardApart (registry : Registry) (itemType : ItemType) : Prop :=
  ∀ path ∈ Embedding.calculatedPaths registry itemType,
    Embedding.Named registry true itemType (Path.segments path)

/-- Calculations give the same results on the same inputs, where zeros of either sign count as the
same. This asks more of a calculation than to be a function of its inputs: it may not tell `0.0`
from `-0.0`. An update that changes nothing else has no changed fields, so that the documents of
other entities are not rebuilt for it. -/
def Pure (registry : Registry) : Prop :=
  ∀ itemType, ∀ field ∈ registry.calculated itemType,
    ∀ own own' : Properties, ∀ inputs inputs' : CalculatedInputs,
      Json.plainEntries own.entries = Json.plainEntries own'.entries →
      Json.plainEntries inputs.entries = Json.plainEntries inputs'.entries →
        (field.compute own inputs).plain = (field.compute own' inputs').plain

end Registry

namespace Document

open CachedViews.Embedding EmbedTree

variable {registry : Registry} {left right : Uuid → Option EntityRecord} {reads : Reads}
  {record other : EntityRecord}

/-- Two records that a dependency path cannot tell apart. -/
structure PathAgrees (registry : Registry) (left right : Uuid → Option EntityRecord)
    (reads : Reads) (path : List String) (record other : EntityRecord) : Prop where
  known : ∃ uuid, left uuid = some record
  agrees : Agrees reads record other
  whole : path = [] → ∀ field, record.plainAt field = other.plainAt field
  named : Named registry true record.itemType path
  nests : registry.NestsPlainly record.itemType path
  covers : registry.Covers reads true record.itemType path
  along : ∀ uuid, Meets registry left true path record uuid →
    AgreesAt reads (left uuid) (right uuid)

theorem PathAgrees.below {segment : String} {rest : List String}
    (agrees : PathAgrees registry left right reads (segment :: rest) record other)
    (sound : LinksSound registry left)
    (declared : registry.isLink record.itemType segment = true) {uuid : Uuid}
    (listed : uuid ∈ linkTargets (record.properties.get? segment)) {next next' : EntityRecord}
    (found : left uuid = some next) (same : Agrees reads next next') :
    PathAgrees registry left right reads rest next next' := by
  obtain ⟨source, current⟩ := agrees.known
  obtain ⟨itemType, link⟩ := exists_linkTarget? declared
  have typed : next.itemType = itemType :=
    sound.typed source record current segment itemType link uuid listed next found
  obtain ⟨-, named, whole, covers⟩ := covers_step agrees.named follows_of_last agrees.covers link
  have nests := agrees.nests
  rw [Registry.NestsPlainly, link] at nests
  subst typed
  exact ⟨⟨uuid, found⟩, same, fun last field => same.covered field (whole rfl last field), named,
    nests, covers, fun later meets =>
      agrees.along later ⟨follows_of_last, declared, uuid, listed, Or.inr ⟨next, found, meets⟩⟩⟩

/-- What follows a link that holds an identifier. -/
def behind (registry : Registry) (lookup : Uuid → Option EntityRecord) (rest : List String)
    (raw : Json) : Json :=
  match raw.text? >>= Uuid.parse? >>= lookup with
  | some record => valueAt registry lookup rest record.properties.entries record.itemType
  | none => .null

theorem behind_agrees {rest : List String} {raw raw' : Json} (same : raw.plain = raw'.plain)
    (visited : ∀ uuid, raw.text? >>= Uuid.parse? = some uuid →
      AgreesAt reads (left uuid) (right uuid))
    (below : ∀ uuid next next', raw.text? >>= Uuid.parse? = some uuid → left uuid = some next →
      Agrees reads next next' →
        (valueAt registry left rest next.properties.entries next.itemType).plain =
          (valueAt registry right rest next'.properties.entries next'.itemType).plain) :
    (behind registry left rest raw).plain = (behind registry right rest raw').plain := by
  unfold behind
  rw [show raw'.text? = raw.text? by rw [← Json.text?_plain, ← same, Json.text?_plain]]
  cases parsed : raw.text? >>= Uuid.parse? with
  | none => rfl
  | some uuid =>
    simp only [Option.bind_eq_bind, Option.bind_some]
    have agrees := visited uuid parsed
    cases found : left uuid with
    | none =>
      cases found' : right uuid with
      | none => rfl
      | some next' =>
        rw [found, found'] at agrees
        exact agrees.elim
    | some next =>
      rw [found] at agrees
      obtain ⟨next', found', nextSame⟩ := agrees.of_some
      rw [found']
      exact below uuid next next' parsed found nextSame

/-- What stands for a link value along a dependency path. -/
def behindLink (registry : Registry) (lookup : Uuid → Option EntityRecord) (rest : List String)
    (value : Json) : Json :=
  match value with
  | .array items => .array (items.map (behind registry lookup rest))
  | single => behind registry lookup rest single

theorem valueAt_link {lookup : Uuid → Option EntityRecord} {segment : String} {rest : List String}
    {entries : List (String × Json)} {itemType : ItemType}
    (declared : registry.isLink itemType segment = true) :
    valueAt registry lookup (segment :: rest) entries itemType =
      match Entries.get? segment entries with
      | none => .null
      | some value => behindLink registry lookup rest value := by
  rw [valueAt]
  cases Entries.get? segment entries with
  | none => rfl
  | some value =>
    dsimp only
    rw [if_pos declared]
    cases value <;> rfl

theorem behindLink_agrees (reads : Reads) {rest : List String} {value value' : Json}
    (same : value.plain = value'.plain)
    (visited : ∀ uuid ∈ linkTargets (some value), AgreesAt reads (left uuid) (right uuid))
    (onward : ∀ uuid ∈ linkTargets (some value), ∀ next next', left uuid = some next →
      Agrees reads next next' →
        (valueAt registry left rest next.properties.entries next.itemType).plain =
          (valueAt registry right rest next'.properties.entries next'.itemType).plain) :
    (behindLink registry left rest value).plain = (behindLink registry right rest value').plain := by
  have single : ∀ raw raw' : Json, raw.plain = raw'.plain →
      (∀ uuid, raw.text? >>= Uuid.parse? = some uuid → uuid ∈ linkTargets (some value)) →
        (behind registry left rest raw).plain = (behind registry right rest raw').plain :=
    fun raw raw' agreed listed => behind_agrees agreed
      (fun uuid parsed => visited uuid (listed uuid parsed))
      (fun uuid next next' parsed => onward uuid (listed uuid parsed) next next')
  cases value with
  -- Values with the same plain form have the same shape, item by item.
  | array items =>
    cases value' <;> try cases same
    rename_i items'
    simp only [Json.plain, Json.array.injEq, Json.plainItems_eq_map] at same
    rw [behindLink, behindLink, Json.plain, Json.plain, Json.plainItems_eq_map,
      Json.plainItems_eq_map, List.map_map, List.map_map]
    congr 1
    refine List.ext_getElem ?_ fun i bound bound' => ?_
    · simpa using congrArg List.length same
    · rw [List.length_map] at bound bound'
      have each := List.getElem_of_eq same (i := i) (by simpa using bound)
      rw [List.getElem_map, List.getElem_map] at each ⊢
      refine single items[i] items'[i] each fun uuid parsed => ?_
      exact List.mem_filterMap.mpr ⟨items[i], List.getElem_mem bound, parsed⟩
  | string raw =>
    cases value' <;> try cases same
    refine single _ _ rfl fun uuid parsed => ?_
    simp only [Json.text?, Option.bind_eq_bind, Option.bind_some] at parsed
    simp [linkTargets, parsed]
  -- No other value holds an identifier.
  | null => cases value' <;> first | rfl | cases same
  | bool _ => cases value' <;> first | rfl | cases same
  | integer _ => cases value' <;> first | rfl | cases same
  | double _ => cases value' <;> first | rfl | cases same
  | object _ => cases value' <;> first | rfl | cases same

theorem valueAt_plain {lookup : Uuid → Option EntityRecord} {segment : String}
    {rest : List String} {entries : List (String × Json)} {itemType : ItemType}
    (declared : registry.isLink itemType segment = false) :
    valueAt registry lookup (segment :: rest) entries itemType =
      match Entries.get? segment entries with
      | none => .null
      | some value =>
        if rest = [] then value
        else
          match value with
          | .object nested => valueAt registry lookup rest nested itemType
          | _ => .null := by
  rw [valueAt]
  cases Entries.get? segment entries with
  | none => rfl
  | some value =>
    dsimp only
    apply (if_neg (by rw [declared]; exact Bool.false_ne_true)).trans
    cases value <;> rfl

/-- Where no segment is a link, the value of the first property alone decides. -/
theorem valueAt_apart {segment : String} {rest : List String} {itemType : ItemType}
    {entries others : List (String × Json)}
    (held : (Entries.get? segment entries).map Json.plain =
      (Entries.get? segment others).map Json.plain)
    (apart : ∀ name ∈ segment :: rest, registry.isLink itemType name = false) :
    (valueAt registry left (segment :: rest) entries itemType).plain =
      (valueAt registry right (segment :: rest) others itemType).plain := by
  induction rest generalizing segment entries others with
  | nil =>
    rw [valueAt_plain (apart segment List.mem_cons_self),
      valueAt_plain (apart segment List.mem_cons_self)]
    cases there : Entries.get? segment entries with
    | none =>
      rw [there] at held
      rw [Option.map_eq_none_iff.mp held.symm]
    | some value =>
      rw [there] at held
      obtain ⟨value', there', valuesSame⟩ := Option.map_eq_some_iff.mp held.symm
      rw [there']
      exact valuesSame.symm
  | cons next more ih =>
    rw [valueAt_plain (apart segment List.mem_cons_self),
      valueAt_plain (apart segment List.mem_cons_self)]
    cases there : Entries.get? segment entries with
    | none =>
      rw [there] at held
      rw [Option.map_eq_none_iff.mp held.symm]
    | some value =>
      rw [there] at held
      obtain ⟨value', there', valuesSame⟩ := Option.map_eq_some_iff.mp held.symm
      rw [there']
      dsimp only
      rw [if_neg (List.cons_ne_nil next more), if_neg (List.cons_ne_nil next more)]
      cases value <;> cases value' <;> try cases valuesSame
      all_goals try rfl
      simp only [Json.plain, Json.object.injEq] at valuesSame
      refine ih ?_ fun name listed => apart name (List.mem_cons_of_mem _ listed)
      rw [← Json.get?_plainEntries, ← Json.get?_plainEntries, valuesSame]

/-- The value at a dependency path, over records that the path cannot tell apart. -/
theorem valueAt_agrees (sound : LinksSound registry left) {path : List String}
    (agrees : PathAgrees registry left right reads path record other) :
    (valueAt registry left path record.properties.entries record.itemType).plain =
      (valueAt registry right path other.properties.entries other.itemType).plain := by
  induction path generalizing record other with
  | nil =>
    rw [valueAt, valueAt, Json.plain, Json.plain,
      EntityRecord.plainEntries_eq (agrees.whole rfl)]
  | cons segment rest ih =>
    have isRead : reads.covers record.itemType segment = true := by
      have covers := agrees.covers
      rw [Registry.Covers] at covers
      split at covers
      · exact covers segment
      · exact covers.1
    have held : (Entries.get? segment record.properties.entries).map Json.plain =
        (Entries.get? segment other.properties.entries).map Json.plain :=
      agrees.agrees.covered segment isRead
    rw [← agrees.agrees.itemType]
    cases declared : registry.isLink record.itemType segment with
    -- A nested property keeps the type of its entity, so no later segment leaves this record.
    | false =>
      have notLink : registry.linkTarget? record.itemType segment = none := by
        rw [isLink_eq_isSome] at declared
        exact Option.isSome_eq_false_iff.mp declared |> Option.isNone_iff_eq_none.mp
      have nests := agrees.nests
      rw [Registry.NestsPlainly, notLink] at nests
      have apart : ∀ name ∈ segment :: rest, registry.isLink record.itemType name = false := by
        intro name listed
        rcases List.mem_cons.mp listed with rfl | later
        · exact declared
        · exact nests name later
      exact valueAt_apart held apart
    | true =>
      rw [valueAt_link declared, valueAt_link declared]
      cases there : Entries.get? segment record.properties.entries with
      | none =>
        rw [there] at held
        rw [Option.map_eq_none_iff.mp held.symm]
      | some value =>
        rw [there] at held
        obtain ⟨value', there', valuesSame⟩ := Option.map_eq_some_iff.mp held.symm
        rw [there']
        have listed : ∀ uuid, uuid ∈ linkTargets (some value) →
            uuid ∈ linkTargets (record.properties.get? segment) := by
          intro uuid inside
          rw [SortedMap.get?, there]
          exact inside
        refine behindLink_agrees reads valuesSame.symm ?_ ?_
        · intro uuid inside
          exact agrees.along uuid
            ⟨follows_of_last, declared, uuid, listed uuid inside, Or.inl rfl⟩
        · intro uuid inside next next' found same
          exact ih (agrees.below sound declared (listed uuid inside) found same)

end Document

namespace Document

open CachedViews.Embedding EmbedTree

variable {registry : Registry} {left right : Uuid → Option EntityRecord} {reads : Reads}
  {record : EntityRecord}

/-- Writing values that agree under the same keys keeps entries in agreement. -/
theorem fold_agrees {α : Type} {members : List α} {key : α → String} {value value' : α → Json}
    {entries others : List (String × Json)}
    (same : Json.plainEntries entries = Json.plainEntries others)
    (each : ∀ member ∈ members, (value member).plain = (value' member).plain) :
    Json.plainEntries (members.foldl
        (fun entries member => Entries.insert (key member) (value member) entries) entries) =
      Json.plainEntries (members.foldl
        (fun entries member => Entries.insert (key member) (value' member) entries) others) := by
  induction members generalizing entries others with
  | nil => exact same
  | cons first rest ih =>
    refine ih ?_ fun member listed => each member (List.mem_cons_of_mem _ listed)
    rw [Json.plainEntries_insert, Json.plainEntries_insert, same, each first List.mem_cons_self]

theorem inputs_agree {field : CalculatedField}
    (each : ∀ path ∈ field.dependsOn,
      (valueAt registry left (Path.segments path) record.properties.entries
        record.itemType).plain =
        (valueAt registry right (Path.segments path) record.properties.entries
          record.itemType).plain) :
    Json.plainEntries (inputs registry left field record).entries =
      Json.plainEntries (inputs registry right field record).entries := by
  unfold inputs SortedMap.ofList Entries.ofList
  dsimp only
  rw [List.foldl_map, List.foldl_map]
  exact fold_agrees rfl each

/-- What it takes for an embedding of one record to see no difference between two stores. -/
structure RootAgrees (registry : Registry) (left right : Uuid → Option EntityRecord)
    (reads : Reads) (record : EntityRecord) : Prop where
  built : registry.Built
  nested : registry.NestedApart record.itemType
  wildcard : registry.WildcardApart record.itemType
  sound : LinksSound registry left
  known : ∃ uuid, left uuid = some record
  read : registry.reads? record.itemType = some reads
  along : ∀ uuid, Visits registry left record uuid → AgreesAt reads (left uuid) (right uuid)

namespace RootAgrees

variable (root : RootAgrees registry left right reads record)
include root

theorem named {path : String} (listed : path ∈ registry.embedPaths record.itemType) :
    Named registry false record.itemType (Path.segments path) :=
  named_of_wildcardLast _ (root.built.wildcardLast listed)

/-- Both stores lead to the same entities. -/
theorem visits_iff (uuid : Uuid) :
    Visits registry left record uuid ↔ Visits registry right record uuid := by
  obtain ⟨embedded, calculated⟩ := Registry.covers_reads root.read
  refine or_congr ?_ ?_
  · refine exists_congr fun path => and_congr_right fun listed => ?_
    exact meets_iff root.sound root.known (root.named listed) (embedded path listed) (.refl _ _)
      (fun later meets => root.along later (Or.inl ⟨path, listed, meets⟩)) uuid
  · refine exists_congr fun path => and_congr_right fun listed => ?_
    exact meets_iff root.sound root.known (root.wildcard path listed) (calculated path listed)
      (.refl _ _) (fun later meets => root.along later (Or.inr ⟨path, listed, meets⟩)) uuid

theorem embedded_agrees (stack : List Uuid) :
    (builder registry left (EmbedTree.ofPaths (registry.embedPaths record.itemType)) record
        stack).plain =
      (builder registry right (EmbedTree.ofPaths (registry.embedPaths record.itemType)) record
        stack).plain := by
  obtain ⟨embedded, -⟩ := Registry.covers_reads root.read
  suffices node : NodeAgrees registry left right reads
      (FromPaths (registry.embedPaths record.itemType))
      (EmbedTree.ofPaths (registry.embedPaths record.itemType)).keeps record record from
    builder_agrees root.sound (grown_ofPaths _) stack node
  refine ⟨root.known, rfl, rfl, fun _ _ => rfl, ?_, ?_⟩
  · rintro field rest longer (whole | ⟨path, listed, same⟩)
    · exact absurd (List.cons.inj whole).2 longer
    · rw [same]
      exact ⟨root.named listed, embedded path listed⟩
  · rintro tail (rfl | ⟨path, listed, rfl⟩) uuid meets
    · exact absurd ⟨rfl, rfl⟩ meets.1
    · exact root.along uuid (Or.inl ⟨path, listed, meets⟩)

theorem calculated_agree {path : String}
    (listed : path ∈ calculatedPaths registry record.itemType) :
    (valueAt registry left (Path.segments path) record.properties.entries record.itemType).plain =
      (valueAt registry right (Path.segments path) record.properties.entries
        record.itemType).plain := by
  obtain ⟨-, calculated⟩ := Registry.covers_reads root.read
  exact valueAt_agrees root.sound ⟨root.known, .refl _ _, fun _ _ => rfl,
    root.wildcard path listed, root.nested path listed, calculated path listed,
    fun uuid meets => root.along uuid (Or.inr ⟨path, listed, meets⟩)⟩

/-- Both stores give the same document. -/
theorem ofRecord_agrees (pure : registry.Pure) :
    (ofRecord registry left (registry.embedPaths record.itemType) record).plain =
      (ofRecord registry right (registry.embedPaths record.itemType) record).plain := by
  have embedded := root.embedded_agrees [record.uuid]
  have calculated : ∀ field ∈ registry.calculated record.itemType,
      (field.compute record.properties (inputs registry left field record)).plain =
        (field.compute record.properties (inputs registry right field record)).plain := by
    intro field listed
    refine pure _ field listed _ _ _ _ rfl (inputs_agree fun path inside => ?_)
    exact root.calculated_agree (List.mem_flatMap.mpr ⟨field, listed, inside⟩)
  unfold ofRecord
  revert embedded
  generalize builder registry left _ record [record.uuid] = document
  generalize builder registry right _ record [record.uuid] = document'
  intro embedded
  cases document <;> cases document'
  case object.object entries entries' =>
    simp only [Json.plain, Json.object.injEq] at embedded
    simp only [addCalculated, Json.plain, Json.object.injEq]
    exact fold_agrees embedded calculated
  all_goals first | exact embedded | cases embedded

end RootAgrees

end Document

end CachedViews
