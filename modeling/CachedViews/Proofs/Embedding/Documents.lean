import CachedViews.Proofs.Embedding.Agreement
import CachedViews.Proofs.Registry.EmbedTree

/-!
Documents over records that agree. Two documents of an entity have the same plain form when
the records agree on what is read at every entity that the embedding visits: a tree of kept
properties, and each calculated property, look at nothing else.
-/
namespace CachedViews

namespace EntityRecord

theorem plainEntries_eq {left right : EntityRecord}
    (same : ∀ field, left.plainAt field = right.plainAt field) :
    Json.plainEntries left.properties.entries = Json.plainEntries right.properties.entries := by
  refine Entries.eq_of_get? ?_ ?_ fun field => ?_
  · rw [Json.plainEntries_eq_map]
    exact Entries.sorted_map (fun _ => Json.plain) left.properties.sorted
  · rw [Json.plainEntries_eq_map]
    exact Entries.sorted_map (fun _ => Json.plain) right.properties.sorted
  · rw [Json.get?_plainEntries, Json.get?_plainEntries]
    exact same field

end EntityRecord

namespace Document

open CachedViews.Embedding EmbedTree

variable {registry : Registry} {left right : Uuid → Option EntityRecord} {reads : Reads}
  {record other : EntityRecord}

section Embedded

variable (registry) (lookup : Uuid → Option EntityRecord)

theorem get?_builders (field : String) (children : List (String × EmbedTree)) :
    Entries.get? field (builders registry lookup children) =
      (Entries.get? field children).map (builder registry lookup) := by
  induction children with
  | nil => rfl
  | cons first rest ih =>
    obtain ⟨name, tree⟩ := first
    rw [builders]
    by_cases hit : compare field name = .eq <;> simp [Entries.get?, hit, ih]

/-- What a kept property holds in a document. -/
def keptValue (children : List (String × EmbedTree)) (record : EntityRecord) (path : List Uuid)
    (field : String) (value : Json) : Json :=
  match Entries.get? field children with
  | some child =>
    if registry.isLink record.itemType field then
      replaceLinks (target lookup (builder registry lookup child) path) value
    else select child value
  | none => value

def keptValue? (fields : SortedSet String) (children : List (String × EmbedTree))
    (record : EntityRecord) (path : List Uuid) (field : String) (value : Json) : Option Json :=
  if (EmbedTree.node fields children).keeps field then
    some (keptValue registry lookup children record path field value)
  else none

theorem keptEntries_eq (fields : SortedSet String) (children : List (String × EmbedTree))
    (record : EntityRecord) (path : List Uuid) :
    keptEntries registry lookup (.node fields children) (builders registry lookup children) record
        path =
      record.properties.entries.filterMap fun entry =>
        (keptValue? registry lookup fields children record path entry.1 entry.2).map
          (entry.1, ·) := by
  unfold keptEntries
  congr 1
  funext entry
  obtain ⟨field, value⟩ := entry
  dsimp only
  rw [keptValue?]
  split
  · rw [get?_builders, child?, EmbedTree.children, keptValue]
    cases Entries.get? field children with
    | none => rfl
    | some child =>
      dsimp only [Option.map_some]
      split <;> rfl
  · rfl

theorem get?_keptEntries (fields : SortedSet String) (children : List (String × EmbedTree))
    (record : EntityRecord) (path : List Uuid) (field : String) :
    Entries.get? field (Json.plainEntries (keptEntries registry lookup (.node fields children)
        (builders registry lookup children) record path)) =
      ((record.properties.get? field).bind
        (keptValue? registry lookup fields children record path field)).map Json.plain := by
  rw [Json.get?_plainEntries, keptEntries_eq,
    Entries.get?_filterMap _ (keptValue? registry lookup fields children record path)
      record.properties.sorted]
  rfl

theorem sorted_keptEntries (fields : SortedSet String) (children : List (String × EmbedTree))
    (record : EntityRecord) (path : List Uuid) :
    Entries.Sorted (Json.plainEntries (keptEntries registry lookup (.node fields children)
      (builders registry lookup children) record path)) := by
  rw [Json.plainEntries_eq_map, keptEntries_eq]
  exact Entries.sorted_map (fun _ => Json.plain) (Entries.sorted_filterMap
    (keptValue? registry lookup fields children record path) record.properties.sorted)

end Embedded

theorem target_agrees {build other : Builder} {path : List Uuid} {uuid : Uuid}
    (agrees : AgreesAt reads (left uuid) (right uuid))
    (built : ∀ record record', left uuid = some record → right uuid = some record' →
      Agrees reads record record' →
        (build record (path ++ [uuid])).plain = (other record' (path ++ [uuid])).plain) :
    (target left build path uuid).plain = (target right other path uuid).plain := by
  unfold target
  split
  · rfl
  · cases found : left uuid with
    | none =>
      cases found' : right uuid with
      | none => rfl
      | some record' =>
        rw [found, found'] at agrees
        exact agrees.elim
    | some record =>
      rw [found] at agrees
      obtain ⟨record', found', same⟩ := agrees.of_some
      rw [found']
      exact built record record' found found' same

theorem plain_withIdentity (record : EntityRecord) (entries : List (String × Json)) :
    (withIdentity record entries).plain = withIdentity record (Json.plainEntries entries) := by
  rw [withIdentity, withIdentity, Json.plain, Json.plainEntries_insert, Json.plainEntries_insert]
  rfl

/-- Two records that a tree with these paths and kept properties cannot tell apart. -/
structure NodeAgrees (registry : Registry) (left right : Uuid → Option EntityRecord)
    (reads : Reads) (tails : List String → Prop) (keeps : String → Bool)
    (record other : EntityRecord) : Prop where
  known : ∃ uuid, left uuid = some record
  uuid : record.uuid = other.uuid
  itemType : record.itemType = other.itemType
  kept : ∀ field, keeps field = true → record.plainAt field = other.plainAt field
  covered : ∀ field rest, rest ≠ [] → tails (field :: rest) →
    Named registry false record.itemType (field :: rest) ∧
      registry.Covers reads false record.itemType (field :: rest)
  along : ∀ tail, tails tail → ∀ uuid, Meets registry left false tail record uuid →
    AgreesAt reads (left uuid) (right uuid)

namespace NodeAgrees

variable {tails : List String → Prop} {keeps : String → Bool}

/-- A kept property of a node that comes from paths that are read is read. -/
theorem covers_of_keeps {child : EmbedTree} {itemType : ItemType}
    (grown : Grown tails child)
    (covers : ∀ tail, tails tail → registry.Covers reads false itemType tail) {field : String}
    (keeps : child.keeps field = true) : reads.covers itemType field = true := by
  cases grown with
  | @node _ fields _ kept _ _ =>
    have isCovered : ∀ name ∈ fields, name = Path.wildcard ∨ name = field →
        reads.covers itemType field = true := by
      -- A kept name is the first step of a path, and every path from here on is covered.
      intro name inside either
      obtain ⟨rest, tail⟩ := kept name inside
      have along := covers _ tail
      rw [Registry.Covers] at along
      split at along
      · exact along field
      · rename_i apart
        exact either.resolve_left apart ▸ along.1
    simp only [EmbedTree.keeps, keepsAll, SortedSet.contains, EmbedTree.fields,
      Bool.or_eq_true] at keeps
    rcases keeps with all | inside
    · exact isCovered _ (of_decide_eq_true all) (Or.inl rfl)
    · exact isCovered _ (of_decide_eq_true inside) (Or.inr rfl)

/-- The entities behind a link are as hard to tell apart for the tree below it. -/
theorem below (agrees : NodeAgrees registry left right reads tails keeps record other)
    (sound : LinksSound registry left) {field : String} {child : EmbedTree}
    (grown : Grown (fun rest => rest ≠ [] ∧ tails (field :: rest)) child)
    (declared : registry.isLink record.itemType field = true) {uuid : Uuid}
    (listed : uuid ∈ linkTargets (record.properties.get? field)) {next next' : EntityRecord}
    (found : left uuid = some next) (same : Agrees reads next next') :
    NodeAgrees registry left right reads (fun rest => rest ≠ [] ∧ tails (field :: rest))
      child.keeps next next' := by
  obtain ⟨source, current⟩ := agrees.known
  obtain ⟨itemType, link⟩ := exists_linkTarget? declared
  have typed : next.itemType = itemType :=
    sound.typed source record current field itemType link uuid listed next found
  have step : ∀ tail, (tail ≠ [] ∧ tails (field :: tail)) →
      Named registry false next.itemType tail ∧
        registry.Covers reads false next.itemType tail := by
    rintro tail ⟨longer, from_⟩
    obtain ⟨named, covers⟩ := agrees.covered field tail longer from_
    obtain ⟨-, namedBelow, -, coversBelow⟩ := covers_step named (follows_of_longer longer) covers link
    exact typed ▸ ⟨namedBelow, coversBelow⟩
  refine ⟨⟨uuid, found⟩, same.uuid, same.itemType, ?_, ?_, ?_⟩
  · intro name keepsName
    exact same.covered name (covers_of_keeps grown (fun tail from_ => (step tail from_).2) keepsName)
  · exact fun name rest _ from_ => step (name :: rest) from_
  · rintro rest ⟨longer, from_⟩ later meets
    exact agrees.along _ from_ later
      ⟨follows_of_longer longer, declared, uuid, listed, Or.inr ⟨next, found, meets⟩⟩

end NodeAgrees

/-- Kept properties that agree leave entries that agree. -/
theorem keptEntries_agree {fields : SortedSet String} {children : List (String × EmbedTree)}
    {stack : List Uuid}
    (kept : ∀ field, (EmbedTree.node fields children).keeps field = true →
      record.plainAt field = other.plainAt field)
    (values : ∀ field value value', record.properties.get? field = some value →
      value.plain = value'.plain →
        (keptValue registry left children record stack field value).plain =
          (keptValue registry right children other stack field value').plain) :
    Json.plainEntries (keptEntries registry left (.node fields children)
        (builders registry left children) record stack) =
      Json.plainEntries (keptEntries registry right (.node fields children)
        (builders registry right children) other stack) := by
  refine Entries.eq_of_get? (sorted_keptEntries ..) (sorted_keptEntries ..) fun field => ?_
  rw [get?_keptEntries, get?_keptEntries]
  by_cases isKept : (EmbedTree.node fields children).keeps field = true
  · have same := kept field isKept
    unfold EntityRecord.plainAt at same
    cases value : record.properties.get? field with
    | none =>
      rw [value] at same
      rw [Option.map_eq_none_iff.mp same.symm, Option.bind_none, Option.bind_none]
    | some held =>
      rw [value] at same
      obtain ⟨held', there, plainSame⟩ := Option.map_eq_some_iff.mp same.symm
      rw [there]
      simp only [Option.bind_some, keptValue?, if_pos isKept, Option.map_some, Option.some.injEq]
      exact values field held held' value plainSame.symm
  · have dropped : ∀ (lookup : Uuid → Option EntityRecord) (record : EntityRecord),
        keptValue? registry lookup fields children record stack field = fun _ => none := by
      intro lookup record
      funext value
      rw [keptValue?, if_neg isKept]
    rw [dropped, dropped]
    simp

/-- A tree looks only at kept properties and along the paths that it was made of. The
induction is on the tree; each link below a node shortens every path by one step. -/
theorem builder_agrees (sound : LinksSound registry left) {tails : List String → Prop}
    {tree : EmbedTree} (grown : Grown tails tree) (stack : List Uuid)
    (agrees : NodeAgrees registry left right reads tails tree.keeps record other) :
    (builder registry left tree record stack).plain =
      (builder registry right tree other stack).plain := by
  induction grown generalizing record other stack with
  | @node tails fields children kept sourced below ih =>
    have values : ∀ field value value', record.properties.get? field = some value →
        value.plain = value'.plain →
          (keptValue registry left children record stack field value).plain =
            (keptValue registry right children other stack field value').plain := by
      intro field value value' held same
      unfold keptValue
      cases found : Entries.get? field children with
      | none => exact same
      | some child =>
        dsimp only
        rw [← agrees.itemType]
        by_cases declared : registry.isLink record.itemType field = true
        · rw [if_pos declared, if_pos declared]
          obtain ⟨source, current⟩ := agrees.known
          refine Json.replaceLinks_agrees same
            (sound.held source record current field value declared held) fun uuid listed => ?_
          rw [← held] at listed
          -- An expanded property lies before the last step of some path, so the path goes on
          -- through the link and visits what it points at.
          obtain ⟨rest, longer, tail⟩ := sourced field child found
          have visited := agrees.along _ tail uuid
            ⟨follows_of_longer longer, declared, uuid, listed, Or.inl rfl⟩
          refine target_agrees visited fun next next' nextFound _ nextAgrees => ?_
          exact ih field child found (stack ++ [uuid])
            (agrees.below sound (below field child found) declared listed nextFound nextAgrees)
        · rw [if_neg declared, if_neg declared]
          exact Json.select_agrees child same
    rw [builder, builder, plain_withIdentity, plain_withIdentity,
      keptEntries_agree agrees.kept values, withIdentity, withIdentity, agrees.uuid,
      agrees.itemType]

end Document

end CachedViews
