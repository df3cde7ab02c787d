import CachedViews.Proofs.WriteStore.Consistent

/-!
Stores whose edges and keys are those that the current sheets hold under their declared types.
Nothing else is in either index, so the sheets decide who links to whom and who owns a key.
-/
namespace CachedViews

namespace TypeDecl

variable {decl : TypeDecl}

theorem mem_extractUniqueKeys_iff (decl : TypeDecl) (properties : Properties) (key : UniqueKey) :
    key ∈ decl.extractUniqueKeys properties ↔
      ∃ field ∈ decl.uniqueFields, decl.uniqueKeyName field = key.name ∧
        (properties.get? field).bind Json.scalarText? = some key.value := by
  rw [extractUniqueKeys, SortedSet.mem_ofList, List.mem_filterMap]
  refine exists_congr fun field => and_congr_right fun _ => ?_
  unfold uniqueKey?
  cases properties.get? field with
  | none => simp
  | some value =>
    cases made : value.scalarText? with
    | none => simp [made]
    | some text => simp [made, UniqueKey.ext_iff]

theorem entityWrite_uniqueKeys {properties : Properties} {write : EntityWrite}
    (ended : decl.entityWrite properties = .ok write) :
    write.uniqueKeys = decl.extractUniqueKeys properties := by
  cases made : decl.extractLinks properties with
  | error error =>
    rw [entityWrite, made] at ended
    cases ended
  | ok links =>
    rw [entityWrite, made] at ended
    cases ended
    rfl

end TypeDecl

namespace Registry

/-- The sheet of a record holds a link: its type declares the field as a link, and the target
is among the identifiers there. -/
def HoldsLink (registry : Registry) (record : EntityRecord) (link : Link) : Prop :=
  registry.isLink record.itemType link.field = true ∧
    link.target ∈ Embedding.linkTargets (record.properties.get? link.field)

/-- The sheet of a record holds a key: some unique field of its type goes by the key's name and
has the key's value as its text. -/
def HoldsKey (registry : Registry) (record : EntityRecord) (key : UniqueKey) : Prop :=
  ∃ decl, registry.get? record.itemType = some decl ∧
    ∃ field ∈ decl.uniqueFields, decl.uniqueKeyName field = key.name ∧
      (record.properties.get? field).bind Json.scalarText? = some key.value

end Registry

namespace WriteStore

variable {registry : Registry} {store next : WriteStore} {uuid : Uuid}

/-- What both indexes hold comes from the current sheets, and all that the sheets hold is there. -/
structure Projected (registry : Registry) (store : WriteStore) : Prop where
  consistent : Consistent registry store
  indexed : Indexed store
  keyed : ∀ uuid record, store.record? uuid = some record →
    ∃ decl, registry.get? record.itemType = some decl ∧
      record.uniqueKeys = decl.extractUniqueKeys record.properties

theorem Projected.empty : Projected registry .empty where
  consistent := .empty
  indexed := .empty
  keyed uuid record found := by cases found

/-- Whether the store is within reach does not matter to its indexes. -/
theorem Projected.switched (projected : Projected registry store) (available : Bool) :
    Projected registry { store with available } := by
  obtain ⟨⟨rows, edges, creations⟩, ⟨mirrored, owners⟩, keyed⟩ := projected
  exact ⟨⟨rows, edges, creations⟩, ⟨mirrored, owners⟩, keyed⟩

namespace Projected

section

variable (projected : Projected registry store)
include projected

theorem mem_uniqueKeys_iff {record : EntityRecord} (found : store.record? uuid = some record)
    (key : UniqueKey) : key ∈ record.uniqueKeys ↔ registry.HoldsKey record key := by
  obtain ⟨decl, declared, keys⟩ := projected.keyed uuid record found
  rw [keys, TypeDecl.mem_extractUniqueKeys_iff]
  constructor
  · exact fun held => ⟨decl, declared, held⟩
  · rintro ⟨other, again, held⟩
    rw [declared] at again
    cases again
    exact held

theorem mem_revLinks_iff (target : Uuid) (edge : LinkEdge) :
    edge ∈ store.revLinks target ↔
      target = edge.link.target ∧
        ∃ record, store.record? edge.source = some record ∧ registry.HoldsLink record edge.link := by
  rw [projected.consistent.mem_revLinks_iff]
  refine and_congr_right fun _ => exists_congr fun record => and_congr_right fun found => ?_
  exact projected.consistent.mem_links_iff found edge.link

theorem owner_iff (key : UniqueKey) (owner : Uuid) :
    store.owners.get? key = some owner ↔
      ∃ record, store.record? owner = some record ∧ registry.HoldsKey record key := by
  rw [projected.indexed.owners]
  constructor
  · rintro ⟨row, stored, inside⟩
    obtain ⟨revision, last, -⟩ := (projected.consistent.rows owner row stored).current
    have found := WriteStore.record?_of_row stored last
    exact ⟨_, found, (projected.mem_uniqueKeys_iff found key).mp inside⟩
  · rintro ⟨record, found, held⟩
    have inside := (projected.mem_uniqueKeys_iff found key).mpr held
    obtain ⟨row, revision, stored, -, rfl⟩ := row_of_record? found
    exact ⟨row, stored, inside⟩

theorem getByUniqueKey_iff (key : UniqueKey) (record : EntityRecord) :
    store.getByUniqueKey key = .ok record ↔
      store.record? record.uuid = some record ∧ registry.HoldsKey record key := by
  rw [getByUniqueKey]
  constructor
  · intro answered
    cases owned : store.owners.get? key with
    | none =>
      rw [owned] at answered
      cases answered
    | some owner =>
      obtain ⟨held, found, holds⟩ := (projected.owner_iff key owner).mp owned
      rw [owned] at answered
      dsimp only at answered
      rw [get, found] at answered
      cases answered
      exact ⟨record?_uuid found ▸ found, holds⟩
  · rintro ⟨found, holds⟩
    have owned := (projected.owner_iff key record.uuid).mpr ⟨record, found, holds⟩
    rw [owned]
    dsimp only
    rw [get, found]

/-- A key has one owner, so two entities of one type differ in each of its unique fields. -/
theorem unique {left right : EntityRecord} {decl : TypeDecl} {field text : String}
    (foundLeft : store.record? left.uuid = some left)
    (foundRight : store.record? right.uuid = some right) (typed : left.itemType = right.itemType)
    (declared : registry.get? left.itemType = some decl) (unique : field ∈ decl.uniqueFields)
    (heldLeft : (left.properties.get? field).bind Json.scalarText? = some text)
    (heldRight : (right.properties.get? field).bind Json.scalarText? = some text) :
    left.uuid = right.uuid := by
  let key : UniqueKey := ⟨decl.uniqueKeyName field, text⟩
  have ownsLeft := (projected.owner_iff key left.uuid).mpr
    ⟨left, foundLeft, decl, declared, field, unique, rfl, heldLeft⟩
  have ownsRight := (projected.owner_iff key right.uuid).mpr
    ⟨right, foundRight, decl, typed ▸ declared, field, unique, rfl, heldRight⟩
  exact Option.some.inj (ownsLeft.symm.trans ownsRight)

end

variable {row : EntityRow} {decl : TypeDecl} {properties : Properties} {write : EntityWrite}

theorem commit (projected : Projected registry store)
    (writable : Writable registry store uuid row) (continues : Continues store uuid row)
    (declared : registry.get? row.itemType = some decl)
    (made : decl.entityWrite properties = .ok write)
    (free : store.keyConflicts uuid write.uniqueKeys = []) :
    Projected registry (store.commit uuid row write).2 := by
  obtain ⟨sheet, single, extracted⟩ := TypeDecl.entityWrite_ok made
  have extracts : Extracts registry row.itemType write.properties write.links :=
    ⟨decl, declared, sheet ▸ extracted⟩
  refine ⟨projected.consistent.commit writable single extracts,
    projected.indexed.commit continues free, ?_⟩
  intro other record found
  rw [commit_record? single fun revision inside => (writable.accepted revision inside).1] at found
  split at found
  · cases found
    refine ⟨decl, declared, ?_⟩
    rw [committedRecord, sheet]
    exact TypeDecl.entityWrite_uniqueKeys made
  · exact projected.keyed other record found

theorem created (projected : Projected registry store) {itemType : ItemType}
    (declared : registry.get? itemType = some decl)
    (made : decl.entityWrite properties = .ok write) {sid : Sid}
    (ended : store.create uuid itemType write = .ok (sid, next)) : Projected registry next := by
  obtain ⟨vacant, free, committed⟩ := create_ok ended
  cases committed
  exact projected.commit (.of_new projected.consistent vacant itemType)
    (Or.inr ⟨vacant, rfl, rfl⟩) declared made free

theorem updated (projected : Projected registry store) {record : EntityRecord}
    (found : store.record? uuid = some record)
    (declared : registry.get? record.itemType = some decl)
    (made : decl.entityWrite properties = .ok write) {base : Option Sid} {sid : Sid}
    (ended : store.update uuid write base = .ok (sid, next)) : Projected registry next := by
  obtain ⟨row, revision, stored, -, rfl⟩ := row_of_record? found
  obtain ⟨same, again, free, committed⟩ := update_ok ended
  rw [stored] at again
  cases again
  cases committed
  exact projected.commit (.of_stored projected.consistent stored) (Or.inl stored) declared made free

theorem purged (projected : Projected registry store) (ended : store.purge uuid = .ok next) :
    Projected registry next := by
  obtain ⟨row, stored, rfl, unlinked⟩ := purge_ok ended
  refine ⟨projected.consistent.removed stored unlinked,
    projected.indexed.removed stored unlinked, ?_⟩
  intro other record found
  rw [removed_record?] at found
  split at found
  · cases found
  · exact projected.keyed other record found

/-- A purge takes no entity that another still links to. -/
theorem target_lives (projected : Projected registry store) (ended : store.purge uuid = .ok next)
    {target : Uuid} {edge : LinkEdge} (listed : edge ∈ next.revLinks target)
    (before : (store.record? target).isSome = true) : (next.record? target).isSome = true := by
  obtain ⟨reached, record, current, holds⟩ :=
    ((projected.purged ended).mem_revLinks_iff target edge).mp listed
  obtain ⟨row, stored, rfl, unlinked⟩ := purge_ok ended
  rw [removed_record?] at current ⊢
  split at current
  · cases current
  · rename_i apart
    have linking : edge ∈ store.revLinks target :=
      (projected.mem_revLinks_iff target edge).mpr ⟨reached, record, current, holds⟩
    have stays : target ≠ uuid := fun gone => apart (unlinked edge (gone ▸ linking))
    rw [if_neg stays]
    exact before

end Projected

end WriteStore

end CachedViews
