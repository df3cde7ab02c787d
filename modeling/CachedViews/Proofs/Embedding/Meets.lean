import CachedViews.Proofs.Embedding.Resolving

/-!
The entities that an embedding meets: those that some chain of followed links leads to. They
are what a resolution lists as linked, the root left out.
-/
namespace CachedViews

namespace Embedding

section

variable (registry : Registry) (lookup : Uuid → Option EntityRecord)

/-- Whether following a path from a record leads to an entity, there or missing. -/
def Meets (followLast : Bool) : List String → EntityRecord → Uuid → Prop
  | [], _, _ => False
  | segment :: rest, record, uuid =>
    ¬ (rest = [] ∧ !followLast) ∧ registry.isLink record.itemType segment = true ∧
      ∃ target ∈ linkTargets (record.properties.get? segment),
        uuid = target ∨ ∃ next, lookup target = some next ∧ Meets followLast rest next uuid

/-- Whether resolving a record visits an entity. -/
def Visits (record : EntityRecord) (uuid : Uuid) : Prop :=
  (∃ path ∈ registry.embedPaths record.itemType,
      Meets registry lookup false (Path.segments path) record uuid) ∨
    ∃ path ∈ calculatedPaths registry record.itemType,
      Meets registry lookup true (Path.segments path) record uuid

end

theorem follows_of_longer {followLast : Bool} {rest : List String} (longer : rest ≠ []) :
    ¬ (rest = [] ∧ !followLast) := fun stops => longer stops.1

theorem follows_of_last {rest : List String} : ¬ (rest = [] ∧ !true) :=
  fun stops => Bool.noConfusion stops.2

variable {registry : Registry} {lookup : Uuid → Option EntityRecord}

theorem mem_trail_iff (followLast : Bool) (path : List String) (frontier : List Uuid)
    (uuid : Uuid) :
    (∃ edge ∈ trail registry lookup followLast path frontier, edge.link.target = uuid) ↔
      ∃ source ∈ frontier, ∃ record, lookup source = some record ∧
        Meets registry lookup followLast path record uuid := by
  induction path generalizing frontier with
  | nil => simp [trail, Meets]
  | cons segment rest ih =>
    rw [trail]
    split
    · rename_i stops
      simp [Meets, stops]
    · rename_i follows
      have step : (∃ edge ∈ edgesAt registry lookup segment frontier ++
            trail registry lookup followLast rest
              (reached lookup (edgesAt registry lookup segment frontier)),
          edge.link.target = uuid) ↔
          (∃ edge ∈ edgesAt registry lookup segment frontier, edge.link.target = uuid) ∨
            ∃ edge ∈ trail registry lookup followLast rest
              (reached lookup (edgesAt registry lookup segment frontier)),
              edge.link.target = uuid := by
        simp only [List.mem_append, or_and_right, exists_or]
      apply step.trans
      -- Whatever lies deeper is met from the entities that this step reaches.
      rw [ih]
      constructor
      · rintro (⟨edge, listed, rfl⟩ | ⟨target, there, next, found, meets⟩)
        · obtain ⟨source, inside, from_⟩ := List.mem_flatMap.mp listed
          obtain ⟨rfl, -, record, found, declared, held⟩ := (mem_edgesFrom_iff _ _ _).mp from_
          exact ⟨_, inside, record, found, follows, declared, _, held, Or.inl rfl⟩
        · obtain ⟨⟨edge, listed, rfl⟩, -⟩ := (mem_reached_iff _ _).mp there
          obtain ⟨source, inside, from_⟩ := List.mem_flatMap.mp listed
          obtain ⟨rfl, -, record, held, declared, target⟩ := (mem_edgesFrom_iff _ _ _).mp from_
          exact ⟨_, inside, record, held, follows, declared, _, target, Or.inr ⟨next, found, meets⟩⟩
      · rintro ⟨source, inside, record, found, -, declared, target, held, either⟩
        have listed : (⟨source, segment, target⟩ : LinkEdge) ∈
            edgesAt registry lookup segment frontier :=
          List.mem_flatMap.mpr ⟨source, inside,
            (mem_edgesFrom_iff _ _ _).mpr ⟨rfl, rfl, record, found, declared, held⟩⟩
        rcases either with rfl | ⟨next, there, meets⟩
        · exact Or.inl ⟨_, listed, rfl⟩
        · refine Or.inr ⟨target, (mem_reached_iff _ _).mpr ⟨⟨_, listed, rfl⟩, ?_⟩, next, there, meets⟩
          simp [there]

theorem mem_trails_iff (followLast : Bool) {record : EntityRecord}
    (found : lookup record.uuid = some record) (paths : List String) (uuid : Uuid) :
    (∃ edge ∈ trails registry lookup followLast record.uuid paths, edge.link.target = uuid) ↔
      ∃ path ∈ paths, Meets registry lookup followLast (Path.segments path) record uuid := by
  have one : ∀ path,
      (∃ edge ∈ trail registry lookup followLast (Path.segments path) [record.uuid],
        edge.link.target = uuid) ↔
        Meets registry lookup followLast (Path.segments path) record uuid := by
    intro path
    rw [mem_trail_iff]
    simp [found]
  constructor
  · rintro ⟨edge, listed, same⟩
    obtain ⟨path, known, inside⟩ := List.mem_flatMap.mp listed
    exact ⟨path, known, (one path).mp ⟨edge, inside, same⟩⟩
  · rintro ⟨path, known, meets⟩
    obtain ⟨edge, inside, same⟩ := (one path).mpr meets
    exact ⟨edge, List.mem_flatMap.mpr ⟨path, known, inside⟩, same⟩

theorem mem_followed_iff {record : EntityRecord} (found : lookup record.uuid = some record)
    (uuid : Uuid) :
    (∃ edge ∈ followed registry lookup (registry.embedPaths record.itemType) record,
        edge.link.target = uuid) ↔
      Visits registry lookup record uuid := by
  rw [Visits, ← mem_trails_iff false found, ← mem_trails_iff true found, ← exists_or]
  refine exists_congr fun edge => ?_
  rw [followed, List.mem_append, or_and_right]

/-- A resolution lists what it visits. -/
theorem mem_resolution_linked_iff {store : WriteStore} {record : EntityRecord}
    (found : store.record? record.uuid = some record) (cache : RecordCache) (uuid : Uuid) :
    uuid ∈ (resolution registry store cache (registry.embedPaths record.itemType) record).linked ↔
      Visits registry store.record? record uuid ∧ uuid ≠ record.uuid := by
  rw [resolution, SortedSet.mem_erase, mem_linked_note, mem_followed_iff found]
  simp

/-- Everything that is visited is loaded. -/
theorem mem_loaded_of_visits {store : WriteStore} {record : EntityRecord}
    (found : store.record? record.uuid = some record) {uuid : Uuid}
    (visits : Visits registry store.record? record uuid) :
    uuid ∈ loaded registry store (registry.embedPaths record.itemType) record := by
  obtain ⟨edge, listed, rfl⟩ := (mem_followed_iff found uuid).mpr visits
  exact List.mem_cons_of_mem _ (List.mem_map.mpr ⟨edge, listed, rfl⟩)

end Embedding

end CachedViews
