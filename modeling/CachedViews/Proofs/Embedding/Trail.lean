import CachedViews.Embedding.Resolve
import CachedViews.Proofs.Sorted

/-!
The links that an embedding follows, as a function of the current records alone. They fix
what the embedding visits, what it loads and which warnings it gives.
-/
namespace CachedViews

namespace Embedding

section

variable (registry : Registry) (lookup : Uuid → Option EntityRecord)

/-- Declared links that an entity holds at `segment`. -/
def edgesFrom (segment : String) (source : Uuid) : List LinkEdge :=
  match lookup source with
  | none => []
  | some record =>
    if registry.isLink record.itemType segment then
      (linkTargets (record.properties.get? segment)).map fun target => ⟨source, segment, target⟩
    else []

def edgesAt (segment : String) (frontier : List Uuid) : List LinkEdge :=
  frontier.flatMap (edgesFrom registry lookup segment)

def targets (edges : List LinkEdge) : List Uuid := edges.map fun edge => edge.link.target

def reached (edges : List LinkEdge) : List Uuid :=
  (targets edges).filter fun target => (lookup target).isSome

/-- Links followed along one path from a frontier. -/
def trail (followLast : Bool) : List String → List Uuid → List LinkEdge
  | [], _ => []
  | segment :: rest, frontier =>
    if rest = [] ∧ !followLast then []
    else
      let edges := edgesAt registry lookup segment frontier
      edges ++ trail followLast rest (reached lookup edges)

def trails (followLast : Bool) (root : Uuid) (paths : List String) : List LinkEdge :=
  paths.flatMap fun path => trail registry lookup followLast (Path.segments path) [root]

/-- Dependency paths of the calculated properties of a type. -/
def calculatedPaths (itemType : ItemType) : List String :=
  (registry.calculated itemType).flatMap CalculatedField.dependsOn

/-- Every link that resolving a record follows. -/
def followed (spec : List String) (record : EntityRecord) : List LinkEdge :=
  trails registry lookup false record.uuid spec ++
    trails registry lookup true record.uuid (calculatedPaths registry record.itemType)

def Visit.note (visit : Visit) (edge : LinkEdge) : Visit :=
  let visit := { visit with linked := visit.linked.insert edge.link.target }
  if (lookup edge.link.target).isSome then visit
  else visit.addWarning ⟨edge.source, edge.link.field, edge.link.target⟩

end

variable {registry : Registry} {lookup other : Uuid → Option EntityRecord}

theorem mem_edgesFrom_iff (segment : String) (source : Uuid) (edge : LinkEdge) :
    edge ∈ edgesFrom registry lookup segment source ↔
      edge.source = source ∧ edge.link.field = segment ∧
        ∃ record, lookup source = some record ∧ registry.isLink record.itemType segment = true ∧
          edge.link.target ∈ linkTargets (record.properties.get? segment) := by
  unfold edgesFrom
  cases lookup source with
  | none => simp
  | some record =>
    by_cases declared : registry.isLink record.itemType segment = true
    · simp only [declared, ↓reduceIte, List.mem_map, Option.some.injEq, exists_eq_left', true_and]
      constructor
      · rintro ⟨target, listed, rfl⟩
        exact ⟨rfl, rfl, listed⟩
      · rintro ⟨rfl, rfl, listed⟩
        exact ⟨edge.link.target, listed, rfl⟩
    · simp [declared]

theorem mem_reached_iff (edges : List LinkEdge) (target : Uuid) :
    target ∈ reached lookup edges ↔
      (∃ edge ∈ edges, edge.link.target = target) ∧ (lookup target).isSome = true := by
  simp [reached, targets]

/-- A followed link is a declared link of the entity that it starts from. -/
theorem edge_of_mem_trail {followLast : Bool} {path : List String} {frontier : List Uuid}
    {edge : LinkEdge} (listed : edge ∈ trail registry lookup followLast path frontier) :
    ∃ record, lookup edge.source = some record ∧
      registry.isLink record.itemType edge.link.field = true ∧
        edge.link.target ∈ linkTargets (record.properties.get? edge.link.field) := by
  induction path generalizing frontier with
  | nil => cases listed
  | cons segment rest ih =>
    rw [trail] at listed
    split at listed
    · cases listed
    · rcases List.mem_append.mp listed with here | later
      · obtain ⟨source, -, inside⟩ := List.mem_flatMap.mp here
        obtain ⟨rfl, rfl, found⟩ := (mem_edgesFrom_iff _ _ _).mp inside
        exact found
      · exact ih later

theorem edge_of_mem_followed {spec : List String} {record : EntityRecord} {edge : LinkEdge}
    (listed : edge ∈ followed registry lookup spec record) :
    ∃ source, lookup edge.source = some source ∧
      registry.isLink source.itemType edge.link.field = true ∧
        edge.link.target ∈ linkTargets (source.properties.get? edge.link.field) := by
  rcases List.mem_append.mp listed with embedded | calculated
  · obtain ⟨path, -, inside⟩ := List.mem_flatMap.mp embedded
    exact edge_of_mem_trail inside
  · obtain ⟨path, -, inside⟩ := List.mem_flatMap.mp calculated
    exact edge_of_mem_trail inside

theorem edgesAt_congr (segment : String) {frontier : List Uuid}
    (agreed : ∀ uuid ∈ frontier, lookup uuid = other uuid) :
    edgesAt registry lookup segment frontier = edgesAt registry other segment frontier := by
  have each : ∀ uuid ∈ frontier, edgesFrom registry lookup segment uuid =
      edgesFrom registry other segment uuid := by
    intro uuid inside
    rw [edgesFrom, edgesFrom, agreed uuid inside]
  simp only [edgesAt, List.flatMap]
  rw [List.map_congr_left each]

theorem reached_congr {edges : List LinkEdge}
    (agreed : ∀ edge ∈ edges, lookup edge.link.target = other edge.link.target) :
    reached lookup edges = reached other edges := by
  refine List.filter_congr fun target listed => ?_
  obtain ⟨edge, inside, rfl⟩ := List.mem_map.mp listed
  rw [agreed edge inside]

/-- When agreement passes along every followed link, the whole trail is agreed on. -/
theorem trail_agrees {followLast : Bool} {path : List String} {frontier : List Uuid}
    (start : ∀ uuid ∈ frontier, lookup uuid = other uuid)
    (passes : ∀ edge ∈ trail registry lookup followLast path frontier,
      lookup edge.source = other edge.source →
        lookup edge.link.target = other edge.link.target) :
    trail registry other followLast path frontier =
        trail registry lookup followLast path frontier ∧
      ∀ edge ∈ trail registry lookup followLast path frontier,
        lookup edge.link.target = other edge.link.target := by
  induction path generalizing frontier with
  | nil => exact ⟨rfl, fun edge inside => by cases inside⟩
  | cons segment rest ih =>
    simp only [trail] at passes ⊢
    split
    · exact ⟨rfl, fun edge inside => by cases inside⟩
    · rename_i follows
      rw [if_neg follows] at passes
      -- Agreement on the frontier gives the same links, and along them it passes to the next one.
      have edges : edgesAt registry lookup segment frontier = _ := edgesAt_congr segment start
      have here : ∀ edge ∈ edgesAt registry lookup segment frontier,
          lookup edge.link.target = other edge.link.target := by
        intro edge listed
        apply passes edge (List.mem_append_left _ listed)
        obtain ⟨source, first, inside⟩ := List.mem_flatMap.mp listed
        obtain ⟨rfl, -⟩ := (mem_edgesFrom_iff _ _ _).mp inside
        exact start _ first
      have next : ∀ uuid ∈ reached lookup (edgesAt registry lookup segment frontier),
          lookup uuid = other uuid := by
        intro uuid inside
        obtain ⟨⟨edge, listed, rfl⟩, -⟩ := (mem_reached_iff _ _).mp inside
        exact here edge listed
      obtain ⟨same, later⟩ := ih next fun edge listed =>
        passes edge (List.mem_append_right _ listed)
      constructor
      · rw [← edges, ← reached_congr here, same]
      · intro edge listed
        rcases List.mem_append.mp listed with first | after
        · exact here edge first
        · exact later edge after

theorem trails_agree {followLast : Bool} {root : Uuid} (paths : List String)
    (start : lookup root = other root)
    (passes : ∀ edge ∈ trails registry lookup followLast root paths,
      lookup edge.source = other edge.source →
        lookup edge.link.target = other edge.link.target) :
    trails registry other followLast root paths = trails registry lookup followLast root paths ∧
      ∀ edge ∈ trails registry lookup followLast root paths,
        lookup edge.link.target = other edge.link.target := by
  have begin : ∀ uuid ∈ [root], lookup uuid = other uuid := by simpa using start
  have along : ∀ path ∈ paths, _ := fun path listed =>
    @trail_agrees registry lookup other followLast (Path.segments path) [root] begin
      fun edge inside => passes edge (List.mem_flatMap.mpr ⟨path, listed, inside⟩)
  constructor
  · simp only [trails, List.flatMap]
    rw [List.map_congr_left fun path listed => (along path listed).1]
  · intro edge listed
    obtain ⟨path, known, inside⟩ := List.mem_flatMap.mp listed
    exact (along path known).2 edge inside

theorem followed_agrees {spec : List String} {record : EntityRecord}
    (start : lookup record.uuid = other record.uuid)
    (passes : ∀ edge ∈ followed registry lookup spec record,
      lookup edge.source = other edge.source →
        lookup edge.link.target = other edge.link.target) :
    followed registry other spec record = followed registry lookup spec record ∧
      ∀ edge ∈ followed registry lookup spec record,
        lookup edge.link.target = other edge.link.target := by
  obtain ⟨embedded, embeddedTargets⟩ := trails_agree spec start fun edge inside =>
    passes edge (List.mem_append_left _ inside)
  obtain ⟨calculated, calculatedTargets⟩ := trails_agree
    (calculatedPaths registry record.itemType) start fun edge inside =>
      passes edge (List.mem_append_right _ inside)
  refine ⟨by rw [followed, embedded, calculated]; rfl, ?_⟩
  intro edge listed
  rcases List.mem_append.mp listed with first | second
  · exact embeddedTargets edge first
  · exact calculatedTargets edge second

theorem note_congr {edges : List LinkEdge} (visit : Visit)
    (agreed : ∀ edge ∈ edges, lookup edge.link.target = other edge.link.target) :
    edges.foldl (Visit.note lookup) visit = edges.foldl (Visit.note other) visit := by
  induction edges generalizing visit with
  | nil => rfl
  | cons first rest ih =>
    rw [List.foldl_cons, List.foldl_cons, ih _ fun edge inside =>
      agreed edge (List.mem_cons_of_mem _ inside)]
    rw [Visit.note, Visit.note, agreed first List.mem_cons_self]

theorem addWarning_linked (visit : Visit) (warning : DanglingLink) :
    (visit.addWarning warning).linked = visit.linked := by
  unfold Visit.addWarning
  split <;> rfl

theorem note_linked (visit : Visit) (edge : LinkEdge) :
    (visit.note lookup edge).linked = visit.linked.insert edge.link.target := by
  unfold Visit.note
  dsimp only
  split
  · rfl
  · exact addWarning_linked _ _

/-- Everything that a followed link points at was visited. -/
theorem mem_linked_note (edges : List LinkEdge) (visit : Visit) (uuid : Uuid) :
    uuid ∈ (edges.foldl (Visit.note lookup) visit).linked ↔
      uuid ∈ visit.linked ∨ ∃ edge ∈ edges, edge.link.target = uuid := by
  apply foldl_iff_or fun visit : Visit => uuid ∈ visit.linked
  intro edge _ visit
  rw [note_linked, SortedSet.mem_insert, or_comm, eq_comm]

end Embedding

end CachedViews
