import CachedViews.Proofs.Embedding.Trail
import CachedViews.Proofs.Running
import CachedViews.Proofs.WriteStore.Revisions

/-!
Runs of the resolver in a calm world. As long as the cache holds nothing but current records,
a run follows exactly the links of the current records, and adds what it visits to the cache.
-/
namespace CachedViews

namespace World

/-- The cache holds nothing but what is current. -/
def Mirrors (world : World) : Prop :=
  ∀ uuid entry, world.cache.get? uuid = some entry → entry = world.write.record? uuid

def withCache (world : World) (cache : RecordCache) : World := { world with cache }

def knows (lookup : Uuid → Option EntityRecord) (cache : RecordCache) (uuids : List Uuid) :
    RecordCache :=
  uuids.foldl (fun cache uuid => cache.insert uuid (lookup uuid)) cache

/-- The world after some entities were loaded. -/
def knowing (world : World) (uuids : List Uuid) : World :=
  world.withCache (knows world.write.record? world.cache uuids)

theorem knows_get? (lookup : Uuid → Option EntityRecord) (cache : RecordCache)
    (uuids : List Uuid) (uuid : Uuid) :
    (knows lookup cache uuids).get? uuid =
      if uuid ∈ uuids then some (lookup uuid) else cache.get? uuid := by
  induction uuids generalizing cache with
  | nil => rfl
  | cons first rest ih =>
    simp only [knows, List.foldl_cons, List.mem_cons] at ih ⊢
    rw [ih]
    by_cases later : uuid ∈ rest
    · simp [later]
    · rw [SortedMap.get?_insert_eq]
      by_cases same : uuid = first
      · simp [same]
      · simp [same, later]

variable {world : World}

@[simp] theorem knowing_write (uuids : List Uuid) : (world.knowing uuids).write = world.write := rfl

@[simp] theorem knowing_nil : world.knowing [] = world := rfl

theorem knowing_append (first second : List Uuid) :
    world.knowing (first ++ second) = (world.knowing first).knowing second := by
  simp only [knowing, withCache, knows, List.foldl_append]

theorem knowing_get? (uuids : List Uuid) (uuid : Uuid) :
    (world.knowing uuids).cache.get? uuid =
      if uuid ∈ uuids then some (world.write.record? uuid) else world.cache.get? uuid :=
  knows_get? _ _ _ _

theorem Calm.withCache (calm : world.Calm) (cache : RecordCache) : (world.withCache cache).Calm :=
  calm.of_faults rfl calm.writable calm.readable

theorem Calm.knowing (calm : world.Calm) (uuids : List Uuid) : (world.knowing uuids).Calm :=
  calm.withCache _

theorem Mirrors.knowing (mirrors : world.Mirrors) (uuids : List Uuid) :
    (world.knowing uuids).Mirrors := by
  intro uuid entry found
  rw [knowing_get?] at found
  split at found
  · cases found
    rfl
  · exact mirrors uuid entry found

/-- Every cached record is current. -/
theorem Mirrors.current (mirrors : world.Mirrors) (uuid : Uuid) (record : EntityRecord)
    (cached : world.cache.record? uuid = some record) : world.write.record? uuid = some record := by
  rw [RecordCache.record?, Option.join_eq_some_iff] at cached
  exact (mirrors uuid _ cached).symm

/-- Loading again what is cached changes nothing. -/
theorem knowing_of_cached (mirrors : world.Mirrors) {uuid : Uuid}
    {entry : Option EntityRecord} (cached : world.cache.get? uuid = some entry) :
    world.knowing [uuid] = world := by
  have same : knows world.write.record? world.cache [uuid] = world.cache := by
    refine SortedMap.ext_get? fun other => ?_
    rw [knows_get?]
    split
    · rename_i listed
      rw [List.mem_singleton.mp listed, cached, mirrors uuid entry cached]
    · rfl
  simp only [World.knowing, same]
  rfl

/-- What is cached, looked up among everything loaded. -/
theorem knowing_record? (uuids : List Uuid) {uuid : Uuid} (listed : uuid ∈ uuids) :
    RecordCache.record? (world.knowing uuids).cache uuid = world.write.record? uuid := by
  rw [RecordCache.record?, knowing_get?, if_pos listed]
  rfl

end World

namespace Embedding

open CachedViews.Action

variable {registry : Registry} {world : World}

theorem load_on (calm : world.Calm) (mirrors : world.Mirrors) (uuid : Uuid) :
    (load uuid).on world =
      (.ok (world.write.record? uuid).isSome, world.knowing [uuid]) := by
  rw [load, on_bind_ok (on_get world)]
  cases cached : world.cache.get? uuid with
  | some entry =>
    dsimp only
    rw [on_pure, World.knowing_of_cached mirrors cached, mirrors uuid entry cached]
  | none =>
    dsimp only
    rw [on_bind_ok (orNotFound_record_on calm uuid)]
    rfl

theorem visitHop_on (calm : world.Calm) (mirrors : world.Mirrors) (edge : LinkEdge)
    (next : List Uuid) (visit : Visit) :
    (visitHop edge.link.field (next, visit) (edge.source, edge.link.target)).on world =
      (.ok (next ++ reached world.write.record? [edge], visit.note world.write.record? edge),
        world.knowing [edge.link.target]) := by
  rw [visitHop]
  dsimp only
  rw [on_bind_ok (load_on calm mirrors _)]
  by_cases live : (world.write.record? edge.link.target).isSome = true
  · rw [if_pos live, on_pure]
    simp [reached, targets, live, Visit.note]
  · rw [if_neg live, on_pure]
    simp [reached, targets, live, Visit.note]

theorem visitHops_on (edges : List LinkEdge) (segment : String) (calm : world.Calm)
    (mirrors : world.Mirrors) (fields : ∀ edge ∈ edges, edge.link.field = segment)
    (next : List Uuid) (visit : Visit) :
    ((edges.map fun edge => (edge.source, edge.link.target)).foldlM (visitHop segment)
        (next, visit)).on world =
      (.ok (next ++ reached world.write.record? edges,
          edges.foldl (Visit.note world.write.record?) visit),
        world.knowing (targets edges)) := by
  -- Each hop leaves a world that knows one more entity, so the world is generalised too.
  induction edges generalizing world next visit with
  | nil => simp [reached, targets, on_pure]
  | cons first rest ih =>
    have here := visitHop_on calm mirrors first next visit
    rw [fields first List.mem_cons_self] at here
    rw [List.map_cons, List.foldlM_cons, on_bind_ok here]
    rw [ih (calm.knowing _) (mirrors.knowing _) fun edge inside =>
      fields edge (List.mem_cons_of_mem _ inside)]
    have joined : targets (first :: rest) = [first.link.target] ++ targets rest := rfl
    have onward : reached world.write.record? [first] ++ reached world.write.record? rest =
        reached world.write.record? (first :: rest) := by
      simp only [reached, joined, List.filter_append]
      rfl
    rw [World.knowing_write, List.append_assoc, onward, joined, World.knowing_append,
      List.foldl_cons]

theorem hops_eq {cache : RecordCache} {lookup : Uuid → Option EntityRecord} {frontier : List Uuid}
    (known : ∀ uuid ∈ frontier, cache.record? uuid = lookup uuid) (segment : String) :
    hops registry cache segment frontier =
      (edgesAt registry lookup segment frontier).map fun edge =>
        (edge.source, edge.link.target) := by
  rw [hops, edgesAt, List.map_flatMap]
  simp only [List.flatMap]
  refine congrArg List.flatten (List.map_congr_left fun source inside => ?_)
  rw [known source inside, edgesFrom]
  cases lookup source with
  | none => rfl
  | some record =>
    dsimp only
    split <;> simp

/-- One path: what is followed, noted and loaded. -/
theorem visitPath_on (registry : Registry) (followLast : Bool) (path : List String) (frontier : List Uuid)
    (visit : Visit) (calm : world.Calm) (mirrors : world.Mirrors)
    (known : ∀ uuid ∈ frontier, world.cache.record? uuid = world.write.record? uuid) :
    (visitPath registry followLast path frontier visit).on world =
      (.ok ((trail registry world.write.record? followLast path frontier).foldl
          (Visit.note world.write.record?) visit),
        world.knowing (targets (trail registry world.write.record? followLast path frontier))) := by
  induction path generalizing world frontier visit with
  | nil => rfl
  | cons segment rest ih =>
    rw [visitPath, trail]
    split
    · rfl
    · have hops : hops registry world.cache segment frontier = _ := hops_eq known segment
      have fields : ∀ edge ∈ edgesAt registry world.write.record? segment frontier,
          edge.link.field = segment := by
        intro edge listed
        obtain ⟨source, -, inside⟩ := List.mem_flatMap.mp listed
        exact ((mem_edgesFrom_iff _ _ _).mp inside).2.1
      rw [on_bind_ok (on_get world), hops,
        on_bind_ok (visitHops_on _ segment calm mirrors fields [] visit)]
      dsimp only
      rw [List.nil_append]
      rw [ih _ _ (calm.knowing _) (mirrors.knowing _)]
      · rw [World.knowing_write, List.foldl_append, targets, targets, targets, List.map_append,
          World.knowing_append]
      -- The next frontier is among the targets that were just loaded.
      · intro uuid inside
        exact World.knowing_record? _ (List.mem_filter.mp inside).1

theorem visitPaths_on (registry : Registry) (followLast : Bool) (root : Uuid) (paths : List String)
    (visit : Visit) (calm : world.Calm) (mirrors : world.Mirrors)
    (known : world.cache.record? root = world.write.record? root) :
    (visitPaths registry followLast root paths visit).on world =
      (.ok ((trails registry world.write.record? followLast root paths).foldl
          (Visit.note world.write.record?) visit),
        world.knowing (targets (trails registry world.write.record? followLast root paths))) := by
  induction paths generalizing world visit with
  | nil => rfl
  | cons path rest ih =>
    have first := visitPath_on registry followLast (Path.segments path) [root] visit
      calm mirrors (by simpa using known)
    rw [visitPaths, List.foldlM_cons, on_bind_ok first]
    refine (ih _ (calm.knowing _) (mirrors.knowing _) ?_).trans ?_
    · rw [RecordCache.record?, World.knowing_get?]
      split
      · rfl
      · exact known
    · rw [World.knowing_write, trails, trails, List.flatMap_cons, List.foldl_append, targets,
        targets, targets, List.map_append, World.knowing_append]

/-- What resolving a record gives, over the records of a store and those in a cache. -/
def resolution (registry : Registry) (store : WriteStore) (cache : RecordCache)
    (spec : List String) (record : EntityRecord) : Resolution where
  record := record
  document := Document.ofRecord registry cache.record? spec record
  linked := ((followed registry store.record? spec record).foldl (Visit.note store.record?)
    ⟨{}, []⟩).linked.erase record.uuid
  revLinks := .ofEdges record.uuid (store.revLinks record.uuid)
  warnings := ((followed registry store.record? spec record).foldl (Visit.note store.record?)
    ⟨{}, []⟩).warnings

theorem resolveRecord_on (record : EntityRecord) (spec : List String) (calm : world.Calm)
    (mirrors : world.Mirrors)
    (known : world.cache.record? record.uuid = world.write.record? record.uuid) :
    (resolveRecord registry record spec).on world =
      (.ok (resolution registry world.write
          (world.knowing (targets (followed registry world.write.record? spec record))).cache
          spec record),
        world.knowing (targets (followed registry world.write.record? spec record))) := by
  have embedded := visitPaths_on registry false record.uuid spec ⟨{}, []⟩
    calm mirrors known
  have still : (world.knowing (targets
      (trails registry world.write.record? false record.uuid spec))).cache.record? record.uuid =
        world.write.record? record.uuid := by
    rw [RecordCache.record?, World.knowing_get?]
    split
    · rfl
    · exact known
  have calculated := visitPaths_on registry true record.uuid
    (calculatedPaths registry record.itemType)
    ((trails registry world.write.record? false record.uuid spec).foldl
      (Visit.note world.write.record?) ⟨{}, []⟩)
    (calm.knowing _) (mirrors.knowing _) still
  rw [World.knowing_write, ← World.knowing_append, ← List.foldl_append, targets, targets,
    ← List.map_append] at calculated
  rw [resolveRecord]
  dsimp only
  rw [on_bind_ok embedded]
  apply (on_bind_ok calculated).trans
  rw [on_bind_ok (on_get _), on_bind_ok (revLinks_on (calm.knowing _) _), on_pure]
  rfl

/-- Everything that resolving an entity loads, itself first. -/
def loaded (registry : Registry) (store : WriteStore) (spec : List String)
    (record : EntityRecord) : List Uuid :=
  record.uuid :: targets (followed registry store.record? spec record)

/-- Resolving under given embed paths, or under those of the entity's type. -/
theorem resolve_spec_on (spec : Option (List String)) {uuid : Uuid} {record : EntityRecord}
    (calm : world.Calm) (mirrors : world.Mirrors)
    (found : world.write.record? uuid = some record) :
    (resolve registry uuid spec).on world =
      (.ok (resolution registry world.write
          (world.knowing (loaded registry world.write
            (spec.getD (registry.embedPaths record.itemType)) record)).cache
          (spec.getD (registry.embedPaths record.itemType)) record),
        world.knowing (loaded registry world.write
          (spec.getD (registry.embedPaths record.itemType)) record)) := by
  have same := WriteStore.record?_uuid found
  have root : (loadRoot uuid).on world = (.ok record, world.knowing [record.uuid]) := by
    rw [loadRoot, on_bind_ok (record_on_found calm found), remember, on_bind_ok (on_modify _ _),
      on_pure, World.knowing, World.knows, same]
    simp only [List.foldl_cons, List.foldl_nil, found]
    rfl
  rw [resolve, on_bind_ok root]
  refine (resolveRecord_on record _ (calm.knowing _) (mirrors.knowing _) ?_).trans ?_
  · exact World.knowing_record? _ List.mem_cons_self
  · rw [← World.knowing_append]
    rfl

theorem resolve_spec_on_missing (spec : Option (List String)) {uuid : Uuid} (calm : world.Calm)
    (missing : world.write.record? uuid = none) :
    (resolve registry uuid spec).on world = (.error (.storage (.notFound uuid)), world) := by
  have root : (loadRoot uuid).on world = (.error (.storage (.notFound uuid)), world) := by
    rw [loadRoot, on_bind_error (record_on_missing calm missing)]
  rw [resolve, on_bind_error root]

theorem resolve_on {uuid : Uuid} {record : EntityRecord} (calm : world.Calm)
    (mirrors : world.Mirrors) (found : world.write.record? uuid = some record) :
    (resolve registry uuid none).on world =
      (.ok (resolution registry world.write
          (world.knowing (loaded registry world.write (registry.embedPaths record.itemType)
            record)).cache
          (registry.embedPaths record.itemType) record),
        world.knowing (loaded registry world.write (registry.embedPaths record.itemType)
          record)) :=
  resolve_spec_on none calm mirrors found

theorem resolve_on_missing {uuid : Uuid} (calm : world.Calm)
    (missing : world.write.record? uuid = none) :
    (resolve registry uuid none).on world = (.error (.storage (.notFound uuid)), world) :=
  resolve_spec_on_missing none calm missing

theorem withCache_on {α : Type} (cache : RecordCache) (action : Action α) (world : World) :
    (withCache cache action).on world =
      ((action.on (world.withCache cache)).1,
        (action.on (world.withCache cache)).2.withCache world.cache) := by
  rw [withCache, on_bind_ok (on_get world)]
  dsimp only
  rw [on_bind_ok (on_modify _ _), on_bind, on_tryCatch]
  rcases ended : action.on (world.withCache cache) with ⟨error | value, after⟩ <;>
  · simp only [World.withCache] at ended ⊢
    rw [ended]
    rfl

/-- Resolves an entity on a cache of its own, empty at first. -/
def resolveAlone (registry : Registry) (uuid : Uuid) : Action Resolution :=
  withCache {} (resolve registry uuid none)

/-- What a record resolves to under some embed paths when nothing was cached before. -/
def resolutionUnder (registry : Registry) (store : WriteStore) (paths : List String)
    (record : EntityRecord) : Resolution :=
  resolution registry store (World.knows store.record? {} (loaded registry store paths record))
    paths record

/-- What an entity resolves to when nothing was cached before. -/
def resolutionAlone (registry : Registry) (store : WriteStore) (record : EntityRecord) :
    Resolution :=
  resolution registry store
    (World.knows store.record? {} (loaded registry store (registry.embedPaths record.itemType)
      record))
    (registry.embedPaths record.itemType) record

/-- Two stores that agree on an entity and on all that it embeds resolve it alike, the links
into it apart. -/
theorem resolutionUnder_eq {earlier later : WriteStore} {paths : List String}
    {record : EntityRecord} (root : earlier.record? record.uuid = later.record? record.uuid)
    (passes : ∀ edge ∈ followed registry earlier.record? paths record,
      earlier.record? edge.source = later.record? edge.source →
        earlier.record? edge.link.target = later.record? edge.link.target) :
    resolutionUnder registry later paths record =
      { resolutionUnder registry earlier paths record with
        revLinks := .ofEdges record.uuid (later.revLinks record.uuid) } := by
  obtain ⟨trail, targetsAgree⟩ := followed_agrees root passes
  have loads : loaded registry later paths record = loaded registry earlier paths record := by
    rw [loaded, loaded, trail]
  have cache : World.knows later.record? {} (loaded registry later paths record) =
      World.knows earlier.record? {} (loaded registry earlier paths record) := by
    refine SortedMap.ext_get? fun uuid => ?_
    rw [loads, World.knows_get?, World.knows_get?]
    split
    · rename_i listed
      rcases List.mem_cons.mp listed with rfl | visited
      · rw [root]
      · obtain ⟨edge, inside, rfl⟩ := List.mem_map.mp visited
        rw [targetsAgree edge inside]
    · rfl
  rw [resolutionUnder, resolutionUnder, resolution, resolution, cache, trail,
    note_congr _ targetsAgree]

theorem resolutionAlone_eq {earlier later : WriteStore} {record : EntityRecord}
    (root : earlier.record? record.uuid = later.record? record.uuid)
    (passes : ∀ edge ∈ followed registry earlier.record? (registry.embedPaths record.itemType)
        record, earlier.record? edge.source = later.record? edge.source →
          earlier.record? edge.link.target = later.record? edge.link.target) :
    resolutionAlone registry later record =
      { resolutionAlone registry earlier record with
        revLinks := .ofEdges record.uuid (later.revLinks record.uuid) } :=
  resolutionUnder_eq root passes

/-- Resolving under given embed paths on a cache of its own. -/
theorem resolveUnder_on (spec : Option (List String)) {uuid : Uuid} {record : EntityRecord}
    (calm : world.Calm) (found : world.write.record? uuid = some record) :
    (withCache {} (resolve registry uuid spec)).on world =
      (.ok (resolutionUnder registry world.write (spec.getD (registry.embedPaths record.itemType))
        record), world) := by
  have mirrors : (world.withCache {}).Mirrors := fun _ _ cached => by cases cached
  rw [withCache_on, resolve_spec_on spec (calm.withCache {}) mirrors found]
  rfl

theorem resolveUnder_on_missing (spec : Option (List String)) {uuid : Uuid} (calm : world.Calm)
    (missing : world.write.record? uuid = none) :
    (withCache {} (resolve registry uuid spec)).on world =
      (.error (.storage (.notFound uuid)), world) := by
  rw [withCache_on, resolve_spec_on_missing spec (calm.withCache {}) missing]
  rfl

theorem resolveAlone_on {uuid : Uuid} {record : EntityRecord} (calm : world.Calm)
    (found : world.write.record? uuid = some record) :
    (resolveAlone registry uuid).on world =
      (.ok (resolutionAlone registry world.write record), world) :=
  resolveUnder_on none calm found

theorem resolveAlone_on_missing {uuid : Uuid} (calm : world.Calm)
    (missing : world.write.record? uuid = none) :
    (resolveAlone registry uuid).on world = (.error (.storage (.notFound uuid)), world) :=
  resolveUnder_on_missing none calm missing

end Embedding

end CachedViews
