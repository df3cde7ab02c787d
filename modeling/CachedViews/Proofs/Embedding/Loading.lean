import CachedViews.Proofs.Asking.Answers

/-!
What a resolution is built from, in any world that tells the truth about its records: the current
record of its root, and for every entity that it visits what the batch loaded of it.
-/
namespace CachedViews

namespace Embedding

open CachedViews.Action

variable {registry : Registry} {world after : World}

/-- Everything that was visited is loaded. -/
def Loaded (visit : Visit) (world : World) : Prop :=
  ∀ uuid ∈ visit.linked, world.cache.contains uuid = true

theorem Loaded.of_looked {visit : Visit} (loaded : Loaded visit world)
    (looked : World.Looked world after) : Loaded visit after :=
  fun uuid inside => looked.kept uuid (loaded uuid inside)

theorem load_loads {uuid : Uuid} {live : Bool}
    (ended : (load uuid).on world = (.ok live, after)) : after.cache.contains uuid = true := by
  rw [load, on_bind_ok (on_get world)] at ended
  cases known : world.cache.get? uuid with
  | some entry =>
    rw [known] at ended
    cases ended
    simp [SortedMap.contains, known]
  | none =>
    rw [known] at ended
    dsimp only at ended
    obtain ⟨found, middle, -, ended⟩ := bind_ok ended
    cases ended
    simp [SortedMap.contains]

theorem visitHop_loaded {segment : String} {reached next : List Uuid × Visit} {hop : Uuid × Uuid}
    (loaded : Loaded reached.2 world)
    (ended : (visitHop segment reached hop).on world = (.ok next, after)) :
    Loaded next.2 after := by
  obtain ⟨frontier, visit⟩ := reached
  rw [visitHop] at ended
  obtain ⟨live, middle, loading, ended⟩ := bind_ok ended
  have still := loaded.of_looked ((load_looks hop.2).of_on loading)
  have visited : ∀ uuid ∈ visit.linked.insert hop.2, middle.cache.contains uuid = true := by
    intro uuid inside
    rcases (SortedSet.mem_insert).mp inside with rfl | before
    · exact load_loads loading
    · exact still uuid before
  cases live with
  | true =>
    cases ended
    exact visited
  | false =>
    cases ended
    intro uuid inside
    unfold Visit.addWarning at inside
    split at inside <;> exact visited uuid inside

/-- A walk that keeps what it visited loaded at each step does so as a whole. -/
theorem foldlM_loaded {α β : Type} (visitOf : β → Visit) {step : β → α → Action β}
    (each : ∀ state member world after next, Loaded (visitOf state) world →
      (step state member).on world = (.ok next, after) → Loaded (visitOf next) after)
    {members : List α} {start last : β}
    (ended : (members.foldlM step start).on world = (.ok last, after))
    (loaded : Loaded (visitOf start) world) :
    Loaded (visitOf last) after := by
  induction members generalizing start world with
  | nil =>
    cases ended
    exact loaded
  | cons first rest ih =>
    rw [List.foldlM_cons] at ended
    obtain ⟨next, middle, stepped, ended⟩ := bind_ok ended
    exact ih ended (each start first world middle next loaded stepped)

theorem visitPath_loaded {followLast : Bool} {path : List String} {frontier : List Uuid}
    {visit last : Visit} (loaded : Loaded visit world)
    (ended : (visitPath registry followLast path frontier visit).on world = (.ok last, after)) :
    Loaded last after := by
  induction path generalizing frontier visit world with
  | nil =>
    cases ended
    exact loaded
  | cons segment rest ih =>
    rw [visitPath] at ended
    split at ended
    · cases ended
      exact loaded
    · rw [on_bind_ok (on_get world)] at ended
      obtain ⟨reached, middle, walked, ended⟩ := bind_ok ended
      have between := foldlM_loaded Prod.snd (fun _ _ _ _ _ => visitHop_loaded) walked loaded
      exact ih between ended

theorem visitPaths_loaded {followLast : Bool} {root : Uuid} {paths : List String}
    {visit last : Visit} (loaded : Loaded visit world)
    (ended : (visitPaths registry followLast root paths visit).on world = (.ok last, after)) :
    Loaded last after :=
  foldlM_loaded id (fun _ _ _ _ _ => visitPath_loaded) ended loaded

/-- What a resolution was built from. -/
structure BuiltFrom (registry : Registry) (records : RecordCache) (resolution : Resolution) :
    Prop where
  document : resolution.document = Document.ofRecord registry records.record?
    (registry.embedPaths resolution.record.itemType) resolution.record
  loaded : ∀ linked ∈ resolution.linked, records.contains linked = true

/-- The root of a resolution is current. -/
theorem resolve_root {uuid : Uuid} {spec : Option (List String)} {resolution : Resolution}
    (unstale : world.Unstale)
    (ended : (resolve registry uuid spec).on world = (.ok resolution, after)) :
    world.write.record? uuid = some resolution.record := by
  rw [resolve] at ended
  obtain ⟨record, rooted, rooting, ended⟩ := bind_ok ended
  rw [resolveRecord] at ended
  dsimp only at ended
  obtain ⟨embedded, embeddedWorld, -, ended⟩ := bind_ok ended
  obtain ⟨visit, visited, -, ended⟩ := bind_ok ended
  rw [on_bind_ok (on_get visited)] at ended
  obtain ⟨edges, last, -, ended⟩ := bind_ok ended
  cases ended
  rw [loadRoot] at rooting
  obtain ⟨found, looked, looking, rooting⟩ := bind_ok rooting
  cases rooting
  have told := record_tells uuid unstale
  rw [looking] at told
  exact told

/-- The root of a resolution is current, and so are its reverse links. The rest is what the batch
has loaded so far, each entity as it was already cached or as it is now. -/
theorem resolve_built {uuid : Uuid} {resolution : Resolution} (truthful : world.Truthful)
    (ended : (resolve registry uuid none).on world = (.ok resolution, after)) :
    world.write.record? uuid = some resolution.record ∧
      resolution.revLinks = .ofEdges resolution.record.uuid
        (world.write.revLinks resolution.record.uuid) ∧
      ∃ records, BuiltFrom registry records resolution ∧
        ∀ other entry, records.get? other = some entry →
          world.cache.get? other = some entry ∨ entry = world.write.record? other := by
  have found := resolve_root truthful.unstale ended
  rw [resolve] at ended
  obtain ⟨record, rooted, rooting, ended⟩ := bind_ok ended
  have atRoot := (loadRoot_looks uuid).of_on rooting
  rw [resolveRecord] at ended
  dsimp only at ended
  obtain ⟨embedded, embeddedWorld, embedding, ended⟩ := bind_ok ended
  obtain ⟨visit, visited, calculating, ended⟩ := bind_ok ended
  rw [on_bind_ok (on_get visited)] at ended
  obtain ⟨edges, last, linking, ended⟩ := bind_ok ended
  cases ended
  have nothing : Loaded ⟨{}, []⟩ rooted := fun uuid inside =>
    absurd inside (SortedSet.not_mem_empty uuid)
  have loaded := visitPaths_loaded (visitPaths_loaded nothing embedding) calculating
  have looked := (atRoot.trans ((visitPaths_looks registry false _ _ _).of_on embedding)).trans
    ((visitPaths_looks registry true _ _ _).of_on calculating)
  have edges := revLinks_yields record.uuid visited _ _ linking
  rw [looked.write] at edges
  refine ⟨found, congrArg (ReverseLinks.ofEdges record.uuid) edges, visited.cache,
    ⟨rfl, fun linked inside => loaded linked ?_⟩, looked.cache truthful⟩
  exact (SortedSet.mem_erase.mp inside).1

theorem visitPath_certain (followLast : Bool) (path : List String) (frontier : List Uuid)
    (visit : Visit) : (visitPath registry followLast path frontier visit).Certain := by
  have loading : ∀ uuid, (load uuid).Certain := fun uuid => certain_get.bind fun world => by
    split
    · exact certain_pure _
    · exact (certain_orNotFound _).bind fun _ => (certain_modify _).bind fun _ => certain_pure _
  have hopping : ∀ (segment : String) reached hop, (visitHop segment reached hop).Certain :=
    fun segment reached hop => (loading hop.2).bind fun live => by
      split
      · exact certain_pure _
      · exact certain_pure _
  induction path generalizing frontier visit with
  | nil => exact certain_pure visit
  | cons segment rest ih =>
    rw [visitPath]
    split
    · exact certain_pure visit
    · exact certain_get.bind fun world => (certain_foldlM (hopping segment) _ _).bind
        fun reached => ih reached.1 reached.2

theorem resolveRecord_certain (record : EntityRecord) (spec : List String) :
    (resolveRecord registry record spec).Certain := by
  have visiting : ∀ followLast root paths visit,
      (visitPaths registry followLast root paths visit).Certain := fun followLast _ paths visit =>
    certain_foldlM (fun visit _ => visitPath_certain followLast _ _ visit) paths visit
  exact (visiting false _ _ _).bind fun _ => (visiting true _ _ _).bind fun _ =>
    certain_get.bind fun _ => (certain_writeStore.bind fun _ => certain_pure _).bind
      fun _ => certain_pure _

/-- An entity is taken to be missing only when it is. -/
theorem resolve_missing {uuid : Uuid} (truthful : world.Truthful)
    (ended : (orNotFound (resolve registry uuid none)).on world = (.ok none, after)) :
    world.write.record? uuid = none := by
  obtain ⟨error, failed, missing⟩ := orNotFound_none ended
  rw [resolve] at failed
  rcases bind_error failed with rooting | ⟨record, rooted, -, failed⟩
  · rw [loadRoot] at rooting
    rcases bind_error rooting with looked | ⟨record, middle, -, never⟩
    · have told := record_tells uuid truthful.unstale
      rw [looked] at told
      exact (told missing).resolve_left truthful.found
    · cases never
  · rw [resolveRecord_certain record _ rooted error after failed] at missing
    cases missing

end Embedding

end CachedViews
