import CachedViews.Invalidation
import CachedViews.Proofs.ReadStore.Calls
import CachedViews.Proofs.WriteStore.Changes

/-!
What invalidation answers in a calm world: the dependents that a change selects are in its
scope, and the targets of a record's changed links are found in the retained sheets.
-/
namespace CachedViews

namespace Invalidation

open CachedViews.Action WriteStore

variable {engine : Engine} {world : World} {store : MemoryViews}

/-- Entities that link to one, by its stored view or by the edges into it. -/
def linkingIn (write : WriteStore) (store : MemoryViews) (uuid : Uuid) : SortedSet Uuid :=
  match store.views.get? uuid with
  | some view => view.revLinks.sources
  | none => SortedSet.ofList ((write.revLinks uuid).map LinkEdge.source)

def baselineIn (write : WriteStore) (store : MemoryViews) (uuid : Uuid) : SortedSet EntityKey :=
  (SortedSet.ofList (store.findDependents uuid ++
    keysIn write ((linkingIn write store uuid).erase uuid).toList)).filter fun key =>
      key.uuid ≠ uuid

def scopeIn (engine : Engine) (write : WriteStore) (store : MemoryViews) (uuid : Uuid)
    (changed : ItemType) (diff : Option (List String)) : SortedSet EntityKey :=
  match diff with
  | none => baselineIn write store uuid
  | some diff =>
    if engine.mode = .disabled then baselineIn write store uuid
    else
      match FieldDiff.decode engine.registry.contains changed diff with
      | [] => {}
      | fields => (baselineIn write store uuid).filter fun key =>
        reaches engine key.itemType changed fields

theorem linkingEntities_peeks (calm : world.Calm) (holds : world.Holds store) (uuid : Uuid) :
    Peeks (linkingEntities uuid) (linkingIn world.write store uuid) world := by
  rw [linkingEntities, linkingIn]
  refine (orNotFound_view_peeks calm holds uuid).bind fun stats => ?_
  cases store.views.get? uuid with
  | some view => exact .of_on (on_pure _ _)
  | none =>
    refine .of_on ?_
    dsimp only
    rw [on_bind_ok (revLinks_on (calm.counting stats) uuid)]
    exact on_pure _ _

theorem baseline_peeks (calm : world.Calm) (holds : world.Holds store) (uuid : Uuid) :
    Peeks (baseline uuid) (baselineIn world.write store uuid) world := by
  rw [baseline, baselineIn]
  refine (Peeks.of_on (findDependents_on calm holds uuid)).bind fun first => ?_
  refine (linkingEntities_peeks (calm.counting first) (holds.counting first) uuid).bind
    fun second => ?_
  rw [World.counting_counting]
  refine .of_on ?_
  rw [on_bind_ok (liveKeys_on (calm.counting second) _)]
  exact on_pure _ _

/-- The scope of a change of an entity that is there. -/
theorem scope_peeks (engine : Engine) (calm : world.Calm) (holds : world.Holds store) {uuid : Uuid}
    {changed : ItemType} (typed : world.write.itemTypeOf uuid = some changed)
    (diff : Option (List String)) :
    Peeks (scope engine uuid diff) (scopeIn engine world.write store uuid changed diff) world := by
  rw [scope]
  unfold scopeIn
  refine (baseline_peeks calm holds uuid).bind fun stats => ?_
  cases diff with
  | none => exact .of_on (on_pure _ _)
  | some diff =>
    dsimp only
    by_cases disabled : engine.mode = .disabled
    · rw [if_pos disabled, if_pos disabled]
      exact .of_on (on_pure _ _)
    · rw [if_neg disabled, if_neg disabled]
      have known : (changedType uuid).on (world.counting stats) =
          (.ok (some changed), world.counting stats) := by
        rw [changedType, on_bind_ok (itemTypeOf_on (calm.counting stats) uuid)]
        simp only [World.counting, typed]
        exact on_pure _ _
      refine (Peeks.of_on known).bind fun more => ?_
      rw [World.counting_counting]
      dsimp only
      refine .of_on ?_
      cases FieldDiff.decode engine.registry.contains changed diff <;> exact on_pure _ _

section

variable {views : Uuid → Option View}

theorem linkingEntities_returns (calm : world.Calm) (loads : world.read.Loads views)
    (uuid : Uuid) : (linkingEntities uuid).Returns world := by
  refine Returns.bind ⟨_, orNotFound_view_loaded calm loads uuid⟩ fun found stats => ?_
  cases found with
  | some view => exact returns_pure _ _
  | none => exact (Returns.of_on (revLinks_on (calm.counting stats) uuid)).bind fun edges _ =>
      returns_pure _ _

theorem baseline_returns (calm : world.Calm) (loads : world.read.Loads views) (uuid : Uuid) :
    (baseline uuid).Returns world := by
  refine (findDependents_returns calm uuid).bind fun dependents first => ?_
  refine (linkingEntities_returns (calm.counting first) (loads.counted first) uuid).bind
    fun sources second => ?_
  rw [World.counting_counting]
  exact (Returns.of_on (liveKeys_on (calm.counting second) _)).bind fun linking _ =>
    returns_pure _ _

theorem changedType_returns (calm : world.Calm) (loads : world.read.Loads views) (uuid : Uuid) :
    (changedType uuid).Returns world := by
  refine (Returns.of_on (itemTypeOf_on calm uuid)).bind fun known stats => ?_
  cases known with
  | some itemType => exact returns_pure _ _
  | none =>
    exact Returns.bind ⟨_, orNotFound_view_loaded (calm.counting stats) (loads.counted stats) uuid⟩
      fun found _ => returns_pure _ _

/-- Whatever was changed, the scope is found once every view can be read. -/
theorem scope_returns (engine : Engine) (calm : world.Calm) (loads : world.read.Loads views)
    (uuid : Uuid) (diff : Option (List String)) : (scope engine uuid diff).Returns world := by
  refine (baseline_returns calm loads uuid).bind fun candidates stats => ?_
  cases diff with
  | none => exact returns_pure _ _
  | some diff =>
    dsimp only
    split
    · exact returns_pure _ _
    · refine (changedType_returns (calm.counting stats) (loads.counted stats) uuid).bind
        fun known more => ?_
      cases known with
      | none => exact returns_pure _ _
      | some changed =>
        dsimp only
        split <;> exact returns_pure _ _

end

/-- Whether a view of a type must be rebuilt for a diff of an entity of type `changed`. -/
def Selects (engine : Engine) (dependent changed : ItemType) (diff : Option (List String)) : Prop :=
  ∀ fields, diff = some fields →
    ∃ field ∈ FieldDiff.decode engine.registry.contains changed fields,
      ∀ reads, engine.registry.reads? dependent = some reads → reads.covers changed field = true

theorem reaches_of_covers {dependent changed : ItemType} {fields : List String} {field : String}
    (listed : field ∈ fields)
    (covers : ∀ reads, engine.registry.reads? dependent = some reads →
      reads.covers changed field = true) : reaches engine dependent changed fields = true := by
  unfold reaches
  split
  · rfl
  · rename_i reads found
    rw [Bool.or_eq_true]
    exact Or.inr (List.any_eq_true.mpr ⟨field, listed, covers reads found⟩)

theorem mem_baselineIn (write : WriteStore) {uuid : Uuid} {key : EntityKey}
    (listed : key ∈ store.findDependents uuid) (apart : key.uuid ≠ uuid) :
    key ∈ baselineIn write store uuid := by
  simp only [baselineIn, SortedSet.mem_filter, SortedSet.mem_ofList, List.mem_append]
  exact ⟨Or.inl listed, by simpa using apart⟩

/-- Dependents that a change selects are in its scope, whatever the mode. -/
theorem mem_scopeIn {write : WriteStore} {uuid : Uuid} {changed : ItemType}
    {diff : Option (List String)} {key : EntityKey} (listed : key ∈ store.findDependents uuid)
    (apart : key.uuid ≠ uuid) (selects : Selects engine key.itemType changed diff) :
    key ∈ scopeIn engine write store uuid changed diff := by
  have candidate := mem_baselineIn write listed apart
  unfold scopeIn
  cases diff with
  | none => exact candidate
  | some diff =>
    obtain ⟨field, inside, covers⟩ := selects diff rfl
    dsimp only
    split
    · exact candidate
    · split
      · rename_i none
        rw [none] at inside
        cases inside
      · exact SortedSet.mem_filter.mpr ⟨candidate, reaches_of_covers inside covers⟩

theorem mem_baselineIn_iff (mirrored : store.Mirrored) (write : WriteStore) (uuid : Uuid)
    (key : EntityKey) :
    key ∈ baselineIn write store uuid ↔ key.uuid ≠ uuid ∧
      ((∃ view, store.views.get? key.uuid = some view ∧ view.itemType = key.itemType ∧
          uuid ∈ view.linked) ∨
        key ∈ keysIn write ((linkingIn write store uuid).erase uuid).toList) := by
  rw [baselineIn, SortedSet.mem_filter, SortedSet.mem_ofList, List.mem_append,
    MemoryViews.mem_findDependents_iff mirrored, decide_eq_true_iff, and_comm]

theorem linkingIn_eq (write : WriteStore) (store : MemoryViews) (uuid : Uuid) :
    linkingIn write store uuid = ((store.views.get? uuid).map View.revLinks).elim
      (SortedSet.ofList ((write.revLinks uuid).map LinkEdge.source)) ReverseLinks.sources := by
  unfold linkingIn
  cases store.views.get? uuid <;> rfl

/-- The scope of a change depends on the views of other entities, and on what the entity's own view
lists as linking to it. -/
theorem scopeIn_congr {other : MemoryViews} (mirrored : store.Mirrored)
    (otherMirrored : other.Mirrored) {write : WriteStore} {uuid : Uuid}
    (others : ∀ source, source ≠ uuid → other.views.get? source = store.views.get? source)
    (own : (other.views.get? uuid).map View.revLinks = (store.views.get? uuid).map View.revLinks)
    (changed : ItemType) (diff : Option (List String)) :
    scopeIn engine write other uuid changed diff = scopeIn engine write store uuid changed diff := by
  have linking : linkingIn write other uuid = linkingIn write store uuid := by
    rw [linkingIn_eq, linkingIn_eq, own]
  have baseline : baselineIn write other uuid = baselineIn write store uuid := by
    refine SortedSet.ext_mem fun key => ?_
    rw [mem_baselineIn_iff otherMirrored, mem_baselineIn_iff mirrored, linking]
    exact and_congr_right fun apart => by rw [others key.uuid apart]
  unfold scopeIn
  rw [baseline]

/-- Links of one retained sheet, none where they cannot be extracted. -/
def linksAt (registry : Registry) (itemType : ItemType) (revision : Revision) : SortedSet Link :=
  match registry.get? itemType with
  | some decl => (decl.extractLinks revision.properties).toOption.getD {}
  | none => {}

theorem linksAt_eq {registry : Registry} {itemType : ItemType} {revision : Revision}
    {links : SortedSet Link} (extracts : Extracts registry itemType revision.properties links) :
    linksAt registry itemType revision = links := by
  obtain ⟨decl, declared, extracted⟩ := extracts
  rw [linksAt, declared]
  dsimp only
  rw [extracted]
  rfl

theorem linksOfRevision_eq {itemType : ItemType} {revision : Revision} {links : SortedSet Link}
    (extracts : Extracts engine.registry itemType revision.properties links) :
    linksOfRevision engine itemType revision = .ok links := by
  obtain ⟨decl, declared, extracted⟩ := extracts
  rw [linksOfRevision, declared]
  exact extracted

/-- Retained sheets of a record from a stamp on, its own left out. -/
def earlierRevisions (write : WriteStore) (record : EntityRecord) (since : Sid) : List Revision :=
  (write.revisions record.uuid).filter fun revision =>
    since ≤ revision.sid && revision.sid < record.sid

/-- The sets of links that decide which targets of a record count as changed. -/
def linkSets (registry : Registry) (write : WriteStore) (record : EntityRecord)
    (since : Option Sid) : List (SortedSet Link) :=
  match since with
  | none => [record.links, {}]
  | some since =>
    record.links :: (earlierRevisions write record since).map (linksAt registry record.itemType)

/-- Every retained sheet was accepted once, so its links can be extracted again. -/
theorem linksOfRevision_retained {write : WriteStore} {record : EntityRecord}
    (consistent : Consistent engine.registry write)
    (current : write.record? record.uuid = some record) {since : Sid} {revision : Revision}
    (listed : revision ∈ earlierRevisions write record since) :
    linksOfRevision engine record.itemType revision =
      .ok (linksAt engine.registry record.itemType revision) := by
  have inside := (List.mem_filter.mp listed).1
  obtain ⟨row, last, stored, -, same⟩ := row_of_record? current
  simp only [revisions, stored] at inside
  obtain ⟨-, links, extracts⟩ := (consistent.rows _ row stored).accepted revision inside
  have typed : record.itemType = row.itemType := by rw [same]; rfl
  rw [typed]
  rw [linksOfRevision_eq extracts, linksAt_eq extracts]

theorem mapM_ofValidation_on {α β : Type} {f : α → Except ValidationError β} {value : α → β}
    {members : List α} (each : ∀ member ∈ members, f member = .ok (value member)) :
    (members.mapM fun member => ofValidation (f member)).on world =
      (.ok (members.map value), world) := by
  refine mapM_on fun member listed => ?_
  rw [each member listed, ofValidation_on]
  rfl

theorem linkTargets_on (calm : world.Calm) (consistent : Consistent engine.registry world.write)
    {record : EntityRecord} (current : world.write.record? record.uuid = some record)
    (since : Option Sid) :
    (linkTargets engine record since).on world =
      (.ok (SortedSet.ofList (keysIn world.write (changedTargets record.uuid
        (linkSets engine.registry world.write record since)).toList)), world) := by
  unfold linkTargets
  cases since with
  | none =>
    rw [on_bind_ok (on_pure _ _)]
    dsimp only
    rw [on_bind_ok (liveKeys_on calm _)]
    exact on_pure _ _
  | some since =>
    have earlier : (earlierLinks engine record since).on world =
        (.ok ((earlierRevisions world.write record since).map
          (linksAt engine.registry record.itemType)), world) := by
      have retained : (history record.uuid).on world =
          (.ok (world.write.revisions record.uuid), world) := by
        rw [history_on calm, history_of_record? current]
        rfl
      rw [earlierLinks, on_bind_ok retained]
      exact mapM_ofValidation_on fun revision listed =>
        linksOfRevision_retained consistent current listed
    rw [on_bind_ok earlier]
    dsimp only
    rw [on_bind_ok (liveKeys_on calm _)]
    exact on_pure _ _

/-- A target counts as changed when some of the sets hold a link to it that others lack. -/
theorem mem_changedTargets_iff (self target : Uuid) (sets : List (SortedSet Link)) :
    target ∈ changedTargets self sets ↔
      target ≠ self ∧ ∃ link, link.target = target ∧ (∃ links ∈ sets, link ∈ links) ∧
        ∃ links ∈ sets, link ∉ links := by
  simp only [changedTargets, SortedSet.mem_ofList, List.mem_map, List.mem_filter]
  constructor
  · rintro ⟨link, ⟨seen, differs⟩, rfl⟩
    rw [← SortedSet.mem_def, SortedSet.mem_ofList, List.mem_flatMap] at seen
    simp only [Bool.and_eq_true, decide_eq_true_eq, Bool.not_eq_true', List.all_eq_false] at differs
    obtain ⟨apart, links, listed, lacks⟩ := differs
    exact ⟨apart, link, rfl, seen, links, listed, by simpa [SortedSet.contains] using lacks⟩
  · rintro ⟨apart, link, rfl, seen, links, listed, lacks⟩
    refine ⟨link, ⟨?_, ?_⟩, rfl⟩
    · rw [← SortedSet.mem_def, SortedSet.mem_ofList, List.mem_flatMap]
      exact seen
    · simp only [Bool.and_eq_true, decide_eq_true_eq, Bool.not_eq_true', List.all_eq_false]
      exact ⟨apart, links, listed, by simpa [SortedSet.contains] using lacks⟩

/-- Since a view of the record itself no target changed. -/
theorem changedTargets_linkSets_self (registry : Registry) (write : WriteStore)
    (record : EntityRecord) :
    (changedTargets record.uuid (linkSets registry write record (some record.sid))).toList = [] := by
  have none : earlierRevisions write record record.sid = [] := by
    refine List.filter_eq_nil_iff.mpr fun revision _ between => ?_
    obtain ⟨since, before⟩ : record.sid ≤ revision.sid ∧ revision.sid < record.sid := by
      simpa using between
    exact absurd before (Int.not_lt.mpr since)
  refine List.eq_nil_iff_forall_not_mem.mpr fun target inside => ?_
  obtain ⟨-, link, -, ⟨links, listed, held⟩, others, lacking, lacks⟩ :=
    (mem_changedTargets_iff _ _ _).mp (SortedSet.mem_def.mpr inside)
  rw [linkSets, none, List.map_nil] at listed lacking
  rw [List.mem_singleton.mp listed] at held
  rw [List.mem_singleton.mp lacking] at lacks
  exact lacks held

end Invalidation

end CachedViews
