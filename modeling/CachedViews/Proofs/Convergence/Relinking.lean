import CachedViews.Proofs.Service.Commands

/-!
Reverse links on their way to the current state. What a stored view lists of one linking entity
is current, or the next rebuild of that entity is not strict and will find the difference among
the sheets that it compares.
-/
namespace CachedViews

namespace Convergence

open WriteStore Invalidation

variable {registry : Registry} {write next : WriteStore} {store : MemoryViews}
  {pending front back extra : List Rebuild} {listed : ReverseLinks} {source target : Uuid}
  {record : EntityRecord}

/-- A rebuild of an entity is to come. -/
def Pending (pending : List Rebuild) (uuid : Uuid) : Prop :=
  ∃ rebuild ∈ pending, rebuild.uuid = uuid

/-- The next rebuild of an entity is not strict. -/
def NextLenient (pending : List Rebuild) (uuid : Uuid) : Prop :=
  ∃ rebuild, pending.find? (fun rebuild => rebuild.uuid = uuid) = some rebuild ∧
    rebuild.strict = false

def Links (write : WriteStore) (source : Uuid) (field : String) (target : Uuid) : Prop :=
  ∃ record, write.record? source = some record ∧ (⟨field, target⟩ : Link) ∈ record.links

/-- Reverse links that show what an entity links now. -/
def Shows (write : WriteStore) (listed : ReverseLinks) (source target : Uuid) : Prop :=
  ∀ field, source ∈ listed.getD field {} ↔ Links write source field target

/-- Reverse links whose difference from what an entity links now is found by a rebuild of it:
they were taken from a sheet that is compared, or without a stored view the entity links the
target. -/
def Found (registry : Registry) (write : WriteStore) (store : MemoryViews)
    (listed : ReverseLinks) (source target : Uuid) : Prop :=
  match store.views.get? source with
  | some view => ∃ record, write.record? source = some record ∧
      ∃ revision ∈ write.revisions source, view.sid ≤ revision.sid ∧
        ∀ field, source ∈ listed.getD field {} ↔
          (⟨field, target⟩ : Link) ∈ linksAt registry record.itemType revision
  | none => ∃ field, Links write source field target

/-- What the view of `target` lists of `source` is right, or a rebuild to come will put it
right: its own, or one of the source that finds the difference. -/
def Accounted (registry : Registry) (write : WriteStore) (store : MemoryViews)
    (pending : List Rebuild) (source target : Uuid) : Prop :=
  Pending pending target ∨ ∀ view, store.views.get? target = some view →
    Shows write view.revLinks source target ∨
      NextLenient pending source ∧ Found registry write store view.revLinks source target

/-- Reverse links made of edges into one entity. -/
def Gathered (target : Uuid) (listed : ReverseLinks) : Prop :=
  ∃ edges : SortedSet LinkEdge, listed = .ofEdges target edges.toList ∧
    ∀ edge ∈ edges, edge.link.target = target

/-- Rebuilds to come and views belong to entities that are there, and every entity has a view
or is to be rebuilt. -/
structure Relinking (registry : Registry) (write : WriteStore) (store : MemoryViews)
    (pending : List Rebuild) : Prop where
  live : ∀ rebuild ∈ pending, write.Lives rebuild.uuid
  present : ∀ uuid, write.Lives uuid → Pending pending uuid ∨
    ∃ view, store.views.get? uuid = some view
  known : ∀ uuid view, store.views.get? uuid = some view →
    ∃ record, write.record? uuid = some record ∧ view.sid ≤ record.sid
  gathered : ∀ uuid view, store.views.get? uuid = some view → Gathered uuid view.revLinks

theorem Relinking.start : Relinking registry .empty .empty [] where
  live _ listed := absurd listed List.not_mem_nil
  present _ lives := by
    obtain ⟨_, found⟩ := lives
    cases found
  known _ _ stored := by cases stored
  gathered _ _ stored := by cases stored

theorem mem_add (links : ReverseLinks) (edge : LinkEdge) (field : String) (source : Uuid) :
    source ∈ (links.add edge).getD field {} ↔
      source ∈ links.getD field {} ∨ edge.source = source ∧ edge.link.field = field := by
  simp only [ReverseLinks.add, SortedMap.getD, SortedMap.get?_insert_eq]
  by_cases same : field = edge.link.field
  · subst same
    rw [if_pos rfl, Option.getD_some, SortedSet.mem_insert]
    constructor
    · rintro (rfl | listed)
      · exact Or.inr ⟨rfl, rfl⟩
      · exact Or.inl listed
    · rintro (listed | ⟨rfl, -⟩)
      · exact Or.inr listed
      · exact Or.inl rfl
  · rw [if_neg same]
    exact (or_iff_left fun both => same both.2.symm).symm

/-- Reverse links list the other ends of edges by the field of each. -/
theorem mem_ofEdges (root : Uuid) (edges : List LinkEdge) (field : String) (source : Uuid) :
    source ∈ (ReverseLinks.ofEdges root edges).getD field {} ↔
      source ≠ root ∧ ∃ edge ∈ edges, edge.source = source ∧ edge.link.field = field := by
  refine (foldl_iff_or (fun links : ReverseLinks => source ∈ links.getD field {})
    (fun edge _ links => mem_add links edge field source) {}).trans ?_
  constructor
  · rintro (listed | ⟨edge, inside, rfl, rfl⟩)
    · exact absurd listed (SortedSet.not_mem_emptyCollection _)
    · obtain ⟨there, apart⟩ := List.mem_filter.mp inside
      exact ⟨of_decide_eq_true apart, edge, there, rfl, rfl⟩
  · rintro ⟨apart, edge, listed, rfl, rfl⟩
    exact Or.inr ⟨edge, List.mem_filter.mpr ⟨listed, decide_eq_true apart⟩, rfl, rfl⟩

/-- Reverse links depend on the edges from other entities alone. -/
theorem ofEdges_eq {uuid : Uuid} {left right : SortedSet LinkEdge}
    (same : ∀ edge, edge.source ≠ uuid → (edge ∈ left ↔ edge ∈ right)) :
    ReverseLinks.ofEdges uuid left.toList = ReverseLinks.ofEdges uuid right.toList := by
  have kept : left.filter (fun edge => edge.source ≠ uuid) =
      right.filter (fun edge => edge.source ≠ uuid) := by
    refine SortedSet.ext_mem fun edge => ?_
    rw [SortedSet.mem_filter, SortedSet.mem_filter]
    exact and_congr_left fun apart => same edge (of_decide_eq_true apart)
  exact congrArg (fun edges => edges.toList.foldl ReverseLinks.add {}) kept

theorem mem_ofEdges_iff {edges : SortedSet LinkEdge}
    (into : ∀ edge ∈ edges, edge.link.target = target) (apart : source ≠ target)
    (field : String) :
    source ∈ (ReverseLinks.ofEdges target edges.toList).getD field {} ↔
      (⟨source, ⟨field, target⟩⟩ : LinkEdge) ∈ edges := by
  rw [mem_ofEdges]
  constructor
  · rintro ⟨-, ⟨_, ⟨_, _⟩⟩, listed, rfl, rfl⟩
    obtain rfl := into _ listed
    exact listed
  · intro listed
    exact ⟨apart, _, listed, rfl, rfl⟩

/-- Reverse links of one entity that list the same of every other are the same. -/
theorem Gathered.ext {left right : ReverseLinks} (first : Gathered target left)
    (second : Gathered target right)
    (same : ∀ source, source ≠ target → ∀ field,
      source ∈ left.getD field {} ↔ source ∈ right.getD field {}) : left = right := by
  obtain ⟨edges, rfl, into⟩ := first
  obtain ⟨others, rfl, intoOthers⟩ := second
  refine ofEdges_eq fun edge apart => ?_
  obtain ⟨source, field, reached⟩ := edge
  have alike := same source apart field
  rw [mem_ofEdges_iff into apart, mem_ofEdges_iff intoOthers apart] at alike
  constructor
  · intro inside
    obtain rfl : reached = target := into _ inside
    exact alike.mp inside
  · intro inside
    obtain rfl : reached = target := intoOthers _ inside
    exact alike.mpr inside

theorem gathered_revLinks (consistent : Consistent registry write) (target : Uuid) :
    Gathered target (.ofEdges target (write.revLinks target)) :=
  ⟨edgesInto write.incoming target, rfl,
    fun edge listed => ((consistent.mem_revLinks_iff target edge).mp listed).1.symm⟩

/-- The edges of the write store show what every other entity links. -/
theorem shows_revLinks (consistent : Consistent registry write) (apart : source ≠ target) :
    Shows write (.ofEdges target (write.revLinks target)) source target := by
  intro field
  rw [mem_ofEdges]
  constructor
  · rintro ⟨-, ⟨_, ⟨_, _⟩⟩, listed, rfl, rfl⟩
    obtain ⟨rfl, links⟩ := (consistent.mem_revLinks_iff target _).mp listed
    exact links
  · intro links
    exact ⟨apart, _, (consistent.mem_revLinks_iff target ⟨source, ⟨field, target⟩⟩).mpr ⟨rfl, links⟩,
      rfl, rfl⟩

/-- Reverse links that show every other entity are made of the edges of the write store. -/
theorem eq_revLinks_iff (consistent : Consistent registry write)
    (gathered : Gathered target listed) :
    listed = .ofEdges target (write.revLinks target) ↔
      ∀ source, source ≠ target → Shows write listed source target := by
  constructor
  · rintro rfl source apart
    exact shows_revLinks consistent apart
  · intro shows
    refine gathered.ext (gathered_revLinks consistent target) fun source apart field => ?_
    exact (shows source apart field).trans (shows_revLinks consistent apart field).symm

/-- When nothing is to come, what is accounted for is shown. -/
theorem Accounted.settled (accounted : Accounted registry write store [] source target)
    {view : View} (stored : store.views.get? target = some view) :
    Shows write view.revLinks source target := by
  rcases accounted with ⟨_, listed, -⟩ | shown
  · cases listed
  · exact (shown view stored).resolve_right fun ⟨⟨_, next, _⟩, _⟩ => by cases next

section

variable {done : Rebuild} {uuid : Uuid}

theorem nextLenient_append (lenient : NextLenient front uuid) :
    NextLenient (front ++ back) uuid := by
  obtain ⟨rebuild, first, strict⟩ := lenient
  exact ⟨rebuild, by rw [List.find?_append, first]; rfl, strict⟩

/-- With nothing but strict rebuilds at the back, more may be put in between. -/
theorem nextLenient_between (strict : ∀ rebuild ∈ back, rebuild.strict = true)
    (lenient : NextLenient (front ++ back) uuid) : NextLenient (front ++ extra ++ back) uuid := by
  obtain ⟨rebuild, first, notStrict⟩ := lenient
  rw [List.find?_append] at first
  cases found : front.find? (fun rebuild => rebuild.uuid = uuid) with
  | some held =>
    rw [found] at first
    cases first
    rw [List.append_assoc]
    exact nextLenient_append ⟨rebuild, found, notStrict⟩
  | none =>
    rw [found] at first
    have late := strict rebuild (List.mem_of_find?_eq_some first)
    rw [notStrict] at late
    cases late

/-- A rebuild that is not strict comes next unless one before it is next and strict. -/
theorem nextLenient_new (same : done.uuid = uuid) (notStrict : done.strict = false)
    (lenient : ∀ rebuild, front.find? (fun rebuild => rebuild.uuid = uuid) = some rebuild →
      rebuild.strict = false) : NextLenient (front ++ [done] ++ back) uuid := by
  apply nextLenient_append
  unfold NextLenient
  rw [List.find?_append]
  cases found : front.find? (fun rebuild => rebuild.uuid = uuid) with
  | some held => exact ⟨held, rfl, lenient held found⟩
  | none => exact ⟨done, by simp [same], notStrict⟩

theorem nextLenient_tail (apart : done.uuid ≠ uuid) (lenient : NextLenient (done :: back) uuid) :
    NextLenient back uuid := by
  obtain ⟨rebuild, first, notStrict⟩ := lenient
  rw [List.find?_cons_of_neg (by simpa using apart)] at first
  exact ⟨rebuild, first, notStrict⟩

theorem lenient_of_head (lenient : NextLenient (done :: back) done.uuid) :
    done.strict = false := by
  obtain ⟨rebuild, first, notStrict⟩ := lenient
  rw [List.find?_cons_of_pos (by simp)] at first
  cases first
  exact notStrict

theorem Pending.append (waits : Pending front uuid) : Pending (front ++ back) uuid := by
  obtain ⟨rebuild, listed, same⟩ := waits
  exact ⟨rebuild, List.mem_append_left _ listed, same⟩

theorem Pending.between (waits : Pending (front ++ back) uuid) :
    Pending (front ++ extra ++ back) uuid := by
  obtain ⟨rebuild, listed, same⟩ := waits
  refine ⟨rebuild, ?_, same⟩
  rw [List.append_assoc]
  rcases List.mem_append.mp listed with early | late
  · exact List.mem_append_left _ early
  · exact List.mem_append_right _ (List.mem_append_right _ late)

end

/-- A retained sheet is the current one or older. -/
theorem revision_cases {revision : Revision} (found : write.record? source = some record)
    (listed : revision ∈ write.revisions source) :
    revision = ⟨record.sid, record.properties⟩ ∨ revision.sid < record.sid := by
  obtain ⟨row, last, stored, final, rfl⟩ := row_of_record? found
  have listed : revision ∈ row.history := by
    rw [revisions, stored] at listed
    exact listed
  obtain ⟨front, shape⟩ := List.getLast?_eq_some_iff.mp final
  have sorted := row.history_sorted
  rw [shape] at listed sorted
  rcases List.mem_append.mp listed with early | late
  · exact Or.inr ((List.pairwise_append.mp sorted).2.2 revision early last List.mem_cons_self)
  · exact Or.inl (List.mem_singleton.mp late)

/-- The current sheet is retained, and its links are those of the record. -/
theorem current_revision (consistent : Consistent registry write)
    (found : write.record? source = some record) :
    (⟨record.sid, record.properties⟩ : Revision) ∈ write.revisions source ∧
      linksAt registry record.itemType ⟨record.sid, record.properties⟩ = record.links := by
  have extracts := consistent.record_extracts found
  obtain ⟨row, last, stored, final, rfl⟩ := row_of_record? found
  refine ⟨?_, linksAt_eq extracts⟩
  rw [revisions, stored]
  exact List.mem_of_getLast? final

theorem links_iff (found : write.record? source = some record) (field : String) :
    Links write source field target ↔ (⟨field, target⟩ : Link) ∈ record.links := by
  rw [Links, found]
  simp

/-- A rebuild of a linking entity notices a target whose view it does not show rightly. -/
theorem mem_changedTargets_of_found (consistent : Consistent registry write)
    (found : write.record? source = some record)
    (notices : Found registry write store listed source target)
    (stale : ¬ Shows write listed source target) (apart : target ≠ source) :
    target ∈ changedTargets source
      (linkSets registry write record ((store.views.get? source).map View.sid)) := by
  rw [mem_changedTargets_iff]
  refine ⟨apart, ?_⟩
  unfold Found at notices
  cases stored : store.views.get? source with
  | none =>
    rw [stored] at notices
    obtain ⟨field, links⟩ := notices
    exact ⟨⟨field, target⟩, rfl, ⟨record.links, List.mem_cons_self, (links_iff found field).mp links⟩,
      {}, List.mem_cons_of_mem _ List.mem_cons_self, SortedSet.not_mem_emptyCollection _⟩
  | some view =>
    rw [stored] at notices
    obtain ⟨same, again, revision, retained, since, taken⟩ := notices
    rw [found] at again
    cases again
    -- The sheet that the difference was taken from is not the current one, so it is compared.
    have earlier : revision.sid < record.sid := by
      apply (revision_cases found retained).resolve_left
      rintro rfl
      rw [(current_revision consistent found).2] at taken
      exact stale fun field => (taken field).trans (links_iff found field).symm
    have compared : linksAt registry record.itemType revision ∈
        linkSets registry write record (some view.sid) := by
      refine List.mem_cons_of_mem _ (List.mem_map_of_mem (List.mem_filter.mpr ⟨?_, ?_⟩))
      · exact record?_uuid found ▸ retained
      · simp [since, earlier]
    obtain ⟨field, differs⟩ := Classical.not_forall.mp stale
    rw [taken, links_iff found] at differs
    by_cases before : (⟨field, target⟩ : Link) ∈ linksAt registry record.itemType revision
    · exact ⟨⟨field, target⟩, rfl, ⟨_, compared, before⟩, record.links, List.mem_cons_self,
        fun now => differs (iff_of_true before now)⟩
    · have now : (⟨field, target⟩ : Link) ∈ record.links :=
        Classical.byContradiction fun none => differs (iff_of_false before none)
      exact ⟨⟨field, target⟩, rfl, ⟨record.links, List.mem_cons_self, now⟩, _, compared, before⟩

theorem Relinking.added (relinking : Relinking registry write store (front ++ back))
    (lives : ∀ rebuild ∈ extra, write.Lives rebuild.uuid) :
    Relinking registry write store (front ++ extra ++ back) where
  live rebuild listed := by
    rcases List.mem_append.mp listed with early | late
    · rcases List.mem_append.mp early with first | new
      · exact relinking.live rebuild (List.mem_append_left _ first)
      · exact lives rebuild new
    · exact relinking.live rebuild (List.mem_append_right _ late)
  present uuid lives := (relinking.present uuid lives).imp_left Pending.between
  known := relinking.known
  gathered := relinking.gathered

/-- More rebuilds may be put before those that are all strict: what comes next for an entity and
is not strict stands in front of them. -/
theorem Accounted.added (accounted : Accounted registry write store (front ++ back) source target)
    (strict : ∀ rebuild ∈ back, rebuild.strict = true) :
    Accounted registry write store (front ++ extra ++ back) source target :=
  accounted.imp Pending.between fun shown view stored =>
    (shown view stored).imp_right (And.imp_left (nextLenient_between strict))

/-- All that waits may be dropped when every entity without a fresh view is queued again. -/
theorem Relinking.refreshed (relinking : Relinking registry write store pending)
    (lives : ∀ rebuild ∈ extra, write.Lives rebuild.uuid)
    (covers : ∀ uuid, write.Lives uuid →
      Pending extra uuid ∨ Freshness.IsFresh write store uuid) :
    Relinking registry write store extra where
  live := lives
  present uuid lives := (covers uuid lives).imp_right fun ⟨view, stored, _⟩ => ⟨view, stored⟩
  known := relinking.known
  gathered := relinking.gathered

/-- What was not accounted for before is so now: a fresh view shows the current edges. -/
theorem Accounted.refreshed (relinking : Relinking registry write store pending)
    (consistent : Consistent registry write) (mirrored : store.Mirrored)
    (covers : ∀ uuid, write.Lives uuid →
      Pending extra uuid ∨ Freshness.IsFresh write store uuid) (apart : source ≠ target) :
    Accounted registry write store extra source target := by
  by_cases waits : Pending extra target
  · exact Or.inl waits
  · refine Or.inr fun view stored => Or.inl ?_
    obtain ⟨record, found, -⟩ := relinking.known target view stored
    obtain ⟨fresh, there, none⟩ := (covers target ⟨record, found⟩).resolve_left waits
    rw [stored] at there
    cases there
    obtain ⟨current, matched⟩ := (Freshness.reasonsIn_eq_nil_iff view).mp none
    obtain rfl := mirrored.own target view stored
    exact matched.revLinks ▸ shows_revLinks consistent apart

section

variable {done : Rebuild} {view : View}
  (relinking : Relinking registry write store (done :: front))
  (consistent : Consistent registry write) (found : write.record? done.uuid = some record)
  (own : view.uuid = done.uuid)
  (shown : view.revLinks = .ofEdges done.uuid (write.revLinks done.uuid))
include relinking consistent found own shown

theorem Relinking.rebuilt (stamped : view.sid = record.sid)
    (lives : ∀ rebuild ∈ extra, write.Lives rebuild.uuid) :
    Relinking registry write (store.put view) (front ++ extra) where
  live rebuild listed := by
    rcases List.mem_append.mp listed with old | new
    · exact relinking.live rebuild (List.mem_cons_of_mem _ old)
    · exact lives rebuild new
  present uuid there := by
    rw [MemoryViews.put_views]
    split
    · exact Or.inr ⟨view, rfl⟩
    · rename_i apart
      apply (relinking.present uuid there).imp_left
      rintro ⟨rebuild, listed, same⟩
      refine ⟨rebuild, List.mem_append_left _ ((List.mem_cons.mp listed).resolve_left ?_), same⟩
      rintro rfl
      exact apart (same.symm.trans own.symm)
  known uuid held stored := by
    rw [MemoryViews.put_views] at stored
    split at stored
    · rename_i same
      cases stored
      exact ⟨record, by rw [same, own]; exact found, Int.le_of_eq stamped⟩
    · exact relinking.known uuid held stored
  gathered uuid held stored := by
    rw [MemoryViews.put_views] at stored
    split at stored
    · rename_i same
      cases stored
      rw [same, own, shown]
      exact gathered_revLinks consistent _
    · exact relinking.gathered uuid held stored

/-- A rebuilt view shows the current edges. When its rebuild was not strict, the views of the
targets that it noticed are queued. -/
theorem Accounted.rebuilt
    (accounted : Accounted registry write store (done :: front) source target)
    (apart : source ≠ target)
    (noticed : done.strict = false → ∀ changed ∈ changedTargets done.uuid
      (linkSets registry write record ((store.views.get? done.uuid).map View.sid)),
        write.Lives changed → Pending (front ++ extra) changed) :
    Accounted registry write (store.put view) (front ++ extra) source target := by
  by_cases waits : Pending (front ++ extra) target
  · exact Or.inl waits
  refine Or.inr fun held stored => ?_
  rw [MemoryViews.put_views] at stored
  split at stored
  · rename_i same
    cases stored
    obtain rfl : target = done.uuid := same.trans own
    exact Or.inl (shown ▸ shows_revLinks consistent apart)
  · rename_i away
    have other : target ≠ done.uuid := fun same => away (same.trans own.symm)
    have unowed : ¬ Pending (done :: front) target := by
      rintro ⟨rebuild, listed, same⟩
      rcases List.mem_cons.mp listed with rfl | old
      · exact other same.symm
      · exact waits ⟨rebuild, List.mem_append_left _ old, same⟩
    rcases accounted.resolve_left unowed held stored with now | ⟨next, notices⟩
    · exact Or.inl now
    · by_cases here : source = done.uuid
      -- The rebuild was the one that finds the difference, so there is none.
      · subst here
        apply Or.inl
        apply Classical.byContradiction
        intro stale
        obtain ⟨current, there, -⟩ := relinking.known target held stored
        have changed := mem_changedTargets_of_found consistent found notices stale other
        exact waits (noticed (lenient_of_head next) target changed ⟨current, there⟩)
      · refine Or.inr ⟨nextLenient_append (nextLenient_tail (Ne.symm here) next), ?_⟩
        unfold Found at notices ⊢
        rw [MemoryViews.put_views, if_neg fun same => here (same.trans own)]
        exact notices

end

section

variable {new : EntityRecord} (wrote : Wrote write new next)
include wrote

theorem links_of_other (apart : source ≠ new.uuid) (field : String) :
    Links next source field target ↔ Links write source field target := by
  rw [Links, Links, wrote.record?_of_ne apart]

/-- A write of another entity changes nothing that is shown or found. -/
theorem shown_of_other (apart : source ≠ new.uuid)
    (shown : Shows write listed source target ∨
      NextLenient (front ++ back) source ∧ Found registry write store listed source target)
    (strict : ∀ rebuild ∈ back, rebuild.strict = true) :
    Shows next listed source target ∨
      NextLenient (front ++ extra ++ back) source ∧
        Found registry next store listed source target := by
  refine shown.imp (fun now field => ?_) (And.imp (nextLenient_between strict) fun notices => ?_)
  · rw [links_of_other wrote apart]
    exact now field
  · unfold Found at notices ⊢
    simp only [wrote.records, wrote.histories, if_neg apart, links_of_other wrote apart]
    exact notices

/-- What was shown or found of an entity is found by the rebuild that its write queues. -/
theorem found_of_wrote (consistent : Consistent registry write)
    (known : ∀ view, store.views.get? new.uuid = some view →
      ∃ old, write.record? new.uuid = some old ∧ view.sid ≤ old.sid)
    (shown : Shows write listed new.uuid target ∨
      Found registry write store listed new.uuid target)
    (still : store.views.get? new.uuid = none → ∃ field, Links next new.uuid field target) :
    Found registry next store listed new.uuid target := by
  unfold Found at shown ⊢
  cases stored : store.views.get? new.uuid with
  | none =>
    exact still stored
  | some view =>
    obtain ⟨old, found, below⟩ := known view stored
    rw [stored] at shown
    refine ⟨new, wrote.record?_new, ?_⟩
    rw [wrote.histories, if_pos rfl, ← wrote.typed old found]
    rcases shown with now | ⟨same, again, revision, retained, since, taken⟩
    · obtain ⟨retained, links⟩ := current_revision consistent found
      refine ⟨_, List.mem_append_left _ retained, below, fun field => ?_⟩
      rw [links, now, links_iff found]
    · rw [found] at again
      cases again
      exact ⟨revision, List.mem_append_left _ retained, since, taken⟩

end

theorem Relinking.wrote {new : EntityRecord} {diff : Option (List String)}
    (relinking : Relinking registry write store (front ++ back))
    (consistent : Consistent registry write) (wrote : Wrote write new next) :
    Relinking registry next store (front ++ [⟨new.uuid, false, diff⟩] ++ back) where
  live rebuild listed := by
    rcases List.mem_append.mp listed with early | late
    · rcases List.mem_append.mp early with first | here
      · exact wrote.lives (relinking.live rebuild (List.mem_append_left _ first))
      · rw [List.mem_singleton.mp here]
        exact ⟨new, wrote.record?_new⟩
    · exact wrote.lives (relinking.live rebuild (List.mem_append_right _ late))
  present uuid lives := by
    obtain ⟨record, found⟩ := lives
    rw [wrote.records] at found
    split at found
    · rename_i same
      exact Or.inl ⟨_, List.mem_append_left _ (List.mem_append_right _ List.mem_cons_self),
        same.symm⟩
    · exact (relinking.present uuid ⟨record, found⟩).imp_left Pending.between
  known uuid view stored := by
    obtain ⟨record, found, below⟩ := relinking.known uuid view stored
    rw [wrote.records]
    split
    · refine ⟨new, rfl, Int.le_trans below (Int.le_trans (consistent.record_sid_le found) ?_)⟩
      exact Int.le_of_lt wrote.old_sid_lt
    · exact ⟨record, found, below⟩
  gathered := relinking.gathered

/-- A write queues a rebuild of its entity that is not strict. It finds the targets whose views
do not show the new links, unless the next rebuild of the entity is strict, or no view of it is
stored and it links the target no more. -/
theorem Accounted.wrote {new : EntityRecord} {diff : Option (List String)}
    (accounted : Accounted registry write store (front ++ back) source target)
    (relinking : Relinking registry write store (front ++ back))
    (strict : ∀ rebuild ∈ back, rebuild.strict = true)
    (consistent : Consistent registry write) (wrote : Wrote write new next)
    (noticed : source = new.uuid → ∀ view, store.views.get? target = some view →
      ¬ Pending (front ++ [⟨new.uuid, false, diff⟩] ++ back) target →
        ¬ Shows next view.revLinks source target →
          (∀ rebuild, front.find? (fun rebuild => rebuild.uuid = source) = some rebuild →
            rebuild.strict = false) ∧
            (store.views.get? source = none → ∃ field, Links next source field target)) :
    Accounted registry next store (front ++ [⟨new.uuid, false, diff⟩] ++ back) source target := by
  by_cases waits : Pending (front ++ [⟨new.uuid, false, diff⟩] ++ back) target
  · exact Or.inl waits
  refine Or.inr fun view stored => ?_
  have shown := accounted.resolve_left (fun before => waits before.between) view stored
  by_cases here : source = new.uuid
  · by_cases now : Shows next view.revLinks source target
    · exact Or.inl now
    · obtain ⟨lenient, still⟩ := noticed here view stored waits now
      subst here
      exact Or.inr ⟨nextLenient_new rfl rfl lenient, found_of_wrote wrote consistent
        (relinking.known _) (shown.imp_right And.right) still⟩
  · exact shown_of_other wrote here shown strict

end Convergence

end CachedViews
