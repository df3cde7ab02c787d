import CachedViews.Proofs.Embedding.Calculated
import CachedViews.Proofs.WriteStore.Changes

/-!
Resolutions over a write store. What was loaded is all that a document looks at, so a
resolution's document is the one over the store's current records.
-/
namespace CachedViews

namespace WriteStore

/-- Every link names a missing entity or one of the declared type. -/
def WellTyped (registry : Registry) (store : WriteStore) : Prop :=
  ∀ uuid record, store.record? uuid = some record → ∀ link ∈ record.links,
    ∀ itemType, registry.linkTarget? record.itemType link.field = some itemType →
      ∀ target, store.record? link.target = some target → target.itemType = itemType

end WriteStore

namespace Embedding

open WriteStore

variable {registry : Registry} {store earlier later : WriteStore} {reads : Reads}
  {record : EntityRecord}

theorem linksSound (consistent : Consistent registry store) (typed : WellTyped registry store) :
    LinksSound registry store.record? where
  held uuid record found field value declared there := by
    obtain ⟨decl, known, extracted⟩ := consistent.record_extracts found
    rw [Registry.isLink, known] at declared
    exact TypeDecl.holdsLinks_of_extractLinks extracted declared there
  typed uuid record found field itemType link target listed next there := by
    have declared : registry.isLink record.itemType field = true := by
      rw [isLink_eq_isSome, link]
      rfl
    have linking := (consistent.mem_links_iff found ⟨field, target⟩).mpr ⟨declared, listed⟩
    exact typed uuid record found _ linking itemType link next there

/-- A registered type has reads. -/
theorem exists_reads (consistent : Consistent registry store) {uuid : Uuid}
    (found : store.record? uuid = some record) :
    ∃ reads, registry.reads? record.itemType = some reads := by
  obtain ⟨decl, known, -⟩ := consistent.record_extracts found
  exact ⟨_, by rw [Registry.reads?, known]; rfl⟩

/-- The document of a current record, over all current records. -/
def documentIn (registry : Registry) (store : WriteStore) (record : EntityRecord) : Json :=
  Document.ofRecord registry store.record? (registry.embedPaths record.itemType) record

section

variable (built : registry.Built) (pure : registry.Pure) (consistent : Consistent registry store)
  (typed : WellTyped registry store)
include built pure consistent typed

/-- What was loaded stands for the whole store. -/
theorem document_plain (found : store.record? record.uuid = some record)
    (nested : registry.NestedApart record.itemType)
    (wildcard : registry.WildcardApart record.itemType) {cache : RecordCache}
    (known : ∀ uuid ∈ loaded registry store (registry.embedPaths record.itemType) record,
      cache.record? uuid = store.record? uuid) :
    (resolution registry store cache (registry.embedPaths record.itemType) record).document.plain =
      (documentIn registry store record).plain := by
  obtain ⟨reads, read⟩ := exists_reads consistent found
  have root : Document.RootAgrees registry store.record? cache.record? reads record :=
    ⟨built, nested, wildcard, linksSound consistent typed, ⟨_, found⟩, read, fun uuid visits => by
      rw [known uuid (mem_loaded_of_visits found visits)]
      exact .refl _ _⟩
  exact (root.ofRecord_agrees pure).symm

theorem documentAlone_plain (found : store.record? record.uuid = some record)
    (nested : registry.NestedApart record.itemType)
    (wildcard : registry.WildcardApart record.itemType) :
    (resolutionAlone registry store record).document.plain =
      (documentIn registry store record).plain := by
  refine document_plain built pure consistent typed found nested wildcard fun uuid listed => ?_
  rw [RecordCache.record?, World.knows_get?, if_pos listed]
  rfl

end

end Embedding

end CachedViews
