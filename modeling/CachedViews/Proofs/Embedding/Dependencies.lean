import CachedViews.Proofs.Embedding.Declared
import CachedViews.Proofs.Service.Edits

/-!
What a resolution depends on. It lists every entity that it looked at, so two stores that agree
on the root, on what is listed and on the links into the root resolve it alike.
-/
namespace CachedViews

namespace WriteStore

/-- The edges into an entity are listed in one order, so their members fix the list. -/
theorem revLinks_eq_of_mem {left right : WriteStore} {uuid : Uuid}
    (same : ∀ edge, edge ∈ left.revLinks uuid ↔ edge ∈ right.revLinks uuid) :
    left.revLinks uuid = right.revLinks uuid :=
  congrArg SortedSet.toList (SortedSet.ext_mem same)

end WriteStore

namespace Embedding

variable {registry : Registry} {store : WriteStore} {cache : RecordCache} {paths : List String}
  {record : EntityRecord}

/-- The target of every followed link is listed, the root apart. -/
theorem mem_linked_of_followed {edge : LinkEdge}
    (listed : edge ∈ followed registry store.record? paths record)
    (apart : edge.link.target ≠ record.uuid) :
    edge.link.target ∈ (resolution registry store cache paths record).linked :=
  SortedSet.mem_erase.mpr ⟨(mem_linked_note _ _ _).mpr (Or.inr ⟨edge, listed, rfl⟩), apart⟩

/-- A resolution reads nothing but its root, what it lists as linked, and the links into its root:
a store that agrees on those gives the same resolution, or the same error. -/
theorem resolution_reads_linked (registry : Registry) (spec : Option (List String)) {uuid : Uuid}
    {left right : World} (calm : left.Calm) (calmRight : right.Calm)
    (root : left.write.record? uuid = right.write.record? uuid)
    (linked : ∀ resolution,
      ((withCache {} (resolve registry uuid spec)).on left).1 = .ok resolution →
        ∀ other ∈ resolution.linked, left.write.record? other = right.write.record? other)
    (edges : ∀ edge, edge ∈ left.write.revLinks uuid ↔ edge ∈ right.write.revLinks uuid) :
    ((withCache {} (resolve registry uuid spec)).on left).1 =
      ((withCache {} (resolve registry uuid spec)).on right).1 := by
  cases found : left.write.record? uuid with
  | none =>
    rw [resolveUnder_on_missing spec calm found,
      resolveUnder_on_missing spec calmRight (root ▸ found)]
  | some record =>
    obtain rfl := WriteStore.record?_uuid found
    have resolved : (withCache {} (resolve registry record.uuid spec)).on left = _ :=
      resolveUnder_on spec calm found
    have agreed := linked _ (congrArg Prod.fst resolved)
    -- A followed link leads back to the root or to an entity that is listed.
    have passes : ∀ edge ∈ followed registry left.write.record?
        (spec.getD (registry.embedPaths record.itemType)) record,
        left.write.record? edge.source = right.write.record? edge.source →
          left.write.record? edge.link.target = right.write.record? edge.link.target := by
      intro edge listed _
      by_cases back : edge.link.target = record.uuid
      · rw [back, root]
      · exact agreed _ (mem_linked_of_followed listed back)
    have same := resolutionUnder_eq root passes
    rw [resolved, resolveUnder_on spec calmRight (root ▸ found), same,
      ← WriteStore.revLinks_eq_of_mem edges]
    rfl

/-- A book and its author. -/
def oneBook : List Edit := [
  .put ⟨1⟩ ⟨"Author"⟩ (.ofText "name" "Ann") none,
  .put ⟨2⟩ ⟨"Book"⟩ (.ofText "author" (Uuid.text ⟨1⟩)) none]

/-- The same author writes another book, and other authors come and go. -/
def moreBooks : List Edit := oneBook ++ [
  .put ⟨3⟩ ⟨"Book"⟩ (.ofText "author" (Uuid.text ⟨1⟩)) none,
  .put ⟨4⟩ ⟨"Author"⟩ (.ofText "name" "Eve") none,
  .purge ⟨4⟩]

/-- A book shows its author and nothing of what else there is. -/
theorem book_reads_its_author :
    ∃ resolution,
      ((withCache {} (resolve .books ⟨2⟩ none)).on (Edit.worldAfter (.precise .books) oneBook)).1 =
        .ok resolution ∧
      resolution.linked.toList = [⟨1⟩] ∧
      ((withCache {} (resolve .books ⟨2⟩ none)).on (Edit.worldAfter (.precise .books) moreBooks)).1 =
        .ok resolution := by
  have shown : ((withCache {} (resolve .books ⟨2⟩ none)).on
      (Edit.worldAfter (.precise .books) oneBook)).1.toOption.map (fun resolution =>
        resolution.linked.toList) = some [⟨1⟩] := by
    decide +kernel
  obtain ⟨resolution, resolved, listed⟩ := Action.ok_of_seen _ shown
  have old : ∀ other ∈ ([⟨1⟩, ⟨2⟩] : List Uuid),
      ((Edit.worldAfter (.precise .books) moreBooks).write.record? other).map (fun record =>
        decide (record.sid ≤ (Edit.worldAfter (.precise .books) oneBook).write.maxSid)) =
          some true := by
    decide +kernel
  -- What is no newer than the first store was there already.
  have agreed : ∀ other ∈ ([⟨1⟩, ⟨2⟩] : List Uuid),
      (Edit.worldAfter (.precise .books) oneBook).write.record? other =
        (Edit.worldAfter (.precise .books) moreBooks).write.record? other := by
    intro other listed
    obtain ⟨record, found, early⟩ := Option.map_eq_some_iff.mp (old other listed)
    rw [found, (Edit.history_worldAfter (.precise .books) oneBook _).kept found
      (of_decide_eq_true early)]
  have same := resolution_reads_linked .books none
    (Edit.sound_worldAfter (.precise .books) oneBook).1
    (Edit.sound_worldAfter (.precise .books) moreBooks).1 (agreed ⟨2⟩ (by decide))
    (fun seen again other inside => agreed other <| by
      obtain rfl : resolution = seen := Except.ok.inj (resolved.symm.trans again)
      rw [SortedSet.mem_def, listed] at inside
      exact List.mem_cons.mpr (Or.inl (List.mem_singleton.mp inside)))
    (fun edge => by
      have none : (Edit.worldAfter (.precise .books) oneBook).write.revLinks ⟨2⟩ =
          (Edit.worldAfter (.precise .books) moreBooks).write.revLinks ⟨2⟩ := by
        decide +kernel
      rw [none])
  exact ⟨resolution, resolved, listed, same ▸ resolved⟩

end Embedding

end CachedViews
