import CachedViews.Proofs.Sorted
import CachedViews.WriteStore

/-!
The index of incoming edges. Removing and adding edges one by one replaces the edges of a
source by those of its new links and touches no other.
-/
namespace CachedViews

namespace WriteStore

/-- Edges by target. -/
abbrev EdgeIndex := SortedMap Uuid (SortedSet LinkEdge)

def edgesInto (incoming : EdgeIndex) (target : Uuid) : SortedSet LinkEdge := incoming.getD target {}

theorem mem_edgesInto_insert (incoming : EdgeIndex) (key target : Uuid)
    (edges : SortedSet LinkEdge) (edge : LinkEdge) :
    edge ∈ edgesInto (incoming.insert key edges) target ↔
      if target = key then edge ∈ edges else edge ∈ edgesInto incoming target := by
  simp only [edgesInto, SortedMap.getD, SortedMap.get?_insert_eq]
  split <;> simp

theorem mem_edgesInto_erase (incoming : EdgeIndex) (key target : Uuid) (edge : LinkEdge) :
    edge ∈ edgesInto (incoming.erase key) target ↔
      target ≠ key ∧ edge ∈ edgesInto incoming target := by
  simp only [edgesInto, SortedMap.getD, SortedMap.get?_erase_eq]
  split
  · rename_i same
    simp [same]
  · rename_i apart
    simp [apart]

theorem mem_removeEdge (incoming : EdgeIndex) (source target : Uuid) (link : Link)
    (edge : LinkEdge) :
    edge ∈ edgesInto (removeEdge incoming source link) target ↔
      edge ∈ edgesInto incoming target ∧ ¬ (target = link.target ∧ edge = ⟨source, link⟩) := by
  simp only [removeEdge]
  split
  -- A set that loses its last edge is dropped from the index.
  · rename_i emptied
    rw [mem_edgesInto_erase]
    by_cases same : target = link.target
    · subst same
      have none : edge ∉ (incoming.getD link.target {}).erase ⟨source, link⟩ := by
        rw [SortedSet.mem_def]
        simp only [SortedSet.isEmpty, List.isEmpty_iff] at emptied
        simp [emptied]
      simp only [SortedSet.mem_erase, not_and, Classical.not_not] at none
      simp only [edgesInto, ne_eq, not_true_eq_false, false_and, true_and, false_iff, not_and,
        Classical.not_not]
      exact none
    · simp [same]
  · rw [mem_edgesInto_insert]
    by_cases same : target = link.target
    · subst same
      simp [edgesInto]
    · simp [same]

theorem mem_addEdge (incoming : EdgeIndex) (source target : Uuid) (link : Link)
    (edge : LinkEdge) :
    edge ∈ edgesInto (addEdge incoming source link) target ↔
      (target = link.target ∧ edge = ⟨source, link⟩) ∨ edge ∈ edgesInto incoming target := by
  unfold addEdge
  rw [mem_edgesInto_insert]
  by_cases same : target = link.target
  · subst same
    simp [edgesInto]
  · simp [same]

theorem mem_removeEdges (source target : Uuid) (links : List Link) (incoming : EdgeIndex)
    (edge : LinkEdge) :
    edge ∈ edgesInto (links.foldl (fun incoming link => removeEdge incoming source link) incoming)
        target ↔
      edge ∈ edgesInto incoming target ∧
        ¬ (edge.source = source ∧ edge.link ∈ links ∧ target = edge.link.target) := by
  refine (foldl_iff_and (fun incoming : EdgeIndex => edge ∈ edgesInto incoming target)
    (fun link _ incoming => mem_removeEdge incoming source target link edge) incoming).trans
      (and_congr_right fun _ => ?_)
  constructor
  · rintro kept ⟨same, listed, reached⟩
    exact kept _ listed ⟨reached, LinkEdge.ext same rfl⟩
  · rintro kept link listed ⟨reached, rfl⟩
    exact kept ⟨rfl, listed, reached⟩

theorem mem_addEdges (source target : Uuid) (links : List Link) (incoming : EdgeIndex)
    (edge : LinkEdge) :
    edge ∈ edgesInto (links.foldl (fun incoming link => addEdge incoming source link) incoming)
        target ↔
      (edge.source = source ∧ edge.link ∈ links ∧ target = edge.link.target) ∨
        edge ∈ edgesInto incoming target := by
  refine (foldl_iff_or (fun incoming : EdgeIndex => edge ∈ edgesInto incoming target)
    (fun link _ incoming => (mem_addEdge incoming source target link edge).trans or_comm)
    incoming).trans (or_comm.trans (or_congr_left ?_))
  constructor
  · rintro ⟨link, listed, reached, rfl⟩
    exact ⟨rfl, listed, reached⟩
  · rintro ⟨same, listed, reached⟩
    exact ⟨_, listed, reached, LinkEdge.ext same rfl⟩

/-- Edges of other sources stay; those of `source` follow its new links. -/
theorem mem_replaceEdges (incoming : EdgeIndex) (source target : Uuid) (old new : SortedSet Link)
    (edge : LinkEdge)
    (mirrored : edge.source = source →
      (edge ∈ edgesInto incoming target ↔ target = edge.link.target ∧ edge.link ∈ old)) :
    edge ∈ edgesInto (replaceEdges incoming source old new) target ↔
      if edge.source = source then target = edge.link.target ∧ edge.link ∈ new
      else edge ∈ edgesInto incoming target := by
  unfold replaceEdges
  rw [mem_addEdges, mem_removeEdges, ← SortedSet.mem_def, ← SortedSet.mem_def,
    SortedSet.mem_diff, SortedSet.mem_diff]
  by_cases same : edge.source = source
  · rw [mirrored same]
    simp only [same, true_and, ↓reduceIte]
    by_cases reached : target = edge.link.target <;> by_cases before : edge.link ∈ old <;>
      by_cases after : edge.link ∈ new <;> simp [reached, before, after]
  · simp [same]

end WriteStore

end CachedViews
