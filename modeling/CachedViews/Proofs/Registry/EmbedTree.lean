import CachedViews.Proofs.Sorted
import CachedViews.Registry.EmbedTree

/-!
Every node of an embed tree comes from the paths that it was made of: a kept property is a
step of one of them, and an expanded one is a step before their last.
-/
namespace CachedViews

namespace EmbedTree

/-- `tails` are the paths from this node on. -/
inductive Grown : (List String → Prop) → EmbedTree → Prop where
  | node {tails : List String → Prop} {fields : SortedSet String}
      {children : List (String × EmbedTree)}
      (kept : ∀ field ∈ fields, ∃ rest, tails (field :: rest))
      (sourced : ∀ field child, Entries.get? field children = some child →
        ∃ rest, rest ≠ [] ∧ tails (field :: rest))
      (below : ∀ field child, Entries.get? field children = some child →
        Grown (fun rest => rest ≠ [] ∧ tails (field :: rest)) child) :
      Grown tails (.node fields children)

theorem Grown.mono {tails more : List String → Prop} {tree : EmbedTree} (grown : Grown tails tree)
    (within : ∀ path, tails path → more path) : Grown more tree := by
  induction grown generalizing more with
  | node kept sourced _ ih =>
    refine .node ?_ ?_ ?_
    · intro field inside
      obtain ⟨rest, listed⟩ := kept field inside
      exact ⟨rest, within _ listed⟩
    · intro field child found
      obtain ⟨rest, longer, listed⟩ := sourced field child found
      exact ⟨rest, longer, within _ listed⟩
    · intro field child found
      exact ih field child found fun rest both => ⟨both.1, within _ both.2⟩

theorem grown_leaf (tails : List String → Prop) : Grown tails leaf :=
  .node (fun _ inside => absurd inside (SortedSet.not_mem_empty _))
    (fun _ _ found => by cases found) (fun _ _ found => by cases found)

theorem Grown.insert {tails : List String → Prop} {tree : EmbedTree} (grown : Grown tails tree)
    (path : List String) : Grown (fun tail => tails tail ∨ tail = path) (insert path tree) := by
  induction path generalizing tails tree with
  | nil => exact grown.mono fun _ listed => Or.inl listed
  | cons segment rest ih =>
    have wider : ∀ tail, tails tail → tails tail ∨ tail = segment :: rest :=
      fun _ listed => Or.inl listed
    cases grown with
    | @node _ fields children kept sourced below =>
      have keptMore : ∀ field ∈ fields.insert segment,
          ∃ tail, tails (field :: tail) ∨ field :: tail = segment :: rest := by
        intro field inside
        rcases SortedSet.mem_insert.mp inside with rfl | before
        · exact ⟨rest, Or.inr rfl⟩
        · obtain ⟨tail, listed⟩ := kept field before
          exact ⟨tail, Or.inl listed⟩
      rw [EmbedTree.insert]
      split
      -- The last step of a path is kept without a node of its own.
      · refine .node keptMore ?_ ?_
        · intro field child found
          obtain ⟨tail, longer, listed⟩ := sourced field child found
          exact ⟨tail, longer, Or.inl listed⟩
        · intro field child found
          exact (below field child found).mono fun tail both => ⟨both.1, Or.inl both.2⟩
      · rename_i expands
        have longer : rest ≠ [] := fun last => expands (Or.inl last)
        refine .node keptMore ?_ ?_
        · intro field child found
          rw [Entries.get?_insert] at found
          split at found
          · rename_i same
            obtain rfl := compare_eq_iff.mp same
            exact ⟨rest, longer, Or.inr rfl⟩
          · obtain ⟨tail, more, listed⟩ := sourced field child found
            exact ⟨tail, more, Or.inl listed⟩
        · intro field child found
          rw [Entries.get?_insert] at found
          split at found
          -- The node that is grown may be new, and a new one is a leaf.
          · rename_i same
            obtain rfl := compare_eq_iff.mp same
            cases found
            have start : Grown (fun tail => tail ≠ [] ∧ tails (field :: tail))
                ((Entries.get? field children).getD leaf) := by
              cases there : Entries.get? field children with
              | none => exact grown_leaf _
              | some child => exact below field child there
            apply (ih start).mono
            rintro tail (⟨more, listed⟩ | rfl)
            · exact ⟨more, Or.inl listed⟩
            · exact ⟨longer, Or.inr rfl⟩
          · exact (below field child found).mono fun tail both => ⟨both.1, Or.inl both.2⟩

/-- The paths of an embed specification; its root keeps everything. -/
def FromPaths (paths : List String) (tail : List String) : Prop :=
  tail = [Path.wildcard] ∨ ∃ path ∈ paths, tail = Path.segments path

theorem grown_root (paths : List String) : Grown (FromPaths paths) root := by
  refine .node ?_ (fun _ _ found => by cases found) (fun _ _ found => by cases found)
  intro field inside
  rw [SortedSet.mem_ofList, List.mem_singleton] at inside
  exact ⟨[], Or.inl (by rw [inside])⟩

theorem grown_ofPaths (paths : List String) : Grown (FromPaths paths) (ofPaths paths) := by
  refine List.foldlRecOn paths _ (grown_root paths) fun tree grown path listed => ?_
  apply (grown.insert (Path.segments path)).mono
  rintro tail (before | rfl)
  · exact before
  · exact Or.inr ⟨path, listed, rfl⟩

end EmbedTree

end CachedViews
