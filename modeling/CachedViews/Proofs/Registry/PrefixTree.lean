import CachedViews.Proofs.Registry.Grammar

/-!
The embed tree of some paths is their prefix tree. It has a node at each beginning that a path goes
on from, and a node keeps what paths name next. A tree is determined by its nodes and what they
name, so neither the order of the paths nor their repetition matters.
-/
namespace CachedViews

namespace EmbedTree

/-- The node that some steps from the root lead to. -/
def node? : EmbedTree → List String → Option EmbedTree
  | tree, [] => some tree
  | tree, segment :: rest => (tree.child? segment).bind fun child => node? child rest

@[simp] theorem node?_nil (tree : EmbedTree) : tree.node? [] = some tree := rfl

theorem node?_cons (tree : EmbedTree) (segment : String) (rest : List String) :
    tree.node? (segment :: rest) = (tree.child? segment).bind fun child => child.node? rest := rfl

/-- The node at `before` names `field`. -/
def Names (tree : EmbedTree) (before : List String) (field : String) : Prop :=
  ∃ node, tree.node? before = some node ∧ field ∈ node.fields

theorem names_cons {tree child : EmbedTree} {segment field : String} {before : List String}
    (found : tree.child? segment = some child) :
    tree.Names (segment :: before) field ↔ child.Names before field := by
  rw [Names, node?_cons, found]
  rfl

theorem keeps_iff {tree : EmbedTree} {field : String} :
    tree.keeps field = true ↔ field ∈ tree.fields ∨ Path.wildcard ∈ tree.fields := by
  simp [keeps, keepsAll, SortedSet.contains, or_comm]

section Insertion

variable {segment other field : String} {before path rest : List String} {tree : EmbedTree}

theorem fields_insert (segment : String) (rest : List String) (tree : EmbedTree) :
    (insert (segment :: rest) tree).fields = tree.fields.insert segment := by
  cases tree
  rw [insert]
  split <;> rfl

theorem child?_insert_of_ends (ends : rest = [] ∨ segment = Path.wildcard) :
    (insert (segment :: rest) tree).child? other = tree.child? other := by
  cases tree
  rw [insert, if_pos ends]
  rfl

theorem child?_insert_of_expands (expands : ¬ (rest = [] ∨ segment = Path.wildcard)) :
    (insert (segment :: rest) tree).child? other =
      if other = segment then some (insert rest ((tree.child? segment).getD leaf))
      else tree.child? other := by
  cases tree
  rw [insert, if_neg expands]
  simp only [child?, children, Entries.get?_insert, compare_eq_iff]

theorem getD_node?_leaf (before : List String) : (leaf.node? before).getD leaf = leaf := by
  cases before <;> rfl

/-- Where a path passes, the rest of it goes to the node there, which may be a new one. -/
theorem node?_insert_passing (last : Path.WildcardLast (before ++ rest)) (more : rest ≠ []) :
    (insert (before ++ rest) tree).node? before =
      some (insert rest ((tree.node? before).getD leaf)) := by
  induction before generalizing tree with
  | nil => rfl
  | cons segment before ih =>
    -- A wildcard would end the path, and this one goes on.
    have behind : before ++ rest ≠ [] := List.append_ne_nil_of_right_ne_nil before more
    have expands : ¬ (before ++ rest = [] ∨ segment = Path.wildcard) :=
      not_or.mpr ⟨behind, fun wild => behind (last.1 wild)⟩
    rw [List.cons_append, node?_cons, child?_insert_of_expands expands, if_pos rfl,
      Option.bind_some, ih last.2, node?_cons]
    cases tree.child? segment with
    | none => rw [Option.getD_none, getD_node?_leaf, Option.bind_none, Option.getD_none]
    | some child => rfl

/-- Elsewhere the tree is as it was. -/
theorem node?_insert_aside (aside : ∀ rest, rest ≠ [] → path ≠ before ++ rest) :
    (insert path tree).node? before = tree.node? before := by
  induction path generalizing before tree with
  | nil => rw [insert]
  | cons segment path ih =>
    cases before with
    | nil => exact absurd rfl (aside _ (List.cons_ne_nil segment path))
    | cons first before =>
      rw [node?_cons, node?_cons]
      by_cases ends : path = [] ∨ segment = Path.wildcard
      · rw [child?_insert_of_ends ends]
      · rw [child?_insert_of_expands ends]
        split
        · rename_i same
          subst same
          have below : ∀ rest, rest ≠ [] → path ≠ before ++ rest := fun rest more same =>
            aside rest more (congrArg (first :: ·) same)
          rw [Option.bind_some, ih below]
          cases tree.child? first with
          | some child => rfl
          | none =>
            -- A new child is where the path passes, so `before` goes on below it.
            cases before with
            | nil => exact absurd rfl (below path fun none => ends (Or.inl none))
            | cons _ _ => rfl
        · rfl

theorem isSome_node?_insert (last : Path.WildcardLast path) :
    ((insert path tree).node? before).isSome = true ↔
      (tree.node? before).isSome = true ∨ ∃ more, more ≠ [] ∧ before ++ more <+: path := by
  by_cases passes : ∃ rest, rest ≠ [] ∧ path = before ++ rest
  · obtain ⟨rest, more, rfl⟩ := passes
    rw [node?_insert_passing last more]
    exact iff_of_true rfl (Or.inr ⟨rest, more, List.prefix_rfl⟩)
  · rw [node?_insert_aside fun rest more same => passes ⟨rest, more, same⟩]
    refine (or_iff_left ?_).symm
    rintro ⟨more, some, behind, rfl⟩
    exact passes ⟨more ++ behind, List.append_ne_nil_of_left_ne_nil some behind,
      List.append_assoc before more behind⟩

theorem names_insert (last : Path.WildcardLast path) :
    (insert path tree).Names before field ↔
      tree.Names before field ∨ before ++ [field] <+: path := by
  by_cases passes : ∃ rest, rest ≠ [] ∧ path = before ++ rest
  · obtain ⟨rest, more, rfl⟩ := passes
    obtain ⟨segment, rest, rfl⟩ := List.exists_cons_of_ne_nil more
    have step : before ++ [field] <+: before ++ segment :: rest ↔ field = segment := by
      rw [List.prefix_append_right_inj, List.cons_prefix_cons]
      exact and_iff_left List.nil_prefix
    rw [step, Names, Names, node?_insert_passing last more]
    cases tree.node? before with
    | none =>
      have empty : field ∉ leaf.fields := SortedSet.not_mem_empty field
      simp [fields_insert, empty]
    | some node => simp [fields_insert, or_comm]
  · rw [Names, Names, node?_insert_aside fun rest more same => passes ⟨rest, more, same⟩]
    refine (or_iff_left ?_).symm
    rintro ⟨behind, rfl⟩
    exact passes ⟨field :: behind, List.cons_ne_nil _ _, by rw [List.append_assoc]; rfl⟩

end Insertion

section Form

/-- At each node the children stand in the order of their fields. -/
inductive Sorted : EmbedTree → Prop where
  | node {fields : SortedSet String} {children : List (String × EmbedTree)}
      (sorted : Entries.Sorted children)
      (below : ∀ field child, Entries.get? field children = some child → Sorted child) :
      Sorted (.node fields children)

theorem sorted_leaf : leaf.Sorted := .node Entries.sorted_nil fun _ _ found => by cases found

theorem Sorted.insert {tree : EmbedTree} (sorted : tree.Sorted) (path : List String) :
    (insert path tree).Sorted := by
  induction path generalizing tree with
  | nil => rwa [EmbedTree.insert]
  | cons segment rest ih =>
    cases sorted with
    | @node fields children sorted below =>
      rw [EmbedTree.insert]
      split
      · exact .node sorted below
      · refine .node (Entries.sorted_insert _ _ sorted) ?_
        intro field child found
        rw [Entries.get?_insert] at found
        split at found
        · cases found
          apply ih
          cases there : Entries.get? segment children with
          | none => exact sorted_leaf
          | some child => exact below segment child there
        · exact below field child found

theorem sorted_ofPaths (paths : List String) : (ofPaths paths).Sorted :=
  List.foldlRecOn paths _ (.node Entries.sorted_nil fun _ _ found => by cases found)
    fun _ sorted path _ => sorted.insert (Path.segments path)

/-- The same nodes, and at each of them the same fields. -/
structure Alike (left right : EmbedTree) : Prop where
  nodes : ∀ before, (left.node? before).isSome = (right.node? before).isSome
  names : ∀ before field, left.Names before field ↔ right.Names before field

theorem Alike.fields {left right : EmbedTree} (alike : left.Alike right) :
    left.fields = right.fields :=
  SortedSet.ext_mem fun field => by simpa [Names] using alike.names [] field

theorem Alike.isSome_child? {left right : EmbedTree} (alike : left.Alike right) (field : String) :
    (left.child? field).isSome = (right.child? field).isSome := by
  simpa [node?_cons] using alike.nodes [field]

theorem Alike.child {left right child other : EmbedTree} (alike : left.Alike right)
    {field : String} (found : left.child? field = some child)
    (held : right.child? field = some other) : child.Alike other where
  nodes before := by simpa [node?_cons, found, held] using alike.nodes (field :: before)
  names before name := by
    rw [← names_cons found, ← names_cons held]
    exact alike.names (field :: before) name

/-- Sorted trees that are alike are the same tree. -/
theorem Sorted.eq_of_alike {left right : EmbedTree} (leftSorted : left.Sorted)
    (rightSorted : right.Sorted) (alike : left.Alike right) : left = right := by
  induction leftSorted generalizing right with
  | @node fields children sorted below ih =>
    cases rightSorted with
    | @node others grown sortedRight belowRight =>
      have sameFields : fields = others := alike.fields
      have sameChildren : children = grown := by
        refine Entries.eq_of_get? sorted sortedRight fun field => ?_
        have there : (Entries.get? field children).isSome = (Entries.get? field grown).isSome :=
          alike.isSome_child? field
        cases found : Entries.get? field children with
        | none =>
          rw [found] at there
          exact (Option.isNone_iff_eq_none.mp (Option.isSome_eq_false_iff.mp there.symm)).symm
        | some child =>
          rw [found] at there
          obtain ⟨other, held⟩ := Option.isSome_iff_exists.mp there.symm
          rw [held, ih field child found (belowRight field other held) (alike.child found held)]
      rw [sameFields, sameChildren]

end Form

section Paths

/-- Some path begins with these steps. -/
def Begins (paths : List String) (steps : List String) : Prop :=
  ∃ path ∈ paths, steps <+: Path.segments path

instance (paths steps : List String) : Decidable (Begins paths steps) :=
  inferInstanceAs (Decidable (∃ path ∈ paths, steps <+: Path.segments path))

variable {paths : List String}

theorem isSome_node?_ofPaths (formed : ∀ path ∈ paths, Path.WildcardLast (Path.segments path))
    (before : List String) : ((ofPaths paths).node? before).isSome = true ↔
      before = [] ∨ ∃ more, more ≠ [] ∧ Begins paths (before ++ more) := by
  refine (foldl_iff_or (fun tree => (tree.node? before).isSome = true)
    (fun path listed tree => isSome_node?_insert (formed path listed)) root).trans ?_
  have atRoot : (root.node? before).isSome = true ↔ before = [] := by
    cases before with
    | nil => simp
    | cons segment rest => exact iff_of_false Bool.false_ne_true (List.cons_ne_nil segment rest)
  refine or_congr atRoot ?_
  constructor
  · rintro ⟨path, listed, more, some, passes⟩
    exact ⟨more, some, path, listed, passes⟩
  · rintro ⟨more, some, path, listed, passes⟩
    exact ⟨path, listed, more, some, passes⟩

theorem names_ofPaths (formed : ∀ path ∈ paths, Path.WildcardLast (Path.segments path))
    (before : List String) (field : String) : (ofPaths paths).Names before field ↔
      before = [] ∧ field = Path.wildcard ∨ Begins paths (before ++ [field]) := by
  refine (foldl_iff_or (fun tree => tree.Names before field)
    (fun path listed tree => names_insert (formed path listed)) root).trans ?_
  refine or_congr_left ?_
  cases before with
  | nil => simp [Names, root, fields]
  | cons segment rest => simp [Names, node?_cons, root, child?, children, Entries.get?]

/-- Only the set of the paths matters. -/
theorem ofPaths_eq_of_mem_iff (formed : ∀ path ∈ paths, Path.WildcardLast (Path.segments path))
    {others : List String} (same : ∀ path, path ∈ others ↔ path ∈ paths) :
    ofPaths others = ofPaths paths := by
  have formedOthers : ∀ path ∈ others, Path.WildcardLast (Path.segments path) :=
    fun path listed => formed path ((same path).mp listed)
  have begins : ∀ steps, Begins others steps ↔ Begins paths steps := fun steps =>
    exists_congr fun path => and_congr_left fun _ => same path
  refine (sorted_ofPaths others).eq_of_alike (sorted_ofPaths paths) ⟨?_, ?_⟩
  · intro before
    rw [Bool.eq_iff_iff, isSome_node?_ofPaths formedOthers, isSome_node?_ofPaths formed]
    simp only [begins]
  · intro before field
    rw [names_ofPaths formedOthers, names_ofPaths formed, begins]

/-- The tree of some grammatical paths has a node at its root and wherever a path goes on. Below
the root a node keeps the fields that paths name there, and every field where one ends in a
wildcard; the root keeps every field. The same paths in another order, or some of them repeated,
make the same tree. -/
theorem prefix_tree_of_paths (paths : List String)
    (grammatical : ∀ path ∈ paths, Path.Grammatical path) :
    (∀ before, ((ofPaths paths).node? before).isSome = true ↔
      before = [] ∨ ∃ more, more ≠ [] ∧ Begins paths (before ++ more)) ∧
    (∀ before node field, before ≠ [] → (ofPaths paths).node? before = some node →
      (node.keeps field = true ↔
        Begins paths (before ++ [field]) ∨ Begins paths (before ++ [Path.wildcard]))) ∧
    (∀ field, (ofPaths paths).keeps field = true) ∧
    ∀ others, (∀ path, path ∈ others ↔ path ∈ paths) → ofPaths others = ofPaths paths := by
  have formed : ∀ path ∈ paths, Path.WildcardLast (Path.segments path) := fun path listed =>
    Path.wildcardLast_of_wellFormed (Path.wellFormed_iff_grammatical.mpr (grammatical path listed))
  refine ⟨isSome_node?_ofPaths formed, ?_, ?_, fun others => ofPaths_eq_of_mem_iff formed⟩
  · intro before node field deep found
    have named : ∀ name, name ∈ node.fields ↔ Begins paths (before ++ [name]) := fun name => by
      have there := names_ofPaths formed before name
      simpa [Names, found, deep] using there
    rw [keeps_iff, named, named]
  · intro field
    have named := (names_ofPaths formed [] Path.wildcard).mpr (Or.inl ⟨rfl, rfl⟩)
    obtain ⟨node, found, listed⟩ := named
    cases found
    exact keeps_iff.mpr (Or.inr listed)

/-- Books that show their author's name and all of their author's publisher. -/
theorem author_paths_in_any_order :
    let paths := ["author.name", "author.publisher.*"]
    let tree := ofPaths paths
    (∀ path ∈ paths, Path.Grammatical path) ∧
      ofPaths ["author.publisher.*", "author.name", "author.publisher.*"] = tree ∧
      (tree.node? ["author", "name"]).isSome = false ∧
      (∃ author, tree.node? ["author"] = some author ∧ author.keeps "publisher" = true ∧
        author.keeps "born" = false) ∧
      ∃ publisher, tree.node? ["author", "publisher"] = some publisher ∧
        ∀ field, publisher.keeps field = true := by
  intro paths tree
  have grammatical : ∀ path ∈ paths, Path.Grammatical path := fun path listed =>
    Path.wellFormed_iff_grammatical.mp (by revert path; decide)
  obtain ⟨nodes, keeping, -, sameTree⟩ := prefix_tree_of_paths paths grammatical
  refine ⟨grammatical, sameTree _ (by simp [paths, or_comm]), by decide, ?_, ?_⟩
  · obtain ⟨author, found⟩ := Option.isSome_iff_exists.mp
      ((nodes ["author"]).mpr (Or.inr ⟨["name"], by decide, by decide⟩))
    have kept := fun field => keeping _ author field (List.cons_ne_nil _ _) found
    exact ⟨author, found, (kept _).mpr (by decide),
      Bool.eq_false_iff.mpr fun held => absurd ((kept _).mp held) (by decide)⟩
  · obtain ⟨publisher, found⟩ := Option.isSome_iff_exists.mp
      ((nodes ["author", "publisher"]).mpr (Or.inr ⟨["*"], by decide, by decide⟩))
    have kept := fun field => keeping _ publisher field (List.cons_ne_nil _ _) found
    exact ⟨publisher, found, fun field => (kept field).mpr (Or.inr (by decide))⟩

end Paths

end EmbedTree

end CachedViews
