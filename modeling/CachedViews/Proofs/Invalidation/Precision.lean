import CachedViews.Proofs.Asking.Answers
import CachedViews.Proofs.Embedding.Declared
import CachedViews.Proofs.Registry.Crossings
import CachedViews.Proofs.Service.Commands

/-!
How far invalidation goes when it looks at the fields that changed: to the views whose type has a
path that takes one of them, and to no other. Paths take fields behind the links that they cross. The
reads of a type hold its own properties as well, so that a change of one of those also reaches the
views of other entities of the type.
-/
namespace CachedViews

namespace Invalidation

open CachedViews.Action

variable {engine : Engine} {world : World} {uuid : Uuid} {changed : ItemType}

/-- The type of an entity, or that of its stored view when it is gone. -/
def changedTypeIn (world : World) (uuid : Uuid) : Option ItemType :=
  match world.write.itemTypeOf uuid with
  | some itemType => some itemType
  | none =>
    match world.read.load uuid with
    | .ok found => found.map View.itemType
    | .error _ => none

theorem changedTypeIn_looked {later : World} (looked : world.Looked later) (uuid : Uuid) :
    changedTypeIn later uuid = changedTypeIn world uuid := by
  obtain ⟨stats, counting⟩ := looked.read
  rw [changedTypeIn, looked.write, counting, World.counted_load, changedTypeIn]

theorem changedType_yields (uuid : Uuid) (world : World) :
    (changedType uuid).Yields (changedTypeIn world uuid) world := by
  refine (itemTypeOf_yields uuid world).bind (itemTypeOf_looks uuid) fun later looked => ?_
  have same := changedTypeIn_looked looked uuid
  cases typed : world.write.itemTypeOf uuid with
  | some itemType =>
    rw [changedTypeIn, typed]
    exact yields_pure _
  | none =>
    rw [← same, changedTypeIn, looked.write, typed]
    intro result after ended
    obtain ⟨found, last, shown, ended⟩ := bind_ok ended
    cases ended
    dsimp only
    rw [orNotFound_view_loads shown]

/-- Whatever a scope holds is reached by one of the fields that its diff names. -/
theorem reaches_of_mem_scope {after : World} {diff : List String} {keys : SortedSet EntityKey}
    (precise : engine.mode = .precise) (typed : changedTypeIn world uuid = some changed)
    (ended : (scope engine uuid (some diff)).on world = (.ok keys, after)) {key : EntityKey}
    (listed : key ∈ keys) :
    reaches engine key.itemType changed
      (FieldDiff.decode engine.registry.contains changed diff) = true := by
  obtain ⟨candidates, middle, found, ended⟩ := bind_ok ended
  dsimp only at ended
  rw [if_neg (by rw [precise]; nofun)] at ended
  obtain ⟨known, last, told, ended⟩ := bind_ok ended
  obtain rfl := changedType_yields uuid middle known last told
  rw [changedTypeIn_looked ((baseline_looks uuid).of_on found), typed] at ended
  dsimp only at ended
  split at ended
  · cases ended
    exact absurd listed (SortedSet.not_mem_empty _)
  · rename_i fields _ decoded
    cases ended
    exact (SortedSet.mem_filter.mp listed).2

theorem reaches_iff (precise : engine.mode = .precise) {dependent : ItemType} {decl : TypeDecl}
    (declared : engine.registry.get? dependent = some decl) (fields : List String) :
    reaches engine dependent changed fields = true ↔
      ∃ field ∈ fields, engine.registry.ReadsBehindLinks dependent changed field ∨
        changed = dependent ∧ engine.registry.ReadsOwn dependent field := by
  obtain ⟨reads, read⟩ : ∃ reads, engine.registry.reads? dependent = some reads :=
    ⟨_, by rw [Registry.reads?, declared]; rfl⟩
  have strict : (engine.mode = .calculatedConservative : Bool) = false := by
    rw [precise]
    rfl
  rw [reaches, read]
  simp only [strict, Bool.false_and, Bool.false_or, List.any_eq_true]
  exact exists_congr fun field => and_congr_right fun _ => Registry.covers_reads_iff read

/-- When fields are looked at, a change reaches a type exactly if one of its paths takes a changed
field, from behind the links that it crosses or as a property of the type itself, and no entity of
another type is in the scope of the change. -/
theorem precise_scope_follows_paths (engine : Engine) (precise : engine.mode = .precise) :
    (∀ dependent decl changed fields, engine.registry.get? dependent = some decl →
        (reaches engine dependent changed fields = true ↔
          ∃ field ∈ fields, engine.registry.ReadsBehindLinks dependent changed field ∨
            changed = dependent ∧ engine.registry.ReadsOwn dependent field)) ∧
      ∀ world uuid changed diff keys after, changedTypeIn world uuid = some changed →
        (scope engine uuid (some diff)).on world = (.ok keys, after) →
          ∀ key ∈ keys, ∀ decl, engine.registry.get? key.itemType = some decl →
            ∃ field ∈ FieldDiff.decode engine.registry.contains changed diff,
              engine.registry.ReadsBehindLinks key.itemType changed field ∨
                changed = key.itemType ∧ engine.registry.ReadsOwn key.itemType field := by
  refine ⟨fun dependent decl changed fields declared => reaches_iff precise declared fields, ?_⟩
  intro world uuid changed diff keys after typed ended key listed decl declared
  exact (reaches_iff precise declared _).mp (reaches_of_mem_scope precise typed ended listed)

/-- Books show the names of their authors and the titles of the books that they continue. -/
def sequels : Registry := .ofDecls [
  .ofName ⟨"Author"⟩,
  ((((TypeDecl.ofName ⟨"Book"⟩).link "author" ⟨"Author"⟩ false).link "sequel" ⟨"Book"⟩ false).embed
    "author.name").embed "sequel.title"]

def scopeOf (registry : Registry) (uuid : Uuid) (diff : List String) (world : World) :
    Option (List EntityKey) :=
  ((scope (.precise registry) uuid (some diff)).on world).1.toOption.map SortedSet.toList

/-- A book and its sequel by the same author, both indexed. -/
def continued : World := Edit.indexed (.precise sequels) [
  .put ⟨1⟩ ⟨"Author"⟩ (.ofText "name" "Ann") none,
  .put ⟨2⟩ ⟨"Author"⟩ (.ofText "name" "Eve") none,
  .put ⟨3⟩ ⟨"Book"⟩ (.ofText "author" (Uuid.text ⟨1⟩)) none,
  .put ⟨4⟩ ⟨"Book"⟩ (SortedMap.ofList [("author", .string (Uuid.text ⟨1⟩)),
    ("sequel", .string (Uuid.text ⟨3⟩))]) none]

/-- The book is given to another author. -/
def reattributed : World :=
  Edit.after (.precise sequels) continued
    (.put ⟨3⟩ ⟨"Book"⟩ (.ofText "author" (Uuid.text ⟨2⟩)) none)

/-- A new name of the author reaches the books, another field does not. -/
theorem author_name_reaches_books :
    reaches (.precise sequels) ⟨"Book"⟩ ⟨"Author"⟩ ["born", "name"] = true ∧
      reaches (.precise sequels) ⟨"Book"⟩ ⟨"Author"⟩ ["born"] = false ∧
      scopeOf sequels ⟨1⟩ ["Author.name"] continued = some [⟨⟨"Book"⟩, ⟨3⟩⟩, ⟨⟨"Book"⟩, ⟨4⟩⟩] ∧
      ∀ keys after, (scope (.precise sequels) ⟨1⟩ (some ["Author.born"])).on continued =
        (.ok keys, after) → ∀ key ∈ keys, key.itemType ≠ ⟨"Book"⟩ := by
  obtain ⟨reached, selected⟩ := precise_scope_follows_paths (.precise sequels) rfl
  have known : ∃ decl, sequels.get? ⟨"Book"⟩ = some decl :=
    Option.isSome_iff_exists.mp (by decide +kernel)
  obtain ⟨decl, declared⟩ := known
  refine ⟨(reached _ decl _ _ declared).mpr ⟨"name", by decide, by decide +kernel⟩, ?_,
    by decide +kernel, ?_⟩
  · exact Bool.eq_false_iff.mpr fun held =>
      absurd ((reached _ decl _ _ declared).mp held) (by decide +kernel)
  · intro keys after ended key listed book
    have taken := selected continued ⟨1⟩ ⟨"Author"⟩ ["Author.born"] keys after (by decide +kernel)
      ended key listed decl (book ▸ declared)
    rw [book] at taken
    exact absurd taken (by decide +kernel)

/-- A path of books takes the names of their authors and the titles of what they continue, and
nothing else from behind a link. Yet the book's new author reaches the sequel, since a path of books
starts with that property, and a property that only begins like the name is taken for it. -/
theorem reattribution_reaches_sequel :
    ¬ sequels.ReadsBehindLinks ⟨"Book"⟩ ⟨"Book"⟩ "author" ∧
      reaches (.precise sequels) ⟨"Book"⟩ ⟨"Book"⟩ ["author"] = true ∧
      scopeOf sequels ⟨3⟩ ["Book.author"] reattributed = some [⟨⟨"Book"⟩, ⟨4⟩⟩] ∧
      (∀ path ∈ sequels.readPaths ⟨"Book"⟩, ∀ place ∈ sequels.crossings ⟨"Book"⟩ path.2,
        place.1 = ⟨"Author"⟩ → place.2 = ["name"]) ∧
      reaches (.precise sequels) ⟨"Book"⟩ ⟨"Author"⟩ ["name.first"] = true := by
  refine ⟨?_, ?_, ?_, ?_, ?_⟩ <;> decide +kernel

end Invalidation

end CachedViews
