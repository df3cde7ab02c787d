import CachedViews.Proofs.Embedding.Stores
import CachedViews.Registry.Calculation

/-!
Registries of given declarations. What is assumed of a registry can be checked on the
declarations that went into it, and the ready-made calculations are pure.
-/
namespace CachedViews

namespace Calculation

variable {inputs inputs' : CalculatedInputs}

theorem plain_get? (agreed : Json.plainEntries inputs.entries = Json.plainEntries inputs'.entries)
    (path : String) : (inputs.get? path).map Json.plain = (inputs'.get? path).map Json.plain := by
  rw [SortedMap.get?, SortedMap.get?, ← Json.get?_plainEntries, ← Json.get?_plainEntries, agreed]

theorem isNull_plain (value : Json) : isNull value.plain = isNull value := by
  cases value <;> rfl

theorem textOrMark_plain (value : Option Json) :
    textOrMark (value.map Json.plain) = textOrMark value := by
  cases value with
  | none => rfl
  | some value => exact congrArg (fun text => Option.getD text "?") (Json.text?_plain value)

theorem filled_plain (inputs : CalculatedInputs) :
    (inputs.values.filter fun value => !isNull value).length =
      ((Json.plainEntries inputs.entries).filter fun entry => !isNull entry.2).length := by
  rw [Json.plainEntries_eq_map, SortedMap.values, List.filter_map, List.filter_map,
    List.length_map, List.length_map]
  simp [Function.comp_def, isNull_plain]

/-- Ready-made calculations see no difference between the two zeros. -/
theorem compute_agrees (calculation : Calculation) (dependsOn : List String)
    {own own' : Properties} (same : Json.plainEntries own.entries = Json.plainEntries own'.entries)
    (agreed : Json.plainEntries inputs.entries = Json.plainEntries inputs'.entries) :
    (calculation.compute dependsOn own inputs).plain =
      (calculation.compute dependsOn own' inputs').plain := by
  have value := plain_get? agreed (dependsOn.headD "")
  -- Each calculation looks at texts, at nulls or at nothing below the values it passes on.
  cases calculation with
  | first =>
    have shown : ∀ value : Option Json, (value.getD .null).plain =
        (value.map Json.plain).getD .null := by
      rintro (_ | value) <;> rfl
    simp only [compute]
    rw [shown, shown, value]
  | inputs => exact congrArg Json.object agreed
  | own => exact congrArg Json.object same
  | count =>
    simp only [compute]
    rw [filled_plain, filled_plain, agreed]
  | title =>
    have name := plain_get? same "name"
    simp only [compute]
    rw [← textOrMark_plain (own.get? "name"), ← textOrMark_plain (inputs.get? _), name, value,
      textOrMark_plain, textOrMark_plain]

end Calculation

namespace Embedding

instance decidableNamed (registry : Registry) (followLast : Bool) :
    (current : ItemType) → (path : List String) → Decidable (Named registry followLast current path)
  | _, [] => isTrue trivial
  | current, segment :: rest =>
    have : ∀ target, Decidable (Named registry followLast target rest) :=
      fun target => decidableNamed registry followLast target rest
    inferInstanceAs (Decidable (_ ∧ ∀ target ∈ registry.linkTarget? current segment,
      Named registry followLast target rest))

end Embedding

namespace Registry

variable {registry : Registry} {decls : List TypeDecl} {itemType : ItemType} {decl : TypeDecl}

/-- Registers a declaration unless it is refused. -/
def withDecl (registry : Registry) (decl : TypeDecl) : Registry :=
  match registry.register decl with
  | .ok next => next
  | .error _ => registry

/-- The registry of some declarations, in their order. -/
def ofDecls (decls : List TypeDecl) : Registry := decls.foldl withDecl ∅

theorem built_withDecl (built : registry.Built) (decl : TypeDecl) : (registry.withDecl decl).Built := by
  unfold withDecl
  split
  · exact .register built ‹_›
  · exact built

theorem built_ofDecls (decls : List TypeDecl) : (ofDecls decls).Built := by
  have fold : ∀ (decls : List TypeDecl) (registry : Registry), registry.Built →
      (decls.foldl withDecl registry).Built := by
    intro decls
    induction decls with
    | nil => exact fun _ built => built
    | cons first rest ih => exact fun _ built => ih _ (built_withDecl built first)
  exact fold decls ∅ .empty

theorem get?_withDecl (found : (registry.withDecl decl).get? itemType = some added) :
    (added = decl ∧ itemType = decl.name) ∨ registry.get? itemType = some added := by
  unfold withDecl at found
  split at found
  · rename_i registered
    rw [get?_of_register registered] at found
    split at found
    · cases found
      exact Or.inl ⟨rfl, ‹_›⟩
    · exact Or.inr found
  · exact Or.inr found

/-- A registry knows nothing but what was declared. -/
theorem mem_of_get?_ofDecls (found : (ofDecls decls).get? itemType = some decl) :
    decl ∈ decls ∧ itemType = decl.name := by
  have fold : ∀ (decls : List TypeDecl) (registry : Registry),
      (decls.foldl withDecl registry).get? itemType = some decl →
        (decl ∈ decls ∧ itemType = decl.name) ∨ registry.get? itemType = some decl := by
    intro decls
    induction decls with
    | nil => exact fun _ found => Or.inr found
    | cons first rest ih =>
      intro registry found
      rcases ih _ found with ⟨listed, named⟩ | before
      · exact Or.inl ⟨List.mem_cons_of_mem _ listed, named⟩
      · refine (get?_withDecl before).imp_left ?_
        rintro ⟨rfl, named⟩
        exact ⟨List.mem_cons_self, named⟩
  exact (fold decls ∅ found).resolve_right nofun

/-- A registry is pure when all its calculations are ready-made. -/
theorem pure_ofDecls (ready : ∀ decl ∈ decls, ∀ field ∈ decl.calculated,
    ∃ calculation : Calculation, field.compute = calculation.compute field.dependsOn) :
    (ofDecls decls).Pure := by
  intro itemType field listed own own' inputs inputs' same agreed
  unfold calculated at listed
  split at listed
  · rename_i decl found
    obtain ⟨calculation, computes⟩ := ready decl (mem_of_get?_ofDecls found).1 field listed
    rw [computes]
    exact calculation.compute_agrees _ same agreed
  · cases listed

instance decidableNestsPlainly (registry : Registry) :
    (current : ItemType) → (path : List String) → Decidable (registry.NestsPlainly current path)
  | _, [] => isTrue trivial
  | current, segment :: rest =>
    match found : registry.linkTarget? current segment with
    | some target =>
      have := decidableNestsPlainly registry target rest
      decidable_of_iff (registry.NestsPlainly target rest) (by rw [NestsPlainly, found])
    | none =>
      decidable_of_iff (∀ later ∈ rest, registry.isLink current later = false)
        (by rw [NestsPlainly, found])

instance (registry : Registry) (itemType : ItemType) : Decidable (registry.NestedApart itemType) :=
  inferInstanceAs (Decidable (∀ path ∈ Embedding.calculatedPaths registry itemType,
    registry.NestsPlainly itemType (Path.segments path)))

instance (registry : Registry) (itemType : ItemType) : Decidable (registry.WildcardApart itemType) :=
  inferInstanceAs (Decidable (∀ path ∈ Embedding.calculatedPaths registry itemType,
    Embedding.Named registry true itemType (Path.segments path)))

/-- Types without a declaration calculate nothing. -/
theorem nestedApart_ofDecls
    (each : ∀ decl ∈ decls, (ofDecls decls).NestedApart decl.name) (itemType : ItemType) :
    (ofDecls decls).NestedApart itemType := by
  cases found : (ofDecls decls).get? itemType with
  | none =>
    intro path listed
    rw [Embedding.calculatedPaths, calculated, found] at listed
    cases listed
  | some decl =>
    obtain ⟨listed, rfl⟩ := mem_of_get?_ofDecls found
    exact each decl listed

/-- Books show the names of their authors, as such and in a label. -/
def books : Registry := ofDecls [
  .ofName ⟨"Author"⟩,
  (((TypeDecl.ofName ⟨"Book"⟩).link "author" ⟨"Author"⟩ false).embed "author.name").calculate
    (Calculation.title.field "label" ["author.name"])]

theorem books_pure : books.Pure :=
  pure_ofDecls <| List.forall_mem_cons.mpr ⟨nofun,
    List.forall_mem_singleton.mpr (List.forall_mem_singleton.mpr ⟨.title, rfl⟩)⟩

theorem books_nestedApart : ∀ itemType, books.NestedApart itemType :=
  nestedApart_ofDecls (by decide +kernel)

/-- Shelves show what their boxes hold, through a link that is named like the wildcard. -/
def boxes : Registry := ofDecls [
  .ofName ⟨"Item"⟩,
  (TypeDecl.ofName ⟨"Box"⟩).link "*" ⟨"Item"⟩ false,
  ((TypeDecl.ofName ⟨"Shelf"⟩).link "box" ⟨"Box"⟩ false).calculate
    (Calculation.first.field "shown" ["box.*"])]

theorem boxes_pure : boxes.Pure :=
  pure_ofDecls <| List.forall_mem_cons.mpr ⟨nofun, List.forall_mem_cons.mpr ⟨nofun,
    List.forall_mem_singleton.mpr (List.forall_mem_singleton.mpr ⟨.first, rfl⟩)⟩⟩

theorem boxes_nestedApart : ∀ itemType, boxes.NestedApart itemType :=
  nestedApart_ofDecls (by decide +kernel)

end Registry

/-- An engine that looks at the fields that changed, with no waits between attempts. -/
def Engine.precise (registry : Registry) : Engine :=
  ⟨registry, .precise, Config.development.pipeline, .ascending⟩

/-- A sheet with one text. -/
def Properties.ofText (field text : String) : Properties := SortedMap.ofList [(field, .string text)]

namespace WriteStore

/-- Whether links are well typed can be seen on the entities that are there. -/
theorem wellTyped_iff (registry : Registry) (store : WriteStore) :
    WellTyped registry store ↔ ∀ uuid ∈ store.rows.keys, ∀ record ∈ store.record? uuid,
      ∀ link ∈ record.links.toList, ∀ itemType ∈ registry.linkTarget? record.itemType link.field,
        ∀ target ∈ store.record? link.target, target.itemType = itemType := by
  refine ⟨fun typed uuid _ => typed uuid, fun typed uuid record found => ?_⟩
  obtain ⟨row, -, stored, -⟩ := row_of_record? found
  exact typed uuid (List.mem_map.mpr ⟨_, (store.rows.mem_entries_iff uuid row).mpr stored, rfl⟩)
    record found

instance (registry : Registry) (store : WriteStore) : Decidable (WellTyped registry store) :=
  decidable_of_iff _ (wellTyped_iff registry store).symm

end WriteStore

end CachedViews
