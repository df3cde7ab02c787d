import CachedViews.Embedding.Resolve
import CachedViews.Proofs.Sorted

/-!
Links of a sheet. A sheet whose links can be extracted holds identifiers only where its type
declares links, and its links are the identifiers that embedding follows.
-/
namespace CachedViews

/-- A run over a list that ends well gives one result for each member, in order. -/
theorem mapM_ok {α β ε : Type} {f : α → Except ε β} {members : List α} {results : List β}
    (ended : members.mapM f = .ok results) : members.map f = results.map .ok := by
  induction members generalizing results with
  | nil =>
    cases ended
    rfl
  | cons first rest ih =>
    rw [List.mapM_cons] at ended
    cases head : f first with
    | error error => rw [head] at ended; cases ended
    | ok result =>
      cases tail : rest.mapM f with
      | error error => rw [head, tail] at ended; cases ended
      | ok others =>
        rw [head, tail] at ended
        cases ended
        simp [head, ih tail]

theorem mem_of_mapM_ok {α β ε : Type} {f : α → Except ε β} {members : List α} {results : List β}
    (ended : members.mapM f = .ok results) (result : β) :
    result ∈ results ↔ ∃ member ∈ members, f member = .ok result := by
  have mapped := mapM_ok ended
  have lifted : result ∈ results ↔ Except.ok result ∈ results.map (Except.ok (ε := ε)) := by simp
  rw [lifted, ← mapped, List.mem_map]

theorem mapM_ok_of_mem {α β ε : Type} {f : α → Except ε β} {members : List α} {results : List β}
    (ended : members.mapM f = .ok results) {member : α} (listed : member ∈ members) :
    ∃ result ∈ results, f member = .ok result := by
  have inside : f member ∈ results.map .ok := mapM_ok ended ▸ List.mem_map_of_mem listed
  obtain ⟨result, found, same⟩ := List.mem_map.mp inside
  exact ⟨result, found, same.symm⟩

namespace Json

/-- What a declared link may hold: nothing, one text, or a list of texts. -/
def holdsLinks : Json → Bool
  | .null => true
  | .string _ => true
  | .array items => items.all fun item => item.text?.isSome
  | _ => false

/-- Nothing, one identifier, or a list of identifiers. -/
def namesLinks : Json → Bool
  | .null => true
  | .string raw => (Uuid.parse? raw).isSome
  | .array items => items.all fun item => (item.text? >>= Uuid.parse?).isSome
  | _ => false

theorem holdsLinks_of_namesLinks {value : Json} (names : value.namesLinks = true) :
    value.holdsLinks = true := by
  cases value with
  | array items =>
    refine List.all_eq_true.mpr fun item listed => ?_
    have named := List.all_eq_true.mp names item listed
    cases text : item.text? with
    | none =>
      rw [text] at named
      cases named
    | some raw => rfl
  | null => rfl
  | string _ => rfl
  | bool _ => cases names
  | integer _ => cases names
  | double _ => cases names
  | object _ => cases names

end Json

namespace TypeDecl

open CachedViews.Embedding (linkTargets)

variable {decl : TypeDecl} {field : String}

theorem linkTo_ok {raw : String} {link : Link} (ended : decl.linkTo field raw = .ok link) :
    Uuid.parse? raw = some link.target ∧ link.field = field := by
  unfold linkTo at ended
  split at ended
  · rename_i parsed
    cases ended
    exact ⟨parsed, rfl⟩
  · cases ended

theorem linkItem_ok {item : Json} {link : Link} (ended : decl.linkItem field item = .ok link) :
    item.text? >>= Uuid.parse? = some link.target ∧ link.field = field := by
  cases item <;> try cases ended
  exact linkTo_ok ended

theorem linksOfItems_ok {items : List Json} {links : List Link}
    (ended : items.mapM (decl.linkItem field) = .ok links) :
    (Json.array items).namesLinks = true ∧
      links = (linkTargets (some (.array items))).map (⟨field, ·⟩) := by
  induction items generalizing links with
  | nil =>
    cases ended
    exact ⟨rfl, rfl⟩
  | cons first rest ih =>
    rw [List.mapM_cons] at ended
    cases head : decl.linkItem field first with
    | error error => rw [head] at ended; cases ended
    | ok link =>
      cases tail : rest.mapM (decl.linkItem field) with
      | error error => rw [head, tail] at ended; cases ended
      | ok others =>
        rw [head, tail] at ended
        cases ended
        obtain ⟨named, same⟩ := ih tail
        obtain ⟨parsed, here⟩ := linkItem_ok head
        constructor
        · simp only [Json.namesLinks, List.all_cons, parsed, Option.isSome_some, Bool.true_and]
          exact named
        · simp only [linkTargets, List.filterMap_cons, parsed, List.map_cons] at same ⊢
          rw [← same, ← here]

theorem linksOfValue_ok {many : Bool} {value : Json} {links : List Link}
    (ended : decl.linksOfValue field many value = .ok links) :
    value.namesLinks = true ∧ links = (linkTargets (some value)).map (⟨field, ·⟩) := by
  unfold linksOfValue at ended
  split at ended
  · cases ended
    exact ⟨rfl, rfl⟩
  · rename_i raw
    cases made : decl.linkTo field raw with
    | error error => rw [made] at ended; cases ended
    | ok link =>
      rw [made] at ended
      cases ended
      obtain ⟨parsed, here⟩ := linkTo_ok made
      refine ⟨by simp [Json.namesLinks, parsed], ?_⟩
      simp [linkTargets, parsed, ← here]
  · exact linksOfItems_ok ended
  · cases ended

/-- A sheet's links, read off its declared link properties. -/
theorem mem_extractLinks {properties : Properties} {links : SortedSet Link}
    (ended : decl.extractLinks properties = .ok links) (link : Link) :
    link ∈ links ↔
      decl.isLink link.field = true ∧ link.target ∈ linkTargets (properties.get? link.field) := by
  cases lists : decl.links.entries.mapM (decl.linksOfField properties) with
  | error error =>
    rw [extractLinks, lists] at ended
    cases ended
  | ok found =>
    rw [extractLinks, lists] at ended
    cases ended
    rw [SortedSet.mem_ofList, List.mem_flatten]
    -- One list of links for each declared property, whether or not the sheet has it.
    constructor
    · rintro ⟨list, listed, inside⟩
      obtain ⟨⟨field, declared⟩, entry, made⟩ := (mem_of_mapM_ok lists list).mp listed
      have known := (decl.links.mem_entries_iff field declared).mp entry
      cases held : properties.get? field with
      | none =>
        simp only [linksOfField, held] at made
        cases made
        cases inside
      | some value =>
        simp only [linksOfField, held] at made
        obtain ⟨-, rfl⟩ := linksOfValue_ok made
        obtain ⟨target, reached, rfl⟩ := List.mem_map.mp inside
        exact ⟨by simp [isLink, SortedMap.contains, known], by simpa [held] using reached⟩
    · rintro ⟨declared, reached⟩
      obtain ⟨linkDecl, known⟩ := Option.isSome_iff_exists.mp declared
      have entry := (decl.links.mem_entries_iff link.field linkDecl).mpr known
      obtain ⟨list, listed, made⟩ := mapM_ok_of_mem lists entry
      refine ⟨list, listed, ?_⟩
      cases held : properties.get? link.field with
      | none => simp [held, linkTargets] at reached
      | some value =>
        simp only [linksOfField, held] at made
        obtain ⟨-, rfl⟩ := linksOfValue_ok made
        exact List.mem_map.mpr ⟨link.target, by simpa [held] using reached, rfl⟩

theorem namesLinks_of_extractLinks {properties : Properties} {links : SortedSet Link}
    (ended : decl.extractLinks properties = .ok links) (declared : decl.isLink field = true)
    {value : Json} (held : properties.get? field = some value) : value.namesLinks = true := by
  cases lists : decl.links.entries.mapM (decl.linksOfField properties) with
  | error error =>
    rw [extractLinks, lists] at ended
    cases ended
  | ok found =>
    obtain ⟨linkDecl, known⟩ := Option.isSome_iff_exists.mp declared
    have entry := (decl.links.mem_entries_iff field linkDecl).mpr known
    obtain ⟨list, -, made⟩ := mapM_ok_of_mem lists entry
    simp only [linksOfField, held] at made
    exact (linksOfValue_ok made).1

theorem holdsLinks_of_extractLinks {properties : Properties} {links : SortedSet Link}
    (ended : decl.extractLinks properties = .ok links) (declared : decl.isLink field = true)
    {value : Json} (held : properties.get? field = some value) : value.holdsLinks = true :=
  Json.holdsLinks_of_namesLinks (namesLinks_of_extractLinks ended declared held)

/-- The parts of a write that are made from a sheet. -/
theorem entityWrite_ok {properties : Properties} {write : EntityWrite}
    (ended : decl.entityWrite properties = .ok write) :
    write.properties = properties ∧ write.sheets = {} ∧
      decl.extractLinks properties = .ok write.links := by
  cases made : decl.extractLinks properties with
  | error error =>
    rw [entityWrite, made] at ended
    cases ended
  | ok links =>
    rw [entityWrite, made] at ended
    cases ended
    exact ⟨rfl, rfl, rfl⟩

end TypeDecl

end CachedViews
