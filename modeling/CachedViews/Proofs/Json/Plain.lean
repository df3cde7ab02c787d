import CachedViews.Embedding.Document
import CachedViews.Embedding.Resolve
import CachedViews.Entity.FieldDiff
import CachedViews.Proofs.Registry.Links

/-!
The plain form of a value: the same value with every zero unsigned. Values that count as the
same have the same plain form, and everything that embedding does to values respects it.
-/
namespace CachedViews

/-- The two zeros of binary64 are one number. -/
def Double.unsigned : Double → Double
  | .finite negative units => if units = 0 then .finite false 0 else .finite negative units
  | other => other

theorem Double.unsigned_eq_of_same {a b : Double} (same : a.same b = true) :
    a.unsigned = b.unsigned := by
  cases a <;> cases b <;> simp only [Double.same, Bool.false_eq_true] at same
  · simp only [beq_iff_eq] at same
    rw [same]
  · rename_i s m t n
    simp only [Bool.and_eq_true, beq_iff_eq, Bool.or_eq_true] at same
    obtain ⟨rfl, either⟩ := same
    simp only [unsigned]
    split
    · rfl
    · rename_i nonzero
      rw [either.resolve_right nonzero]

namespace Json

mutual

def plain : Json → Json
  | .double value => .double value.unsigned
  | .array items => .array (plainItems items)
  | .object entries => .object (plainEntries entries)
  | other => other

def plainItems : List Json → List Json
  | [] => []
  | item :: rest => plain item :: plainItems rest

def plainEntries : List (String × Json) → List (String × Json)
  | [] => []
  | (field, value) :: rest => (field, plain value) :: plainEntries rest

end

mutual

theorem plain_eq_of_same : ∀ a b : Json, a.same b = true → a.plain = b.plain
  | .null, b, same => by cases b <;> first | rfl | cases same
  | .bool _, b, same => by
    cases b <;> first | cases same | (simp only [Json.same, beq_iff_eq] at same; rw [same])
  | .integer _, b, same => by
    cases b <;> first | cases same | (simp only [Json.same, beq_iff_eq] at same; rw [same])
  | .double _, b, same => by
    cases b <;> first
      | cases same
      | (simp only [plain]; rw [Double.unsigned_eq_of_same (by simpa only [Json.same] using same)])
  | .string _, b, same => by
    cases b <;> first | cases same | (simp only [Json.same, beq_iff_eq] at same; rw [same])
  | .array items, b, same => by
    cases b <;> first
      | cases same
      | (simp only [plain]; rw [plainItems_eq_of_same items _ (by simpa only [Json.same] using same)])
  | .object entries, b, same => by
    cases b <;> first
      | cases same
      | (simp only [plain]
         rw [plainEntries_eq_of_same entries _ (by simpa only [Json.same] using same)])

theorem plainItems_eq_of_same : ∀ a b : List Json, sameItems a b = true → plainItems a = plainItems b
  | [], b, same => by cases b <;> first | rfl | cases same
  | first :: rest, b, same => by
    cases b with
    | nil => cases same
    | cons other others =>
      simp only [sameItems, Bool.and_eq_true] at same
      rw [plainItems, plainItems, plain_eq_of_same first other same.1,
        plainItems_eq_of_same rest others same.2]

theorem plainEntries_eq_of_same : ∀ a b : List (String × Json), sameEntries a b = true →
    plainEntries a = plainEntries b
  | [], b, same => by cases b <;> first | rfl | cases same
  | (field, value) :: rest, b, same => by
    cases b with
    | nil => cases same
    | cons other others =>
      obtain ⟨key, held⟩ := other
      simp only [sameEntries, Bool.and_eq_true, beq_iff_eq] at same
      rw [plainEntries, plainEntries, same.1.1, plain_eq_of_same value held same.1.2,
        plainEntries_eq_of_same rest others same.2]

end

theorem plainItems_eq_map (items : List Json) : plainItems items = items.map plain := by
  induction items with
  | nil => rfl
  | cons first rest ih => rw [plainItems, ih, List.map_cons]

theorem plainEntries_eq_map (entries : List (String × Json)) :
    plainEntries entries = entries.map fun entry => (entry.1, plain entry.2) := by
  induction entries with
  | nil => rfl
  | cons first rest ih => rw [plainEntries, ih, List.map_cons]

theorem get?_plainEntries (field : String) (entries : List (String × Json)) :
    Entries.get? field (plainEntries entries) = (Entries.get? field entries).map plain := by
  rw [plainEntries_eq_map, Entries.get?_map_value]

theorem plainEntries_insert (field : String) (value : Json) (entries : List (String × Json)) :
    plainEntries (Entries.insert field value entries) =
      Entries.insert field (plain value) (plainEntries entries) := by
  rw [plainEntries_eq_map, plainEntries_eq_map, Entries.map_insert]

theorem text?_plain (value : Json) : value.plain.text? = value.text? := by
  cases value <;> rfl

theorem linkTargets_plain (value : Json) :
    Embedding.linkTargets (some value.plain) = Embedding.linkTargets (some value) := by
  cases value <;> try rfl
  rename_i items
  simp only [plain, plainItems_eq_map, Embedding.linkTargets, List.filterMap_map]
  congr 1
  funext item
  simp [text?_plain]

mutual

theorem plain_select (tree : EmbedTree) : ∀ value : Json,
    (Document.select tree value).plain = Document.select tree value.plain
  | .null | .bool _ | .integer _ | .double _ | .string _ => by
    simp only [Document.select, plain]
  | .array items => by
    simp only [Document.select, plain]
    rw [plain_selectItems]
  | .object entries => by
    simp only [Document.select, plain]
    rw [plain_selectEntries]

theorem plain_selectItems (tree : EmbedTree) : ∀ items : List Json,
    plainItems (Document.selectItems tree items) = Document.selectItems tree (plainItems items)
  | [] => rfl
  | item :: rest => by
    simp only [Document.selectItems, plainItems]
    rw [plain_select, plain_selectItems]

theorem plain_selectEntries (tree : EmbedTree) : ∀ entries : List (String × Json),
    plainEntries (Document.selectEntries tree entries) =
      Document.selectEntries tree (plainEntries entries)
  | [] => rfl
  | (field, value) :: rest => by
    simp only [Document.selectEntries, plainEntries]
    split
    · rw [plainEntries, plain_selectEntries]
      split
      · rw [plain_select]
      · rfl
    · exact plain_selectEntries tree rest

end

/-- Selecting below a property respects plain forms. -/
theorem select_agrees (tree : EmbedTree) {left right : Json} (agreed : left.plain = right.plain) :
    (Document.select tree left).plain = (Document.select tree right).plain := by
  rw [plain_select, plain_select, agreed]

theorem replaceLinkItems_agrees {render other : Uuid → Json} {items others : List Json}
    (agreed : plainItems items = plainItems others)
    (texts : items.all (fun item => item.text?.isSome) = true)
    (rendered : ∀ uuid ∈ items.filterMap (fun item => item.text? >>= Uuid.parse?),
      (render uuid).plain = (other uuid).plain) :
    plainItems (Document.replaceLinkItems render items) =
      plainItems (Document.replaceLinkItems other others) := by
  induction items generalizing others with
  | nil =>
    cases others with
    | nil => rfl
    | cons second rest => cases agreed
  | cons first rest ih =>
    cases others with
    | nil => cases agreed
    | cons second more =>
      simp only [plainItems, List.cons.injEq] at agreed
      simp only [List.all_cons, Bool.and_eq_true] at texts
      -- Declared links hold texts alone, and a text is its own plain form.
      have text : second.text? = first.text? := by
        rw [← text?_plain, ← agreed.1, text?_plain]
      cases first with
      | string raw =>
        cases second <;> try cases text
        have tail := ih agreed.2 texts.2 fun uuid listed =>
          rendered uuid (by
            rw [List.filterMap_cons]
            split
            · exact listed
            · exact List.mem_cons_of_mem _ listed)
        simp only [Document.replaceLinkItems, plainItems]
        rw [tail]
        simp only [Document.replaceLinks]
        cases parsed : Uuid.parse? raw with
        | none => rfl
        | some uuid =>
          dsimp only
          rw [rendered uuid (by simp [text?, parsed])]
      | null => cases texts.1
      | bool _ => cases texts.1
      | integer _ => cases texts.1
      | double _ => cases texts.1
      | array _ => cases texts.1
      | object _ => cases texts.1

/-- Replacing the identifiers of a link value by documents that agree. -/
theorem replaceLinks_agrees {render other : Uuid → Json} {left right : Json}
    (agreed : left.plain = right.plain) (texts : left.holdsLinks = true)
    (rendered : ∀ uuid ∈ Embedding.linkTargets (some left),
      (render uuid).plain = (other uuid).plain) :
    (Document.replaceLinks render left).plain = (Document.replaceLinks other right).plain := by
  cases left with
  | null => cases right <;> first | rfl | cases agreed
  | bool _ => cases texts
  | integer _ => cases texts
  | double _ => cases texts
  | object _ => cases texts
  | string raw =>
    cases right <;> try cases agreed
    simp only [Document.replaceLinks]
    cases parsed : Uuid.parse? raw with
    | none => rfl
    | some uuid => exact rendered uuid (by simp [Embedding.linkTargets, parsed])
  | array items =>
    cases right <;> try cases agreed
    rename_i others
    simp only [plain, array.injEq] at agreed
    simp only [Document.replaceLinks, plain]
    rw [replaceLinkItems_agrees agreed texts rendered]

end Json

end CachedViews
