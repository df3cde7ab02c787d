import CachedViews.Proofs.Json.Writing
import CachedViews.Proofs.Sorted
import CachedViews.View

/-!
The text that a fingerprint is taken of tells the content of a view: identifiers have one spelling
each, sets and maps are written whole in their order, and the stamps are no part of it.
-/
namespace CachedViews

namespace Uuid

variable {a b : Uuid}

theorem digitChar_injective :
    ∀ m < 16, ∀ n < 16, Nat.digitChar m = Nat.digitChar n → m = n := by
  decide

theorem nibble_lt (uuid : Uuid) (place : Nat) : uuid.nibble place < 16 :=
  Nat.mod_lt _ (by decide)

theorem testBit_nibble (uuid : Uuid) (i : Nat) :
    (uuid.nibble (i / 4)).testBit (i % 4) = uuid.bits.getLsbD i := by
  have place : 4 * (i / 4) + i % 4 = i := Nat.div_add_mod i 4
  have low : i % 4 < 4 := Nat.mod_lt i (by decide)
  rw [nibble, show (16 : Nat) = 2 ^ 4 from rfl, Nat.testBit_mod_two_pow, BitVec.toNat_ushiftRight,
    Nat.testBit_shiftRight, place, BitVec.testBit_toNat]
  simp [low]

theorem eq_of_nibbles (same : ∀ place < 32, a.nibble place = b.nibble place) : a = b := by
  apply Uuid.ext
  apply BitVec.eq_of_getLsbD_eq
  intro i inside
  rw [← testBit_nibble, ← testBit_nibble, same (i / 4) (by omega)]

theorem length_digits (uuid : Uuid) (place count : Nat) :
    (uuid.digits place count).length = count := by
  rw [digits, List.length_map, List.length_range]

theorem nibble_eq_of_digits {first count : Nat} (same : a.digits first count = b.digits first count)
    {place : Nat} (above : first ≤ place) (below : place < first + count) :
    a.nibble place = b.nibble place := by
  have chars := List.map_inj_left.mp same (first + count - 1 - place)
    (List.mem_range.mpr (by omega))
  have turned : first + count - 1 - (first + count - 1 - place) = place := by omega
  rw [turned] at chars
  exact digitChar_injective _ (a.nibble_lt place) _ (b.nibble_lt place) chars

/-- Two spellings that agree agree group by group, since groups have fixed lengths. -/
theorem text_injective (same : a.text = b.text) : a = b := by
  have groups : ∀ {place count : Nat} {rest more : List Char},
      a.digits place count ++ rest = b.digits place count ++ more →
      a.digits place count = b.digits place count ∧ rest = more := fun joined =>
    List.append_inj joined (by rw [length_digits, length_digits])
  have chars : a.chars = b.chars := String.ofList_injective same
  simp only [Uuid.chars, List.append_assoc, List.cons_append] at chars
  obtain ⟨eight, chars⟩ := groups chars
  obtain ⟨four, chars⟩ := groups (List.cons.inj chars).2
  obtain ⟨next, chars⟩ := groups (List.cons.inj chars).2
  obtain ⟨last, chars⟩ := groups (List.cons.inj chars).2
  have twelve := (List.cons.inj chars).2
  apply eq_of_nibbles
  intro place inside
  rcases Nat.lt_or_ge place 12 with low | more
  · exact nibble_eq_of_digits twelve (Nat.zero_le _) (by omega)
  rcases Nat.lt_or_ge place 16 with low | more
  · exact nibble_eq_of_digits last more (by omega)
  rcases Nat.lt_or_ge place 20 with low | more
  · exact nibble_eq_of_digits next more (by omega)
  rcases Nat.lt_or_ge place 24 with low | more
  · exact nibble_eq_of_digits four more (by omega)
  · exact nibble_eq_of_digits eight more (by omega)

end Uuid

namespace View

theorem uuidsJson_injective {left right : SortedSet Uuid}
    (same : uuidsJson left = uuidsJson right) : left = right := by
  have spelling : Function.Injective fun uuid : Uuid => Json.string uuid.text :=
    fun _ _ equal => Uuid.text_injective (Json.string.inj equal)
  exact SortedSet.toList_injective (spelling.list_map (Json.array.inj same))

theorem revLinksJson_injective {left right : ReverseLinks}
    (same : revLinksJson left = revLinksJson right) : left = right := by
  have listing : Function.Injective fun entry : String × SortedSet Uuid =>
      (entry.1, uuidsJson entry.2) := by
    intro left right equal
    obtain ⟨fields, listed⟩ := Prod.mk.inj equal
    exact Prod.ext fields (uuidsJson_injective listed)
  exact SortedMap.entries_injective (listing.list_map (Json.object.inj same))

/-- Stamps apart, the content of a view is all there is to it. -/
theorem contentJson_eq_iff {v w : View} :
    v.contentJson = w.contentJson ↔
      v.uuid = w.uuid ∧ v.itemType = w.itemType ∧ v.embedded = w.embedded ∧
        v.linked = w.linked ∧ v.revLinks = w.revLinks := by
  constructor
  · intro same
    simp only [contentJson, Json.object.injEq, List.cons.injEq, Prod.mk.injEq, Json.string.injEq,
      true_and, and_true] at same
    obtain ⟨embedded, itemType, linked, revLinks, uuid⟩ := same
    exact ⟨Uuid.text_injective uuid, ItemType.ext itemType, embedded, uuidsJson_injective linked,
      revLinksJson_injective revLinks⟩
  · rintro ⟨uuid, itemType, embedded, linked, revLinks⟩
    rw [contentJson, contentJson, uuid, itemType, embedded, linked, revLinks]

theorem numerals_uuidsJson (uuids : SortedSet Uuid) : (uuidsJson uuids).Numerals := by
  show Json.NumeralItems (uuids.toList.map fun uuid => .string uuid.text)
  induction uuids.toList with
  | nil => trivial
  | cons first rest ih => exact ⟨trivial, ih⟩

theorem numerals_revLinksJson (links : ReverseLinks) : (revLinksJson links).Numerals := by
  show Json.NumeralEntries (links.entries.map fun entry => (entry.1, uuidsJson entry.2))
  induction links.entries with
  | nil => trivial
  | cons first rest ih => exact ⟨numerals_uuidsJson first.2, ih⟩

theorem numerals_contentJson {view : View} (numerals : view.embedded.Numerals) :
    view.contentJson.Numerals :=
  ⟨numerals, trivial, numerals_uuidsJson view.linked, numerals_revLinksJson view.revLinks,
    trivial, trivial⟩

/-- The text that is hashed tells the content: views have one text exactly when they agree in
everything but their stamps. -/
theorem content_text_eq_iff {v w : View} (numerals : v.embedded.Numerals)
    (others : w.embedded.Numerals) :
    v.contentJson.text = w.contentJson.text ↔
      v.uuid = w.uuid ∧ v.itemType = w.itemType ∧ v.embedded = w.embedded ∧
        v.linked = w.linked ∧ v.revLinks = w.revLinks := by
  rw [← contentJson_eq_iff]
  constructor
  · exact Json.text_injective (numerals_contentJson numerals) (numerals_contentJson others)
  · intro same
    rw [same]

/-- A shelf as built at one watermark. -/
def shelf : View where
  uuid := ⟨1⟩
  itemType := ⟨"Shelf"⟩
  embedded := .object [("books", .array [.integer 12, .integer (-3), .array []]),
    ("label", .string "top\n\"left\"")]
  sid := 4
  maxSid := 9
  linked := .ofList [⟨2⟩, ⟨3⟩]
  revLinks := .ofList [("shelf", .ofList [⟨4⟩])]

theorem shelf_content_text :
    { shelf with sid := 7, maxSid := 12 }.contentJson.text = shelf.contentJson.text ∧
      { shelf with embedded := .array [.integer 1, .integer 23] }.contentJson.text ≠
        { shelf with embedded := .array [.integer 12, .integer 3] }.contentJson.text := by
  have numerals : shelf.embedded.Numerals :=
    ⟨⟨trivial, trivial, trivial, trivial⟩, trivial, trivial⟩
  have pair : ∀ m n : Int, (Json.array [.integer m, .integer n]).Numerals := fun _ _ =>
    ⟨trivial, trivial, trivial⟩
  refine ⟨(content_text_eq_iff numerals numerals).mpr ⟨rfl, rfl, rfl, rfl, rfl⟩, fun same => ?_⟩
  obtain ⟨-, -, embedded, -⟩ := (content_text_eq_iff (pair 1 23) (pair 12 3)).mp same
  cases embedded

end View

end CachedViews
