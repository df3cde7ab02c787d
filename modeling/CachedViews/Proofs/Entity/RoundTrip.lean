import CachedViews.Proofs.Entity.FieldDiff
import CachedViews.Registry.Basic

/-!
Written differences read back as what changed. The entries of a difference name the fields whose
values differ, each once and in order, whatever dots there are in the name of the type, in the
fields and in the names of registered types. A difference is the same in both directions, and it
is empty for equal sheets alone.
-/
namespace CachedViews

theorem Double.same_comm (a b : Double) : a.same b = b.same a := by
  cases a <;> cases b <;> simp only [same, Bool.beq_comm]
  rename_i s m t n
  by_cases equal : m = n
  · rw [equal]
  · rw [beq_false_of_ne equal, Bool.false_and, Bool.false_and]

namespace Json

mutual

theorem same_comm : ∀ a b : Json, a.same b = b.same a
  | .null, b | .bool _, b | .integer _, b | .string _, b => by
    cases b <;> simp only [same, Bool.beq_comm]
  | .double value, b => by
    cases b <;> simp only [same]
    exact Double.same_comm value _
  | .array items, b => by
    cases b <;> simp only [same]
    exact sameItems_comm items _
  | .object entries, b => by
    cases b <;> simp only [same]
    exact sameEntries_comm entries _

theorem sameItems_comm : ∀ as bs : List Json, sameItems as bs = sameItems bs as
  | [], [] | [], _ :: _ | _ :: _, [] => rfl
  | a :: as, b :: bs => by
    simp only [sameItems]
    rw [same_comm a b, sameItems_comm as bs]

theorem sameEntries_comm : ∀ as bs : List (String × Json), sameEntries as bs = sameEntries bs as
  | [], [] | [], _ :: _ | _ :: _, [] => rfl
  | (k, a) :: as, (l, b) :: bs => by
    simp only [sameEntries]
    rw [same_comm a b, sameEntries_comm as bs, Bool.beq_comm]

end

end Json

namespace FieldDiff

theorem sameField_comm (a b : Option Json) : sameField a b = sameField b a := by
  cases a <;> cases b <;> simp only [sameField]
  exact Json.same_comm _ _

/-- A key below the first one is missing. -/
theorem get?_before {key : String} {first : String × Json} {rest : List (String × Json)}
    (below : compare key first.1 = .lt)
    (above : ∀ entry ∈ rest, compare first.1 entry.1 = .lt) :
    Entries.get? key (first :: rest) = none :=
  Entries.get?_eq_none_of_above fun entry listed => by
    rcases List.mem_cons.mp listed with rfl | later
    · exact below
    · exact Std.TransCmp.lt_trans below (above entry later)

/-- Entry lists in key order are the same exactly when every key has the same in both. -/
theorem sameEntries_iff {left right : List (String × Json)} (leftSorted : Entries.Sorted left)
    (rightSorted : Entries.Sorted right) :
    Json.sameEntries left right = true ↔
      ∀ key, sameField (Entries.get? key left) (Entries.get? key right) = true := by
  induction left generalizing right with
  | nil =>
    cases right with
    | nil => simp [Json.sameEntries, Entries.get?, sameField]
    | cons first rest =>
      refine iff_of_false (by simp [Json.sameEntries]) fun same => ?_
      have here := same first.1
      simp [Entries.get?, sameField] at here
  | cons first rest ih =>
    cases right with
    | nil =>
      refine iff_of_false (by simp [Json.sameEntries]) fun same => ?_
      have here := same first.1
      simp [Entries.get?, sameField] at here
    | cons second more =>
      obtain ⟨aboveLeft, leftTail⟩ := List.pairwise_cons.mp leftSorted
      obtain ⟨aboveRight, rightTail⟩ := List.pairwise_cons.mp rightSorted
      simp only [Json.sameEntries, Bool.and_eq_true, beq_iff_eq, ih leftTail rightTail]
      constructor
      · rintro ⟨⟨keys, values⟩, later⟩ key
        simp only [Entries.get?, keys]
        split
        · exact values
        · exact later key
      · intro same
        have keys : first.1 = second.1 := by
          -- The lesser of two first keys would be missing on the other side.
          cases order : compare first.1 second.1 with
          | eq => exact compare_eq_iff.mp order
          | lt =>
            have absent : Entries.get? first.1 (second :: more) = none := get?_before order aboveRight
            have here := same first.1
            rw [absent] at here
            simp [Entries.get?, sameField] at here
          | gt =>
            have absent : Entries.get? second.1 (first :: rest) = none :=
              get?_before (Std.OrientedCmp.lt_of_gt order) aboveLeft
            have there := same second.1
            rw [absent] at there
            simp [Entries.get?, sameField] at there
        refine ⟨⟨keys, ?_⟩, fun key => ?_⟩
        · simpa [Entries.get?, keys, sameField] using same first.1
        · have here := same key
          simp only [Entries.get?, keys] at here
          by_cases hit : compare key second.1 = .eq
          · obtain rfl := compare_eq_iff.mp hit
            rw [Entries.get?_eq_none_of_above fun entry inside => keys ▸ aboveLeft entry inside,
              Entries.get?_eq_none_of_above aboveRight]
            rfl
          · simpa [hit] using here

/-- A field that came, went or has another value. -/
inductive Differs : Option Json → Option Json → Prop where
  | added (value : Json) : Differs none (some value)
  | gone (value : Json) : Differs (some value) none
  | changed {before after : Json} (apart : before.same after = false) :
    Differs (some before) (some after)

theorem differs_iff (before after : Option Json) :
    Differs before after ↔ sameField before after = false := by
  constructor
  · rintro (_ | _ | apart)
    · rfl
    · rfl
    · exact apart
  · intro differs
    cases before with
    | none =>
      cases after with
      | none => cases differs
      | some value => exact .added value
    | some value =>
      cases after with
      | none => exact .gone value
      | some other => exact .changed differs

theorem changedFields_comm (old new : Properties) : changedFields old new = changedFields new old := by
  apply SortedSet.ext_mem
  intro field
  rw [mem_changedFields_iff, mem_changedFields_iff, sameField_comm]

theorem changedFields_eq_nil_iff (old new : Properties) :
    (changedFields old new).toList = [] ↔
      (Json.ofProperties old).same (.ofProperties new) = true := by
  simp only [Json.ofProperties, Json.same]
  rw [sameEntries_iff old.sorted new.sorted, List.eq_nil_iff_forall_not_mem]
  refine forall_congr' fun field => ?_
  rw [← SortedSet.mem_def, mem_changedFields_iff, Bool.not_eq_false]
  rfl

/-- Read back for its type, a written difference names exactly the fields whose values differ, each
once. It is the same in both directions, and empty exactly when the sheets are equal. -/
theorem differences_round_trip (registry : Registry) (itemType : ItemType) (old new : Properties) :
    let named := decode registry.contains itemType (encode itemType old new)
    (∀ field, field ∈ named ↔ Differs (old.get? field) (new.get? field)) ∧ named.Nodup ∧
      encode itemType old new = encode itemType new old ∧
      (encode itemType old new = [] ↔ (Json.ofProperties old).same (.ofProperties new) = true) := by
  simp only [decode_encode]
  refine ⟨fun field => ?_, ?_, ?_, ?_⟩
  · rw [← SortedSet.mem_def, mem_changedFields_iff, differs_iff]
  · exact (changedFields old new).nodup
  · rw [encode, changedFields_comm, encode]
  · rw [encode, List.map_eq_nil_iff, changedFields_eq_nil_iff]

/-- With a dot in the field the entry begins like one of another registered type. -/
example : decode (· ∈ ["Lab", "Lab.pi"]) ⟨"Lab"⟩ (encode ⟨"Lab"⟩
    (SortedMap.ofList [("pi.name", .string "Ann"), ("", .null)])
    (SortedMap.ofList [("pi.name", .string "Bea")])) = ["", "pi.name"] := by
  decide

end FieldDiff

end CachedViews
