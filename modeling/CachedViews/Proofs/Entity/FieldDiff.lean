import CachedViews.Proofs.Json.Plain

/-!
Differences of sheets. A field that a difference leaves out holds the same value in both
sheets, and a written difference names the same fields when it is read for the same type.
-/
namespace CachedViews

namespace FieldDiff

theorem remainder?_append (front rest : String) : remainder? front (front ++ rest) = some rest := by
  have shape : (front ++ rest).toList = front.toList ++ rest.toList := String.toList_append
  rw [remainder?, shape, if_pos (List.isPrefixOf_iff_prefix.mpr (List.prefix_append _ _)),
    List.drop_left, String.ofList_toList]

theorem field?_entry (isRegistered : String → Bool) (itemType : ItemType) (field : String) :
    field? isRegistered itemType (entry itemType field) = some field := by
  rw [field?, entry, remainder?_append]

/-- A difference names for its own type exactly the fields that changed. -/
theorem decode_encode (isRegistered : String → Bool) (itemType : ItemType)
    (old new : Properties) :
    decode isRegistered itemType (encode itemType old new) = (changedFields old new).toList := by
  rw [decode, encode, List.filterMap_map]
  refine (congrArg (List.filterMap · _) (funext fun field => ?_)).trans List.filterMap_some
  exact field?_entry isRegistered itemType field

theorem mem_changedFields_iff (old new : Properties) (field : String) :
    field ∈ changedFields old new ↔ sameField (old.get? field) (new.get? field) = false := by
  rw [changedFields, SortedSet.mem_filter, SortedSet.mem_ofList, List.mem_append,
    SortedMap.mem_keys_iff, SortedMap.mem_keys_iff, SortedMap.contains, SortedMap.contains,
    Bool.not_eq_true']
  refine ⟨fun both => both.2, fun differs => ⟨?_, differs⟩⟩
  cases held : old.get? field with
  | some value => exact Or.inl rfl
  | none =>
    cases there : new.get? field with
    | some value => exact Or.inr rfl
    | none =>
      rw [held, there] at differs
      cases differs

theorem plain_eq_of_unchanged {old new : Properties} {field : String}
    (unchanged : field ∉ changedFields old new) :
    (old.get? field).map Json.plain = (new.get? field).map Json.plain := by
  rw [mem_changedFields_iff, Bool.not_eq_false] at unchanged
  cases held : old.get? field with
  | none =>
    cases there : new.get? field with
    | none => rfl
    | some value =>
      rw [held, there] at unchanged
      cases unchanged
  | some value =>
    cases there : new.get? field with
    | none =>
      rw [held, there] at unchanged
      cases unchanged
    | some other =>
      rw [held, there] at unchanged
      simp only [Option.map_some, Option.some.injEq]
      exact Json.plain_eq_of_same value other unchanged

end FieldDiff

end CachedViews
