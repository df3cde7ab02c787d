import CachedViews.Proofs.Sorted
import CachedViews.ReadStore.Basic

/-!
What a call of a read store may change: the entry of the entity that it is about, by storing a view
or dropping one.
-/
namespace CachedViews

namespace ReadStore

/-- What a read store holds for an entity: a view, or the text of one. -/
def slot? (store : ReadStore) (uuid : Uuid) : Option (View ⊕ String) :=
  match store with
  | memory store => (store.views.get? uuid).map .inl
  | durable store => (store.texts.get? uuid).map .inr

/-- A view is stored, as it is or as its text. -/
def Shows (store : ReadStore) (view : View) : Prop :=
  store.slot? view.uuid = some (.inl view) ∨ store.slot? view.uuid = some (.inr view.text)

/-- Every slot is as before, gone, or a view that satisfies `P`. -/
def Updates (P : View → Prop) (before after : ReadStore) : Prop :=
  ∀ uuid, after.slot? uuid = before.slot? uuid ∨ after.slot? uuid = none ∨
    ∃ view, P view ∧ view.uuid = uuid ∧ after.Shows view

variable {P : View → Prop} {first second third : ReadStore}

theorem Updates.of_same (same : ∀ uuid, second.slot? uuid = first.slot? uuid) :
    Updates P first second := fun uuid => Or.inl (same uuid)

theorem Updates.trans (one : Updates P first second) (two : Updates P second third) :
    Updates P first third := by
  intro uuid
  rcases two uuid with same | gone | shown
  · rcases one uuid with kept | lost | ⟨view, listed, rfl, shows⟩
    · exact Or.inl (same.trans kept)
    · exact Or.inr (Or.inl (same.trans lost))
    · refine Or.inr (Or.inr ⟨view, listed, rfl, ?_⟩)
      unfold Shows
      rw [same]
      exact shows
  · exact Or.inr (Or.inl gone)
  · exact Or.inr (Or.inr shown)

theorem Updates.of_none (updates : Updates (fun _ => False) first second) :
    Updates P first second := by
  intro uuid
  rcases updates uuid with same | gone | ⟨view, never, -⟩
  · exact Or.inl same
  · exact Or.inr (Or.inl gone)
  · exact never.elim

theorem takeFailure_slot? (store : ReadStore) (uuid : Uuid) :
    store.takeFailure.2.slot? uuid = store.slot? uuid := by
  cases store with
  | memory store =>
    simp only [takeFailure, MemoryViews.takeFailure]
    split <;> rfl
  | durable store => rfl

theorem injected_slot? (store : ReadStore) (readable : Bool) (failing : Nat) (uuid : Uuid) :
    ((store.setAvailable readable).failNextPuts failing).slot? uuid = store.slot? uuid := by
  cases store <;> rfl

theorem injected_shows (store : ReadStore) (readable : Bool) (failing : Nat) (view : View) :
    ((store.setAvailable readable).failNextPuts failing).Shows view ↔ store.Shows view := by
  rw [Shows, Shows, injected_slot?]

/-- Removing a view from the durable tables removes its text and no other. -/
theorem remove_texts {store after : DurableViews} {uuid : Uuid} {existed : Bool}
    (ended : store.remove uuid = .ok (existed, after)) (other : Uuid) :
    after.texts.get? other = store.texts.get? other ∨
      other = uuid ∧ after.texts.get? other = none := by
  simp only [DurableViews.remove] at ended
  cases loaded : store.load uuid with
  | error error =>
    rw [loaded] at ended
    cases ended
  | ok view =>
    rw [loaded] at ended
    cases view with
    | none =>
      cases ended
      exact Or.inl rfl
    | some view =>
      cases ended
      dsimp only
      rw [SortedMap.get?_erase_eq]
      by_cases same : other = uuid
      · exact Or.inr ⟨same, if_pos same⟩
      · exact Or.inl (if_neg same)

theorem put_updates {store after : ReadStore} {view : View} (ended : store.put view = .ok after)
    (listed : P view) : Updates P store after := by
  intro uuid
  cases store with
  | memory store =>
    cases ended
    by_cases same : uuid = view.uuid
    · refine Or.inr (Or.inr ⟨view, listed, same.symm, Or.inl ?_⟩)
      simp [slot?, MemoryViews.put]
    · left
      simp [slot?, MemoryViews.put, SortedMap.get?_insert_eq, same]
  | durable store =>
    simp only [put, DurableViews.put] at ended
    cases removed : store.remove view.uuid with
    | error error =>
      rw [removed] at ended
      cases ended
    | ok result =>
      obtain ⟨replaced, cleared⟩ := result
      rw [removed] at ended
      cases ended
      by_cases same : uuid = view.uuid
      · refine Or.inr (Or.inr ⟨view, listed, same.symm, Or.inr ?_⟩)
        simp [slot?]
      · left
        simp only [slot?, SortedMap.get?_insert_eq, if_neg same]
        exact congrArg (Option.map Sum.inr)
          ((remove_texts removed uuid).resolve_right fun here => same here.1)

theorem delete_updates {store after : ReadStore} {uuid : Uuid} {existed : Bool}
    (ended : store.delete uuid = .ok (existed, after)) : Updates P store after := by
  intro other
  cases store with
  | memory store =>
    simp only [delete, MemoryViews.delete] at ended
    split at ended
    · cases ended
      by_cases same : other = uuid
      · right
        left
        simp [slot?, SortedMap.get?_erase_eq, same]
      · left
        simp [slot?, SortedMap.get?_erase_eq, same]
    · cases ended
      exact Or.inl rfl
  | durable store =>
    simp only [delete, DurableViews.delete] at ended
    cases removed : store.remove uuid with
    | error error =>
      rw [removed] at ended
      cases ended
    | ok result =>
      obtain ⟨existed, cleared⟩ := result
      rw [removed] at ended
      have texts := remove_texts removed other
      cases existed <;>
      · cases ended
        rcases texts with same | ⟨-, gone⟩
        · exact Or.inl (congrArg (Option.map Sum.inr) same)
        · exact Or.inr (Or.inl (congrArg (Option.map Sum.inr) gone))

end ReadStore

end CachedViews
