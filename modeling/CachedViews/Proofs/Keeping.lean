import CachedViews.Proofs.Running

/-!
What actions keep, in any world and however they end. A relation that worlds are in step by step
passes from the parts of an action to the whole.
-/
namespace CachedViews

/-- A relation between worlds that steps compose in. -/
class World.Chain (R : World → World → Prop) : Prop where
  refl : ∀ world, R world world
  trans : ∀ {first second third}, R first second → R second third → R first third

/-- What holds before still holds after. -/
def World.Preserves (P : World → Prop) (before after : World) : Prop := P before → P after

instance (P : World → Prop) : World.Chain (World.Preserves P) := ⟨fun _ => id, fun one two => two ∘ one⟩

namespace Action

variable {α β : Type} {R S : World → World → Prop}

/-- An action that ended well, taken apart. -/
theorem bind_ok {action : Action α} {next : α → Action β} {world after : World} {result : β}
    (ended : (action >>= next).on world = (.ok result, after)) :
    ∃ value middle, action.on world = (.ok value, middle) ∧
      (next value).on middle = (.ok result, after) := by
  rw [on_bind] at ended
  rcases first : action.on world with ⟨error | value, middle⟩
  · rw [first] at ended
    cases ended
  · rw [first] at ended
    exact ⟨value, middle, rfl, ended⟩

/-- What is found under `orNotFound` is what the action returned. -/
theorem orNotFound_some {action : Action α} {world after : World} {value : α}
    (ended : (orNotFound action).on world = (.ok (some value), after)) :
    action.on world = (.ok value, after) := by
  rw [orNotFound, on_tryCatch, on_map] at ended
  rcases looked : action.on world with ⟨error | found, middle⟩
  · rw [looked] at ended
    dsimp only at ended
    split at ended <;> cases ended
  · rw [looked] at ended
    cases ended
    rfl

/-- Nothing is found under `orNotFound` when the action says so. -/
theorem orNotFound_none {action : Action α} {world after : World}
    (ended : (orNotFound action).on world = (.ok none, after)) :
    ∃ error, action.on world = (.error error, after) ∧ error.isNotFound = true := by
  rw [orNotFound, on_tryCatch, on_map] at ended
  rcases looked : action.on world with ⟨error | found, middle⟩
  · rw [looked] at ended
    dsimp only at ended
    split at ended
    · rename_i missing
      cases ended
      exact ⟨error, rfl, missing⟩
    · cases ended
  · rw [looked] at ended
    cases ended

/-- An action that failed, taken apart. -/
theorem bind_error {action : Action α} {next : α → Action β} {world after : World}
    {error : EngineError} (ended : (action >>= next).on world = (.error error, after)) :
    action.on world = (.error error, after) ∨ ∃ value middle,
      action.on world = (.ok value, middle) ∧ (next value).on middle = (.error error, after) := by
  rw [on_bind] at ended
  rcases first : action.on world with ⟨failed | value, middle⟩
  · rw [first] at ended
    cases ended
    exact Or.inl rfl
  · rw [first] at ended
    exact Or.inr ⟨value, middle, rfl, ended⟩

/-- The world that an action leaves is related to the one that it met. -/
def Keeps (R : World → World → Prop) (action : Action α) : Prop :=
  ∀ world, R world (action.on world).2

theorem Keeps.mono (weaker : ∀ before after, R before after → S before after)
    {action : Action α} (keeps : Keeps R action) : Keeps S action := fun world =>
  weaker _ _ (keeps world)

theorem Keeps.of_on {action : Action α} (keeps : Keeps R action) {world after : World}
    {result : Except EngineError α} (ended : action.on world = (result, after)) :
    R world after := by
  have here := keeps world
  rw [ended] at here
  exact here

theorem keeps_modify {change : World → World} (related : ∀ world, R world (change world)) :
    Keeps R (modify change : Action Unit) := related

theorem keeps_modifyGet {change : World → α × World}
    (related : ∀ world, R world (change world).2) :
    Keeps R (modifyGet change : Action α) := related

section

variable [World.Chain R]

theorem keeps_pure (value : α) : Keeps R (pure value : Action α) := World.Chain.refl

theorem keeps_throw (error : EngineError) : Keeps R (throw error : Action α) := World.Chain.refl

theorem keeps_get : Keeps R (get : Action World) := World.Chain.refl

theorem keeps_ofStorage (result : Except StorageError α) : Keeps R (ofStorage result) := by
  cases result with
  | ok value => exact keeps_pure value
  | error error => exact keeps_throw _

theorem keeps_ofValidation (result : Except ValidationError α) : Keeps R (ofValidation result) := by
  cases result with
  | ok value => exact keeps_pure value
  | error error => exact keeps_throw _

/-- What follows an action may depend on how the action ended. -/
theorem Keeps.bind_of {action : Action α} {next : α → Action β} (first : Keeps R action)
    (second : ∀ world value after, action.on world = (.ok value, after) →
      R after ((next value).on after).2) : Keeps R (action >>= next) := by
  intro world
  have here := first world
  rw [on_bind]
  rcases ended : action.on world with ⟨error | value, after⟩
  · rw [ended] at here
    exact here
  · rw [ended] at here
    exact World.Chain.trans here (second world value after ended)

theorem Keeps.bind {action : Action α} {next : α → Action β} (first : Keeps R action)
    (second : ∀ value, Keeps R (next value)) : Keeps R (action >>= next) :=
  first.bind_of fun _ value after _ => second value after

theorem Keeps.map {action : Action α} (change : α → β) (keeps : Keeps R action) :
    Keeps R (change <$> action) := by
  rw [map_eq_pure_bind]
  exact keeps.bind fun value => keeps_pure _

theorem Keeps.tryCatch {action : Action α} {handler : EngineError → Action α}
    (first : Keeps R action) (second : ∀ error, Keeps R (handler error)) :
    Keeps R (MonadExcept.tryCatch action handler) := by
  intro world
  have here := first world
  rw [show (MonadExcept.tryCatch action handler).on world = _ from on_tryCatch action handler world]
  rcases ended : action.on world with ⟨error | value, after⟩
  · rw [ended] at here
    exact World.Chain.trans here (second error after)
  · rw [ended] at here
    exact here

theorem Keeps.orNotFound {action : Action α} (keeps : Keeps R action) :
    Keeps R (Action.orNotFound action) :=
  (keeps.map some).tryCatch fun error => by
    split
    · exact keeps_pure none
    · exact keeps_throw error

theorem keeps_mapM_of {action : α → Action β} {members : List α}
    (each : ∀ member ∈ members, Keeps R (action member)) : Keeps R (members.mapM action) := by
  induction members with
  | nil => exact keeps_pure []
  | cons first rest ih =>
    rw [List.mapM_cons]
    have others := ih fun member listed => each member (List.mem_cons_of_mem _ listed)
    exact (each first List.mem_cons_self).bind fun _ => others.bind fun _ => keeps_pure _

theorem keeps_mapM {action : α → Action β} (each : ∀ member, Keeps R (action member))
    (members : List α) : Keeps R (members.mapM action) :=
  keeps_mapM_of fun member _ => each member

theorem keeps_forM {action : α → Action PUnit} (each : ∀ member, Keeps R (action member))
    (members : List α) : Keeps R (members.forM action) := by
  induction members with
  | nil => exact keeps_pure ()
  | cons first rest ih => exact (each first).bind fun _ => ih

theorem keeps_foldlM {step : β → α → Action β} (each : ∀ state member, Keeps R (step state member))
    (members : List α) (start : β) : Keeps R (members.foldlM step start) := by
  induction members generalizing start with
  | nil => exact keeps_pure start
  | cons first rest ih =>
    rw [List.foldlM_cons]
    exact (each start first).bind fun state => ih state

end

end Action

end CachedViews
