import CachedViews.Proofs.Json.Scalars
import CachedViews.Proofs.Service.Projection

/-!
What a key conflict means. A put that is refused for its keys leaves the write store, and another
live entity of the type stands behind each of the keys: it holds in the same unique field what the
refused sheet holds there, or a string stands beside the scalar that it spells. Key names join type
and field with a colon, so this asks that no other type has a unique field of that key name.
-/
namespace CachedViews

/-- The keys of an error that is a key conflict. -/
def EngineError.conflicts? : EngineError → Option (List UniqueKey)
  | .storage (.keyConflict keys) => some keys
  | _ => none

/-- The keys of a key conflict that a call ends in. -/
def conflictsIn {α : Type} (result : Except EngineError α) : Option (List UniqueKey) :=
  match result with
  | .error error => error.conflicts?
  | .ok _ => none

theorem eq_of_conflictsIn {α : Type} {result : Except EngineError α} {keys : List UniqueKey}
    (named : conflictsIn result = some keys) : result = .error (.storage (.keyConflict keys)) := by
  rcases result with ((_ | _ | _ | _ | _ | _ | _ | _ | _) | _ | _ | _) | _ <;> cases named
  rfl

namespace Action

variable {α β : Type}

/-- Whatever the action fails with is no key conflict. -/
def Unconflicted (action : Action α) : Prop :=
  ∀ world error after, action.on world = (.error error, after) → error.conflicts? = none

theorem unconflicted_pure (value : α) : (pure value : Action α).Unconflicted := by
  intro world error after ended
  cases ended

theorem unconflicted_get : (get : Action World).Unconflicted := by
  intro world error after ended
  cases ended

theorem unconflicted_modifyGet (change : World → α × World) :
    (modifyGet change : Action α).Unconflicted := by
  intro world error after ended
  cases ended

theorem unconflicted_throw {error : EngineError} (plain : error.conflicts? = none) :
    (throw error : Action α).Unconflicted := by
  intro world thrown after ended
  cases ended
  exact plain

theorem Unconflicted.bind {action : Action α} {next : α → Action β} (first : action.Unconflicted)
    (second : ∀ value, (next value).Unconflicted) : (action >>= next).Unconflicted := by
  intro world error after ended
  rcases bind_error ended with failed | ⟨value, middle, -, failed⟩
  · exact first world error after failed
  · exact second value middle error after failed

theorem Unconflicted.orNotFound {action : Action α} (plain : action.Unconflicted) :
    (Action.orNotFound action).Unconflicted := by
  intro world error after ended
  rw [Action.orNotFound, on_tryCatch, on_map] at ended
  rcases looked : action.on world with ⟨failed | value, middle⟩
  · rw [looked] at ended
    dsimp only at ended
    split at ended
    · cases ended
    · cases ended
      exact plain world _ _ looked
  · rw [looked] at ended
    cases ended

theorem pause_unconflicted (duration : Duration) : (pause duration).Unconflicted := by
  intro world error after ended
  obtain ⟨uuid, elapsed, rfl⟩ := pause_error ended
  rfl

theorem writeStore_unconflicted : writeStore.Unconflicted := by
  intro world error after ended
  have reached := writeStore_result world
  rw [ended] at reached
  rcases reached with same | ⟨_, same, rfl | ⟨uuid, elapsed, rfl⟩⟩ <;> cases same <;> rfl

theorem currentRecord_unconflicted (uuid : Uuid) : (currentRecord uuid).Unconflicted := by
  refine writeStore_unconflicted.bind fun store => ?_
  intro world error after ended
  rw [ofStorage_on, WriteStore.get] at ended
  split at ended <;> cases ended
  rfl

theorem underFault_unconflicted (captured : Option EntityRecord) (uuid : Uuid)
    (fault : RecordFault) : (underFault captured uuid fault).Unconflicted := by
  cases fault with
  | pass => exact currentRecord_unconflicted uuid
  | missing => exact unconflicted_throw rfl
  | unavailable => exact unconflicted_throw rfl
  | stale =>
    cases captured with
    | none => exact currentRecord_unconflicted uuid
    | some captured =>
      simp only [underFault]
      split
      · exact unconflicted_pure _
      · exact currentRecord_unconflicted uuid

theorem record_unconflicted (uuid : Uuid) : (record uuid).Unconflicted := by
  rw [record_eq]
  exact unconflicted_get.bind fun world => (pause_unconflicted _).bind fun _ =>
    (unconflicted_modifyGet _ : nextRecordFault.Unconflicted).bind fun fault =>
      underFault_unconflicted world.faults.captured uuid fault

/-- A commit that fails leaves the write store; its key conflicts are those of the change. -/
theorem commit_error {change : WriteStore → Except StorageError (α × WriteStore)}
    {world after : World} {error : EngineError}
    (ended : (Action.commit change).on world = (.error error, after)) :
    after.write = world.write ∧ ∀ keys, error.conflicts? = some keys →
      change world.write = .error (.keyConflict keys) := by
  rcases bind_error ended with failed | ⟨store, middle, reached, failed⟩
  · refine ⟨(writeStore_looks.of_on failed).write, fun keys conflict => ?_⟩
    rw [writeStore_unconflicted _ _ _ failed] at conflict
    cases conflict
  · have same : store = world.write := by
      have reading := writeStore_result world
      rw [reached] at reading
      rcases reading with same | ⟨_, same, -⟩ <;> cases same
      rfl
    have kept := (writeStore_looks.of_on reached).write
    rw [on_bind, ofStorage_on, same] at failed
    cases changed : change world.write with
    | ok result =>
      rw [changed] at failed
      cases failed
    | error refused =>
      rw [changed] at failed
      cases failed
      refine ⟨kept, fun keys conflict => ?_⟩
      cases refused <;> cases conflict
      rfl

end Action

namespace WriteStore

variable {store : WriteStore} {uuid : Uuid} {itemType : ItemType} {write : EntityWrite}

theorem keyConflicts_of_create {keys : List UniqueKey}
    (refused : store.create uuid itemType write = .error (.keyConflict keys)) :
    keys = store.keyConflicts uuid write.uniqueKeys ∧ keys ≠ [] := by
  rw [create] at refused
  split at refused
  · cases refused
  · split at refused
    · cases refused
    · rename_i some
      cases refused
      exact ⟨rfl, some⟩

theorem keyConflicts_of_update {base : Option Sid} {keys : List UniqueKey}
    (refused : store.update uuid write base = .error (.keyConflict keys)) :
    keys = store.keyConflicts uuid write.uniqueKeys ∧ keys ≠ [] := by
  rw [update] at refused
  split at refused
  · cases refused
  · dsimp only at refused
    split at refused
    · cases refused
    · split at refused
      · cases refused
      · rename_i some
        cases refused
        exact ⟨rfl, some⟩

/-- An error names the conflicts of these keys, if it names any. -/
def Blames (store : WriteStore) (uuid : Uuid) (keys : SortedSet UniqueKey)
    (error : EngineError) : Prop :=
  ∀ conflicts, error.conflicts? = some conflicts →
    conflicts = store.keyConflicts uuid keys ∧ conflicts ≠ []

/-- What is checked at every row holds of every live entity. -/
theorem of_live (check : EntityRecord → Bool)
    (each : ∀ uuid ∈ store.rows.keys, (store.record? uuid).all check = true)
    {holder : EntityRecord} (lives : store.record? holder.uuid = some holder) :
    check holder = true := by
  obtain ⟨row, -, stored, -⟩ := row_of_record? lives
  have checked := each holder.uuid
    ((SortedMap.mem_keys_iff _ _).mpr (Option.isSome_iff_exists.mpr ⟨row, stored⟩))
  rwa [lives] at checked

theorem blames_of_plain {keys : SortedSet UniqueKey} {error : EngineError}
    (plain : error.conflicts? = none) : store.Blames uuid keys error := by
  intro conflicts named
  rw [plain] at named
  cases named

end WriteStore

namespace Service

open CachedViews.Action WriteStore

variable {uuid : Uuid} {itemType : ItemType} {write : EntityWrite} {base : Option Sid}
  {world after : World}

/-- The error that a try fails with, thrown or as a value. -/
def failure? : Except EngineError (Except EngineError Stored) → Option EngineError
  | .error error | .ok (.error error) => some error
  | .ok (.ok _) => none

theorem attempt_commit_refused {diff : Option (List String)} {error : EngineError}
    {change : WriteStore → Except StorageError (Sid × WriteStore)}
    {result : Except EngineError (Except EngineError Stored)}
    (refusals : ∀ keys, change world.write = .error (.keyConflict keys) →
      keys = world.write.keyConflicts uuid write.uniqueKeys ∧ keys ≠ [])
    (ended : (attempt do return ⟨← Action.commit change, diff⟩ :
      Action (Except EngineError Stored)).on world = (result, after))
    (failed : failure? result = some error) :
    after.write = world.write ∧ world.write.Blames uuid write.uniqueKeys error := by
  rw [attempt_on] at ended
  rcases tried : (do return ⟨← Action.commit change, diff⟩ : Action Stored).on world with
    ⟨refused | stored, later⟩
  · rw [tried] at ended
    cases ended
    cases failed
    rcases bind_error tried with refused | ⟨sid, middle, -, never⟩
    · obtain ⟨kept, named⟩ := commit_error refused
      exact ⟨kept, fun keys conflict => refusals keys (named keys conflict)⟩
    · cases never
  · rw [tried] at ended
    cases ended
    cases failed

theorem writeOver_refused {existing : Option EntityRecord} {error : EngineError}
    {result : Except EngineError (Except EngineError Stored)}
    (ended : (writeOver uuid itemType write base existing).on world = (result, after))
    (failed : failure? result = some error) :
    after.write = world.write ∧ world.write.Blames uuid write.uniqueKeys error := by
  cases existing with
  | none =>
    rw [writeOver] at ended
    split at ended
    · rw [on_bind_error (on_throw _ _)] at ended
      cases ended
      cases failed
      exact ⟨rfl, blames_of_plain rfl⟩
    · exact attempt_commit_refused (fun keys => keyConflicts_of_create) ended failed
  | some record =>
    rw [writeOver] at ended
    split at ended
    · rw [on_bind_error (on_throw _ _)] at ended
      cases ended
      cases failed
      exact ⟨rfl, blames_of_plain rfl⟩
    · exact attempt_commit_refused (fun keys => keyConflicts_of_update) ended failed

/-- However a try fails, it leaves the write store and blames the keys that others own. -/
theorem tryPut_refused {error : EngineError}
    {result : Except EngineError (Except EngineError Stored)}
    (ended : (tryPut uuid itemType write base).on world = (result, after))
    (failed : failure? result = some error) :
    after.write = world.write ∧ world.write.Blames uuid write.uniqueKeys error := by
  have looks := (record_looks uuid).orNotFound
  rw [tryPut, on_bind] at ended
  rcases looked : (orNotFound (Action.record uuid)).on world with ⟨missed | existing, middle⟩
  · rw [looked] at ended
    cases ended
    cases failed
    exact ⟨(looks.of_on looked).write,
      blames_of_plain ((record_unconflicted uuid).orNotFound _ _ _ looked)⟩
  · rw [looked] at ended
    rw [← (looks.of_on looked).write]
    exact writeOver_refused ended failed

theorem putLoop_refused {retries : Nat} {error : EngineError}
    (ended : (putLoop uuid itemType write base retries).on world = (.error error, after)) :
    after.write = world.write ∧ world.write.Blames uuid write.uniqueKeys error := by
  induction retries generalizing world with
  | zero =>
    rcases bind_error ended with thrown | ⟨result, middle, tried, failed⟩
    · exact tryPut_refused thrown rfl
    · cases result with
      | ok stored => cases failed
      | error refused =>
        cases failed
        exact tryPut_refused tried rfl
  | succ retries ih =>
    rcases bind_error ended with thrown | ⟨result, middle, tried, failed⟩
    · exact tryPut_refused thrown rfl
    · cases result with
      | ok stored => cases failed
      | error refused =>
        obtain ⟨kept, blames⟩ := tryPut_refused tried rfl
        dsimp only at failed
        split at failed
        · -- A try that is repeated has left the store that the next one meets.
          rw [← kept]
          exact ih failed
        · cases failed
          exact ⟨kept, blames⟩

/-- A put that ends in a key conflict leaves the write store, and its conflicts are the keys of the
sheet that others own. -/
theorem put_refused {engine : Engine} {properties : Properties} {keys : List UniqueKey}
    (ended : (put engine uuid itemType properties base).on world =
      (.error (.storage (.keyConflict keys)), after)) :
    after.write = world.write ∧ keys ≠ [] ∧ ∃ decl, engine.registry.get? itemType = some decl ∧
      keys = world.write.keyConflicts uuid (decl.extractUniqueKeys properties) := by
  rw [put] at ended
  cases declared : engine.registry.get? itemType with
  | none =>
    have required : engine.registry.require itemType = .error (.unknownItemType itemType) := by
      rw [Registry.require, declared]
    rw [required, on_bind_error (ofValidation_on _ _)] at ended
    cases ended
  | some decl =>
    have required : engine.registry.require itemType = .ok decl := by
      rw [Registry.require, declared]
    rw [required, on_bind_ok (ofValidation_on _ _)] at ended
    cases made : decl.entityWrite properties with
    | error error =>
      rw [made, on_bind_error (ofValidation_on _ _)] at ended
      cases ended
    | ok write =>
      rw [made, on_bind_ok (ofValidation_on _ _)] at ended
      rcases bind_error ended with failed | ⟨stored, middle, -, failed⟩
      · obtain ⟨kept, blames⟩ := putLoop_refused failed
        obtain ⟨same, some⟩ := blames keys rfl
        rw [TypeDecl.entityWrite_uniqueKeys made] at same
        exact ⟨kept, some, decl, rfl, same⟩
      · cases failed

end Service

namespace Registry

/-- The names of a type's keys. -/
def keyNames (registry : Registry) (itemType : ItemType) : List String :=
  match registry.get? itemType with
  | some decl => decl.uniqueFields.map decl.uniqueKeyName
  | none => []

/-- No other type has a key of the name of one of this type's keys. -/
def KeysApart (registry : Registry) (itemType : ItemType) : Prop :=
  ∀ other ∈ registry.typeNames, other ≠ itemType →
    ∀ name ∈ registry.keyNames other, name ∉ registry.keyNames itemType

instance (registry : Registry) (itemType : ItemType) : Decidable (registry.KeysApart itemType) :=
  inferInstanceAs (Decidable (∀ other ∈ registry.typeNames, other ≠ itemType →
    ∀ name ∈ registry.keyNames other, name ∉ registry.keyNames itemType))

end Registry

theorem TypeDecl.uniqueKeyName_injective {decl : TypeDecl} {left right : String}
    (same : decl.uniqueKeyName left = decl.uniqueKeyName right) : left = right := by
  rw [uniqueKeyName, uniqueKeyName] at same
  exact (String.append_right_inj _).mp same

namespace Service

open WriteStore

/-- Another live entity of the type holds a scalar in a unique field, and the refused sheet holds
there an equal one, or one of the two is a string that spells the other. -/
structure Clash (registry : Registry) (store : WriteStore) (uuid : Uuid) (itemType : ItemType)
    (properties : Properties) (key : UniqueKey) (field : String) (holder : EntityRecord) :
    Prop where
  unique : ∃ decl, registry.get? itemType = some decl ∧ field ∈ decl.uniqueFields ∧
    decl.uniqueKeyName field = key.name
  lives : store.record? holder.uuid = some holder
  other : holder.uuid ≠ uuid
  typed : holder.itemType = itemType
  alike : ∃ held given, holder.properties.get? field = some held ∧
    properties.get? field = some given ∧ given.scalarText? = some key.value ∧
      (held.Numeral → given.Numeral → held.Alike given)

variable {engine : Engine} {world after : World} {uuid : Uuid} {itemType : ItemType}
  {properties : Properties} {base : Option Sid} {keys : List UniqueKey}

/-- Key conflicts are never spurious, in whatever store edits make and with any faults ahead: each
key that a put is refused for is held by another live entity of the type, in the same field. -/
theorem key_conflicts_clash (reaches : Edit.Reaches engine world.write)
    (apart : engine.registry.KeysApart itemType)
    (refused : (put engine uuid itemType properties base).on world =
      (.error (.storage (.keyConflict keys)), after)) :
    after.write = world.write ∧ keys ≠ [] ∧ ∀ key ∈ keys, ∃ field holder,
      Clash engine.registry world.write uuid itemType properties key field holder := by
  obtain ⟨kept, some, decl, declared, rfl⟩ := put_refused refused
  refine ⟨kept, some, fun key listed => ?_⟩
  obtain ⟨inside, owned⟩ := List.mem_filter.mp listed
  obtain ⟨field, unique, named, text⟩ :=
    (TypeDecl.mem_extractUniqueKeys_iff decl properties key).mp inside
  obtain ⟨owner, other, owns⟩ := (ownedByOther_iff _ _ _).mp owned
  obtain ⟨holder, found, holds⟩ := (reaches.projected.owner_iff key owner).mp owns
  obtain rfl := record?_uuid found
  obtain ⟨holding, declares, place, placed, same, spelt⟩ := holds
  -- A holder of another type would have a unique field whose key goes by this name.
  have typed : holder.itemType = itemType := by
    by_contra elsewhere
    have theirs : key.name ∈ engine.registry.keyNames holder.itemType := by
      rw [Registry.keyNames, declares, ← same]
      exact List.mem_map_of_mem placed
    have ours : key.name ∈ engine.registry.keyNames itemType := by
      rw [Registry.keyNames, declared, ← named]
      exact List.mem_map_of_mem unique
    have declared : holder.itemType ∈ engine.registry.typeNames :=
      (SortedMap.mem_keys_iff _ _).mpr (Option.isSome_iff_exists.mpr ⟨holding, declares⟩)
    exact apart _ declared elsewhere key.name theirs ours
  rw [typed, declared] at declares
  cases declares
  obtain rfl := TypeDecl.uniqueKeyName_injective (same.trans named.symm)
  obtain ⟨held, there, heldText⟩ := Option.bind_eq_some_iff.mp spelt
  obtain ⟨given, here, givenText⟩ := Option.bind_eq_some_iff.mp text
  refine ⟨place, holder, ⟨decl, declared, unique, named⟩, found, other, typed, held, given, there,
    here, givenText, fun numeral numeral' => ?_⟩
  exact (Json.same_text_iff numeral numeral' (heldText ▸ rfl)).mp (heldText.trans givenText.symm)

/-- Authors have a code; the keys of shelves and of shelf rooms go by one name. -/
def catalogue : Registry := .ofDecls [
  (TypeDecl.ofName ⟨"Author"⟩).uniqueKey "code",
  (TypeDecl.ofName ⟨"Shelf"⟩).uniqueKey "room:code",
  (TypeDecl.ofName ⟨"Shelf:room"⟩).uniqueKey "code"]

def numbered (code : Json) : Properties := .ofList [("code", code)]

/-- One and a half. -/
def sesqui : Json := .double (.ofDecimal false 15 (-1))

theorem second_author_of_number_clashes :
    let world := Edit.worldAfter (.precise catalogue) [.put ⟨1⟩ ⟨"Author"⟩ (numbered sesqui) none]
    catalogue.KeysApart ⟨"Author"⟩ ∧ ∃ after,
      (put (.precise catalogue) ⟨2⟩ ⟨"Author"⟩ (numbered sesqui) none).on world =
        (.error (.storage (.keyConflict [⟨"Author:code", "1.5"⟩])), after) ∧
      ∃ field holder, Clash catalogue world.write ⟨2⟩ ⟨"Author"⟩ (numbered sesqui)
        ⟨"Author:code", "1.5"⟩ field holder ∧
        ∃ held, holder.properties.get? field = some held ∧ held.Alike sesqui := by
  intro world
  have unstale : (World.start (.memory .empty)).Unstale := List.not_mem_nil
  have reaches : Edit.Reaches (.precise catalogue) world.write := .run .start unstale _
  have apart : catalogue.KeysApart ⟨"Author"⟩ := by decide +kernel
  have named : conflictsIn ((put (.precise catalogue) ⟨2⟩ ⟨"Author"⟩ (numbered sesqui) none).on
      world).1 = some [⟨"Author:code", "1.5"⟩] := by decide +kernel
  rcases ended : (put (.precise catalogue) ⟨2⟩ ⟨"Author"⟩ (numbered sesqui) none).on world with
    ⟨result, after⟩
  rw [ended] at named
  obtain rfl := eq_of_conflictsIn named
  obtain ⟨-, -, clashes⟩ := key_conflicts_clash reaches apart ended
  obtain ⟨field, holder, clash⟩ := clashes _ List.mem_cons_self
  obtain ⟨held, given, there, here, -, alike⟩ := clash.alike
  have only := SortedMap.mem_of_mem_ofList ((SortedMap.mem_entries_iff _ _ _).mpr here)
  cases List.mem_singleton.mp only
  have numeral : held.Numeral := by
    have checked := of_live (fun holder =>
      (holder.properties.get? "code").all fun held => decide held.Numeral) (by decide +kernel)
      clash.lives
    rw [there] at checked
    exact of_decide_eq_true checked
  exact ⟨apart, after, rfl, _, holder, clash, held, there, alike numeral (by decide +kernel)⟩

/-- A number is refused for a string that spells it, and a shelf room for the key of a shelf,
although no room lives. -/
theorem unequal_codes_are_refused :
    let world := Edit.worldAfter (.precise catalogue) [
      .put ⟨1⟩ ⟨"Author"⟩ (numbered (.string "7")) none,
      .put ⟨3⟩ ⟨"Shelf"⟩ (.ofText "room:code" "7") none]
    conflictsIn ((put (.precise catalogue) ⟨2⟩ ⟨"Author"⟩ (numbered (.integer 7)) none).on
        world).1 = some [⟨"Author:code", "7"⟩] ∧
      conflictsIn ((put (.precise catalogue) ⟨4⟩ ⟨"Shelf:room"⟩ (numbered (.string "7")) none).on
        world).1 = some [⟨"Shelf:room:code", "7"⟩] ∧
      (∀ holder held, world.write.record? holder.uuid = some holder →
        holder.itemType = ⟨"Author"⟩ → holder.properties.get? "code" = some held →
        held.same (.integer 7) = false) ∧
      ∀ holder, world.write.record? holder.uuid = some holder →
        holder.itemType ≠ ⟨"Shelf:room"⟩ := by
  intro world
  refine ⟨by decide +kernel, by decide +kernel, fun holder held lives _ there => ?_,
    fun holder lives => ?_⟩
  · have checked := of_live (fun holder =>
      (holder.properties.get? "code").all fun held => !held.same (.integer 7)) (by decide +kernel)
      lives
    rw [there] at checked
    exact Bool.eq_false_of_not_eq_true' checked
  · have checked := of_live (fun holder => decide (holder.itemType ≠ ⟨"Shelf:room"⟩))
      (by decide +kernel) lives
    exact of_decide_eq_true checked

end Service

end CachedViews
