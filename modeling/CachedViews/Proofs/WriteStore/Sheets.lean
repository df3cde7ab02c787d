import CachedViews.Proofs.WriteStore.Trails

/-!
Sheets do not interfere. A write shows in the sheets that it carries and adds one revision to its
entity; every other sheet, every earlier revision and every other entity stay as they were. But the
default sheet goes by a name too, the empty one: a write that carries a sheet of that name keeps it
in place of its properties.
-/
namespace CachedViews

namespace WriteStore

variable {store : WriteStore} {uuid : Uuid} {row : EntityRow} {write : EntityWrite}

namespace Prior

variable (prior : Prior store uuid row)
include prior

theorem history_eq : row.history = (store.history uuid).toOption.getD [] := by
  cases prior with
  | stored found => simp [history, found, Except.toOption]
  | new vacant itemType =>
    simp only [history, vacant]
    rfl

theorem current?_eq (name : String) :
    (row.current? name).map Revision.properties = (store.sheet uuid name).toOption.join := by
  cases prior with
  | stored found => simp [sheet, found, Except.toOption]
  | new vacant itemType =>
    simp only [sheet, vacant]
    rfl

end Prior

theorem sheet_commit (stamped : Stamped store) (prior : Prior store uuid row)
    (other : Uuid) (name : String) :
    (store.commit uuid row write).2.sheet other name =
      if other = uuid then .ok ((write.sheet? name).or (store.sheet uuid name).toOption.join)
      else store.sheet other name := by
  rw [sheet, commit_rows, SortedMap.get?_insert_eq]
  by_cases same : other = uuid
  · rw [if_pos same, if_pos same]
    dsimp only
    rw [current?_committedRow write (prior.later stamped name), ← prior.current?_eq, Option.map_or,
      Option.map_map]
    cases write.sheet? name <;> rfl
  · rw [if_neg same, if_neg same]
    rfl

theorem history_commit (stamped : Stamped store) (prior : Prior store uuid row) (other : Uuid) :
    (store.commit uuid row write).2.history other =
      if other = uuid then .ok ((store.history uuid).toOption.getD [] ++
        [⟨store.nextSid, (write.sheets.get? defaultSheet).getD write.properties⟩])
      else store.history other := by
  rw [history, commit_rows, SortedMap.get?_insert_eq]
  by_cases same : other = uuid
  · rw [if_pos same, if_pos same]
    dsimp only
    rw [history_committedRow store write fun revision inside => Int.le_of_lt_add_one
      (prior.later stamped _ _ ((row.mem_history_iff revision).mp inside)), prior.history_eq]
  · rw [if_neg same, if_neg same]
    rfl

theorem get_commit (stamped : Stamped store) (prior : Prior store uuid row) :
    ∃ record, (store.commit uuid row write).2.get uuid = .ok record ∧
      record.properties = (write.sheets.get? defaultSheet).getD write.properties := by
  have history := history_committedRow store write fun revision inside => Int.le_of_lt_add_one
    (prior.later stamped _ _ ((row.mem_history_iff revision).mp inside))
  have found : (store.commit uuid row write).2.record? uuid = some (recordAt uuid
      (store.committedRow row write)
      ⟨store.nextSid, (write.sheets.get? defaultSheet).getD write.properties⟩) :=
    record?_of_row (by rw [commit_rows, SortedMap.get?_insert_self]) (by simp [history])
  exact ⟨_, by rw [get, found], rfl⟩

end WriteStore

namespace StoreCall

open WriteStore

/-- A call that creates or updates an entity. -/
inductive Writes (uuid : Uuid) (write : EntityWrite) : StoreCall → Prop where
  | create (itemType : ItemType) : Writes uuid write (.create uuid itemType write)
  | update (base : Option Sid) : Writes uuid write (.update uuid write base)

/-- What a call that succeeds makes of a store. -/
inductive Effect (store : WriteStore) : StoreCall → Option Sid → WriteStore → Prop where
  | wrote {call : StoreCall} {uuid : Uuid} {write : EntityWrite} (writes : call.Writes uuid write)
    {row : EntityRow} (prior : Prior store uuid row) :
    Effect store call (some store.nextSid) (store.commit uuid row write).2
  | purged (uuid : Uuid) (row : EntityRow) :
    Effect store (.purge uuid) none (store.removed uuid row)

theorem Effect.of_perform {store next : WriteStore} {call : StoreCall} {answer : Option Sid}
    (ended : store.perform call = .ok (answer, next)) : Effect store call answer next := by
  cases call with
  | create uuid itemType write =>
    obtain ⟨⟨sid, after⟩, made, same⟩ := Action.ok_of_map ended
    obtain ⟨vacant, -, committed⟩ := create_ok made
    cases committed
    cases same
    exact .wrote (.create itemType) (.new vacant itemType)
  | update uuid write base =>
    obtain ⟨⟨sid, after⟩, made, same⟩ := Action.ok_of_map ended
    obtain ⟨row, stored, -, committed⟩ := update_ok made
    cases committed
    cases same
    exact .wrote (.update base) (.stored stored)
  | purge uuid =>
    obtain ⟨after, made, same⟩ := Action.ok_of_map ended
    obtain ⟨row, -, rfl, -⟩ := purge_ok made
    cases same
    exact .purged uuid row

/-- In any world, a call fails and leaves the store, or does what it does to the store alone. -/
theorem run_performs (call : StoreCall) (world : World) :
    (call.run.on world).2.write = world.write ∧ (call.run.on world).1.toOption = none ∨
      ∃ answer next, (call.run.on world).1 = .ok answer ∧ (call.run.on world).2.write = next ∧
        world.write.perform call = .ok (answer, next) := by
  have ends : ∀ {Answer : Type} (shown : Answer → Option Sid)
      (change : WriteStore → Except StorageError (Answer × WriteStore)),
      ((shown <$> Action.commit change).on world).2.write = world.write ∧
          ((shown <$> Action.commit change).on world).1.toOption = none ∨
        ∃ answer next, ((shown <$> Action.commit change).on world).1 = .ok (shown answer) ∧
          ((shown <$> Action.commit change).on world).2.write = next ∧
            change world.write = .ok (answer, next) := by
    intro Answer shown change
    rw [Action.on_map]
    obtain ⟨now, outages, delays, ⟨error, ended⟩ | ⟨answer, next, made, ended⟩⟩ :=
      Action.commit_cases change world
    · rw [ended]
      exact Or.inl ⟨rfl, rfl⟩
    · rw [ended]
      exact Or.inr ⟨answer, next, rfl, rfl, made⟩
  cases call with
  | create uuid itemType write =>
    refine (ends some _).imp_right ?_
    rintro ⟨sid, next, answered, left, made⟩
    exact ⟨some sid, next, answered, left, by rw [perform, made]; rfl⟩
  | update uuid write base =>
    refine (ends some _).imp_right ?_
    rintro ⟨sid, next, answered, left, made⟩
    exact ⟨some sid, next, answered, left, by rw [perform, made]; rfl⟩
  | purge uuid =>
    refine (ends (fun _ => none) _).imp_right ?_
    rintro ⟨_, next, answered, left, made⟩
    cases gone : world.write.purge uuid with
    | error error => rw [gone] at made; cases made
    | ok after =>
      rw [gone] at made
      cases made
      exact ⟨none, next, answered, left, by rw [perform, gone]; rfl⟩

/-- In any world, a call fails and leaves the store, or has its effect. -/
theorem run_ends (call : StoreCall) (world : World) :
    (call.run.on world).2.write = world.write ∧ (call.run.on world).1.toOption = none ∨
      ∃ answer next, (call.run.on world).1 = .ok answer ∧ (call.run.on world).2.write = next ∧
        Effect world.write call answer next := by
  refine (call.run_performs world).imp_right ?_
  rintro ⟨answer, next, answered, left, ended⟩
  exact ⟨answer, next, answered, left, .of_perform ended⟩

theorem run_stamped (call : StoreCall) {world : World} (stamped : Stamped world.write) :
    Stamped (call.run.on world).2.write := by
  rcases call.run_ends world with ⟨same, -⟩ | ⟨answer, next, -, left, effect⟩
  · exact same ▸ stamped
  · rw [left]
    cases effect with
    | wrote _ prior => exact stamped.committed prior _
    | purged uuid row => exact stamped.removed uuid row

/-- Stores that calls make, one after the other and in any worlds. A store may go out of reach and
come back at any time. -/
inductive Reached : WriteStore → Prop where
  | empty : Reached .empty
  | called {world : World} (before : Reached world.write) (call : StoreCall) :
    Reached (call.run.on world).2.write
  | switched {store : WriteStore} (before : Reached store) (available : Bool) :
    Reached { store with available }

theorem Reached.stamped {store : WriteStore} (reached : Reached store) : Stamped store := by
  induction reached with
  | empty => exact .empty
  | called before call ih => exact call.run_stamped ih
  | switched before available ih => exact ⟨ih.counted, ih.rows, ih.apart⟩

/-- A successful write shows in the sheets that it carries and in no other. Its properties become
the default sheet, unless one of the named sheets goes by the name of that; the one revision that
it adds has the new default sheet, and earlier revisions and other entities stay as they were. -/
theorem writes_own_sheets_only {world : World} (reached : Reached world.write) {call : StoreCall}
    {uuid : Uuid} {write : EntityWrite} (writes : call.Writes uuid write) {sid : Sid}
    (ended : (call.run.on world).1 = .ok (some sid)) :
    let next := (call.run.on world).2.write
    let shown := (write.sheets.get? defaultSheet).getD write.properties
    (∃ record, next.get uuid = .ok record ∧ record.properties = shown) ∧
      next.history uuid = .ok ((world.write.history uuid).toOption.getD [] ++ [⟨sid, shown⟩]) ∧
      next.sheet uuid defaultSheet = .ok (some shown) ∧
      (∀ name, name ≠ defaultSheet → next.sheet uuid name =
        .ok ((write.sheets.get? name).or (world.write.sheet uuid name).toOption.join)) ∧
      ∀ other, other ≠ uuid → next.history other = world.write.history other ∧
        ∀ name, next.sheet other name = world.write.sheet other name := by
  intro next shown
  have stamped := reached.stamped
  rcases call.run_ends world with ⟨-, failed⟩ | ⟨answer, after, answered, left, effect⟩
  · rw [ended] at failed
    cases failed
  · cases ended.symm.trans answered
    simp only [next, left]
    cases effect with
    | @wrote _ written payload same row prior =>
      obtain ⟨rfl, rfl⟩ : written = uuid ∧ payload = write := by
        cases writes <;> cases same <;> exact ⟨rfl, rfl⟩
      refine ⟨get_commit stamped prior, ?_, ?_, ?_, ?_⟩
      · rw [history_commit stamped prior, if_pos rfl]
      · rw [sheet_commit stamped prior, if_pos rfl, payload.sheet?_default, Option.some_or]
      · intro name apart
        rw [sheet_commit stamped prior, if_pos rfl, payload.sheet?_named apart]
      · intro other apart
        refine ⟨?_, fun name => ?_⟩
        · rw [history_commit stamped prior, if_neg apart]
        · rw [sheet_commit stamped prior, if_neg apart]

/-- A book of some title with a note under each of the names. -/
def noted (title : String) (names : List String) : EntityWrite :=
  let text := fun value => SortedMap.ofList [("text", Json.string value)]
  ⟨text title, SortedMap.ofList (names.map fun name => (name, text name)), {}, {}⟩

/-- A second write of a book leaves the note that only the first one carried, and another book. -/
theorem retitled_book_keeps_loans :
    let world := (runAll [.create ⟨1⟩ ⟨"Book"⟩ (noted "Dune" ["loans"]),
      .create ⟨2⟩ ⟨"Book"⟩ (noted "Emma" ["loans"])] (World.start default)).2
    let retitled := noted "Messiah" ["shelf"]
    let next := ((update ⟨1⟩ retitled (some 1)).run.on world).2.write
    (∃ record, next.get ⟨1⟩ = .ok record ∧ record.properties = retitled.properties) ∧
      next.history ⟨1⟩ = .ok [⟨1, (noted "Dune" []).properties⟩, ⟨3, retitled.properties⟩] ∧
      next.sheet ⟨1⟩ "loans" = .ok (some (noted "loans" []).properties) ∧
      next.sheet ⟨1⟩ "shelf" = .ok (some (noted "shelf" []).properties) ∧
      next.history ⟨2⟩ = .ok [⟨2, (noted "Emma" []).properties⟩] ∧
      next.sheet ⟨2⟩ "loans" = .ok (some (noted "loans" []).properties) := by
  intro world retitled next
  have reached : Reached world.write := .called (@Reached.called (World.start default) .empty _) _
  have ended : ((update ⟨1⟩ retitled (some 1)).run.on world).1 = .ok (some 3) := rfl
  obtain ⟨current, history, -, named, others⟩ :=
    writes_own_sheets_only reached (.update (some 1)) ended
  obtain ⟨kept, sheets⟩ := others ⟨2⟩ (by decide)
  exact ⟨current, history, named "loans" (by decide), named "shelf" (by decide), kept,
    sheets "loans"⟩

/-- A note without a name takes the place of the title, in the record and in the history. -/
theorem nameless_note_replaces_title :
    let world := World.start default
    let book := noted "Dune" [defaultSheet]
    let call := create ⟨1⟩ ⟨"Book"⟩ book
    let next := (call.run.on world).2.write
    Reached world.write ∧ call.Writes ⟨1⟩ book ∧ (call.run.on world).1 = .ok (some 1) ∧
      (∃ record, next.get ⟨1⟩ = .ok record ∧ record.properties ≠ book.properties) ∧
      ∃ last, next.history ⟨1⟩ = .ok [last] ∧ last.properties ≠ book.properties := by
  intro world book call next
  have apart : (noted defaultSheet []).properties ≠ book.properties := fun same =>
    absurd (congrArg (fun sheet => (sheet.get? "text").bind Json.text?) same) (by decide)
  exact ⟨.empty, .create _, rfl, ⟨_, rfl, apart⟩, ⟨_, rfl, apart⟩⟩

end StoreCall

end CachedViews
