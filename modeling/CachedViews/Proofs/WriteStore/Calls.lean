import CachedViews.Proofs.WriteStore.Refinement

/-!
Runs of write-store calls. Whatever is created, updated and purged, call by call the store
answers as its ledger does, and a refused call leaves everything as it was.
-/
namespace CachedViews

inductive StoreCall where
  | create (uuid : Uuid) (itemType : ItemType) (write : EntityWrite)
  | update (uuid : Uuid) (write : EntityWrite) (base : Option Sid)
  | purge (uuid : Uuid)

namespace StoreCall

/-- The stamp of a write; a purge has none. -/
def run : StoreCall → Action (Option Sid)
  | create uuid itemType write =>
    some <$> Action.commit fun store => store.create uuid itemType write
  | update uuid write base => some <$> Action.commit fun store => store.update uuid write base
  | purge uuid => (fun _ => none) <$> Service.purgeRecord uuid

def runAll : List StoreCall → World → List (Except EngineError (Option Sid)) × World
  | [], world => ([], world)
  | call :: rest, world =>
    let (answers, last) := runAll rest (call.run.on world).2
    ((call.run.on world).1 :: answers, last)

/-- No named sheet has the name of the default sheet. -/
def NamesApart : StoreCall → Prop
  | create _ _ write | update _ write _ => write.sheets.get? defaultSheet = none
  | purge _ => True

instance : DecidablePred NamesApart
  | create _ _ write | update _ write _ =>
    inferInstanceAs (Decidable (write.sheets.get? defaultSheet = none))
  | purge _ => inferInstanceAs (Decidable True)

/-- Stamps of the writes that were not refused. -/
def stamps {Error : Type} (answers : List (Except Error (Option Sid))) : List Sid :=
  answers.filterMap fun answer => answer.toOption.bind id

end StoreCall

def WriteStore.perform (store : WriteStore) :
    StoreCall → Except StorageError (Option Sid × WriteStore)
  | .create uuid itemType write =>
    (store.create uuid itemType write).map fun (sid, next) => (some sid, next)
  | .update uuid write base =>
    (store.update uuid write base).map fun (sid, next) => (some sid, next)
  | .purge uuid => (store.purge uuid).map fun next => (none, next)

namespace Ledger

def perform (ledger : Ledger) : StoreCall → Except StorageError (Option Sid × Ledger)
  | .create uuid itemType write =>
    (ledger.create uuid itemType write).map fun (sid, next) => (some sid, next)
  | .update uuid write base =>
    (ledger.update uuid write base).map fun (sid, next) => (some sid, next)
  | .purge uuid => (ledger.purge uuid).map fun next => (none, next)

/-- A refused call leaves the ledger as it is. -/
def performAll (ledger : Ledger) :
    List StoreCall → List (Except StorageError (Option Sid)) × Ledger
  | [] => ([], ledger)
  | call :: rest =>
    match ledger.perform call with
    | .ok (answer, next) =>
      let (answers, last) := next.performAll rest
      (.ok answer :: answers, last)
    | .error error =>
      let (answers, last) := ledger.performAll rest
      (.error error :: answers, last)

section Stamps

variable {ledger next : Ledger} {uuid : Uuid} {write : EntityWrite} {sid : Sid}

theorem create_stamped {itemType : ItemType}
    (ended : ledger.create uuid itemType write = .ok (sid, next)) :
    sid = ledger.highest + 1 ∧ next.highest = ledger.highest + 1 := by
  unfold create at ended
  split at ended
  · cases ended
  · split at ended
    · cases ended
      exact ⟨rfl, rfl⟩
    · cases ended

theorem update_stamped {base : Option Sid}
    (ended : ledger.update uuid write base = .ok (sid, next)) :
    sid = ledger.highest + 1 ∧ next.highest = ledger.highest + 1 := by
  unfold update at ended
  split at ended
  · cases ended
  · split at ended
    · cases ended
    · split at ended
      · cases ended
        exact ⟨rfl, rfl⟩
      · cases ended

theorem purge_unstamped (ended : ledger.purge uuid = .ok next) : next.highest = ledger.highest := by
  unfold purge at ended
  split at ended
  · cases ended
  · split at ended
    · cases ended
      rfl
    · cases ended

/-- A call that is not refused takes the next stamp or none. -/
theorem perform_stamped {call : StoreCall} {answer : Option Sid}
    (ended : ledger.perform call = .ok (answer, next)) :
    answer = some (ledger.highest + 1) ∧ next.highest = ledger.highest + 1 ∨
      answer = none ∧ next.highest = ledger.highest := by
  cases call with
  | create uuid itemType write =>
    obtain ⟨⟨sid, after⟩, made, same⟩ := Action.ok_of_map ended
    cases same
    obtain ⟨stamp, highest⟩ := create_stamped made
    exact Or.inl ⟨congrArg some stamp, highest⟩
  | update uuid write base =>
    obtain ⟨⟨sid, after⟩, made, same⟩ := Action.ok_of_map ended
    cases same
    obtain ⟨stamp, highest⟩ := update_stamped made
    exact Or.inl ⟨congrArg some stamp, highest⟩
  | purge uuid =>
    obtain ⟨after, made, same⟩ := Action.ok_of_map ended
    cases same
    exact Or.inr ⟨rfl, purge_unstamped made⟩

end Stamps

theorem stamps_performAll (calls : List StoreCall) (ledger : Ledger) :
    (StoreCall.stamps (ledger.performAll calls).1).Pairwise (· < ·) ∧
      ∀ sid ∈ StoreCall.stamps (ledger.performAll calls).1, ledger.highest < sid := by
  induction calls generalizing ledger with
  | nil => simp [performAll, StoreCall.stamps]
  | cons call rest ih =>
    rw [performAll]
    cases ended : ledger.perform call with
    | error error =>
      exact ih ledger
    | ok result =>
      obtain ⟨answer, next⟩ := result
      obtain ⟨increasing, above⟩ := ih next
      rcases perform_stamped ended with ⟨rfl, taken⟩ | ⟨rfl, kept⟩
      · have later : ∀ sid ∈ StoreCall.stamps (next.performAll rest).1, ledger.highest + 1 < sid :=
          fun sid listed => taken ▸ above sid listed
        refine ⟨List.pairwise_cons.mpr ⟨later, increasing⟩, ?_⟩
        intro sid listed
        rcases List.mem_cons.mp listed with rfl | listed
        · exact Int.lt_succ ledger.highest
        · exact Int.lt_trans (Int.lt_succ ledger.highest) (later sid listed)
      · exact ⟨increasing, fun sid listed => kept ▸ above sid listed⟩

end Ledger

namespace WriteStore

/-- Every read of the store has the answer of the ledger. -/
structure AnswersAs (store : WriteStore) (ledger : Ledger) : Prop where
  get : ∀ uuid, store.get uuid = ledger.get uuid
  getByUniqueKey : ∀ key, store.getByUniqueKey key = ledger.getByUniqueKey key
  keyOwners : ∀ keys, store.keyOwners keys = ledger.keyOwners keys
  sheet : ∀ uuid name, store.sheet uuid name = ledger.sheet uuid name
  history : ∀ uuid, store.history uuid = ledger.history uuid
  revLinks : ∀ uuid, store.revLinks uuid = ledger.revLinks uuid
  maxSid : store.maxSid = ledger.highest
  currentSids : ∀ uuids, store.currentSids uuids = ledger.currentSids uuids
  itemTypeOf : ∀ uuid, store.itemTypeOf uuid = ledger.itemTypeOf uuid
  list : ∀ types, store.list types = ledger.list types

/-- Only a base that is not current is stale. -/
theorem update_eq (store : WriteStore) (uuid : Uuid) (write : EntityWrite) (base : Option Sid) :
    store.update uuid write base =
      match store.rows.get? uuid with
      | none => .error (.notFound uuid)
      | some row =>
        let current := (store.currentSid? uuid).getD 0
        match base.filter fun sid => decide (sid ≠ current) with
        | some expected => .error (.staleWrite uuid expected current)
        | none =>
          match store.keyConflicts uuid write.uniqueKeys with
          | [] => .ok (store.commit uuid row write)
          | conflicts => .error (.keyConflict conflicts) := by
  rw [update]
  cases store.rows.get? uuid with
  | none => rfl
  | some row =>
    cases base with
    | none => exact if_neg fun stale => stale rfl
    | some expected =>
      dsimp only [Option.getD_some, Option.filter]
      by_cases current : expected = (store.currentSid? uuid).getD 0
      · rewrite [if_neg (not_not_intro current), if_neg (by simpa using current)]
        rfl
      · rewrite [if_pos current, if_pos (by simpa using current)]
        rfl

/-- An outcome on the store and one on the ledger: the same answer and the same state after
it, or the same refusal. -/
def Agree {Answer : Type} (left : Except StorageError (Answer × WriteStore))
    (right : Except StorageError (Answer × Ledger)) : Prop :=
  (∃ answer store ledger, left = .ok (answer, store) ∧ right = .ok (answer, ledger) ∧
    Refines store ledger) ∨
  ∃ error, left = .error error ∧ right = .error error

theorem Agree.map {Answer Shown : Type} {left : Except StorageError (Answer × WriteStore)}
    {right : Except StorageError (Answer × Ledger)} (agree : Agree left right)
    (shown : Answer → Shown) :
    Agree (left.map fun (answer, store) => (shown answer, store))
      (right.map fun (answer, ledger) => (shown answer, ledger)) := by
  rcases agree with ⟨answer, store, ledger, rfl, rfl, refines⟩ | ⟨error, rfl, rfl⟩
  · exact Or.inl ⟨shown answer, store, ledger, rfl, rfl, refines⟩
  · exact Or.inr ⟨error, rfl, rfl⟩

namespace Refines

variable {store : WriteStore} {ledger : Ledger} (refines : Refines store ledger)
include refines

theorem answersAs : AnswersAs store ledger where
  get := refines.get_eq
  getByUniqueKey := refines.getByUniqueKey_eq
  keyOwners := refines.keyOwners_eq
  sheet := refines.sheet_eq
  history := refines.history_eq
  revLinks := refines.revLinks_eq
  maxSid := refines.highest
  currentSids := refines.currentSids_eq
  itemTypeOf := refines.itemTypeOf_eq
  list := refines.list_eq

section Writes

variable {uuid : Uuid} {write : EntityWrite}

theorem commit_agree {row : EntityRow} {entry : LedgerEntry} (place : Place store uuid row entry)
    (named : write.sheets.get? defaultSheet = none)
    (free : store.keyConflicts uuid write.uniqueKeys = []) :
    Agree (.ok (store.commit uuid row write)) (.ok (ledger.write uuid entry write)) := by
  have stamp : (ledger.write uuid entry write).1 = (store.commit uuid row write).1 :=
    congrArg (· + 1) refines.highest.symm
  exact Or.inl ⟨(store.commit uuid row write).1, (store.commit uuid row write).2,
    (ledger.write uuid entry write).2, rfl, congrArg Except.ok (Prod.ext stamp rfl),
    refines.commit place named free⟩

theorem create_agree (itemType : ItemType) (named : write.sheets.get? defaultSheet = none) :
    Agree (store.create uuid itemType write) (ledger.create uuid itemType write) := by
  unfold create Ledger.create contains SortedMap.contains
  rcases refines.rows uuid with ⟨missing, unknown⟩ | ⟨row, entry, stored, known, same⟩
  · have stamp : ledger.highest + 1 = store.nextSid := congrArg (· + 1) refines.highest.symm
    simp only [missing, unknown, Option.isSome_none, Bool.false_eq_true, ↓reduceIte, stamp,
      ← refines.keyConflicts_eq]
    cases free : store.keyConflicts uuid write.uniqueKeys with
    | nil => exact refines.commit_agree (Place.of_new missing itemType) named free
    | cons key rest => exact Or.inr ⟨_, rfl, rfl⟩
  · simp only [stored, known, Option.isSome_some, ↓reduceIte]
    exact Or.inr ⟨_, rfl, rfl⟩

theorem currentSid_eq {entry : LedgerEntry}
    (known : ledger.entities.get? uuid = some entry) :
    (store.currentSid? uuid).getD 0 = entry.currentSid := by
  rw [refines.currentSid?_eq, Ledger.record?, known, LedgerEntry.currentSid, Option.bind_some,
    LedgerEntry.record?, Option.map_map]
  rfl

theorem update_agree (base : Option Sid) (named : write.sheets.get? defaultSheet = none) :
    Agree (store.update uuid write base) (ledger.update uuid write base) := by
  rw [update_eq, Ledger.update]
  rcases refines.rows uuid with ⟨missing, unknown⟩ | ⟨row, entry, stored, known, same⟩
  · simp only [missing, unknown]
    exact Or.inr ⟨_, rfl, rfl⟩
  · simp only [stored, known, refines.currentSid_eq known, ← refines.keyConflicts_eq]
    cases base.filter fun sid => decide (sid ≠ entry.currentSid) with
    | some expected => exact Or.inr ⟨_, rfl, rfl⟩
    | none =>
      cases free : store.keyConflicts uuid write.uniqueKeys with
      | nil => exact refines.commit_agree ⟨.stored stored, same⟩ named free
      | cons key rest => exact Or.inr ⟨_, rfl, rfl⟩

theorem purge_agree (uuid : Uuid) :
    @Agree (Option Sid) ((store.purge uuid).map fun next => (none, next))
      ((ledger.purge uuid).map fun next => (none, next)) := by
  unfold Ledger.purge
  rcases refines.rows uuid with ⟨missing, unknown⟩ | ⟨row, entry, stored, known, same⟩
  · have refused : store.purge uuid = .error (.notFound uuid) := by simp [purge, missing]
    rw [refused]
    simp only [unknown]
    exact Or.inr ⟨_, rfl, rfl⟩
  · simp only [known, ← refines.linkedFrom_eq]
    cases linked : (store.linkedFrom uuid).toList with
    | nil =>
      have ended : store.purge uuid = .ok (store.removed uuid row) := by
        simp [purge, stored, linked, WriteStore.removed]
      obtain ⟨_, -, -, unlinked⟩ := purge_ok ended
      rw [ended]
      exact Or.inl ⟨none, _, _, rfl, rfl, refines.removed stored unlinked⟩
    | cons source rest =>
      have refused : store.purge uuid = .error (.referentialIntegrity uuid (source :: rest)) := by
        simp [purge, stored, linked]
      rw [refused]
      exact Or.inr ⟨_, rfl, rfl⟩

theorem perform_agree {call : StoreCall} (apart : call.NamesApart) :
    Agree (store.perform call) (ledger.perform call) := by
  cases call with
  | create uuid itemType write => exact (refines.create_agree itemType apart).map some
  | update uuid write base => exact (refines.update_agree base apart).map some
  | purge uuid => exact refines.purge_agree uuid

end Writes

end Refines

end WriteStore

namespace StoreCall

open CachedViews.Action WriteStore

variable {world : World} {ledger : Ledger}

theorem run_on (calm : world.Calm) (call : StoreCall) :
    call.run.on world =
      match world.write.perform call with
      | .ok (answer, store) => (.ok answer, { world with write := store })
      | .error error => (.error (.storage error), world) := by
  cases call with
  | create uuid itemType write =>
    rw [run, on_map, commit_on calm, perform]
    cases world.write.create uuid itemType write <;> rfl
  | update uuid write base =>
    rw [run, on_map, commit_on calm, perform]
    cases world.write.update uuid write base <;> rfl
  | purge uuid =>
    rw [run, Service.purgeRecord, on_map, commit_on calm, perform]
    cases world.write.purge uuid <;> rfl

/-- What a call does to a world and what it does to a ledger. -/
def Steps (outcome : Except EngineError (Option Sid) × World)
    (model : Except StorageError (Option Sid × Ledger)) (world : World) : Prop :=
  (∃ answer store next, outcome = (.ok answer, { world with write := store }) ∧
    model = .ok (answer, next) ∧ Refines store next) ∨
  ∃ error, outcome = (.error (.storage error), world) ∧ model = .error error

theorem run_steps (calm : world.Calm) (refines : Refines world.write ledger) {call : StoreCall}
    (apart : call.NamesApart) : Steps (call.run.on world) (ledger.perform call) world := by
  rw [run_on calm]
  rcases refines.perform_agree apart with
    ⟨answer, store, next, ended, model, kept⟩ | ⟨error, ended, model⟩
  · rw [ended]
    exact Or.inl ⟨answer, store, next, rfl, model, kept⟩
  · rw [ended]
    exact Or.inr ⟨error, rfl, model⟩

theorem runAll_refines (calm : world.Calm) (refines : Refines world.write ledger)
    (calls : List StoreCall) (apart : ∀ call ∈ calls, call.NamesApart) :
    (runAll calls world).1 = (ledger.performAll calls).1.map (Except.mapError .storage) ∧
      (runAll calls world).2.Calm ∧
        Refines (runAll calls world).2.write (ledger.performAll calls).2 := by
  induction calls generalizing world ledger with
  | nil => exact ⟨rfl, calm, refines⟩
  | cons call rest ih =>
    have later := fun call listed => apart call (List.mem_cons_of_mem _ listed)
    rcases run_steps calm refines (apart call List.mem_cons_self) with
      ⟨answer, store, next, ended, model, kept⟩ | ⟨error, ended, model⟩
    · have still : World.Calm { world with write := store } :=
        calm.of_faults rfl kept.available calm.readable
      obtain ⟨answers, last, agreed⟩ := ih still kept later
      simp only [runAll, Ledger.performAll, ended, model, List.map_cons, answers]
      exact ⟨rfl, last, agreed⟩
    · obtain ⟨answers, last, agreed⟩ := ih calm refines later
      simp only [runAll, Ledger.performAll, ended, model, List.map_cons, answers]
      exact ⟨rfl, last, agreed⟩

theorem stamps_mapError {Error Other : Type} (change : Error → Other)
    (answers : List (Except Error (Option Sid))) :
    stamps (answers.map (Except.mapError change)) = stamps answers := by
  have same : (fun answer => answer.toOption.bind id) ∘ Except.mapError change =
      fun answer : Except Error (Option Sid) => answer.toOption.bind id := by
    funext answer
    cases answer <;> rfl
  rw [stamps, List.filterMap_map, same]
  rfl

/-- From an empty store, every run of calls goes as it does on an empty ledger: each call has
the answer of the ledger, a refused call changes nothing at all, stamps increase, and
afterwards every read has the answer of the ledger. -/
theorem runAll_as_ledger (world : World) (calm : world.Calm) (fresh : world.write = .empty)
    (calls : List StoreCall) (apart : ∀ call ∈ calls, call.NamesApart) :
    (runAll calls world).1 =
        (Ledger.empty.performAll calls).1.map (Except.mapError .storage) ∧
      (runAll calls world).2.write.AnswersAs (Ledger.empty.performAll calls).2 ∧
      (stamps (runAll calls world).1).Pairwise (· < ·) ∧
      ∀ earlier call later error, calls = earlier ++ call :: later →
        (call.run.on (runAll earlier world).2).1 = .error error →
          (call.run.on (runAll earlier world).2).2 = (runAll earlier world).2 := by
  have start : Refines world.write .empty := fresh ▸ Refines.empty
  obtain ⟨answers, -, last⟩ := runAll_refines calm start calls apart
  refine ⟨answers, last.answersAs, ?_, ?_⟩
  · rw [answers, stamps_mapError]
    exact (Ledger.stamps_performAll calls .empty).1
  · rintro earlier call later error rfl refused
    obtain ⟨-, still, between⟩ := runAll_refines calm start earlier fun call listed =>
      apart call (List.mem_append_left _ listed)
    rcases run_steps still between (apart call (by simp)) with
      ⟨answer, store, next, ended, -, -⟩ | ⟨_, ended, -⟩
    · rw [ended] at refused
      cases refused
    · rw [ended]

end StoreCall

end CachedViews
