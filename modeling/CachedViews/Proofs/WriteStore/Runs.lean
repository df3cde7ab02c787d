import CachedViews.Proofs.WriteStore.Transactions

/-!
Runs of transactions on the tables. As long as stamps last, every call has the answer of the ledger
and so has every read after it, and a call that is refused leaves tables and sequence as they were.
The rows that an engine works on are those of tables that its calls fill.
-/
namespace CachedViews

/-- The call as a transaction on the tables. -/
def StoreCall.transact : StoreCall → Transaction (Option Sid)
  | create uuid itemType write => some <$> TableStore.create uuid itemType write
  | update uuid write base => some <$> TableStore.update uuid write base
  | purge uuid => (fun _ => none) <$> TableStore.purge uuid

namespace Ledger

/-- Every stamp that was handed out answered one call. -/
theorem highest_performAll (calls : List StoreCall) (ledger : Ledger) :
    (ledger.performAll calls).2.highest =
      ledger.highest + (StoreCall.stamps (ledger.performAll calls).1).length := by
  induction calls generalizing ledger with
  | nil => simp [performAll, StoreCall.stamps]
  | cons call rest ih =>
    rw [performAll]
    cases ended : ledger.perform call with
    | error error => exact ih ledger
    | ok result =>
      obtain ⟨answer, next⟩ := result
      have after := ih next
      rcases perform_stamped ended with ⟨rfl, taken⟩ | ⟨rfl, kept⟩
      · have listed :
            StoreCall.stamps (.ok (some (ledger.highest + 1)) :: (next.performAll rest).1) =
              (ledger.highest + 1) :: StoreCall.stamps (next.performAll rest).1 := rfl
        rw [listed, List.length_cons, Int.natCast_succ, ← Int.add_assoc, Int.add_right_comm,
          ← taken]
        exact after
      · exact kept ▸ after

/-- What ends in time begins in time. -/
theorem highest_lt_of_performAll {calls : List StoreCall} {ledger : Ledger} {bound : Sid}
    (room : (ledger.performAll calls).2.highest < bound) : ledger.highest < bound := by
  rw [highest_performAll] at room
  exact Int.lt_of_le_of_lt (Int.le_add_of_nonneg_right (Int.natCast_nonneg _)) room

theorem highest_lt_of_perform {call : StoreCall} {rest : List StoreCall} {ledger : Ledger}
    {bound : Sid} (room : (ledger.performAll (call :: rest)).2.highest < bound)
    (answer : Option Sid) (next : Ledger) (ended : ledger.perform call = .ok (answer, next)) :
    next.highest < bound := by
  rw [performAll, ended] at room
  exact highest_lt_of_performAll room

theorem performAll_append (earlier later : List StoreCall) (ledger : Ledger) :
    (ledger.performAll (earlier ++ later)).2 =
      ((ledger.performAll earlier).2.performAll later).2 := by
  induction earlier generalizing ledger with
  | nil => rfl
  | cons call rest ih =>
    rw [List.cons_append, performAll, performAll]
    cases ledger.perform call with
    | error error => exact ih ledger
    | ok result => exact ih result.2

end Ledger

namespace TableStore

open WriteStore (Refines)

def runAll : List StoreCall → TableStore → List (Except StorageError (Option Sid)) × TableStore
  | [], store => ([], store)
  | call :: rest, store =>
    let (answers, last) := runAll rest (call.transact.on store).2
    ((call.transact.on store).1 :: answers, last)

variable {store : TableStore} {rows : WriteStore} {ledger : Ledger}

theorem Agree.map {Answer Shown : Type} {transaction : Transaction Answer}
    {model : Except StorageError (Answer × WriteStore)}
    (agree : Agree store (transaction.on store) model) (shown : Answer → Shown) :
    Agree store ((shown <$> transaction).on store)
      (model.map fun (answer, rows) => (shown answer, rows)) := by
  have mapped : (shown <$> transaction).on store =
      ((transaction.on store).1.map shown, (transaction.on store).2) := by
    rw [map_eq_pure_bind]
    rcases ended : transaction.on store with ⟨error | answer, next⟩ <;>
    · simp only [Transaction.on, ExceptT.run_bind, StateT.run_bind] at ended ⊢
      rw [ended]
      rfl
  rw [mapped]
  rcases agree with ⟨answer, next, rows, ended, rfl, kept⟩ | ⟨error, ended, rfl⟩
  · rw [ended]
    exact Or.inl ⟨shown answer, next, rows, rfl, rfl, kept⟩
  · rw [ended]
    exact Or.inr ⟨error, rfl, rfl⟩

theorem Represents.transact_agree (represents : Represents store rows)
    (available : store.available = true) {call : StoreCall}
    (room : ∀ answer next, rows.perform call = .ok (answer, next) →
      next.maxSid < Width.values 63) :
    Agree store (call.transact.on store) (rows.perform call) := by
  cases call with
  | create uuid itemType write =>
    refine (represents.create_agree available fun sid next ended => ?_).map some
    exact room (some sid) next (by rw [WriteStore.perform, ended]; rfl)
  | update uuid write base =>
    refine (represents.update_agree available fun sid next ended => ?_).map some
    exact room (some sid) next (by rw [WriteStore.perform, ended]; rfl)
  | purge uuid =>
    have agree := (represents.purge_agree available uuid).map fun _ => (none : Option Sid)
    rw [WriteStore.perform]
    cases ended : rows.purge uuid <;> rw [ended] at agree <;> exact agree

/-- The tables and the ledger after the same calls. -/
structure Accounts (store : TableStore) (ledger : Ledger) : Prop where
  available : store.available = true
  rows : ∃ rows, Represents store rows ∧ Refines rows ledger

/-- A call on the tables has the answer of the ledger, and a refused one changes nothing. -/
theorem Accounts.transact (accounts : Accounts store ledger) {call : StoreCall}
    (apart : call.NamesApart)
    (room : ∀ answer next, ledger.perform call = .ok (answer, next) →
      next.highest < Width.values 63) :
    (∃ answer next after, call.transact.on store = (.ok answer, next) ∧
      ledger.perform call = .ok (answer, after) ∧ Accounts next after) ∨
    ∃ error, call.transact.on store = (.error error, store) ∧
      ledger.perform call = .error error := by
  obtain ⟨rows, represents, refines⟩ := accounts.rows
  have model := refines.perform_agree apart
  have agree : Agree store (call.transact.on store) (rows.perform call) := by
    refine represents.transact_agree accounts.available fun answer next ended => ?_
    rcases model with ⟨_, _, after, done, performed, kept⟩ | ⟨error, refused, -⟩
    · cases ended.symm.trans done
      exact kept.highest ▸ room _ _ performed
    · cases ended.symm.trans refused
  rcases agree with ⟨answer, next, after, ended, done, still, kept⟩ | ⟨error, ended, refused⟩
  · rcases model with ⟨_, _, last, same, performed, refined⟩ | ⟨_, same, -⟩
    · cases done.symm.trans same
      exact Or.inl ⟨answer, next, last, ended, performed, still.trans accounts.available, after,
        kept, refined⟩
    · cases done.symm.trans same
  · rcases model with ⟨_, _, _, same, -, -⟩ | ⟨_, same, performed⟩
    · cases refused.symm.trans same
    · cases refused.symm.trans same
      exact Or.inr ⟨error, ended, performed⟩

theorem Accounts.runAll (accounts : Accounts store ledger) (calls : List StoreCall)
    (apart : ∀ call ∈ calls, call.NamesApart)
    (room : (ledger.performAll calls).2.highest < Width.values 63) :
    (TableStore.runAll calls store).1 = (ledger.performAll calls).1 ∧
      Accounts (TableStore.runAll calls store).2 (ledger.performAll calls).2 := by
  induction calls generalizing store ledger with
  | nil => exact ⟨rfl, accounts⟩
  | cons call rest ih =>
    have later := fun call listed => apart call (List.mem_cons_of_mem _ listed)
    rcases accounts.transact (apart call List.mem_cons_self)
        (Ledger.highest_lt_of_perform room) with
      ⟨answer, next, after, ended, performed, kept⟩ | ⟨error, ended, refused⟩
    · rw [Ledger.performAll, performed] at room
      obtain ⟨answers, last⟩ := ih kept later room
      rw [TableStore.runAll, Ledger.performAll, ended, performed]
      exact ⟨congrArg (Except.ok answer :: ·) answers, last⟩
    · rw [Ledger.performAll, refused] at room
      obtain ⟨answers, last⟩ := ih accounts later room
      rw [TableStore.runAll, Ledger.performAll, ended, refused]
      exact ⟨congrArg (Except.error error :: ·) answers, last⟩

theorem Accounts.answersAs (accounts : Accounts store ledger)
    (room : ledger.highest < Width.values 63) : AnswersAs store ledger := by
  obtain ⟨rows, represents, refines⟩ := accounts.rows
  have reads := refines.answersAs
  have available := accounts.available
  exact {
    record := fun uuid => (represents.record_on available uuid).trans (by rw [reads.get])
    recordByKey := fun key =>
      (represents.recordByKey_on available key).trans (by rw [reads.getByUniqueKey])
    keyOwners := fun keys =>
      (represents.keyOwners_on available keys).trans (by rw [reads.keyOwners])
    sheet := fun uuid name => (represents.sheet_on available uuid name).trans (by rw [reads.sheet])
    history := fun uuid =>
      (represents.history_on available (reads.maxSid ▸ room) uuid).trans (by rw [reads.history])
    revLinks := fun uuid => (represents.revLinks_on available uuid).trans (by rw [reads.revLinks])
    maxSid := (represents.maxSid_on available).trans (by rw [reads.maxSid])
    currentSids := fun uuids =>
      (represents.currentSids_on available uuids).trans (by rw [reads.currentSids])
    itemTypeOf := fun uuid =>
      (represents.itemTypeOf_on available uuid).trans (by rw [reads.itemTypeOf])
    list := fun types => (represents.list_on available types).trans (by rw [reads.list]) }

/-- From empty tables, every run of calls goes as it does on an empty ledger while there are stamps
to hand out: each call has the answer of the ledger, a refused call leaves tables and sequence as
they were, stamps increase, and afterwards every read has the answer of the ledger. -/
theorem transactions_as_ledger (calls : List StoreCall) (apart : ∀ call ∈ calls, call.NamesApart)
    (few : (StoreCall.stamps (Ledger.empty.performAll calls).1).length < Width.values 63) :
    (runAll calls .empty).1 = (Ledger.empty.performAll calls).1 ∧
      (runAll calls .empty).2.AnswersAs (Ledger.empty.performAll calls).2 ∧
      (StoreCall.stamps (runAll calls .empty).1).Pairwise (· < ·) ∧
      ∀ earlier call later error, calls = earlier ++ call :: later →
        (call.transact.on (runAll earlier .empty).2).1 = .error error →
          (call.transact.on (runAll earlier .empty).2).2 = (runAll earlier .empty).2 := by
  have start : Accounts .empty .empty := ⟨rfl, .empty, .empty, .empty⟩
  have room : (Ledger.empty.performAll calls).2.highest < Width.values 63 := by
    rw [Ledger.highest_performAll]
    change 0 + ((StoreCall.stamps (Ledger.empty.performAll calls).1).length : Int) < Width.values 63
    omega
  obtain ⟨answers, last⟩ := start.runAll calls apart room
  refine ⟨answers, last.answersAs room, ?_, ?_⟩
  · rw [answers]
    exact (Ledger.stamps_performAll calls .empty).1
  · rintro earlier call later error rfl refused
    rw [Ledger.performAll_append] at room
    obtain ⟨-, between⟩ := start.runAll earlier
      (fun call listed => apart call (List.mem_append_left _ listed))
      (Ledger.highest_lt_of_performAll room)
    rcases between.transact (apart call (by simp)) (Ledger.highest_lt_of_perform room) with
      ⟨answer, next, after, ended, -, -⟩ | ⟨_, ended, -⟩
    · rw [ended] at refused
      cases refused
    · rw [ended]

/-- Two entities that hand a key over, link in a circle and go one after the other. -/
def handover : List StoreCall :=
  let write := fun links keys : List String => (⟨{}, SortedMap.ofList [("note", {})],
    SortedSet.ofList (links.map fun field => ⟨field, ⟨1⟩⟩),
    SortedSet.ofList (keys.map fun value => ⟨"name", value⟩)⟩ : EntityWrite)
  [.create ⟨1⟩ ⟨"T"⟩ (write ["self"] ["b", "a"]), .create ⟨1⟩ ⟨"T"⟩ (write [] []),
    .create ⟨2⟩ ⟨"T"⟩ (write ["up"] ["b", "c", "a"]), .create ⟨2⟩ ⟨"T"⟩ (write ["up"] ["c"]),
    .update ⟨1⟩ (write ["self"] ["b"]) (some 5), .update ⟨1⟩ (write ["self"] ["b"]) (some 1),
    .update ⟨2⟩ (write ["up"] ["a"]) none, .purge ⟨1⟩, .purge ⟨2⟩, .purge ⟨1⟩, .purge ⟨1⟩,
    .create ⟨1⟩ ⟨"T"⟩ (write [] ["a"])]

theorem handover_as_ledger :
    (runAll handover .empty).1 = [.ok (some 1), .error (.uuidConflict ⟨1⟩),
      .error (.keyConflict [⟨"name", "a"⟩, ⟨"name", "b"⟩]), .ok (some 2),
      .error (.staleWrite ⟨1⟩ 5 1), .ok (some 3), .ok (some 4),
      .error (.referentialIntegrity ⟨1⟩ [⟨2⟩]), .ok none, .ok none, .error (.notFound ⟨1⟩),
      .ok (some 5)] ∧
      (runAll handover .empty).2.AnswersAs (Ledger.empty.performAll handover).2 := by
  obtain ⟨answers, reads, -⟩ :=
    transactions_as_ledger handover (by decide +kernel) (by decide +kernel)
  rw [answers]
  exact ⟨by rfl, reads⟩

theorem runAll_append (earlier later : List StoreCall) (store : TableStore) :
    (runAll (earlier ++ later) store).2 = (runAll later (runAll earlier store).2).2 := by
  induction earlier generalizing store with
  | nil => rfl
  | cons call rest ih => exact ih (call.transact.on store).2

/-- Whatever calls made the rows, in whatever worlds, there are tables that transactions filled and
that stand for them. -/
theorem exists_represents (reached : StoreCall.Reached rows)
    (room : rows.maxSid < Width.values 63) :
    ∃ calls, (runAll calls .empty).2.available = true ∧
      Represents (runAll calls .empty).2 rows := by
  induction reached with
  | empty => exact ⟨[], rfl, .empty⟩
  | @called world before call ih =>
    rcases call.run_performs world with ⟨same, -⟩ | ⟨answer, next, -, left, ended⟩
    · rw [same] at room ⊢
      exact ih room
    · rw [left] at room ⊢
      have earlier : world.write.maxSid ≤ next.maxSid := by
        cases StoreCall.Effect.of_perform ended with
        | wrote => exact world.write.maxSid_le_nextSid
        | purged => exact Int.le_refl _
      obtain ⟨calls, available, represents⟩ := ih (Int.lt_of_le_of_lt earlier room)
      refine ⟨calls ++ [call], ?_⟩
      rw [runAll_append]
      have agree := represents.transact_agree available fun other after done => by
        cases ended.symm.trans done
        exact room
      rcases agree with ⟨_, after, _, done, same, still, kept⟩ | ⟨error, -, refused⟩
      · cases ended.symm.trans same
        simp only [runAll, done]
        exact ⟨still.trans available, kept⟩
      · cases ended.symm.trans refused
  | @switched store before available ih =>
    obtain ⟨calls, available, represents⟩ := ih room
    refine ⟨calls, available, ⟨?_, ?_, represents.sequence⟩⟩
    · exact ⟨represents.mirrors.resources, represents.mirrors.stored, represents.mirrors.vacant,
        represents.mirrors.edges, represents.mirrors.owners, represents.mirrors.maxSid⟩
    · exact ⟨represents.stamped.counted, represents.stamped.rows, represents.stamped.apart⟩

end TableStore

end CachedViews
