import CachedViews.Proofs.Embedding.Declared
import CachedViews.Proofs.Service.Entities
import CachedViews.Proofs.WriteStore.Trails

/-!
Storing an entity while other clients write. A put goes through operations on the stores and on the
queue, and before each of them others may have created, updated and purged whatever they like. The
stamp that an update is pinned to makes up for that: when it is accepted, the sheet that was read is
still the one that is replaced, so that the queued diff is the one between two revisions in a row.
-/
namespace CachedViews

namespace WriteStore

variable {store next : WriteStore} {uuid : Uuid}

/-- An update is accepted on the current stamp only. -/
theorem update_pinned {write : EntityWrite} {pinned sid : Sid}
    (ended : store.update uuid write (some pinned) = .ok (sid, next)) :
    (store.currentSid? uuid).getD 0 = pinned := by
  unfold update at ended
  split at ended
  · cases ended
  · dsimp only [Option.getD_some] at ended
    split at ended
    · cases ended
    · rename_i current
      exact (Decidable.not_not.mp current).symm

end WriteStore

/-- Only time passed, and faults that lay ahead were met. -/
def World.Waited (before after : World) : Prop :=
  ∃ now faults, after = { before with now, faults }

instance : World.Chain World.Waited where
  refl world := ⟨world.now, world.faults, rfl⟩
  trans := by
    rintro first _ _ ⟨now, faults, rfl⟩ ⟨later, remaining, rfl⟩
    exact ⟨later, remaining, rfl⟩

namespace Action

theorem pause_waits (duration : Duration) : Keeps World.Waited (pause duration) := fun world => by
  obtain ⟨now, after⟩ := pause_after duration world
  exact ⟨now, _, after⟩

theorem reach_waits : Keeps World.Waited reach := fun world => by
  obtain ⟨now, outages, delays, after⟩ := reach_after world
  exact ⟨now, _, after⟩

theorem nextRecordFault_waits : Keeps World.Waited nextRecordFault :=
  keeps_modifyGet fun world => by
    split
    · exact World.Chain.refl world
    · exact ⟨world.now, _, rfl⟩

theorem writeStore_waits : Keeps World.Waited writeStore := fun world => by
  obtain ⟨now, outages, delays, after⟩ := writeStore_after world
  exact ⟨now, _, after⟩

theorem underFault_waits (captured : Option EntityRecord) (uuid : Uuid) (fault : RecordFault) :
    Keeps World.Waited (underFault captured uuid fault) := by
  have current : Keeps World.Waited (currentRecord uuid) :=
    writeStore_waits.bind fun _ => keeps_ofStorage _
  cases fault with
  | pass => exact current
  | missing => exact keeps_throw _
  | unavailable => exact keeps_throw _
  | stale =>
    cases captured with
    | none => exact current
    | some captured =>
      rw [underFault]
      split
      · exact keeps_pure _
      · exact current

/-- Looking up a record changes no component of the engine. -/
theorem record_waits (uuid : Uuid) : Keeps World.Waited (record uuid) := by
  rw [record_eq]
  exact keeps_get.bind fun world => (pause_waits _).bind fun _ =>
    nextRecordFault_waits.bind fun fault => underFault_waits world.faults.captured uuid fault

end Action

namespace Service

open CachedViews.Action WriteStore

/-- A put as its caller makes it. -/
structure PutCall where
  engine : Engine
  uuid : Uuid
  itemType : ItemType
  properties : Properties
  base : Option Sid

/-- Where a put stands between two operations. -/
inductive PutStage where
  | reading (write : EntityWrite) (retries : Nat)
  | writing (write : EntityWrite) (retries : Nat) (existing : Option EntityRecord)
  | queueing (stored : Stored)
  | ended (result : Except EngineError Sid)

/-- How many operations are left at most. -/
def PutStage.left : PutStage → Nat
  | reading _ retries => 2 * retries + 3
  | writing _ retries _ => 2 * retries + 2
  | queueing _ => 1
  | ended _ => 0

namespace PutCall

variable (call : PutCall)

def action : Action Sid := put call.engine call.uuid call.itemType call.properties call.base

/-- The sheet is checked before anything is asked. -/
def opening : PutStage :=
  match (do (← call.engine.registry.require call.itemType).entityWrite call.properties) with
  | .ok write => .reading write putRetries
  | .error error => .ended (.error (.validation error))

/-- What follows on a write that was refused. -/
def refused (write : EntityWrite) (error : EngineError) : Nat → PutStage
  | 0 => .ended (.error error)
  | retries + 1 =>
    if call.base.isNone && isRace error then .reading write retries else .ended (.error error)

def message (stored : Stored) : Message :=
  .primary ⟨call.itemType, call.uuid⟩ (some stored.sid) stored.diff

/-- The one operation of a stage, and the stage that comes after it. -/
def operate : PutStage → Action PutStage
  | .reading write retries =>
    PutStage.writing write retries <$> Action.orNotFound (Action.record call.uuid)
  | .writing write retries existing => do
    match ← writeOver call.uuid call.itemType write call.base existing with
    | .ok stored => return .queueing stored
    | .error error => return call.refused write error retries
  | .queueing stored => do
    let _ ← Action.send .primary [call.message stored]
    return .ended (.ok stored.sid)
  | .ended result => return .ended result

/-- One operation in a world. An error that it ends in is the end of the put. -/
def next (stage : PutStage) (world : World) : PutStage × World :=
  match (call.operate stage).on world with
  | (.ok stage, after) => (stage, after)
  | (.error error, after) => (.ended (.error error), after)

def finish (stored : Stored) : Action Sid := do
  let _ ← Action.send .primary [call.message stored]
  return stored.sid

def afterRefusal (write : EntityWrite) (error : EngineError) : Nat → Action Stored
  | 0 => throw error
  | retries + 1 =>
    if call.base.isNone && isRace error then
      putLoop call.uuid call.itemType write call.base retries
    else throw error

/-- The part of a put that a stage has still ahead. -/
def rest : PutStage → Action Sid
  | .reading write retries => putLoop call.uuid call.itemType write call.base retries >>= call.finish
  | .writing write retries existing => do
    match ← writeOver call.uuid call.itemType write call.base existing with
    | .ok stored => call.finish stored
    | .error error => call.afterRefusal write error retries >>= call.finish
  | .queueing stored => call.finish stored
  | .ended (.ok sid) => return sid
  | .ended (.error error) => throw error

variable {call} {write : EntityWrite} {retries : Nat} {world : World}

theorem putLoop_eq (write : EntityWrite) (retries : Nat) :
    putLoop call.uuid call.itemType write call.base retries = (do
      match ← tryPut call.uuid call.itemType write call.base with
      | .ok stored => return stored
      | .error error => call.afterRefusal write error retries) := by
  cases retries with
  | zero => rfl
  | succ retries => rfl

theorem rest_refused (write : EntityWrite) (error : EngineError) (retries : Nat) (world : World) :
    (call.rest (call.refused write error retries)).on world =
      (call.afterRefusal write error retries >>= call.finish).on world := by
  cases retries with
  | zero => rfl
  | succ retries =>
    rw [refused, afterRefusal]
    split
    · rfl
    · rfl

/-- One operation now and the rest after it make the rest that was ahead. -/
theorem rest_next (stage : PutStage) (world : World) :
    (call.rest (call.next stage world).1).on (call.next stage world).2 =
      (call.rest stage).on world := by
  cases stage with
  | reading write retries =>
    rw [next, operate, on_map, rest, putLoop_eq, tryPut]
    simp only [bind_assoc]
    rw [on_bind]
    rcases (orNotFound (Action.record call.uuid)).on world with ⟨error | existing, after⟩
    · rfl
    · dsimp only
      rw [rest, on_bind, on_bind]
      rcases (writeOver call.uuid call.itemType write call.base existing).on after with
        ⟨error | error | stored, last⟩
      · rfl
      · rfl
      · rfl
  | writing write retries existing =>
    rw [next, operate, rest, on_bind, on_bind]
    rcases (writeOver call.uuid call.itemType write call.base existing).on world with
      ⟨error | error | stored, after⟩
    · rfl
    · exact call.rest_refused write error retries after
    · rfl
  | queueing stored => rfl
  | ended result => rfl

theorem left_refused_le (write : EntityWrite) (error : EngineError) (retries : Nat) :
    (call.refused write error retries).left ≤ 2 * retries + 1 := by
  cases retries with
  | zero => exact Nat.zero_le _
  | succ retries =>
    rw [refused]
    split
    · exact Nat.le_refl _
    · exact Nat.zero_le _

theorem left_next_lt (stage : PutStage) (world : World) (ahead : 0 < stage.left) :
    (call.next stage world).1.left < stage.left := by
  rw [next]
  split
  · rename_i later after ended
    cases stage with
    | reading write retries =>
      rw [operate, on_map] at ended
      rcases looked : (orNotFound (Action.record call.uuid)).on world with ⟨error | existing, middle⟩
      · rw [looked] at ended
        cases ended
      · rw [looked] at ended
        cases ended
        exact Nat.lt_succ_self _
    | writing write retries existing =>
      obtain ⟨result, middle, -, ended⟩ := bind_ok ended
      cases result with
      | ok stored =>
        cases ended
        exact Nat.succ_lt_succ (Nat.succ_pos _)
      | error error =>
        cases ended
        exact Nat.lt_succ_of_le (call.left_refused_le write error retries)
    | queueing stored =>
      cases ended
      exact Nat.one_pos
    | ended result => exact absurd ahead (Nat.lt_irrefl 0)
  · exact ahead

theorem rest_opening (call : PutCall) (world : World) :
    (call.rest call.opening).on world = call.action.on world := by
  rw [opening, action, put]
  cases call.engine.registry.require call.itemType with
  | error error => rfl
  | ok decl =>
    rw [on_bind_ok (ofValidation_on _ _)]
    cases made : decl.entityWrite call.properties with
    | error error =>
      rw [on_bind_error (ofValidation_on _ _)]
      simp only [bind, Except.bind, made]
      rfl
    | ok write =>
      rw [on_bind_ok (ofValidation_on _ _)]
      simp only [bind, Except.bind, made]
      rfl

end PutCall

/-- What others do before an operation: a call on the write store, and anything with the rest of the
engine. They make no look-up show an outdated record. -/
structure Meddled (before after : World) : Prop where
  store : ∃ (call : StoreCall) (world : World), world.write = before.write ∧
    (call.run.on world).2.write = after.write
  unstale : before.Unstale → after.Unstale

/-- A put among other clients, with the worlds before and after each of its own operations. -/
inductive Interleaved (call : PutCall) (start : World) :
    List (World × World) → PutStage → World → Prop where
  | start : Interleaved call start [] call.opening start
  | own {steps : List (World × World)} {stage : PutStage} {world : World}
    (before : Interleaved call start steps stage world) :
    Interleaved call start (steps ++ [(world, (call.next stage world).2)])
      (call.next stage world).1 (call.next stage world).2
  | other {steps : List (World × World)} {stage : PutStage} {world after : World}
    (before : Interleaved call start steps stage world) (meddled : Meddled world after) :
    Interleaved call start steps stage after

namespace Interleaved

variable {call : PutCall} {start world : World} {steps : List (World × World)} {stage : PutStage}

/-- Left alone, a put goes on to its end. -/
theorem completes (run : Interleaved call start steps stage world) :
    ∃ more, Interleaved call start (steps ++ more) (.ended ((call.rest stage).on world).1)
      ((call.rest stage).on world).2 := by
  induction left : stage.left using Nat.strongRecOn generalizing steps stage world with
  | ind left ih =>
    have further : 0 < stage.left → ∃ more, Interleaved call start (steps ++ more)
        (.ended ((call.rest stage).on world).1) ((call.rest stage).on world).2 := by
      intro ahead
      obtain ⟨more, last⟩ := ih _ (left ▸ call.left_next_lt stage world ahead) run.own rfl
      rw [PutCall.rest_next, List.append_assoc] at last
      exact ⟨_, last⟩
    cases stage with
    | reading write retries => exact further (Nat.succ_pos _)
    | writing write retries existing => exact further (Nat.succ_pos _)
    | queueing stored => exact further Nat.one_pos
    | ended result =>
      refine ⟨[], ?_⟩
      rw [List.append_nil]
      cases result <;> exact run

/-- A put that nobody comes in between is one of the runs. -/
theorem alone (call : PutCall) (world : World) :
    ∃ steps, Interleaved call world steps (.ended (call.action.on world).1)
      (call.action.on world).2 := by
  have opened : Interleaved call world [] call.opening world := .start
  obtain ⟨more, run⟩ := opened.completes
  rw [PutCall.rest_opening] at run
  exact ⟨_, run⟩

end Interleaved

section Steps

variable {Component : Type} (component : World → Component)

/-- No operation touches a component. -/
def Quiet (steps : List (World × World)) : Prop :=
  ∀ step ∈ steps, component step.2 = component step.1

/-- One operation changes a component, and no other touches it. -/
def Once (change : World → World → Prop) (steps : List (World × World)) : Prop :=
  ∃ early before after late, steps = early ++ (before, after) :: late ∧ change before after ∧
    Quiet component (early ++ late)

variable {component} {change : World → World → Prop} {steps : List (World × World)}
  {before after : World}

theorem Quiet.still (quiet : Quiet component steps) (still : component after = component before) :
    Quiet component (steps ++ [(before, after)]) := by
  intro step inside
  rcases List.mem_append.mp inside with earlier | last
  · exact quiet step earlier
  · obtain rfl := List.mem_singleton.mp last
    exact still

theorem Quiet.once (quiet : Quiet component steps) (changed : change before after) :
    Once component change (steps ++ [(before, after)]) :=
  ⟨steps, before, after, [], rfl, changed, by rwa [List.append_nil]⟩

theorem Once.still (once : Once component change steps)
    (still : component after = component before) :
    Once component change (steps ++ [(before, after)]) := by
  obtain ⟨early, first, second, late, rfl, changed, quiet⟩ := once
  refine ⟨early, first, second, late ++ [(before, after)], by simp, changed, ?_⟩
  rw [← List.append_assoc]
  exact quiet.still still

end Steps

namespace PutCall

variable (call : PutCall)

/-- The put committed one revision, under the type that it was called with. There was no entity
before, or the diff is the one to the revision right before it. -/
structure Replaced (stored : Stored) (before after : WriteStore) : Prop where
  revisions : ∀ other, after.revisions other =
    if other = call.uuid then before.revisions other ++ [⟨stored.sid, call.properties⟩]
    else before.revisions other
  typed : after.itemTypeOf call.uuid = some call.itemType
  diff : before.contains call.uuid = false ∧ stored.diff = none ∨
    ∃ previous, (before.revisions call.uuid).getLast? = some previous ∧
      stored.diff = some (FieldDiff.encode call.itemType previous.properties call.properties)

/-- What the operations of a put did by the time that it has a result. -/
def Replays (steps : List (World × World)) : Except EngineError Sid → Prop
  | .ok sid => ∃ diff,
    Once World.write (fun before after =>
      call.Replaced ⟨sid, diff⟩ before.write after.write) steps ∧
    Once World.queue (fun before after =>
      after.queue = (before.queue.send .primary before.now [call.message ⟨sid, diff⟩]).2) steps
  | .error _ => Quiet World.write steps ∧ Quiet World.queue steps

end PutCall

section Writing

variable {uuid : Uuid} {itemType : ItemType} {write : EntityWrite} {base : Option Sid}
  {existing : Option EntityRecord}

/-- How a try to write leads to something stored. -/
inductive Writes (uuid : Uuid) (itemType : ItemType) (write : EntityWrite) (base : Option Sid)
    (store : WriteStore) : Option EntityRecord → Stored → WriteStore → Prop where
  | created {sid : Sid} {next : WriteStore}
    (ended : store.create uuid itemType write = .ok (sid, next)) :
    Writes uuid itemType write base store none ⟨sid, none⟩ next
  | updated {record : EntityRecord} {sid : Sid} {next : WriteStore}
    (typed : record.itemType = itemType)
    (ended : store.update uuid write (some (base.getD record.sid)) = .ok (sid, next)) :
    Writes uuid itemType write base store (some record)
      ⟨sid, some (FieldDiff.encode itemType record.properties write.properties)⟩ next

/-- A try to write, in any world: nothing was stored and the stores stay, or the store took the
write. -/
theorem writeOver_cases (existing : Option EntityRecord) (world : World) :
    ∃ now outages delays, let asked := world.asking now outages delays
      (∃ result, (writeOver uuid itemType write base existing).on world = (result, asked) ∧
        ∀ stored, result ≠ .ok (.ok stored)) ∨
      ∃ stored next, (writeOver uuid itemType write base existing).on world =
          (.ok (.ok stored), { asked with write := next }) ∧
        Writes uuid itemType write base world.write existing stored next := by
  have committing : ∀ (diff : Option (List String))
      (change : WriteStore → Except StorageError (Sid × WriteStore)),
      (∀ sid next, change world.write = .ok (sid, next) →
        Writes uuid itemType write base world.write existing ⟨sid, diff⟩ next) →
      ∃ now outages delays, let asked := world.asking now outages delays
        let tried := (attempt do return ⟨← Action.commit change, diff⟩ :
          Action (Except EngineError Stored)).on world
        (∃ result, tried = (result, asked) ∧ ∀ stored, result ≠ .ok (.ok stored)) ∨
        ∃ stored next, tried = (.ok (.ok stored), { asked with write := next }) ∧
          Writes uuid itemType write base world.write existing stored next := by
    intro diff change writes
    obtain ⟨now, outages, delays, ⟨error, ended⟩ | ⟨sid, next, made, ended⟩⟩ :=
      commit_cases change world
    · refine ⟨now, outages, delays, Or.inl ⟨.ok (.error error), ?_, fun stored same => by cases same⟩⟩
      rw [attempt_on, on_bind_error ended]
    · refine ⟨now, outages, delays, Or.inr ⟨⟨sid, diff⟩, next, ?_, writes sid next made⟩⟩
      rw [attempt_on, on_bind_ok ended]
      rfl
  have thrown : ∀ (error : EngineError) (others : PUnit → Action (Except EngineError Stored)),
      ∃ now outages delays, let asked := world.asking now outages delays
        ∃ result, ((throw error : Action PUnit) >>= others).on world = (result, asked) ∧
          ∀ stored, result ≠ .ok (.ok stored) := fun error others =>
    ⟨world.now, world.faults.outages, world.faults.delays, .error error,
      on_bind_error (on_throw error world), fun stored same => by cases same⟩
  cases existing with
  | none =>
    rw [writeOver]
    split
    · obtain ⟨now, outages, delays, refused⟩ := thrown (.storage (.notFound uuid)) _
      exact ⟨now, outages, delays, Or.inl refused⟩
    · exact committing none _ fun sid next ended => .created ended
  | some record =>
    rw [writeOver]
    split
    · obtain ⟨now, outages, delays, refused⟩ := thrown (.storage (.uuidConflict uuid)) _
      exact ⟨now, outages, delays, Or.inl refused⟩
    · rename_i typed
      exact committing _ _ fun sid next ended => .updated (Decidable.not_not.mp typed) ended

end Writing

namespace PutCall

variable {call : PutCall} {store next : WriteStore} {write : EntityWrite} {stored : Stored}

/-- The payload that the put writes: its sheet, and no named ones. -/
structure Payload (call : PutCall) (write : EntityWrite) : Prop where
  sheet : write.properties = call.properties
  single : write.sheets = {}

theorem Replaced.of_commit {row : EntityRow} (payload : call.Payload write)
    (bounded : Bounded store) (placeable : Placeable store call.uuid row)
    (typed : row.itemType = call.itemType) {diff : Option (List String)}
    (replaces : store.contains call.uuid = false ∧ diff = none ∨
      ∃ previous, (store.revisions call.uuid).getLast? = some previous ∧
        diff = some (FieldDiff.encode call.itemType previous.properties call.properties)) :
    call.Replaced ⟨store.nextSid, diff⟩ store (store.commit call.uuid row write).2 where
  revisions other := by
    have history := committedRow_history payload.single fun revision inside =>
      bounded call.uuid revision (placeable.revisions_eq ▸ inside)
    unfold WriteStore.revisions
    rw [commit_rows, SortedMap.get?_insert_eq]
    by_cases same : other = call.uuid
    · subst same
      rw [if_pos rfl, if_pos rfl, ← payload.sheet]
      exact history.trans (congrArg (· ++ _) placeable.revisions_eq.symm)
    · rw [if_neg same, if_neg same]
  typed := by
    rw [WriteStore.itemTypeOf, commit_rows, SortedMap.get?_insert_self, Option.map_some,
      committedRow_itemType, typed]
  diff := replaces

/-- A record that a put has read. Whatever is current now under no later stamp than those of that
moment is still that record. -/
def Read (start now : WriteStore) (uuid : Uuid) (record : EntityRecord) : Prop :=
  ∃ bound, start.maxSid ≤ bound ∧ record.sid ≤ bound ∧ bound ≤ now.maxSid ∧
    ∀ current, now.record? uuid = some current → current.sid ≤ bound → current = record

theorem Read.of_current {start now : WriteStore} {uuid : Uuid} {record : EntityRecord}
    (reached : start.maxSid ≤ now.maxSid) (bounded : Bounded now)
    (found : now.record? uuid = some record) : Read start now uuid record :=
  ⟨now.maxSid, reached,
    bounded uuid _ (List.mem_of_getLast? (getLast?_of_record? found)), Int.le_refl _,
    fun _ current _ => Option.some.inj (current.symm.trans found)⟩

theorem Read.step {start now : WriteStore} {uuid : Uuid} {record : EntityRecord}
    (read : Read start now uuid record) (bounded : Bounded now) (step : Step now next) :
    Read start next uuid record := by
  obtain ⟨bound, reached, stamped, below, still⟩ := read
  refine ⟨bound, reached, stamped, Int.le_trans below (step.moves bounded).maxSid_le, ?_⟩
  exact fun current found old => still current (step.kept bounded found (Int.le_trans old below)) old

/-- What was stored replaces what was read, whatever others did in between. -/
theorem Replaced.of_writes {start : WriteStore} (grounded : Grounded store)
    (payload : call.Payload write)
    (based : ∀ sid, call.base = some sid → sid ≤ start.maxSid) {existing : Option EntityRecord}
    (read : ∀ record, existing = some record → Read start store call.uuid record)
    (writes : Writes call.uuid call.itemType write call.base store existing stored next) :
    call.Replaced stored store next ∧ Step store next := by
  cases writes with
  | created ended =>
    obtain ⟨vacant, -, committed⟩ := create_ok ended
    cases committed
    have placeable : Placeable store call.uuid ⟨call.itemType, store.nextSid, {}, {}, {}⟩ :=
      Or.inr ⟨vacant, rfl⟩
    have missing : store.contains call.uuid = false := by
      rw [contains, SortedMap.contains, vacant]
      rfl
    exact ⟨.of_commit payload grounded.bounded placeable rfl (Or.inl ⟨missing, rfl⟩),
      .committed _ _ _ placeable⟩
  | @updated record sid next typed ended =>
    obtain ⟨row, held, -, committed⟩ := update_ok ended
    have pinned := update_pinned ended
    cases committed
    obtain ⟨bound, reached, stamped, -, still⟩ := read record rfl
    obtain ⟨revision, last, found⟩ := grounded.record?_of_row held
    rw [currentSid?_eq, found, Option.map_some, Option.getD_some] at pinned
    have old : (recordAt call.uuid row revision).sid ≤ bound := by
      rw [pinned]
      cases given : call.base with
      | none => exact stamped
      | some sid => exact Int.le_trans (based sid given) reached
    obtain rfl := still _ found old
    have placeable : Placeable store call.uuid row := Or.inl held
    refine ⟨.of_commit payload grounded.bounded placeable typed (Or.inr ⟨revision, ?_, ?_⟩),
      .committed _ _ _ placeable⟩
    · rw [placeable.revisions_eq, last]
    · rw [payload.sheet]
      rfl

/-- What holds at each stage of a put that started in `start`. -/
def Stands (call : PutCall) (start : WriteStore) (steps : List (World × World))
    (now : WriteStore) : PutStage → Prop
  | .reading write _ =>
    call.Payload write ∧ Quiet World.write steps ∧ Quiet World.queue steps
  | .writing write _ existing =>
    call.Payload write ∧ Quiet World.write steps ∧ Quiet World.queue steps ∧
      ∀ record, existing = some record → Read start now call.uuid record
  | .queueing stored =>
    Once World.write (fun before after => call.Replaced stored before.write after.write) steps ∧
      Quiet World.queue steps
  | .ended result => call.Replays steps result

theorem Stands.step {start now : WriteStore} {steps : List (World × World)} {stage : PutStage}
    (stands : call.Stands start steps now stage) (bounded : Bounded now) (step : Step now next) :
    call.Stands start steps next stage := by
  cases stage with
  | reading write retries => exact stands
  | writing write retries existing =>
    obtain ⟨payload, stored, queued, read⟩ := stands
    exact ⟨payload, stored, queued, fun record same => (read record same).step bounded step⟩
  | queueing stored => exact stands
  | ended result => exact stands

theorem stands_refused {start now : WriteStore} {steps : List (World × World)}
    (payload : call.Payload write) (stored : Quiet World.write steps)
    (queued : Quiet World.queue steps) (error : EngineError) (retries : Nat) :
    call.Stands start steps now (call.refused write error retries) := by
  cases retries with
  | zero => exact ⟨stored, queued⟩
  | succ retries =>
    rw [refused]
    split
    · exact ⟨payload, stored, queued⟩
    · exact ⟨stored, queued⟩

theorem stands_opening (call : PutCall) (store : WriteStore) :
    call.Stands store [] store call.opening := by
  have quiet : ∀ {Component : Type} (component : World → Component), Quiet component [] :=
    fun _ _ inside => by cases inside
  rw [opening]
  cases call.engine.registry.require call.itemType with
  | error error => exact ⟨quiet _, quiet _⟩
  | ok decl =>
    cases made : decl.entityWrite call.properties with
    | error error =>
      simp only [bind, Except.bind, made]
      exact ⟨quiet _, quiet _⟩
    | ok write =>
      simp only [bind, Except.bind, made]
      obtain ⟨sheet, single, -⟩ := TypeDecl.entityWrite_ok made
      exact ⟨⟨sheet, single⟩, quiet _, quiet _⟩

end PutCall

namespace Interleaved

variable {call : PutCall} {start world : World} {steps : List (World × World)} {stage : PutStage}
  {past : List WriteStore}

/-- What a run of a put relies on between any two steps. -/
structure Running (call : PutCall) (start : WriteStore) (steps : List (World × World))
    (stage : PutStage) (world : World) : Prop where
  grounded : Grounded world.write
  unstale : world.Unstale
  reached : start.maxSid ≤ world.write.maxSid
  stands : call.Stands start steps world.write stage

theorem Running.own {start : WriteStore} (running : Running call start steps stage world)
    (based : ∀ sid, call.base = some sid → sid ≤ start.maxSid) :
    Running call start (steps ++ [(world, (call.next stage world).2)]) (call.next stage world).1
      (call.next stage world).2 := by
  obtain ⟨grounded, unstale, reached, stands⟩ := running
  cases stage with
  | reading write retries =>
    obtain ⟨payload, stored, queued⟩ := stands
    rw [PutCall.next, PutCall.operate, on_map]
    rcases looked : (orNotFound (Action.record call.uuid)).on world with ⟨result, after⟩
    have before := (record_looks call.uuid).orNotFound.of_on looked
    obtain ⟨now, faults, rfl⟩ := (record_waits call.uuid).orNotFound.of_on looked
    have still := before.unstale unstale
    cases result with
    | error error => exact ⟨grounded, still, reached, stored.still rfl, queued.still rfl⟩
    | ok existing =>
      refine ⟨grounded, still, reached, payload, stored.still rfl, queued.still rfl, ?_⟩
      rintro record rfl
      have current : world.write.record? call.uuid = some record :=
        orNotFound_record_some unstale looked
      exact .of_current reached grounded.bounded current
  | writing write retries existing =>
    obtain ⟨payload, stored, queued, read⟩ := stands
    rw [PutCall.next, PutCall.operate, on_bind]
    -- The only step that writes. Once it has, no later step does.
    obtain ⟨now, outages, delays, ⟨result, ended, refused⟩ | ⟨placed, next, ended, writes⟩⟩ :=
      @writeOver_cases call.uuid call.itemType write call.base existing world
    · rw [ended]
      rcases result with error | error | placed
      · exact ⟨grounded, unstale, reached, stored.still rfl, queued.still rfl⟩
      · refine ⟨grounded, unstale, reached, call.stands_refused payload ?_ ?_ error retries⟩
        · exact stored.still rfl
        · exact queued.still rfl
      · exact absurd rfl (refused placed)
    · rw [ended]
      obtain ⟨replaced, step⟩ := PutCall.Replaced.of_writes grounded payload based read writes
      exact ⟨step.grounded grounded, unstale,
        Int.le_trans reached (step.moves grounded.bounded).maxSid_le,
        stored.once replaced, queued.still rfl⟩
  | queueing placed =>
    obtain ⟨stored, queued⟩ := stands
    exact ⟨grounded, unstale, reached, placed.diff, stored.still rfl, queued.once rfl⟩
  | ended result =>
    refine ⟨grounded, unstale, reached, ?_⟩
    cases result with
    | ok sid =>
      obtain ⟨diff, stored, queued⟩ := stands
      exact ⟨diff, stored.still rfl, queued.still rfl⟩
    | error error =>
      obtain ⟨stored, queued⟩ := stands
      exact ⟨stored.still rfl, queued.still rfl⟩

theorem Running.other {start : WriteStore} {after : World}
    (running : Running call start steps stage world) (meddled : Meddled world after) :
    Running call start steps stage after := by
  obtain ⟨grounded, unstale, reached, stands⟩ := running
  obtain ⟨other, between, same, left⟩ := meddled.store
  obtain ⟨now, outages, delays, store, made, step⟩ := other.run_step between
  rw [made] at left
  obtain rfl : store = after.write := left
  rw [same] at step
  exact ⟨step.grounded grounded, meddled.unstale unstale,
    Int.le_trans reached (step.moves grounded.bounded).maxSid_le, stands.step grounded.bounded step⟩

theorem running (run : Interleaved call start steps stage world) (grounded : Grounded start.write)
    (unstale : start.Unstale) (based : ∀ sid, call.base = some sid → sid ≤ start.write.maxSid) :
    Running call start.write steps stage world := by
  induction run with
  | start => exact ⟨grounded, unstale, Int.le_refl _, call.stands_opening start.write⟩
  | own before ih => exact ih.own based
  | other before meddled ih => exact ih.other meddled

end Interleaved

/-- Operations of a put and calls of others in a given order. -/
def PutCall.play (call : PutCall) :
    List (Option StoreCall) → PutStage → World → PutStage × World
  | [], stage, world => (stage, world)
  | none :: rest, stage, world => call.play rest (call.next stage world).1 (call.next stage world).2
  | some other :: rest, stage, world => call.play rest stage (other.run.on world).2

theorem Meddled.of_call (other : StoreCall) (world : World) :
    Meddled world (other.run.on world).2 where
  store := ⟨other, world, rfl, rfl⟩
  unstale unstale := by
    obtain ⟨now, outages, delays, store, after, -⟩ := other.run_step world
    rw [after]
    exact unstale

theorem Interleaved.play {call : PutCall} {start world : World} {steps : List (World × World)}
    {stage : PutStage} (run : Interleaved call start steps stage world)
    (order : List (Option StoreCall)) :
    ∃ more, Interleaved call start (steps ++ more) (call.play order stage world).1
      (call.play order stage world).2 := by
  induction order generalizing steps stage world with
  | nil => exact ⟨[], by rwa [List.append_nil]⟩
  | cons turn rest ih =>
    cases turn with
    | none =>
      obtain ⟨more, last⟩ := ih run.own
      rw [List.append_assoc] at last
      exact ⟨_, last⟩
    | some other => exact ih (run.other (.of_call other world))

namespace Rivalry

def author (name : String) : EntityWrite := ⟨.ofText "name" name, {}, {}, {}⟩

/-- An author to be put over whatever is there. -/
def call : PutCall := ⟨.precise .books, ⟨1⟩, ⟨"Author"⟩, .ofText "name" "Cid", none⟩

def begun : World :=
  ((StoreCall.create ⟨1⟩ ⟨"Author"⟩ (author "Ann")).run.on (.start (.memory .empty))).2

/-- The author is renamed after the first look-up. After the second it makes way for another one
of the same uuid. -/
def order : List (Option StoreCall) :=
  [none, some (.update ⟨1⟩ (author "Eve") none), none, none, some (.purge ⟨1⟩),
    some (.create ⟨1⟩ ⟨"Author"⟩ ⟨.ofText "born" "1815", {}, {}, {}⟩), none, none, none, none]

def crossed : PutStage × World := call.play order call.opening begun

end Rivalry

end Service

end CachedViews
