import CachedViews.Proofs.ReadStore.Twins

/-!
The two kinds of read store cannot be told apart by calls. Whatever is put, deleted and asked, both
give the answers of the views that were put last and not deleted since, as long as the texts of those
views can be read back. Opening the durable store again forgets nothing but its counters.
-/
namespace CachedViews

/-- A call of a read store. -/
inductive ViewCall where
  | put (view : View)
  | get (uuid : Uuid)
  | delete (uuid : Uuid)
  | maxSid
  | dependents (uuid : Uuid)
  | sids (uuids : List Uuid)
  | count (itemType : ItemType)
  | stats
  | reopen

inductive ViewAnswer where
  | done
  | found (view : View)
  | deleted (existed : Bool)
  | maxSid (sid : Sid)
  | dependents (keys : List EntityKey)
  | sids (sids : SortedMap Uuid Sid)
  | count (views : Nat)
  | stats (stats : ReadStats)

/-- The counters as they are after opening a store. -/
def ReadStats.restarted (stats : ReadStats) : ReadStats :=
  { ReadStats.start with viewCount := stats.viewCount }

/-- The answer but for the counters that opening a store starts afresh. -/
def ViewAnswer.uncounted : ViewAnswer → ViewAnswer
  | .stats counters => .stats counters.restarted
  | answer => answer

namespace ViewCall

def run : ViewCall → Action ViewAnswer
  | put view => (fun _ => .done) <$> Action.putView view
  | get uuid => .found <$> Action.view uuid
  | delete uuid => .deleted <$> Action.deleteView uuid
  | maxSid => .maxSid <$> Action.readMaxSid
  | dependents uuid => .dependents <$> Action.findDependents uuid
  | sids uuids => .sids <$> Action.viewSids uuids
  | count itemType => .count <$> Action.countViews itemType
  | stats => do return .stats (← MonadState.get).read.stats
  | reopen => (fun _ => .done) <$> Action.reopenReadStore

def runAll : List ViewCall → World → List (Except EngineError ViewAnswer) × World
  | [], world => ([], world)
  | call :: rest, world =>
    let (answers, last) := runAll rest (call.run.on world).2
    ((call.run.on world).1 :: answers, last)

/-- A view that is put can be read back from its text. -/
def Lossless : ViewCall → Prop
  | put view => View.ofText? view.text = some view
  | _ => True

/-- What is stored after a call. -/
def keep (views : Uuid → Option View) : ViewCall → Uuid → Option View
  | put view => Function.update views view.uuid (some view)
  | delete uuid => Function.update views uuid none
  | _ => views

/-- What calls leave stored in a store that was empty: the view of each entity that was put last,
unless it was deleted since. -/
def stored (calls : List ViewCall) : Uuid → Option View := calls.foldl keep fun _ => none

end ViewCall

namespace Action

/-- What a look-up returns for the view that was found, if one was. -/
def lookedUp (uuid : Uuid) : Option View → Except EngineError View
  | some view => .ok view
  | none => .error (.storage (.notFound uuid))

variable {world : World} (calm : world.Calm)
include calm

theorem putView_ended (view : View) (next : ReadStore)
    (unfailing : world.read.takeFailure = (false, world.read))
    (ended : world.read.put view = .ok next) :
    (putView view).on world = (.ok (), { world with read := next }) := by
  rw [putView, on_bind_ok (readStore_on calm), unfailing]
  dsimp only
  rw [if_neg Bool.false_ne_true, ended]
  rfl

theorem view_ended (uuid : Uuid) (found : Option View) (next : ReadStore)
    (ended : world.read.get uuid = .ok (found, next)) :
    (view uuid).on world = (lookedUp uuid found, { world with read := next }) := by
  have pass : nextViewFault.on world = (.ok .pass, world) := by
    rw [nextViewFault, on_modifyGet, calm.views]
  rw [view, on_bind_ok pass]
  dsimp only
  rw [on_bind_ok (readStore_on calm), ended]
  cases found <;> rfl

theorem deleteView_ended (uuid : Uuid) (existed : Bool) (next : ReadStore)
    (ended : world.read.delete uuid = .ok (existed, next)) :
    (deleteView uuid).on world = (.ok existed, { world with read := next }) := by
  rw [deleteView, on_bind_ok (readStore_on calm), ended]
  rfl

theorem readMaxSid_on : readMaxSid.on world = (world.read.maxSid.mapError .storage, world) := by
  rw [readMaxSid, on_bind_ok (readStore_on calm), ofStorage_on]

theorem findDependents_ended (uuid : Uuid) :
    (findDependents uuid).on world = (.ok (world.read.findDependents uuid), world) := by
  rw [findDependents, on_bind_ok (readStore_on calm), on_pure]

theorem viewSids_ended (uuids : List Uuid) :
    (viewSids uuids).on world = ((world.read.viewSids uuids).mapError .storage, world) := by
  rw [viewSids, on_bind_ok (readStore_on calm), ofStorage_on]

theorem countViews_ended (itemType : ItemType) :
    (countViews itemType).on world = ((world.read.count itemType).mapError .storage, world) := by
  rw [countViews, on_bind_ok (readStore_on calm), ofStorage_on]

end Action

namespace ViewCall

open CachedViews.Action

/-- Two calm worlds, one over a store in memory and one over a durable store with the same views. -/
structure Paired (views : Uuid → Option View) (one two : World) (memory : MemoryViews)
    (durable : DurableViews) : Prop where
  calm : one.Calm ∧ two.Calm
  reads : one.read = .memory memory ∧ two.read = .durable durable
  twins : Twins views memory durable

/-- A call is answered alike in two worlds, but for counters that differed before. -/
structure Alike (call : ViewCall) (one two : World) : Prop where
  uncounted : (call.run.on one).1.map ViewAnswer.uncounted =
    (call.run.on two).1.map ViewAnswer.uncounted
  answers : one.read.stats = two.read.stats → (call.run.on one).1 = (call.run.on two).1
  stats : call ≠ reopen → one.read.stats = two.read.stats →
    (call.run.on one).2.read.stats = (call.run.on two).2.read.stats

/-- The durable store of such a pair can always be opened again. -/
theorem reopenReadStore_ended {views : Uuid → Option View} {world : World} {memory : MemoryViews}
    {durable : DurableViews} (reads : world.read = .durable durable)
    (twins : Twins views memory durable) :
    reopenReadStore.on world = (.ok (), { world with
      read := .durable { durable with stats := durable.stats.restarted } }) := by
  have opened : world.read.reopen =
      .ok (.durable { durable with stats := durable.stats.restarted }) := by
    rw [reads, ReadStore.reopen, twins.reopen]
    rfl
  rw [reopenReadStore, on_bind_ok (on_get world), opened]
  rfl

/-- What a call leaves in two such worlds, answered alike. -/
def Matches (call : ViewCall) (views : Uuid → Option View) (one two : World) : Prop :=
  Alike call one two ∧ ∃ memory durable,
    Paired (call.keep views) (call.run.on one).2 (call.run.on two).2 memory durable

section Steps

variable {views : Uuid → Option View} {one two : World} {memory : MemoryViews}
  {durable : DurableViews} {call : ViewCall} {answer : Except EngineError ViewAnswer}
  (paired : Paired views one two memory durable)
include paired

/-- What is only asked leaves both worlds as they were. -/
theorem Paired.asked (first : call.run.on one = (answer, one))
    (second : call.run.on two = (answer, two)) (kept : call.keep views = views) :
    Matches call views one two := by
  rw [Matches, first, second, kept]
  refine ⟨⟨?_, fun _ => ?_, fun _ same => ?_⟩, memory, durable, paired⟩
  all_goals rw [first, second]
  exact same

theorem Paired.changed {memoryNext : MemoryViews} {durableNext : DurableViews}
    (first : call.run.on one = (answer, { one with read := .memory memoryNext }))
    (second : call.run.on two = (answer, { two with read := .durable durableNext }))
    (twins : Twins (call.keep views) memoryNext durableNext)
    (available : memoryNext.available = memory.available)
    (stats : call ≠ reopen → memory.stats = durable.stats → memoryNext.stats = durableNext.stats) :
    Matches call views one two := by
  have readable := paired.calm.1.readable
  rw [paired.reads.1] at readable
  rw [Matches, first, second]
  refine ⟨⟨?_, fun _ => ?_, fun closed same => ?_⟩, memoryNext, durableNext,
    ⟨paired.calm.1.of_faults rfl paired.calm.1.writable (available.trans readable),
      paired.calm.2.of_faults rfl paired.calm.2.writable rfl⟩, ⟨rfl, rfl⟩, twins⟩
  all_goals rw [first, second]
  rw [paired.reads.1, paired.reads.2] at same
  exact stats closed same

/-- One call goes alike in both worlds, and leaves two such worlds again. -/
theorem Paired.matches (lossless : call.Lossless) : Matches call views one two := by
  have twins := paired.twins
  obtain ⟨calmOne, calmTwo⟩ := paired.calm
  obtain ⟨readOne, readTwo⟩ := paired.reads
  cases call with
  | put view =>
    obtain ⟨next, stored, twinsNext, counts⟩ := twins.put lossless
    have unfailing : one.read.takeFailure = (false, one.read) := by
      rw [readOne, ReadStore.takeFailure, MemoryViews.takeFailure, if_pos twins.unfailing]
    have first := putView_ended calmOne view _ unfailing (congrArg (ReadStore.put view) readOne)
    have second := putView_ended calmTwo view (.durable next)
      (by rw [readTwo]; rfl) (by rw [readTwo, ReadStore.put, stored]; rfl)
    exact paired.changed (map_on first _) (map_on second _) twinsNext rfl fun _ => counts
  | get uuid =>
    obtain ⟨oneCounts, twoCounts, gotOne, gotTwo, sizeOne, sizeTwo, counts⟩ := twins.get uuid
    have first := view_ended calmOne uuid (views uuid)
      (.memory { memory with stats := oneCounts }) (by rw [readOne, ReadStore.get, gotOne])
    have second := view_ended calmTwo uuid (views uuid)
      (.durable { durable with stats := twoCounts })
      (by rw [readTwo, ReadStore.get, gotTwo]; rfl)
    exact paired.changed (map_on first _) (map_on second _) (twins.counted sizeOne sizeTwo) rfl
      fun _ => counts
  | delete uuid =>
    obtain ⟨next, removed, existed, twinsNext, counts⟩ := twins.delete uuid
    have first := deleteView_ended calmOne uuid (views uuid).isSome
      (.memory (memory.delete uuid).2) (by rw [readOne, ← existed]; rfl)
    have second := deleteView_ended calmTwo uuid (views uuid).isSome
      (.durable next) (by rw [readTwo, ReadStore.delete, removed]; rfl)
    exact paired.changed (map_on first _) (map_on second _) twinsNext
      (memory.delete_available uuid) fun _ => counts
  | maxSid =>
    have second := readMaxSid_on calmTwo
    rw [readTwo, twins.maxSid_eq, ← readOne] at second
    exact paired.asked (map_on (readMaxSid_on calmOne) _) (map_on second _) rfl
  | dependents uuid =>
    have same : two.read.findDependents uuid = one.read.findDependents uuid := by
      rw [readOne, readTwo]
      exact twins.findDependents_eq uuid
    have second := findDependents_ended calmTwo uuid
    rw [same] at second
    exact paired.asked (map_on (findDependents_ended calmOne uuid) _) (map_on second _) rfl
  | sids uuids =>
    have second := viewSids_ended calmTwo uuids
    rw [readTwo, twins.viewSids_eq, ← readOne] at second
    exact paired.asked (map_on (viewSids_ended calmOne uuids) _) (map_on second _) rfl
  | count itemType =>
    have second := countViews_ended calmTwo itemType
    rw [readTwo, twins.count_eq, ← readOne] at second
    exact paired.asked (map_on (countViews_ended calmOne itemType) _) (map_on second _) rfl
  | stats =>
    have first : stats.run.on one = (.ok (.stats one.read.stats), one) := rfl
    have second : stats.run.on two = (.ok (.stats two.read.stats), two) := rfl
    have sizes : one.read.stats.restarted = two.read.stats.restarted := by
      rw [readOne, readTwo]
      exact congrArg (fun size => { ReadStats.start with viewCount := size })
        (twins.sizes.1.trans twins.sizes.2.symm)
    refine ⟨⟨?_, fun same => ?_, fun _ same => same⟩, memory, durable, paired⟩
    · rw [first, second]
      exact congrArg (fun counters => Except.ok (ViewAnswer.stats counters)) sizes
    · rw [first, second, same]
  | reopen =>
    have first : reopenReadStore.on one = (.ok (), { one with read := .memory memory }) := by
      rw [reopenReadStore, on_bind_ok (on_get one), readOne]
      rfl
    exact paired.changed (map_on first _) (map_on (reopenReadStore_ended readTwo twins) _)
      (twins.counted rfl rfl) rfl fun never => absurd rfl never

end Steps

/-- Answers but for the counters that opening a store starts afresh. -/
def uncounted (answers : List (Except EngineError ViewAnswer)) :
    List (Except EngineError ViewAnswer) :=
  answers.map (Except.map ViewAnswer.uncounted)

section Runs

variable {views : Uuid → Option View} {one two : World} {memory : MemoryViews}
  {durable : DurableViews}

/-- Call by call both worlds answer alike, as long as their counters are alike in full. -/
theorem Paired.runAll_alike (paired : Paired views one two memory durable)
    (calls : List ViewCall) (lossless : ∀ call ∈ calls, call.Lossless) :
    uncounted (runAll calls one).1 = uncounted (runAll calls two).1 ∧
      (reopen ∉ calls → one.read.stats = two.read.stats →
        (runAll calls one).1 = (runAll calls two).1) ∧
      ∃ memoryLast durableLast,
        Paired (calls.foldl keep views) (runAll calls one).2 (runAll calls two).2 memoryLast
          durableLast := by
  induction calls generalizing views one two memory durable with
  | nil => exact ⟨rfl, fun _ _ => rfl, memory, durable, paired⟩
  | cons call rest ih =>
    obtain ⟨alike, _, _, next⟩ := paired.matches (lossless call List.mem_cons_self)
    obtain ⟨answers, same, last⟩ := ih next fun later listed =>
      lossless later (List.mem_cons_of_mem _ listed)
    refine ⟨?_, fun closed stats => ?_, last⟩
    · simp only [runAll, uncounted, List.map_cons] at answers ⊢
      rw [alike.uncounted, answers]
    · have opens : call ≠ reopen := fun here => closed (here ▸ List.mem_cons_self)
      have later := same (fun later => closed (List.mem_cons_of_mem _ later))
        (alike.stats opens stats)
      simp only [runAll]
      rw [alike.answers stats, later]

/-- Two empty stores are a pair. -/
theorem Paired.of_empty (calmOne : one.Calm) (calmTwo : two.Calm)
    (emptyOne : one.read = .memory .empty) (emptyTwo : two.read = .durable .empty) :
    Paired (fun _ => none) one two .empty .empty :=
  ⟨⟨calmOne, calmTwo⟩, ⟨emptyOne, emptyTwo⟩, Twins.empty⟩

/-- From empty stores, every sequence of calls is answered alike by both kinds of store, whatever
the views link and however they change, and wherever the durable store is closed and opened again,
but for the counters, which opening sets back to zero except for the number of views. Both then hold
the views put last and not deleted since, and list for an entity the views that link it, each once. -/
theorem backends_answer_alike (calmOne : one.Calm) (calmTwo : two.Calm)
    (emptyOne : one.read = .memory .empty) (emptyTwo : two.read = .durable .empty)
    (calls : List ViewCall) (lossless : ∀ call ∈ calls, call.Lossless) :
    (reopen ∉ calls → (runAll calls one).1 = (runAll calls two).1) ∧
      uncounted (runAll calls one).1 = uncounted (runAll calls two).1 ∧
      (∃ opened, Action.reopenReadStore.on (runAll calls two).2 = (.ok (), opened) ∧
        opened.read.stats =
          { ReadStats.start with viewCount := (runAll calls two).2.read.stats.viewCount } ∧
        ∀ more : List ViewCall, (∀ call ∈ more, call.Lossless) →
          uncounted (runAll more opened).1 = uncounted (runAll more (runAll calls two).2).1) ∧
      ∀ read, read = (runAll calls one).2.read ∨ read = (runAll calls two).2.read →
        read.Loads (stored calls) ∧ ∀ linked,
          ((read.findDependents linked).Pairwise fun a b => compare a.uuid b.uuid = .lt) ∧
          ∀ key, key ∈ read.findDependents linked ↔
            ∃ view, stored calls key.uuid = some view ∧ linked ∈ view.linked ∧
              view.itemType = key.itemType := by
  obtain ⟨answers, same, memory, durable, last⟩ :=
    (Paired.of_empty calmOne calmTwo emptyOne emptyTwo).runAll_alike calls lossless
  have start : one.read.stats = two.read.stats := by
    rw [emptyOne, emptyTwo]
    rfl
  obtain ⟨readOne, readTwo⟩ := last.reads
  refine ⟨fun closed => same closed start, answers, ?_, ?_⟩
  · have opened := reopenReadStore_ended readTwo last.twins
    refine ⟨_, opened, ?_, fun more moreLossless => ?_⟩
    · rw [readTwo]
      rfl
    · have again : Paired (stored calls) (runAll calls one).2
          { (runAll calls two).2 with
            read := .durable { durable with stats := durable.stats.restarted } } memory
          { durable with stats := durable.stats.restarted } :=
        ⟨⟨last.calm.1, last.calm.2.of_faults rfl last.calm.2.writable rfl⟩, ⟨readOne, rfl⟩,
          last.twins.counted rfl rfl⟩
      exact (again.runAll_alike more moreLossless).1.symm.trans
        (last.runAll_alike more moreLossless).1
  · rintro read (rfl | rfl)
    · rw [readOne]
      exact ⟨last.twins.loads, fun linked =>
        ⟨last.twins.memory_findDependents_increasing linked,
          last.twins.mem_memory_findDependents_iff linked⟩⟩
    · rw [readTwo]
      exact ⟨last.twins.durable_loads, fun linked =>
        ⟨durable.findDependents_increasing linked,
          last.twins.mem_durable_findDependents_iff linked⟩⟩

end Runs

/-- A view of nothing but its links. -/
def linking (itemType : String) (linked : List Uuid) : View :=
  ⟨⟨1⟩, ⟨itemType⟩, .object [], 1, 2, .ofList linked, {}⟩

def isLinking (itemType : String) (linked : List Uuid) (view : View) : Bool :=
  view.uuid = ⟨1⟩ && view.itemType = ⟨itemType⟩ && view.embedded.entries?.any List.isEmpty &&
    view.sid = 1 && view.maxSid = 2 && view.linked = .ofList linked && view.revLinks.isEmpty

theorem linking_lossless {itemType : String} {linked : List Uuid}
    (shown : (View.ofText? (linking itemType linked).text).any (isLinking itemType linked)) :
    (put (linking itemType linked)).Lossless := by
  obtain ⟨view, found, same⟩ := (Option.any_eq_true _ _).mp shown
  obtain ⟨uuid, itemType, embedded, sid, maxSid, linked, ⟨revLinks, sorted⟩⟩ := view
  simp only [isLinking, SortedMap.isEmpty, Bool.and_eq_true, decide_eq_true_eq,
    List.isEmpty_iff] at same
  obtain ⟨⟨⟨⟨⟨⟨rfl, rfl⟩, empty⟩, rfl⟩, rfl⟩, rfl⟩, rfl⟩ := same
  have object : embedded = .object [] := by
    cases embedded <;> simp_all [Json.entries?]
  rw [object] at found
  exact found

/-- A view is put, put again with another type and another link, looked for and deleted. -/
def relinked : List ViewCall :=
  [put (linking "T" [⟨2⟩]), dependents ⟨2⟩, put (linking "U" [⟨3⟩]), dependents ⟨2⟩, dependents ⟨3⟩,
    sids [⟨1⟩, ⟨2⟩], maxSid, count ⟨"U"⟩, stats, delete ⟨1⟩, delete ⟨1⟩, dependents ⟨3⟩, get ⟨1⟩, stats]

theorem relinked_answered_alike :
    (runAll relinked (World.start (.durable .empty))).1 =
      [.ok .done, .ok (.dependents [⟨⟨"T"⟩, ⟨1⟩⟩]), .ok .done, .ok (.dependents []),
        .ok (.dependents [⟨⟨"U"⟩, ⟨1⟩⟩]), .ok (.sids (.ofList [(⟨1⟩, 1)])), .ok (.maxSid 2),
        .ok (.count 1), .ok (.stats ⟨0, 0, 2, 0, 1⟩), .ok (.deleted true), .ok (.deleted false),
        .ok (.dependents []), .error (.storage (.notFound ⟨1⟩)), .ok (.stats ⟨0, 1, 2, 1, 0⟩)] := by
  have first : (put (linking "T" [⟨2⟩])).Lossless := linking_lossless (by decide +kernel)
  have second : (put (linking "U" [⟨3⟩])).Lossless := linking_lossless (by decide +kernel)
  have lossless : ∀ call ∈ relinked, call.Lossless := by
    simp only [relinked, List.forall_mem_cons]
    exact ⟨first, trivial, second, by simp [Lossless]⟩
  obtain ⟨same, -⟩ := @backends_answer_alike (World.start (.memory .empty))
    (World.start (.durable .empty)) ⟨rfl, rfl, rfl, rfl, rfl, rfl, rfl⟩
    ⟨rfl, rfl, rfl, rfl, rfl, rfl, rfl⟩ rfl rfl relinked lossless
  have closed : reopen ∉ relinked := by
    simp [relinked]
  rw [← same closed]
  rfl

end ViewCall

end CachedViews
