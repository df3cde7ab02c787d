import CachedViews.Proofs.Embedding.Declared
import CachedViews.Proofs.Embedding.Resolving
import CachedViews.Proofs.Indexing.Workload
import CachedViews.Proofs.Service.Edits

/-!
Working off a queue until nothing is visible. Between two cycles anything but the queue may change:
the stores, the faults ahead, the clock. However that goes, the batches come to an end.
-/
namespace CachedViews

namespace Indexing

open CachedViews.Action Queue

variable {engine : Engine} {delivery : Delivery} {queue after last : Queue}

/-- A delivery in flight. -/
def flight (delivery : Delivery) : Place × Message :=
  (.inFlight delivery.receipt delivery.lane, delivery.message)

/-- Deliveries that are in flight, each in its own right. -/
def InFlight (deliveries : List Delivery) (queue : Queue) : Prop :=
  (deliveries.map flight : List (Place × Message)) ≤ flying queue.inFlight

/-- What handling a delivery does to the messages that the queue holds. -/
inductive Settles (engine : Engine) (delivery : Delivery) (held : Multiset (Place × Message)) :
    Outcome → List Message → Multiset (Place × Message) → Prop where
  | ended {outcome : Outcome} {sent : List Message} {events : List Event}
    {rest : Multiset (Place × Message)}
    (sending : events.map Event.sent? = sent.map fun message => some (Lane.secondary, message))
    (course : Course held events (flight delivery ::ₘ rest))
    (final : ∀ attempts delay, outcome ≠ .deferred attempts delay)
    (stored : sent ≠ [] → delivery.message.strict = false ∧
      ∃ sid count, outcome = .indexed sid count)
    (plain : ∀ message ∈ sent, message.strict = true ∧ message.attempts = 0) :
    Settles engine delivery held outcome sent rest
  | putOff {rest : Multiset (Place × Message)} {attempts : UInt32} {delay : Duration}
    (there : held = flight delivery ::ₘ rest) (counted : attempts = delivery.message.attempts + 1)
    (fewer : attempts < engine.pipeline.retry.maxAttempts) :
    Settles engine delivery held (.deferred attempts delay) []
      ((.waiting .deferred, { delivery.message with attempts }) ::ₘ rest)

theorem flight_found {deliveries : List Delivery} (flies : InFlight (delivery :: deliveries) queue) :
    ∃ entry, queue.inFlight.get? delivery.receipt = some entry ∧ entry.lane = delivery.lane ∧
      entry.message = delivery.message := by
  refine inFlight_mem_held_iff.mp (Multiset.mem_add.mpr (Or.inr ?_))
  exact Multiset.mem_of_le flies (by simp [flight])

/-- Acknowledging takes a delivery out of the queue and leaves everything else. -/
theorem ack_flight {deliveries : List Delivery} (flies : InFlight (delivery :: deliveries) queue) :
    queue.held = flight delivery ::ₘ (queue.ack delivery.receipt).2.held ∧
      InFlight deliveries (queue.ack delivery.receipt).2 := by
  obtain ⟨entry, found, lane, message⟩ := flight_found flies
  have held := held_erase found
  have flown := flying_erase found
  rw [lane, message] at held flown
  refine ⟨held, ?_⟩
  rw [InFlight, flown, List.map_cons, ← Multiset.cons_coe] at flies
  exact (Multiset.cons_le_cons_iff (flight delivery)).mp flies

theorem ack_tidy (tidy : queue.Tidy) (receipt : Nat) : (queue.ack receipt).2.Tidy :=
  tidy.erase receipt

theorem sendDeferred_held (tidy : queue.Tidy) (message : Message) (notBefore : Instant) :
    (queue.sendDeferred message notBefore).held = (.waiting .deferred, message) ::ₘ queue.held ∧
      (queue.sendDeferred message notBefore).Tidy := by
  refine ⟨held_of_lane .deferred ?_ rfl, tidy.single, tidy.marked, tidy.issued⟩
  simp only [heldOn, waiting, Queue.sendDeferred, List.map_append]
  exact Multiset.coe_eq_coe.mpr (List.perm_append_singleton _ _)

/-- Handling a delivery that is in flight settles it and leaves the others in flight. -/
theorem Handles.settles {deliveries : List Delivery} {outcome : Outcome} {sent : List Message}
    (tidy : queue.Tidy) (flies : InFlight (delivery :: deliveries) queue)
    (handles : Handles engine delivery queue outcome sent after) :
    Settles engine delivery queue.held outcome sent after.held ∧ after.Tidy ∧
      InFlight deliveries after := by
  cases handles with
  | ended time final stored plain =>
    obtain ⟨events, sending, -, passes⟩ := send_passes tidy .secondary time sent
    have still : InFlight (delivery :: deliveries) (queue.send .secondary time sent).2 := by
      rw [InFlight, (send_adds queue .secondary time sent).inFlight]
      exact flies
    obtain ⟨held, others⟩ := ack_flight still
    have course := passes.course
    rw [held] at course
    exact ⟨.ended sending course final stored plain, ack_tidy passes.tidy _, others⟩
  | @putOff attempts delay notBefore counted fewer =>
    obtain ⟨held, -⟩ := ack_flight flies
    obtain ⟨waits, still⟩ := sendDeferred_held tidy { delivery.message with attempts } notBefore
    have flying : InFlight (_ :: _) (queue.sendDeferred { delivery.message with attempts } notBefore) :=
      flies
    obtain ⟨later, others⟩ := ack_flight flying
    rw [waits, held, Multiset.cons_swap, Multiset.cons_inj_right] at later
    rw [← later]
    exact ⟨.putOff held counted fewer, ack_tidy still _, others⟩

section Settling

variable {arrived : Multiset Message} {run : Multiset Turn} {held left : Multiset (Place × Message)}
  {outcome : Outcome} {sent : List Message} {turn : Turn}

theorem arrivals_of_sending {events : List Event}
    (sending : events.map Event.sent? = sent.map fun message => some (Lane.secondary, message)) :
    events.filterMap arrival? = sent ∧ ∀ event ∈ events, releases event = false := by
  refine ⟨?_, fun event listed => ?_⟩
  · have split : arrival? = (fun sent => sent.map Prod.snd) ∘ Event.sent? := rfl
    rw [split, ← List.filterMap_map, sending, List.filterMap_map]
    simp
  · have some : event.sent? ∈ events.map Event.sent? := List.mem_map_of_mem listed
    rw [sending] at some
    obtain ⟨message, -, here⟩ := List.mem_map.mp some
    cases event <;> first | rfl | cases here

/-- The turn of a delivery is entered in the errand of its message. -/
theorem Settles.docketed (settles : Settles engine turn.delivery held outcome sent left)
    (ending : turn.outcome engine = some outcome) (sends : turn.sent engine = sent)
    (docketed : Docketed engine arrived run held) :
    Docketed engine (sent + arrived) (turn ::ₘ run) left := by
  cases settles with
  | ended sending course final stored plain =>
    obtain ⟨arrivals, keeps⟩ := arrivals_of_sending sending
    have queued := docketed.course course keeps
    rw [arrivals] at queued
    refine queued.close [turn] fun errand follows => follows.ended ?_ ?_
    · rw [ending]
      exact fun attempts delay same => final attempts delay (Option.some.inj same)
    · rw [ending, sends]
      intro some
      obtain ⟨loose, sid, count, same⟩ := stored some
      exact ⟨loose, sid, count, congrArg _ same⟩
  | putOff there counted fewer =>
    rw [there] at docketed
    have waits := docketed.keep [turn] (.waiting .deferred) fun errand follows =>
      follows.retried ending counted fewer sends
    simpa using waits

theorem cost_of_plain (plain : ∀ message ∈ sent, message.strict = true ∧ message.attempts = 0) :
    (sent.map (cost engine false)).sum = 0 := by
  rw [List.sum_eq_zero]
  intro weight listed
  obtain ⟨message, inside, rfl⟩ := List.mem_map.mp listed
  rw [cost, if_neg]
  rw [(plain message inside).1]
  exact Bool.noConfusion

/-- Handling a delivery leaves less work. -/
theorem Settles.lighter (settles : Settles engine delivery held outcome sent left)
    (countable : ∀ item ∈ held, Countable item.2) :
    Lighter engine left held ∧ ∀ item ∈ left, Countable item.2 := by
  cases settles with
  | ended sending course final stored plain =>
    obtain ⟨arrivals, keeps⟩ := arrivals_of_sending sending
    have loose := load_course engine false course keeps
    have alone := load_course engine true course keeps
    have counted := countable_course course (by
      rw [arrivals]
      intro message listed
      rw [Countable, (plain message listed).2]
      decide) countable
    rw [arrivals, load_cons] at loose alone
    rw [cost_of_plain plain] at loose
    refine ⟨?_, fun item listed => counted item (Multiset.mem_cons_of_mem listed)⟩
    have some : 0 < cyclesLeft engine delivery.message := by
      rw [cyclesLeft]
      split <;> omega
    cases strict : delivery.message.strict with
    | false =>
      have here : cost engine false (flight delivery).2 = cyclesLeft engine delivery.message :=
        if_pos strict
      exact Or.inl (by omega)
    | true =>
      have here : cost engine true (flight delivery).2 = cyclesLeft engine delivery.message :=
        if_pos strict
      have none : sent = [] := by
        by_contra some
        rw [(stored some).1] at strict
        cases strict
      rw [none, List.map_nil, List.sum_nil] at alone
      exact Or.inr ⟨by omega, by omega⟩
  | @putOff rest attempts delay there counted fewer =>
    rw [there] at countable ⊢
    have first : Countable delivery.message :=
      countable (flight delivery) (Multiset.mem_cons_self _ _)
    have alike : ({ delivery.message with attempts } : Message).strict = delivery.message.strict := rfl
    obtain ⟨later, lighter⟩ := lighter_retried first rest alike counted fewer (flight delivery).1
      (.waiting .deferred)
    refine ⟨lighter, fun item listed => ?_⟩
    rcases Multiset.mem_cons.mp listed with rfl | other
    · exact later
    · exact countable item (Multiset.mem_cons_of_mem other)

theorem Settles.plain (settles : Settles engine delivery held outcome sent left) :
    ∀ message ∈ sent, message.strict = true ∧ message.attempts = 0 := by
  cases settles with
  | ended _ _ _ _ plain => exact plain
  | putOff => exact fun _ never => nomatch never

end Settling

/-- What a batch takes off the queue, and what it leaves there. -/
def receiving (engine : Engine) (queue : Queue) (now : Instant) : List Delivery × Queue :=
  queue.receive engine.reclaim now engine.pipeline.visibilityTimeout engine.pipeline.batchSize

/-- Deliveries worked off one after the other. Each cycle meets a world of its own, with the queue
that the cycle before it left. -/
inductive Works (engine : Engine) : Queue → List Delivery → List Turn → Queue → Prop where
  | done (queue : Queue) : Works engine queue [] [] queue
  | next (world : World) (snapshot : Sid) {delivery : Delivery} {rest : List Delivery}
    {turns : List Turn} {last : Queue}
    (others : Works engine ((process engine delivery snapshot).on world).2.queue rest turns last) :
    Works engine world.queue (delivery :: rest) (⟨delivery, some (world, snapshot)⟩ :: turns) last

/-- A batch that takes something and works it off. -/
structure Batch (engine : Engine) (queue : Queue) (turns : List Turn) (last : Queue) : Prop where
  works : ∃ now, (receiving engine queue now).1 ≠ [] ∧
    Works engine (receiving engine queue now).2 (receiving engine queue now).1 turns last

/-- Batches one after the other. A run may break off at any time, and its last batch may take
deliveries without working them off. -/
inductive Runs (engine : Engine) : Queue → List Turn → Queue → Prop where
  | stop (queue : Queue) : Runs engine queue [] queue
  | broken (queue : Queue) (now : Instant) :
    Runs engine queue ((receiving engine queue now).1.map (⟨·, none⟩)) (receiving engine queue now).2
  | batch {queue middle last : Queue} {turns run : List Turn} (first : Batch engine queue turns middle)
    (others : Runs engine middle run last) : Runs engine queue (turns ++ run) last

/-- A queue in good order, with the errands of its messages. -/
structure Steady (engine : Engine) (arrived : Multiset Message) (run : Multiset Turn)
    (queue : Queue) : Prop where
  tidy : queue.Tidy
  countable : ∀ item ∈ queue.held, Countable item.2
  docketed : Docketed engine arrived run queue.held

section Running

variable {arrived : Multiset Message} {run : Multiset Turn} {deliveries : List Delivery}
  {turns : List Turn}

theorem Works.of_nil (works : Works engine queue [] turns last) : last = queue := by
  cases works
  rfl

/-- Each delivery that is worked off leaves less work. -/
theorem Works.steady (works : Works engine queue deliveries turns last)
    (steady : Steady engine arrived run queue) (flies : InFlight deliveries queue) :
    Steady engine (turns.flatMap (Turn.sent engine) + arrived) (turns + run) last ∧
      (deliveries ≠ [] → Lighter engine last.held queue.held) ∧
      ∀ turn ∈ turns, ∀ message ∈ turn.sent engine,
        message.strict = true ∧ message.attempts = 0 := by
  induction works generalizing arrived run with
  | done queue =>
    exact ⟨by simpa using steady, fun some => absurd rfl some, fun _ never => nomatch never⟩
  | @next world snapshot delivery rest turns last others ih =>
    obtain ⟨outcome, after, ended, handles⟩ := process_handles engine delivery snapshot world
    rw [ended] at others ih
    obtain ⟨settles, tidy, flying⟩ := handles.settles steady.tidy flies
    obtain ⟨lighter, countable⟩ := settles.lighter steady.countable
    have ending : Turn.outcome engine ⟨delivery, some (world, snapshot)⟩ = some outcome := by
      simp [Turn.outcome, ended, Except.toOption]
    have docketed := settles.docketed ending rfl steady.docketed
    obtain ⟨still, later, plain⟩ := ih ⟨tidy, countable, docketed⟩ flying
    refine ⟨?_, fun _ => ?_, fun turn listed => ?_⟩
    · simpa [add_left_comm, add_assoc, ← Multiset.coe_add, ← Multiset.cons_coe] using still
    · cases rest with
      | nil =>
        rw [others.of_nil]
        exact lighter
      | cons second rest => exact lighter.trans (later (List.cons_ne_nil _ _))
    · rcases List.mem_cons.mp listed with rfl | other
      · exact settles.plain
      · exact plain turn other

/-- What happens to the messages when a batch is taken: none arrives and none is let go. -/
theorem receive_course (engine : Engine) (tidy : queue.Tidy) (now : Instant) :
    ∃ events, Passes queue events (receiving engine queue now).2 ∧
      events.filterMap arrival? = [] ∧ ∀ event ∈ events, releases event = false := by
  obtain ⟨back, backs, -, returns⟩ := reclaimExpired_passes tidy engine.reclaim now
  obtain ⟨taken, -, -⟩ := take_passes returns.tidy now
    (now.add engine.pipeline.visibilityTimeout) engine.pipeline.batchSize
  have each : ∀ event ∈ back ++ (receiving engine queue now).1.map Event.taken,
      arrival? event = none ∧ releases event = false := by
    intro event listed
    rcases List.mem_append.mp listed with returned | delivered
    · have some := backs event returned
      cases event <;> first | exact ⟨rfl, rfl⟩ | cases some
    · obtain ⟨delivery, -, rfl⟩ := List.mem_map.mp delivered
      exact ⟨rfl, rfl⟩
  exact ⟨_, returns.trans taken, List.filterMap_eq_nil_iff.mpr fun event listed =>
    (each event listed).1, fun event listed => (each event listed).2⟩

theorem receive_flies (tidy : queue.Tidy) (now : Instant) :
    InFlight (receiving engine queue now).1 (receiving engine queue now).2 := by
  obtain ⟨_, -, -, returns⟩ := reclaimExpired_passes tidy engine.reclaim now
  obtain ⟨-, receipts, -⟩ := take_passes returns.tidy now
    (now.add engine.pipeline.visibilityTimeout) engine.pipeline.batchSize
  have distinct : ((receiving engine queue now).1.map flight).Nodup := by
    have issued : ((receiving engine queue now).1.map Delivery.receipt).Nodup := by
      rw [show (receiving engine queue now).1.map Delivery.receipt = _ from receipts]
      exact List.nodup_range'
    refine List.Nodup.of_map (fun item : Place × Message =>
      match item.1 with | .inFlight receipt _ => receipt | .waiting _ => 0) ?_
    rw [List.map_map]
    exact issued
  refine (Multiset.le_iff_subset (Multiset.coe_nodup.mpr distinct)).mpr fun item listed => ?_
  obtain ⟨delivery, taken, rfl⟩ := List.mem_map.mp listed
  have found := (take_flying returns.tidy now (now.add engine.pipeline.visibilityTimeout)
    engine.pipeline.batchSize delivery.receipt _).mpr (Or.inr ⟨delivery, taken, rfl, rfl⟩)
  exact Multiset.mem_coe.mpr (List.mem_map.mpr
    ⟨(delivery.receipt, _), (SortedMap.mem_entries_iff _ _ _).mpr found, rfl⟩)

/-- Taking a batch adds no work. -/
theorem Steady.receive (steady : Steady engine arrived run queue) (now : Instant) :
    Steady engine arrived run (receiving engine queue now).2 ∧
      ∀ strict, load engine strict (receiving engine queue now).2.held ≤
        load engine strict queue.held := by
  obtain ⟨events, passes, none, keeps⟩ := receive_course engine steady.tidy now
  have docketed := steady.docketed.course passes.course keeps
  have weighs := fun strict => load_course engine strict passes.course keeps
  have countable := countable_course passes.course (by simp [none]) steady.countable
  rw [none] at docketed weighs
  exact ⟨⟨passes.tidy, countable, by simpa using docketed⟩, weighs⟩

theorem Batch.steady (batch : Batch engine queue turns last)
    (steady : Steady engine arrived run queue) :
    Steady engine (turns.flatMap (Turn.sent engine) + arrived) (turns + run) last ∧
      Lighter engine last.held queue.held ∧ ∀ turn ∈ turns, ∀ message ∈ turn.sent engine,
        message.strict = true ∧ message.attempts = 0 := by
  obtain ⟨now, some, works⟩ := batch.works
  obtain ⟨taken, most⟩ := steady.receive now
  obtain ⟨still, lighter, plain⟩ := works.steady taken (receive_flies steady.tidy now)
  exact ⟨still, (lighter some).of_le most, plain⟩

/-- Deliveries that are taken and not worked off are the last turns of their errands. -/
theorem Docketed.break {held : Multiset (Place × Message)}
    (docketed : Docketed engine arrived run held)
    (flies : (deliveries.map flight : List (Place × Message)) ≤ held) :
    ∃ rest, Docketed engine arrived
      ((deliveries.map fun delivery => (⟨delivery, none⟩ : Turn)) + run) rest := by
  induction deliveries generalizing run held with
  | nil => exact ⟨held, by simpa using docketed⟩
  | cons first others ih =>
    obtain ⟨rest, rfl⟩ := Multiset.le_iff_exists_add.mp flies
    rw [List.map_cons, ← Multiset.cons_coe, Multiset.cons_add] at docketed
    have closed := docketed.close [⟨first, none⟩] fun errand follows => follows.ended
      (fun _ _ never => nomatch never) fun some => absurd rfl some
    obtain ⟨left, broken⟩ := ih closed (Multiset.le_add_right _ _)
    refine ⟨left, ?_⟩
    simpa [← Multiset.cons_coe] using broken

theorem Docketed.errands {held : Multiset (Place × Message)}
    (docketed : Docketed engine arrived run held) :
    ∃ errands : Multiset Errand, errands.map Errand.first = arrived ∧
      errands.bind (fun errand => (errand.turns : Multiset Turn)) = run ∧
      ∀ errand ∈ errands, ∃ left, Follows engine errand left := by
  obtain ⟨underWay, past, -, going, gone, firsts, turned⟩ := docketed
  refine ⟨_, firsts, turned, fun errand listed => ?_⟩
  rcases Multiset.mem_add.mp listed with under | done
  · obtain ⟨entry, inside, rfl⟩ := Multiset.mem_map.mp under
    exact ⟨_, going entry inside⟩
  · exact ⟨none, gone errand done⟩

/-- However a run goes, its turns are those of the errands that its messages began. -/
theorem Runs.errands {turns : List Turn} (runs : Runs engine queue turns last)
    (steady : Steady engine arrived run queue) :
    (∃ errands : Multiset Errand,
      errands.map Errand.first = turns.flatMap (Turn.sent engine) + arrived ∧
      errands.bind (fun errand => (errand.turns : Multiset Turn)) = turns + run ∧
      ∀ errand ∈ errands, ∃ left, Follows engine errand left) ∧
    ∀ turn ∈ turns, ∀ message ∈ turn.sent engine,
      message.strict = true ∧ message.attempts = 0 := by
  induction runs generalizing arrived run with
  | stop queue => exact ⟨by simpa using steady.docketed.errands, fun _ never => nomatch never⟩
  | broken queue now =>
    obtain ⟨taken, -⟩ := steady.receive now
    obtain ⟨rest, docketed⟩ := taken.docketed.break
      (le_trans (receive_flies steady.tidy now) (Multiset.le_add_left _ _))
    have silent : ∀ turn ∈ (receiving engine queue now).1.map (⟨·, none⟩ : Delivery → Turn),
        turn.sent engine = [] := by
      intro turn listed
      obtain ⟨delivery, -, rfl⟩ := List.mem_map.mp listed
      rfl
    refine ⟨?_, fun turn listed message sent => ?_⟩
    · rw [List.flatMap_eq_nil_iff.mpr silent]
      simpa using docketed.errands
    · rw [silent turn listed] at sent
      cases sent
  | @batch queue middle last turns more first others ih =>
    obtain ⟨still, -, plain⟩ := first.steady steady
    obtain ⟨errands, later⟩ := ih still
    refine ⟨?_, fun turn listed => ?_⟩
    · simpa [add_left_comm, add_assoc, ← Multiset.coe_add] using errands
    · rcases List.mem_append.mp listed with here | after
      · exact plain turn here
      · exact later turn after

end Running

section Loop

theorem forM_works (engine : Engine) (snapshot : Sid) (deliveries : List Delivery) (world : World) :
    ∃ turns after, (deliveries.forM fun delivery =>
        discard (process engine delivery snapshot)).on world = (.ok (), after) ∧
      Works engine world.queue deliveries turns after.queue ∧
      turns.length = deliveries.length := by
  induction deliveries generalizing world with
  | nil => exact ⟨[], world, rfl, .done _, rfl⟩
  | cons delivery rest ih =>
    obtain ⟨outcome, after, ended, -⟩ := process_handles engine delivery snapshot world
    obtain ⟨turns, last, worked, works, count⟩ := ih after
    have same : after = ((process engine delivery snapshot).on world).2 := by rw [ended]
    rw [same] at works
    refine ⟨_, last, ?_, .next world snapshot works, congrArg (· + 1) count⟩
    rw [List.forM, on_bind_ok (discard_on_ok ended), worked]

/-- The ways in which a batch can end: there is nothing to take, the watermark cannot be read, or
everything that is taken is worked off. -/
theorem processBatch_cases (engine : Engine) (world : World) :
    (∃ after, (processBatch engine).on world = (.ok 0, after) ∧
      (receiving engine world.queue world.now).1 = [] ∧
      after.queue = (receiving engine world.queue world.now).2) ∨
    (∃ error after, (processBatch engine).on world = (.error error, after) ∧
      after.queue = (receiving engine world.queue world.now).2) ∨
    ∃ turns after, (processBatch engine).on world = (.ok turns.length, after) ∧ turns ≠ [] ∧
      Batch engine world.queue turns after.queue := by
  have taking : (Action.receive engine engine.pipeline.batchSize).on world =
      (.ok (receiving engine world.queue world.now).1,
        { world with queue := (receiving engine world.queue world.now).2 }) := rfl
  rw [processBatch, on_bind_ok taking]
  cases taken : (receiving engine world.queue world.now).1 with
  | nil => exact Or.inl ⟨_, rfl, rfl, rfl⟩
  | cons first rest =>
    right
    dsimp only
    rw [on_bind_ok (count_on _ _), on_bind]
    rcases reading : writeMaxSid.on { world with
        queue := (receiving engine world.queue world.now).2
        metrics := { world.metrics with batches := world.metrics.batches + 1 } } with
      ⟨error | snapshot, ready⟩
    · have looked := (writeStore_looks.bind fun _ => keeps_pure _).of_on reading
      exact Or.inl ⟨error, ready, rfl, looked.queue⟩
    · have looked := (writeStore_looks.bind fun _ => keeps_pure _).of_on reading
      obtain ⟨turns, last, worked, works, count⟩ :=
        forM_works engine snapshot (first :: rest) (ready.withCache {})
      have cached := Embedding.withCache_on {} ((first :: rest).forM fun delivery =>
        discard (process engine delivery snapshot)) ready
      rw [worked] at cached
      right
      refine ⟨turns, last.withCache ready.cache, ?_, fun none => ?_, ⟨world.now, ?_, ?_⟩⟩
      · dsimp only
        rw [on_bind_ok cached, count]
        rfl
      · rw [none] at count
        cases count
      · rw [taken]
        exact List.cons_ne_nil _ _
      · have same : ready.queue = (receiving engine world.queue world.now).2 := looked.queue
        rw [taken, ← same]
        exact works

/-- The loop as a relation: batches one after the other, until one has nothing to take or the
watermark cannot be read. -/
inductive Drained (engine : Engine) : World → List Turn → Except EngineError Nat × World → Prop where
  | idle {world after : World} (ended : (processBatch engine).on world = (.ok 0, after)) :
    Drained engine world [] (.ok 0, after)
  | broken {world after : World} {error : EngineError}
    (ended : (processBatch engine).on world = (.error error, after)) :
    Drained engine world ((receiving engine world.queue world.now).1.map (⟨·, none⟩))
      (.error error, after)
  | batch {world middle last : World} {turns run : List Turn} {result : Except EngineError Nat}
    (ended : (processBatch engine).on world = (.ok turns.length, middle)) (some : turns ≠ [])
    (worked : Batch engine world.queue turns middle.queue)
    (others : Drained engine middle run (result, last)) :
    Drained engine world (turns ++ run) (result.map (turns.length + ·), last)

theorem Drained.runs {world : World} {run : List Turn} {ending : Except EngineError Nat × World}
    (drained : Drained engine world run ending) : Runs engine world.queue run ending.2.queue := by
  induction drained with
  | @idle world after ended =>
    rcases processBatch_cases engine world with
      ⟨_, same, none, left⟩ | ⟨_, _, same, -⟩ | ⟨turns, _, same, some, -⟩
    · rw [ended] at same
      cases same
      have stops : Runs engine _ _ _ := .broken world.queue world.now
      rw [none, ← left] at stops
      exact stops
    · rw [ended] at same
      cases same
    · rw [ended] at same
      have none : 0 = turns.length := Except.ok.inj (congrArg Prod.fst same)
      exact absurd (List.length_eq_zero_iff.mp none.symm) some
  | @broken world after error ended =>
    rcases processBatch_cases engine world with
      ⟨_, same, -⟩ | ⟨_, _, same, left⟩ | ⟨_, _, same, -⟩
    · rw [ended] at same
      cases same
    · rw [ended] at same
      cases same
      dsimp only
      rw [left]
      exact .broken _ _
    · rw [ended] at same
      cases same
  | batch ended some worked others ih => exact .batch worked ih

end Loop

/-- The errands of a run. Each message that was held at its start or that is sent in it begins one,
each turn of the run belongs to one, and each ends in its bounds. -/
structure Accounts (engine : Engine) (queue : Queue) (run : List Turn) (errands : Multiset Errand) :
    Prop where
  firsts : errands.map Errand.first =
    run.flatMap (Turn.sent engine) + queue.held.map Prod.snd
  turns : errands.bind (fun errand => (errand.turns : Multiset Turn)) = run
  follows : ∀ errand ∈ errands, ∃ left, Follows engine errand left
  bounded : ∀ errand ∈ errands, errand.Bounded engine
  sent : ∀ turn ∈ run, ∀ message ∈ turn.sent engine, message.strict = true ∧ message.attempts = 0

namespace Backlog

/-- The calls of the queue that led there. -/
def calls : List QueueCall := [
  .send .primary [.primary ⟨⟨"Author"⟩, ⟨1⟩⟩ (some 1) none],
  .send .primary [.primary ⟨⟨"Book"⟩, ⟨2⟩⟩ (some 2) none], .receive 1]

/-- How many deliveries a batch works off. -/
def handled (world : World) : Option Nat :=
  ((processBatch (.precise .books)).on world).1.toOption

end Backlog

end Indexing

end CachedViews
