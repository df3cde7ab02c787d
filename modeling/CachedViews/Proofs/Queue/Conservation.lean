import CachedViews.Proofs.Queue.Passing

/-!
A queue loses no message and makes none up. A run of calls comes with a journal of what happened to
the messages, call by call as the answers say, and going through the journal from nothing leads to
what the queue holds in the end: each message that was sent is at one place, unless its delivery
was acknowledged, it was dropped, or another message for its entity took it in.
-/
namespace CachedViews

open Queue

/-- A queue and the time that its calls go by. -/
structure ClockedQueue where
  queue : Queue
  now : Instant

inductive QueueCall where
  | send (lane : Lane) (messages : List Message)
  | sendDeferred (message : Message) (delay : Duration)
  | receive (limit : Nat)
  | ack (receipt : Nat)
  | nack (receipt : Nat)
  | purge
  | advance (span : Duration)

inductive QueueAnswer where
  | sent (added : Nat)
  | deferred
  | received (deliveries : List Delivery)
  | released (existed : Bool)
  | dropped (count : Nat)
  | advanced

/-- Receipts that an answer hands out. -/
def QueueAnswer.receipts : QueueAnswer → List Nat
  | received deliveries => deliveries.map Delivery.receipt
  | _ => []

namespace QueueCall

variable (order : ReclaimOrder) (visibility : Duration)

def run (state : ClockedQueue) : QueueCall → QueueAnswer × ClockedQueue
  | send lane messages =>
    let (added, queue) := state.queue.send lane state.now messages
    (.sent added, { state with queue })
  | sendDeferred message delay =>
    (.deferred, { state with queue := state.queue.sendDeferred message (state.now.add delay) })
  | receive limit =>
    let (deliveries, queue) := state.queue.receive order state.now visibility limit
    (.received deliveries, { state with queue })
  | ack receipt =>
    let (existed, queue) := state.queue.ack receipt
    (.released existed, { state with queue })
  | nack receipt =>
    let (existed, queue) := state.queue.giveBack receipt state.now
    (.released existed, { state with queue })
  | purge =>
    let (count, queue) := state.queue.purge
    (.dropped count, { state with queue })
  | advance span => (.advanced, { state with now := state.now.add span })

def runAll : List QueueCall → ClockedQueue → List QueueAnswer × ClockedQueue
  | [], state => ([], state)
  | call :: rest, state =>
    let (answers, last) := runAll rest (call.run order visibility state).2
    ((call.run order visibility state).1 :: answers, last)

/-- What the answer to a call says about the messages. -/
def Explains : QueueCall → QueueAnswer → List Event → Prop
  | send lane messages, .sent added, events =>
    events.map Event.sent? = messages.map (fun message => some (lane, message)) ∧
      added = (events.filter Event.isJoined).length
  | sendDeferred message _, .deferred, events => events = [.joined .deferred message]
  | receive _, .received deliveries, events =>
    ∃ back, (∀ event ∈ back, (Event.back? event).isSome) ∧
      events = back ++ deliveries.map Event.taken
  | ack receipt, .released true, events =>
    ∃ delivery : Delivery, delivery.receipt = receipt ∧ events = [.finished delivery]
  | nack receipt, .released true, events =>
    ∃ (delivery : Delivery) (event : Event), delivery.receipt = receipt ∧
      event.back? = some delivery ∧ events = [event]
  | ack _, .released false, events | nack _, .released false, events => events = []
  | purge, .dropped count, events =>
    count = events.length ∧ ∀ event ∈ events, ∃ lane message, event = .dropped lane message
  | advance _, .advanced, events => events = []
  | _, _, _ => False

variable {state : ClockedQueue}

/-- What one call does to the messages, and which receipts it uses up. -/
theorem run_passes (tidy : state.queue.Tidy) (call : QueueCall) :
    ∃ events, call.Explains (call.run order visibility state).1 events ∧
      Passes state.queue events (call.run order visibility state).2.queue ∧
      (call.run order visibility state).1.receipts = List.range' (state.queue.lastReceipt + 1)
        (call.run order visibility state).1.receipts.length ∧
      (call.run order visibility state).2.queue.lastReceipt = state.queue.lastReceipt +
        (call.run order visibility state).1.receipts.length := by
  cases call with
  | send lane messages =>
    obtain ⟨events, sent, added, passes⟩ := send_passes tidy lane state.now messages
    exact ⟨events, ⟨sent, added⟩, passes, rfl, (send_adds _ _ _ _).lastReceipt⟩
  | sendDeferred message delay =>
    obtain ⟨event, sent, -, passes⟩ := push_passes tidy .deferred message (state.now.add delay)
    have alone : event = .joined .deferred message := by
      cases event <;> simp_all [Event.sent?]
    exact ⟨[event], congrArg (fun event => [event]) alone, passes, rfl, rfl⟩
  | receive limit =>
    -- Expired deliveries come back before the front is taken, and use up no receipt.
    obtain ⟨back, backs, last, returns⟩ := reclaimExpired_passes tidy order state.now
    obtain ⟨taken, receipts, final⟩ :=
      take_passes returns.tidy state.now (state.now.add visibility) limit
    rw [last] at receipts final
    have count : ((receive limit).run order visibility state).1.receipts.length =
        (take state.now (state.now.add visibility) limit
          (state.queue.reclaimExpired order state.now)).1.length := List.length_map _
    rw [count]
    exact ⟨_, ⟨back, backs, rfl⟩, returns.trans taken, receipts, final⟩
  | ack receipt =>
    rcases ack_passes tidy receipt with ⟨-, same⟩ | ⟨entry, -, existed, passes⟩
    · refine ⟨[], ?_, ?_, rfl, rfl⟩ <;> simp only [run, same]
      · rfl
      · exact tidy.passes_none
    · refine ⟨_, ?_, passes, rfl, rfl⟩
      simp only [run, existed]
      exact ⟨_, rfl, rfl⟩
  | nack receipt =>
    rcases giveBack_passes tidy receipt state.now with
      ⟨-, same⟩ | ⟨entry, event, -, back, existed, last, passes⟩
    · refine ⟨[], ?_, ?_, rfl, ?_⟩ <;> simp only [run, same]
      · rfl
      · exact tidy.passes_none
      · rfl
    · refine ⟨_, ?_, passes, rfl, last⟩
      simp only [run, existed]
      exact ⟨_, event, rfl, back, rfl⟩
  | purge =>
    refine ⟨_, ⟨?_, fun event listed => ?_⟩, purge_passes tidy, rfl, rfl⟩
    · simp [Lane.all, waiting, Nat.add_assoc]
    · obtain ⟨lane, -, dropped⟩ := List.mem_flatMap.mp listed
      obtain ⟨message, -, rfl⟩ := List.mem_map.mp dropped
      exact ⟨lane, message, rfl⟩
  | advance span => exact ⟨[], rfl, tidy.passes_none, rfl, rfl⟩

/-- A run has a journal that explains its answers, and takes new receipts one after the other. -/
theorem runAll_passes (tidy : state.queue.Tidy) (calls : List QueueCall) :
    ∃ journal : List (List Event),
      List.Forall₂ (fun step events => Explains step.1 step.2 events)
        (calls.zip (runAll order visibility calls state).1) journal ∧
      Passes state.queue journal.flatten (runAll order visibility calls state).2.queue ∧
      (runAll order visibility calls state).1.flatMap QueueAnswer.receipts =
        List.range' (state.queue.lastReceipt + 1)
          ((runAll order visibility calls state).1.flatMap QueueAnswer.receipts).length ∧
      (runAll order visibility calls state).2.queue.lastReceipt = state.queue.lastReceipt +
        ((runAll order visibility calls state).1.flatMap QueueAnswer.receipts).length := by
  induction calls generalizing state with
  | nil => exact ⟨[], .nil, tidy.passes_none, rfl, rfl⟩
  | cons call rest ih =>
    obtain ⟨events, explains, first, receipts, last⟩ := run_passes order visibility tidy call
    obtain ⟨journal, explained, others, more, final⟩ := ih first.tidy
    refine ⟨events :: journal, .cons explains explained, first.trans others, ?_, ?_⟩
    · rw [runAll]
      dsimp only
      rw [List.flatMap_cons, List.length_append, ← List.range'_append_1, ← receipts]
      rw [last, Nat.add_right_comm] at more
      exact congrArg _ more
    · rw [runAll]
      dsimp only
      rw [List.flatMap_cons, List.length_append, final, last, Nat.add_assoc]

/-- Acknowledging and giving back succeed just while the receipt is in flight, and otherwise change
nothing. -/
theorem release_iff (tidy : state.queue.Tidy) (receipt : Nat) :
    (((ack receipt).run order visibility state).1 = .released true ↔ state.queue.Flies receipt) ∧
      (((nack receipt).run order visibility state).1 = .released true ↔ state.queue.Flies receipt) ∧
      (¬ state.queue.Flies receipt →
        (ack receipt).run order visibility state = (.released false, state) ∧
          (nack receipt).run order visibility state = (.released false, state)) := by
  rw [flies_iff]
  rcases ack_passes tidy receipt with ⟨gone, same⟩ | ⟨entry, found, existed, -⟩
  · have kept : state.queue.giveBack receipt state.now = (false, state.queue) := by
      rw [giveBack, gone]
    simp [run, same, kept, gone]
  · have back : (state.queue.giveBack receipt state.now).1 = true := by
      rw [giveBack, found]
    simp [run, existed, back, found]

/-- From an empty queue, whatever is called: the secondary lane holds an entity at most once and
marks just those it holds; a journal of what happened to the messages explains every answer and
leads from nothing to what the queue holds, where a message stays at its place until an event takes
it from there; no receipt is handed out twice or stands for two messages, and one that is not in
flight any more never is again; acknowledging and giving back succeed for a receipt in flight, and
otherwise change nothing; and the counts of the lanes are those of the places. -/
theorem conserves_messages (order : ReclaimOrder) (visibility : Duration) (start : Instant)
    (calls : List QueueCall) :
    let answers := (runAll order visibility calls ⟨.empty, start⟩).1
    let last := (runAll order visibility calls ⟨.empty, start⟩).2
    ((last.queue.secondary.map Message.uuid).Nodup ∧
      ∀ uuid, uuid ∈ last.queue.waitingSecondary ↔ uuid ∈ last.queue.secondary.map Message.uuid) ∧
    (∃ journal : List (List Event),
      List.Forall₂ (fun step events => Explains step.1 step.2 events) (calls.zip answers) journal ∧
        Course 0 journal.flatten last.queue.held) ∧
    (answers.flatMap QueueAnswer.receipts).Pairwise (· < ·) ∧
    (∀ receipt, last.queue.held.countP (fun item => item.1.under receipt) ≤ 1) ∧
    (∀ receipt ∈ answers.flatMap QueueAnswer.receipts, ¬ last.queue.Flies receipt →
      ∀ more, ¬ (runAll order visibility more last).2.queue.Flies receipt) ∧
    (∀ receipt, (((ack receipt).run order visibility last).1 = .released true ↔
          last.queue.Flies receipt) ∧
        (((nack receipt).run order visibility last).1 = .released true ↔ last.queue.Flies receipt) ∧
        (¬ last.queue.Flies receipt →
          (ack receipt).run order visibility last = (.released false, last) ∧
            (nack receipt).run order visibility last = (.released false, last))) ∧
    (∀ lane, last.queue.laneStatus lane = ⟨last.queue.held.countP fun item => item.1.waitsOn lane,
      last.queue.held.countP fun item => item.1.fliesFrom lane⟩) ∧
    last.queue.totalWaiting + last.queue.totalInFlight = Multiset.card last.queue.held ∧
    (last.queue.isIdle = true ↔ last.queue.held = 0) := by
  intro answers last
  obtain ⟨journal, explained, passes, receipts, issued⟩ :=
    @runAll_passes order visibility ⟨.empty, start⟩ .empty calls
  refine ⟨⟨passes.tidy.single, passes.tidy.marked⟩, ⟨journal, explained, passes.course⟩, ?_,
    fun receipt => countP_under_le last.queue receipt, fun receipt handed gone more => ?_,
    release_iff order visibility passes.tidy, laneStatus_eq last.queue, totals_eq_card last.queue,
    isIdle_iff last.queue⟩
  · rw [show answers.flatMap QueueAnswer.receipts = _ from receipts]
    exact List.pairwise_lt_range'
  · have old : receipt ≤ last.queue.lastReceipt := by
      rw [show answers.flatMap QueueAnswer.receipts = _ from receipts] at handed
      rw [show last.queue.lastReceipt = _ from issued]
      have below := (List.mem_range'_1.mp handed).2
      omega
    rw [flies_iff, Option.not_isSome_iff_eq_none] at gone ⊢
    obtain ⟨_, -, later, -⟩ := runAll_passes order visibility passes.tidy more
    exact later.spent receipt old gone

end QueueCall

end CachedViews
