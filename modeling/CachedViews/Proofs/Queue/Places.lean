import CachedViews.Proofs.Queue
import Mathlib.Algebra.Order.Group.Multiset

/-!
Where the messages of a queue are. A message waits on a lane or is in flight under a receipt. What
happens to it there is one event that takes it from its place to another, or out of the queue, and
leaves every other message where it was; a message that has to share a place on the secondary lane
becomes one with the message that waits for the same entity.
-/
namespace CachedViews

/-- Waiting on a lane, or taken off a lane and in flight under a receipt. -/
inductive Place where
  | waiting (lane : Lane)
  | inFlight (receipt : Nat) (lane : Lane)
  deriving DecidableEq

namespace Place

def waitsOn (lane : Lane) : Place → Bool
  | waiting other => other = lane
  | inFlight _ _ => false

def fliesFrom (lane : Lane) : Place → Bool
  | waiting _ => false
  | inFlight _ other => other = lane

def under (receipt : Nat) : Place → Bool
  | waiting _ => false
  | inFlight other _ => other = receipt

end Place

/-- The waiting message under the greatest of the two stamps, where no stamp is the least. -/
def Message.merging (waiting message : Message) : Message :=
  { waiting with sid := max waiting.sid message.sid }

namespace Queue

/-- What waits on a lane. -/
def heldOn (queue : Queue) (lane : Lane) : Multiset (Place × Message) :=
  (queue.waiting lane).map (Place.waiting lane, ·)

/-- What is in flight. -/
def flying (inFlight : SortedMap Nat InFlight) : Multiset (Place × Message) :=
  inFlight.entries.map fun entry => (Place.inFlight entry.1 entry.2.lane, entry.2.message)

/-- Every message that a queue holds, with its place. -/
def held (queue : Queue) : Multiset (Place × Message) :=
  queue.heldOn .primary + queue.heldOn .secondary + queue.heldOn .deferred + flying queue.inFlight

/-- What can happen to a message. -/
inductive Event where
  /-- It is sent and waits on a lane. -/
  | joined (lane : Lane) (message : Message)
  /-- It is sent, and one that waits for the same entity takes it in. -/
  | absorbed (waiting message : Message)
  | taken (delivery : Delivery)
  /-- It comes back to its lane. -/
  | returned (delivery : Delivery)
  /-- It comes back to its lane, and one that waits for the same entity takes it in. -/
  | merged (waiting : Message) (delivery : Delivery)
  | finished (delivery : Delivery)
  | dropped (lane : Lane) (message : Message)

namespace Event

def leaves : Event → Multiset (Place × Message)
  | joined _ _ => 0
  | absorbed waiting _ => {(.waiting .secondary, waiting)}
  | taken delivery => {(.waiting delivery.lane, delivery.message)}
  | returned delivery | finished delivery =>
    {(.inFlight delivery.receipt delivery.lane, delivery.message)}
  | merged waiting delivery =>
    {(.inFlight delivery.receipt delivery.lane, delivery.message), (.waiting .secondary, waiting)}
  | dropped lane message => {(.waiting lane, message)}

def enters : Event → Multiset (Place × Message)
  | joined lane message => {(.waiting lane, message)}
  | absorbed waiting message => {(.waiting .secondary, waiting.merging message)}
  | taken delivery => {(.inFlight delivery.receipt delivery.lane, delivery.message)}
  | returned delivery => {(.waiting delivery.lane, delivery.message)}
  | merged waiting delivery => {(.waiting .secondary, waiting.merging delivery.message)}
  | finished _ | dropped _ _ => 0

/-- What is sent in an event, and to which lane. -/
def sent? : Event → Option (Lane × Message)
  | joined lane message => some (lane, message)
  | absorbed _ message => some (.secondary, message)
  | _ => none

/-- Whose delivery comes to nothing in an event. -/
def back? : Event → Option Delivery
  | returned delivery | merged _ delivery => some delivery
  | _ => none

def isJoined : Event → Bool
  | joined _ _ => true
  | _ => false

/-- No message for the same entity waits on the lane, if it is the secondary one. -/
def Vacant (held : Multiset (Place × Message)) (lane : Lane) (message : Message) : Prop :=
  lane = .secondary → ∀ other, (.waiting .secondary, other) ∈ held → other.uuid ≠ message.uuid

/-- When an event can happen. Messages of one entity are merged on the secondary lane and only
there, and a receipt is given to one message at a time. -/
def Fits (held : Multiset (Place × Message)) : Event → Prop
  | joined lane message => Vacant held lane message
  | absorbed waiting message => waiting.uuid = message.uuid
  | taken delivery => ∀ lane message, (.inFlight delivery.receipt lane, message) ∉ held
  | returned delivery => Vacant held delivery.lane delivery.message
  | merged waiting delivery =>
    delivery.lane = .secondary ∧ waiting.uuid = delivery.message.uuid
  | finished _ | dropped _ _ => True

/-- The event happens and everything else stays where it is. -/
def Moves (event : Event) (before after : Multiset (Place × Message)) : Prop :=
  event.Fits before ∧ ∃ rest, before = event.leaves + rest ∧ after = event.enters + rest

end Event

/-- Events that happen one after the other. -/
inductive Course : Multiset (Place × Message) → List Event → Multiset (Place × Message) → Prop
  | nil (held : Multiset (Place × Message)) : Course held [] held
  | cons {before middle after : Multiset (Place × Message)} {event : Event} {events : List Event}
    (moves : event.Moves before middle) (course : Course middle events after) :
    Course before (event :: events) after

theorem Course.append {before middle after : Multiset (Place × Message)}
    {first second : List Event} (one : Course before first middle)
    (two : Course middle second after) : Course before (first ++ second) after := by
  induction one with
  | nil => exact two
  | cons moves _ ih => exact .cons moves (ih two)

/-- The secondary lane holds an entity at most once and marks just the entities it holds. What is
in flight has a receipt that was handed out. -/
structure Tidy (queue : Queue) : Prop where
  single : (queue.secondary.map Message.uuid).Nodup
  marked : ∀ uuid, uuid ∈ queue.waitingSecondary ↔ uuid ∈ queue.secondary.map Message.uuid
  issued : ∀ receipt entry, queue.inFlight.get? receipt = some entry → receipt ≤ queue.lastReceipt

theorem Tidy.empty : Tidy .empty where
  single := List.nodup_nil
  marked uuid := by simp [Queue.empty]
  issued _ _ found := by cases found

variable {queue middle after : Queue}

/-- What events do to a queue. A receipt that was handed out and is not in flight any more stays
so. -/
structure Passes (queue : Queue) (events : List Event) (after : Queue) : Prop where
  course : Course queue.held events after.held
  tidy : after.Tidy
  receipts : queue.lastReceipt ≤ after.lastReceipt
  spent : ∀ receipt ≤ queue.lastReceipt, queue.inFlight.get? receipt = none →
    after.inFlight.get? receipt = none

theorem Tidy.passes_none (tidy : queue.Tidy) : Passes queue [] queue :=
  ⟨.nil _, tidy, Nat.le_refl _, fun _ _ => id⟩

theorem Passes.trans {first second : List Event} (one : Passes queue first middle)
    (two : Passes middle second after) : Passes queue (first ++ second) after where
  course := one.course.append two.course
  tidy := two.tidy
  receipts := Nat.le_trans one.receipts two.receipts
  spent receipt old gone :=
    two.spent receipt (Nat.le_trans old one.receipts) (one.spent receipt old gone)

theorem waiting_mem_held_iff {lane : Lane} {message : Message} :
    (Place.waiting lane, message) ∈ queue.held ↔ message ∈ queue.waiting lane := by
  simp only [held, heldOn, flying, Multiset.mem_add, Multiset.mem_coe, List.mem_map, Prod.mk.injEq]
  cases lane <;> simp

theorem inFlight_mem_held_iff {receipt : Nat} {lane : Lane} {message : Message} :
    (Place.inFlight receipt lane, message) ∈ queue.held ↔
      ∃ entry, queue.inFlight.get? receipt = some entry ∧ entry.lane = lane ∧
        entry.message = message := by
  simp only [held, heldOn, flying, Multiset.mem_add, Multiset.mem_coe, List.mem_map, Prod.mk.injEq,
    reduceCtorEq, false_and, and_false, exists_false, false_or, Place.inFlight.injEq]
  constructor
  · rintro ⟨⟨_, entry⟩, listed, ⟨rfl, rfl⟩, rfl⟩
    exact ⟨entry, (queue.inFlight.mem_entries_iff _ _).mp listed, rfl, rfl⟩
  · rintro ⟨entry, found, rfl, rfl⟩
    exact ⟨(receipt, entry), (queue.inFlight.mem_entries_iff _ _).mpr found, ⟨rfl, rfl⟩, rfl⟩

/-- What a queue holds outside one of its lanes. -/
def elsewhere (queue : Queue) : Lane → Multiset (Place × Message)
  | .primary => queue.heldOn .secondary + queue.heldOn .deferred + flying queue.inFlight
  | .secondary => queue.heldOn .primary + queue.heldOn .deferred + flying queue.inFlight
  | .deferred => queue.heldOn .primary + queue.heldOn .secondary + flying queue.inFlight

theorem held_eq_add (queue : Queue) (lane : Lane) :
    queue.held = queue.heldOn lane + queue.elsewhere lane := by
  cases lane <;> simp only [held, elsewhere] <;> ac_rfl

theorem held_of_heldOn (lane : Lane) {item : Place × Message} {others : Multiset (Place × Message)}
    (first : queue.heldOn lane = item ::ₘ others) :
    queue.held = item ::ₘ (others + queue.elsewhere lane) := by
  rw [held_eq_add queue lane, first, Multiset.cons_add]

theorem held_of_lane (lane : Lane) {item : Place × Message}
    (first : after.heldOn lane = item ::ₘ queue.heldOn lane)
    (same : after.elsewhere lane = queue.elsewhere lane) :
    after.held = item ::ₘ queue.held := by
  rw [held_of_heldOn lane first, same, ← held_eq_add]

/-- A message is in flight under the receipt. -/
def Flies (queue : Queue) (receipt : Nat) : Prop :=
  ∃ lane message, (Place.inFlight receipt lane, message) ∈ queue.held

theorem flies_iff {receipt : Nat} :
    queue.Flies receipt ↔ (queue.inFlight.get? receipt).isSome := by
  simp only [Flies, inFlight_mem_held_iff, Option.isSome_iff_exists]
  constructor
  · rintro ⟨-, -, entry, found, -⟩
    exact ⟨entry, found⟩
  · rintro ⟨entry, found⟩
    exact ⟨_, _, entry, found, rfl, rfl⟩

/-- A receipt stands for one message. -/
theorem countP_under_le (queue : Queue) (receipt : Nat) :
    queue.held.countP (fun item => item.1.under receipt) ≤ 1 := by
  simp only [held, heldOn, flying, Multiset.countP_add, Multiset.coe_countP, List.countP_map]
  have single := List.nodup_iff_count_le_one.mp queue.inFlight.nodup_keys receipt
  simp only [SortedMap.keys, List.count, List.countP_map, Function.comp_def, beq_eq_decide] at single
  simpa [Function.comp_def, Place.under] using single

/-- A new entry joins what is in flight. -/
theorem flying_insert {inFlight : SortedMap Nat InFlight} {receipt : Nat} (entry : InFlight)
    (free : inFlight.get? receipt = none) :
    flying (inFlight.insert receipt entry) =
      (.inFlight receipt entry.lane, entry.message) ::ₘ flying inFlight :=
  Multiset.coe_eq_coe.mpr ((SortedMap.entries_insert_perm entry free).map _)

/-- An entry that is erased leaves the others. -/
theorem flying_erase {inFlight : SortedMap Nat InFlight} {receipt : Nat} {entry : InFlight}
    (found : inFlight.get? receipt = some entry) :
    flying inFlight =
      (.inFlight receipt entry.lane, entry.message) ::ₘ flying (inFlight.erase receipt) :=
  Multiset.coe_eq_coe.mpr ((SortedMap.entries_erase_perm found).map _)

/-- The counts of a lane are those of its places. -/
theorem laneStatus_eq (queue : Queue) (lane : Lane) :
    queue.laneStatus lane = ⟨queue.held.countP fun item => item.1.waitsOn lane,
      queue.held.countP fun item => item.1.fliesFrom lane⟩ := by
  simp only [held, heldOn, flying, Multiset.countP_add, Multiset.coe_countP, List.countP_map,
    laneStatus, LaneStatus.mk.injEq]
  constructor
  · cases lane <;> simp [Function.comp_def, Place.waitsOn]
  · simp [Function.comp_def, Place.fliesFrom, SortedMap.values, List.countP_eq_length_filter,
      List.filter_map]

theorem length_eq_lanes (entries : List InFlight) : entries.length =
    (entries.filter fun entry => entry.lane = .primary).length +
      (entries.filter fun entry => entry.lane = .secondary).length +
        (entries.filter fun entry => entry.lane = .deferred).length := by
  induction entries with
  | nil => rfl
  | cons first rest ih =>
    rw [List.length_cons, ih]
    cases lane : first.lane <;> simp [lane] <;> omega

/-- Every message is counted once. -/
theorem totals_eq_card (queue : Queue) :
    queue.totalWaiting + queue.totalInFlight = Multiset.card queue.held := by
  have flown : (flying queue.inFlight).card = queue.inFlight.values.length := by
    simp [flying, SortedMap.values]
  have lanes := length_eq_lanes queue.inFlight.values
  simp only [totalWaiting, totalInFlight, Lane.all, List.foldl_cons, List.foldl_nil, laneStatus,
    held, Multiset.card_add, flown, heldOn, Multiset.coe_card, List.length_map]
  omega

/-- A queue is idle when it holds nothing. -/
theorem isIdle_iff (queue : Queue) : queue.isIdle = true ↔ queue.held = 0 := by
  have totals := totals_eq_card queue
  rw [← Multiset.card_eq_zero, ← totals]
  simp [isIdle]

end Queue

end CachedViews
