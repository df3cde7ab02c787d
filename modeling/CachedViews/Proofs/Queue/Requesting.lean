import CachedViews.Proofs.Queue.Owing

/-!
Rebuilds that were asked for without a stamp. Their messages wait on the primary lane, which merges
none, or are in flight from it, until one of their deliveries is acknowledged.
-/
namespace CachedViews

namespace Queue

/-- A message that asks for a rebuild of the entity as it is, whatever was written last. -/
def Asking (uuid : Uuid) (message : Message) : Prop := message.uuid = uuid ∧ message.sid = none

/-- Such a message waits on the primary lane or is in flight from it. -/
def Requested (queue : Queue) (uuid : Uuid) : Prop :=
  (∃ message ∈ queue.primary, Asking uuid message) ∨
    ∃ receipt entry, queue.inFlight.get? receipt = some entry ∧ entry.lane = .primary ∧
      Asking uuid entry.message

/-- What leaves the primary lane and the deliveries in flight as they are, or adds to the lane. -/
structure Extends (queue after : Queue) : Prop where
  primary : ∀ message ∈ queue.primary, message ∈ after.primary
  inFlight : after.inFlight = queue.inFlight

variable {queue middle after : Queue} {uuid : Uuid}

theorem Extends.refl (queue : Queue) : Extends queue queue := ⟨fun _ => id, rfl⟩

theorem Extends.trans (one : Extends queue middle) (two : Extends middle after) :
    Extends queue after :=
  ⟨fun message waits => two.primary message (one.primary message waits),
    two.inFlight.trans one.inFlight⟩

theorem Requested.grown (requested : queue.Requested uuid) (more : Extends queue after) :
    after.Requested uuid := by
  rcases requested with ⟨message, waits, asks⟩ | ⟨receipt, entry, found, asked⟩
  · exact Or.inl ⟨message, more.primary message waits, asks⟩
  · exact Or.inr ⟨receipt, entry, more.inFlight ▸ found, asked⟩

theorem push_extends (queue : Queue) (lane : Lane) (message : Message) (front : Bool)
    (now : Instant) : Extends queue (queue.push lane message front now).2 := by
  refine ⟨fun other waits => ?_, (push_adds queue lane message front now).inFlight⟩
  cases lane with
  | primary => exact mem_place.mpr (Or.inr waits)
  | secondary =>
    rw [push]
    unfold pushSecondary
    split <;> exact waits
  | deferred => exact waits

theorem send_extends (queue : Queue) (lane : Lane) (now : Instant) (messages : List Message) :
    Extends queue (queue.send lane now messages).2 := by
  induction messages generalizing queue with
  | nil => exact .refl queue
  | cons message rest ih => exact (push_extends queue lane message false now).trans (ih _)

theorem sendDeferred_extends (queue : Queue) (message : Message) (notBefore : Instant) :
    Extends queue (queue.sendDeferred message notBefore) :=
  ⟨fun _ => id, rfl⟩

/-- A delivery that is given back waits in front of its lane. -/
theorem Requested.giveBack (requested : queue.Requested uuid) (receipt : Nat) (now : Instant) :
    (queue.giveBack receipt now).2.Requested uuid := by
  unfold Queue.giveBack
  cases found : queue.inFlight.get? receipt with
  | none => exact requested
  | some entry =>
    have more := push_extends { queue with inFlight := queue.inFlight.erase receipt } entry.lane
      entry.message true now
    rcases requested with ⟨message, waits, asks⟩ | ⟨other, flying, there, lane, asks⟩
    · exact Or.inl ⟨message, more.primary message waits, asks⟩
    · by_cases same : other = receipt
      · subst same
        cases found.symm.trans there
        have front : entry.message ∈ place true entry.message queue.primary :=
          mem_place.mpr (Or.inl rfl)
        dsimp only
        rw [lane]
        exact Or.inl ⟨entry.message, front, asks⟩
      · refine Or.inr ⟨other, flying, ?_, lane, asks⟩
        rw [more.inFlight, SortedMap.get?_erase_eq, if_neg same]
        exact there

theorem Requested.reclaimExpired (requested : queue.Requested uuid) (order : ReclaimOrder)
    (now : Instant) : (queue.reclaimExpired order now).Requested uuid := by
  unfold Queue.reclaimExpired
  induction order.arrange (queue.expiredReceipts now) generalizing queue with
  | nil => exact requested
  | cons receipt rest ih => exact ih (requested.giveBack receipt now)

/-- The primary lane is served first, and what is taken off it is delivered as its. -/
theorem popReady_primary {now : Instant} {lane : Lane} {message : Message}
    (popped : queue.popReady now = some (lane, message, after)) {other : Message}
    (waits : other ∈ queue.primary) :
    other ∈ after.primary ∨ other = message ∧ lane = .primary := by
  unfold popReady at popped
  split at popped
  · rename_i first rest primary
    cases popped
    rw [primary] at waits
    rcases List.mem_cons.mp waits with same | later
    · exact Or.inr ⟨same, rfl⟩
    · exact Or.inl later
  · rename_i primary
    rw [primary] at waits
    cases waits

theorem Requested.deliver (requested : queue.Requested uuid) (orderly : queue.Orderly)
    {now : Instant} {lane : Lane} {message : Message}
    (popped : queue.popReady now = some (lane, message, after)) (visibleAt : Instant) :
    (after.deliver lane message visibleAt).2.Requested uuid := by
  obtain ⟨-, -, lastReceipt, -⟩ := popReady_owes orderly popped
  rcases requested with ⟨other, waits, asks⟩ | ⟨receipt, entry, found, lane, asks⟩
  · rcases popReady_primary popped waits with still | ⟨rfl, rfl⟩
    · exact Or.inl ⟨other, still, asks⟩
    · exact Or.inr ⟨after.lastReceipt + 1, _, SortedMap.get?_insert_self _ _ _, rfl, asks⟩
  -- A new receipt takes no other delivery's place.
  · have kept := (deliver_takes orderly popped visibleAt).earlier receipt
      (orderly.issued receipt entry found)
    exact Or.inr ⟨receipt, entry, kept.trans found, lane, asks⟩

theorem Requested.take (requested : queue.Requested uuid) (orderly : queue.Orderly)
    (now visibleAt : Instant) (count : Nat) :
    (take now visibleAt count queue).2.Requested uuid := by
  induction count generalizing queue with
  | zero => exact requested
  | succ count ih =>
    rw [Queue.take]
    cases popped : queue.popReady now with
    | none => exact requested
    | some found =>
      obtain ⟨lane, message, rest⟩ := found
      exact ih (requested.deliver orderly popped visibleAt)
        (deliver_takes orderly popped visibleAt).orderly

/-- Receiving puts in flight what it takes. -/
theorem Requested.receive (requested : queue.Requested uuid) (serving : queue.Serving [])
    (order : ReclaimOrder) (now : Instant) (visibility : Duration) (limit : Nat) :
    (queue.receive order now visibility limit).2.Requested uuid :=
  (requested.reclaimExpired order now).take (serving.reclaimExpired order now).1.orderly now _
    limit

/-- Acknowledging a delivery settles its own request at most. -/
theorem Requested.ack {handed : List Delivery} {delivery : Delivery}
    (requested : queue.Requested uuid) (serving : queue.Serving handed)
    (listed : delivery ∈ handed) :
    (queue.ack delivery.receipt).2.Requested uuid ∨ Asking uuid delivery.message := by
  rcases requested with waits | ⟨receipt, entry, found, lane, asks⟩
  · exact Or.inl (Or.inl waits)
  · by_cases here : receipt = delivery.receipt
    · subst here
      rw [serving.held delivery listed entry found] at asks
      exact Or.inr asks
    · refine Or.inl (Or.inr ⟨receipt, entry, ?_, lane, asks⟩)
      rw [Queue.ack, SortedMap.get?_erase_eq, if_neg here]
      exact found

/-- Nothing is requested on an idle queue. -/
theorem not_requested_of_isIdle (idle : queue.isIdle = true) : ¬ queue.Requested uuid := by
  rintro (⟨message, waits, -⟩ | ⟨receipt, entry, found, lane, -⟩)
  · have waiting : message ∈ queue.waitingMessages :=
      List.mem_append_left _ (List.mem_append_left _ waits)
    rw [waitingMessages_of_isIdle idle] at waiting
    cases waiting
  · have flying : entry ∈ queue.inFlight.values.filter fun entry => entry.lane = .primary :=
      List.mem_filter.mpr ⟨List.mem_map.mpr
        ⟨(receipt, entry), (queue.inFlight.mem_entries_iff receipt entry).mpr found, rfl⟩,
          decide_eq_true lane⟩
    have one := List.length_pos_of_mem flying
    simp only [isIdle, totalInFlight, Lane.all, List.foldl_cons, List.foldl_nil, laneStatus,
      Bool.and_eq_true] at idle
    obtain ⟨-, none⟩ := idle
    have total := of_decide_eq_true none
    omega

end Queue

end CachedViews
