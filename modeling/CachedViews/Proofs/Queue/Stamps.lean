import CachedViews.Proofs.Queue.Passing

/-!
How late the messages of a queue are stamped. Two messages that become one keep the later stamp, so
nothing on a queue is stamped later than what was sent to it.
-/
namespace CachedViews

namespace Message

/-- The message has no stamp, or none above the limit. -/
def Within (limit : Sid) (message : Message) : Prop := ∀ sid, message.sid = some sid → sid ≤ limit

variable {limit later : Sid} {waiting message : Message}

theorem Within.of_unstamped (unstamped : message.sid = none) : message.Within limit := by
  intro sid stamped
  rw [unstamped] at stamped
  cases stamped

theorem Within.of_stamped {sid : Sid} (stamped : message.sid = some sid) (issued : sid ≤ limit) :
    message.Within limit := by
  intro other same
  cases stamped.symm.trans same
  exact issued

theorem Within.mono (within : message.Within limit) (reached : limit ≤ later) :
    message.Within later := fun sid stamped => Int.le_trans (within sid stamped) reached

theorem Within.merging (first : waiting.Within limit) (second : message.Within limit) :
    (waiting.merging message).Within limit := by
  intro sid stamped
  have later := (Queue.laterSid_eq_max waiting.sid message.sid).trans stamped
  rcases Queue.laterSid_le later with ⟨stamp, held, below⟩ | ⟨stamp, held, below⟩
  · exact Int.le_trans below (first stamp held)
  · exact Int.le_trans below (second stamp held)

end Message

namespace Queue

/-- No message that is waiting or in flight is stamped above the limit. -/
def Within (limit : Sid) (queue : Queue) : Prop := ∀ item ∈ queue.held, item.2.Within limit

/-- What is sent in an event is not stamped above the limit. -/
def Event.SendsWithin (limit : Sid) (event : Event) : Prop :=
  ∀ lane message, event.sent? = some (lane, message) → message.Within limit

variable {limit later : Sid} {queue after : Queue} {events : List Event}

theorem Within.mono (within : queue.Within limit) (reached : limit ≤ later) : queue.Within later :=
  fun item held => (within item held).mono reached

theorem Event.Moves.within {event : Event} {before after : Multiset (Place × Message)}
    (moves : event.Moves before after) (within : ∀ item ∈ before, item.2.Within limit)
    (sends : event.SendsWithin limit) : ∀ item ∈ after, item.2.Within limit := by
  obtain ⟨-, rest, rfl, rfl⟩ := moves
  have left : ∀ item ∈ event.leaves, item.2.Within limit := fun item inside =>
    within item (Multiset.mem_add.mpr (Or.inl inside))
  have entered : ∀ item ∈ event.enters, item.2.Within limit := by
    cases event with
    | joined lane message => simpa [enters] using sends lane message rfl
    | absorbed waiting message =>
      simp only [leaves, enters, Multiset.mem_singleton, forall_eq] at left ⊢
      exact left.merging (sends .secondary message rfl)
    | taken delivery => simpa [leaves, enters] using left
    | returned delivery => simpa [leaves, enters] using left
    | merged waiting delivery =>
      simp only [leaves, enters, Multiset.mem_singleton, forall_eq, Multiset.insert_eq_cons,
        Multiset.forall_mem_cons] at left ⊢
      exact left.2.merging left.1
    | finished delivery => simp [enters]
    | dropped lane message => simp [enters]
  intro item inside
  rcases Multiset.mem_add.mp inside with here | elsewhere
  · exact entered item here
  · exact within item (Multiset.mem_add.mpr (Or.inr elsewhere))

/-- Nothing becomes later than what is sent, and what is taken was there. -/
theorem Course.within {before after : Multiset (Place × Message)}
    (course : Course before events after) (within : ∀ item ∈ before, item.2.Within limit)
    (sends : ∀ event ∈ events, event.SendsWithin limit) :
    (∀ item ∈ after, item.2.Within limit) ∧
      ∀ delivery, .taken delivery ∈ events → delivery.message.Within limit := by
  induction course with
  | nil => exact ⟨within, fun delivery never => absurd never List.not_mem_nil⟩
  | cons moves _ ih =>
    obtain ⟨last, taken⟩ := ih (moves.within within (sends _ List.mem_cons_self))
      fun event listed => sends event (List.mem_cons_of_mem _ listed)
    refine ⟨last, fun delivery listed => ?_⟩
    rcases List.mem_cons.mp listed with rfl | further
    · obtain ⟨-, rest, rfl, -⟩ := moves
      exact within _ (Multiset.mem_add.mpr (Or.inl (Multiset.mem_singleton_self _)))
    · exact taken delivery further

theorem Passes.within (passes : Passes queue events after) (within : queue.Within limit)
    (sends : ∀ event ∈ events, event.SendsWithin limit) : after.Within limit :=
  (passes.course.within within sends).1

theorem Event.sendsWithin_of_silent {event : Event} (silent : event.sent? = none) :
    event.SendsWithin limit := by
  intro lane message sent
  rw [silent] at sent
  cases sent

section

variable (tidy : queue.Tidy) (within : queue.Within limit)
include tidy within

theorem Within.send (lane : Lane) (now : Instant) (messages : List Message)
    (each : ∀ message ∈ messages, message.Within limit) :
    (queue.send lane now messages).2.Tidy ∧ (queue.send lane now messages).2.Within limit := by
  obtain ⟨events, sent, -, passes⟩ := send_passes tidy lane now messages
  refine ⟨passes.tidy, passes.within within fun event listed onto message here => ?_⟩
  have told : event.sent? ∈ messages.map fun message => some (lane, message) :=
    sent ▸ List.mem_map_of_mem listed
  obtain ⟨other, among, same⟩ := List.mem_map.mp told
  cases same.trans here
  exact each message among

theorem Within.sendAll {posts : List Post}
    (each : ∀ post ∈ posts, ∀ message ∈ post.messages, message.Within limit) :
    (queue.sendAll posts).Tidy ∧ (queue.sendAll posts).Within limit := by
  induction posts generalizing queue with
  | nil => exact ⟨tidy, within⟩
  | cons post rest ih =>
    obtain ⟨still, below⟩ := within.send tidy post.lane post.now post.messages
      (each post List.mem_cons_self)
    exact ih still below fun other listed => each other (List.mem_cons_of_mem _ listed)

theorem Within.sendDeferred (message : Message) (notBefore : Instant)
    (below : message.Within limit) :
    (queue.sendDeferred message notBefore).Tidy ∧
      (queue.sendDeferred message notBefore).Within limit := by
  obtain ⟨event, sent, -, passes⟩ := push_passes tidy .deferred message notBefore
  refine ⟨passes.tidy, passes.within within fun other listed lane told here => ?_⟩
  obtain rfl := List.mem_singleton.mp listed
  cases sent.symm.trans here
  exact below

/-- What is received is not stamped above the limit either. -/
theorem Within.receive (order : ReclaimOrder) (now : Instant) (visibility : Duration)
    (count : Nat) :
    (queue.receive order now visibility count).2.Tidy ∧
      (queue.receive order now visibility count).2.Within limit ∧
      ∀ delivery ∈ (queue.receive order now visibility count).1,
        delivery.message.Within limit := by
  obtain ⟨back, returned, -, reclaimed⟩ := reclaimExpired_passes tidy order now
  obtain ⟨taken, -, -⟩ := take_passes reclaimed.tidy now (now.add visibility) count
  have returns := reclaimed.within within fun event listed => Event.sendsWithin_of_silent (by
    have here := returned event listed
    cases event <;> simp_all [Event.back?, Event.sent?])
  obtain ⟨last, each⟩ := taken.course.within returns fun event listed =>
    Event.sendsWithin_of_silent (by
      obtain ⟨delivery, -, rfl⟩ := List.mem_map.mp listed
      rfl)
  exact ⟨taken.tidy, last, fun delivery listed => each delivery (List.mem_map_of_mem listed)⟩

theorem Within.ack (receipt : Nat) :
    (queue.ack receipt).2.Tidy ∧ (queue.ack receipt).2.Within limit := by
  rcases ack_passes tidy receipt with ⟨-, same⟩ | ⟨entry, -, -, passes⟩
  · rw [same]
    exact ⟨tidy, within⟩
  · refine ⟨passes.tidy, passes.within within fun event listed => ?_⟩
    obtain rfl := List.mem_singleton.mp listed
    exact Event.sendsWithin_of_silent rfl

theorem Within.purge : queue.purge.2.Tidy ∧ queue.purge.2.Within limit := by
  have passes := purge_passes tidy
  refine ⟨passes.tidy, passes.within within fun event listed => ?_⟩
  obtain ⟨lane, -, dropped⟩ := List.mem_flatMap.mp listed
  obtain ⟨message, -, rfl⟩ := List.mem_map.mp dropped
  exact Event.sendsWithin_of_silent rfl

end

theorem Within.empty (limit : Sid) : Queue.empty.Within limit := by
  intro item inside
  have none : Queue.empty.held = 0 := rfl
  rw [none] at inside
  exact absurd inside (Multiset.notMem_zero item)

end Queue

end CachedViews
