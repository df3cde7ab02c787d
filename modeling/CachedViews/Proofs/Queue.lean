import CachedViews.Proofs.Sorted
import CachedViews.Queue.Basic

/-!
What a queue owes. Sending adds to it, receiving moves some of it into deliveries, and
merging into a waiting message loses nothing but a stamp.
-/
namespace CachedViews

/-- What a message asks for: a rebuild, alone or with the dependents of a change. -/
structure Rebuild where
  uuid : Uuid
  strict : Bool
  diff : Option (List String)

def Message.rebuild (message : Message) : Rebuild := ⟨message.uuid, message.strict, message.diff⟩

namespace Queue

/-- Every waiting message, in the order in which the lanes are drained. -/
def waitingMessages (queue : Queue) : List Message :=
  queue.primary ++ queue.secondary ++ queue.deferred.map Prod.snd

def rebuilds (queue : Queue) : List Rebuild := queue.waitingMessages.map Message.rebuild

/-- Entities marked as waiting do wait, and only the given receipts are in flight. -/
structure Sound (queue : Queue) (receipts : List Nat) : Prop where
  waiting : ∀ uuid ∈ queue.waitingSecondary, ∃ message ∈ queue.secondary, message.uuid = uuid
  inFlight : ∀ receipt entry, queue.inFlight.get? receipt = some entry → receipt ∈ receipts

theorem Sound.empty : Sound .empty [] where
  waiting _ inside := absurd inside (SortedSet.not_mem_empty _)
  inFlight _ _ found := by cases found

variable {queue : Queue} {receipts : List Nat}

theorem Sound.of_marked (marked : ∀ uuid ∈ queue.waitingSecondary,
    ∃ message ∈ queue.secondary, message.uuid = uuid) : Sound queue queue.inFlight.keys where
  waiting := marked
  inFlight receipt entry found :=
    (queue.inFlight.mem_keys_iff receipt).mpr (by rw [SortedMap.contains, found]; rfl)

theorem send_primary (queue : Queue) (now : Instant) (messages : List Message) :
    (queue.send .primary now messages).2 = { queue with primary := queue.primary ++ messages } := by
  induction messages generalizing queue with
  | nil => simp [send]
  | cons message rest ih =>
    rw [send, push]
    dsimp only
    rw [ih, place]
    simp

theorem absorb_rebuilds (message : Message) (waiting : List Message) :
    (absorb message waiting).map Message.rebuild = waiting.map Message.rebuild := by
  induction waiting with
  | nil => rfl
  | cons first rest ih =>
    rw [absorb]
    split
    · rfl
    · rw [List.map_cons, List.map_cons, ih]

theorem mem_absorb {message absorbed : Message} {waiting : List Message}
    (inside : absorbed ∈ absorb message waiting) :
    ∃ before ∈ waiting, absorbed.uuid = before.uuid ∧
      (absorbed = before ∨ absorbed.sid = laterSid before.sid message.sid) := by
  induction waiting with
  | nil => cases inside
  | cons first rest ih =>
    rw [absorb] at inside
    split at inside
    · rcases List.mem_cons.mp inside with rfl | later
      · exact ⟨first, List.mem_cons_self, rfl, Or.inr rfl⟩
      · exact ⟨absorbed, List.mem_cons_of_mem _ later, rfl, Or.inl rfl⟩
    · rcases List.mem_cons.mp inside with rfl | later
      · exact ⟨absorbed, List.mem_cons_self, rfl, Or.inl rfl⟩
      · obtain ⟨before, listed, rest⟩ := ih later
        exact ⟨before, List.mem_cons_of_mem _ listed, rest⟩

/-- What sending to the secondary lane leaves: the same lane with some messages added behind. -/
structure Sent (queue : Queue) (messages : List Message) (after : Queue) : Prop where
  primary : after.primary = queue.primary
  deferred : after.deferred = queue.deferred
  inFlight : after.inFlight = queue.inFlight
  rebuilds : ∃ added : List Message, (∀ message ∈ added, message ∈ messages) ∧
    after.secondary.map Message.rebuild = queue.secondary.map Message.rebuild ++ added.map Message.rebuild
  waits : ∀ message ∈ messages, ∃ waiting ∈ after.secondary, waiting.uuid = message.uuid
  sids : ∀ message ∈ after.secondary, ∀ sid, message.sid = some sid →
    ∃ before ∈ queue.secondary ++ messages, ∃ stamp, before.sid = some stamp ∧ sid ≤ stamp
  waiting : ∀ uuid ∈ after.waitingSecondary, ∃ message ∈ after.secondary, message.uuid = uuid

theorem exists_of_rebuilds {messages others : List Message} {extra : List Rebuild}
    (same : others.map Message.rebuild = messages.map Message.rebuild ++ extra) {message : Message}
    (listed : message ∈ messages) : ∃ other ∈ others, other.rebuild = message.rebuild := by
  have inside : message.rebuild ∈ others.map Message.rebuild := by
    rw [same]
    exact List.mem_append_left _ (List.mem_map_of_mem listed)
  exact List.mem_map.mp inside

theorem laterSid_eq_max (a b : Option Sid) : laterSid a b = max a b := by
  cases a <;> cases b <;> rfl

theorem laterSid_le {a b : Option Sid} {sid : Sid} (later : laterSid a b = some sid) :
    (∃ stamp, a = some stamp ∧ sid ≤ stamp) ∨ ∃ stamp, b = some stamp ∧ sid ≤ stamp := by
  cases a with
  | none => exact Or.inr ⟨sid, later, Int.le_refl _⟩
  | some a =>
    cases b with
    | none => exact Or.inl ⟨sid, later, Int.le_refl _⟩
    | some b =>
      simp only [laterSid, Option.some.injEq] at later
      subst later
      rcases Int.le_total a b with below | above
      · exact Or.inr ⟨b, rfl, Int.max_le.mpr ⟨below, Int.le_refl _⟩⟩
      · exact Or.inl ⟨a, rfl, Int.max_le.mpr ⟨Int.le_refl _, above⟩⟩

theorem sent_one (sound : Sound queue receipts) (message : Message) :
    Sent queue [message] (queue.pushSecondary message false).2 := by
  unfold pushSecondary
  split
  -- A waiting message of the same entity takes the new one in: what is owed stays, its stamp may grow.
  · rename_i waits
    obtain ⟨waiting, listed, same⟩ := sound.waiting _ waits
    have kept := absorb_rebuilds message queue.secondary
    refine ⟨rfl, rfl, rfl, ⟨[], by simp, by simpa using kept⟩, ?_, ?_, ?_⟩
    · intro other inside
      obtain rfl := List.mem_singleton.mp inside
      obtain ⟨held, inside, same'⟩ := exists_of_rebuilds (kept.trans (List.append_nil _).symm) listed
      exact ⟨held, inside, (congrArg Rebuild.uuid same').trans same⟩
    · intro held inside sid stamped
      obtain ⟨before, there, -, either⟩ := mem_absorb inside
      rcases either with rfl | merged
      · exact ⟨held, List.mem_append_left _ there, sid, stamped, Int.le_refl _⟩
      · rw [merged] at stamped
        rcases laterSid_le stamped with ⟨stamp, at_, below⟩ | ⟨stamp, at_, below⟩
        · exact ⟨before, List.mem_append_left _ there, stamp, at_, below⟩
        · exact ⟨message, List.mem_append_right _ List.mem_cons_self, stamp, at_, below⟩
    · intro uuid inside
      obtain ⟨waiting, listed, same⟩ := sound.waiting uuid inside
      obtain ⟨held, inside, same'⟩ := exists_of_rebuilds (kept.trans (List.append_nil _).symm) listed
      exact ⟨held, inside, (congrArg Rebuild.uuid same').trans same⟩
  -- No message of the entity is known to wait, so the new one goes behind the lane.
  · refine ⟨rfl, rfl, rfl, ⟨[message], fun _ inside => inside, ?_⟩, ?_, ?_, ?_⟩
    · simp [place]
    · intro other inside
      obtain rfl := List.mem_singleton.mp inside
      exact ⟨other, List.mem_append_right _ List.mem_cons_self, rfl⟩
    · intro held inside sid stamped
      exact ⟨held, inside, sid, stamped, Int.le_refl _⟩
    · intro uuid inside
      rcases SortedSet.mem_insert.mp inside with rfl | before
      · exact ⟨message, List.mem_append_right _ List.mem_cons_self, rfl⟩
      · obtain ⟨waiting, listed, same⟩ := sound.waiting uuid before
        exact ⟨waiting, List.mem_append_left _ listed, same⟩

theorem Sent.sound {messages : List Message} {after : Queue} (sound : Sound queue receipts)
    (sent : Sent queue messages after) : Sound after receipts where
  waiting := sent.waiting
  inFlight receipt entry found := sound.inFlight receipt entry (sent.inFlight ▸ found)

/-- Sending drops nothing that waits. -/
theorem Sent.kept {messages : List Message} {after : Queue} (sent : Sent queue messages after)
    {rebuild : Rebuild} (listed : rebuild ∈ queue.rebuilds) : rebuild ∈ after.rebuilds := by
  obtain ⟨added, -, same⟩ := sent.rebuilds
  unfold Queue.rebuilds waitingMessages at listed ⊢
  simp only [List.map_append, List.mem_append, sent.primary, sent.deferred, same] at listed ⊢
  rcases listed with (first | second) | third
  · exact Or.inl (Or.inl first)
  · exact Or.inl (Or.inr (Or.inl second))
  · exact Or.inr third

theorem Sent.waits_for {messages : List Message} {after : Queue}
    (sent : Sent queue messages after) {message : Message} (listed : message ∈ messages) :
    ∃ rebuild ∈ after.rebuilds, rebuild.uuid = message.uuid := by
  obtain ⟨waiting, held, same⟩ := sent.waits message listed
  refine ⟨waiting.rebuild, List.mem_map_of_mem ?_, same⟩
  exact List.mem_append_left _ (List.mem_append_right _ held)

theorem sent_secondary (sound : Sound queue receipts) (now : Instant) (messages : List Message) :
    Sent queue messages (queue.send .secondary now messages).2 := by
  induction messages generalizing queue with
  | nil =>
    refine ⟨rfl, rfl, rfl, ⟨[], by simp, by simp [send]⟩, by simp, ?_, sound.waiting⟩
    intro message inside sid stamped
    exact ⟨message, List.mem_append_left _ inside, sid, stamped, Int.le_refl _⟩
  | cons message rest ih =>
    -- Soundness has to hold between the two: a merge needs the message it merges into.
    have first := sent_one sound message
    have second := ih (first.sound sound)
    rw [send, push]
    dsimp only
    obtain ⟨addedFirst, fromFirst, rebuildsFirst⟩ := first.rebuilds
    obtain ⟨addedRest, fromRest, rebuildsRest⟩ := second.rebuilds
    refine ⟨second.primary.trans first.primary, second.deferred.trans first.deferred,
      second.inFlight.trans first.inFlight, ⟨addedFirst ++ addedRest, ?_, ?_⟩, ?_, ?_,
      second.waiting⟩
    · intro added inside
      rcases List.mem_append.mp inside with early | late
      · rw [List.mem_singleton.mp (fromFirst added early)]
        exact List.mem_cons_self
      · exact List.mem_cons_of_mem _ (fromRest added late)
    · rw [rebuildsRest, rebuildsFirst, List.map_append, List.append_assoc]
    · intro other inside
      rcases List.mem_cons.mp inside with rfl | later
      · obtain ⟨waiting, listed, same⟩ := first.waits other List.mem_cons_self
        obtain ⟨held, there, same'⟩ := exists_of_rebuilds rebuildsRest listed
        exact ⟨held, there, (congrArg Rebuild.uuid same').trans same⟩
      · exact second.waits other later
    · intro held inside sid stamped
      obtain ⟨before, listed, stamp, at_, below⟩ := second.sids held inside sid stamped
      rcases List.mem_append.mp listed with early | late
      · obtain ⟨source, there, higher, at', above⟩ := first.sids before early stamp at_
        refine ⟨source, ?_, higher, at', Int.le_trans below above⟩
        rcases List.mem_append.mp there with old | new
        · exact List.mem_append_left _ old
        · rw [List.mem_singleton.mp new]
          exact List.mem_append_right _ List.mem_cons_self
      · exact ⟨before, List.mem_append_right _ (List.mem_cons_of_mem _ late), stamp, at_, below⟩

theorem ack_sound {receipt : Nat} (sound : Sound queue (receipt :: receipts)) :
    Sound (queue.ack receipt).2 receipts where
  waiting := sound.waiting
  inFlight other entry found := by
    simp only [ack, SortedMap.get?_erase_eq] at found
    split at found
    · cases found
    · rename_i apart
      exact (List.mem_cons.mp (sound.inFlight other entry found)).resolve_left apart

/-- What taking messages off a queue leaves. -/
structure Taken (queue : Queue) (deliveries : List Delivery) (after : Queue) : Prop where
  messages : ∀ message, message ∈ queue.waitingMessages ↔
    message ∈ deliveries.map Delivery.message ∨ message ∈ after.waitingMessages
  /-- Without deferred messages the order of the lanes is the order of delivery. -/
  ordered : queue.deferred = [] → after.deferred = [] ∧
    queue.waitingMessages = deliveries.map Delivery.message ++ after.waitingMessages
  secondary : ∀ message ∈ after.secondary, message ∈ queue.secondary
  sound : ∀ receipts, Sound queue receipts →
    Sound after (deliveries.map Delivery.receipt ++ receipts)

/-- With nothing in flight before, only what was taken is in flight. -/
theorem Taken.sound_between {deliveries : List Delivery} {after : Queue}
    (taken : Taken queue deliveries after) (sound : Sound queue []) :
    Sound after (deliveries.map Delivery.receipt) := by
  have delivered := taken.sound [] sound
  rwa [List.append_nil] at delivered

theorem takeReady_mem {now : Instant} {deferred rest : List (Instant × Message)}
    {ready : Message} (taken : takeReady now deferred = some (ready, rest)) (message : Message) :
    message ∈ deferred.map Prod.snd ↔ message = ready ∨ message ∈ rest.map Prod.snd := by
  induction deferred generalizing rest with
  | nil => cases taken
  | cons first others ih =>
    obtain ⟨notBefore, waiting⟩ := first
    rw [takeReady] at taken
    split at taken
    · cases taken
      rw [List.map_cons, List.mem_cons]
    · obtain ⟨⟨_, remaining⟩, found, same⟩ := Option.map_eq_some_iff.mp taken
      cases same
      rw [List.map_cons, List.map_cons, List.mem_cons, List.mem_cons, ih found]
      exact or_left_comm

/-- One message taken off its lane. -/
theorem popReady_spec {now : Instant} {lane : Lane} {message : Message} {after : Queue}
    (popped : queue.popReady now = some (lane, message, after)) :
    (∀ other, other ∈ queue.waitingMessages ↔ other = message ∨ other ∈ after.waitingMessages) ∧
      (queue.deferred = [] → after.deferred = [] ∧
        queue.waitingMessages = message :: after.waitingMessages) ∧
      (∀ other ∈ after.secondary, other ∈ queue.secondary) ∧
      ∀ receipts, Sound queue receipts → Sound after receipts := by
  unfold popReady at popped
  split at popped
  · rename_i first rest primary
    cases popped
    refine ⟨?_, ?_, fun _ => id, fun receipts sound => ⟨sound.waiting, sound.inFlight⟩⟩
    · simp [waitingMessages, primary]
    · intro none
      exact ⟨none, by simp [waitingMessages, primary]⟩
  · rename_i primary
    split at popped
    · rename_i first rest secondary
      cases popped
      refine ⟨?_, ?_, ?_, fun receipts sound => ⟨?_, sound.inFlight⟩⟩
      · simp [waitingMessages, primary, secondary]
      · intro none
        exact ⟨none, by simp [waitingMessages, primary, secondary]⟩
      · intro other listed
        rw [secondary]
        exact List.mem_cons_of_mem _ listed
      · intro uuid inside
        obtain ⟨before, apart⟩ := SortedSet.mem_erase.mp inside
        obtain ⟨waiting, listed, same⟩ := sound.waiting uuid before
        rw [secondary] at listed
        rcases List.mem_cons.mp listed with rfl | later
        -- The mark of the taken entity is gone, so any other mark has its message further back.
        · exact absurd same.symm apart
        · exact ⟨waiting, later, same⟩
    -- Deferred messages come out by their time, not by their place: only membership is kept.
    · rename_i secondary
      obtain ⟨⟨ready, rest⟩, taken, same⟩ := Option.map_eq_some_iff.mp popped
      cases same
      refine ⟨?_, ?_, fun _ => id, fun receipts sound => ⟨sound.waiting, sound.inFlight⟩⟩
      · intro other
        simp only [waitingMessages, primary, secondary, List.nil_append]
        exact takeReady_mem taken other
      · intro none
        rw [none] at taken
        cases taken

theorem deliver_sound (sound : Sound queue receipts) (lane : Lane) (message : Message)
    (visibleAt : Instant) :
    Sound (queue.deliver lane message visibleAt).2
      ((queue.deliver lane message visibleAt).1.receipt :: receipts) where
  waiting := sound.waiting
  inFlight receipt entry found := by
    simp only [deliver, SortedMap.get?_insert_eq] at found
    split at found
    · rename_i same
      exact List.mem_cons.mpr (Or.inl same)
    · exact List.mem_cons_of_mem _ (sound.inFlight receipt entry found)

theorem take_spec (now visibleAt : Instant) (count : Nat) (queue : Queue) :
    Taken queue (take now visibleAt count queue).1 (take now visibleAt count queue).2 := by
  induction count generalizing queue with
  | zero =>
    exact ⟨by simp [take], fun none => ⟨none, by simp [take]⟩, fun _ => id, fun _ sound => sound⟩
  | succ count ih =>
    rw [take]
    cases popped : queue.popReady now with
    | none => exact ⟨by simp, fun none => ⟨none, by simp⟩, fun _ => id, fun _ sound => sound⟩
    | some found =>
      obtain ⟨lane, message, rest⟩ := found
      obtain ⟨messages, ordered, secondary, sound⟩ := popReady_spec popped
      -- A delivery is marked in flight and touches no lane.
      have more := ih (rest.deliver lane message visibleAt).2
      have waits : (rest.deliver lane message visibleAt).2.waitingMessages = rest.waitingMessages :=
        rfl
      dsimp only
      refine ⟨?_, ?_, fun other listed => secondary other (more.secondary other listed), ?_⟩
      · intro other
        rw [messages, ← waits, more.messages, List.map_cons, List.mem_cons, or_assoc]
        rfl
      · intro none
        obtain ⟨restNone, first⟩ := ordered none
        obtain ⟨afterNone, later⟩ := more.ordered restNone
        exact ⟨afterNone, by rw [first, ← waits, later]; rfl⟩
      · intro receipts before
        have delivered := more.sound _ (deliver_sound (sound receipts before) lane message visibleAt)
        refine ⟨delivered.waiting, fun receipt entry there => ?_⟩
        have inside := delivered.inFlight receipt entry there
        simp only [List.map_cons, List.cons_append, List.mem_cons, List.mem_append] at inside ⊢
        rcases inside with later | same | old
        · exact Or.inr (Or.inl later)
        · exact Or.inl same
        · exact Or.inr (Or.inr old)

theorem reclaimExpired_eq (sound : Sound queue []) (order : ReclaimOrder) (now : Instant) :
    queue.reclaimExpired order now = queue := by
  have none : queue.inFlight.entries = [] := by
    refine List.eq_nil_iff_forall_not_mem.mpr fun entry inside => ?_
    have found := (queue.inFlight.mem_entries_iff entry.1 entry.2).mp inside
    cases sound.inFlight entry.1 entry.2 found
  have expiredNone : queue.expiredReceipts now = [] := by
    simp [expiredReceipts, SortedMap.keys, SortedMap.filter, none]
  rw [reclaimExpired, expiredNone, (order.perm []).eq_nil]
  rfl

/-- With nothing in flight, receiving only takes messages. -/
theorem receive_spec (sound : Sound queue []) (order : ReclaimOrder) (now : Instant)
    (visibility : Duration) (limit : Nat) :
    Taken queue (queue.receive order now visibility limit).1
      (queue.receive order now visibility limit).2 := by
  rw [receive, reclaimExpired_eq sound]
  exact take_spec _ _ _ _

theorem mem_rebuilds_added (queue : Queue) (messages : List Message) (rebuild : Rebuild) :
    rebuild ∈ ({ queue with primary := queue.primary ++ messages } : Queue).rebuilds ↔
      rebuild ∈ queue.rebuilds ∨ ∃ message ∈ messages, message.rebuild = rebuild := by
  simp only [rebuilds, waitingMessages, List.map_append, List.mem_append, List.mem_map]
  constructor
  · rintro (((first | new) | second) | third)
    · exact Or.inl (Or.inl (Or.inl first))
    · exact Or.inr new
    · exact Or.inl (Or.inl (Or.inr second))
    · exact Or.inl (Or.inr third)
  · rintro (((first | second) | third) | new)
    · exact Or.inl (Or.inl (Or.inl first))
    · exact Or.inl (Or.inr second)
    · exact Or.inr third
    · exact Or.inl (Or.inl (Or.inr new))

/-- Nothing is waiting on an idle queue. -/
theorem waitingMessages_of_isIdle (idle : queue.isIdle = true) : queue.waitingMessages = [] := by
  simp only [isIdle, totalWaiting, Lane.all, List.foldl_cons, List.foldl_nil, laneStatus, waiting,
    Bool.and_eq_true, decide_eq_true_eq, Nat.zero_add, List.length_map] at idle
  obtain ⟨none, -⟩ := idle
  have primary : queue.primary = [] := List.length_eq_zero_iff.mp (by omega)
  have secondary : queue.secondary = [] := List.length_eq_zero_iff.mp (by omega)
  have deferred : queue.deferred = [] := List.length_eq_zero_iff.mp (by omega)
  rw [waitingMessages, primary, secondary, deferred]
  rfl

end Queue

end CachedViews
