import CachedViews.Proofs.Queue

/-!
For whom a queue owes a rebuild. Sending adds entities, an expired or refused delivery goes back
to its lane, receiving puts in flight what it takes, and only an acknowledged delivery is let go.
Deliveries of a batch that broke off may be in flight at any time.
-/
namespace CachedViews

/-- Messages sent to one lane at one time. -/
structure Post where
  lane : Lane
  now : Instant
  messages : List Message

namespace Queue

def sendAll (queue : Queue) (posts : List Post) : Queue :=
  posts.foldl (fun queue post => (queue.send post.lane post.now post.messages).2) queue

theorem sendAll_append (queue : Queue) (first second : List Post) :
    queue.sendAll (first ++ second) = (queue.sendAll first).sendAll second :=
  List.foldl_append

/-- A message for the entity waits on some lane. -/
def WaitsFor (queue : Queue) (uuid : Uuid) : Prop :=
  ∃ message ∈ queue.waitingMessages, message.uuid = uuid

/-- A message for the entity is waiting on some lane or in flight. -/
def Owes (queue : Queue) (uuid : Uuid) : Prop :=
  queue.WaitsFor uuid ∨
    ∃ receipt entry, queue.inFlight.get? receipt = some entry ∧ entry.message.uuid = uuid

instance (queue : Queue) (uuid : Uuid) : Decidable (queue.WaitsFor uuid) :=
  inferInstanceAs (Decidable (∃ message ∈ queue.waitingMessages, message.uuid = uuid))

instance (queue : Queue) (uuid : Uuid) : Decidable (queue.Owes uuid) :=
  decidable_of_iff (queue.WaitsFor uuid ∨
    ∃ entry ∈ queue.inFlight.entries, entry.2.message.uuid = uuid) <| by
    refine or_congr_right ⟨?_, ?_⟩
    · rintro ⟨⟨receipt, entry⟩, listed, same⟩
      exact ⟨receipt, entry, (queue.inFlight.mem_entries_iff receipt entry).mp listed, same⟩
    · rintro ⟨receipt, entry, found, same⟩
      exact ⟨(receipt, entry), (queue.inFlight.mem_entries_iff receipt entry).mpr found, same⟩

/-- Entities marked as waiting do wait, and receipts in flight have been handed out. -/
structure Orderly (queue : Queue) : Prop where
  marked : ∀ uuid ∈ queue.waitingSecondary, ∃ message ∈ queue.secondary, message.uuid = uuid
  issued : ∀ receipt entry, queue.inFlight.get? receipt = some entry → receipt ≤ queue.lastReceipt

theorem Orderly.empty : Orderly .empty where
  marked _ inside := absurd inside (SortedSet.not_mem_empty _)
  issued _ _ found := by cases found

variable {queue middle after : Queue}

theorem waitsFor_iff (queue : Queue) (uuid : Uuid) :
    queue.WaitsFor uuid ↔ (∃ message ∈ queue.primary, message.uuid = uuid) ∨
      (∃ message ∈ queue.secondary, message.uuid = uuid) ∨
        ∃ message ∈ queue.deferred.map Prod.snd, message.uuid = uuid := by
  simp only [WaitsFor, waitingMessages, List.mem_append]
  constructor
  · rintro ⟨message, (first | second) | third, same⟩
    · exact Or.inl ⟨message, first, same⟩
    · exact Or.inr (Or.inl ⟨message, second, same⟩)
    · exact Or.inr (Or.inr ⟨message, third, same⟩)
  · rintro (⟨message, first, same⟩ | ⟨message, second, same⟩ | ⟨message, third, same⟩)
    · exact ⟨message, Or.inl (Or.inl first), same⟩
    · exact ⟨message, Or.inl (Or.inr second), same⟩
    · exact ⟨message, Or.inr third, same⟩

/-- When nothing is in flight, what is owed waits. -/
theorem owes_iff_waitsFor (sound : Sound queue []) (uuid : Uuid) :
    queue.Owes uuid ↔ queue.WaitsFor uuid := by
  refine or_iff_left ?_
  rintro ⟨receipt, entry, found, -⟩
  cases sound.inFlight receipt entry found

/-- Sending to the secondary lane puts the entities of the messages there, and no others. -/
theorem Sent.secondary_iff {messages : List Message} (sent : Sent queue messages after)
    (uuid : Uuid) :
    (∃ message ∈ after.secondary, message.uuid = uuid) ↔
      (∃ message ∈ queue.secondary, message.uuid = uuid) ∨
        ∃ message ∈ messages, message.uuid = uuid := by
  obtain ⟨added, drawn, same⟩ := sent.rebuilds
  constructor
  · rintro ⟨message, listed, owner⟩
    have inside : message.rebuild ∈ after.secondary.map Message.rebuild :=
      List.mem_map_of_mem listed
    rw [same] at inside
    rcases List.mem_append.mp inside with old | new
    · obtain ⟨before, held, alike⟩ := List.mem_map.mp old
      exact Or.inl ⟨before, held, (congrArg Rebuild.uuid alike).trans owner⟩
    · obtain ⟨other, held, alike⟩ := List.mem_map.mp new
      exact Or.inr ⟨other, drawn other held, (congrArg Rebuild.uuid alike).trans owner⟩
  · rintro (⟨message, listed, owner⟩ | ⟨message, listed, owner⟩)
    · obtain ⟨held, inside, alike⟩ := exists_of_rebuilds same listed
      exact ⟨held, inside, (congrArg Rebuild.uuid alike).trans owner⟩
    · obtain ⟨waiting, inside, alike⟩ := sent.waits message listed
      exact ⟨waiting, inside, alike.trans owner⟩

theorem Sent.waitsFor_iff {messages : List Message} (sent : Sent queue messages after)
    (uuid : Uuid) :
    after.WaitsFor uuid ↔ queue.WaitsFor uuid ∨ ∃ message ∈ messages, message.uuid = uuid := by
  rw [Queue.waitsFor_iff, Queue.waitsFor_iff, sent.primary, sent.deferred, sent.secondary_iff]
  exact (or_congr_right or_right_comm).trans or_assoc.symm

/-- What a change that only adds to the lanes leaves. -/
structure Adds (queue after : Queue) : Prop where
  orderly : queue.Orderly → after.Orderly
  inFlight : after.inFlight = queue.inFlight
  lastReceipt : after.lastReceipt = queue.lastReceipt
  waits : ∀ uuid, queue.WaitsFor uuid → after.WaitsFor uuid

theorem Adds.refl (queue : Queue) : Adds queue queue := ⟨id, rfl, rfl, fun _ => id⟩

theorem Adds.trans (one : Adds queue middle) (two : Adds middle after) : Adds queue after :=
  ⟨two.orderly ∘ one.orderly, two.inFlight.trans one.inFlight,
    two.lastReceipt.trans one.lastReceipt,
    fun uuid waits => two.waits uuid (one.waits uuid waits)⟩

theorem Adds.owes (adds : Adds queue after) {uuid : Uuid} (owes : queue.Owes uuid) :
    after.Owes uuid := by
  rcases owes with waits | ⟨receipt, entry, found, same⟩
  · exact Or.inl (adds.waits uuid waits)
  · exact Or.inr ⟨receipt, entry, adds.inFlight ▸ found, same⟩

theorem mem_place {α : Type} {front : Bool} {item other : α} {lane : List α} :
    other ∈ place front item lane ↔ other = item ∨ other ∈ lane := by
  cases front <;> simp [place, or_comm]

/-- Merging into a waiting message leaves every entity where it was. -/
theorem absorb_waits (message : Message) (waiting : List Message) (uuid : Uuid) :
    (∃ other ∈ absorb message waiting, other.uuid = uuid) ↔
      ∃ other ∈ waiting, other.uuid = uuid := by
  have uuids := congrArg (List.map Rebuild.uuid) (absorb_rebuilds message waiting)
  simp only [List.map_map] at uuids
  have named : ∀ messages : List Message, (∃ other ∈ messages, other.uuid = uuid) ↔
      uuid ∈ messages.map (Rebuild.uuid ∘ Message.rebuild) := fun messages => by
    rw [List.mem_map]
    rfl
  rw [named, named, uuids]

theorem pushSecondary_adds (queue : Queue) (message : Message) (front : Bool) :
    Adds queue (queue.pushSecondary message front).2 := by
  unfold pushSecondary
  split
  · refine ⟨fun orderly => ⟨fun uuid inside => ?_, orderly.issued⟩, rfl, rfl, fun uuid waits => ?_⟩
    · exact (absorb_waits message _ uuid).mpr (orderly.marked uuid inside)
    · rw [waitsFor_iff] at waits ⊢
      exact waits.imp_right (Or.imp_left (absorb_waits message _ uuid).mpr)
  · refine ⟨fun orderly => ⟨fun uuid inside => ?_, orderly.issued⟩, rfl, rfl, fun uuid waits => ?_⟩
    · rcases SortedSet.mem_insert.mp inside with rfl | before
      · exact ⟨message, mem_place.mpr (Or.inl rfl), rfl⟩
      · obtain ⟨waiting, listed, same⟩ := orderly.marked uuid before
        exact ⟨waiting, mem_place.mpr (Or.inr listed), same⟩
    · rw [waitsFor_iff] at waits ⊢
      rcases waits with first | ⟨waiting, second, same⟩ | third
      · exact Or.inl first
      · exact Or.inr (Or.inl ⟨waiting, mem_place.mpr (Or.inr second), same⟩)
      · exact Or.inr (Or.inr third)

theorem push_adds (queue : Queue) (lane : Lane) (message : Message) (front : Bool)
    (now : Instant) : Adds queue (queue.push lane message front now).2 := by
  cases lane with
  | primary =>
    refine ⟨fun orderly => ⟨orderly.marked, orderly.issued⟩, rfl, rfl, fun uuid waits => ?_⟩
    rw [waitsFor_iff] at waits ⊢
    rcases waits with ⟨waiting, first, same⟩ | rest
    · exact Or.inl ⟨waiting, mem_place.mpr (Or.inr first), same⟩
    · exact Or.inr rest
  | secondary => exact pushSecondary_adds queue message front
  | deferred =>
    refine ⟨fun orderly => ⟨orderly.marked, orderly.issued⟩, rfl, rfl, fun uuid waits => ?_⟩
    rw [waitsFor_iff] at waits ⊢
    rcases waits with first | second | ⟨waiting, third, same⟩
    · exact Or.inl first
    · exact Or.inr (Or.inl second)
    · obtain ⟨entry, listed, rfl⟩ := List.mem_map.mp third
      exact Or.inr (Or.inr ⟨entry.2, List.mem_map.mpr ⟨entry, mem_place.mpr (Or.inr listed), rfl⟩,
        same⟩)

/-- A message that is pushed waits, or one for its entity does. -/
theorem push_waits (orderly : queue.Orderly) (lane : Lane) (message : Message) (front : Bool)
    (now : Instant) : (queue.push lane message front now).2.WaitsFor message.uuid := by
  rw [waitsFor_iff]
  cases lane with
  | primary => exact Or.inl ⟨message, mem_place.mpr (Or.inl rfl), rfl⟩
  | secondary =>
    refine Or.inr (Or.inl ?_)
    rw [push]
    unfold pushSecondary
    split
    · rename_i waiting
      exact (absorb_waits message _ _).mpr (orderly.marked _ waiting)
    · exact ⟨message, mem_place.mpr (Or.inl rfl), rfl⟩
  | deferred =>
    exact Or.inr (Or.inr ⟨message,
      List.mem_map.mpr ⟨(now, message), mem_place.mpr (Or.inl rfl), rfl⟩, rfl⟩)

theorem send_adds (queue : Queue) (lane : Lane) (now : Instant) (messages : List Message) :
    Adds queue (queue.send lane now messages).2 := by
  induction messages generalizing queue with
  | nil => exact .refl queue
  | cons message rest ih => exact (push_adds queue lane message false now).trans (ih _)

theorem send_waits (orderly : queue.Orderly) (lane : Lane) (now : Instant) {messages : List Message}
    {message : Message} (listed : message ∈ messages) :
    (queue.send lane now messages).2.WaitsFor message.uuid := by
  induction messages generalizing queue with
  | nil => cases listed
  | cons first rest ih =>
    have pushed := push_adds queue lane first false now
    rw [send]
    rcases List.mem_cons.mp listed with rfl | later
    · exact (send_adds _ lane now rest).waits _ (push_waits orderly lane message false now)
    · exact ih (pushed.orderly orderly) later

theorem sendAll_adds (queue : Queue) (posts : List Post) : Adds queue (queue.sendAll posts) := by
  induction posts generalizing queue with
  | nil => exact .refl queue
  | cons post rest ih => exact (send_adds queue post.lane post.now post.messages).trans (ih _)

theorem sendAll_waits (orderly : queue.Orderly) {posts : List Post} {post : Post}
    (sent : post ∈ posts) {message : Message} (listed : message ∈ post.messages) :
    (queue.sendAll posts).WaitsFor message.uuid := by
  induction posts generalizing queue with
  | nil => cases sent
  | cons first rest ih =>
    rcases List.mem_cons.mp sent with rfl | later
    · exact (sendAll_adds _ rest).waits _ (send_waits orderly post.lane post.now listed)
    · exact ih ((send_adds queue first.lane first.now first.messages).orderly orderly) later

theorem sendDeferred_adds (queue : Queue) (message : Message) (notBefore : Instant) :
    Adds queue (queue.sendDeferred message notBefore) := by
  refine ⟨fun orderly => ⟨orderly.marked, orderly.issued⟩, rfl, rfl, fun uuid waits => ?_⟩
  obtain ⟨waiting, listed, same⟩ := waits
  refine ⟨waiting, ?_, same⟩
  simp only [sendDeferred, waitingMessages, List.map_append, List.mem_append] at listed ⊢
  exact listed.imp_right Or.inl

theorem sendDeferred_waits (queue : Queue) (message : Message) (notBefore : Instant) :
    (queue.sendDeferred message notBefore).WaitsFor message.uuid :=
  ⟨message, by simp [sendDeferred, waitingMessages], rfl⟩

/-- A queue that some deliveries were handed out from. As long as one of them is in flight, its
receipt stands for its message. -/
structure Serving (queue : Queue) (handed : List Delivery) : Prop where
  orderly : queue.Orderly
  held : ∀ delivery ∈ handed, ∀ entry, queue.inFlight.get? delivery.receipt = some entry →
    entry.message = delivery.message
  issued : ∀ delivery ∈ handed, delivery.receipt ≤ queue.lastReceipt

/-- An orderly queue serves, no matter what was handed out before. -/
theorem Orderly.serving (orderly : queue.Orderly) : queue.Serving [] :=
  ⟨orderly, fun _ listed => absurd listed List.not_mem_nil, fun _ listed =>
    absurd listed List.not_mem_nil⟩

theorem Serving.empty : Serving .empty [] := Orderly.empty.serving

namespace Serving

variable {handed fewer : List Delivery}

theorem of_subset (serving : queue.Serving handed)
    (listed : ∀ delivery ∈ fewer, delivery ∈ handed) : queue.Serving fewer :=
  ⟨serving.orderly, fun delivery inside => serving.held delivery (listed delivery inside),
    fun delivery inside => serving.issued delivery (listed delivery inside)⟩

theorem of_adds (serving : queue.Serving handed) (adds : Adds queue after) :
    after.Serving handed where
  orderly := adds.orderly serving.orderly
  held delivery listed entry found := serving.held delivery listed entry (adds.inFlight ▸ found)
  issued delivery listed := adds.lastReceipt ▸ serving.issued delivery listed

/-- A receipt that is no longer in flight stands for nothing. -/
theorem released (serving : queue.Serving handed) (receipt : Nat) :
    Serving { queue with inFlight := queue.inFlight.erase receipt } handed := by
  have before : ∀ other entry, (queue.inFlight.erase receipt).get? other = some entry →
      queue.inFlight.get? other = some entry := by
    intro other entry found
    rw [SortedMap.get?_erase_eq] at found
    split at found
    · cases found
    · exact found
  exact ⟨⟨serving.orderly.marked, fun other entry found =>
      serving.orderly.issued other entry (before other entry found)⟩,
    fun delivery listed entry found => serving.held delivery listed entry (before _ entry found),
    serving.issued⟩

/-- A delivery that is given back waits again. -/
theorem giveBack (serving : queue.Serving handed) (receipt : Nat) (now : Instant) :
    (queue.giveBack receipt now).2.Serving handed ∧
      ∀ uuid, queue.Owes uuid → (queue.giveBack receipt now).2.Owes uuid := by
  unfold Queue.giveBack
  cases found : queue.inFlight.get? receipt with
  | none => exact ⟨serving, fun _ => id⟩
  | some entry =>
    have freed := serving.released receipt
    have adds := push_adds { queue with inFlight := queue.inFlight.erase receipt } entry.lane
      entry.message true now
    refine ⟨freed.of_adds adds, fun uuid owes => ?_⟩
    rcases owes with waits | ⟨other, flying, there, rfl⟩
    · exact Or.inl (adds.waits uuid waits)
    · by_cases same : other = receipt
      · subst same
        rw [found] at there
        cases there
        exact Or.inl (push_waits freed.orderly entry.lane entry.message true now)
      · refine adds.owes (Or.inr ⟨other, flying, ?_, rfl⟩)
        rw [SortedMap.get?_erase_eq, if_neg same]
        exact there

theorem reclaimExpired (serving : queue.Serving handed) (order : ReclaimOrder) (now : Instant) :
    (queue.reclaimExpired order now).Serving handed ∧
      ∀ uuid, queue.Owes uuid → (queue.reclaimExpired order now).Owes uuid := by
  unfold Queue.reclaimExpired
  induction order.arrange (queue.expiredReceipts now) generalizing queue with
  | nil => exact ⟨serving, fun _ => id⟩
  | cons receipt rest ih =>
    obtain ⟨still, here⟩ := serving.giveBack receipt now
    obtain ⟨last, there⟩ := ih still
    exact ⟨last, fun uuid owes => there uuid (here uuid owes)⟩

end Serving

theorem popReady_owes (orderly : queue.Orderly) {now : Instant} {lane : Lane} {message : Message}
    (popped : queue.popReady now = some (lane, message, after)) :
    after.Orderly ∧ after.inFlight = queue.inFlight ∧ after.lastReceipt = queue.lastReceipt ∧
      ∀ uuid, queue.WaitsFor uuid → message.uuid = uuid ∨ after.WaitsFor uuid := by
  obtain ⟨messages, -, -, sound⟩ := popReady_spec popped
  have same : after.inFlight = queue.inFlight ∧ after.lastReceipt = queue.lastReceipt := by
    unfold popReady at popped
    split at popped
    · cases popped
      exact ⟨rfl, rfl⟩
    · split at popped
      · cases popped
        exact ⟨rfl, rfl⟩
      · obtain ⟨_, -, rebuilt⟩ := Option.map_eq_some_iff.mp popped
        cases rebuilt
        exact ⟨rfl, rfl⟩
  obtain ⟨inFlight, lastReceipt⟩ := same
  refine ⟨⟨(sound _ (.of_marked orderly.marked)).waiting, ?_⟩, inFlight, lastReceipt, ?_⟩
  · rw [inFlight, lastReceipt]
    exact orderly.issued
  · rintro uuid ⟨waiting, listed, rfl⟩
    rcases (messages waiting).mp listed with rfl | later
    · exact Or.inl rfl
    · exact Or.inr ⟨waiting, later, rfl⟩

/-- What taking messages leaves: everything that was owed, and the deliveries in flight under
receipts that had not been handed out before. -/
structure Takes (queue : Queue) (deliveries : List Delivery) (after : Queue) : Prop where
  orderly : after.Orderly
  owes : ∀ uuid, queue.Owes uuid → after.Owes uuid
  flying : ∀ delivery ∈ deliveries, ∃ entry,
    after.inFlight.get? delivery.receipt = some entry ∧ entry.message = delivery.message
  earlier : ∀ receipt, receipt ≤ queue.lastReceipt →
    after.inFlight.get? receipt = queue.inFlight.get? receipt
  lastReceipt : queue.lastReceipt ≤ after.lastReceipt

theorem Takes.none (orderly : queue.Orderly) : Takes queue [] queue :=
  ⟨orderly, fun _ => id, fun _ listed => absurd listed List.not_mem_nil, fun _ _ => rfl,
    Nat.le_refl _⟩

/-- What was taken first stays in flight while more is taken. -/
theorem Takes.trans {first second : List Delivery} (one : Takes queue first middle)
    (two : Takes middle second after) : Takes queue (first ++ second) after where
  orderly := two.orderly
  owes uuid owed := two.owes uuid (one.owes uuid owed)
  flying delivery listed := by
    rcases List.mem_append.mp listed with before | new
    · obtain ⟨entry, found, same⟩ := one.flying delivery before
      have issued := one.orderly.issued _ entry found
      exact ⟨entry, (two.earlier _ issued).trans found, same⟩
    · exact two.flying delivery new
  earlier receipt old :=
    (two.earlier receipt (Nat.le_trans old one.lastReceipt)).trans (one.earlier receipt old)
  lastReceipt := Nat.le_trans one.lastReceipt two.lastReceipt

/-- A message that was popped is delivered under the next receipt. -/
theorem deliver_takes (orderly : queue.Orderly) {now : Instant} {lane : Lane} {message : Message}
    (popped : queue.popReady now = some (lane, message, after)) (visibleAt : Instant) :
    Takes queue [(after.deliver lane message visibleAt).1]
      (after.deliver lane message visibleAt).2 := by
  obtain ⟨still, inFlight, lastReceipt, waits⟩ := popReady_owes orderly popped
  have placed : ∀ receipt, (after.deliver lane message visibleAt).2.inFlight.get? receipt =
      if receipt = queue.lastReceipt + 1 then some ⟨lane, message, visibleAt⟩
      else queue.inFlight.get? receipt := by
    intro receipt
    simp only [deliver, SortedMap.get?_insert_eq, inFlight, lastReceipt]
  -- A new receipt takes no other delivery's place.
  have others : ∀ receipt, receipt ≤ queue.lastReceipt →
      (after.deliver lane message visibleAt).2.inFlight.get? receipt =
        queue.inFlight.get? receipt := fun receipt old =>
    (placed receipt).trans (if_neg (Nat.ne_of_lt (Nat.lt_succ_of_le old)))
  have issued : (after.deliver lane message visibleAt).2.lastReceipt = queue.lastReceipt + 1 :=
    congrArg (· + 1) lastReceipt
  have flown : (after.deliver lane message visibleAt).2.inFlight.get? (queue.lastReceipt + 1) =
      some ⟨lane, message, visibleAt⟩ := (placed _).trans (if_pos rfl)
  refine ⟨⟨still.marked, fun receipt entry there => ?_⟩, fun uuid owed => ?_,
    fun delivery listed => ?_, others, issued ▸ Nat.le_succ _⟩
  · rw [issued]
    rw [placed] at there
    split at there
    · rename_i same
      exact Nat.le_of_eq same
    · exact Nat.le_succ_of_le (orderly.issued receipt entry there)
  · rcases owed with waiting | ⟨receipt, entry, there, same⟩
    · rcases waits uuid waiting with same | waiting
      · exact Or.inr ⟨queue.lastReceipt + 1, _, flown, same⟩
      · exact Or.inl waiting
    · have old := orderly.issued receipt entry there
      exact Or.inr ⟨receipt, entry, (others receipt old).trans there, same⟩
  · obtain rfl := List.mem_singleton.mp listed
    have receipt : (after.deliver lane message visibleAt).1.receipt = queue.lastReceipt + 1 :=
      congrArg (· + 1) lastReceipt
    exact ⟨⟨lane, message, visibleAt⟩, receipt ▸ flown, rfl⟩

theorem take_takes (orderly : queue.Orderly) (now visibleAt : Instant) (count : Nat) :
    Takes queue (take now visibleAt count queue).1 (take now visibleAt count queue).2 := by
  induction count generalizing queue with
  | zero => exact .none orderly
  | succ count ih =>
    rw [take]
    cases popped : queue.popReady now with
    | none => exact .none orderly
    | some found =>
      obtain ⟨lane, message, rest⟩ := found
      have delivered := deliver_takes orderly popped visibleAt
      exact delivered.trans (ih delivered.orderly)

/-- Receiving hands out more deliveries and loses nothing that was owed. -/
theorem Serving.receive {handed : List Delivery} (serving : queue.Serving handed)
    (order : ReclaimOrder) (now : Instant) (visibility : Duration) (limit : Nat) :
    (queue.receive order now visibility limit).2.Serving
        (handed ++ (queue.receive order now visibility limit).1) ∧
      ∀ uuid, queue.Owes uuid → (queue.receive order now visibility limit).2.Owes uuid := by
  obtain ⟨reclaimed, back⟩ := serving.reclaimExpired order now
  obtain ⟨orderly, owes, flying, earlier, more⟩ :=
    take_takes reclaimed.orderly now (now.add visibility) limit
  refine ⟨⟨orderly, fun delivery listed entry found => ?_, fun delivery listed => ?_⟩,
    fun uuid owed => owes uuid (back uuid owed)⟩
  · rcases List.mem_append.mp listed with before | new
    · have old := (earlier _ (reclaimed.issued delivery before)).symm.trans found
      exact reclaimed.held delivery before entry old
    · obtain ⟨flown, there, same⟩ := flying delivery new
      cases there.symm.trans found
      exact same
  · rcases List.mem_append.mp listed with before | new
    · exact Nat.le_trans (reclaimed.issued delivery before) more
    · obtain ⟨flown, there, -⟩ := flying delivery new
      exact orderly.issued _ flown there

theorem Orderly.receive (orderly : queue.Orderly) (order : ReclaimOrder) (now : Instant)
    (visibility : Duration) (limit : Nat) :
    (queue.receive order now visibility limit).2.Orderly :=
  (orderly.serving.receive order now visibility limit).1.orderly

theorem Orderly.ack (orderly : queue.Orderly) (receipt : Nat) : (queue.ack receipt).2.Orderly :=
  (orderly.serving.released receipt).orderly

theorem Orderly.purge (orderly : queue.Orderly) : queue.purge.2.Orderly where
  marked _ inside := absurd inside (SortedSet.not_mem_empty _)
  issued := orderly.issued

/-- Acknowledging a delivery lets go of its own entity at most. -/
theorem Serving.ack {handed : List Delivery} {delivery : Delivery} (serving : queue.Serving handed)
    (listed : delivery ∈ handed) :
    (queue.ack delivery.receipt).2.Serving handed ∧ ∀ uuid, queue.Owes uuid →
      (queue.ack delivery.receipt).2.Owes uuid ∨ uuid = delivery.message.uuid := by
  refine ⟨serving.released delivery.receipt, fun uuid owes => ?_⟩
  rcases owes with waits | ⟨receipt, entry, found, same⟩
  · exact Or.inl (Or.inl waits)
  · by_cases here : receipt = delivery.receipt
    · subst here
      rw [← same, serving.held delivery listed entry found]
      exact Or.inr rfl
    · refine Or.inl (Or.inr ⟨receipt, entry, ?_, same⟩)
      rw [Queue.ack, SortedMap.get?_erase_eq, if_neg here]
      exact found

end Queue

end CachedViews
