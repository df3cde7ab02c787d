import CachedViews.Proofs.Queue.Owing
import CachedViews.Proofs.Queue.Places

/-!
What the operations of a queue do to its messages, each as the events that it consists of. Every one
of them leaves a queue in which the secondary lane holds an entity at most once.
-/
namespace CachedViews

namespace Queue

variable {queue middle after : Queue}

section Lanes

variable {message : Message} {front : Bool}

theorem place_perm {α : Type} (front : Bool) (item : α) (lane : List α) :
    (place front item lane).Perm (item :: lane) := by
  cases front
  · exact List.perm_append_singleton item lane
  · exact .refl _

theorem coe_place {α β : Type} (change : α → β) (item : α) (lane : List α) :
    (((place front item lane).map change : List β) : Multiset β) =
      change item ::ₘ (lane.map change : List β) :=
  Multiset.coe_eq_coe.mpr ((place_perm front item lane).map change)

theorem absorb_uuids (message : Message) (waiting : List Message) :
    (absorb message waiting).map Message.uuid = waiting.map Message.uuid := by
  have same := congrArg (List.map Rebuild.uuid) (absorb_rebuilds message waiting)
  rw [List.map_map, List.map_map] at same
  exact same

/-- The first message of the entity takes the new one in, where it stands. -/
theorem absorb_eq {waiting : List Message} (held : message.uuid ∈ waiting.map Message.uuid) :
    ∃ before old after, waiting = before ++ old :: after ∧ old.uuid = message.uuid ∧
      absorb message waiting = before ++ old.merging message :: after := by
  induction waiting with
  | nil => cases held
  | cons first rest ih =>
    rw [absorb, laterSid_eq_max]
    by_cases same : first.uuid = message.uuid
    · rw [if_pos same]
      exact ⟨[], first, rest, rfl, same, rfl⟩
    · rw [if_neg same]
      obtain here | later := List.mem_cons.mp held
      · exact absurd here.symm same
      · obtain ⟨before, old, after, split, owner, merged⟩ := ih later
        refine ⟨first :: before, old, after, ?_, owner, ?_⟩
        · rw [split, List.cons_append]
        · rw [merged, List.cons_append]

/-- How a message gets to a lane: it takes a place of its own, or becomes one with the message that
waits for the same entity. -/
inductive Pushed (queue : Queue) (lane : Lane) (message : Message) : Bool → Queue → Prop
  | placed {after : Queue} (vacant : Event.Vacant queue.held lane message)
    (held : after.held = (.waiting lane, message) ::ₘ queue.held) :
    Pushed queue lane message true after
  | absorbed {after : Queue} {old : Message} {rest : Multiset (Place × Message)}
    (onSecondary : lane = .secondary) (same : old.uuid = message.uuid)
    (before : queue.held = (.waiting .secondary, old) ::ₘ rest)
    (held : after.held = (.waiting .secondary, old.merging message) ::ₘ rest) :
    Pushed queue lane message false after

theorem heldOn_secondary_eq {before rest : List Message} {old : Message}
    (split : queue.secondary = before ++ old :: rest) : queue.heldOn .secondary =
      (.waiting .secondary, old) ::ₘ ((before ++ rest).map (Place.waiting .secondary, ·)) := by
  have moved : queue.secondary.Perm (old :: (before ++ rest)) := split ▸ List.perm_middle
  exact Multiset.coe_eq_coe.mpr (moved.map _)

theorem vacant_of_unmarked (tidy : queue.Tidy) (unmarked : message.uuid ∉ queue.waitingSecondary)
    (lane : Lane) : Event.Vacant queue.held lane message := by
  rintro - other waits same
  have listed : other ∈ queue.secondary := waiting_mem_held_iff.mp waits
  exact unmarked ((tidy.marked _).mpr (same ▸ List.mem_map_of_mem listed))

theorem pushSecondary_pushed (tidy : queue.Tidy) (message : Message) (front : Bool) :
    Pushed queue .secondary message (queue.pushSecondary message front).1
        (queue.pushSecondary message front).2 ∧
      (queue.pushSecondary message front).2.Tidy := by
  unfold pushSecondary
  by_cases waits : message.uuid ∈ queue.waitingSecondary
  · rw [if_pos waits]
    obtain ⟨before, old, after, split, same, merged⟩ := absorb_eq ((tidy.marked _).mp waits)
    refine ⟨.absorbed rfl same (held_of_heldOn .secondary (heldOn_secondary_eq split))
      (held_of_heldOn .secondary (heldOn_secondary_eq merged)), ?_, fun uuid => ?_, tidy.issued⟩
    · dsimp only
      rw [absorb_uuids]
      exact tidy.single
    · dsimp only
      rw [absorb_uuids]
      exact tidy.marked uuid
  · rw [if_neg waits]
    have unlisted : message.uuid ∉ queue.secondary.map Message.uuid := fun listed =>
      waits ((tidy.marked _).mpr listed)
    have uuids := (place_perm front message queue.secondary).map Message.uuid
    refine ⟨.placed (vacant_of_unmarked tidy waits _)
      (held_of_lane .secondary (coe_place _ message queue.secondary) rfl), ?_, fun uuid => ?_,
      tidy.issued⟩
    · exact uuids.nodup_iff.mpr (List.nodup_cons.mpr ⟨unlisted, tidy.single⟩)
    · rw [uuids.mem_iff, SortedSet.mem_insert, tidy.marked]
      exact List.mem_cons.symm

theorem push_pushed (tidy : queue.Tidy) (lane : Lane) (message : Message) (front : Bool)
    (now : Instant) :
    Pushed queue lane message (queue.push lane message front now).1
        (queue.push lane message front now).2 ∧ (queue.push lane message front now).2.Tidy := by
  cases lane with
  | primary =>
    exact ⟨.placed (fun never => nomatch never)
      (held_of_lane .primary (coe_place _ message queue.primary) rfl), tidy.single, tidy.marked,
      tidy.issued⟩
  | secondary => exact pushSecondary_pushed tidy message front
  | deferred =>
    have placed := (place_perm front (now, message) queue.deferred).map Prod.snd
    exact ⟨.placed (fun never => nomatch never)
      (held_of_lane .deferred (Multiset.coe_eq_coe.mpr (placed.map _)) rfl), tidy.single,
      tidy.marked, tidy.issued⟩

end Lanes

/-- An event that takes one item from its place. -/
theorem Course.one {event : Event} {before after rest : Multiset (Place × Message)}
    (fits : event.Fits before) (left : before = event.leaves + rest)
    (entered : after = event.enters + rest) : Course before [event] after :=
  .cons ⟨fits, rest, left, entered⟩ (.nil after)

theorem push_passes (tidy : queue.Tidy) (lane : Lane) (message : Message) (now : Instant) :
    ∃ event : Event, event.sent? = some (lane, message) ∧
      event.isJoined = (queue.push lane message false now).1 ∧
      Passes queue [event] (queue.push lane message false now).2 := by
  obtain ⟨pushed, still⟩ := push_pushed tidy lane message false now
  have adds := push_adds queue lane message false now
  have receipts : queue.lastReceipt ≤ (queue.push lane message false now).2.lastReceipt :=
    Nat.le_of_eq adds.lastReceipt.symm
  have spent : ∀ receipt ≤ queue.lastReceipt, queue.inFlight.get? receipt = none →
      (queue.push lane message false now).2.inFlight.get? receipt = none := fun receipt _ gone => by
    rw [adds.inFlight, gone]
  generalize queue.push lane message false now = result at *
  obtain ⟨added, after⟩ := result
  cases pushed with
  | placed vacant held =>
    exact ⟨.joined lane message, rfl, rfl, .one vacant (Multiset.zero_add _).symm held, still,
      receipts, spent⟩
  | absorbed onSecondary same before held =>
    subst onSecondary
    exact ⟨.absorbed _ message, rfl, rfl, .one same before held, still, receipts, spent⟩

/-- Messages are sent one after the other; those that are not absorbed are counted. -/
theorem send_passes (tidy : queue.Tidy) (lane : Lane) (now : Instant) (messages : List Message) :
    ∃ events : List Event,
      events.map Event.sent? = messages.map (fun message => some (lane, message)) ∧
      (queue.send lane now messages).1 = (events.filter Event.isJoined).length ∧
      Passes queue events (queue.send lane now messages).2 := by
  induction messages generalizing queue with
  | nil => exact ⟨[], rfl, rfl, tidy.passes_none⟩
  | cons message rest ih =>
    obtain ⟨event, sent, joined, first⟩ := push_passes tidy lane message now
    obtain ⟨events, later, count, others⟩ := ih first.tidy
    refine ⟨event :: events, ?_, ?_, first.trans others⟩
    · rw [List.map_cons, List.map_cons, sent, later]
    · rw [send, List.filter_cons, joined]
      dsimp only
      rw [count]
      split <;> simp [Nat.add_comm]

/-- Taking a delivery out of flight leaves everything that waits. -/
theorem held_erase {receipt : Nat} {entry : InFlight}
    (found : queue.inFlight.get? receipt = some entry) :
    queue.held = (.inFlight receipt entry.lane, entry.message) ::ₘ
      ({ queue with inFlight := queue.inFlight.erase receipt } : Queue).held := by
  rw [held, flying_erase found, Multiset.add_cons]
  rfl

theorem Tidy.erase (tidy : queue.Tidy) (receipt : Nat) :
    Tidy { queue with inFlight := queue.inFlight.erase receipt } where
  single := tidy.single
  marked := tidy.marked
  issued other entry found := by
    rw [SortedMap.get?_erase_eq] at found
    split at found
    · cases found
    · exact tidy.issued other entry found

theorem erase_spent {inFlight : SortedMap Nat InFlight} (receipt other : Nat)
    (gone : inFlight.get? other = none) : (inFlight.erase receipt).get? other = none := by
  rw [SortedMap.get?_erase_eq, gone]
  split <;> rfl

/-- A delivery is given back once, and only while it is in flight. -/
theorem giveBack_passes (tidy : queue.Tidy) (receipt : Nat) (now : Instant) :
    (queue.inFlight.get? receipt = none ∧ queue.giveBack receipt now = (false, queue)) ∨
      ∃ entry event, queue.inFlight.get? receipt = some entry ∧
        event.back? = some ⟨receipt, entry.lane, entry.message⟩ ∧
        (queue.giveBack receipt now).1 = true ∧
        (queue.giveBack receipt now).2.lastReceipt = queue.lastReceipt ∧
        Passes queue [event] (queue.giveBack receipt now).2 := by
  unfold giveBack
  cases found : queue.inFlight.get? receipt with
  | none => exact Or.inl ⟨rfl, rfl⟩
  | some entry =>
    right
    have held := held_erase found
    have vacantBefore : Event.Vacant
        ({ queue with inFlight := queue.inFlight.erase receipt } : Queue).held entry.lane
          entry.message → Event.Vacant queue.held entry.lane entry.message := by
      intro vacant onSecondary other waits
      have listed : other ∈ queue.secondary := waiting_mem_held_iff.mp waits
      exact vacant onSecondary other (waiting_mem_held_iff.mpr listed)
    obtain ⟨pushed, still⟩ := push_pushed (tidy.erase receipt) entry.lane entry.message true now
    have adds := push_adds { queue with inFlight := queue.inFlight.erase receipt } entry.lane
      entry.message true now
    have spent : ∀ other ≤ queue.lastReceipt, queue.inFlight.get? other = none →
        (({ queue with inFlight := queue.inFlight.erase receipt } : Queue).push entry.lane
          entry.message true now).2.inFlight.get? other = none := fun other _ gone => by
      rw [adds.inFlight]
      exact erase_spent receipt other gone
    have last := adds.lastReceipt
    dsimp only
    generalize ({ queue with inFlight := queue.inFlight.erase receipt } : Queue).push entry.lane
      entry.message true now = result at *
    obtain ⟨added, after⟩ := result
    cases pushed with
    | placed vacant entered =>
      exact ⟨entry, .returned ⟨receipt, entry.lane, entry.message⟩, rfl, rfl, rfl, last,
        .one (vacantBefore vacant) held (entered.trans (Multiset.singleton_add _ _).symm), still,
        Nat.le_of_eq last.symm, spent⟩
    | @absorbed _ old rest onSecondary same before entered =>
      refine ⟨entry, .merged old ⟨receipt, entry.lane, entry.message⟩, rfl, rfl, rfl, last,
        .one ⟨onSecondary, same⟩ ?_ entered, still, Nat.le_of_eq last.symm, spent⟩
      rw [held, before]
      simp [Event.leaves]

/-- Expired deliveries are given back one after the other. -/
theorem reclaimExpired_passes (tidy : queue.Tidy) (order : ReclaimOrder) (now : Instant) :
    ∃ events : List Event, (∀ event ∈ events, event.back?.isSome) ∧
      (queue.reclaimExpired order now).lastReceipt = queue.lastReceipt ∧
      Passes queue events (queue.reclaimExpired order now) := by
  unfold reclaimExpired
  induction order.arrange (queue.expiredReceipts now) generalizing queue with
  | nil => exact ⟨[], fun _ never => absurd never List.not_mem_nil, rfl, tidy.passes_none⟩
  | cons receipt rest ih =>
    rw [List.foldl_cons]
    rcases giveBack_passes tidy receipt now with ⟨-, same⟩ | ⟨entry, event, -, back, -, last, first⟩
    · rw [same]
      exact ih tidy
    · obtain ⟨events, backs, later, others⟩ := ih first.tidy
      refine ⟨event :: events, fun other listed => ?_, later.trans last, first.trans others⟩
      rcases List.mem_cons.mp listed with rfl | inside
      · rw [back]
        rfl
      · exact backs other inside

theorem takeReady_perm {now : Instant} {deferred rest : List (Instant × Message)} {ready : Message}
    (taken : takeReady now deferred = some (ready, rest)) :
    (deferred.map Prod.snd).Perm (ready :: rest.map Prod.snd) := by
  induction deferred generalizing rest with
  | nil => cases taken
  | cons first others ih =>
    obtain ⟨notBefore, waiting⟩ := first
    rw [takeReady] at taken
    split at taken
    · cases taken
      exact .refl _
    · obtain ⟨⟨_, remaining⟩, found, same⟩ := Option.map_eq_some_iff.mp taken
      cases same
      exact ((ih found).cons waiting).trans (.swap _ _ _)

/-- What is popped was waiting and waits no more. -/
theorem popReady_held (tidy : queue.Tidy) {now : Instant} {lane : Lane} {message : Message}
    (popped : queue.popReady now = some (lane, message, after)) :
    queue.held = (.waiting lane, message) ::ₘ after.held ∧ after.Tidy ∧
      after.inFlight = queue.inFlight ∧ after.lastReceipt = queue.lastReceipt := by
  unfold popReady at popped
  split at popped
  · rename_i first rest primary
    cases popped
    refine ⟨held_of_lane .primary ?_ rfl, ⟨tidy.single, tidy.marked, tidy.issued⟩, rfl, rfl⟩
    simp [heldOn, waiting, primary]
  · split at popped
    · rename_i first rest secondary
      cases popped
      have single := tidy.single
      rw [secondary, List.map_cons, List.nodup_cons] at single
      refine ⟨held_of_lane .secondary ?_ rfl, ⟨single.2, fun uuid => ?_, tidy.issued⟩, rfl, rfl⟩
      · simp [heldOn, waiting, secondary]
      -- The lane held the entity once, so nothing of it is left there.
      · rw [SortedSet.mem_erase, tidy.marked, secondary, List.map_cons, List.mem_cons]
        constructor
        · rintro ⟨here | later, apart⟩
          · exact absurd here apart
          · exact later
        · exact fun later => ⟨Or.inr later, fun same => single.1 (same ▸ later)⟩
    · obtain ⟨⟨ready, rest⟩, taken, same⟩ := Option.map_eq_some_iff.mp popped
      cases same
      refine ⟨held_of_lane .deferred ?_ rfl, ⟨tidy.single, tidy.marked, tidy.issued⟩, rfl, rfl⟩
      exact Multiset.coe_eq_coe.mpr ((takeReady_perm taken).map _)

/-- A popped message is put in flight under the next receipt, which was not used before. -/
theorem deliver_passes (tidy : queue.Tidy) {now : Instant} {lane : Lane} {message : Message}
    {rest : Queue} (popped : queue.popReady now = some (lane, message, rest))
    (visibleAt : Instant) :
    Passes queue [.taken ⟨queue.lastReceipt + 1, lane, message⟩]
      (rest.deliver lane message visibleAt).2 := by
  obtain ⟨held, still, inFlight, last⟩ := popReady_held tidy popped
  have unused : ∀ receipt, queue.lastReceipt < receipt → queue.inFlight.get? receipt = none := by
    intro receipt later
    by_contra used
    obtain ⟨entry, found⟩ := Option.ne_none_iff_exists'.mp used
    exact absurd (tidy.issued receipt entry found) (Nat.not_le.mpr later)
  have free : rest.inFlight.get? (rest.lastReceipt + 1) = none := by
    rw [inFlight, last]
    exact unused _ (Nat.lt_succ_self _)
  have entered : (rest.deliver lane message visibleAt).2.held =
      (.inFlight (queue.lastReceipt + 1) lane, message) ::ₘ rest.held := by
    rw [← last, Queue.held, deliver, flying_insert _ free, Multiset.add_cons]
    rfl
  refine ⟨.one (fun other found inside => ?_) held
    (entered.trans (Multiset.singleton_add _ _).symm), ⟨still.single, still.marked, ?_⟩, ?_, ?_⟩
  · obtain ⟨entry, flying, -⟩ := inFlight_mem_held_iff.mp inside
    rw [unused _ (Nat.lt_succ_self _)] at flying
    cases flying
  · intro receipt entry found
    simp only [deliver, SortedMap.get?_insert_eq] at found ⊢
    split at found
    · rename_i same
      exact Nat.le_of_eq same
    · exact Nat.le_succ_of_le (still.issued receipt entry found)
  · exact Nat.le_succ_of_le (Nat.le_of_eq last.symm)
  · intro receipt old gone
    simp only [deliver, SortedMap.get?_insert_eq, inFlight, last, gone]
    rw [if_neg (Nat.ne_of_lt (Nat.lt_succ_of_le old))]

/-- Messages are taken one after the other, each under the next receipt. -/
theorem take_passes (tidy : queue.Tidy) (now visibleAt : Instant) (count : Nat) :
    Passes queue ((take now visibleAt count queue).1.map Event.taken)
        (take now visibleAt count queue).2 ∧
      (take now visibleAt count queue).1.map Delivery.receipt =
        List.range' (queue.lastReceipt + 1) (take now visibleAt count queue).1.length ∧
      (take now visibleAt count queue).2.lastReceipt =
        queue.lastReceipt + (take now visibleAt count queue).1.length := by
  induction count generalizing queue with
  | zero => exact ⟨tidy.passes_none, rfl, rfl⟩
  | succ count ih =>
    rw [take]
    cases popped : queue.popReady now with
    | none => exact ⟨tidy.passes_none, rfl, rfl⟩
    | some found =>
      obtain ⟨lane, message, rest⟩ := found
      have first := deliver_passes tidy popped visibleAt
      obtain ⟨-, -, -, last⟩ := popReady_held tidy popped
      obtain ⟨others, receipts, final⟩ := ih first.tidy
      have next : (rest.deliver lane message visibleAt).2.lastReceipt = queue.lastReceipt + 1 :=
        congrArg (· + 1) last
      have delivered : (rest.deliver lane message visibleAt).1 =
          ⟨queue.lastReceipt + 1, lane, message⟩ := by
        rw [deliver, last]
      dsimp only
      rw [next] at receipts final
      refine ⟨?_, ?_, ?_⟩
      · rw [List.map_cons, delivered]
        exact first.trans others
      · rw [List.map_cons, List.length_cons, receipts, delivered, List.range'_succ]
      · rw [final, List.length_cons]
        omega

theorem ack_passes (tidy : queue.Tidy) (receipt : Nat) :
    (queue.inFlight.get? receipt = none ∧ queue.ack receipt = (false, queue)) ∨
      ∃ entry, queue.inFlight.get? receipt = some entry ∧ (queue.ack receipt).1 = true ∧
        Passes queue [.finished ⟨receipt, entry.lane, entry.message⟩] (queue.ack receipt).2 := by
  cases found : queue.inFlight.get? receipt with
  | none =>
    have same : queue.inFlight.erase receipt = queue.inFlight := by
      refine SortedMap.ext_get? fun other => ?_
      rw [SortedMap.get?_erase_eq]
      split
      · rename_i here
        rw [here, found]
      · rfl
    exact Or.inl ⟨rfl, by rw [ack, SortedMap.contains, found, same]; rfl⟩
  | some entry =>
    refine Or.inr ⟨entry, rfl, by rw [ack, SortedMap.contains, found]; rfl,
      .one trivial (held_erase found) (Multiset.zero_add _).symm, tidy.erase receipt,
      Nat.le_refl _, fun other _ => erase_spent receipt other⟩

/-- Whatever waits can be dropped. -/
theorem course_drop (lane : Lane) (messages : List Message) (rest : Multiset (Place × Message)) :
    Course ((messages.map (Place.waiting lane, ·) : List (Place × Message)) + rest)
      (messages.map (Event.dropped lane)) rest := by
  induction messages with
  | nil =>
    rw [List.map_nil, List.map_nil, Multiset.coe_nil, Multiset.zero_add]
    exact .nil rest
  | cons message others ih =>
    refine .cons ⟨trivial, _, ?_, (Multiset.zero_add _).symm⟩ ih
    rw [List.map_cons, ← Multiset.cons_coe, Multiset.cons_add]
    rfl

/-- Everything that waits is dropped, lane by lane, and what is in flight stays. -/
theorem purge_passes (tidy : queue.Tidy) :
    Passes queue (Lane.all.flatMap fun lane => (queue.waiting lane).map (Event.dropped lane))
      queue.purge.2 := by
  have course := (course_drop .primary (queue.waiting .primary)
      (queue.heldOn .secondary + (queue.heldOn .deferred + flying queue.inFlight))).append
    ((course_drop .secondary (queue.waiting .secondary)
      (queue.heldOn .deferred + flying queue.inFlight)).append
    (course_drop .deferred (queue.waiting .deferred) (flying queue.inFlight)))
  have before : queue.held = queue.heldOn .primary +
      (queue.heldOn .secondary + (queue.heldOn .deferred + flying queue.inFlight)) := by
    rw [held, Multiset.add_assoc, Multiset.add_assoc]
  have emptied : queue.purge.2.held = flying queue.inFlight := by
    simp [held, heldOn, waiting, purge]
  refine ⟨?_, ⟨List.nodup_nil, fun uuid => ?_, tidy.issued⟩, Nat.le_refl _, fun _ _ => id⟩
  · have listed : (Lane.all.flatMap fun lane => (queue.waiting lane).map (Event.dropped lane)) =
        (queue.waiting .primary).map (Event.dropped .primary) ++
          ((queue.waiting .secondary).map (Event.dropped .secondary) ++
            (queue.waiting .deferred).map (Event.dropped .deferred)) := by
      simp [Lane.all]
    rw [before, emptied, listed]
    exact course
  · exact iff_of_false (SortedSet.not_mem_empty uuid) List.not_mem_nil

end Queue

end CachedViews
