import CachedViews.Proofs.Queue.Conservation

/-!
The order in which a queue delivers. What is overdue goes back to the front of its lane first; then
a batch is the front of one line: the primary lane, the secondary lane, and those deferred messages
whose moment has come.
-/
namespace CachedViews

namespace Queue

/-- The moment of a deferred message has come. -/
def due (now : Instant) (entry : Instant × Message) : Bool := decide (entry.1.nanos ≤ now.nanos)

/-- The messages that were taken off one lane. -/
def takenOff (lane : Lane) (entries : List InFlight) : List Message :=
  (entries.filter fun entry => entry.lane = lane).map InFlight.message

/-- Messages in flight from a lane whose visibility has run out. -/
def overdue (queue : Queue) (now : Instant) (lane : Lane) : List Message :=
  takenOff lane (queue.inFlight.filter fun _ entry => expired now entry).values

/-- Puts a message in front of the secondary lane, unless one that waits there for the same entity
takes it in. -/
def rejoin (waiting : List Message) (message : Message) : List Message :=
  if message.uuid ∈ waiting.map Message.uuid then
    waiting.map fun other => if other.uuid = message.uuid then other.merging message else other
  else message :: waiting

/-- What waits on the three lanes. -/
structure Lineup where
  primary : List Message
  secondary : List Message
  deferred : List (Instant × Message)

namespace Lineup

/-- The messages that may be delivered, first to last. -/
def visible (lineup : Lineup) (now : Instant) : List (Lane × Message) :=
  lineup.primary.map (Lane.primary, ·) ++ lineup.secondary.map (Lane.secondary, ·) ++
    (lineup.deferred.filter (due now)).map fun entry => (Lane.deferred, entry.2)

/-- What is left of a lineup when the front of its line has been served. -/
structure Served (lineup : Lineup) (now : Instant) (count : Nat) (after : Lineup) : Prop where
  primary : after.primary = lineup.primary.drop count
  secondary : after.secondary = lineup.secondary.drop (count - lineup.primary.length)
  deferred : after.deferred.Sublist lineup.deferred
  ready : after.deferred.filter (due now) = (lineup.deferred.filter (due now)).drop
    (count - lineup.primary.length - lineup.secondary.length)
  waiting : (after.deferred.filter fun entry => !due now entry) =
    lineup.deferred.filter fun entry => !due now entry

end Lineup

def lanes (queue : Queue) : Lineup := ⟨queue.primary, queue.secondary, queue.deferred⟩

/-- The lanes once everything overdue is back. -/
def lineup (queue : Queue) (now : Instant) : Lineup where
  primary := queue.overdue now .primary ++ queue.primary
  secondary := (queue.overdue now .secondary).foldl rejoin queue.secondary
  deferred := (queue.overdue now .deferred).map (now, ·) ++ queue.deferred

variable {queue after : Queue} {now : Instant}

section Reclaiming

/-- Where a message is alone for its entity, absorbing changes just that one. -/
theorem absorb_eq_map {waiting : List Message} (message : Message)
    (single : (waiting.map Message.uuid).Nodup) :
    absorb message waiting = waiting.map fun other =>
      if other.uuid = message.uuid then other.merging message else other := by
  induction waiting with
  | nil => rfl
  | cons first rest ih =>
    rw [List.map_cons, List.nodup_cons] at single
    rw [absorb, laterSid_eq_max, List.map_cons]
    by_cases same : first.uuid = message.uuid
    · rw [if_pos same, if_pos same]
      have others : ∀ other ∈ rest,
          (if other.uuid = message.uuid then other.merging message else other) = other := by
        intro other listed
        refine if_neg fun alike => single.1 ?_
        rw [same, ← alike]
        exact List.mem_map_of_mem listed
      rw [List.map_congr_left others, List.map_id']
      rfl
    · rw [if_neg same, if_neg same, ih single.2]

theorem pushSecondary_eq (tidy : queue.Tidy) (message : Message) :
    (queue.pushSecondary message true).2.secondary = rejoin queue.secondary message := by
  unfold pushSecondary rejoin
  by_cases waits : message.uuid ∈ queue.waitingSecondary
  · rw [if_pos waits, if_pos ((tidy.marked _).mp waits)]
    exact absorb_eq_map message tidy.single
  · rw [if_neg waits, if_neg fun listed => waits ((tidy.marked _).mpr listed)]
    rfl

theorem takenOff_append (lane : Lane) (first second : List InFlight) :
    takenOff lane (first ++ second) = takenOff lane first ++ takenOff lane second := by
  rw [takenOff, List.filter_append, List.map_append]
  rfl

/-- Entries that are back on their lanes, the last one in front. -/
structure Back (queue : Queue) (now : Instant) (entries : List InFlight) (after : Queue) : Prop where
  primary : after.primary = (takenOff .primary entries).reverse ++ queue.primary
  secondary : after.secondary = (takenOff .secondary entries).foldl rejoin queue.secondary
  deferred : after.deferred =
    (takenOff .deferred entries).reverse.map (now, ·) ++ queue.deferred

theorem giveBack_back (tidy : queue.Tidy) (now : Instant) {receipt : Nat} {entry : InFlight}
    (found : queue.inFlight.get? receipt = some entry) :
    Back queue now [entry] (queue.giveBack receipt now).2 ∧
      (queue.giveBack receipt now).2.inFlight = queue.inFlight.erase receipt := by
  obtain ⟨lane, message, visibleAt⟩ := entry
  have still := tidy.erase receipt
  refine ⟨?_, ?_⟩
  · unfold giveBack
    rw [found]
    cases lane with
    | primary => exact ⟨rfl, rfl, rfl⟩
    | secondary =>
      have rejoined := pushSecondary_eq still message
      refine ⟨?_, rejoined, ?_⟩ <;>
      · simp only [push, pushSecondary]
        split <;> rfl
    | deferred => exact ⟨rfl, rfl, rfl⟩
  · unfold giveBack
    rw [found]
    exact (push_adds _ lane message true now).inFlight

theorem Back.trans {middle : Queue} {first second : List InFlight}
    (one : Back queue now first middle) (two : Back middle now second after) :
    Back queue now (first ++ second) after where
  primary := by simp [two.primary, one.primary, takenOff_append]
  secondary := by simp [two.secondary, one.secondary, takenOff_append]
  deferred := by simp [two.deferred, one.deferred, takenOff_append]

theorem giveBack_all (tidy : queue.Tidy) (now : Instant) {entries : List (Nat × InFlight)}
    (distinct : (entries.map Prod.fst).Nodup)
    (flying : ∀ entry ∈ entries, queue.inFlight.get? entry.1 = some entry.2) :
    let after := (entries.map Prod.fst).foldl
      (fun queue receipt => (queue.giveBack receipt now).2) queue
    Back queue now (entries.map Prod.snd) after ∧
      ∀ receipt, after.inFlight.get? receipt =
        if receipt ∈ entries.map Prod.fst then none else queue.inFlight.get? receipt := by
  induction entries generalizing queue with
  | nil => exact ⟨⟨rfl, rfl, rfl⟩, fun receipt => (if_neg List.not_mem_nil).symm⟩
  | cons first rest ih =>
    obtain ⟨receipt, entry⟩ := first
    rw [List.map_cons, List.nodup_cons] at distinct
    have found := flying _ List.mem_cons_self
    obtain ⟨back, erased⟩ := giveBack_back tidy now found
    have still : (queue.giveBack receipt now).2.Tidy := by
      rcases giveBack_passes tidy receipt now with ⟨gone, -⟩ | ⟨_, _, -, -, -, -, passes⟩
      · rw [found] at gone
        cases gone
      · exact passes.tidy
    -- The other receipts are still in flight once this one is back.
    have others : ∀ entry ∈ rest,
        (queue.giveBack receipt now).2.inFlight.get? entry.1 = some entry.2 := by
      intro other listed
      rw [erased, SortedMap.get?_erase_eq, if_neg]
      · exact flying other (List.mem_cons_of_mem _ listed)
      · intro same
        exact distinct.1 (same ▸ List.mem_map_of_mem listed)
    obtain ⟨later, gone⟩ := ih still distinct.2 others
    refine ⟨back.trans later, fun other => ?_⟩
    rw [List.map_cons, List.foldl_cons, gone, erased, SortedMap.get?_erase_eq]
    by_cases here : other ∈ rest.map Prod.fst <;> by_cases same : other = receipt <;>
      simp [here, same]

theorem eq_of_perm_of_length_le {α : Type} {members others : List α} (same : others.Perm members)
    (few : members.length ≤ 1) : others = members := by
  match members, few with
  | [], _ => exact same.eq_nil
  | [_], _ => exact List.perm_singleton.mp same

/-- The expired deliveries in the order in which they are gone through. -/
theorem arranged_entries (queue : Queue) (order : ReclaimOrder) (now : Instant) :
    ∃ entries : List (Nat × InFlight),
      entries.Perm (queue.inFlight.filter fun _ entry => expired now entry).entries ∧
        order.arrange (queue.expiredReceipts now) = entries.map Prod.fst := by
  have listed : List.Forall₂ (fun receipt (entry : Nat × InFlight) => receipt = entry.1)
      (queue.expiredReceipts now)
      (queue.inFlight.filter fun _ entry => expired now entry).entries :=
    List.forall₂_map_right_iff.mp (by rw [List.forall₂_eq_eq_eq]; rfl)
  obtain ⟨entries, receipts, arranged⟩ :=
    List.perm_comp_forall₂ (order.perm (queue.expiredReceipts now)) listed
  refine ⟨entries, arranged, ?_⟩
  rwa [← List.forall₂_eq_eq_eq, List.forall₂_map_right_iff]

/-- Reclaiming puts what is overdue back, and nothing else moves. -/
theorem reclaimExpired_lanes (tidy : queue.Tidy) (order : ReclaimOrder)
    (single : ∀ lane, (queue.overdue now lane).length ≤ 1) :
    (queue.reclaimExpired order now).lanes = queue.lineup now ∧
      ∀ receipt entry, (queue.reclaimExpired order now).inFlight.get? receipt = some entry ↔
        queue.inFlight.get? receipt = some entry ∧ expired now entry = false := by
  obtain ⟨entries, arranged, receipts⟩ := queue.arranged_entries order now
  have flying : ∀ entry ∈ entries, queue.inFlight.get? entry.1 = some entry.2 :=
    fun entry listed => (queue.inFlight.mem_entries_iff _ _).mp
      (List.mem_filter.mp (arranged.mem_iff.mp listed)).1
  have distinct : (entries.map Prod.fst).Nodup := (arranged.map Prod.fst).nodup_iff.mpr
    (queue.inFlight.filter fun _ entry => expired now entry).nodup_keys
  obtain ⟨back, gone⟩ := giveBack_all tidy now distinct flying
  rw [← receipts] at back gone
  refine ⟨?_, fun receipt entry => ?_⟩
  · -- One delivery alone has only one order.
    have alone : ∀ lane, takenOff lane (entries.map Prod.snd) = queue.overdue now lane :=
      fun lane => by
        have same := ((arranged.map Prod.snd).filter fun entry => entry.lane = lane).map
          InFlight.message
        exact eq_of_perm_of_length_le same (single lane)
    have reversed : ∀ lane, (takenOff lane (entries.map Prod.snd)).reverse =
        queue.overdue now lane := fun lane => by
      rw [alone]
      exact eq_of_perm_of_length_le (List.reverse_perm _) (single lane)
    have primary := back.primary.trans (congrArg (· ++ queue.primary) (reversed .primary))
    have secondary := back.secondary.trans
      (congrArg (fun late => late.foldl rejoin queue.secondary) (alone .secondary))
    have deferred := back.deferred.trans
      (congrArg (fun late => late.map (now, ·) ++ queue.deferred) (reversed .deferred))
    exact (Lineup.mk.injEq ..).mpr ⟨primary, secondary, deferred⟩
  · rw [show (queue.reclaimExpired order now).inFlight.get? receipt = _ from gone receipt, receipts]
    split
    · rename_i listed
      obtain ⟨⟨_, other⟩, inside, rfl⟩ := List.mem_map.mp listed
      have found := flying _ inside
      have late : expired now other = true :=
        (List.mem_filter.mp (arranged.mem_iff.mp inside)).2
      simp only [found, Option.some.injEq, reduceCtorEq, false_iff, not_and]
      rintro rfl
      rw [late]
      exact Bool.noConfusion
    · rename_i unlisted
      refine ⟨fun found => ⟨found, ?_⟩, fun both => both.1⟩
      by_contra late
      refine unlisted (List.mem_map_of_mem (f := Prod.fst) (a := (receipt, entry)) ?_)
      have held := (queue.inFlight.mem_entries_iff receipt entry).mpr found
      exact arranged.mem_iff.mpr (List.mem_filter.mpr ⟨held, by simpa using late⟩)

end Reclaiming

section Serving

open Lineup

theorem Lineup.Served.none (lineup : Lineup) : lineup.Served now 0 lineup := by
  refine ⟨rfl, ?_, .refl _, ?_, rfl⟩ <;> simp

theorem Lineup.Served.trans {lineup middle last : Lineup} {first second : Nat}
    (one : lineup.Served now first middle) (two : middle.Served now second last) :
    lineup.Served now (first + second) last where
  primary := by rw [two.primary, one.primary, List.drop_drop]
  secondary := by
    rw [two.secondary, one.secondary, one.primary, List.drop_drop, List.length_drop]
    congr 1
    omega
  deferred := two.deferred.trans one.deferred
  ready := by
    rw [two.ready, one.ready, one.primary, one.secondary, List.drop_drop, List.length_drop,
      List.length_drop]
    congr 1
    omega
  waiting := two.waiting.trans one.waiting

/-- Where nothing may be delivered, any number is served with nothing. -/
theorem Lineup.Served.idle {lineup : Lineup} (idle : lineup.visible now = []) {count : Nat} :
    lineup.Served now count lineup := by
  rw [visible, List.append_eq_nil_iff, List.append_eq_nil_iff] at idle
  obtain ⟨⟨primary, secondary⟩, deferred⟩ := idle
  rw [List.map_eq_nil_iff] at primary secondary deferred
  refine ⟨?_, ?_, .refl _, ?_, rfl⟩ <;> simp [primary, secondary, deferred]

/-- The first deferred message whose moment has come goes, and the others stay as they are. -/
theorem takeReady_eq (now : Instant) (deferred : List (Instant × Message)) :
    match takeReady now deferred with
    | none => deferred.filter (due now) = []
    | some (message, rest) => ∃ notBefore,
      deferred.filter (due now) = (notBefore, message) :: rest.filter (due now) ∧
        rest.Sublist deferred ∧ (rest.filter fun entry => !due now entry) =
          deferred.filter fun entry => !due now entry := by
  induction deferred with
  | nil => rfl
  | cons first rest ih =>
    obtain ⟨notBefore, message⟩ := first
    rw [takeReady]
    by_cases come : notBefore.nanos ≤ now.nanos
    · rw [if_pos come]
      refine ⟨notBefore, ?_, List.sublist_cons_self _ _, ?_⟩ <;> simp [due, come]
    · rw [if_neg come]
      cases taken : takeReady now rest with
      | none =>
        rw [taken] at ih
        simpa [due, come] using ih
      | some found =>
        obtain ⟨ready, others⟩ := found
        rw [taken] at ih
        obtain ⟨moment, front, kept, still⟩ := ih
        refine ⟨moment, ?_, kept.cons_cons _, ?_⟩
        · simpa [due, come] using front
        · simpa [due, come] using still

/-- What is popped is the front of the line. -/
theorem popReady_serves (queue : Queue) (now : Instant) :
    match queue.popReady now with
    | none => queue.lanes.visible now = []
    | some (lane, message, rest) =>
      queue.lanes.visible now = (lane, message) :: rest.lanes.visible now ∧
        queue.lanes.Served now 1 rest.lanes := by
  unfold popReady
  cases primary : queue.primary with
  | cons message rest =>
    refine ⟨by simp [lanes, visible, primary], ?_, ?_, .refl _, ?_, rfl⟩ <;> simp [lanes, primary]
  | nil =>
    cases secondary : queue.secondary with
    | cons message rest =>
      refine ⟨by simp [lanes, visible, primary, secondary], ?_, ?_, .refl _, ?_, rfl⟩ <;>
        simp [lanes, primary, secondary]
    | nil =>
      have ready := takeReady_eq now queue.deferred
      cases taken : takeReady now queue.deferred with
      | none =>
        rw [taken] at ready
        simp [lanes, visible, primary, secondary, ready]
      | some found =>
        obtain ⟨message, rest⟩ := found
        rw [taken] at ready
        obtain ⟨moment, front, kept, still⟩ := ready
        refine ⟨?_, ?_, ?_, kept, ?_, still⟩ <;> simp [lanes, visible, primary, secondary, front]

/-- Messages are taken from the front of the line. -/
theorem take_serves (now visibleAt : Instant) (count : Nat) (queue : Queue) :
    let taken := take now visibleAt count queue
    (taken.1.map fun delivery => (delivery.lane, delivery.message)) =
        (queue.lanes.visible now).take count ∧
      queue.lanes.Served now count taken.2.lanes := by
  induction count generalizing queue with
  | zero => exact ⟨rfl, .none _⟩
  | succ count ih =>
    have served := popReady_serves queue now
    rw [take]
    cases popped : queue.popReady now with
    | none =>
      rw [popped] at served
      exact ⟨by rw [served]; rfl, .idle served⟩
    | some found =>
      obtain ⟨lane, message, rest⟩ := found
      rw [popped] at served
      obtain ⟨front, first⟩ := served
      obtain ⟨line, others⟩ := ih (rest.deliver lane message visibleAt).2
      refine ⟨?_, ?_⟩
      · rw [front, List.take_succ_cons, List.map_cons, line]
        rfl
      · rw [Nat.add_comm]
        exact first.trans others

/-- What was taken is in flight, beside what was in flight before. -/
theorem take_flying (tidy : queue.Tidy) (now visibleAt : Instant) (count : Nat) (receipt : Nat)
    (entry : InFlight) :
    let taken := take now visibleAt count queue
    taken.2.inFlight.get? receipt = some entry ↔ queue.inFlight.get? receipt = some entry ∨
      ∃ delivery ∈ taken.1, delivery.receipt = receipt ∧
        entry = ⟨delivery.lane, delivery.message, visibleAt⟩ := by
  induction count generalizing queue with
  | zero => simp [take]
  | succ count ih =>
    rw [take]
    cases popped : queue.popReady now with
    | none => simp
    | some found =>
      obtain ⟨lane, message, rest⟩ := found
      obtain ⟨-, -, inFlight, last⟩ := popReady_held tidy popped
      have others := ih (deliver_passes tidy popped visibleAt).tidy
      have first : (rest.deliver lane message visibleAt).2.inFlight.get? receipt = some entry ↔
          queue.inFlight.get? receipt = some entry ∨
            queue.lastReceipt + 1 = receipt ∧ entry = ⟨lane, message, visibleAt⟩ := by
        rw [deliver, SortedMap.get?_insert_eq, inFlight, last]
        split
        · rename_i new
          -- The receipt is new, so nothing is in flight under it yet.
          have unused : ¬ queue.inFlight.get? receipt = some entry := fun used =>
            absurd (tidy.issued _ _ used) (by omega)
          rw [or_iff_right unused, Option.some.injEq, and_iff_right new.symm]
          exact eq_comm
        · rename_i other
          rw [or_iff_left fun new => other new.1.symm]
      dsimp only at others ⊢
      rw [others, first, or_assoc]
      refine or_congr_right ?_
      simp [deliver, last]

end Serving

/-- Whatever waits and is in flight, where no lane has more than one overdue message: a batch is the
front of the line that forms once everything overdue is back at the front of its lane; what is not
delivered stays on its lane in its order, and no deferred message goes before its moment; what was
delivered is in flight under the next receipts until the visibility runs out, beside what was in
flight and is not overdue. -/
theorem receive_serves_front (tidy : queue.Tidy) (order : ReclaimOrder) (visibility : Duration)
    (limit : Nat) (single : ∀ lane, (queue.overdue now lane).length ≤ 1) :
    let received := queue.receive order now visibility limit
    (received.1.map fun delivery => (delivery.lane, delivery.message)) =
        ((queue.lineup now).visible now).take limit ∧
      (queue.lineup now).Served now limit received.2.lanes ∧
      (∀ delivery ∈ received.1, delivery.lane = .deferred → ∃ notBefore,
        (notBefore, delivery.message) ∈ (queue.lineup now).deferred ∧
          notBefore.nanos ≤ now.nanos) ∧
      (∀ receipt entry, received.2.inFlight.get? receipt = some entry ↔
        (queue.inFlight.get? receipt = some entry ∧ expired now entry = false) ∨
          ∃ delivery ∈ received.1, delivery.receipt = receipt ∧
            entry = ⟨delivery.lane, delivery.message, now.add visibility⟩) ∧
      received.1.map Delivery.receipt =
        List.range' (queue.lastReceipt + 1) received.1.length := by
  intro received
  obtain ⟨back, flying⟩ := reclaimExpired_lanes tidy order single
  obtain ⟨_, -, last, reclaimed⟩ := reclaimExpired_passes tidy order now
  have still := reclaimed.tidy
  obtain ⟨line, served⟩ :=
    take_serves now (now.add visibility) limit (queue.reclaimExpired order now)
  rw [back] at line served
  obtain ⟨-, receipts, -⟩ := take_passes still now (now.add visibility) limit
  rw [last] at receipts
  refine ⟨line, served, fun delivery delivered late => ?_, fun receipt entry => ?_, receipts⟩
  · have inLine : (delivery.lane, delivery.message) ∈ (queue.lineup now).visible now :=
      List.mem_of_mem_take (line ▸ List.mem_map_of_mem delivered)
    simpa [Lineup.visible, late, due] using inLine
  · rw [← flying]
    exact take_flying still now (now.add visibility) limit receipt entry

/-- A message on every lane that nobody finished, and more messages behind each of them. -/
def unfinished : List QueueCall :=
  let author := fun bits => Message.primary ⟨⟨"Author"⟩, ⟨bits⟩⟩ (some bits.toNat)
  let book := fun bits stamp => Message.secondary ⟨⟨"Book"⟩, ⟨bits⟩⟩ (some stamp)
  [.send .primary [author 1 none], .send .secondary [book 4 7], .sendDeferred (author 6 none) ⟨0⟩,
    .receive 3, .advance ⟨4⟩, .send .primary [author 2 none], .send .secondary [book 5 8, book 4 6],
    .sendDeferred (author 7 none) ⟨60⟩, .sendDeferred (author 8 none) ⟨1⟩, .advance ⟨6⟩]

/-- The book that waits again takes the overdue one in, and one author's moment has not come. -/
theorem overdue_messages_go_first :
    let state := (QueueCall.runAll .ascending ⟨10⟩ unfinished ⟨.empty, ⟨0⟩⟩).2
    state.queue.Tidy ∧ (∀ lane, (state.queue.overdue state.now lane).length ≤ 1) ∧
      ((state.queue.receive .ascending state.now ⟨10⟩ 5).1.map fun delivery =>
        (delivery.receipt, delivery.lane, delivery.message.uuid, delivery.message.sid)) =
        [(4, .primary, ⟨1⟩, some 1), (5, .primary, ⟨2⟩, some 2), (6, .secondary, ⟨5⟩, some 8),
          (7, .secondary, ⟨4⟩, some 7), (8, .deferred, ⟨6⟩, some 6)] ∧
      (state.queue.receive .ascending state.now ⟨10⟩ 5).2.deferred.map (fun entry => entry.2.uuid) =
        [⟨7⟩, ⟨8⟩] ∧
      (state.queue.lineup state.now).Served state.now 5
        (state.queue.receive .ascending state.now ⟨10⟩ 5).2.lanes := by
  intro state
  have started : (⟨.empty, ⟨0⟩⟩ : ClockedQueue).queue.Tidy := .empty
  obtain ⟨_, -, passes, -⟩ := QueueCall.runAll_passes .ascending ⟨10⟩ started unfinished
  have single : ∀ lane, (state.queue.overdue state.now lane).length ≤ 1 := by
    intro lane
    cases lane <;> decide +kernel
  obtain ⟨-, served, -⟩ := receive_serves_front passes.tidy .ascending ⟨10⟩ 5 single
  exact ⟨passes.tidy, single, by decide +kernel, by decide +kernel, served⟩

end Queue

end CachedViews
