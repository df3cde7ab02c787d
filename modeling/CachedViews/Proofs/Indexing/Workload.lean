import CachedViews.Proofs.Indexing.Errands
import CachedViews.Proofs.Queue.Lineup
import Mathlib.Algebra.Ring.Nat

/-!
The work that a queue holds. A cycle ends its message or uses up one of its attempts, and only
messages that are not strict add others, which are: so each cycle that is worked off leaves less
work, counting first the cycles of messages that are not strict.
-/
namespace CachedViews

namespace Indexing

open Queue

variable (engine : Engine)

/-- What a message adds to the work that is strict, or to the work that is not. -/
def cost (strict : Bool) (message : Message) : Nat :=
  if message.strict = strict then cyclesLeft engine message else 0

def load (strict : Bool) (held : Multiset (Place × Message)) : Nat :=
  (held.map fun item => cost engine strict item.2).sum

/-- Fewer cycles that may send, or as many and fewer others. -/
def Lighter (after before : Multiset (Place × Message)) : Prop :=
  load engine false after < load engine false before ∨
    load engine false after ≤ load engine false before ∧
      load engine true after < load engine true before

variable {engine} {strict : Bool} {message : Message}
  {held rest before after : Multiset (Place × Message)}

theorem load_cons (item : Place × Message) :
    load engine strict (item ::ₘ rest) = cost engine strict item.2 + load engine strict rest := by
  rw [load, Multiset.map_cons, Multiset.sum_cons]
  rfl

theorem load_add (first second : Multiset (Place × Message)) :
    load engine strict (first + second) = load engine strict first + load engine strict second := by
  rw [load, Multiset.map_add, Multiset.sum_add]
  rfl

theorem Lighter.isLess (lighter : Lighter engine after before) :
    isLess (load engine false after, load engine true after)
      (load engine false before, load engine true before) = true := by
  rw [Indexing.isLess]
  rcases lighter with fewer | ⟨most, fewer⟩
  · simp [fewer]
  · rcases Nat.lt_or_eq_of_le most with less | same
    · simp [less]
    · simp [same, fewer]

theorem Lighter.trans {middle : Multiset (Place × Message)} (one : Lighter engine middle before)
    (two : Lighter engine after middle) : Lighter engine after before := by
  unfold Lighter at *
  omega

theorem Lighter.of_le {middle : Multiset (Place × Message)} (lighter : Lighter engine after middle)
    (most : ∀ strict, load engine strict middle ≤ load engine strict before) :
    Lighter engine after before := by
  have loose := most false
  have alone := most true
  unfold Lighter at *
  omega

theorem cyclesLeft_eq (countable : Countable message) :
    cyclesLeft engine message = turnsLeft engine message := by
  have next := toNat_attempts_succ countable
  rw [cyclesLeft, if_neg, turnsLeft]
  intro wrapped
  rw [wrapped] at next
  cases next

/-- The next attempt of a message has fewer cycles left. -/
theorem lighter_retried (countable : Countable message) (rest : Multiset (Place × Message))
    {again : Message} (alike : again.strict = message.strict)
    (counted : again.attempts = message.attempts + 1)
    (fewer : again.attempts < engine.pipeline.retry.maxAttempts) (place there : Place) :
    Countable again ∧ Lighter engine ((there, again) ::ₘ rest) ((place, message) ::ₘ rest) := by
  have next := toNat_attempts_succ countable
  rw [← counted] at next
  have below := UInt32.lt_iff_toNat_lt.mp fewer
  have most := engine.pipeline.retry.maxAttempts.toNat_lt
  have later : Countable again := by
    rw [Countable]
    omega
  have less : cyclesLeft engine again < cyclesLeft engine message := by
    rw [cyclesLeft_eq countable, cyclesLeft_eq later, turnsLeft, turnsLeft]
    omega
  refine ⟨later, ?_⟩
  simp only [Lighter, load_cons, cost, alike]
  cases message.strict with
  | false =>
    left
    simpa using less
  | true =>
    right
    simpa using less

/-- A later stamp makes no difference. -/
theorem cost_merging (waiting message : Message) :
    cost engine strict (waiting.merging message) = cost engine strict waiting := rfl

/-- What moves about weighs as before, what becomes one weighs less, and only what arrives is
added. -/
theorem load_moves (engine : Engine) (strict : Bool) {event : Event}
    (moves : event.Moves before after) (keeps : releases event = false) : load engine strict after ≤
      load engine strict before + ((arrival? event).toList.map (cost engine strict)).sum := by
  obtain ⟨-, rest, rfl, rfl⟩ := moves
  rw [load_add, load_add]
  cases event with
  | finished delivery => cases keeps
  | dropped lane message => cases keeps
  | joined lane message =>
    simp [Event.leaves, Event.enters, arrival?, Event.sent?, load, Nat.add_comm]
  | absorbed waiting message =>
    simp [Event.leaves, Event.enters, arrival?, Event.sent?, load, cost_merging]
  | taken delivery => simp [Event.leaves, Event.enters, arrival?, Event.sent?, load]
  | returned delivery => simp [Event.leaves, Event.enters, arrival?, Event.sent?, load]
  | merged waiting delivery =>
    simp [Event.leaves, Event.enters, arrival?, Event.sent?, load, cost_merging]

theorem load_course (engine : Engine) (strict : Bool) {events : List Event}
    (course : Course before events after)
    (keeps : ∀ event ∈ events, releases event = false) : load engine strict after ≤
      load engine strict before + ((events.filterMap arrival?).map (cost engine strict)).sum := by
  induction course with
  | nil => exact Nat.le_add_right _ _
  | @cons before middle after event events moves _ ih =>
    have here := load_moves engine strict moves (keeps event List.mem_cons_self)
    have later := ih fun other listed => keeps other (List.mem_cons_of_mem _ listed)
    cases arrives : arrival? event with
    | none =>
      rw [List.filterMap_cons_none arrives]
      simp only [arrives, Option.toList_none, List.map_nil, List.sum_nil, Nat.add_zero] at here
      omega
    | some message =>
      rw [List.filterMap_cons_some arrives, List.map_cons, List.sum_cons]
      simp only [arrives, Option.toList_some, List.map_cons, List.map_nil, List.sum_cons,
        List.sum_nil, Nat.add_zero] at here
      omega

/-- No event changes how many attempts are counted. -/
theorem attempts_enters (event : Event) : ∀ item ∈ event.enters,
    (∃ message ∈ arrival? event, item.2.attempts = message.attempts) ∨
      ∃ other ∈ event.leaves, item.2.attempts = other.2.attempts := by
  cases event <;>
    simp [Event.leaves, Event.enters, arrival?, Event.sent?, Message.merging]

theorem countable_moves {event : Event} (moves : event.Moves before after)
    (arrives : ∀ message ∈ arrival? event, Countable message)
    (countable : ∀ item ∈ before, Countable item.2) : ∀ item ∈ after, Countable item.2 := by
  obtain ⟨-, rest, rfl, rfl⟩ := moves
  intro item listed
  rcases Multiset.mem_add.mp listed with new | old
  · rw [Countable]
    rcases attempts_enters event item new with ⟨message, here, same⟩ | ⟨other, inside, same⟩
    · rw [same]
      exact arrives message here
    · rw [same]
      exact countable other (Multiset.mem_add.mpr (Or.inl inside))
  · exact countable item (Multiset.mem_add.mpr (Or.inr old))

theorem countable_course {events : List Event} (course : Course before events after)
    (arrives : ∀ message ∈ events.filterMap arrival?, Countable message)
    (countable : ∀ item ∈ before, Countable item.2) : ∀ item ∈ after, Countable item.2 := by
  induction course with
  | nil => exact countable
  | cons moves _ ih =>
    refine ih (fun message listed => arrives message ?_) (countable_moves moves (fun message here =>
      arrives message (List.mem_filterMap.mpr ⟨_, List.mem_cons_self, here⟩)) countable)
    obtain ⟨event, inside, here⟩ := List.mem_filterMap.mp listed
    exact List.mem_filterMap.mpr ⟨event, List.mem_cons_of_mem _ inside, here⟩

end Indexing

end CachedViews
