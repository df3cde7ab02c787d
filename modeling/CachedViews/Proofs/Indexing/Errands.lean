import CachedViews.Proofs.Indexing.FanOut
import Mathlib.Data.Multiset.Bind

/-!
Messages followed through a run. An errand is a message with the deliveries that it and its later
attempts get, one after the other: each but the last fails and is put off with one more attempt
counted, and the last one may send. However a queue moves its messages about, every delivery belongs
to one errand, and each message that was there or is sent is the first of one.
-/
namespace CachedViews

namespace Indexing

open Queue

/-- A delivery, with the world and the watermark that its cycle starts from. There is no start when
its batch broke off before any cycle. -/
structure Turn where
  delivery : Delivery
  start : Option (World × Sid)

namespace Turn

variable (engine : Engine)

def outcome (turn : Turn) : Option Outcome :=
  turn.start.bind fun (world, snapshot) =>
    ((process engine turn.delivery snapshot).on world).1.toOption

def sent (turn : Turn) : List Message :=
  match turn.start with
  | some (world, snapshot) => sends engine turn.delivery.message snapshot world
  | none => []

end Turn

/-- A message and the turns that it got, its later attempts included. -/
structure Errand where
  first : Message
  turns : List Turn

def Errand.taking (errand : Errand) (turns : List Turn) : Errand :=
  { errand with turns := errand.turns ++ turns }

/-- How far a message has come: what stands for it now, if anything. On the secondary lane it may
take a later stamp over or be taken in itself; a failed turn puts it off as the next attempt; any
other turn is its last. -/
inductive Follows (engine : Engine) : Errand → Option Message → Prop where
  | started (first : Message) : Follows engine ⟨first, []⟩ (some first)
  | stamped {errand : Errand} {message : Message} (sid : Option Sid)
    (earlier : Follows engine errand (some message)) :
    Follows engine errand (some { message with sid })
  | absorbed {errand : Errand} {message : Message}
    (earlier : Follows engine errand (some message)) : Follows engine errand none
  | retried {errand : Errand} {turn : Turn} {attempts : UInt32} {delay : Duration}
    (earlier : Follows engine errand (some turn.delivery.message))
    (putOff : turn.outcome engine = some (.deferred attempts delay))
    (counted : attempts = turn.delivery.message.attempts + 1)
    (fewer : attempts < engine.pipeline.retry.maxAttempts) (silent : turn.sent engine = []) :
    Follows engine (errand.taking [turn]) (some { turn.delivery.message with attempts })
  | ended {errand : Errand} {turn : Turn}
    (earlier : Follows engine errand (some turn.delivery.message))
    (final : ∀ attempts delay, turn.outcome engine ≠ some (.deferred attempts delay))
    (stored : turn.sent engine ≠ [] → turn.delivery.message.strict = false ∧
      ∃ sid count, turn.outcome engine = some (.indexed sid count)) :
    Follows engine (errand.taking [turn]) none

/-- The turns that a message may get, its later attempts included. -/
def turnsLeft (engine : Engine) (message : Message) : Nat :=
  max 1 (engine.pipeline.retry.maxAttempts.toNat - message.attempts.toNat)

/-- An errand ends in time, sends at most once, and never when its message is strict. -/
structure Errand.Bounded (engine : Engine) (errand : Errand) : Prop where
  turns : errand.turns.length ≤ turnsLeft engine errand.first
  once : (errand.turns.filter fun turn => turn.sent engine ≠ []).length ≤ 1
  alone : errand.first.strict = true → ∀ turn ∈ errand.turns, turn.sent engine = []

/-- An errand that is still under way: each turn so far was an attempt that failed. -/
structure Errand.Waits (engine : Engine) (errand : Errand) (message : Message) : Prop where
  same : ∃ sid attempts, message = { errand.first with sid, attempts }
  counted : message.attempts.toNat = errand.first.attempts.toNat + errand.turns.length
  fewer : errand.turns ≠ [] → message.attempts < engine.pipeline.retry.maxAttempts
  silent : ∀ turn ∈ errand.turns, turn.sent engine = []

variable {engine : Engine} {errand : Errand} {message : Message}

/-- Attempts are counted in 32 bits. -/
def Countable (message : Message) : Prop := message.attempts.toNat < 2 ^ 32 - 1

theorem toNat_attempts_succ (countable : Countable message) :
    (message.attempts + 1).toNat = message.attempts.toNat + 1 := by
  rw [Countable] at countable
  rw [UInt32.toNat_add]
  exact Nat.mod_eq_of_lt (by simpa using Nat.succ_lt_of_lt_pred countable)

namespace Errand.Waits

theorem countable (waits : errand.Waits engine message) (start : Countable errand.first) :
    Countable message := by
  by_cases none : errand.turns = []
  · have counted := waits.counted
    rw [none, List.length_nil, Nat.add_zero] at counted
    rw [Countable, counted]
    exact start
  · have fewer := UInt32.lt_iff_toNat_lt.mp (waits.fewer none)
    have most := engine.pipeline.retry.maxAttempts.toNat_lt
    rw [Countable]
    omega

theorem length_lt (waits : errand.Waits engine message) :
    errand.turns.length < turnsLeft engine errand.first := by
  rw [turnsLeft]
  by_cases none : errand.turns = []
  · rw [none, List.length_nil]
    omega
  · have fewer := UInt32.lt_iff_toNat_lt.mp (waits.fewer none)
    have counted := waits.counted
    omega

theorem none_sent (waits : errand.Waits engine message) :
    (errand.turns.filter fun turn => turn.sent engine ≠ []) = [] := by
  rw [List.filter_eq_nil_iff]
  intro turn listed
  simpa using waits.silent turn listed

/-- Whatever the next turn is, the errand stays in its bounds. -/
theorem taking {turn : Turn} (waits : errand.Waits engine turn.delivery.message)
    (alone : turn.delivery.message.strict = true → turn.sent engine = []) :
    (errand.taking [turn]).Bounded engine where
  turns := by
    have room := waits.length_lt
    rw [Errand.taking, List.length_append, List.length_singleton]
    exact room
  once := by
    rw [Errand.taking, List.filter_append, waits.none_sent, List.nil_append]
    exact List.length_filter_le _ [turn]
  alone := by
    intro strict other listed
    rcases List.mem_append.mp listed with earlier | last
    · exact waits.silent other earlier
    · obtain rfl := List.mem_singleton.mp last
      obtain ⟨sid, attempts, same⟩ := waits.same
      exact alone (same ▸ strict)

theorem bounded (waits : errand.Waits engine message) : errand.Bounded engine where
  turns := Nat.le_of_lt waits.length_lt
  once := by
    rw [waits.none_sent]
    exact Nat.zero_le 1
  alone _ := waits.silent

end Errand.Waits

/-- An errand that starts with a countable message stays in its bounds, however far it has come. -/
theorem Follows.bounded {left : Option Message} (follows : Follows engine errand left)
    (start : Countable errand.first) :
    errand.Bounded engine ∧ ∀ message, left = some message → errand.Waits engine message := by
  induction follows with
  | started first =>
    have waits : Errand.Waits engine ⟨first, []⟩ first :=
      ⟨⟨first.sid, first.attempts, rfl⟩, rfl, fun none => absurd rfl none,
        fun _ never => nomatch never⟩
    refine ⟨waits.bounded, fun message here => ?_⟩
    cases here
    exact waits
  | stamped sid earlier ih =>
    obtain ⟨bounded, waiting⟩ := ih start
    have waits := waiting _ rfl
    refine ⟨bounded, fun message here => ?_⟩
    cases here
    obtain ⟨_, attempts, rfl⟩ := waits.same
    exact ⟨⟨sid, attempts, rfl⟩, waits.counted, waits.fewer, waits.silent⟩
  | absorbed earlier ih => exact ⟨(ih start).1, fun _ never => nomatch never⟩
  | @retried errand turn attempts delay earlier putOff counted fewer silent ih =>
    have waits := (ih start).2 _ rfl
    refine ⟨waits.taking fun _ => silent, fun message here => ?_⟩
    cases here
    obtain ⟨sid, _, same⟩ := waits.same
    refine ⟨⟨sid, attempts, by rw [same]; rfl⟩, ?_, fun _ => fewer, fun other listed => ?_⟩
    · have before := waits.counted
      have next := toNat_attempts_succ (waits.countable start)
      rw [← counted] at next
      rw [Errand.taking, List.length_append, List.length_singleton]
      dsimp only
      omega
    · rcases List.mem_append.mp listed with old | last
      · exact waits.silent other old
      · rw [List.mem_singleton.mp last, silent]
  | @ended errand turn earlier final stored ih =>
    have waits := (ih start).2 _ rfl
    refine ⟨waits.taking fun strict => ?_, fun _ never => nomatch never⟩
    by_contra some
    have loose := (stored some).1
    rw [strict] at loose
    cases loose

/-- The errands of a run so far: those under way, each with the place of the message that stands for
it, and those that are over. `arrived` are the messages that there have been, and `run` the turns. -/
structure Docket (engine : Engine) (underWay : Multiset (Place × Message × Errand))
    (past : Multiset Errand) (arrived : Multiset Message) (run : Multiset Turn)
    (held : Multiset (Place × Message)) : Prop where
  held : underWay.map (fun entry => (entry.1, entry.2.1)) = held
  going : ∀ entry ∈ underWay, Follows engine entry.2.2 (some entry.2.1)
  gone : ∀ errand ∈ past, Follows engine errand none
  arrived : (underWay.map (fun entry => entry.2.2) + past).map Errand.first = arrived
  run : (underWay.map (fun entry => entry.2.2) + past).bind
    (fun errand => (errand.turns : Multiset Turn)) = run

/-- Every message that there has been and every turn of a run has its place in some errand. -/
def Docketed (engine : Engine) (arrived : Multiset Message) (run : Multiset Turn)
    (held : Multiset (Place × Message)) : Prop :=
  ∃ underWay past, Docket engine underWay past arrived run held

namespace Docketed

variable {arrived : Multiset Message} {run : Multiset Turn} {held rest : Multiset (Place × Message)}
  {place : Place}

theorem start (engine : Engine) (held : Multiset (Place × Message)) :
    Docketed engine (held.map Prod.snd) 0 held := by
  refine ⟨held.map fun item => (item.1, item.2, ⟨item.2, []⟩), 0, ?_, ?_, ?_, ?_, ?_⟩
  · simp
  · intro entry listed
    obtain ⟨item, -, rfl⟩ := Multiset.mem_map.mp listed
    exact .started item.2
  · exact fun _ never => absurd never (Multiset.notMem_zero _)
  · simp [Multiset.map_map]
  · simp [Multiset.bind_map]

/-- The errand of one message that is held, apart from the others. -/
theorem exists_errand {underWay : Multiset (Place × Message × Errand)} {past : Multiset Errand}
    (docket : Docket engine underWay past arrived run ((place, message) ::ₘ rest)) :
    ∃ errand others, underWay = (place, message, errand) ::ₘ others ∧
      others.map (fun entry => (entry.1, entry.2.1)) = rest := by
  classical
  obtain ⟨⟨_, _, errand⟩, listed, same, others⟩ := (Multiset.map_eq_cons _ _ _ _).mpr docket.held
  cases same
  exact ⟨errand, _, (Multiset.cons_erase listed).symm, others⟩

/-- A message that goes on stands for its errand, with the turns that it got. -/
theorem keep (docketed : Docketed engine arrived run ((place, message) ::ₘ rest))
    (turns : List Turn) (there : Place) {next : Message}
    (goesOn : ∀ errand, Follows engine errand (some message) →
      Follows engine (errand.taking turns) (some next)) :
    Docketed engine arrived (turns + run) ((there, next) ::ₘ rest) := by
  obtain ⟨underWay, past, docket⟩ := docketed
  obtain ⟨errand, others, rfl, left⟩ := exists_errand docket
  obtain ⟨-, going, gone, firsts, turned⟩ := docket
  refine ⟨(there, next, errand.taking turns) ::ₘ others, past, ?_, ?_, gone, ?_, ?_⟩
  · rw [Multiset.map_cons, left]
  · intro entry listed
    rcases Multiset.mem_cons.mp listed with rfl | other
    · exact goesOn errand (going _ (Multiset.mem_cons_self _ _))
    · exact going entry (Multiset.mem_cons_of_mem other)
  · rw [← firsts]
    simp [Errand.taking]
  · rw [← turned]
    simp [Errand.taking, ← Multiset.coe_add, Multiset.add_assoc, add_left_comm]

/-- A message that is gone ends its errand, with the turns that it got. -/
theorem close (docketed : Docketed engine arrived run ((place, message) ::ₘ rest))
    (turns : List Turn)
    (ends : ∀ errand, Follows engine errand (some message) →
      Follows engine (errand.taking turns) none) :
    Docketed engine arrived (turns + run) rest := by
  obtain ⟨underWay, past, docket⟩ := docketed
  obtain ⟨errand, others, rfl, left⟩ := exists_errand docket
  obtain ⟨-, going, gone, firsts, turned⟩ := docket
  refine ⟨others, errand.taking turns ::ₘ past, left, ?_, ?_, ?_, ?_⟩
  · exact fun entry listed => going entry (Multiset.mem_cons_of_mem listed)
  · intro other listed
    rcases Multiset.mem_cons.mp listed with rfl | before
    · exact ends errand (going _ (Multiset.mem_cons_self _ _))
    · exact gone other before
  · rw [← firsts]
    simp [Errand.taking]
  · rw [← turned]
    simp [Errand.taking, ← Multiset.coe_add, Multiset.add_assoc, add_left_comm]

/-- A message that arrives begins an errand. -/
theorem arrive (docketed : Docketed engine arrived run held) (place : Place) (message : Message) :
    Docketed engine (message ::ₘ arrived) run ((place, message) ::ₘ held) := by
  obtain ⟨underWay, past, left, going, gone, firsts, turned⟩ := docketed
  refine ⟨(place, message, ⟨message, []⟩) ::ₘ underWay, past, ?_, ?_, gone, ?_, ?_⟩
  · rw [Multiset.map_cons, left]
  · intro entry listed
    rcases Multiset.mem_cons.mp listed with rfl | other
    · exact .started message
    · exact going entry other
  · rw [← firsts]
    simp
  · rw [← turned]
    simp

end Docketed

section Events

variable {arrived : Multiset Message} {run : Multiset Turn}
  {before after : Multiset (Place × Message)} {event : Event} {events : List Event}

/-- The message that an event brings to the queue. -/
def arrival? (event : Event) : Option Message := event.sent?.map Prod.snd

/-- Whether an event lets a message go. -/
def releases : Event → Bool
  | .finished _ | .dropped _ _ => true
  | _ => false

/-- An event that lets nothing go moves the messages of the errands about and begins one for a
message that arrives. -/
theorem Docketed.moves (docketed : Docketed engine arrived run before)
    (moves : event.Moves before after) (keeps : releases event = false) :
    Docketed engine ((arrival? event).toList + arrived) run after := by
  obtain ⟨-, rest, rfl, rfl⟩ := moves
  have stamps : ∀ (sid : Option Sid) (message : Message) (errand : Errand),
      Follows engine errand (some message) →
        Follows engine (errand.taking []) (some { message with sid }) := by
    intro sid message errand follows
    rw [Errand.taking, List.append_nil]
    exact follows.stamped sid
  have ends : ∀ (message : Message) (errand : Errand), Follows engine errand (some message) →
      Follows engine (errand.taking []) none := by
    intro message errand follows
    rw [Errand.taking, List.append_nil]
    exact follows.absorbed
  cases event with
  | joined lane message =>
    have begun := docketed.arrive (.waiting lane) message
    simpa [Event.leaves, Event.enters, arrival?, Event.sent?] using begun
  | absorbed waiting message =>
    have stamped := docketed.keep [] (.waiting .secondary)
      (stamps (max waiting.sid message.sid) waiting)
    have begun := (stamped.arrive (.waiting .secondary) message).close [] (ends message)
    simpa [Event.enters, arrival?, Event.sent?, Message.merging] using begun
  | taken delivery =>
    have moved := docketed.keep [] (.inFlight delivery.receipt delivery.lane)
      (stamps delivery.message.sid delivery.message)
    simpa [Event.enters, arrival?, Event.sent?] using moved
  | returned delivery =>
    have moved := docketed.keep [] (.waiting delivery.lane)
      (stamps delivery.message.sid delivery.message)
    simpa [Event.enters, arrival?, Event.sent?] using moved
  | merged waiting delivery =>
    have both : Docketed engine arrived run
        ((.inFlight delivery.receipt delivery.lane, delivery.message) ::ₘ
          (.waiting .secondary, waiting) ::ₘ rest) := by
      simpa [Event.leaves] using docketed
    have ended := both.close [] (ends delivery.message)
    have stamped := ended.keep [] (.waiting .secondary)
      (stamps (max waiting.sid delivery.message.sid) waiting)
    simpa [Event.enters, arrival?, Event.sent?, Message.merging] using stamped
  | finished delivery => cases keeps
  | dropped lane message => cases keeps

/-- So do events that happen one after the other. -/
theorem Docketed.course (docketed : Docketed engine arrived run before)
    (course : Course before events after) (keeps : ∀ event ∈ events, releases event = false) :
    Docketed engine (events.filterMap arrival? + arrived) run after := by
  induction course generalizing arrived with
  | nil => simpa using docketed
  | @cons _ middle _ event events moves _ ih =>
    have moved := docketed.moves moves (keeps event List.mem_cons_self)
    have others := ih moved fun other listed => keeps other (List.mem_cons_of_mem _ listed)
    cases arrives : arrival? event with
    | none =>
      rw [List.filterMap_cons_none arrives]
      simpa [arrives] using others
    | some message =>
      rw [List.filterMap_cons_some arrives, ← Multiset.cons_coe, Multiset.cons_add]
      simpa [arrives] using others

end Events

end Indexing

end CachedViews
