import CachedViews.Proofs.Asking.Answers

/-!
Asking for a scope again. Over the same stores it comes out the same, whatever faults lie ahead: a
fault may keep the engine from an answer but does not change it.
-/
namespace CachedViews

/-- The stores hold the same. They may have counted differently. -/
structure World.SameStores (one two : World) : Prop where
  write : two.write = one.write
  read : ∃ stats, two.read = World.counted one.read stats

namespace World

variable {one two last : World}

theorem SameStores.of_same (write : two.write = one.write) (read : two.read = one.read) :
    one.SameStores two :=
  ⟨write, read ▸ exists_counted one.read⟩

theorem SameStores.symm (same : one.SameStores two) : two.SameStores one where
  write := same.write.symm
  read := by
    obtain ⟨stats, counting⟩ := same.read
    obtain ⟨own, counted⟩ := exists_counted one.read
    exact ⟨own, by rw [counting, counted_counted, ← counted]⟩

theorem SameStores.trans (first : one.SameStores two) (second : two.SameStores last) :
    one.SameStores last where
  write := second.write.trans first.write
  read := by
    obtain ⟨early, here⟩ := first.read
    obtain ⟨late, there⟩ := second.read
    exact ⟨late, by rw [there, here, counted_counted]⟩

theorem Looked.sameStores (looked : Looked one two) : one.SameStores two :=
  ⟨looked.write, looked.read⟩

theorem counted_findDependents (read : ReadStore) (stats : ReadStats) (uuid : Uuid) :
    (counted read stats).findDependents uuid = read.findDependents uuid := by
  cases read <;> rfl

end World

namespace Action

variable {α β : Type}

/-- Whenever the action ends well over the same stores, it returns the same. -/
def Settled (action : Action α) : Prop :=
  ∀ one two, one.SameStores two → ∀ first second after last,
    action.on one = (.ok first, after) → action.on two = (.ok second, last) → first = second

theorem settled_pure (value : α) : (pure value : Action α).Settled := by
  intro one two _ first second after last here there
  cases here
  cases there
  rfl

/-- What follows is asked over the same stores. -/
theorem Settled.bind {action : Action α} {next : α → Action β} (first : action.Settled)
    (looks : action.Looks) (second : ∀ value, (next value).Settled) :
    (action >>= next).Settled := by
  intro one two same result other after last here there
  obtain ⟨value, middle, asked, here⟩ := bind_ok here
  obtain ⟨repeated, between, again, there⟩ := bind_ok there
  obtain rfl := first one two same value repeated middle between asked again
  have early := (looks.of_on asked).sameStores
  have late := (looks.of_on again).sameStores
  exact second value middle between ((early.symm.trans same).trans late) result other after last
    here there

/-- The write store alone decides. -/
theorem settled_of_yields {action : Action α} (value : WriteStore → α)
    (yields : ∀ world, action.Yields (value world.write) world) : action.Settled := by
  intro one two same first second after last here there
  rw [yields one first after here, yields two second last there, same.write]

theorem findDependents_settled (uuid : Uuid) : (findDependents uuid).Settled := by
  intro one two same first second after last here there
  obtain ⟨read, middle, asked, here⟩ := bind_ok here
  obtain ⟨other, between, again, there⟩ := bind_ok there
  cases here
  cases there
  have early := (readStore_looks.of_on asked).sameStores
  have late := (readStore_looks.of_on again).sameStores
  obtain ⟨stats, counting⟩ := ((early.symm.trans same).trans late).read
  rw [readStore_ok asked, readStore_ok again, counting, World.counted_findDependents]

theorem orNotFound_view_settled (uuid : Uuid) : (orNotFound (view uuid)).Settled := by
  intro one two same first second after last here there
  obtain ⟨stats, counting⟩ := same.read
  have loaded := orNotFound_view_loads there
  rw [counting, World.counted_load] at loaded
  exact Except.ok.inj ((orNotFound_view_loads here).symm.trans loaded)

theorem revLinks_settled (uuid : Uuid) : (revLinks uuid).Settled :=
  settled_of_yields (fun store => store.revLinks uuid) fun world => revLinks_yields uuid world

theorem itemTypeOf_settled (uuid : Uuid) : (itemTypeOf uuid).Settled :=
  settled_of_yields (fun store => store.itemTypeOf uuid) fun world => itemTypeOf_yields uuid world

theorem liveKeys_settled (uuids : List Uuid) : (liveKeys uuids).Settled :=
  settled_of_yields (fun store => keysIn store uuids) fun world => liveKeys_yields uuids world

end Action

namespace Invalidation

open CachedViews.Action

theorem linkingEntities_settled (uuid : Uuid) : (linkingEntities uuid).Settled := by
  refine (orNotFound_view_settled uuid).bind (view_looks uuid).orNotFound fun found => ?_
  cases found with
  | some view => exact settled_pure _
  | none => exact (revLinks_settled uuid).bind (revLinks_looks uuid) fun _ => settled_pure _

theorem baseline_settled (uuid : Uuid) : (baseline uuid).Settled :=
  (findDependents_settled uuid).bind (findDependents_looks uuid) fun _ =>
    (linkingEntities_settled uuid).bind (linkingEntities_looks uuid) fun _ =>
      (liveKeys_settled _).bind (liveKeys_looks _) fun _ => settled_pure _

theorem changedType_settled (uuid : Uuid) : (changedType uuid).Settled := by
  refine (itemTypeOf_settled uuid).bind (itemTypeOf_looks uuid) fun found => ?_
  cases found with
  | some itemType => exact settled_pure _
  | none =>
    exact (orNotFound_view_settled uuid).bind (view_looks uuid).orNotFound fun _ => settled_pure _

/-- The stores decide which views a change selects. -/
theorem scope_settled (engine : Engine) (uuid : Uuid) (diff : Option (List String)) :
    (scope engine uuid diff).Settled := by
  refine (baseline_settled uuid).bind (baseline_looks uuid) fun candidates => ?_
  cases diff with
  | none => exact settled_pure _
  | some diff =>
    dsimp only
    split
    · exact settled_pure _
    · refine (changedType_settled uuid).bind (changedType_looks uuid) fun changed => ?_
      cases changed with
      | none => exact settled_pure _
      | some changed =>
        dsimp only
        split
        · exact settled_pure _
        · exact settled_pure _

end Invalidation

end CachedViews
