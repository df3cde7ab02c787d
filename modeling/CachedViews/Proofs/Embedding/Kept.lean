import CachedViews.Proofs.Embedding.Stores

/-!
What a later store may change without the notice of an embedding made earlier: along every
chain of followed links the entities agree on what is read, up to the first one that is known
to have changed.
-/
namespace CachedViews

namespace Embedding

open WriteStore

section

variable (registry : Registry) (earlier later : Uuid → Option EntityRecord) (hot : Uuid → Prop)
  (reads : Reads) (followLast : Bool)

/-- Along a path, both stores hold the same of what is read until a hot entity is met. -/
def Kept : List String → EntityRecord → Prop
  | [], _ => True
  | segment :: rest, record =>
    ¬ (rest = [] ∧ !followLast) → registry.isLink record.itemType segment = true →
      ∀ target ∈ linkTargets (record.properties.get? segment),
        hot target ∨ AgreesAt reads (earlier target) (later target) ∧
          ∀ next, earlier target = some next → Kept rest next

end

variable {registry : Registry} {earlier later next : Uuid → Option EntityRecord}
  {hot warm : Uuid → Prop} {reads : Reads} {followLast : Bool}

theorem Kept.of_agrees {path : List String} {record : EntityRecord}
    (along : ∀ uuid, Meets registry earlier followLast path record uuid →
      AgreesAt reads (earlier uuid) (later uuid)) :
    Kept registry earlier later hot reads followLast path record := by
  induction path generalizing record with
  | nil => trivial
  | cons segment rest ih =>
    intro follows declared target listed
    refine Or.inr ⟨along target ⟨follows, declared, target, listed, Or.inl rfl⟩, ?_⟩
    intro reached found
    refine ih fun uuid meets => along uuid ?_
    exact ⟨follows, declared, target, listed, Or.inr ⟨reached, found, meets⟩⟩

/-- When nothing is hot, everything that is met is as it was. -/
theorem Kept.agrees {path : List String} {record : EntityRecord}
    (kept : Kept registry earlier later hot reads followLast path record)
    (cold : ∀ uuid, ¬ hot uuid) {uuid : Uuid}
    (meets : Meets registry earlier followLast path record uuid) :
    AgreesAt reads (earlier uuid) (later uuid) := by
  induction path generalizing record with
  | nil => exact meets.elim
  | cons segment rest ih =>
    obtain ⟨follows, declared, target, listed, here | ⟨reached, found, below⟩⟩ := meets
    · exact here ▸ ((kept follows declared target listed).resolve_left (cold target)).1
    · exact ih (((kept follows declared target listed).resolve_left (cold target)).2 reached found)
        below

/-- A step of the later store keeps a path when it only changes what becomes hot. -/
theorem Kept.step {path : List String} {record : EntityRecord}
    (kept : Kept registry earlier later hot reads followLast path record)
    (heats : ∀ uuid, Meets registry earlier followLast path record uuid → hot uuid → warm uuid)
    (changes : ∀ uuid, Meets registry earlier followLast path record uuid →
      warm uuid ∨ AgreesAt reads (later uuid) (next uuid)) :
    Kept registry earlier next warm reads followLast path record := by
  induction path generalizing record with
  | nil => trivial
  | cons segment rest ih =>
    intro follows declared target listed
    have met : Meets registry earlier followLast (segment :: rest) record target :=
      ⟨follows, declared, target, listed, Or.inl rfl⟩
    -- Behind a hot target nothing is claimed, so only an agreeing one is followed further.
    rcases kept follows declared target listed with hit | ⟨agrees, below⟩
    · exact Or.inl (heats target met hit)
    · refine (changes target met).imp_right fun same => ⟨agrees.trans same, ?_⟩
      intro reached found
      have onward : ∀ uuid, Meets registry earlier followLast rest reached uuid →
          Meets registry earlier followLast (segment :: rest) record uuid := fun uuid meets =>
        ⟨follows, declared, target, listed, Or.inr ⟨reached, found, meets⟩⟩
      exact ih (below reached found) (fun uuid meets => heats uuid (onward uuid meets))
        fun uuid meets => changes uuid (onward uuid meets)

/-- A purged entity is met by no kept path from another one, since nothing links to it. -/
theorem Kept.purged {store purgedStore : WriteStore} {gone : Uuid} {calculated : Bool}
    (sound : LinksSound registry earlier) (consistent : Consistent registry store)
    (purged : Purged store gone purgedStore) {path : List String} {record other : EntityRecord}
    (known : ∃ uuid, earlier uuid = some record)
    (current : store.record? record.uuid = some other) (same : Agrees reads record other)
    (apart : record.uuid ≠ gone) (named : Named registry followLast record.itemType path)
    (covers : registry.Covers reads calculated record.itemType path)
    (kept : Kept registry earlier store.record? hot reads followLast path record) :
    Kept registry earlier purgedStore.record? (fun uuid => hot uuid ∧ uuid ≠ gone) reads
      followLast path record := by
  induction path generalizing record other with
  | nil => trivial
  | cons segment rest ih =>
    intro follows declared target listed
    obtain ⟨itemType, link⟩ := exists_linkTarget? declared
    obtain ⟨read, namedRest, -, coversRest⟩ := covers_step named follows covers link
    -- The record that is current now still links the target, so the target cannot be gone.
    have linking : (⟨segment, target⟩ : Link) ∈ other.links := by
      refine (consistent.mem_links_iff current _).mpr ⟨same.itemType ▸ declared, ?_⟩
      rw [← linkTargets_eq_of_plain (same.covered segment read)]
      exact listed
    have left : target ≠ gone := purged.unlinked record.uuid other _ apart current linking
    apply (kept follows declared target listed).imp (fun hit => ⟨hit, left⟩)
    rintro ⟨agrees, below⟩
    refine ⟨?_, fun reached found => ?_⟩
    · rw [purged.record?_of_ne left]
      exact agrees
    · rw [found] at agrees
      obtain ⟨held, there, sameReached⟩ := agrees.of_some
      obtain ⟨source, holds⟩ := known
      have typed := sound.typed source record holds segment itemType link target listed reached found
      have sameUuid : reached.uuid = target := sameReached.uuid.trans (record?_uuid there)
      exact ih ⟨target, found⟩ (sameUuid ▸ there) sameReached (sameUuid ▸ left)
        (typed ▸ namedRest) (typed ▸ coversRest) (below reached found)

end Embedding

end CachedViews
