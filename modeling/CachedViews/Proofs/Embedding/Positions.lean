import CachedViews.Proofs.Embedding.Stores
import CachedViews.Proofs.Registry.Crossings

/-!
The positions of a path. An embedding goes by the type of each record that it finds, the reads of a
type by the types that links declare. Where links are well typed, both give every position the same
type.
-/
namespace CachedViews

namespace Registry

variable {registry : Registry}

/-- Behind every link less of a path is left. -/
theorem left_shorter {current : ItemType} {path : List String} {place : ItemType × List String}
    (crossed : place ∈ registry.crossings current path) : place.2.length < path.length := by
  induction path generalizing current with
  | nil => cases crossed
  | cons segment rest ih =>
    rw [crossings] at crossed
    split at crossed
    · cases crossed
    · split at crossed
      · cases crossed
      · rcases List.mem_cons.mp crossed with rfl | further
        · exact Nat.lt_succ_self _
        · exact Nat.lt_succ_of_lt (ih further)

/-- A path stands at one type only with the same left of it. -/
theorem crossed_type_unique {current itemType other : ItemType} {path left : List String}
    (one : (itemType, left) ∈ registry.crossings current path)
    (two : (other, left) ∈ registry.crossings current path) : itemType = other := by
  induction path generalizing current with
  | nil => cases one
  | cons segment rest ih =>
    rw [crossings] at one two
    split at one
    · cases one
    · rename_i named
      rw [if_neg named] at two
      split at one
      · cases one
      · rename_i target declared
        rw [declared] at two
        rcases List.mem_cons.mp one with first | one <;>
          rcases List.mem_cons.mp two with second | two
        · exact (congrArg Prod.fst first).trans (congrArg Prod.fst second).symm
        · cases first
          exact absurd (left_shorter two) (Nat.lt_irrefl _)
        · cases second
          exact absurd (left_shorter one) (Nat.lt_irrefl _)
        · exact ih one two

end Registry

namespace Embedding

section

variable (registry : Registry) (lookup : Uuid → Option EntityRecord)

/-- Whether following a path from a record comes to a record that is there, with the rest of the
path to go. -/
def Finds (followLast : Bool) :
    List String → EntityRecord → List String → EntityRecord → Prop
  | [], _, _, _ => False
  | segment :: rest, record, left, found =>
    ¬ (rest = [] ∧ !followLast) ∧ registry.isLink record.itemType segment = true ∧
      ∃ target ∈ linkTargets (record.properties.get? segment), ∃ next, lookup target = some next ∧
        (left = rest ∧ found = next ∨ Finds followLast rest next left found)

end

variable {registry : Registry} {lookup : Uuid → Option EntityRecord} {followLast : Bool}
  {path left : List String} {record found : EntityRecord}

/-- What is found is there. -/
theorem exists_uuid_of_finds (finds : Finds registry lookup followLast path record left found) :
    ∃ uuid, lookup uuid = some found := by
  induction path generalizing record with
  | nil => exact finds.elim
  | cons segment rest ih =>
    obtain ⟨-, -, target, -, next, there, ⟨-, rfl⟩ | further⟩ := finds
    · exact ⟨target, there⟩
    · exact ih further

/-- Of what a path meets, it finds what is there. -/
theorem finds_iff_meets (named : ∀ uuid record, lookup uuid = some record → record.uuid = uuid)
    (there : lookup found.uuid = some found) :
    (∃ left, Finds registry lookup followLast path record left found) ↔
      Meets registry lookup followLast path record found.uuid := by
  induction path generalizing record with
  | nil => exact ⟨fun ⟨_, finds⟩ => finds, False.elim⟩
  | cons segment rest ih =>
    constructor
    · rintro ⟨left, follows, declared, target, held, next, known, ⟨-, rfl⟩ | further⟩
      · exact ⟨follows, declared, target, held, Or.inl (named target _ known)⟩
      · exact ⟨follows, declared, target, held, Or.inr ⟨next, known, ih.mp ⟨left, further⟩⟩⟩
    · rintro ⟨follows, declared, target, held, rfl | ⟨next, known, meets⟩⟩
      · exact ⟨rest, follows, declared, _, held, found, there, Or.inl ⟨rfl, rfl⟩⟩
      · obtain ⟨left, further⟩ := ih.mpr meets
        exact ⟨left, follows, declared, target, held, next, known, Or.inr further⟩

/-- Where a record is found, the declared links lead to its type. -/
theorem crossed_of_finds (sound : LinksSound registry lookup)
    (known : ∃ uuid, lookup uuid = some record)
    (named : Named registry followLast record.itemType path)
    (finds : Finds registry lookup followLast path record left found) :
    (found.itemType, left) ∈ registry.crossings record.itemType path := by
  induction path generalizing record with
  | nil => exact finds.elim
  | cons segment rest ih =>
    obtain ⟨follows, declared, target, held, next, there, either⟩ := finds
    obtain ⟨itemType, link⟩ := exists_linkTarget? declared
    obtain ⟨source, current⟩ := known
    -- The record behind the link has the declared type, from which the walk goes on.
    obtain rfl := sound.typed source record current segment itemType link target held next there
    rw [Registry.crossings, if_neg (apart_of_follows named follows declared), link]
    rcases either with ⟨rfl, rfl⟩ | further
    · exact List.mem_cons_self
    · exact List.mem_cons_of_mem _ (ih ⟨target, there⟩ (named.2 _ link) further)

/-- The type at a position is that of the record found there. -/
theorem crossed_iff_of_finds (sound : LinksSound registry lookup)
    (known : ∃ uuid, lookup uuid = some record)
    (named : Named registry followLast record.itemType path)
    (finds : Finds registry lookup followLast path record left found) (itemType : ItemType) :
    (itemType, left) ∈ registry.crossings record.itemType path ↔ itemType = found.itemType := by
  have crossed := crossed_of_finds sound known named finds
  exact ⟨fun other => Registry.crossed_type_unique other crossed, fun same => same ▸ crossed⟩

end Embedding

end CachedViews
