import CachedViews.Proofs.Embedding.Meets
import CachedViews.Proofs.Json.Plain
import CachedViews.Proofs.Registry.Coverage

/-!
Records that agree on what is read. When two sets of records agree wherever an embedding goes,
the embedding goes the same way over both.
-/
namespace CachedViews

/-- The plain form of one property. -/
def EntityRecord.plainAt (record : EntityRecord) (field : String) : Option Json :=
  (record.properties.get? field).map Json.plain

/-- Two records of one entity with the same value at every property that is read. -/
structure Agrees (reads : Reads) (left right : EntityRecord) : Prop where
  uuid : left.uuid = right.uuid
  itemType : left.itemType = right.itemType
  covered : ∀ field, reads.covers left.itemType field = true →
    left.plainAt field = right.plainAt field

namespace Agrees

variable {reads : Reads} {first second third : EntityRecord}

theorem refl (reads : Reads) (record : EntityRecord) : Agrees reads record record :=
  ⟨rfl, rfl, fun _ _ => rfl⟩

theorem trans (one : Agrees reads first second) (two : Agrees reads second third) :
    Agrees reads first third where
  uuid := one.uuid.trans two.uuid
  itemType := one.itemType.trans two.itemType
  covered field covered :=
    (one.covered field covered).trans (two.covered field (one.itemType ▸ covered))

end Agrees

/-- What two stores hold of an entity: nothing in both, or records that agree. -/
def AgreesAt (reads : Reads) (left right : Option EntityRecord) : Prop :=
  match left, right with
  | none, none => True
  | some left, some right => Agrees reads left right
  | _, _ => False

namespace AgreesAt

variable {reads : Reads} {first second third : Option EntityRecord}

theorem refl (reads : Reads) (record : Option EntityRecord) : AgreesAt reads record record := by
  cases record with
  | none => trivial
  | some record => exact Agrees.refl reads record

theorem trans (one : AgreesAt reads first second) (two : AgreesAt reads second third) :
    AgreesAt reads first third := by
  cases first <;> cases second <;> cases third <;> try trivial
  exact Agrees.trans one two

theorem of_some {record : EntityRecord} (agrees : AgreesAt reads (some record) second) :
    ∃ other, second = some other ∧ Agrees reads record other := by
  cases second with
  | none => exact agrees.elim
  | some other => exact ⟨other, rfl, agrees⟩

theorem of_right {record : EntityRecord} (agrees : AgreesAt reads first (some record)) :
    ∃ other, first = some other ∧ Agrees reads other record := by
  cases first with
  | none => exact agrees.elim
  | some other => exact ⟨other, rfl, agrees⟩

end AgreesAt

namespace Embedding

/-- Links hold identifiers, and those that lead somewhere lead to the declared type. -/
structure LinksSound (registry : Registry) (lookup : Uuid → Option EntityRecord) : Prop where
  held : ∀ uuid record, lookup uuid = some record → ∀ field value,
    registry.isLink record.itemType field = true → record.properties.get? field = some value →
      value.holdsLinks = true
  typed : ∀ uuid record, lookup uuid = some record → ∀ field itemType,
    registry.linkTarget? record.itemType field = some itemType →
      ∀ target ∈ linkTargets (record.properties.get? field),
        ∀ found, lookup target = some found → found.itemType = itemType

/-- No link is followed at a wildcard. -/
def Named (registry : Registry) (followLast : Bool) : ItemType → List String → Prop
  | _, [] => True
  | current, segment :: rest =>
    (segment = Path.wildcard →
        (rest = [] ∧ followLast = false) ∨ registry.isLink current segment = false) ∧
      ∀ target, registry.linkTarget? current segment = some target →
        Named registry followLast target rest

variable {registry : Registry} {left right : Uuid → Option EntityRecord} {reads : Reads}
  {record other : EntityRecord} {followLast : Bool}

theorem isLink_eq_isSome (itemType : ItemType) (field : String) :
    registry.isLink itemType field = (registry.linkTarget? itemType field).isSome := by
  unfold Registry.isLink Registry.linkTarget?
  cases registry.get? itemType with
  | none => rfl
  | some decl =>
    simp only [TypeDecl.isLink, SortedMap.contains, bind, Option.bind]
    cases decl.links.get? field <;> rfl

theorem exists_linkTarget? {itemType : ItemType} {field : String}
    (declared : registry.isLink itemType field = true) :
    ∃ target, registry.linkTarget? itemType field = some target :=
  Option.isSome_iff_exists.mp (isLink_eq_isSome itemType field ▸ declared)

theorem named_of_wildcardLast (itemType : ItemType) {path : List String}
    (last : Path.WildcardLast path) : Named registry false itemType path := by
  induction path generalizing itemType with
  | nil => trivial
  | cons segment rest ih =>
    exact ⟨fun wild => Or.inl ⟨last.1 wild, rfl⟩, fun target _ => ih target last.2⟩

theorem linkTargets_eq_of_plain {first second : Option Json}
    (same : first.map Json.plain = second.map Json.plain) :
    linkTargets first = linkTargets second := by
  cases first with
  | none =>
    cases second with
    | none => rfl
    | some value => cases same
  | some value =>
    cases second with
    | none => cases same
    | some held =>
      rw [← Json.linkTargets_plain value, Option.some.inj same, Json.linkTargets_plain]

/-- A link that is followed is not named like the wildcard. -/
theorem apart_of_follows {itemType : ItemType} {segment : String} {rest : List String}
    (named : Named registry followLast itemType (segment :: rest))
    (follows : ¬ (rest = [] ∧ !followLast)) (declared : registry.isLink itemType segment = true) :
    segment ≠ Path.wildcard := by
  intro wild
  rcases named.1 wild with ⟨last, notLast⟩ | plain
  · exact follows ⟨last, by rw [notLast]; rfl⟩
  · rw [declared] at plain
    cases plain

/-- What is known about a step along a link that is followed: its property is read, and so is
what lies behind it. -/
theorem covers_step {calculated : Bool} {itemType target : ItemType} {segment : String}
    {rest : List String} (named : Named registry followLast itemType (segment :: rest))
    (follows : ¬ (rest = [] ∧ !followLast))
    (covers : registry.Covers reads calculated itemType (segment :: rest))
    (declared : registry.linkTarget? itemType segment = some target) :
    reads.covers itemType segment = true ∧ Named registry followLast target rest ∧
      (calculated = true → rest = [] → reads.CoversAll target) ∧
        registry.Covers reads calculated target rest := by
  have link : registry.isLink itemType segment = true := by
    rw [isLink_eq_isSome, declared]
    rfl
  rw [Registry.Covers, if_neg (apart_of_follows named follows link)] at covers
  exact ⟨covers.1, named.2 target declared, covers.2 target declared⟩

/-- Over records that agree, a path leads to the same entities. -/
theorem meets_iff {calculated : Bool} (sound : LinksSound registry left) {path : List String}
    (known : ∃ uuid, left uuid = some record)
    (named : Named registry followLast record.itemType path)
    (covers : registry.Covers reads calculated record.itemType path)
    (agrees : Agrees reads record other)
    (along : ∀ uuid, Meets registry left followLast path record uuid →
      AgreesAt reads (left uuid) (right uuid)) (uuid : Uuid) :
    Meets registry left followLast path record uuid ↔
      Meets registry right followLast path other uuid := by
  induction path generalizing record other with
  | nil => exact Iff.rfl
  | cons segment rest ih =>
    rw [Meets, Meets, ← agrees.itemType]
    refine and_congr_right fun follows => and_congr_right fun declared => ?_
    obtain ⟨itemType, link⟩ := exists_linkTarget? declared
    obtain ⟨here, namedRest, -, coversRest⟩ := covers_step named follows covers link
    rw [← linkTargets_eq_of_plain (agrees.covered segment here)]
    refine exists_congr fun target => and_congr_right fun held => or_congr_right ?_
    -- The target is visited, so both sides agree on it; its type is the declared one, which is
    -- what the rest of the path is covered for.
    have there := along target ⟨follows, declared, target, held, Or.inl rfl⟩
    obtain ⟨source, current⟩ := known
    constructor
    · rintro ⟨next, found, meets⟩
      rw [found] at there
      obtain ⟨next', found', agreesNext⟩ := there.of_some
      have typed := sound.typed source record current segment itemType link target held next found
      refine ⟨next', found', (ih ⟨target, found⟩ (typed ▸ namedRest) (typed ▸ coversRest) agreesNext
        fun later meetsLater => ?_).mp meets⟩
      exact along later ⟨follows, declared, target, held, Or.inr ⟨next, found, meetsLater⟩⟩
    · rintro ⟨next', found', meets⟩
      rw [found'] at there
      obtain ⟨next, found, agreesNext⟩ := there.of_right
      have typed := sound.typed source record current segment itemType link target held next found
      refine ⟨next, found, (ih ⟨target, found⟩ (typed ▸ namedRest) (typed ▸ coversRest) agreesNext
        fun later meetsLater => ?_).mpr meets⟩
      exact along later ⟨follows, declared, target, held, Or.inr ⟨next, found, meetsLater⟩⟩

end Embedding

end CachedViews
