import CachedViews.Proofs.Registry.Coverage

/-!
What the reads of a type cover, exactly. A path stands at its own type first and, behind every link
that it crosses, at the type that the link declares. It takes from each of these types what comes
next on it, and the reads of a type are nothing but what its paths take.
-/
namespace CachedViews

namespace Path

/-- What stands for a field in the reads of a type: its text before the first dot. -/
def topField (field : String) : String := (segments field).headD field

/-- Whether what is left of a path takes a field of the entity that the path has come to. Where
nothing is left the whole entity is taken, but only by a calculated property. -/
def Takes (calculated : Bool) (field : String) : List String → Prop
  | [] => calculated = true
  | segment :: _ => segment = wildcard ∨ segment = topField field

instance decidableTakes (calculated : Bool) (field : String) :
    (left : List String) → Decidable (Takes calculated field left)
  | [] => inferInstanceAs (Decidable (_ = _))
  | _ :: _ => inferInstanceAs (Decidable (_ ∨ _))

end Path

namespace Reads

variable (reads : Reads) (itemType other : ItemType) (field : String)

theorem covers_addAll_iff : (reads.addAll itemType).covers other field = true ↔
    reads.covers other field = true ∨ itemType = other := by
  rw [covers_eq, covers_eq, addAll_selection]
  split
  · rename_i same
    simp [FieldSelection.covers, same]
  · rename_i apart
    simp [Ne.symm apart]

theorem covers_addField_iff (segment : String) :
    (reads.addField itemType segment).covers other field = true ↔
      reads.covers other field = true ∨ itemType = other ∧ segment = Path.topField field := by
  rw [covers_eq, covers_eq, addField_selection]
  split
  · rename_i same
    subst same
    simp only [FieldSelection.covers, SortedSet.contains, Bool.or_eq_true, decide_eq_true_eq,
      SortedSet.mem_insert, true_and]
    rw [or_comm (a := (Path.segments field).headD field = segment), ← or_assoc,
      @eq_comm _ segment, Path.topField]
  · rename_i apart
    simp [Ne.symm apart]

end Reads

namespace Registry

variable (registry : Registry)

/-- The types behind the links that a path crosses, in order, each with what is left of the path
there. -/
def crossings : ItemType → List String → List (ItemType × List String)
  | _, [] => []
  | current, segment :: rest =>
    if segment = Path.wildcard then []
    else
      match registry.linkTarget? current segment with
      | none => []
      | some target => (target, rest) :: crossings target rest

/-- The paths that a type declares, and whether each belongs to a calculated property. -/
def readPaths (itemType : ItemType) : List (Bool × List String) :=
  (registry.embedPaths itemType).map (fun path => (false, Path.segments path)) ++
    ((registry.calculated itemType).flatMap CalculatedField.dependsOn).map
      fun path => (true, Path.segments path)

/-- Some path of a type crosses links to another type and takes the field there. -/
def ReadsBehindLinks (dependent changed : ItemType) (field : String) : Prop :=
  ∃ path ∈ registry.readPaths dependent, ∃ place ∈ registry.crossings dependent path.2,
    place.1 = changed ∧ Path.Takes path.1 field place.2

/-- Some path of a type takes the field from the type itself, before it crosses a link. -/
def ReadsOwn (itemType : ItemType) (field : String) : Prop :=
  ∃ path ∈ registry.readPaths itemType, Path.Takes path.1 field path.2

instance (dependent changed : ItemType) (field : String) :
    Decidable (registry.ReadsBehindLinks dependent changed field) :=
  inferInstanceAs (Decidable (∃ path ∈ registry.readPaths dependent, _))

instance (itemType : ItemType) (field : String) : Decidable (registry.ReadsOwn itemType field) :=
  inferInstanceAs (Decidable (∃ path ∈ registry.readPaths itemType, _))

/-- A path takes the field from its own type, or from one behind the links that it crosses. -/
def TakesAlong (calculated : Bool) (current : ItemType) (path : List String) (other : ItemType)
    (field : String) : Prop :=
  current = other ∧ Path.Takes calculated field path ∨
    ∃ place ∈ registry.crossings current path,
      place.1 = other ∧ Path.Takes calculated field place.2

variable {registry} {reads : Reads} {other : ItemType} {field : String}

theorem takesAlong_link {calculated : Bool} {current target : ItemType} {segment : String}
    {rest : List String} (named : segment ≠ Path.wildcard)
    (declared : registry.linkTarget? current segment = some target) :
    registry.TakesAlong calculated current (segment :: rest) other field ↔
      current = other ∧ segment = Path.topField field ∨
        registry.TakesAlong calculated target rest other field := by
  simp [TakesAlong, crossings, Path.Takes, named, declared]

/-- Following a path adds what it takes. -/
theorem covers_follow_iff (calculated : Bool) (current : ItemType) {path : List String}
    (longer : path ≠ []) (reads : Reads) :
    (registry.follow calculated current path reads).covers other field = true ↔
      reads.covers other field = true ∨
        registry.TakesAlong calculated current path other field := by
  induction path generalizing current reads with
  | nil => exact absurd rfl longer
  | cons segment rest ih =>
    rw [follow]
    by_cases wild : segment = Path.wildcard
    · simp [TakesAlong, crossings, Path.Takes, wild, Reads.covers_addAll_iff]
    · rw [if_neg wild]
      cases declared : registry.linkTarget? current segment with
      | none =>
        simp [TakesAlong, crossings, Path.Takes, wild, declared, Reads.covers_addField_iff]
      | some target =>
        dsimp only
        -- The property is taken first; a mark on the target adds nothing to what is read.
        have here : (if calculated then (reads.addField current segment).addCalculated target
              else reads.addField current segment).covers other field = true ↔
            reads.covers other field = true ∨
              current = other ∧ segment = Path.topField field := by
          have taken := reads.covers_addField_iff current other field segment
          split <;> exact taken
        generalize (if calculated then (reads.addField current segment).addCalculated target
          else reads.addField current segment) = grown at here
        have behind : (if rest = [] then (if calculated then grown.addAll target else grown)
              else registry.follow calculated target rest grown).covers other field = true ↔
            grown.covers other field = true ∨
              registry.TakesAlong calculated target rest other field := by
          by_cases last : rest = []
          · subst last
            cases calculated <;>
              simp [TakesAlong, crossings, Path.Takes, Reads.covers_addAll_iff]
          · rw [if_neg last]
            exact ih target last grown
        rw [behind, here, takesAlong_link wild declared, or_assoc]

theorem covers_followAll_iff (calculated : Bool) (itemType : ItemType) (paths : List String)
    (reads : Reads) :
    (registry.followAll calculated itemType paths reads).covers other field = true ↔
      reads.covers other field = true ∨ ∃ path ∈ paths,
        registry.TakesAlong calculated itemType (Path.segments path) other field :=
  foldl_iff_or (fun reads : Reads => reads.covers other field = true)
    (fun path _ => covers_follow_iff calculated itemType (Path.segments_ne_nil path)) reads

theorem exists_readPath_iff (itemType : ItemType) (P : Bool × List String → Prop) :
    (∃ path ∈ registry.readPaths itemType, P path) ↔
      (∃ path ∈ registry.embedPaths itemType, P (false, Path.segments path)) ∨
        ∃ path ∈ (registry.calculated itemType).flatMap CalculatedField.dependsOn,
          P (true, Path.segments path) := by
  constructor
  · rintro ⟨path, listed, holds⟩
    rcases List.mem_append.mp listed with embedded | calculated
    · obtain ⟨text, inside, rfl⟩ := List.mem_map.mp embedded
      exact Or.inl ⟨text, inside, holds⟩
    · obtain ⟨text, inside, rfl⟩ := List.mem_map.mp calculated
      exact Or.inr ⟨text, inside, holds⟩
  · rintro (⟨text, inside, holds⟩ | ⟨text, inside, holds⟩)
    · exact ⟨_, List.mem_append_left _ (List.mem_map_of_mem inside), holds⟩
    · exact ⟨_, List.mem_append_right _ (List.mem_map_of_mem inside), holds⟩

/-- The reads of a type cover a field exactly when one of its paths takes it, behind the links that
the path crosses or as a property of the type itself. -/
theorem covers_reads_iff {itemType : ItemType} (found : registry.reads? itemType = some reads) :
    reads.covers other field = true ↔
      registry.ReadsBehindLinks itemType other field ∨
        other = itemType ∧ registry.ReadsOwn itemType field := by
  have along : (∃ path ∈ registry.readPaths itemType,
        registry.TakesAlong path.1 itemType path.2 other field) ↔
      registry.ReadsBehindLinks itemType other field ∨
        other = itemType ∧ registry.ReadsOwn itemType field := by
    simp only [TakesAlong, ReadsBehindLinks, ReadsOwn, and_or_left, exists_or]
    rw [or_comm, @eq_comm _ itemType other]
    simp only [and_left_comm (b := other = itemType), exists_and_left]
  rw [← along, exists_readPath_iff]
  unfold reads? at found
  unfold embedPaths Registry.calculated
  cases declared : registry.get? itemType with
  | none =>
    rw [declared] at found
    cases found
  | some decl =>
    rw [declared] at found
    cases found
    have unread : ¬ Reads.nothing.covers other field = true := Bool.false_ne_true
    rw [covers_followAll_iff, covers_followAll_iff, or_iff_right unread]

end Registry

end CachedViews
