import CachedViews.Proofs.Registry.Grammar
import CachedViews.Registry.Reads

/-!
What the reads of a type cover: every property that one of its paths goes through, and all
properties of an entity that a path ends on with a wildcard or, when calculated, with a link.
-/
namespace CachedViews

namespace Reads

variable {reads more : Reads} {itemType other : ItemType} {field : String}

theorem covers_eq (reads : Reads) (itemType : ItemType) (field : String) :
    reads.covers itemType field = (reads.selection itemType).covers field := by
  unfold covers selection SortedMap.getD
  cases reads.byType.get? itemType with
  | none => simp [FieldSelection.covers, FieldSelection.nothing, SortedSet.contains]
  | some selection => rfl

/-- All properties of a type are read. -/
def CoversAll (reads : Reads) (itemType : ItemType) : Prop :=
  ∀ field, reads.covers itemType field = true

/-- Everything that one covers the other covers. -/
def Within (reads more : Reads) : Prop :=
  ∀ itemType field, reads.covers itemType field = true → more.covers itemType field = true

theorem Within.refl (reads : Reads) : reads.Within reads := fun _ _ covered => covered

theorem Within.trans {most : Reads} (first : reads.Within more) (second : more.Within most) :
    reads.Within most := fun itemType field covered => second _ _ (first itemType field covered)

theorem Within.coversAll (within : reads.Within more) (all : reads.CoversAll itemType) :
    more.CoversAll itemType := fun field => within _ _ (all field)

theorem addAll_selection (reads : Reads) (itemType other : ItemType) :
    (reads.addAll itemType).selection other =
      if other = itemType then { reads.selection itemType with all := true }
      else reads.selection other := by
  simp only [addAll, selection, SortedMap.getD, SortedMap.get?_insert_eq]
  split <;> rfl

theorem addField_selection (reads : Reads) (itemType other : ItemType) (field : String) :
    (reads.addField itemType field).selection other =
      if other = itemType then
        { reads.selection itemType with fields := (reads.selection itemType).fields.insert field }
      else reads.selection other := by
  simp only [addField, selection, SortedMap.getD, SortedMap.get?_insert_eq]
  split <;> rfl

theorem within_addAll (reads : Reads) (itemType : ItemType) : reads.Within (reads.addAll itemType) := by
  intro other field covered
  rw [covers_eq] at covered ⊢
  rw [addAll_selection]
  split
  · simp [FieldSelection.covers]
  · exact covered

theorem coversAll_addAll (reads : Reads) (itemType : ItemType) :
    (reads.addAll itemType).CoversAll itemType := by
  intro field
  rw [covers_eq, addAll_selection, if_pos rfl]
  simp [FieldSelection.covers]

theorem within_addField (reads : Reads) (itemType : ItemType) (field : String) :
    reads.Within (reads.addField itemType field) := by
  intro other name covered
  rw [covers_eq] at covered ⊢
  rw [addField_selection]
  split
  · rename_i same
    subst same
    simp only [FieldSelection.covers, SortedSet.contains, Bool.or_eq_true, decide_eq_true_eq,
      SortedSet.mem_insert] at covered ⊢
    exact covered.imp_right Or.inr
  · exact covered

theorem covers_addField (reads : Reads) (itemType : ItemType)
    (single : Path.segments field = [field]) :
    (reads.addField itemType field).covers itemType field = true := by
  rw [covers_eq, addField_selection, if_pos rfl]
  simp [FieldSelection.covers, SortedSet.contains, single]

theorem within_addCalculated (reads : Reads) (itemType : ItemType) :
    reads.Within (reads.addCalculated itemType) := fun _ _ covered => covered

end Reads

namespace Registry

theorem Built.wildcardLast {registry : Registry} (built : Built registry) {itemType : ItemType}
    {path : String} (listed : path ∈ registry.embedPaths itemType) :
    Path.WildcardLast (Path.segments path) := by
  unfold embedPaths at listed
  cases found : registry.get? itemType with
  | none =>
    rw [found] at listed
    cases listed
  | some decl =>
    rw [found] at listed
    exact Path.wildcardLast_of_wellFormed
      (built.wellFormed found (List.mem_append_left _ listed))

variable (registry : Registry)

/-- Every property along a path is read, type by type. -/
def Covers (reads : Reads) (calculated : Bool) : ItemType → List String → Prop
  | _, [] => True
  | current, segment :: rest =>
    if segment = Path.wildcard then reads.CoversAll current
    else
      reads.covers current segment = true ∧
        ∀ target, registry.linkTarget? current segment = some target →
          (calculated = true → rest = [] → reads.CoversAll target) ∧ Covers reads calculated target rest

variable {registry} {reads more : Reads} {calculated : Bool}

theorem Covers.mono (within : reads.Within more) {current : ItemType} {path : List String}
    (covered : registry.Covers reads calculated current path) :
    registry.Covers more calculated current path := by
  induction path generalizing current with
  | nil => trivial
  | cons segment rest ih =>
    rw [Covers] at covered ⊢
    split
    · rename_i wild
      rw [if_pos wild] at covered
      exact within.coversAll covered
    · rename_i named
      rw [if_neg named] at covered
      refine ⟨within _ _ covered.1, fun target declared => ?_⟩
      obtain ⟨whole, below⟩ := covered.2 target declared
      exact ⟨fun isCalculated last => within.coversAll (whole isCalculated last), ih below⟩

theorem within_follow (calculated : Bool) (current : ItemType) (path : List String)
    (reads : Reads) : reads.Within (registry.follow calculated current path reads) := by
  induction path generalizing current reads with
  | nil => exact .refl _
  | cons segment rest ih =>
    rw [follow]
    split
    · exact reads.within_addAll current
    · apply (reads.within_addField current segment).trans
      cases registry.linkTarget? current segment with
      | none => exact .refl _
      | some target =>
        dsimp only
        have marked : (reads.addField current segment).Within
            (if calculated then (reads.addField current segment).addCalculated target
              else reads.addField current segment) := by
          split
          · exact Reads.within_addCalculated _ _
          · exact .refl _
        -- The mark on the target covers nothing by itself; from here on any reads will do.
        apply marked.trans
        generalize (if calculated then (reads.addField current segment).addCalculated target
          else reads.addField current segment) = grown
        by_cases last : rest = []
        · rw [if_pos last]
          split
          · exact Reads.within_addAll _ _
          · exact .refl _
        · rw [if_neg last]
          exact ih target _

/-- Following a path reads every property along it. -/
theorem covers_follow (calculated : Bool) (current : ItemType) (path : List String)
    (reads : Reads) (single : ∀ segment ∈ path, Path.segments segment = [segment]) :
    registry.Covers (registry.follow calculated current path reads) calculated current path := by
  induction path generalizing current reads with
  | nil => trivial
  | cons segment rest ih =>
    have here := single segment List.mem_cons_self
    have below := fun target reads => ih target reads fun later listed =>
      single later (List.mem_cons_of_mem _ listed)
    rw [Covers]
    split
    · rename_i wild
      rw [follow, if_pos wild]
      exact reads.coversAll_addAll current
    · rename_i named
      rw [follow, if_neg named]
      cases declared : registry.linkTarget? current segment with
      | none =>
        exact ⟨reads.covers_addField current here, fun target found => by cases found⟩
      | some target =>
        dsimp only
        -- The step is read when it is added; what is followed after it only adds to the reads.
        constructor
        · have start := reads.covers_addField current here
          cases calculated with
          | false =>
            simp only [Bool.false_eq_true, ↓reduceIte]
            split
            · exact start
            · exact within_follow _ _ _ _ _ _ start
          | true =>
            simp only [↓reduceIte]
            split
            · exact Reads.within_addAll _ _ _ _ start
            · exact within_follow _ _ _ _ _ _ start
        · intro same found
          cases found
          constructor
          · intro isCalculated last
            subst isCalculated last
            simp only [↓reduceIte]
            exact Reads.coversAll_addAll _ _
          · split
            · rename_i last
              rw [last]
              trivial
            · exact below target _

theorem within_followAll (calculated : Bool) (itemType : ItemType) (paths : List String)
    (reads : Reads) : reads.Within (registry.followAll calculated itemType paths reads) := by
  induction paths generalizing reads with
  | nil => exact .refl _
  | cons path rest ih => exact (within_follow _ _ _ _).trans (ih _)

theorem covers_followAll (calculated : Bool) (itemType : ItemType) (paths : List String)
    (reads : Reads) {path : String} (listed : path ∈ paths) :
    registry.Covers (registry.followAll calculated itemType paths reads) calculated itemType
      (Path.segments path) := by
  induction paths generalizing reads with
  | nil => cases listed
  | cons first rest ih =>
    rcases List.mem_cons.mp listed with rfl | later
    · exact (covers_follow _ _ _ _ fun segment inside => Path.segments_of_segment inside).mono
        (within_followAll _ _ _ _)
    · exact ih _ later

/-- The reads of a type cover its embed paths and its calculated dependencies. -/
theorem covers_reads {itemType : ItemType} (found : registry.reads? itemType = some reads) :
    (∀ path ∈ registry.embedPaths itemType,
        registry.Covers reads false itemType (Path.segments path)) ∧
      ∀ path ∈ (registry.calculated itemType).flatMap CalculatedField.dependsOn,
        registry.Covers reads true itemType (Path.segments path) := by
  unfold reads? at found
  unfold embedPaths Registry.calculated
  cases declared : registry.get? itemType with
  | none =>
    rw [declared] at found
    cases found
  | some decl =>
    rw [declared] at found
    cases found
    exact ⟨fun path listed => (covers_followAll _ _ _ _ listed).mono (within_followAll _ _ _ _),
      fun path listed => covers_followAll _ _ _ _ listed⟩

end Registry

end CachedViews
