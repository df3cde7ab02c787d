/-!
Finite sets kept as strictly increasing lists. Equal sets are equal values, and
`toList` reads a set in its order.
-/
namespace CachedViews

structure SortedSet (K : Type) [Ord K] where
  toList : List K
  sorted : toList.Pairwise fun a b => compare a b = .lt

namespace SortedSet

variable {K : Type} [Ord K]

def insertMember (member : K) : List K → List K
  | [] => [member]
  | first :: rest =>
    match compare member first with
    | .lt => member :: first :: rest
    | .eq => member :: rest
    | .gt => first :: insertMember member rest

theorem mem_of_mem_insertMember {a member : K} {members : List K}
    (inside : a ∈ insertMember member members) : a = member ∨ a ∈ members := by
  induction members with
  | nil => simpa [insertMember] using inside
  | cons first rest ih =>
    simp only [insertMember] at inside
    split at inside
    · simpa using inside
    · exact (List.mem_cons.mp inside).imp_right (List.mem_cons_of_mem _)
    · rcases List.mem_cons.mp inside with same | deeper
      · exact Or.inr (by simp [same])
      · exact (ih deeper).imp_right (List.mem_cons_of_mem _)

theorem sorted_insertMember [Std.TransOrd K] (member : K) {members : List K}
    (sorted : members.Pairwise fun a b => compare a b = .lt) :
    (insertMember member members).Pairwise fun a b => compare a b = .lt := by
  induction members with
  | nil => simp [insertMember]
  | cons first rest ih =>
    obtain ⟨above, tail⟩ := List.pairwise_cons.mp sorted
    simp only [insertMember]
    split
    · rename_i less
      refine List.pairwise_cons.mpr ⟨fun a inside => ?_, sorted⟩
      rcases List.mem_cons.mp inside with same | deeper
      · simpa [same] using less
      · exact Std.TransCmp.lt_trans less (above a deeper)
    · rename_i equal
      exact List.pairwise_cons.mpr
        ⟨fun a deeper => Std.TransCmp.lt_of_eq_of_lt equal (above a deeper), tail⟩
    · rename_i greater
      refine List.pairwise_cons.mpr ⟨fun a inside => ?_, ih tail⟩
      rcases mem_of_mem_insertMember inside with same | deeper
      · simpa [same] using Std.OrientedCmp.lt_of_gt greater
      · exact above a deeper

theorem mem_insertMember [Std.LawfulEqOrd K] {a member : K} {members : List K} :
    a ∈ insertMember member members ↔ a = member ∨ a ∈ members := by
  refine ⟨mem_of_mem_insertMember, fun either => ?_⟩
  induction members with
  | nil => simpa [insertMember] using either
  | cons first rest ih =>
    simp only [insertMember]
    split
    · simpa using either
    · rename_i equal
      have same := Std.LawfulEqCmp.eq_of_compare equal
      rw [same] at either ⊢
      rcases either with here | deeper
      · exact here ▸ List.mem_cons_self
      · exact deeper
    · rcases either with here | deeper
      · exact List.mem_cons_of_mem _ (ih (Or.inl here))
      · rcases List.mem_cons.mp deeper with here | deeper
        · exact here ▸ List.mem_cons_self
        · exact List.mem_cons_of_mem _ (ih (Or.inr deeper))

instance [DecidableEq K] : DecidableEq (SortedSet K) := fun a b =>
  decidable_of_iff (a.toList = b.toList)
    ⟨fun same => by cases a; cases b; simp_all, fun same => by rw [same]⟩

def empty : SortedSet K := ⟨[], List.Pairwise.nil⟩

instance : EmptyCollection (SortedSet K) := ⟨empty⟩

instance : Inhabited (SortedSet K) := ⟨empty⟩

instance : Membership K (SortedSet K) := ⟨fun set a => a ∈ set.toList⟩

instance [DecidableEq K] (a : K) (set : SortedSet K) : Decidable (a ∈ set) :=
  inferInstanceAs (Decidable (a ∈ set.toList))

def contains [DecidableEq K] (set : SortedSet K) (a : K) : Bool := decide (a ∈ set)

def insert [Std.TransOrd K] (set : SortedSet K) (a : K) : SortedSet K :=
  ⟨insertMember a set.toList, sorted_insertMember a set.sorted⟩

def filter (keep : K → Bool) (set : SortedSet K) : SortedSet K :=
  ⟨set.toList.filter keep, List.Pairwise.sublist List.filter_sublist set.sorted⟩

def erase [DecidableEq K] (set : SortedSet K) (a : K) : SortedSet K :=
  set.filter fun b => decide (b ≠ a)

def insertMany [Std.TransOrd K] (set : SortedSet K) (members : List K) : SortedSet K :=
  members.foldl insert set

def ofList [Std.TransOrd K] (members : List K) : SortedSet K := insertMany empty members

def union [Std.TransOrd K] (a b : SortedSet K) : SortedSet K := a.insertMany b.toList

def diff [DecidableEq K] (a b : SortedSet K) : SortedSet K :=
  a.filter fun member => decide (member ∉ b)

def size (set : SortedSet K) : Nat := set.toList.length

def isEmpty (set : SortedSet K) : Bool := set.toList.isEmpty

theorem mem_def {a : K} {set : SortedSet K} : a ∈ set ↔ a ∈ set.toList := Iff.rfl

@[simp] theorem not_mem_empty (a : K) : a ∉ (empty : SortedSet K) := by
  simp [mem_def, empty]

@[simp] theorem mem_insert [Std.TransOrd K] [Std.LawfulEqOrd K] {a b : K} {set : SortedSet K} :
    a ∈ set.insert b ↔ a = b ∨ a ∈ set := mem_insertMember

@[simp] theorem mem_filter {a : K} {keep : K → Bool} {set : SortedSet K} :
    a ∈ set.filter keep ↔ a ∈ set ∧ keep a = true := List.mem_filter

@[simp] theorem mem_erase [DecidableEq K] {a b : K} {set : SortedSet K} :
    a ∈ set.erase b ↔ a ∈ set ∧ a ≠ b := by
  simp [erase]

@[simp] theorem mem_insertMany [Std.TransOrd K] [Std.LawfulEqOrd K] {a : K} {members : List K}
    {set : SortedSet K} : a ∈ set.insertMany members ↔ a ∈ set ∨ a ∈ members := by
  induction members generalizing set with
  | nil => simp [insertMany]
  | cons first rest ih =>
    have step : set.insertMany (first :: rest) = (set.insert first).insertMany rest := rfl
    rw [step, ih, mem_insert, List.mem_cons]
    constructor
    · rintro ((here | inside) | later)
      · exact Or.inr (Or.inl here)
      · exact Or.inl inside
      · exact Or.inr (Or.inr later)
    · rintro (inside | here | later)
      · exact Or.inl (Or.inr inside)
      · exact Or.inl (Or.inl here)
      · exact Or.inr later

@[simp] theorem mem_ofList [Std.TransOrd K] [Std.LawfulEqOrd K] {a : K} {members : List K} :
    a ∈ ofList members ↔ a ∈ members := by
  simp [ofList]

@[simp] theorem mem_union [Std.TransOrd K] [Std.LawfulEqOrd K] {a : K} {left right : SortedSet K} :
    a ∈ left.union right ↔ a ∈ left ∨ a ∈ right := mem_insertMany

@[simp] theorem mem_diff [DecidableEq K] {a : K} {left right : SortedSet K} :
    a ∈ left.diff right ↔ a ∈ left ∧ a ∉ right := by
  simp [diff]

end SortedSet

end CachedViews
