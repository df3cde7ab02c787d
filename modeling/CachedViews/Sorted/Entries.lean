/-!
Entry lists: lists of key-value pairs in strictly increasing key order. The
operations keep that order, and reading after writing obeys the laws of a
finite map. JSON objects hold entry lists directly; `SortedMap` bundles one
with its order.
-/
namespace CachedViews

namespace Entries

variable {K V W : Type} [Ord K]

def Sorted (entries : List (K × V)) : Prop :=
  entries.Pairwise fun a b => compare a.1 b.1 = .lt

def get? (key : K) : List (K × V) → Option V
  | [] => none
  | (k, v) :: rest => if compare key k = .eq then some v else get? key rest

/-- Writes one entry, replacing what the key held before. -/
def insert (key : K) (value : V) : List (K × V) → List (K × V)
  | [] => [(key, value)]
  | (k, v) :: rest =>
    match compare key k with
    | .lt => (key, value) :: (k, v) :: rest
    | .eq => (key, value) :: rest
    | .gt => (k, v) :: insert key value rest

def erase (key : K) (entries : List (K × V)) : List (K × V) :=
  entries.filter fun entry => compare key entry.1 ≠ .eq

def ofList (pairs : List (K × V)) : List (K × V) :=
  pairs.foldl (fun entries pair => insert pair.1 pair.2 entries) []

theorem sorted_nil : Sorted ([] : List (K × V)) := List.Pairwise.nil

theorem mem_insert {key : K} {value : V} {entry : K × V} {entries : List (K × V)}
    (member : entry ∈ insert key value entries) : entry = (key, value) ∨ entry ∈ entries := by
  induction entries with
  | nil => simpa [insert] using member
  | cons first rest ih =>
    simp only [insert] at member
    split at member
    · simpa using member
    · rcases List.mem_cons.mp member with same | inside
      · exact Or.inl same
      · exact Or.inr (List.mem_cons_of_mem _ inside)
    · rcases List.mem_cons.mp member with same | inside
      · exact Or.inr (by simp [same])
      · exact (ih inside).imp_right (List.mem_cons_of_mem _)

theorem sorted_insert [Std.TransOrd K] (key : K) (value : V) {entries : List (K × V)}
    (sorted : Sorted entries) : Sorted (insert key value entries) := by
  induction entries with
  | nil => simp [insert, Sorted]
  | cons first rest ih =>
    obtain ⟨above, tail⟩ := List.pairwise_cons.mp sorted
    simp only [insert]
    split
    · rename_i less
      refine List.pairwise_cons.mpr ⟨fun entry member => ?_, sorted⟩
      rcases List.mem_cons.mp member with same | inside
      · simpa [same] using less
      · exact Std.TransCmp.lt_trans less (above entry inside)
    · rename_i equal
      exact List.pairwise_cons.mpr
        ⟨fun entry inside => Std.TransCmp.lt_of_eq_of_lt equal (above entry inside), tail⟩
    · rename_i greater
      refine List.pairwise_cons.mpr ⟨fun entry member => ?_, ih tail⟩
      rcases mem_insert member with same | inside
      · simpa [same] using Std.OrientedCmp.lt_of_gt greater
      · exact above entry inside

theorem sorted_erase (key : K) {entries : List (K × V)} (sorted : Sorted entries) :
    Sorted (erase key entries) :=
  List.Pairwise.sublist List.filter_sublist sorted

theorem sorted_ofList [Std.TransOrd K] (pairs : List (K × V)) : Sorted (ofList pairs) := by
  suffices h : ∀ entries : List (K × V), Sorted entries →
      Sorted (pairs.foldl (fun entries pair => insert pair.1 pair.2 entries) entries) from
    h [] sorted_nil
  induction pairs with
  | nil => exact fun _ sorted => sorted
  | cons pair rest ih => exact fun entries sorted => ih _ (sorted_insert _ _ sorted)

theorem sorted_map (f : K → V → W) {entries : List (K × V)} (sorted : Sorted entries) :
    Sorted (entries.map fun entry => (entry.1, f entry.1 entry.2)) :=
  List.pairwise_map.mpr sorted

theorem get?_insert [Std.TransOrd K] (key other : K) (value : V) (entries : List (K × V)) :
    get? other (insert key value entries) =
      if compare other key = .eq then some value else get? other entries := by
  induction entries with
  | nil => simp [insert, get?]
  | cons first rest ih =>
    simp only [insert]
    split
    · simp [get?]
    · rename_i equal
      simp only [get?]
      by_cases same : compare other key = .eq
      · simp [same]
      · have apart : compare other first.1 ≠ .eq := fun hit =>
          same (Std.TransCmp.eq_trans hit (Std.OrientedCmp.eq_symm equal))
        simp [same, apart]
    · rename_i greater
      simp only [get?, ih]
      by_cases same : compare other key = .eq
      · have apart : compare other first.1 ≠ .eq := fun hit => by
          have reached := Std.TransCmp.eq_trans (Std.OrientedCmp.eq_symm same) hit
          simp [reached] at greater
        simp [same, apart]
      · simp [same]

theorem get?_filter (keep : K → Bool) (other : K) {entries : List (K × V)}
    (stable : ∀ entry ∈ entries, compare other entry.1 = .eq → keep entry.1 = keep other) :
    get? other (entries.filter fun entry => keep entry.1) =
      if keep other then get? other entries else none := by
  induction entries with
  | nil => simp [get?]
  | cons first rest ih =>
    have tail := ih fun entry inside => stable entry (List.mem_cons_of_mem _ inside)
    have head := stable first List.mem_cons_self
    simp only [List.filter_cons]
    by_cases hit : compare other first.1 = .eq
    · by_cases kept : keep other = true
      · simp [head hit, kept, get?, hit]
      · simpa [head hit, kept, get?, hit] using tail
    · by_cases kept : keep first.1 = true <;> simp [kept, get?, hit, tail]

theorem get?_erase [Std.TransOrd K] (key other : K) (entries : List (K × V)) :
    get? other (erase key entries) =
      if compare other key = .eq then none else get? other entries := by
  have agree : ∀ k, compare other k = .eq →
      (decide (compare key k ≠ .eq)) = decide (compare key other ≠ .eq) := fun k hit => by
    have same : compare key k = .eq ↔ compare key other = .eq :=
      ⟨fun h => Std.TransCmp.eq_trans h (Std.OrientedCmp.eq_symm hit),
        fun h => Std.TransCmp.eq_trans h hit⟩
    simp [same]
  rw [erase, get?_filter (fun k => decide (compare key k ≠ .eq)) other fun entry _ => agree entry.1]
  have turned : compare key other = .eq ↔ compare other key = .eq :=
    ⟨Std.OrientedCmp.eq_symm, Std.OrientedCmp.eq_symm⟩
  by_cases same : compare other key = .eq <;> simp [turned, same]

theorem mem_of_get? [Std.LawfulEqOrd K] {key : K} {value : V} {entries : List (K × V)}
    (found : get? key entries = some value) : (key, value) ∈ entries := by
  induction entries with
  | nil => simp [get?] at found
  | cons first rest ih =>
    simp only [get?] at found
    split at found
    · rename_i same
      cases Std.LawfulEqCmp.eq_of_compare same
      cases found
      exact List.mem_cons_self
    · exact List.mem_cons_of_mem _ (ih found)

theorem get?_of_mem [Std.TransOrd K] {key : K} {value : V} {entries : List (K × V)}
    (sorted : Sorted entries) (member : (key, value) ∈ entries) :
    get? key entries = some value := by
  induction entries with
  | nil => cases member
  | cons first rest ih =>
    obtain ⟨above, tail⟩ := List.pairwise_cons.mp sorted
    rcases List.mem_cons.mp member with same | inside
    · subst same
      simp [get?, Std.ReflCmp.compare_self]
    · have less := above _ inside
      have apart : compare key first.1 ≠ .eq := fun hit => by
        simp [Std.OrientedCmp.eq_symm hit] at less
      simpa [get?, apart] using ih tail inside

end Entries

end CachedViews
