import CachedViews.Sorted.Keys
import CachedViews.Sorted.Map
import CachedViews.Sorted.Set

/-!
Sorted entry lists, maps and sets are determined by what they hold: equal look-ups give
equal entry lists, and equal members give equal sets. What is made member by member holds what
each of them brings and leaves.
-/
namespace CachedViews

variable {K V W : Type} [Ord K]

theorem compare_eq_iff [Std.TransOrd K] [Std.LawfulEqOrd K] {a b : K} :
    compare a b = .eq ↔ a = b := Std.LawfulEqCmp.compare_eq_iff_eq

theorem compare_pair {A B : Type} [Ord A] [Std.TransOrd A] [Ord B] (first : A) (a b : B) :
    compare (first, a) (first, b) = compare a b := by
  change (compare first first).then (compare a b) = compare a b
  have same : compare first first = .eq := Std.ReflCmp.compare_self
  rw [same, Ordering.eq_then]

/-- Between two pairs with one first part are the pairs with that part. -/
theorem between_pairs {A B : Type} [Ord A] [Std.TransOrd A] [Std.LawfulEqOrd A] [Ord B] (first : A)
    (low high : B) (key : A × B) :
    (compare (first, low) key).isLE = true ∧ (compare key (first, high)).isLE = true ↔
      key.1 = first ∧ (compare low key.2).isLE = true ∧ (compare key.2 high).isLE = true := by
  obtain ⟨part, rest⟩ := key
  by_cases same : part = first
  · subst same
    simp [compare_pair]
  · have leads : ∀ {a b : Ordering}, (a.then b).isLE = true → a.isLE = true := by
      intro a b
      cases a <;> simp [Ordering.then]
    refine iff_of_false ?_ fun both => same both.1
    rintro ⟨below, above⟩
    exact same (Std.LawfulEqOrd.eq_of_compare
      (Std.OrientedCmp.isLE_antisymm (leads above) (leads below)))

/-- A list that increases in one part has every member once. -/
theorem nodup_of_increasing [Std.TransOrd K] {A : Type} (part : A → K) {members : List A}
    (increasing : members.Pairwise fun a b => compare (part a) (part b) = .lt) : members.Nodup :=
  increasing.imp fun {a b} less same => by
    subst same
    simp [Std.ReflCmp.compare_self] at less

/-- Two lists with the same members that both increase in one part are the same list. -/
theorem eq_of_increasing [Std.TransOrd K] {A : Type} (part : A → K) {left right : List A}
    (leftIncreasing : left.Pairwise fun a b => compare (part a) (part b) = .lt)
    (rightIncreasing : right.Pairwise fun a b => compare (part a) (part b) = .lt)
    (same : ∀ a, a ∈ left ↔ a ∈ right) : left = right := by
  have perm : left.Perm right :=
    (List.perm_ext_iff_of_nodup (nodup_of_increasing part leftIncreasing)
      (nodup_of_increasing part rightIncreasing)).mpr same
  -- The same members in the same strict order.
  refine perm.eq_of_pairwise ?_ leftIncreasing rightIncreasing
  intro a b _ _ ab ba
  have less := Std.TransCmp.lt_trans ab ba
  simp [Std.ReflCmp.compare_self] at less

section Folds

variable {State Member : Type} {step : State → Member → State} {members : List Member}

/-- Where every step adds what its member brings, the whole fold adds what all of them bring. -/
theorem foldl_iff_or (holds : State → Prop) {brings : Member → Prop}
    (each : ∀ member ∈ members, ∀ state,
      holds (step state member) ↔ holds state ∨ brings member) (start : State) :
    holds (members.foldl step start) ↔ holds start ∨ ∃ member ∈ members, brings member := by
  induction members generalizing start with
  | nil => simp
  | cons first rest ih =>
    obtain ⟨here, later⟩ := List.forall_mem_cons.mp each
    rw [List.foldl_cons, ih later, here, or_assoc]
    simp only [List.mem_cons, exists_eq_or_imp]

/-- Where every step leaves what its member leaves, the whole fold leaves what all of them leave. -/
theorem foldl_iff_and (holds : State → Prop) {leaves : Member → Prop}
    (each : ∀ member ∈ members, ∀ state,
      holds (step state member) ↔ holds state ∧ leaves member) (start : State) :
    holds (members.foldl step start) ↔ holds start ∧ ∀ member ∈ members, leaves member := by
  induction members generalizing start with
  | nil => simp
  | cons first rest ih =>
    obtain ⟨here, later⟩ := List.forall_mem_cons.mp each
    rw [List.foldl_cons, ih later, here, and_assoc, List.forall_mem_cons]

end Folds

namespace Entries

theorem get?_eq_none_of_above [Std.TransOrd K] {key : K} {entries : List (K × V)}
    (above : ∀ entry ∈ entries, compare key entry.1 = .lt) : get? key entries = none := by
  induction entries with
  | nil => rfl
  | cons first rest ih =>
    have less := above first List.mem_cons_self
    simp [get?, less, ih fun entry inside => above entry (List.mem_cons_of_mem _ inside)]

/-- Two sorted entry lists with the same look-ups are the same list. -/
theorem eq_of_get? [Std.TransOrd K] [Std.LawfulEqOrd K] {left right : List (K × V)}
    (leftSorted : Sorted left) (rightSorted : Sorted right)
    (same : ∀ key, get? key left = get? key right) : left = right := by
  have members : ∀ entry, entry ∈ left ↔ entry ∈ right := by
    rintro ⟨key, value⟩
    constructor
    · intro inside
      exact mem_of_get? (same key ▸ get?_of_mem leftSorted inside)
    · intro inside
      exact mem_of_get? ((same key).symm ▸ get?_of_mem rightSorted inside)
  exact eq_of_increasing Prod.fst leftSorted rightSorted members

section Recoding

variable {L : Type} [Ord L] (key : K → L) (value : V → W)

/-- Entries under other keys, with other values. -/
def recode (entries : List (K × V)) : List (L × W) :=
  entries.map fun entry => (key entry.1, value entry.2)

variable {key} (ordered : ∀ a b, compare (key a) (key b) = compare a b)
include ordered

theorem sorted_recode {entries : List (K × V)} (sorted : Sorted entries) :
    Sorted (recode key value entries) := by
  refine List.pairwise_map.mpr (sorted.imp fun {a b} less => ?_)
  exact (ordered a.1 b.1).trans less

theorem get?_recode (wanted : K) (entries : List (K × V)) :
    get? (key wanted) (recode key value entries) = (get? wanted entries).map value := by
  induction entries with
  | nil => rfl
  | cons first rest ih =>
    change get? (key wanted) ((key first.1, value first.2) :: recode key value rest) = _
    rw [get?, get?, ordered, ih]
    split <;> rfl

theorem insert_recode (added : K) (held : V) (entries : List (K × V)) :
    insert (key added) (value held) (recode key value entries) =
      recode key value (insert added held entries) := by
  induction entries with
  | nil => rfl
  | cons first rest ih =>
    change insert _ _ ((key first.1, value first.2) :: recode key value rest) = _
    rw [insert, insert, ordered, ih]
    split <;> rfl

theorem erase_recode (removed : K) (entries : List (K × V)) :
    erase (key removed) (recode key value entries) = recode key value (erase removed entries) := by
  rw [erase, erase, recode, recode, List.filter_map]
  refine congrArg _ (List.filter_congr fun entry _ => ?_)
  simp only [Function.comp_apply, ordered]

end Recoding

theorem get?_map_value (key : K) (change : V → W) (entries : List (K × V)) :
    get? key (entries.map fun entry => (entry.1, change entry.2)) =
      (get? key entries).map change :=
  get?_recode change (fun _ _ => rfl) key entries

/-- Dropping or changing entries by key keeps the order. -/
theorem sorted_filterMap (change : K → V → Option W) {entries : List (K × V)}
    (sorted : Sorted entries) :
    Sorted (entries.filterMap fun entry => (change entry.1 entry.2).map (entry.1, ·)) := by
  refine List.Pairwise.filterMap _ ?_ sorted
  rintro a b less a' madeA b' madeB
  obtain ⟨_, -, rfl⟩ := Option.map_eq_some_iff.mp madeA
  obtain ⟨_, -, rfl⟩ := Option.map_eq_some_iff.mp madeB
  exact less

theorem get?_filterMap [Std.TransOrd K] [Std.LawfulEqOrd K] (key : K)
    (change : K → V → Option W) {entries : List (K × V)} (sorted : Sorted entries) :
    get? key (entries.filterMap fun entry => (change entry.1 entry.2).map (entry.1, ·)) =
      (get? key entries).bind (change key) := by
  induction entries with
  | nil => rfl
  | cons first rest ih =>
    obtain ⟨above, tail⟩ := List.pairwise_cons.mp sorted
    by_cases hit : compare key first.1 = .eq
    · have same := compare_eq_iff.mp hit
      subst same
      have absent : get? first.1 (rest.filterMap fun entry =>
          (change entry.1 entry.2).map (entry.1, ·)) = none := by
        rw [ih tail, get?_eq_none_of_above above]
        rfl
      cases made : change first.1 first.2 with
      | none => simpa [get?, hit, made] using absent
      | some value => simp [get?, made]
    · cases made : change first.1 first.2 with
      | none => simpa [get?, hit, made] using ih tail
      | some value => simpa [get?, hit, made] using ih tail

/-- A key above every other is written at the end. -/
theorem insert_eq_append [Std.TransOrd K] {key : K} {value : V} {entries : List (K × V)}
    (above : ∀ entry ∈ entries, compare entry.1 key = .lt) :
    insert key value entries = entries ++ [(key, value)] := by
  induction entries with
  | nil => rfl
  | cons first rest ih =>
    have less := above first List.mem_cons_self
    have greater : compare key first.1 = .gt := Std.OrientedCmp.gt_of_lt less
    simp [insert, greater, ih fun entry inside => above entry (List.mem_cons_of_mem _ inside)]

theorem length_insert [Std.TransOrd K] (key : K) (value : V) {entries : List (K × V)}
    (sorted : Sorted entries) : (insert key value entries).length =
      if (get? key entries).isSome then entries.length else entries.length + 1 := by
  induction entries with
  | nil => rfl
  | cons first rest ih =>
    obtain ⟨above, tail⟩ := List.pairwise_cons.mp sorted
    simp only [insert]
    split
    · rename_i less
      have absent := get?_eq_none_of_above fun entry inside =>
        Std.TransCmp.lt_trans less (above entry inside)
      simp [get?, less, absent]
    · rename_i equal
      simp [get?, equal]
    · rename_i greater
      simp only [List.length_cons, ih tail, get?, greater, reduceCtorEq, if_false]
      split <;> rfl

theorem length_erase [Std.TransOrd K] (key : K) {entries : List (K × V)}
    (sorted : Sorted entries) : (erase key entries).length =
      if (get? key entries).isSome then entries.length - 1 else entries.length := by
  induction entries with
  | nil => rfl
  | cons first rest ih =>
    obtain ⟨above, tail⟩ := List.pairwise_cons.mp sorted
    have later := ih tail
    simp only [erase, get?, List.filter_cons] at later ⊢
    by_cases hit : compare key first.1 = .eq
    · -- The other keys are above the one that goes.
      have absent := get?_eq_none_of_above fun entry inside =>
        Std.TransCmp.lt_of_eq_of_lt hit (above entry inside)
      simpa [hit, absent] using later
    · simp only [hit, ne_eq, not_false_eq_true, decide_true, if_true, List.length_cons, later,
        if_false]
      cases rest with
      | nil => rfl
      | cons second rest => split <;> rfl

/-- Writing an entry that is dropped afterwards makes no difference. -/
theorem filter_insert [Std.LawfulEqOrd K] {key : K} {keep : K → Bool}
    (dropped : keep key = false) (value : V) (entries : List (K × V)) :
    (insert key value entries).filter (fun entry => keep entry.1) =
      entries.filter fun entry => keep entry.1 := by
  induction entries with
  | nil => simp [insert, dropped]
  | cons first rest ih =>
    simp only [insert]
    cases order : compare key first.1 with
    | lt => simp [dropped]
    | eq =>
      obtain rfl := Std.LawfulEqOrd.eq_of_compare order
      simp [dropped]
    | gt => simp [List.filter_cons, ih]

theorem map_insert (key : K) (value : V) (change : V → W) (entries : List (K × V)) :
    (insert key value entries).map (fun entry => (entry.1, change entry.2)) =
      insert key (change value) (entries.map fun entry => (entry.1, change entry.2)) :=
  (insert_recode change (fun _ _ => rfl) key value entries).symm

end Entries

namespace SortedMap

@[simp] theorem get?_emptyCollection (key : K) : (∅ : SortedMap K V).get? key = none := rfl

theorem entries_injective {left right : SortedMap K V} (same : left.entries = right.entries) :
    left = right := by
  cases left
  cases right
  simpa using same

theorem ext_get? [Std.TransOrd K] [Std.LawfulEqOrd K] {left right : SortedMap K V}
    (same : ∀ key, left.get? key = right.get? key) : left = right :=
  entries_injective (Entries.eq_of_get? left.sorted right.sorted same)

theorem size_insert [Std.TransOrd K] (map : SortedMap K V) (key : K) (value : V) :
    (map.insert key value).size = if (map.get? key).isSome then map.size else map.size + 1 :=
  Entries.length_insert key value map.sorted

theorem size_erase [Std.TransOrd K] (map : SortedMap K V) (key : K) :
    (map.erase key).size = if (map.get? key).isSome then map.size - 1 else map.size :=
  Entries.length_erase key map.sorted

theorem get?_insert_eq [Std.TransOrd K] [Std.LawfulEqOrd K] [DecidableEq K]
    (map : SortedMap K V) (key other : K) (value : V) :
    (map.insert key value).get? other = if other = key then some value else map.get? other := by
  simp only [get?_insert, compare_eq_iff]

/-- Of two values written under one key the second stays. -/
theorem insert_insert [Std.TransOrd K] [Std.LawfulEqOrd K] (map : SortedMap K V) (key : K)
    (first second : V) : (map.insert key first).insert key second = map.insert key second := by
  apply ext_get?
  intro other
  simp only [get?_insert]
  split <;> rfl

theorem get?_erase_eq [Std.TransOrd K] [Std.LawfulEqOrd K] [DecidableEq K]
    (map : SortedMap K V) (key other : K) :
    (map.erase key).get? other = if other = key then none else map.get? other := by
  simp only [get?_erase, compare_eq_iff]

theorem get?_filter_eq [Std.TransOrd K] [Std.LawfulEqOrd K] (map : SortedMap K V) (keep : K → Bool)
    (key : K) :
    (map.filter fun key _ => keep key).get? key = if keep key then map.get? key else none :=
  Entries.get?_filter keep key fun _ _ same => congrArg keep (compare_eq_iff.mp same).symm

theorem mem_between_iff [Std.TransOrd K] [Std.LawfulEqOrd K] (map : SortedMap K V) (low high key : K)
    (value : V) : (key, value) ∈ map.between low high ↔ map.get? key = some value ∧
      (compare low key).isLE = true ∧ (compare key high).isLE = true := by
  simp only [between, List.mem_filter, mem_entries_iff, Bool.and_eq_true]

theorem insertAll_get? [Std.TransOrd K] [Std.LawfulEqOrd K] (value : K → Option V) (keys : List K)
    (start : List (K × V)) (key : K)
    (reached : key ∈ keys ∧ Entries.get? key start = none ∨ Entries.get? key start = value key) :
    Entries.get? key ((keys.filterMap fun key => (value key).map (key, ·)).foldl
        (fun entries pair => Entries.insert pair.1 pair.2 entries) start) = value key := by
  induction keys generalizing start with
  | nil => simpa using reached
  | cons first rest ih =>
    cases found : value first with
    | none =>
      rw [List.filterMap_cons_none (by simp [found])]
      refine ih start (reached.imp_left ?_ |>.elim id Or.inr)
      rintro ⟨listed, absent⟩
      rcases List.mem_cons.mp listed with rfl | later
      · exact Or.inr (absent.trans found.symm)
      · exact Or.inl ⟨later, absent⟩
    | some held =>
      rw [List.filterMap_cons_some (by simp [found]; rfl), List.foldl_cons]
      apply ih _
      rw [Entries.get?_insert]
      by_cases same : key = first
      · subst same
        simp [found, Std.ReflCmp.compare_self]
      · have apart : compare key first ≠ .eq := fun hit => same (compare_eq_iff.mp hit)
        simpa [apart, same] using reached

/-- A map made of the values that a list of keys has. -/
theorem get?_ofList_filterMap [Std.TransOrd K] [Std.LawfulEqOrd K] (value : K → Option V)
    (keys : List K) (key : K) (listed : key ∈ keys) :
    (SortedMap.ofList (keys.filterMap fun key => (value key).map (key, ·))).get? key =
      value key :=
  insertAll_get? value keys [] key (Or.inl ⟨listed, rfl⟩)

theorem get?_foldl_insert [Std.TransOrd K] [Std.LawfulEqOrd K] {key : K} {value : V}
    (pairs start : List (K × V)) (only : ∀ other, (key, other) ∈ pairs → other = value)
    (reached : (key, value) ∈ pairs ∨ Entries.get? key start = some value) :
    Entries.get? key (pairs.foldl (fun entries pair => Entries.insert pair.1 pair.2 entries)
      start) = some value := by
  induction pairs generalizing start with
  | nil => simpa using reached
  | cons first rest ih =>
    rw [List.foldl_cons]
    apply ih _ (fun other listed => only other (List.mem_cons_of_mem _ listed))
    rw [Entries.get?_insert]
    by_cases same : key = first.1
    · right
      rw [if_pos (compare_eq_iff.mpr same)]
      exact congrArg some (only first.2 (same ▸ List.mem_cons_self))
    · rw [if_neg fun hit => same (compare_eq_iff.mp hit)]
      rcases reached with listed | held
      · rcases List.mem_cons.mp listed with here | later
        · exact absurd (congrArg Prod.fst here) same
        · exact Or.inl later
      · exact Or.inr held

/-- A map made of pairs holds each pair whose key has no other value. -/
theorem get?_ofList_of_mem [Std.TransOrd K] [Std.LawfulEqOrd K] {key : K} {value : V}
    {pairs : List (K × V)} (listed : (key, value) ∈ pairs)
    (only : ∀ other, (key, other) ∈ pairs → other = value) :
    (SortedMap.ofList pairs).get? key = some value :=
  get?_foldl_insert pairs [] only (Or.inl listed)

/-- A map made of pairs holds nothing else. -/
theorem mem_of_mem_ofList [Std.TransOrd K] {entry : K × V} {pairs : List (K × V)}
    (inside : entry ∈ (SortedMap.ofList pairs).entries) : entry ∈ pairs := by
  suffices fold : ∀ start : List (K × V),
      entry ∈ pairs.foldl (fun entries pair => Entries.insert pair.1 pair.2 entries) start →
        entry ∈ pairs ∨ entry ∈ start from
    (fold [] inside).resolve_right List.not_mem_nil
  clear inside
  induction pairs with
  | nil => exact fun start listed => Or.inr listed
  | cons first rest ih =>
    intro start listed
    rcases ih _ listed with later | placed
    · exact Or.inl (List.mem_cons_of_mem _ later)
    · rcases Entries.mem_insert placed with rfl | before
      · exact Or.inl List.mem_cons_self
      · exact Or.inr before

theorem nodup_entries [Std.TransOrd K] (map : SortedMap K V) : map.entries.Nodup :=
  nodup_of_increasing Prod.fst map.sorted

/-- A map made of distinct pairs, of which no two have one key, holds those pairs. -/
theorem entries_ofList_perm [Std.TransOrd K] [Std.LawfulEqOrd K] {pairs : List (K × V)}
    (distinct : pairs.Nodup)
    (single : ∀ key left right, (key, left) ∈ pairs → (key, right) ∈ pairs → left = right) :
    (ofList pairs).entries.Perm pairs := by
  apply (List.perm_ext_iff_of_nodup (nodup_entries _) distinct).mpr
  rintro ⟨key, value⟩
  refine ⟨mem_of_mem_ofList, fun listed => ?_⟩
  rw [mem_entries_iff]
  exact get?_ofList_of_mem listed fun other also => single key other value also listed

theorem keys_sorted (map : SortedMap K V) : map.keys.Pairwise fun a b => compare a b = .lt :=
  List.pairwise_map.mpr map.sorted

theorem nodup_keys [Std.TransOrd K] (map : SortedMap K V) : map.keys.Nodup :=
  nodup_of_increasing id map.keys_sorted

/-- Entries written one after the other, each key once. -/
theorem get?_insertEach [Std.TransOrd K] [Std.LawfulEqOrd K] {pairs : List (K × V)}
    (sorted : Entries.Sorted pairs) (map : SortedMap K V) (key : K) :
    (pairs.foldl (fun map pair => map.insert pair.1 pair.2) map).get? key =
      (Entries.get? key pairs).or (map.get? key) := by
  induction pairs generalizing map with
  | nil => rfl
  | cons first rest ih =>
    obtain ⟨above, tail⟩ := List.pairwise_cons.mp sorted
    rw [List.foldl_cons, ih tail, get?_insert]
    by_cases same : compare key first.1 = .eq
    · cases compare_eq_iff.mp same
      simp [Entries.get?, Entries.get?_eq_none_of_above above]
    · simp [Entries.get?, same]

section Keys

variable [Std.TransOrd K] [Std.LawfulEqOrd K] [DecidableEq K]

theorem entries_insert_perm {map : SortedMap K V} {key : K} (value : V)
    (free : map.get? key = none) :
    (map.insert key value).entries.Perm ((key, value) :: map.entries) := by
  have unlisted : (key, value) ∉ map.entries := fun inside => by
    have held := (map.mem_entries_iff key value).mp inside
    rw [free] at held
    cases held
  refine (List.perm_ext_iff_of_nodup (nodup_entries _)
    (List.nodup_cons.mpr ⟨unlisted, nodup_entries map⟩)).mpr ?_
  rintro ⟨other, held⟩
  rw [List.mem_cons, mem_entries_iff, mem_entries_iff, get?_insert_eq, Prod.mk.injEq]
  by_cases same : other = key
  · subst same
    simp [free, eq_comm]
  · simp [same]

theorem entries_erase_perm {map : SortedMap K V} {key : K} {value : V}
    (found : map.get? key = some value) :
    map.entries.Perm ((key, value) :: (map.erase key).entries) := by
  have unlisted : (key, value) ∉ (map.erase key).entries := fun inside => by
    have held := ((map.erase key).mem_entries_iff key value).mp inside
    rw [get?_erase_eq, if_pos rfl] at held
    cases held
  refine (List.perm_ext_iff_of_nodup (nodup_entries map)
    (List.nodup_cons.mpr ⟨unlisted, nodup_entries _⟩)).mpr ?_
  rintro ⟨other, held⟩
  rw [List.mem_cons, mem_entries_iff, mem_entries_iff, get?_erase_eq, Prod.mk.injEq]
  by_cases same : other = key
  · subst same
    simp [found, eq_comm]
  · simp [same]

theorem get?_eraseAll (keys : List K) (map : SortedMap K V) (key : K) :
    (keys.foldl SortedMap.erase map).get? key = if key ∈ keys then none else map.get? key := by
  induction keys generalizing map with
  | nil => simp
  | cons first rest ih =>
    rw [List.foldl_cons, ih, SortedMap.get?_erase_eq]
    by_cases later : key ∈ rest <;> by_cases here : key = first <;> simp [later, here]

theorem get?_insertAll (keys : List K) (value : V) (map : SortedMap K V) (key : K) :
    (keys.foldl (fun map key => map.insert key value) map).get? key =
      if key ∈ keys then some value else map.get? key := by
  induction keys generalizing map with
  | nil => simp
  | cons first rest ih =>
    rw [List.foldl_cons, ih, SortedMap.get?_insert_eq]
    by_cases later : key ∈ rest <;> by_cases here : key = first <;> simp [later, here]

end Keys

section Recoding

variable {L : Type} [Ord L] {key : K → L} (value : V → W)
  (ordered : ∀ a b, compare (key a) (key b) = compare a b)

/-- The map under other keys of the same order, with other values. -/
def recode (map : SortedMap K V) : SortedMap L W :=
  ⟨Entries.recode key value map.entries, Entries.sorted_recode value ordered map.sorted⟩

@[simp] theorem get?_recode (map : SortedMap K V) (wanted : K) :
    (map.recode value ordered).get? (key wanted) = (map.get? wanted).map value :=
  Entries.get?_recode value ordered wanted map.entries

theorem insert_recode [Std.TransOrd K] [Std.TransOrd L] (map : SortedMap K V) (added : K)
    (held : V) : (map.recode value ordered).insert (key added) (value held) =
      (map.insert added held).recode value ordered :=
  entries_injective (Entries.insert_recode value ordered added held map.entries)

theorem erase_recode (map : SortedMap K V) (removed : K) :
    (map.recode value ordered).erase (key removed) = (map.erase removed).recode value ordered :=
  entries_injective (Entries.erase_recode value ordered removed map.entries)

theorem values_recode (map : SortedMap K V) :
    (map.recode value ordered).values = map.values.map value := by
  simp only [values, recode, Entries.recode, List.map_map, Function.comp_def]

end Recoding

end SortedMap

namespace SortedSet

@[simp] theorem not_mem_emptyCollection (member : K) : member ∉ (∅ : SortedSet K) :=
  not_mem_empty member

theorem nodup [Std.TransOrd K] (set : SortedSet K) : set.toList.Nodup :=
  nodup_of_increasing id set.sorted

theorem toList_injective {left right : SortedSet K} (same : left.toList = right.toList) :
    left = right := by
  cases left
  cases right
  simpa using same

theorem ext_mem [Std.TransOrd K] [Std.LawfulEqOrd K] {left right : SortedSet K}
    (same : ∀ member, member ∈ left ↔ member ∈ right) : left = right :=
  toList_injective (eq_of_increasing id left.sorted right.sorted same)

end SortedSet

end CachedViews
