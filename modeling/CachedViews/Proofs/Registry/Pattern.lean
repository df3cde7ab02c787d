import Mathlib.Computability.RegularExpressions
import CachedViews.Proofs.Registry.Grammar

/-!
The pattern of a declared path, `^[A-Za-z_@][A-Za-z0-9_@]*(\.[A-Za-z_@][A-Za-z0-9_@]*)*(\.\*)?$`,
as a regular expression. Its anchors hold it to the whole text, so that a path is accepted exactly
when its characters are a word of the language.
-/
namespace CachedViews

namespace Path

open RegularExpression (char)

/-- The characters of a class from the first to the last, both included. -/
def range (first last : Char) : RegularExpression Char :=
  ((List.range' first.toNat (last.toNat + 1 - first.toNat)).map fun n => char (Char.ofNat n)).sum

def startPattern : RegularExpression Char :=
  range 'A' 'Z' + range 'a' 'z' + char '_' + char '@'

def innerPattern : RegularExpression Char :=
  range 'A' 'Z' + range 'a' 'z' + range '0' '9' + char '_' + char '@'

def namePattern : RegularExpression Char := startPattern * innerPattern.star

def pathPattern : RegularExpression Char :=
  namePattern * (char '.' * namePattern).star * (1 + char '.' * char '*')

theorem char_matches {c : Char} {text : List Char} : text ∈ (char c).matches' ↔ text = [c] :=
  Iff.rfl

theorem sum_matches {classes : List (RegularExpression Char)} {text : List Char} :
    text ∈ classes.sum.matches' ↔ ∃ one ∈ classes, text ∈ one.matches' := by
  induction classes with
  | nil => simp [RegularExpression.matches'_zero]
  | cons one more ih =>
    rw [List.sum_cons, RegularExpression.matches'_add, Language.mem_add, ih]
    simp

/-- A pattern that stands for single characters. -/
def Stands (pattern : RegularExpression Char) (allowed : Char → Prop) : Prop :=
  ∀ text, text ∈ pattern.matches' ↔ ∃ c, text = [c] ∧ allowed c

theorem stands_char (c : Char) : Stands (char c) (· = c) := by
  intro text
  rw [char_matches]
  exact ⟨fun same => ⟨c, same, rfl⟩, fun ⟨_, same, eq⟩ => eq ▸ same⟩

/-- Below the surrogates every code is that of a character. -/
theorem stands_range {first last : Char} (scalar : last.toNat < 0xd800) :
    Stands (range first last) fun c => first ≤ c ∧ c ≤ last := by
  intro text
  have ordered (a b : Char) : a ≤ b ↔ a.toNat ≤ b.toNat := Iff.rfl
  simp only [range, sum_matches, List.mem_map, List.mem_range'_1, exists_exists_and_eq_and,
    char_matches, ordered]
  constructor
  · rintro ⟨n, bounds, rfl⟩
    have valid : n.isValidChar := Or.inl (by omega)
    have code : (Char.ofNat n).toNat = n := by
      rw [Char.ofNat, dif_pos valid]
      rfl
    exact ⟨_, rfl, by omega, by omega⟩
  · rintro ⟨c, rfl, above, below⟩
    exact ⟨c.toNat, ⟨above, by omega⟩, by rw [Char.ofNat_toNat]⟩

theorem Stands.add {left right : RegularExpression Char} {first second : Char → Prop}
    (one : Stands left first) (other : Stands right second) :
    Stands (left + right) fun c => first c ∨ second c := by
  intro text
  rw [RegularExpression.matches'_add, Language.mem_add, one, other, ← exists_or]
  exact exists_congr fun c => and_or_left.symm

theorem Stands.congr {pattern : RegularExpression Char} {allowed fits : Char → Prop}
    (one : Stands pattern allowed) (same : ∀ c, allowed c ↔ fits c) : Stands pattern fits :=
  fun text => (one text).trans (exists_congr fun c => and_congr_right fun _ => same c)

theorem Stands.star {pattern : RegularExpression Char} {allowed : Char → Prop}
    (one : Stands pattern allowed) (text : List Char) :
    text ∈ pattern.star.matches' ↔ ∀ c ∈ text, allowed c := by
  rw [RegularExpression.matches'_star, Language.mem_kstar]
  constructor
  · rintro ⟨words, rfl, listed⟩ c inside
    obtain ⟨word, member, inside⟩ := List.mem_flatten.mp inside
    obtain ⟨only, rfl, fits⟩ := (one word).mp (listed word member)
    exact List.mem_singleton.mp inside ▸ fits
  · intro all
    refine ⟨text.map fun c => [c], by rw [← List.flatMap_def, List.flatMap_singleton'],
      fun word member => ?_⟩
    obtain ⟨c, inside, rfl⟩ := List.mem_map.mp member
    exact (one _).mpr ⟨c, rfl, all c inside⟩

theorem startPattern_stands : Stands startPattern NameStart := by
  refine ((((stands_range ?_).add (stands_range ?_)).add (stands_char '_')).add
    (stands_char '@')).congr fun c => ?_
  · decide
  · decide
  · rw [NameStart, or_assoc, or_assoc]

theorem innerPattern_stands : Stands innerPattern NameChar := by
  refine (((((stands_range ?_).add (stands_range ?_)).add (stands_range ?_)).add
    (stands_char '_')).add (stands_char '@')).congr fun c => ?_
  · decide
  · decide
  · decide
  · rw [NameChar, NameStart]
    tauto

theorem namePattern_matches {text : List Char} : text ∈ namePattern.matches' ↔ Name text := by
  rw [namePattern, RegularExpression.matches'_mul, Language.mem_mul]
  constructor
  · rintro ⟨head, started, rest, inner, rfl⟩
    obtain ⟨first, rfl, starts⟩ := (startPattern_stands head).mp started
    exact ⟨starts, (innerPattern_stands.star rest).mp inner⟩
  · intro named
    cases text with
    | nil => exact named.elim
    | cons first rest =>
      exact ⟨[first], (startPattern_stands _).mpr ⟨first, rfl, named.1⟩, rest,
        (innerPattern_stands.star rest).mpr named.2, rfl⟩

theorem dotted_matches {text : List Char} :
    text ∈ (char '.' * namePattern).matches' ↔ ∃ name, Name name ∧ text = '.' :: name := by
  rw [RegularExpression.matches'_mul, Language.mem_mul]
  constructor
  · rintro ⟨dot, rfl, name, named, rfl⟩
    exact ⟨name, namePattern_matches.mp named, rfl⟩
  · rintro ⟨name, named, rfl⟩
    exact ⟨['.'], rfl, name, namePattern_matches.mpr named, rfl⟩

theorem tail_matches {text : List Char} :
    text ∈ (char '.' * namePattern).star.matches' ↔
      ∃ names : List (List Char), (∀ name ∈ names, Name name) ∧
        text = (names.map ('.' :: ·)).flatten := by
  rw [RegularExpression.matches'_star, Language.mem_kstar]
  constructor
  · rintro ⟨words, rfl, listed⟩
    induction words with
    | nil => exact ⟨[], List.forall_mem_nil _, rfl⟩
    | cons word more ih =>
      obtain ⟨here, later⟩ := List.forall_mem_cons.mp listed
      obtain ⟨name, named, rfl⟩ := dotted_matches.mp here
      obtain ⟨names, all, rest⟩ := ih later
      exact ⟨name :: names, List.forall_mem_cons.mpr ⟨named, all⟩, by simp [rest]⟩
  · rintro ⟨names, all, rfl⟩
    refine ⟨names.map ('.' :: ·), rfl, fun word member => ?_⟩
    obtain ⟨name, listed, rfl⟩ := List.mem_map.mp member
    exact dotted_matches.mpr ⟨name, all name listed, rfl⟩

theorem intercalate_dot (first : List Char) (names : List (List Char)) :
    ['.'].intercalate (first :: names) = first ++ (names.map ('.' :: ·)).flatten := by
  induction names generalizing first with
  | nil => simp [List.intercalate]
  | cons second more ih => simp [List.intercalate_cons_cons, ih]

theorem ending_matches {text : List Char} :
    text ∈ (1 + char '.' * char '*' : RegularExpression Char).matches' ↔
      text = [] ∨ text = ['.', '*'] := by
  rw [RegularExpression.matches'_add, Language.mem_add, RegularExpression.matches'_epsilon,
    Language.mem_one, RegularExpression.matches'_mul, Language.mem_mul]
  refine or_congr_right ⟨?_, fun same => ⟨['.'], rfl, ['*'], rfl, same.symm⟩⟩
  rintro ⟨dot, rfl, star, rfl, rfl⟩
  rfl

/-- Exactly the paths that match the pattern are accepted. -/
theorem wellFormed_iff_matches {path : String} :
    wellFormed path = true ↔ path.toList ∈ pathPattern.matches' := by
  rw [wellFormed_iff_grammatical, pathPattern, RegularExpression.matches'_mul, Language.mem_mul]
  constructor
  · rintro ⟨names, some, all, shape⟩
    obtain ⟨first, rest, rfl⟩ := List.exists_cons_of_ne_nil some
    have matched : ['.'].intercalate (first :: rest) ∈
        (namePattern * (char '.' * namePattern).star).matches' := by
      obtain ⟨named, later⟩ := List.forall_mem_cons.mp all
      rw [intercalate_dot]
      exact Language.append_mem_mul (namePattern_matches.mpr named)
        (tail_matches.mpr ⟨rest, later, rfl⟩)
    rcases shape with plain | starred
    · exact ⟨_, matched, [], ending_matches.mpr (Or.inl rfl), by rw [plain, List.append_nil]⟩
    · exact ⟨_, matched, _, ending_matches.mpr (Or.inr rfl), starred.symm⟩
  · rintro ⟨names, matched, ending, ends, whole⟩
    obtain ⟨first, named, rest, listed, rfl⟩ := matched
    obtain ⟨more, all, rfl⟩ := tail_matches.mp listed
    refine ⟨first :: more, List.cons_ne_nil _ _,
      List.forall_mem_cons.mpr ⟨namePattern_matches.mp named, all⟩, ?_⟩
    rw [intercalate_dot, ← whole]
    rcases ending_matches.mp ends with rfl | rfl
    · exact Or.inl (List.append_nil _)
    · exact Or.inr rfl

end Path

end CachedViews
