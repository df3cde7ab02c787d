import CachedViews.Json.Text
import CachedViews.Proofs.Number.Shortest
import Mathlib.Data.List.TakeWhile
import Mathlib.Tactic.FieldSimp

/-!
Decimals are read off their text: the digits without the point, scaled by the places behind it and
by the exponent. Whatever the layout, the text stands for the decimal, so the text of a number of
binary64 tells which number it is.
-/
namespace CachedViews

namespace Decimal

/-- What digits with a point in them count, and how many of them stand behind it. -/
def readPoint (text : List Char) : ℚ :=
  Nat.ofDigitChars 10 (text.filter (· ≠ '.')) 0 *
    (10 : ℚ) ^ (-((text.dropWhile (· ≠ '.')).tail.length : Int))

/-- A sign and digits. -/
def readExponent (text : List Char) : Int :=
  if text.head? = some '-' then -(Nat.ofDigitChars 10 text.tail 0 : Int)
  else Nat.ofDigitChars 10 text.tail 0

/-- The number that a text stands for. -/
def readText (text : List Char) : ℚ :=
  readPoint (text.takeWhile (· ≠ 'e')) * (10 : ℚ) ^ readExponent (text.dropWhile (· ≠ 'e')).tail

theorem isDigit_of_mem_digitsOf {n : Nat} {c : Char} (inside : c ∈ digitsOf n) : c.isDigit = true :=
  Nat.isDigit_of_mem_toDigits (by decide) (by decide) inside

theorem ne_of_isDigit {c other : Char} (digit : c.isDigit = true) (sign : other.isDigit = false) :
    decide (c ≠ other) = true := by
  apply decide_eq_true
  rintro rfl
  rw [digit] at sign
  cases sign

theorem readPoint_point {whole fraction : List Char} (digits : ∀ c ∈ whole, c.isDigit = true)
    (more : ∀ c ∈ fraction, c.isDigit = true) :
    readPoint (whole ++ '.' :: fraction) =
      Nat.ofDigitChars 10 (whole ++ fraction) 0 * (10 : ℚ) ^ (-(fraction.length : Int)) := by
  have before : ∀ c ∈ whole, decide (c ≠ '.') = true := fun c inside =>
    ne_of_isDigit (digits c inside) (by decide)
  have behind : ∀ c ∈ fraction, decide (c ≠ '.') = true := fun c inside =>
    ne_of_isDigit (more c inside) (by decide)
  rw [readPoint, List.filter_append, List.filter_eq_self.mpr before,
    List.filter_cons_of_neg (by decide), List.filter_eq_self.mpr behind,
    List.dropWhile_append_of_pos before, List.dropWhile_cons_of_neg (by decide), List.tail_cons]

theorem readPoint_whole {whole : List Char} (digits : ∀ c ∈ whole, c.isDigit = true) :
    readPoint whole = Nat.ofDigitChars 10 whole 0 := by
  have before : ∀ c ∈ whole, decide (c ≠ '.') = true := fun c inside =>
    ne_of_isDigit (digits c inside) (by decide)
  rw [readPoint, List.filter_eq_self.mpr before, List.dropWhile_eq_nil_iff.mpr before]
  simp

theorem unscaled_point {whole fraction : List Char} (digits : ∀ c ∈ whole, c.isDigit = true)
    (more : ∀ c ∈ fraction, c.isDigit = true) : 'e' ∉ whole ++ '.' :: fraction := by
  intro inside
  rcases List.mem_append.mp inside with before | behind
  · exact absurd (digits _ before) (by decide)
  · rcases List.mem_cons.mp behind with point | after
    · exact absurd point (by decide)
    · exact absurd (more _ after) (by decide)

theorem readText_positional {mantissa : List Char} (plain : 'e' ∉ mantissa) :
    readText mantissa = readPoint mantissa := by
  have before : ∀ c ∈ mantissa, decide (c ≠ 'e') = true := fun c inside =>
    decide_eq_true fun same => plain (same ▸ inside)
  rw [readText, List.takeWhile_eq_self_iff.mpr before, List.dropWhile_eq_nil_iff.mpr before]
  simp [readExponent]

theorem readText_scientific {mantissa : List Char} (plain : 'e' ∉ mantissa) (exponent : List Char) :
    readText (mantissa ++ 'e' :: exponent) =
      readPoint mantissa * (10 : ℚ) ^ readExponent exponent := by
  have before : ∀ c ∈ mantissa, decide (c ≠ 'e') = true := fun c inside =>
    decide_eq_true fun same => plain (same ▸ inside)
  rw [readText, List.takeWhile_append_of_pos before, List.takeWhile_cons_of_neg (by decide),
    List.append_nil, List.dropWhile_append_of_pos before, List.dropWhile_cons_of_neg (by decide),
    List.tail_cons]

theorem readExponent_signed (exponent : Int) : readExponent (signedExponent exponent) = exponent := by
  rw [signedExponent, readExponent, List.tail_cons, List.head?_cons, digitsOf,
    Nat.ofDigitChars_ten_toDigits]
  by_cases negative : exponent < 0
  · rw [if_pos negative, if_pos rfl]
    omega
  · rw [if_neg negative, if_neg (by decide)]
    omega

theorem readText_point {whole fraction : List Char} (digits : ∀ c ∈ whole, c.isDigit = true)
    (more : ∀ c ∈ fraction, c.isDigit = true) :
    readText (whole ++ '.' :: fraction) =
      Nat.ofDigitChars 10 (whole ++ fraction) 0 * (10 : ℚ) ^ (-(fraction.length : Int)) := by
  rw [readText_positional (unscaled_point digits more), readPoint_point digits more]

variable (d : Decimal)

/-- Positional text is digits, a point and digits again. -/
theorem positionalText_parts : ∃ whole fraction, whole ≠ [] ∧
    d.positionalText true = whole ++ '.' :: fraction ∧
      (∀ c ∈ whole, c.isDigit = true) ∧ (∀ c ∈ fraction, c.isDigit = true) ∧
        Nat.ofDigitChars 10 (whole ++ fraction) 0 * (10 : ℚ) ^ (-(fraction.length : Int)) =
          d.value := by
  have zeros : ∀ count, ∀ c ∈ List.replicate count '0', c.isDigit = true := fun count c inside =>
    List.eq_of_mem_replicate inside ▸ rfl
  have counted : Nat.ofDigitChars 10 (digitsOf d.digits) 0 = d.digits :=
    Nat.ofDigitChars_ten_toDigits
  have some : digitsOf d.digits ≠ [] := Nat.toDigits_ne_nil
  simp only [positionalText, if_true]
  split
  · rename_i whole
    refine ⟨digitsOf d.digits ++ List.replicate d.exponent.toNat '0', List.replicate 1 '0',
      List.append_ne_nil_of_left_ne_nil some _, rfl, fun c inside =>
        (List.mem_append.mp inside).elim isDigit_of_mem_digitsOf (zeros _ c), zeros 1, ?_⟩
    rw [List.append_assoc, List.replicate_append_replicate, Nat.ofDigitChars_append, counted,
      Nat.ofDigitChars_replicate_zero, value]
    obtain ⟨power, same⟩ := Int.eq_ofNat_of_zero_le whole
    rw [same]
    simp [pow_succ]
    field_simp
  · rename_i fraction
    generalize count : (-d.exponent).toNat + 1 - (digitsOf d.digits).length = missing
    have length : (-d.exponent).toNat <
        (List.replicate missing '0' ++ digitsOf d.digits).length := by
      rw [List.length_append, List.length_replicate]
      omega
    have digits : ∀ c ∈ List.replicate missing '0' ++ digitsOf d.digits, c.isDigit = true :=
      fun c inside => (List.mem_append.mp inside).elim (zeros _ c) isDigit_of_mem_digitsOf
    have padded : Nat.ofDigitChars 10 (List.replicate missing '0' ++ digitsOf d.digits) 0 =
        d.digits := by
      rw [Nat.ofDigitChars_append, Nat.ofDigitChars_replicate_zero, Nat.mul_zero, counted]
    generalize List.replicate missing '0' ++ digitsOf d.digits = text at length digits padded ⊢
    refine ⟨_, _, fun none => ?_, rfl, fun c inside => digits c (List.mem_of_mem_take inside),
      fun c inside => digits c (List.mem_of_mem_drop inside), ?_⟩
    · have := List.length_eq_zero_iff.mpr none
      rw [List.length_take] at this
      omega
    · rw [List.take_append_drop, padded, List.length_drop, value]
      congr 2
      omega

/-- Scientific text is a digit, more digits behind a point, and the exponent. -/
theorem scientificText_parts : ∃ first rest, d.scientificText =
      (first :: if rest = [] then [] else '.' :: rest) ++ 'e' :: signedExponent d.scientific ∧
    (∀ c ∈ first :: rest, c.isDigit = true) ∧
      Nat.ofDigitChars 10 (first :: rest) 0 = d.digits ∧
        d.scientific = d.exponent + rest.length := by
  have digits : ∀ c ∈ digitsOf d.digits, c.isDigit = true := fun c => isDigit_of_mem_digitsOf
  have counted : Nat.ofDigitChars 10 (digitsOf d.digits) 0 = d.digits :=
    Nat.ofDigitChars_ten_toDigits
  have places : d.scientific = d.exponent + (digitsOf d.digits).length - 1 := rfl
  rw [scientificText]
  cases written : digitsOf d.digits with
  | nil => exact absurd written Nat.toDigits_ne_nil
  | cons first rest =>
    rw [written] at digits counted places
    rw [List.length_cons] at places
    exact ⟨first, rest, rfl, digits, counted, by omega⟩

theorem readText_positionalText : readText (d.positionalText true) = d.value := by
  obtain ⟨whole, fraction, -, written, digits, more, same⟩ := d.positionalText_parts
  rw [written, readText_point digits more, same]

theorem readText_scientificText : readText d.scientificText = d.value := by
  obtain ⟨first, rest, written, digits, counted, places⟩ := d.scientificText_parts
  have tail : ∀ c ∈ rest, c.isDigit = true := fun c inside =>
    digits c (List.mem_cons_of_mem first inside)
  have head : ∀ c ∈ [first], c.isDigit = true := fun c inside =>
    digits c (List.mem_singleton.mp inside ▸ List.mem_cons_self)
  have mantissa : readPoint (first :: if rest = [] then [] else '.' :: rest) =
      d.digits * (10 : ℚ) ^ (-(rest.length : Int)) := by
    split
    · rename_i single
      rw [single] at counted ⊢
      rw [readPoint_whole head, counted]
      simp
    · rw [← List.singleton_append, readPoint_point head tail, List.singleton_append, counted]
  have plain : 'e' ∉ first :: if rest = [] then [] else '.' :: rest := by
    split
    · exact fun inside => absurd (head _ inside) (by decide)
    · exact unscaled_point head tail
  rw [written, readText_scientific plain, mantissa, readExponent_signed, places, mul_assoc,
    ← zpow_add₀ (by norm_num), value]
  congr 2
  omega

variable {low high : Int}

/-- A decimal can be read off its text, in whatever layout. -/
theorem readText_text : readText (d.text ⟨some (low, high), true⟩) = d.value := by
  simp only [text]
  split
  · exact readText_positionalText d
  · exact readText_scientificText d

/-- A text starts with a digit, so no sign is taken for a part of it. -/
theorem head_text : ∃ first rest, d.text ⟨some (low, high), true⟩ = first :: rest ∧
    first.isDigit = true := by
  simp only [text]
  split
  · obtain ⟨whole, fraction, some, written, digits, -⟩ := d.positionalText_parts
    obtain ⟨first, rest, rfl⟩ := List.exists_cons_of_ne_nil some
    exact ⟨first, rest ++ '.' :: fraction, written, digits first List.mem_cons_self⟩
  · obtain ⟨first, rest, written, digits, -⟩ := d.scientificText_parts
    exact ⟨first, _, written, digits first List.mem_cons_self⟩

/-- A text that keeps its point is never all digits. -/
theorem not_digits_text : ∃ c ∈ d.text ⟨some (low, high), true⟩, c.isDigit = false ∧ c ≠ '-' := by
  simp only [text]
  split
  · obtain ⟨whole, fraction, -, written, -⟩ := d.positionalText_parts
    exact ⟨'.', written ▸ List.mem_append_right _ List.mem_cons_self, by decide⟩
  · obtain ⟨first, rest, written, -⟩ := d.scientificText_parts
    exact ⟨'e', written ▸ List.mem_append_right _ List.mem_cons_self, by decide⟩

end Decimal

namespace Double

variable {low high : Int} {negative sign : Bool} {a b : Nat}

/-- The text of a number of binary64 tells which number it is. -/
theorem eq_of_finiteText (exactA : Exact a) (exactB : Exact b)
    (same : finiteText ⟨some (low, high), true⟩ negative a =
      finiteText ⟨some (low, high), true⟩ sign b) : negative = sign ∧ a = b := by
  obtain ⟨first, rest, writtenA, digitA⟩ := @Decimal.head_text (shortest a) low high
  obtain ⟨other, more, writtenB, digitB⟩ := @Decimal.head_text (shortest b) low high
  rw [finiteText, finiteText] at same
  have texts : negative = sign ∧ (shortest a).text ⟨some (low, high), true⟩ =
      (shortest b).text ⟨some (low, high), true⟩ := by
    cases negative <;> cases sign
    · exact ⟨rfl, same⟩
    · rw [writtenA] at same
      cases same
      cases digitA
    · rw [writtenB] at same
      cases same
      cases digitB
    · exact ⟨rfl, List.append_cancel_left same⟩
  refine ⟨texts.1, eq_of_shortest exactA exactB ?_⟩
  rw [← Decimal.readText_text, texts.2, Decimal.readText_text]

end Double

end CachedViews
