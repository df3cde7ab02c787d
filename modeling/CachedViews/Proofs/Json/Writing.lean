import CachedViews.Json.Reader
import CachedViews.Proofs.Json.Scalars

/-!
Compact text tells which value was written. No text of a value is the beginning of another's:
strings are read back up to their closing quote, numbers end at the first character that no number
holds, and arrays and objects are told apart item by item.
-/
namespace CachedViews

theorem Digits.character?_toNat (c : Char) : character? c.toNat = some c := by
  have valid : c.toNat.isValidChar := c.valid
  rw [character?, dif_pos valid]
  rfl

namespace Json

variable {rest more : List Char}

section Strings

theorem number?_controlDigits :
    ∀ n < 32, Digits.number? 16 ['0', '0', hexDigit (n / 16), hexDigit n] = some n := by
  decide

theorem unicodeEscape?_control {c : Char} (control : c.toNat < 32) (rest : List Char) :
    unicodeEscape? ('0' :: '0' :: hexDigit (c.toNat / 16) :: hexDigit c.toNat :: rest) =
      some (c, rest) := by
  have four : fourHex? ('0' :: '0' :: hexDigit (c.toNat / 16) :: hexDigit c.toNat :: rest) =
      some (c.toNat, rest) := by
    rw [fourHex?, number?_controlDigits _ control]
    rfl
  have single : ¬ (0xD800 ≤ c.toNat ∧ c.toNat < 0xDC00) := by omega
  simp [unicodeEscape?, four, single, Digits.character?_toNat]

/-- What is written for a character is read as that character. -/
theorem stringTail?_escaped (fuel : Nat) (read : List Char) (c : Char) (rest : List Char) :
    stringTail? (fuel + 1) read (escaped c ++ rest) = stringTail? fuel (c :: read) rest := by
  unfold escaped
  split <;> try rfl
  -- The other characters are written as they are, or by their number.
  split
  · rename_i control
    simp only [List.cons_append, List.nil_append, stringTail?, unicodeEscape?_control control]
  · rw [List.singleton_append, stringTail?.eq_def]
    split <;> simp_all

theorem stringTail?_text (fuel : Nat) (text read rest : List Char) (enough : text.length < fuel) :
    stringTail? fuel read (text.flatMap escaped ++ '"' :: rest) =
      some (String.ofList (read.reverse ++ text), rest) := by
  induction text generalizing read fuel with
  | nil =>
    obtain ⟨fuel, rfl⟩ := Nat.exists_eq_add_of_lt enough
    simp [stringTail?]
  | cons c tail ih =>
    obtain ⟨fuel, rfl⟩ : ∃ fewer, fuel = fewer + 1 := ⟨fuel - 1, by omega⟩
    rw [List.flatMap_cons, List.append_assoc, stringTail?_escaped,
      ih fuel (c :: read) (Nat.lt_of_succ_lt_succ enough)]
    simp

/-- A string ends at the quote that closes it. -/
theorem eq_of_writeString {a b : String} (same : writeString a rest = writeString b more) :
    a = b ∧ rest = more := by
  have tails : a.toList.flatMap escaped ++ '"' :: rest = b.toList.flatMap escaped ++ '"' :: more :=
    (List.cons.inj same).2
  have readA := stringTail?_text (a.toList.length + b.toList.length + 1) a.toList [] rest (by omega)
  have readB := stringTail?_text (a.toList.length + b.toList.length + 1) b.toList [] more (by omega)
  rw [tails, readB] at readA
  simpa [eq_comm] using readA

end Strings

section Numbers

/-- Characters that numbers are written with. -/
def isNumeric (c : Char) : Bool := c.isDigit || c == '-' || c == '+' || c == '.' || c == 'e'

theorem isNumeric_of_isDigit {c : Char} (digit : c.isDigit = true) : isNumeric c = true := by
  simp [isNumeric, digit]

theorem isNumeric_integerText (n : Int) : ∀ c ∈ integerText n, isNumeric c = true := by
  intro c inside
  rcases mem_integerText inside with digit | rfl
  · exact isNumeric_of_isDigit digit
  · rfl

theorem isNumeric_signedExponent (exponent : Int) :
    ∀ c ∈ Decimal.signedExponent exponent, isNumeric c = true := by
  intro c inside
  rcases List.mem_cons.mp inside with rfl | digit
  · split <;> rfl
  · exact isNumeric_of_isDigit (Decimal.isDigit_of_mem_digitsOf digit)

theorem isNumeric_decimalText (d : Decimal) {low high : Int} :
    ∀ c ∈ d.text ⟨some (low, high), true⟩, isNumeric c = true := by
  intro c inside
  simp only [Decimal.text] at inside
  split at inside
  · obtain ⟨whole, fraction, -, written, digits, more, -⟩ := d.positionalText_parts
    rw [written] at inside
    rcases List.mem_append.mp inside with before | behind
    · exact isNumeric_of_isDigit (digits c before)
    · rcases List.mem_cons.mp behind with rfl | after
      · rfl
      · exact isNumeric_of_isDigit (more c after)
  · obtain ⟨first, rest, written, digits, -⟩ := d.scientificText_parts
    rw [written] at inside
    rcases List.mem_append.mp inside with mantissa | scaled
    · rcases List.mem_cons.mp mantissa with rfl | fraction
      · exact isNumeric_of_isDigit (digits c List.mem_cons_self)
      · split at fraction
        · cases fraction
        · rcases List.mem_cons.mp fraction with rfl | after
          · rfl
          · exact isNumeric_of_isDigit (digits c (List.mem_cons_of_mem _ after))
    · rcases List.mem_cons.mp scaled with rfl | exponent
      · rfl
      · exact isNumeric_signedExponent _ c exponent

theorem isNumeric_finiteText (negative : Bool) (units : Nat) :
    ∀ c ∈ Double.finiteText decimalStyle negative units, isNumeric c = true := by
  intro c inside
  rcases List.mem_append.mp inside with sign | decimal
  · split at sign
    · obtain rfl := List.mem_singleton.mp sign
      rfl
    · cases sign
  · exact isNumeric_decimalText _ c decimal

/-- A text that does not go on with a number. -/
def Ends (rest : List Char) : Prop := ∀ c tail, rest = c :: tail → isNumeric c = false

theorem ends_nil : Ends [] := by
  intro c tail same
  cases same

theorem eq_of_numeric {a b : List Char} (numericA : ∀ c ∈ a, isNumeric c = true)
    (numericB : ∀ c ∈ b, isNumeric c = true) (ends : Ends rest) (stops : Ends more)
    (same : a ++ rest = b ++ more) : a = b ∧ rest = more := by
  have number : ∀ {text rest : List Char}, (∀ c ∈ text, isNumeric c = true) → Ends rest →
      (text ++ rest).takeWhile isNumeric = text := by
    intro text rest numeric ends
    rw [List.takeWhile_append_of_pos numeric]
    cases rest with
    | nil => simp
    | cons c tail => simp [ends c tail rfl]
  have texts : a = b := by rw [← number numericA ends, same, number numericB stops]
  exact ⟨texts, List.append_cancel_left (texts ▸ same)⟩

end Numbers

/-- Kinds of values. The first character of a text tells which kind of value it starts. -/
inductive Kind where
  | null
  | truth
  | number
  | string
  | array
  | object
  deriving DecidableEq

def kind : Json → Kind
  | null => .null
  | bool _ => .truth
  | integer _ | double _ => .number
  | string _ => .string
  | array _ => .array
  | object _ => .object

def Kind.ofFirst? (c : Char) : Option Kind :=
  if c.isDigit || c == '-' then some .number
  else
    match c with
    | 'n' => some .null
    | 't' | 'f' => some .truth
    | '"' => some .string
    | '[' => some .array
    | '{' => some .object
    | _ => none

theorem ofFirst?_number {c : Char} (first : c.isDigit = true ∨ c = '-') :
    Kind.ofFirst? c = some .number := by
  rcases first with digit | rfl
  · simp [Kind.ofFirst?, digit]
  · rfl

theorem write_starts {value : Json} (numeral : value.Numeral) (rest : List Char) :
    ∃ c tail, value.write rest = c :: tail ∧ Kind.ofFirst? c = some value.kind := by
  cases value with
  | null => exact ⟨'n', _, rfl, rfl⟩
  | bool value => cases value <;> exact ⟨_, _, rfl, rfl⟩
  | integer n =>
    cases written : integerText n with
    | nil => exact absurd (List.append_eq_nil_iff.mp written).2 Nat.toDigits_ne_nil
    | cons first tail =>
      exact ⟨first, tail ++ rest, by rw [write, written]; rfl,
        ofFirst?_number (mem_integerText (written ▸ List.mem_cons_self))⟩
  | double value =>
    obtain ⟨negative, units, rfl, -⟩ := double_text numeral
    obtain ⟨first, tail, written, numeric⟩ := head_finiteText negative units
    exact ⟨first, tail ++ rest, by rw [write, doubleText, written]; rfl, ofFirst?_number numeric⟩
  | string text => exact ⟨'"', _, rfl, rfl⟩
  | array items => exact ⟨'[', _, rfl, rfl⟩
  | object entries => exact ⟨'\x7b', _, rfl, rfl⟩

theorem kind_eq_of_write {v w : Json} (numeral : v.Numeral) (other : w.Numeral)
    (same : v.write rest = w.write more) : v.kind = w.kind := by
  obtain ⟨c, _, written, starts⟩ := write_starts numeral rest
  obtain ⟨d, _, again, begins⟩ := write_starts other more
  rw [same, again] at written
  cases written
  exact Option.some.inj (starts.symm.trans begins)

theorem number_text {value : Json} (numeral : value.Numeral) (number : value.kind = .number) :
    ∃ text, (∀ rest, value.write rest = text ++ rest) ∧ (∀ c ∈ text, isNumeric c = true) ∧
      value.scalarText? = some (String.ofList text) := by
  cases value with
  | integer n => exact ⟨integerText n, fun _ => rfl, isNumeric_integerText n, rfl⟩
  | double value =>
    obtain ⟨negative, units, rfl, -⟩ := double_text numeral
    exact ⟨_, fun _ => rfl, isNumeric_finiteText negative units, rfl⟩
  | null | bool | string | array | object => cases number

theorem eq_of_writeNumber {v w : Json} (numeral : v.Numeral) (other : w.Numeral)
    (number : v.kind = .number) (ends : Ends rest) (stops : Ends more)
    (same : v.write rest = w.write more) : v = w ∧ rest = more := by
  have alike : w.kind = .number := kind_eq_of_write numeral other same ▸ number
  have bare : ∀ {value : Json}, value.kind = .number → value.text? = none := by
    intro value number
    cases value <;> first | rfl | cases number
  obtain ⟨text, written, numeric, scalar⟩ := number_text numeral number
  obtain ⟨twin, again, digits, spelt⟩ := number_text other alike
  rw [written, again] at same
  obtain ⟨rfl, tails⟩ := eq_of_numeric numeric digits ends stops same
  exact ⟨eq_of_same_text numeral other (bare number) (bare alike) scalar spelt, tails⟩

mutual

/-- Every number in the value is whole or a finite number of binary64. -/
def Numerals : Json → Prop
  | array items => NumeralItems items
  | object entries => NumeralEntries entries
  | value => value.Numeral

def NumeralItems : List Json → Prop
  | [] => True
  | item :: items => Numerals item ∧ NumeralItems items

def NumeralEntries : List (String × Json) → Prop
  | [] => True
  | (_, value) :: entries => Numerals value ∧ NumeralEntries entries

end

theorem Numerals.numeral {value : Json} (numerals : value.Numerals) : value.Numeral := by
  cases value <;> trivial

/-- What follows a value inside an array or an object does not go on with a number. -/
theorem ends_moreItems (items : List Json) (rest : List Char) :
    Ends (writeMoreItems items (']' :: rest)) := by
  intro c tail same
  cases items <;> cases same <;> rfl

theorem ends_moreEntries (entries : List (String × Json)) (rest : List Char) :
    Ends (writeMoreEntries entries ('}' :: rest)) := by
  intro c tail same
  cases entries <;> cases same <;> rfl

theorem write_ne_bracket {value : Json} (numerals : value.Numerals) (rest more : List Char) :
    ']' :: rest ≠ value.write more := by
  intro same
  obtain ⟨c, tail, written, starts⟩ := write_starts numerals.numeral more
  rw [written] at same
  cases same
  cases starts

mutual

/-- No text of a value is the beginning of another's. -/
theorem eq_of_write : ∀ (v w : Json) {rest more : List Char}, v.Numerals → w.Numerals →
    Ends rest → Ends more → v.write rest = w.write more → v = w ∧ rest = more
  | .null, w, _, _, numerals, others, _, _, same => by
    have kinds := kind_eq_of_write numerals.numeral others.numeral same
    cases w <;> cases kinds
    exact ⟨rfl, List.append_cancel_left same⟩
  | .bool value, w, _, _, numerals, others, _, _, same => by
    have kinds := kind_eq_of_write numerals.numeral others.numeral same
    cases w <;> cases kinds
    rename_i other
    cases value <;> cases other <;> cases same <;> exact ⟨rfl, rfl⟩
  | .integer _, _, _, _, numerals, others, ends, stops, same =>
    eq_of_writeNumber numerals.numeral others.numeral rfl ends stops same
  | .double _, _, _, _, numerals, others, ends, stops, same =>
    eq_of_writeNumber numerals.numeral others.numeral rfl ends stops same
  | .string text, w, _, _, numerals, others, _, _, same => by
    have kinds := kind_eq_of_write numerals.numeral others.numeral same
    cases w <;> cases kinds
    obtain ⟨rfl, tails⟩ := eq_of_writeString same
    exact ⟨rfl, tails⟩
  | .array items, w, _, _, numerals, others, _, _, same => by
    have kinds := kind_eq_of_write numerals.numeral others.numeral same
    cases w <;> cases kinds
    obtain ⟨rfl, tails⟩ := eq_of_writeItems items _ numerals others (List.cons.inj same).2
    exact ⟨rfl, tails⟩
  | .object entries, w, _, _, numerals, others, _, _, same => by
    have kinds := kind_eq_of_write numerals.numeral others.numeral same
    cases w <;> cases kinds
    obtain ⟨rfl, tails⟩ := eq_of_writeEntries entries _ numerals others (List.cons.inj same).2
    exact ⟨rfl, tails⟩

theorem eq_of_writeItems : ∀ (as bs : List Json) {rest more : List Char}, NumeralItems as →
    NumeralItems bs → writeItems as (']' :: rest) = writeItems bs (']' :: more) →
    as = bs ∧ rest = more
  | [], [], _, _, _, _, same => ⟨rfl, (List.cons.inj same).2⟩
  | [], _ :: _, _, _, _, others, same => absurd same (write_ne_bracket others.1 _ _)
  | _ :: _, [], _, _, numerals, _, same => absurd same.symm (write_ne_bracket numerals.1 _ _)
  | a :: as, b :: bs, rest, more, numerals, others, same => by
    obtain ⟨rfl, tails⟩ := eq_of_write a b numerals.1 others.1 (ends_moreItems as rest)
      (ends_moreItems bs more) same
    obtain ⟨rfl, ended⟩ := eq_of_writeMoreItems as bs numerals.2 others.2 tails
    exact ⟨rfl, ended⟩

theorem eq_of_writeMoreItems : ∀ (as bs : List Json) {rest more : List Char}, NumeralItems as →
    NumeralItems bs → writeMoreItems as (']' :: rest) = writeMoreItems bs (']' :: more) →
    as = bs ∧ rest = more
  | [], [], _, _, _, _, same => ⟨rfl, (List.cons.inj same).2⟩
  | [], _ :: _, _, _, _, _, same => by cases same
  | _ :: _, [], _, _, _, _, same => by cases same
  | a :: as, b :: bs, rest, more, numerals, others, same => by
    obtain ⟨rfl, tails⟩ := eq_of_write a b numerals.1 others.1 (ends_moreItems as rest)
      (ends_moreItems bs more) (List.cons.inj same).2
    obtain ⟨rfl, ended⟩ := eq_of_writeMoreItems as bs numerals.2 others.2 tails
    exact ⟨rfl, ended⟩

theorem eq_of_writeEntries : ∀ (as bs : List (String × Json)) {rest more : List Char},
    NumeralEntries as → NumeralEntries bs →
    writeEntries as ('}' :: rest) = writeEntries bs ('}' :: more) → as = bs ∧ rest = more
  | [], [], _, _, _, _, same => ⟨rfl, (List.cons.inj same).2⟩
  | [], _ :: _, _, _, _, _, same => by cases same
  | _ :: _, [], _, _, _, _, same => by cases same
  | (k, a) :: as, (l, b) :: bs, rest, more, numerals, others, same => by
    obtain ⟨rfl, values⟩ := eq_of_writeString same
    obtain ⟨rfl, tails⟩ := eq_of_write a b numerals.1 others.1 (ends_moreEntries as rest)
      (ends_moreEntries bs more) (List.cons.inj values).2
    obtain ⟨rfl, ended⟩ := eq_of_writeMoreEntries as bs numerals.2 others.2 tails
    exact ⟨rfl, ended⟩

theorem eq_of_writeMoreEntries : ∀ (as bs : List (String × Json)) {rest more : List Char},
    NumeralEntries as → NumeralEntries bs →
    writeMoreEntries as ('}' :: rest) = writeMoreEntries bs ('}' :: more) → as = bs ∧ rest = more
  | [], [], _, _, _, _, same => ⟨rfl, (List.cons.inj same).2⟩
  | [], _ :: _, _, _, _, _, same => by cases same
  | _ :: _, [], _, _, _, _, same => by cases same
  | (k, a) :: as, (l, b) :: bs, rest, more, numerals, others, same => by
    obtain ⟨rfl, values⟩ := eq_of_writeString (List.cons.inj same).2
    obtain ⟨rfl, tails⟩ := eq_of_write a b numerals.1 others.1 (ends_moreEntries as rest)
      (ends_moreEntries bs more) (List.cons.inj values).2
    obtain ⟨rfl, ended⟩ := eq_of_writeMoreEntries as bs numerals.2 others.2 tails
    exact ⟨rfl, ended⟩

end

/-- Values of one text are equal. -/
theorem text_injective {v w : Json} (numerals : v.Numerals) (others : w.Numerals)
    (same : v.text = w.text) : v = w :=
  (eq_of_write v w numerals others ends_nil ends_nil (String.ofList_injective same)).1

end Json

end CachedViews
