import CachedViews.Proofs.Number.Reading

/-!
Which scalars have one text as keys. The text of a number tells which number it is, whole numbers
and binary64 numbers apart, and the texts of truth values are no numbers; only a string can be
taken for another scalar, the one that it spells.
-/
namespace CachedViews

namespace Json

/-- Doubles that stand in JSON are finite numbers of binary64. -/
def Numeral : Json → Prop
  | double (.finite _ units) => Double.Exact units
  | double _ => False
  | _ => True

instance : DecidablePred Numeral
  | double (.finite _ units) => inferInstanceAs (Decidable (Double.spacing units ∣ units))
  | double .nan | double (.infinite _) => isFalse id
  | null | bool _ | integer _ | string _ | array _ | object _ => isTrue trivial

/-- Equal values, and a string beside a scalar that it spells. -/
inductive Alike : Json → Json → Prop where
  | equal (value : Json) : Alike value value
  | spelling {text : String} {value : Json} (spells : value.scalarText? = some text) :
    Alike (string text) value
  | spelled {text : String} {value : Json} (spells : value.scalarText? = some text) :
    Alike value (string text)

theorem Alike.same_text {a b : Json} (alike : Alike a b) : a.scalarText? = b.scalarText? := by
  cases alike with
  | equal => rfl
  | spelling spells => exact spells.symm
  | spelled spells => exact spells

theorem mem_integerText {n : Int} {c : Char} (inside : c ∈ integerText n) :
    c.isDigit = true ∨ c = '-' := by
  rw [integerText] at inside
  rcases List.mem_append.mp inside with sign | digit
  · split at sign
    · exact Or.inr (List.mem_singleton.mp sign)
    · cases sign
  · exact Or.inl (Decimal.isDigit_of_mem_digitsOf digit)

theorem digitsOf_injective {m n : Nat} (same : digitsOf m = digitsOf n) : m = n := by
  have read : ∀ k, Nat.ofDigitChars 10 (digitsOf k) 0 = k := fun k => Nat.ofDigitChars_ten_toDigits
  rw [← read m, same, read n]

theorem eq_of_integerText {m n : Int} (same : integerText m = integerText n) : m = n := by
  have unsigned : ∀ {k : Nat} {rest : List Char}, digitsOf k ≠ '-' :: rest := by
    intro k rest written
    have digit := Decimal.isDigit_of_mem_digitsOf (written ▸ List.mem_cons_self : '-' ∈ digitsOf k)
    cases digit
  rw [integerText, integerText] at same
  by_cases below : m < 0 <;> by_cases under : n < 0
  · rw [if_pos below, if_pos under] at same
    have := digitsOf_injective (List.append_cancel_left same)
    omega
  · rw [if_pos below, if_neg under] at same
    exact absurd same.symm unsigned
  · rw [if_neg below, if_pos under] at same
    exact absurd same unsigned
  · rw [if_neg below, if_neg under] at same
    have := digitsOf_injective same
    omega

/-- No text of a double is one of a whole number: it keeps its point or has an exponent. -/
theorem mem_finiteText (negative : Bool) (units : Nat) :
    ∃ c ∈ Double.finiteText decimalStyle negative units, c.isDigit = false ∧ c ≠ '-' := by
  obtain ⟨c, inside, other⟩ := @Decimal.not_digits_text (Double.shortest units) (-5) 15
  exact ⟨c, List.mem_append_right _ inside, other⟩

theorem head_finiteText (negative : Bool) (units : Nat) :
    ∃ first rest, Double.finiteText decimalStyle negative units = first :: rest ∧
      (first.isDigit = true ∨ first = '-') := by
  obtain ⟨first, rest, written, digit⟩ := @Decimal.head_text (Double.shortest units) (-5) 15
  rw [Double.finiteText, decimalStyle, written]
  cases negative with
  | false => exact ⟨first, rest, rfl, Or.inl digit⟩
  | true => exact ⟨'-', first :: rest, rfl, Or.inr rfl⟩

theorem integer_ne_double (n : Int) (negative : Bool) (units : Nat) :
    String.ofList (integerText n) ≠ String.ofList (doubleText (.finite negative units)) := by
  intro same
  have texts : integerText n = doubleText (.finite negative units) := String.ofList_injective same
  obtain ⟨c, inside, other, sign⟩ := mem_finiteText negative units
  have numeric := mem_integerText (texts ▸ inside : c ∈ integerText n)
  simp [other, sign] at numeric

theorem bool_ne_integer (value : Bool) (n : Int) :
    (if value then "true" else "false") ≠ String.ofList (integerText n) := by
  intro same
  have texts := congrArg String.toList same
  rw [String.toList_ofList] at texts
  have letter : 't' ∈ integerText n ∨ 'f' ∈ integerText n := by
    rw [← texts]
    cases value <;> decide
  rcases letter with listed | listed <;> exact absurd (mem_integerText listed) (by decide)

theorem bool_ne_double (value negative : Bool) (units : Nat) :
    (if value then "true" else "false") ≠
      String.ofList (doubleText (.finite negative units)) := by
  intro same
  have texts := congrArg String.toList same
  obtain ⟨first, rest, written, numeric⟩ := head_finiteText negative units
  rw [String.toList_ofList, doubleText, written] at texts
  cases value <;> (cases texts; exact absurd numeric (by decide))

theorem double_text {value : Double} (numeral : (double value).Numeral) :
    ∃ negative units, value = .finite negative units ∧ Double.Exact units := by
  cases value with
  | nan => cases numeral
  | infinite negative => cases numeral
  | finite negative units => exact ⟨negative, units, rfl, numeral⟩

/-- Numbers and truth values of one text are equal. -/
theorem eq_of_same_text {a b : Json} (numeralA : a.Numeral) (numeralB : b.Numeral)
    (bareA : a.text? = none) (bareB : b.text? = none) {text : String}
    (textA : a.scalarText? = some text) (textB : b.scalarText? = some text) : a = b := by
  have same := textA.trans textB.symm
  cases a with
  | bool left =>
    cases b with
    | bool right =>
      cases left <;> cases right <;> first | rfl | exact absurd (Option.some.inj same) (by decide)
    | integer n => exact absurd (Option.some.inj same) (bool_ne_integer left n)
    | double value =>
      obtain ⟨negative, units, rfl, -⟩ := double_text numeralB
      exact absurd (Option.some.inj same) (bool_ne_double left negative units)
    | string other => cases bareB
    | null | array | object => cases textB
  | integer m =>
    cases b with
    | bool right => exact absurd (Option.some.inj same).symm (bool_ne_integer right m)
    | integer n => rw [eq_of_integerText (String.ofList_injective (Option.some.inj same))]
    | double value =>
      obtain ⟨negative, units, rfl, -⟩ := double_text numeralB
      exact absurd (Option.some.inj same) (integer_ne_double m negative units)
    | string other => cases bareB
    | null | array | object => cases textB
  | double value =>
    obtain ⟨negative, units, rfl, exactA⟩ := double_text numeralA
    cases b with
    | bool right => exact absurd (Option.some.inj same).symm (bool_ne_double right negative units)
    | integer n => exact absurd (Option.some.inj same).symm (integer_ne_double n negative units)
    | double other =>
      obtain ⟨sign, count, rfl, exactB⟩ := double_text numeralB
      obtain ⟨rfl, rfl⟩ := Double.eq_of_finiteText exactA exactB
        (String.ofList_injective (Option.some.inj same))
      rfl
    | string other => cases bareB
    | null | array | object => cases textB
  | string other => cases bareA
  | null | array | object => cases textA

/-- Two scalars have one text exactly when they are equal or one is a string that spells the
other. -/
theorem same_text_iff {a b : Json} (numeralA : a.Numeral) (numeralB : b.Numeral)
    (scalar : a.scalarText?.isSome) : a.scalarText? = b.scalarText? ↔ Alike a b := by
  refine ⟨fun same => ?_, Alike.same_text⟩
  obtain ⟨text, textA⟩ := Option.isSome_iff_exists.mp scalar
  have textB := same.symm.trans textA
  cases bareA : a.text? with
  | some spelt =>
    cases a <;> cases bareA
    cases textA
    exact .spelling textB
  | none =>
    cases bareB : b.text? with
    | some spelt =>
      cases b <;> cases bareB
      cases textB
      exact .spelled textA
    | none =>
      rw [eq_of_same_text numeralA numeralB bareA bareB textA textB]
      exact .equal b

end Json

end CachedViews
