/-!
Orders of composite keys: compare by one part, then by the next. Keys that compare
equal are equal when the parts determine the key.
-/
namespace CachedViews

theorem eq_of_compareOn {A B : Type} [Ord B] [Std.LawfulEqOrd B] (part : A → B) {a b : A}
    (same : compareOn part a b = .eq) : part a = part b :=
  @Std.LawfulEqCmp.eq_of_compare B compare _ _ _ same

theorem eq_and_eq_of_compareLex {A : Type} {first second : A → A → Ordering} {a b : A}
    (same : compareLex first second a b = .eq) : first a b = .eq ∧ second a b = .eq := by
  simpa [compareLex, Ordering.then_eq_eq] using same

/-- Pairs are ordered by their first part, then by their second. -/
instance pairOrd {A B : Type} [Ord A] [Ord B] : Ord (A × B) :=
  ⟨compareLex (compareOn Prod.fst) (compareOn Prod.snd)⟩

instance pairTransOrd {A B : Type} [Ord A] [Ord B] [Std.TransOrd A] [Std.TransOrd B] :
    Std.TransOrd (A × B) :=
  inferInstanceAs (Std.TransCmp (compareLex (compareOn Prod.fst) (compareOn Prod.snd)))

instance pairLawfulEqOrd {A B : Type} [Ord A] [Ord B] [Std.LawfulEqOrd A] [Std.LawfulEqOrd B]
    [Std.TransOrd A] [Std.TransOrd B] : Std.LawfulEqOrd (A × B) where
  eq_of_compare same :=
    have parts := eq_and_eq_of_compareLex same
    Prod.ext (eq_of_compareOn Prod.fst parts.1) (eq_of_compareOn Prod.snd parts.2)

end CachedViews
