import CachedViews.Number.Double
import Mathlib.Tactic.Ring

/-!
How far rounding can take a number. Where only the size of a result matters, a coarse bound does: a
rounded number of units is at most about twice the exact one.
-/
namespace CachedViews

theorem divNearest_between (numerator denominator : Nat) :
    divNearest numerator denominator = numerator / denominator ∨
      divNearest numerator denominator = numerator / denominator + 1 := by
  unfold divNearest
  dsimp only
  split_ifs <;> simp

theorem divNearest_le (numerator denominator : Nat) :
    divNearest numerator denominator ≤ numerator / denominator + 1 := by
  rcases divNearest_between numerator denominator with same | same <;> omega

theorem divNearest_mono {fewer more : Nat} (least : fewer ≤ more) (denominator : Nat) :
    divNearest fewer denominator ≤ divNearest more denominator := by
  have quotients : fewer / denominator ≤ more / denominator := Nat.div_le_div_right least
  have whole := Nat.div_add_mod fewer denominator
  have whole' := Nat.div_add_mod more denominator
  unfold divNearest
  dsimp only
  -- the remainders only matter where the quotients are equal
  rcases Nat.lt_or_eq_of_le quotients with below | same
  · have least : fewer / denominator + 1 ≤ more / denominator := below
    split_ifs <;> omega
  · rw [same] at whole ⊢
    split_ifs <;> omega

namespace Double

theorem spacing_le_self {units : Nat} (some : 0 < units) : spacing units ≤ units :=
  Nat.le_trans (Nat.pow_le_pow_right (by decide) (Nat.sub_le _ _))
    (Nat.log2_self_le (Nat.ne_of_gt some))

/-- The distance to the next number is at most the number itself, but for the smallest ones. -/
theorem spacing_le (units : Nat) : spacing units ≤ units + 1 := by
  rcases Nat.eq_zero_or_pos units with rfl | some
  · decide
  · exact Nat.le_trans (spacing_le_self some) (Nat.le_succ _)

/-- A quotient that is far from overflowing is rounded to a finite number. -/
theorem roundUnits_bounded (negative : Bool) (numerator denominator : Nat)
    (small : 2 * (numerator / denominator) + 1 < overflow) :
    ∃ units ≤ 2 * (numerator / denominator) + 1,
      roundUnits negative numerator denominator = finite negative units := by
  have near : divNearest numerator (denominator * spacing (numerator / denominator)) *
      spacing (numerator / denominator) ≤ 2 * (numerator / denominator) + 1 := by
    have step := spacing_le (numerator / denominator)
    generalize spacing (numerator / denominator) = spacing at step ⊢
    calc divNearest numerator (denominator * spacing) * spacing
        ≤ (numerator / (denominator * spacing) + 1) * spacing :=
          Nat.mul_le_mul_right _ (divNearest_le _ _)
      _ = numerator / denominator / spacing * spacing + spacing := by
          rw [Nat.div_div_eq_div_mul]
          ring
      _ ≤ numerator / denominator + spacing := Nat.add_le_add_right (Nat.div_mul_le_self _ _) _
      _ ≤ 2 * (numerator / denominator) + 1 := by omega
  refine ⟨_, near, ?_⟩
  rw [roundUnits]
  exact if_neg (Nat.not_le.mpr (Nat.lt_of_le_of_lt near small))

theorem units_room : 2 ^ 64 * unitsPerOne ≤ overflow := by decide +kernel

theorem units_pos : 0 < unitsPerOne := by decide +kernel

theorem ofNat_bounded {n limit : Nat} (small : n ≤ limit) (few : limit < 2 ^ 60) :
    ∃ units ≤ (2 * limit + 1) * unitsPerOne, ofNat n = finite false units := by
  have room := units_room
  have some := units_pos
  have most : n * unitsPerOne / 1 ≤ limit * unitsPerOne := by
    rw [Nat.div_one]
    exact Nat.mul_le_mul_right _ small
  have below : limit * unitsPerOne ≤ 2 ^ 60 * unitsPerOne :=
    Nat.mul_le_mul_right _ (Nat.le_of_lt few)
  obtain ⟨units, near, same⟩ := roundUnits_bounded false (n * unitsPerOne) 1 (by omega)
  refine ⟨units, Nat.le_trans near ?_, same⟩
  rw [Nat.add_mul, Nat.one_mul, Nat.mul_assoc]
  omega

theorem add_finite (a b : Nat) :
    (finite false a).add (finite false b) = roundUnits false (a + b) 1 := by
  have total : signedUnits false a + signedUnits false b = ((a + b : Nat) : Int) := by
    simp [signedUnits]
  have sign : (if ((a + b : Nat) : Int) = 0 then false && false
      else decide (((a + b : Nat) : Int) < 0)) = false := by
    split
    · rfl
    · exact decide_eq_false (by omega)
  rw [add, total, sign, Int.natAbs_natCast]

theorem scaledNearest_mono (scale : Nat) {fewer more : Nat} (least : fewer ≤ more) :
    scaledNearest scale fewer ≤ scaledNearest scale more :=
  divNearest_mono (Nat.mul_le_mul_right _ least) _

/-- A finite number that is not above another one of no sign, or has a sign, keeps to the
bound when it is raised to zero. -/
theorem max_zero_finite {negative : Bool} {units most : Nat}
    (below : negative = true ∨ units ≤ most) :
    ∃ sign, ∃ rest ≤ most,
      (finite negative units).max zero = finite sign rest ∧ (sign = true → rest = 0) := by
  rw [zero, Double.max]
  split
  · exact ⟨false, 0, Nat.zero_le _, rfl, by simp⟩
  · rename_i above
    cases negative with
    | false => exact ⟨false, units, by simpa using below, rfl, by simp⟩
    | true =>
      have none : units = 0 := by
        simp only [lt, signedUnits, if_true] at above
        simp at above
        omega
      exact ⟨true, units, by omega, rfl, fun _ => none⟩
  all_goals simp_all

/-- Whatever is held between zero and a number that is not negative is such a number itself. -/
theorem clamp_finite (a : Double) {sign : Bool} {most : Nat} (positive : sign = true → most = 0) :
    ∃ negative, ∃ units ≤ most, (a.min (finite sign most)).max zero = finite negative units ∧
      (negative = true → units = 0) := by
  cases a with
  | nan => exact max_zero_finite (Or.inr (Nat.le_refl most))
  | infinite negative =>
    cases negative with
    | false => exact max_zero_finite (Or.inr (Nat.le_refl most))
    | true => exact ⟨false, 0, Nat.zero_le _, rfl, by simp⟩
  | finite negative units =>
    rw [Double.min]
    split
    · exact max_zero_finite (Or.inr (Nat.le_refl most))
    · rename_i below
      apply max_zero_finite
      simp only [lt, signedUnits] at below
      cases negative <;> cases sign <;> simp_all
    all_goals simp_all

end Double

end CachedViews
