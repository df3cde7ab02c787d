import CachedViews.Number.Decimal
import CachedViews.Proofs.Number.Rounding
import Mathlib.Algebra.Order.Field.Power
import Mathlib.Algebra.Order.Field.Rat
import Mathlib.Data.Nat.Log
import Mathlib.Data.Nat.Prime.Basic
import Mathlib.Tactic.Linarith

/-!
The shortest decimals are read back: a decimal that `Double.shortest` finds lies between the
midpoints to the two neighbours of the number it was made from, so no two numbers of binary64 have
one decimal. The search ends: seventeen digits leave a grid that is finer than the room between
the midpoints.
-/
namespace CachedViews

namespace Decimal

/-- The number that a decimal stands for. -/
def value (d : Decimal) : ℚ := d.digits * (10 : ℚ) ^ d.exponent

theorem strip_value (fuel : Nat) (d : Decimal) : (strip fuel d).value = d.value := by
  induction fuel generalizing d with
  | zero => rfl
  | succ fuel ih =>
    rw [strip]
    split
    · rename_i whole
      rw [ih, value, value, zpow_add₀ (by norm_num), zpow_one]
      have split : d.digits = 10 * (d.digits / 10) := by omega
      have parts : (d.digits : ℚ) = 10 * (d.digits / 10 : Nat) := by exact_mod_cast split
      rw [parts]
      ring
    · rfl

end Decimal

namespace Double

/-! ### Neighbours -/

theorem spacing_eq (units : Nat) : spacing units = 2 ^ (Nat.log2 units - 52) := rfl

theorem spacing_pos (units : Nat) : 0 < spacing units := Nat.two_pow_pos _

theorem lt_spacing (units : Nat) : units < 2 ^ 53 * spacing units := by
  rw [spacing_eq, ← Nat.pow_add]
  exact Nat.lt_of_lt_of_le Nat.lt_log2_self (Nat.pow_le_pow_right (by decide) (by omega))

theorem spacing_of_wide {units : Nat} (wide : 1 < spacing units) :
    2 ^ 52 * spacing units = Width.values (Nat.log2 units) := by
  have large : 52 < Nat.log2 units := by
    apply Nat.lt_of_not_le
    intro small
    rw [spacing_eq, Nat.sub_eq_zero_of_le small] at wide
    exact Nat.lt_irrefl _ wide
  rw [spacing_eq, ← Nat.pow_add]
  exact congrArg (2 ^ ·) (by omega)

theorem le_of_wide {units : Nat} (wide : 1 < spacing units) : 2 ^ 52 * spacing units ≤ units := by
  rw [spacing_of_wide wide]
  apply Nat.log2_self_le
  rintro rfl
  exact absurd wide (by decide)

/-- The distance to the next smaller number: half as far where the exponent changes. -/
def spacingBelow (units : Nat) : Nat :=
  if units = Width.values (Nat.log2 units) ∧ 1 < spacing units then spacing units / 2
  else spacing units

theorem spacingBelow_cases (units : Nat) :
    spacingBelow units = spacing units ∧
        (1 < spacing units → 2 ^ 52 * spacing units < units) ∨
      2 * spacingBelow units = spacing units ∧ units = 2 ^ 52 * spacing units := by
  rw [spacingBelow]
  split
  · rename_i boundary
    obtain ⟨power, wide⟩ := boundary
    obtain ⟨half, whole⟩ : 2 ∣ spacing units := by
      rw [spacing_eq] at wide ⊢
      exact dvd_pow_self 2 fun none => by simp [none] at wide
    exact Or.inr ⟨by omega, by rw [spacing_of_wide wide, ← power]⟩
  · rename_i boundary
    refine Or.inl ⟨rfl, fun wide => Nat.lt_of_le_of_ne (le_of_wide wide) fun same => ?_⟩
    exact boundary ⟨by rw [← spacing_of_wide wide, same], wide⟩

theorem spacingBelow_pos (units : Nat) : 0 < spacingBelow units := by
  have some := spacing_pos units
  rcases spacingBelow_cases units with ⟨same, -⟩ | ⟨half, -⟩ <;> omega

theorem spacingBelow_dvd (units : Nat) : spacingBelow units ∣ spacing units := by
  rcases spacingBelow_cases units with ⟨same, -⟩ | ⟨half, -⟩
  · rw [same]
  · exact ⟨2, by omega⟩

theorem spacingBelow_le (units : Nat) : spacingBelow units ≤ spacing units :=
  Nat.le_of_dvd (spacing_pos units) (spacingBelow_dvd units)

theorem spacingBelow_le_self {units : Nat} (some : 0 < units) : spacingBelow units ≤ units :=
  Nat.le_trans (spacingBelow_le units) (spacing_le_self some)

theorem spacingBelow_dvd_or (a b : Nat) :
    spacingBelow b ∣ spacing a ∨ 2 * spacing a ≤ spacingBelow b := by
  obtain ⟨exponent, -, same⟩ := (Nat.dvd_prime_pow Nat.prime_two).mp (spacingBelow_dvd b)
  rw [same, spacing_eq]
  rcases Nat.lt_or_ge (Nat.log2 a - 52) exponent with below | above
  · right
    rw [← Nat.pow_succ']
    exact Nat.pow_le_pow_right (by decide) below
  · exact Or.inl (Nat.pow_dvd_pow 2 above)

/-- A count of units with at most 53 significant bits, as numbers of binary64 have. -/
def Exact (units : Nat) : Prop := spacing units ∣ units

variable {a b : Nat}

theorem Exact.room (exact : Exact b) (wide : 1 < spacingBelow b) :
    (2 ^ 52 + 1) * spacingBelow b ≤ b := by
  rcases spacingBelow_cases b with ⟨same, past⟩ | ⟨half, power⟩
  · rw [same] at wide ⊢
    obtain ⟨n, multiple⟩ := exact
    have further : spacing b * 2 ^ 52 < spacing b * n := by
      rw [← multiple, Nat.mul_comm]
      exact past wide
    have more : 2 ^ 52 + 1 ≤ n := Nat.lt_of_mul_lt_mul_left further
    calc (2 ^ 52 + 1) * spacing b ≤ n * spacing b := Nat.mul_le_mul_right _ more
      _ = b := by rw [Nat.mul_comm, ← multiple]
  · omega

theorem Exact.next_le (exactA : Exact a) (exactB : Exact b) (below : a < b) :
    a + spacing a ≤ b := by
  have logs : Nat.log2 a ≤ Nat.log2 b := by
    rw [Nat.log2_eq_log_two, Nat.log2_eq_log_two]
    exact Nat.log_mono_right (Nat.le_of_lt below)
  have coarser : spacing a ∣ spacing b := Nat.pow_dvd_pow 2 (Nat.sub_le_sub_right logs 52)
  have gap : spacing a ∣ b - a := Nat.dvd_sub (coarser.trans exactB) exactA
  have := Nat.le_of_dvd (Nat.sub_pos_of_lt below) gap
  omega

theorem Exact.le_previous (exactA : Exact a) (exactB : Exact b) (below : a < b) :
    a + spacingBelow b ≤ b := by
  rcases spacingBelow_dvd_or a b with finer | coarser
  · have gap : spacingBelow b ∣ b - a :=
      Nat.dvd_sub ((spacingBelow_dvd b).trans exactB) (finer.trans exactA)
    have := Nat.le_of_dvd (Nat.sub_pos_of_lt below) gap
    omega
  · have near := lt_spacing a
    have some := spacing_pos a
    have := exactB.room (by omega)
    omega

/-! ### Decimals that round to a number -/

/-- A number of quarter units that rounds to `units`: it is between the midpoints to both
neighbours, or is one of them and the last bit is even. -/
structure Rounds (units : Nat) (quarters : ℚ) : Prop where
  above : 4 * (units : ℚ) - 2 * spacingBelow units ≤ quarters
  below : quarters ≤ 4 * (units : ℚ) + 2 * spacing units
  even : quarters = 4 * (units : ℚ) - 2 * spacingBelow units ∨
    quarters = 4 * (units : ℚ) + 2 * spacing units → units / spacing units % 2 = 0

theorem Rounds.not_lt {quarters : ℚ} (exactA : Exact a) (exactB : Exact b)
    (left : Rounds a quarters) (right : Rounds b quarters) : ¬ a < b := by
  intro less
  have next : (a : ℚ) + spacing a ≤ b := by exact_mod_cast exactA.next_le exactB less
  have previous : (a : ℚ) + spacingBelow b ≤ b := by exact_mod_cast exactA.le_previous exactB less
  -- Both are the midpoint of two neighbours, and one of these is odd.
  have touches : (a : ℚ) + spacing a = b := by
    have := left.below
    have := right.above
    linarith
  have touched : (a : ℚ) + spacingBelow b = b := by
    have := left.below
    have := right.above
    linarith
  have evenA := left.even (Or.inr (by have := left.below; have := right.above; linarith))
  have evenB := right.even (Or.inl (by have := left.below; have := right.above; linarith))
  have onward : a + spacing a = b := by exact_mod_cast touches
  have back : a + spacingBelow b = b := by exact_mod_cast touched
  have some := spacing_pos a
  obtain ⟨n, multiple⟩ := exactA
  rcases spacingBelow_cases b with ⟨same, -⟩ | ⟨half, power⟩
  · have equal : spacing b = spacing a := by omega
    rw [equal, ← onward, Nat.add_div_right _ some] at evenB
    omega
  · have wide : spacing a = spacingBelow b := by omega
    rw [Nat.div_eq_of_eq_mul_right some multiple] at evenA
    have odd : spacing a * (n + 1) = spacing a * 2 ^ 53 := by
      rw [Nat.mul_add, ← multiple, Nat.mul_one]
      omega
    have := Nat.eq_of_mul_eq_mul_left some odd
    omega

theorem Rounds.unique {quarters : ℚ} (exactA : Exact a) (exactB : Exact b)
    (left : Rounds a quarters) (right : Rounds b quarters) : a = b :=
  Nat.le_antisymm (Nat.le_of_not_lt (Rounds.not_lt exactB exactA right left))
    (Nat.le_of_not_lt (Rounds.not_lt exactA exactB left right))

theorem roundingInterval_eq (units : Nat) :
    roundingInterval units = (4 * units - 2 * spacingBelow units, 4 * units + 2 * spacing units,
      decide (units / spacing units % 2 = 0)) := rfl

theorem rounds_of_inside {units numerator denominator : Nat} (some : 0 < units)
    (parts : 0 < denominator)
    (inside : insideInterval (roundingInterval units) numerator denominator = true) :
    Rounds units (numerator / denominator) := by
  have least : 2 * spacingBelow units ≤ 4 * units := by
    have := spacingBelow_le_self some
    omega
  have low : ((4 * units - 2 * spacingBelow units : Nat) : ℚ) =
      4 * (units : ℚ) - 2 * spacingBelow units := by
    rw [Nat.cast_sub least]
    push_cast
    rfl
  have high : ((4 * units + 2 * spacing units : Nat) : ℚ) =
      4 * (units : ℚ) + 2 * spacing units := by
    push_cast
    rfl
  have pos : (0 : ℚ) < denominator := by exact_mod_cast parts
  simp only [roundingInterval_eq, insideInterval] at inside
  by_cases even : units / spacing units % 2 = 0
  · simp only [even, decide_true, if_true, Bool.and_eq_true] at inside
    have above := of_decide_eq_true inside.1
    have below := of_decide_eq_true inside.2
    refine ⟨?_, ?_, fun _ => even⟩
    · rw [← low, le_div_iff₀ pos]
      exact_mod_cast above
    · rw [← high, div_le_iff₀ pos]
      exact_mod_cast below
  · simp only [even, decide_false, Bool.false_eq_true, if_false, Bool.and_eq_true] at inside
    have above := of_decide_eq_true inside.1
    have below := of_decide_eq_true inside.2
    have more : 4 * (units : ℚ) - 2 * spacingBelow units < numerator / denominator := by
      rw [← low, lt_div_iff₀ pos]
      exact_mod_cast above
    have less : (numerator / denominator : ℚ) < 4 * units + 2 * spacing units := by
      rw [← high, div_lt_iff₀ pos]
      exact_mod_cast below
    exact ⟨more.le, less.le, fun ends => ends.elim (fun same => absurd same more.ne')
      fun same => absurd same less.ne⟩

/-! ### The search -/

theorem grid_value (exponent : Int) (digits : Nat) :
    ((digits * (4 * unitsPerOne * Nat.pow 10 exponent.toNat) : Nat) : ℚ) /
        (Nat.pow 10 (-exponent).toNat : Nat) =
      (⟨digits, exponent⟩ : Decimal).value * (4 * unitsPerOne) := by
  have power : (10 : ℚ) ^ exponent.toNat / 10 ^ (-exponent).toNat = 10 ^ exponent := by
    rcases Int.le_total 0 exponent with whole | fraction
    · rw [Int.toNat_of_nonpos (by omega : -exponent ≤ 0), pow_zero, div_one, ← zpow_natCast,
        Int.toNat_of_nonneg whole]
    · rw [Int.toNat_of_nonpos fraction, pow_zero, one_div, ← zpow_natCast,
        Int.toNat_of_nonneg (by omega : 0 ≤ -exponent), zpow_neg, inv_inv]
  rw [Decimal.value, ← power]
  push_cast [Nat.pow_eq]
  ring

theorem nearestOnGrid_rounds {units digits : Nat} {exponent : Int} (some : 0 < units)
    (found : nearestOnGrid units exponent = Option.some digits) :
    Rounds units ((⟨digits, exponent⟩ : Decimal).value * (4 * unitsPerOne)) := by
  rw [← grid_value]
  apply rounds_of_inside some (Nat.pow_pos (by decide))
  simp only [nearestOnGrid] at found
  generalize unitsPerOne = one at found ⊢
  have between := divNearest_between (4 * units * Nat.pow 10 (-exponent).toNat)
    (4 * one * Nat.pow 10 exponent.toNat)
  split at found
  · cases found
    assumption
  · cases found
    assumption
  · cases found
    rcases between with same | same <;> (rw [same]; assumption)
  · cases found

/-- There is more room between the midpoints than seventeen digits leave between two decimals. -/
theorem lt_room (units : Nat) : 2 * units < (spacing units + spacingBelow units) * 10 ^ 16 := by
  have near := lt_spacing units
  have some := spacingBelow_pos units
  rcases spacingBelow_cases units with ⟨same, -⟩ | ⟨half, power⟩ <;> omega

theorem inside_of_between {units numerator denominator : Nat}
    (above : (4 * units - 2 * spacingBelow units) * denominator < numerator)
    (below : numerator < (4 * units + 2 * spacing units) * denominator) :
    insideInterval (roundingInterval units) numerator denominator = true := by
  simp only [roundingInterval_eq, insideInterval]
  by_cases even : units / spacing units % 2 = 0
  · simp only [even, decide_true, if_true, Bool.and_eq_true]
    exact ⟨decide_eq_true above.le, decide_eq_true below.le⟩
  · simp only [even, decide_false, Bool.false_eq_true, if_false, Bool.and_eq_true]
    exact ⟨decide_eq_true above, decide_eq_true below⟩

/-- On a grid that fine one of the two decimals around a number rounds to it. -/
theorem nearestOnGrid_found {units : Nat} {exponent : Int} (some : 0 < units)
    (fine : 10 ^ 16 * (unitsPerOne * Nat.pow 10 exponent.toNat) ≤
      units * Nat.pow 10 (-exponent).toNat) :
    ∃ digits, nearestOnGrid units exponent = Option.some digits := by
  have pos : 0 < 4 * unitsPerOne * Nat.pow 10 exponent.toNat :=
    Nat.mul_pos (Nat.mul_pos (by decide) units_pos) (Nat.pow_pos (by decide))
  simp only [nearestOnGrid]
  generalize unitsPerOne = one at fine pos ⊢
  generalize Nat.pow 10 exponent.toNat = power at fine pos ⊢
  have parts : 0 < Nat.pow 10 (-exponent).toNat := Nat.pow_pos (by decide)
  generalize Nat.pow 10 (-exponent).toNat = denominator at fine parts ⊢
  have narrow : 4 * one * power < 2 * (spacing units + spacingBelow units) * denominator := by
    apply Nat.lt_of_mul_lt_mul_left (a := 10 ^ 16)
    calc 10 ^ 16 * (4 * one * power) = 4 * (10 ^ 16 * (one * power)) := by ring
      _ ≤ 4 * (units * denominator) := Nat.mul_le_mul_left 4 fine
      _ = 2 * (2 * units * denominator) := by ring
      _ < 2 * ((spacing units + spacingBelow units) * 10 ^ 16 * denominator) :=
        Nat.mul_lt_mul_of_pos_left (Nat.mul_lt_mul_of_pos_right (lt_room units) parts) (by decide)
      _ = 10 ^ 16 * (2 * (spacing units + spacingBelow units) * denominator) := by ring
  generalize 4 * one * power = step at pos narrow ⊢
  have below := Nat.mul_pos (spacingBelow_pos units) parts
  have above := Nat.mul_pos (spacing_pos units) parts
  have least : 2 * (spacingBelow units * denominator) ≤ 4 * units * denominator := by
    have small : 2 * spacingBelow units ≤ 4 * units := by
      have := spacingBelow_le_self some
      omega
    rw [← Nat.mul_assoc]
    exact Nat.mul_le_mul_right _ small
  have low : (4 * units - 2 * spacingBelow units) * denominator =
      4 * units * denominator - 2 * (spacingBelow units * denominator) := by
    rw [Nat.sub_mul, Nat.mul_assoc 2]
  have high : (4 * units + 2 * spacing units) * denominator =
      4 * units * denominator + 2 * (spacing units * denominator) := by
    rw [Nat.add_mul, Nat.mul_assoc 2]
  have width : 2 * (spacing units + spacingBelow units) * denominator =
      2 * (spacing units * denominator) + 2 * (spacingBelow units * denominator) := by ring
  have whole := Nat.div_add_mod (4 * units * denominator) step
  have rest := Nat.mod_lt (4 * units * denominator) pos
  generalize 4 * units * denominator / step = digits at whole ⊢
  have next : (digits + 1) * step = step * digits + step := by ring
  -- The two decimals lie on either side, and the room is wider than the step between them.
  have found : insideInterval (roundingInterval units) (digits * step) denominator = true ∨
      insideInterval (roundingInterval units) ((digits + 1) * step) denominator = true := by
    rw [Nat.mul_comm digits step]
    by_cases near : (4 * units - 2 * spacingBelow units) * denominator < step * digits
    · exact Or.inl (inside_of_between near (by omega))
    · exact Or.inr (inside_of_between (by omega) (by omega))
  rcases found with inside | inside
  · rw [inside]
    split <;> simp_all
  · rw [inside]
    split <;> simp_all

theorem pow_toNat_mul {exponent : Int} {a b : Nat} (sum : exponent + a = b) :
    10 ^ exponent.toNat * 10 ^ a = 10 ^ (-exponent).toNat * 10 ^ b := by
  rcases Int.le_total 0 exponent with whole | fraction
  · rw [Int.toNat_of_nonpos (by omega : -exponent ≤ 0), pow_zero, one_mul, ← Nat.pow_add]
    exact congrArg (10 ^ ·) (by omega)
  · rw [Int.toNat_of_nonpos fraction, pow_zero, one_mul, ← Nat.pow_add]
    exact congrArg (10 ^ ·) (by omega)

theorem pow_length_le {n : Nat} (some : 0 < n) : 10 ^ ((digitsOf n).length - 1) ≤ n := by
  rcases Nat.eq_zero_or_pos ((digitsOf n).length - 1) with single | more
  · rw [single]
    exact some
  · apply Nat.le_of_not_lt
    intro short
    have := (Nat.length_toDigits_le_iff (by decide) more).mpr short
    unfold digitsOf at this more
    omega

theorem fine_of_scaled {exponent : Int} {units one large a b : Nat} (power : Nat.pow 10 a = large)
    (sum : exponent + (16 + a : Nat) = b) (least : 10 ^ b * one ≤ units * large) :
    10 ^ 16 * (one * 10 ^ exponent.toNat) ≤ units * 10 ^ (-exponent).toNat := by
  subst power
  have pos : 0 < 10 ^ a := Nat.pow_pos (by decide)
  apply Nat.le_of_mul_le_mul_right _ pos
  calc 10 ^ 16 * (one * 10 ^ exponent.toNat) * 10 ^ a
      = 10 ^ exponent.toNat * 10 ^ (16 + a) * one := by ring
    _ = 10 ^ (-exponent).toNat * (10 ^ b * one) := by rw [pow_toNat_mul sum, Nat.mul_assoc]
    _ ≤ 10 ^ (-exponent).toNat * (units * 10 ^ a) := Nat.mul_le_mul_left _ least
    _ = units * 10 ^ (-exponent).toNat * 10 ^ a := by ring

theorem leadingExponent_fine {units : Nat} (some : 0 < units) :
    10 ^ 16 * (unitsPerOne * Nat.pow 10 (leadingExponent units + 1 - 17).toNat) ≤
      units * Nat.pow 10 (-(leadingExponent units + 1 - 17)).toNat := by
  have most : unitsPerOne ≤ Nat.pow 10 400 := by decide +kernel
  rw [leadingExponent]
  generalize power : Nat.pow 10 400 = large at most ⊢
  have scaled : 0 < units * large / unitsPerOne :=
    Nat.div_pos (Nat.le_trans most (Nat.le_mul_of_pos_left _ some)) units_pos
  have digits : 0 < (digitsOf (units * large / unitsPerOne)).length := Nat.length_toDigits_pos
  have least := (Nat.le_div_iff_mul_le units_pos).mp (pow_length_le scaled)
  generalize (digitsOf (units * large / unitsPerOne)).length = length at digits least ⊢
  have sum : (length : Int) - 401 + 1 - 17 + (16 + 400 : Nat) = (length - 1 : Nat) := by omega
  exact fine_of_scaled power sum least

/-- The search for a positive number ends on a grid where it finds a decimal. -/
theorem shortestFrom_found {units : Nat} (some : 0 < units) (count fuel : Nat)
    (ends : count + fuel = 18) (under : count ≤ 17) :
    ∃ digits exponent, nearestOnGrid units exponent = Option.some digits ∧
      shortestFrom units (leadingExponent units) count fuel =
        Decimal.strip 400 ⟨digits, exponent⟩ := by
  induction fuel generalizing count with
  | zero => omega
  | succ fuel ih =>
    rw [shortestFrom]
    cases found : nearestOnGrid units (leadingExponent units + 1 - count) with
    | some digits => exact ⟨digits, _, found, rfl⟩
    | none =>
      by_cases last : count = 17
      · obtain ⟨digits, there⟩ := nearestOnGrid_found some (leadingExponent_fine some)
        rw [last] at found
        rw [show ((17 : Nat) : Int) = 17 from rfl, there] at found
        cases found
      · exact ih (count + 1) (by omega) (by omega)

theorem shortest_rounds {units : Nat} (some : 0 < units) :
    Rounds units ((shortest units).value * (4 * unitsPerOne)) := by
  obtain ⟨digits, exponent, found, same⟩ := shortestFrom_found some 1 17 rfl (by decide)
  rw [shortest, if_neg (Nat.ne_of_gt some), same, Decimal.strip_value]
  exact nearestOnGrid_rounds some found

theorem shortest_value_pos {units : Nat} (some : 0 < units) : 0 < (shortest units).value := by
  have rounds := (shortest_rounds some).above
  have small : 2 * spacingBelow units < 4 * units := by
    have := spacingBelow_le_self some
    omega
  have low : (0 : ℚ) < 4 * units - 2 * spacingBelow units := by
    rw [sub_pos]
    exact_mod_cast small
  have pos : (0 : ℚ) < 4 * unitsPerOne := mul_pos (by norm_num) (Nat.cast_pos.mpr units_pos)
  exact (mul_pos_iff_of_pos_right pos).mp (lt_of_lt_of_le low rounds)

/-- The decimal of a number of binary64 tells which number it is. -/
theorem eq_of_shortest (exactA : Exact a) (exactB : Exact b)
    (same : (shortest a).value = (shortest b).value) : a = b := by
  rcases Nat.eq_zero_or_pos a with rfl | someA
  · rcases Nat.eq_zero_or_pos b with rfl | someB
    · rfl
    · have := shortest_value_pos someB
      rw [← same] at this
      exact absurd this (by simp [shortest, Decimal.value])
  · rcases Nat.eq_zero_or_pos b with rfl | someB
    · have := shortest_value_pos someA
      rw [same] at this
      exact absurd this (by simp [shortest, Decimal.value])
    · exact Rounds.unique exactA exactB (shortest_rounds someA) (same ▸ shortest_rounds someB)

end Double

end CachedViews
