import CachedViews.Bytes
import CachedViews.Proofs.Sorted

/-!
Packing keeps everything: identifiers and texts are read back from their bytes, and the bytes of
identifiers have the order of the identifiers.
-/
namespace CachedViews

theorem Width.values_pos (bits : Nat) : 0 < values bits := Nat.two_pow_pos bits

theorem Width.values_byte (count : Nat) :
    values (8 * (count + 1)) = 256 * values (8 * count) :=
  (Nat.pow_add 2 (8 * count) 8).trans (Nat.mul_comm _ _)

namespace Bytes

@[simp] theorem length_bigEndian (count n : Nat) : (bigEndian count n).length = count := by
  induction count generalizing n with
  | zero => rfl
  | succ count ih => rw [bigEndian, List.length_cons, ih]

theorem toNat_first {count n : Nat} (fits : n < Width.values (8 * (count + 1))) :
    (UInt8.ofNat (n / Width.values (8 * count))).toNat = n / Width.values (8 * count) := by
  rw [Width.values_byte] at fits
  have small : n / Width.values (8 * count) < 256 :=
    (Nat.div_lt_iff_lt_mul (Width.values_pos _)).mpr fits
  rw [UInt8.toNat_ofNat', Nat.mod_eq_of_lt small]

theorem number_bigEndian {count n : Nat} (fits : n < Width.values (8 * count)) :
    (bigEndian count n).number = n := by
  induction count generalizing n with
  | zero =>
    rw [Nat.lt_one_iff.mp fits]
    rfl
  | succ count ih =>
    rw [bigEndian, number, length_bigEndian, toNat_first fits,
      ih (Nat.mod_lt n (Width.values_pos _)), Nat.mul_comm, Nat.div_add_mod]

theorem compare_quotients (unit n m : Nat) :
    compare n m = (compare (n / unit) (m / unit)).then (compare (n % unit) (m % unit)) := by
  have left := Nat.div_add_mod n unit
  have right := Nat.div_add_mod m unit
  rcases Nat.lt_trichotomy (n / unit) (m / unit) with below | same | above
  · have less : n < m := Nat.lt_of_div_lt_div below
    rw [Nat.compare_eq_lt.mpr below, Nat.compare_eq_lt.mpr less]
    rfl
  · rw [Nat.compare_eq_eq.mpr same, Ordering.eq_then]
    rw [same] at left
    generalize unit * (m / unit) = multiple at left right
    rcases Nat.lt_trichotomy (n % unit) (m % unit) with below | same | above
    · rw [Nat.compare_eq_lt.mpr below, Nat.compare_eq_lt]
      omega
    · rw [Nat.compare_eq_eq.mpr same, Nat.compare_eq_eq]
      omega
    · rw [Nat.compare_eq_gt.mpr above, Nat.compare_eq_gt]
      omega
  · have greater : m < n := Nat.lt_of_div_lt_div above
    rw [Nat.compare_eq_gt.mpr above, Nat.compare_eq_gt.mpr greater]
    rfl

theorem compare_byte (a b : UInt8) : compare a b = compare a.toNat b.toNat := by
  change compareOfLessAndEq a b = compareOfLessAndEq a.toNat b.toNat
  simp only [compareOfLessAndEq, UInt8.lt_iff_toNat_lt, UInt8.toNat_inj]

theorem compare_bigEndian {count n m : Nat} (left : n < Width.values (8 * count))
    (right : m < Width.values (8 * count)) :
    compare (bigEndian count n) (bigEndian count m) = compare n m := by
  induction count generalizing n m with
  | zero =>
    rw [Nat.lt_one_iff.mp left, Nat.lt_one_iff.mp right]
    rfl
  | succ count ih =>
    have unit := Width.values_pos (8 * count)
    rw [compare_quotients (Width.values (8 * count)) n m,
      ← ih (Nat.mod_lt n unit) (Nat.mod_lt m unit), ← toNat_first left, ← toNat_first right,
      ← compare_byte]
    exact List.compareLex_cons_cons

theorem compare_append {first second : Bytes} (level : first.length = second.length)
    (left right : Bytes) :
    compare (first ++ left) (second ++ right) =
      (compare first second).then (compare left right) := by
  induction first generalizing second with
  | nil =>
    rw [List.length_nil, eq_comm, List.length_eq_zero_iff] at level
    rw [level]
    rfl
  | cons byte rest ih =>
    cases second with
    | nil => cases level
    | cons other more =>
      have tails := ih (Nat.succ.inj level)
      have joined : ∀ {a b : UInt8} {as bs : Bytes}, compare (a :: as) (b :: bs) =
          (compare a b).then (compare as bs) := List.compareLex_cons_cons
      rw [List.cons_append, List.cons_append, joined, joined, tails, Ordering.then_assoc]

theorem text?_ofText (text : String) : (ofText text).text? = some text := by
  rw [text?, ofText, Array.toArray_toList, String.fromUTF8?]
  exact dif_pos text.isValidUTF8

end Bytes

namespace Uuid

theorem bits_lt (uuid : Uuid) : uuid.bits.toNat < Width.values (8 * 16) := uuid.bits.isLt

@[simp] theorem length_bytes (uuid : Uuid) : uuid.bytes.length = 16 := Bytes.length_bigEndian ..

theorem ofBytes?_bytes (uuid : Uuid) : ofBytes? uuid.bytes = some uuid := by
  rw [ofBytes?, if_pos uuid.length_bytes, bytes, Bytes.number_bigEndian uuid.bits_lt,
    BitVec.ofNat_toNat, BitVec.setWidth_eq]

theorem bytes_injective : Function.Injective bytes := by
  intro a b same
  have read := congrArg ofBytes? same
  rw [ofBytes?_bytes, ofBytes?_bytes] at read
  exact Option.some.inj read

/-- Identifiers have the order of their bytes. -/
theorem compare_bytes (a b : Uuid) : compare a.bytes b.bytes = compare a b := by
  rw [bytes, bytes, Bytes.compare_bigEndian a.bits_lt b.bits_lt]
  change compareOfLessAndEq a.bits.toNat b.bits.toNat = compareOfLessAndEq a.bits b.bits
  simp only [compareOfLessAndEq, BitVec.lt_def, BitVec.toNat_inj]

end Uuid

end CachedViews
