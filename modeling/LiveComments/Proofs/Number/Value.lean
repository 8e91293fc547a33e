import LiveComments.Json.Basic
import Mathlib.Algebra.Order.Field.Rat
import Mathlib.Algebra.Order.Field.Power
import Mathlib.Tactic.FieldSimp
import Mathlib.Tactic.NormNum
import Mathlib.Tactic.Positivity
import Mathlib.Tactic.Ring

namespace LiveComments

namespace Binary64

def sign (x : Binary64) : ℚ := if x.negative then -1 else 1

def value (x : Binary64) : ℚ := x.sign * (x.significand * 2 ^ x.exponent)

theorem magnitude_pos (x : Binary64) : 0 < x.magnitude.2 := by
  unfold magnitude
  split
  · exact Nat.one_pos
  · exact Nat.pow_pos Nat.two_pos

theorem value_eq (x : Binary64) : x.value = x.sign * (x.magnitude.1 / x.magnitude.2 : ℚ) := by
  rw [value, magnitude]
  congr 1
  split
  · rename_i h
    obtain ⟨n, hn⟩ := Int.eq_ofNat_of_zero_le h
    simp [hn]
  · rename_i h
    obtain ⟨n, hn⟩ := Int.eq_ofNat_of_zero_le (show 0 ≤ -x.exponent by omega)
    have he : x.exponent = -(n : ℤ) := by omega
    simp [he, div_eq_mul_inv]

theorem signed_cast (x : Binary64) (n : Nat) : (x.signed n : ℚ) = x.sign * n := by
  unfold signed sign
  split <;> simp

theorem abs_sign (x : Binary64) : |x.sign| = 1 := by
  unfold sign
  split <;> norm_num

theorem abs_value (x : Binary64) : |x.value| = (x.magnitude.1 / x.magnitude.2 : ℚ) := by
  have hnonneg : (0 : ℚ) ≤ x.magnitude.1 / x.magnitude.2 := by positivity
  rw [value_eq, abs_mul, abs_sign, one_mul, abs_of_nonneg hnonneg]

theorem value_of_multiple {x : Binary64} {q : Nat} (h : x.magnitude.1 = x.magnitude.2 * q) :
    x.value = x.signed q := by
  have hne : (x.magnitude.2 : ℚ) ≠ 0 := by exact_mod_cast x.magnitude_pos.ne'
  rw [value_eq, signed_cast, h, Nat.cast_mul, mul_div_cancel_left₀ _ hne]

theorem multiple_of_value {x : Binary64} {n : Int} (h : x.value = n) :
    x.magnitude.1 = x.magnitude.2 * n.natAbs := by
  have hne : (x.magnitude.2 : ℚ) ≠ 0 := by exact_mod_cast x.magnitude_pos.ne'
  have habs : (x.magnitude.1 / x.magnitude.2 : ℚ) = n.natAbs := by
    rw [← abs_value, h, Nat.cast_natAbs, Int.cast_abs]
  rw [div_eq_iff hne, mul_comm] at habs
  exact_mod_cast habs

theorem signed_of_value {x : Binary64} {n : Int} (h : x.value = n) : x.signed n.natAbs = n := by
  have hsigned : ((x.signed n.natAbs : Int) : ℚ) = n :=
    (value_of_multiple (multiple_of_value h)).symm.trans h
  exact Int.cast_injective hsigned

theorem isZero_iff (x : Binary64) : x.isZero = true ↔ x.magnitude.1 = 0 := by
  unfold isZero magnitude
  split <;> simp

theorem below_zero_iff {x : Binary64} {n : Int} (h : x.value = n) :
    (x.negative && !x.isZero) = true ↔ n < 0 := by
  have hzero : x.isZero = true ↔ n.natAbs = 0 := by
    rw [x.isZero_iff, multiple_of_value h, Nat.mul_eq_zero, or_iff_right x.magnitude_pos.ne']
  have hsigned := signed_of_value h
  simp only [Bool.and_eq_true, Bool.not_eq_true', ← Bool.not_eq_true, hzero]
  unfold signed at hsigned
  split at hsigned
  · rename_i hnegative
    simp only [hnegative, true_and]
    omega
  · rename_i hnegative
    simp only [hnegative, Bool.false_eq_true, false_and, false_iff]
    omega

theorem bound_le_iff {x : Binary64} {n : Int} (h : x.value = n) (bound : Nat) :
    bound * x.magnitude.2 ≤ x.magnitude.1 ↔ bound ≤ n.natAbs := by
  rw [multiple_of_value h, Nat.mul_comm]
  exact Nat.mul_le_mul_left_iff x.magnitude_pos

theorem integer?_eq_some {x : Binary64} {n : Int} : x.integer? = some n ↔ x.value = n := by
  unfold integer?
  constructor
  · intro h
    dsimp only at h
    split at h
    · rename_i hmod
      rw [← Option.some.inj h]
      exact value_of_multiple (Nat.mul_div_cancel' (Nat.dvd_of_mod_eq_zero hmod)).symm
    · cases h
  · intro h
    have hmultiple := multiple_of_value h
    have hmod : x.magnitude.1 % x.magnitude.2 = 0 := by rw [hmultiple, Nat.mul_mod_right]
    have hdiv : x.magnitude.1 / x.magnitude.2 = n.natAbs := by
      rw [hmultiple, Nat.mul_div_cancel_left _ x.magnitude_pos]
    simp only [hmod, hdiv, if_true, signed_of_value h]

theorem roundAway_of_value {x : Binary64} {n : Int} (h : x.value = n) : x.roundAway = n := by
  have hmultiple := multiple_of_value h
  have hpos := x.magnitude_pos
  have hround : (2 * x.magnitude.1 + x.magnitude.2) / (2 * x.magnitude.2) = n.natAbs := by
    have hsum : 2 * x.magnitude.1 + x.magnitude.2 =
        x.magnitude.2 + 2 * x.magnitude.2 * n.natAbs := by
      rw [hmultiple]
      ring
    rw [hsum, Nat.add_mul_div_left _ _ (by omega), Nat.div_eq_of_lt (by omega), Nat.zero_add]
  simp only [roundAway, hround, signed_of_value h]

end Binary64

namespace Json

def number? : Json → Option ℚ
  | .int n => some n
  | .float x => some x.value
  | _ => none

def whole? : Json → Option Int
  | .int n => some n
  | .float x => x.integer?
  | _ => none

theorem whole?_eq_some {j : Json} {n : Int} : j.whole? = some n ↔ j.number? = some (n : ℚ) := by
  cases j with
  | int m => simp only [whole?, number?, Option.some.injEq, Int.cast_inj]
  | float x => simp only [whole?, number?, Option.some.injEq, Binary64.integer?_eq_some]
  | _ => simp [whole?, number?]

end Json

end LiveComments
