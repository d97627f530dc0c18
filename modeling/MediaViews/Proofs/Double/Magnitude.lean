import Mathlib
import MediaViews.Double.Basic

/-! The rational numbers that finite doubles stand for. From 2^52 on they are whole, so that to cut one
to a whole number does not move it across a bound that lies further out. -/
namespace MediaViews.Double

def magnitude (rank : Nat) : ℚ := significand rank * 2 ^ exponent rank

def toRat : Double → ℚ
  | nan => 0
  | number negative rank => if negative then -magnitude rank.val else magnitude rank.val

theorem significand_lt (rank : Nat) : significand rank < 2 ^ 53 := by
  have hmod : rank % Nat.pow 2 52 < Nat.pow 2 52 := Nat.mod_lt _ (by decide)
  have hpow : Nat.pow 2 52 = 2 ^ 52 := rfl
  rw [significand]
  split <;> omega

theorem magnitude_nonneg (rank : Nat) : 0 ≤ magnitude rank := by
  unfold magnitude
  positivity

theorem wholePart_eq_magnitude {rank : Nat} (h : 0 ≤ exponent rank) :
    (wholePart rank : ℚ) = magnitude rank := by
  obtain ⟨e, he⟩ := Int.eq_ofNat_of_zero_le h
  rw [wholePart, if_pos h, magnitude, he, Int.toNat_natCast, Nat.pow_eq]
  push_cast
  rw [zpow_natCast]

theorem wholePart_lt {rank : Nat} (h : exponent rank < 0) : wholePart rank < 2 ^ 52 := by
  have hpow : 2 ^ 1 ≤ 2 ^ (-exponent rank).toNat := Nat.pow_le_pow_right (by decide) (by omega)
  have hlt := significand_lt rank
  rw [wholePart, if_neg (not_le.2 h), Nat.pow_eq, Nat.div_lt_iff_lt_mul (by omega)]
  omega

theorem magnitude_lt {rank : Nat} (h : exponent rank < 0) : magnitude rank < 2 ^ 52 := by
  have hpow : (2 : ℚ) ^ exponent rank ≤ 2 ^ (-1 : ℤ) := zpow_le_zpow_right₀ (by norm_num) (by omega)
  have hlt : (significand rank : ℚ) < 2 ^ 53 := by exact_mod_cast significand_lt rank
  calc magnitude rank ≤ significand rank * 2 ^ (-1 : ℤ) :=
        mul_le_mul_of_nonneg_left hpow (Nat.cast_nonneg _)
    _ < 2 ^ 53 * 2 ^ (-1 : ℤ) := mul_lt_mul_of_pos_right hlt (by norm_num)
    _ = 2 ^ 52 := by norm_num

theorem wholePart_eq_floor (rank : Nat) : (wholePart rank : ℤ) = ⌊magnitude rank⌋ := by
  by_cases h : 0 ≤ exponent rank
  · rw [← wholePart_eq_magnitude h, Int.floor_natCast]
  · obtain ⟨k, hk⟩ := Int.exists_eq_neg_ofNat (not_le.1 h).le
    have hmagnitude : magnitude rank = (significand rank : ℚ) / (2 ^ k : Nat) := by
      rw [magnitude, hk, zpow_neg, zpow_natCast, div_eq_mul_inv]
      push_cast
      rfl
    rw [wholePart, if_neg h, hk, neg_neg, Int.toNat_natCast, Nat.pow_eq, hmagnitude,
      Rat.floor_natCast_div_natCast, Int.natCast_ediv]

theorem truncate_of_nonneg {x : Double} (hx : 0 ≤ x.toRat) : x.truncate = ⌊x.toRat⌋ := by
  cases x with
  | nan => rfl
  | number negative rank =>
    cases negative with
    | false => exact wholePart_eq_floor rank
    | true =>
      have hnonpos : -magnitude rank ≤ 0 := neg_nonpos.2 (magnitude_nonneg rank)
      have hzero : magnitude rank = 0 := neg_eq_zero.1 (le_antisymm hnonpos hx)
      have hwhole := wholePart_eq_floor rank
      rw [hzero, Int.floor_zero] at hwhole
      simp only [truncate, toRat, if_true, hwhole, hzero, neg_zero, Int.floor_zero]

theorem truncate_of_nonpos {x : Double} (hx : x.toRat ≤ 0) : x.truncate = ⌈x.toRat⌉ := by
  cases x with
  | nan => rfl
  | number negative rank =>
    cases negative with
    | false =>
      have hnonneg : 0 ≤ magnitude rank := magnitude_nonneg rank
      have hzero : magnitude rank = 0 := le_antisymm hx hnonneg
      have hwhole := wholePart_eq_floor rank
      rw [hzero, Int.floor_zero] at hwhole
      simp only [truncate, toRat, Bool.false_eq_true, if_false, hwhole, hzero, Int.ceil_zero]
    | true => simp only [truncate, toRat, if_true, wholePart_eq_floor, Int.ceil_neg]

theorem truncate_le_iff (x : Double) (n : ℤ) :
    x.truncate ≤ n ↔ x.toRat ≤ n ∨ (0 < x.toRat ∧ x.toRat < n + 1) := by
  rcases le_or_gt x.toRat 0 with hx | hx
  · rw [truncate_of_nonpos hx, Int.ceil_le, or_iff_left fun h => absurd h.1 (not_lt.2 hx)]
  · rw [truncate_of_nonneg hx.le, Int.floor_le_iff, and_iff_right hx]
    exact (or_iff_right_of_imp fun hle => hle.trans_lt (lt_add_one _)).symm

theorem le_truncate_iff (x : Double) (n : ℤ) :
    n ≤ x.truncate ↔ n ≤ x.toRat ∨ (x.toRat < 0 ∧ n < x.toRat + 1) := by
  rcases lt_or_ge x.toRat 0 with hx | hx
  · rw [truncate_of_nonpos hx.le, Int.le_ceil_iff, and_iff_right hx, sub_lt_iff_lt_add]
    exact (or_iff_right_of_imp fun hle => hle.trans_lt (lt_add_one _)).symm
  · rw [truncate_of_nonneg hx, Int.le_floor, or_iff_left fun h => absurd h.1 (not_lt.2 hx)]

theorem truncate_bounds_iff {lower upper : Int} (hlower : lower ≤ -2 ^ 52) (hupper : 2 ^ 52 ≤ upper)
    (x : Double) :
    lower ≤ x.truncate ∧ x.truncate ≤ upper ↔ lower ≤ x.toRat ∧ x.toRat ≤ upper := by
  cases x with
  | nan =>
    simp only [truncate, toRat]
    norm_cast
  | number negative rank =>
    have hwhole : 0 ≤ exponent rank.val →
        ((truncate (.number negative rank) : ℤ) : ℚ) = toRat (.number negative rank) := by
      intro h
      rw [truncate, toRat, ← wholePart_eq_magnitude h]
      cases negative <;> simp
    by_cases h : 0 ≤ exponent rank.val
    · rw [← hwhole h]
      norm_cast
    · -- With a fraction left both numbers lie between the bounds.
      have hpart := wholePart_lt (not_le.1 h)
      have hmagnitude := magnitude_lt (not_le.1 h)
      have hnonneg := magnitude_nonneg rank.val
      have hlower' : (lower : ℚ) ≤ -2 ^ 52 := by exact_mod_cast hlower
      have hupper' : (2 : ℚ) ^ 52 ≤ upper := by exact_mod_cast hupper
      have hleft : lower ≤ truncate (.number negative rank) ∧
          truncate (.number negative rank) ≤ upper := by
        rw [truncate]
        split <;> omega
      have hright : (lower : ℚ) ≤ toRat (.number negative rank) ∧
          toRat (.number negative rank) ≤ upper := by
        rw [toRat]
        split <;> constructor <;> linarith
      exact iff_of_true hleft hright

end MediaViews.Double
