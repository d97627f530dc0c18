import Mathlib
import MediaViews.Double.Rounding

/-! Whole numbers, rounded to binary64. Those of 64 bits are far below the largest finite number. -/
namespace MediaViews.Double

theorem roundQuotient_le (num den : Nat) : roundQuotient num den ≤ num / den + 1 := by
  rw [roundQuotient]
  split <;> omega

theorem binade_one {n : Nat} (hn : n ≠ 0) : binade n 1 = n.log2 := by
  have hguess : (n.log2 : Int) - (Nat.log2 1 : Int) = n.log2 := Int.sub_zero _
  have hreached : 2 ^ n.log2 ≤ n := Nat.log2_self_le hn
  rw [binade, hguess]
  simp [hreached]

theorem nearestRank_ne_zero {n : Nat} (hn : n ≠ 0) : nearestRank n 1 ≠ 0 := by
  have hexponent : 0 < (max (-1074) ((n.log2 : Int) - 52) + 1074).toNat := by omega
  have hpower : 0 < Nat.pow 2 52 := by decide
  have hproduct := Nat.mul_pos hexponent hpower
  rw [nearestRank, if_neg hn, binade_one hn]
  dsimp only
  omega

theorem nearestRank_le {n : Nat} (hn : n ≠ 0) :
    nearestRank n 1 ≤ (n.log2 + 1022) * 2 ^ 52 + 2 ^ 53 := by
  -- The significand of a number that is not zero has 53 bits, or is the power of two behind them.
  have hlt : n < 2 ^ (n.log2 + 1) := Nat.lt_log2_self
  rw [nearestRank, if_neg hn, binade_one hn]
  have hexponent : max (-1074) ((n.log2 : Int) - 52) = (n.log2 : Int) - 52 := by omega
  have hscaled : ((n.log2 : Int) - 52 + 1074).toNat = n.log2 + 1022 := by omega
  dsimp only
  rw [hexponent, hscaled, Nat.pow_eq, Nat.pow_eq, Nat.pow_eq]
  refine Nat.add_le_add_left ?_ _
  split
  · next hle =>
    have hquotient : n / (1 * 2 ^ ((n.log2 : Int) - 52).toNat) < 2 ^ 53 := by
      have hbits : 53 + ((n.log2 : Int) - 52).toNat = n.log2 + 1 := by omega
      rw [Nat.one_mul, Nat.div_lt_iff_lt_mul (Nat.pow_pos (by decide)), ← Nat.pow_add, hbits]
      exact hlt
    exact (roundQuotient_le _ _).trans hquotient
  · next hle =>
    have hquotient : n * 2 ^ (-((n.log2 : Int) - 52)).toNat / 1 < 2 ^ 53 := by
      have hbits : n.log2 + 1 + (-((n.log2 : Int) - 52)).toNat = 53 := by omega
      rw [Nat.div_one, ← hbits, Nat.pow_add]
      exact Nat.mul_lt_mul_of_pos_right hlt (Nat.pow_pos (by decide))
    exact (roundQuotient_le _ _).trans hquotient

theorem isFinite_ofInt {n : Int} (h : n.natAbs < 2 ^ 64) : (ofInt n).isFinite := by
  have hrank : nearestRank n.natAbs 1 < infinityRank := by
    by_cases hzero : n.natAbs = 0
    · rw [nearestRank, if_pos hzero]
      decide
    · have hle := nearestRank_le hzero
      have hlog : n.natAbs.log2 < 64 := (Nat.log2_lt hzero).2 h
      have hbound : (n.natAbs.log2 + 1022) * 2 ^ 52 ≤ 1085 * 2 ^ 52 :=
        Nat.mul_le_mul_right _ (by omega)
      have hinfinity : infinityRank = 2047 * 2 ^ 52 := rfl
      omega
  simp only [ofInt, ofRank, isFinite, decide_eq_true_eq]
  omega

theorem roundQuotient_of_dvd {num den : Nat} (hden : 0 < den) (h : den ∣ num) :
    roundQuotient num den = num / den := by
  rw [roundQuotient, Nat.mod_eq_zero_of_dvd h]
  have htie : (den < 2 * 0 || (2 * 0 == den && num / den % 2 == 1)) = false := by
    simp [hden.ne]
  rw [htie]
  rfl

theorem nearestRank_of_scaled {n s : Nat} {e : Int} (hn : n ≠ 0) (hlow : 2 ^ 52 ≤ s)
    (hhigh : s < 2 ^ 53) (he : -1074 ≤ e) (hs : n * 2 ^ (-e).toNat = s * 2 ^ e.toNat) :
    nearestRank n 1 = (e + 1074).toNat * 2 ^ 52 + s := by
  have hlog : (n.log2 : Int) = e + 52 := by
    have hlower : 2 ^ (52 + e.toNat) ≤ n * 2 ^ (-e).toNat := by
      rw [hs, Nat.pow_add]
      exact Nat.mul_le_mul_right _ hlow
    have hupper : n * 2 ^ (-e).toNat < 2 ^ (53 + e.toNat) := by
      rw [hs, Nat.pow_add]
      exact Nat.mul_lt_mul_of_pos_right hhigh (Nat.pow_pos (by decide))
    have hself : 2 ^ (n.log2 + (-e).toNat) ≤ n * 2 ^ (-e).toNat := by
      rw [Nat.pow_add]
      exact Nat.mul_le_mul_right _ (Nat.log2_self_le hn)
    have hnext : n * 2 ^ (-e).toNat < 2 ^ (n.log2 + 1 + (-e).toNat) := by
      rw [Nat.pow_add]
      exact Nat.mul_lt_mul_of_pos_right Nat.lt_log2_self (Nat.pow_pos (by decide))
    have hle := (Nat.pow_lt_pow_iff_right (by decide)).1 (hself.trans_lt hupper)
    have hge := (Nat.pow_lt_pow_iff_right (by decide)).1 (hlower.trans_lt hnext)
    omega
  rw [nearestRank, if_neg hn, binade_one hn]
  have hexponent : max (-1074) ((n.log2 : Int) - 52) = e := by omega
  dsimp only
  rw [hexponent, Nat.pow_eq, Nat.pow_eq, Nat.pow_eq]
  congr 1
  split
  · next hnonneg =>
    have hneg : (-e).toNat = 0 := by omega
    rw [hneg, Nat.pow_zero, Nat.mul_one] at hs
    have hpos : 0 < 2 ^ e.toNat := Nat.pow_pos (by decide)
    rw [Nat.one_mul, roundQuotient_of_dvd hpos (hs ▸ Nat.dvd_mul_left ..), hs,
      Nat.mul_div_cancel _ hpos]
  · next hneg =>
    have hzero : e.toNat = 0 := by omega
    rw [hs, hzero, Nat.pow_zero, Nat.mul_one, roundQuotient_of_dvd (by decide) (Nat.one_dvd s),
      Nat.div_one]

theorem nearestRank_wholePart {rank : Nat} (h : isWhole rank) :
    nearestRank (wholePart rank) 1 = rank := by
  have hpow : Nat.pow 2 52 = 2 ^ 52 := rfl
  by_cases hsmall : rank < 2 ^ 52
  · -- Below the smallest normal number only zero is whole.
    rw [isWhole, exponent, significand, hpow, if_pos hsmall, if_pos hsmall] at h
    have hself : ∀ k, 52 ≤ k → rank % Nat.pow 2 k = rank := fun k hk =>
      Nat.mod_eq_of_lt (hsmall.trans_le (Nat.pow_le_pow_right (by decide) hk))
    rw [hself _ (by decide)] at h
    obtain rfl : rank = 0 := by simpa using h
    have hwhole : wholePart 0 = 0 := by decide +kernel
    rw [hwhole, nearestRank, if_pos rfl]
  · have hdiv : 1 ≤ rank / 2 ^ 52 := (Nat.one_le_div_iff (by decide)).2 (not_lt.1 hsmall)
    have hmod : rank % 2 ^ 52 < 2 ^ 52 := Nat.mod_lt _ (by decide)
    have hrank := Nat.div_add_mod rank (2 ^ 52)
    have hexponent : exponent rank = (rank / 2 ^ 52 : Nat) - 1075 := by
      rw [exponent, hpow, if_neg hsmall]
    have hsignificand : significand rank = 2 ^ 52 + rank % 2 ^ 52 := by
      rw [significand, hpow, if_neg hsmall]
    -- Where the exponent is negative the power of two divides the significand.
    have hscaled : wholePart rank * 2 ^ (-exponent rank).toNat =
        significand rank * 2 ^ (exponent rank).toNat := by
      rw [isWhole, Bool.or_eq_true, decide_eq_true_eq, beq_iff_eq] at h
      rw [wholePart, Nat.pow_eq, Nat.pow_eq]
      split
      · next hnonneg =>
        have hneg : (-exponent rank).toNat = 0 := by omega
        rw [hneg, Nat.pow_zero, Nat.mul_one]
      · next hneg =>
        have hzero : (exponent rank).toNat = 0 := by omega
        rw [hzero, Nat.pow_zero, Nat.mul_one]
        exact Nat.div_mul_cancel (Nat.dvd_of_mod_eq_zero (h.resolve_left hneg))
    have hne : wholePart rank ≠ 0 := by
      intro hzero
      rw [hzero, Nat.zero_mul] at hscaled
      have hpos := Nat.mul_pos (show 0 < significand rank by omega)
        (Nat.pow_pos (n := (exponent rank).toNat) (show 0 < 2 by decide))
      omega
    rw [nearestRank_of_scaled hne (by omega) (by omega) (by omega) hscaled, hexponent, hsignificand]
    omega

theorem position_ofInt_truncate {negative : Bool} {rank : Fin (infinityRank + 1)}
    (h : isWhole rank) :
    (ofInt (truncate (.number negative rank))).position = (number negative rank).position := by
  have hrank : min rank.val infinityRank = rank.val := min_eq_left (Nat.le_of_lt_succ rank.isLt)
  have habs : (truncate (.number negative rank)).natAbs = wholePart rank := by
    rw [truncate]
    split <;> omega
  rw [ofInt, habs, nearestRank_wholePart h]
  simp only [ofRank, position, hrank, truncate]
  -- Zero has no sign as a whole number, and both zeros stand at one place.
  have hzero : wholePart rank = 0 → rank.val = 0 := by
    intro hwhole
    rw [← nearestRank_wholePart h, hwhole, nearestRank, if_pos rfl]
  cases negative with
  | false => simp
  | true =>
    simp only [if_true, decide_eq_true_eq]
    split
    · rfl
    · have hwhole : wholePart rank = 0 := by omega
      rw [hzero hwhole]
      rfl

end MediaViews.Double
