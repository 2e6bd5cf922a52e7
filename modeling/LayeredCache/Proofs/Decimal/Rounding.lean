import LayeredCache.Decimal.Stepwise
import Mathlib.Algebra.Order.Field.Power
import Mathlib.Data.Rat.Cast.Order
import Mathlib.Tactic.FieldSimp
import Mathlib.Tactic.Linarith
import Mathlib.Tactic.Positivity
import Mathlib.Tactic.Ring

/-!
# How far rounding goes

Rounding a ratio moves it by at most half of the lowest bit (`near_of_round`), and gives a finite value as
long as the ratio stays below the middle between the greatest value and the power of two behind it
(`round_finite`).
-/

namespace LayeredCache.Decimal

/-! ## Ratios as rational numbers -/

lemma cast_scaled (base : Nat) (e : Int) (n : Nat) : (scaled base e n : ℚ) = n * (base : ℚ) ^ e.toNat := by
  rw [scaled, Nat.cast_mul, Nat.pow_eq, Nat.cast_pow]

lemma scaled_pos {base n : Nat} (hbase : 0 < base) (hn : 0 < n) (e : Int) : 0 < scaled base e n :=
  Nat.mul_pos hn (Nat.pow_pos hbase)

/-- A power is the quotient of two powers with natural exponents, one of which is zero. -/
lemma pow_toNat_div_pow_toNat {x : ℚ} (hx : x ≠ 0) (e : Int) : x ^ e.toNat / x ^ (-e).toNat = x ^ e := by
  conv_rhs => rw [← Int.toNat_sub_toNat_neg e, zpow_sub₀ hx, zpow_natCast, zpow_natCast]

lemma two_zpow_succ (e : Int) : (2 : ℚ) ^ (e + 1) = 2 * 2 ^ e := by
  rw [zpow_add_one₀ two_ne_zero, mul_comm]

/-- A power with its exponent on one of two sides. -/
lemma scaled_div_scaled {base : Nat} (hbase : 0 < base) (e : Int) (n : Nat) :
    (scaled base e n : ℚ) / scaled base (-e) 1 = n * (base : ℚ) ^ e := by
  have hne : (base : ℚ) ≠ 0 := by positivity
  rw [cast_scaled, cast_scaled, Nat.cast_one, one_mul, mul_div_assoc, pow_toNat_div_pow_toNat hne]

namespace Binary

variable {f : BinaryFormat} {num den m n : Nat} {e k : Int} {negative : Bool}

lemma ratio_div (m : Nat) (e : Int) : ((ratio m e).1 : ℚ) / (ratio m e).2 = m * 2 ^ e :=
  scaled_div_scaled (by decide) e m

lemma ratio_snd_pos (m : Nat) (e : Int) : 0 < (ratio m e).2 :=
  scaled_pos (by decide) Nat.one_pos (-e)

/-! ## One rounding -/

lemma scaled_num_div_scaled_den (num den : Nat) (e : Int) :
    (scaled 2 (-e) num : ℚ) / scaled 2 e den = num / den / 2 ^ e := by
  have hpow := pow_toNat_div_pow_toNat (two_ne_zero (α := ℚ)) (-e)
  rw [neg_neg, zpow_neg] at hpow
  rw [cast_scaled, cast_scaled, mul_div_mul_comm, Nat.cast_ofNat, hpow, div_eq_mul_inv (_ / _)]

/-- The quotient is rounded down if the remainder is at most half of the divisor, else up. -/
lemma roundScaled_cases (num den : Nat) (e : Int) :
    (roundScaled num den e = scaled 2 (-e) num / scaled 2 e den ∧
        2 * (scaled 2 (-e) num % scaled 2 e den) ≤ scaled 2 e den) ∨
      (roundScaled num den e = scaled 2 (-e) num / scaled 2 e den + 1 ∧
        scaled 2 e den ≤ 2 * (scaled 2 (-e) num % scaled 2 e den)) := by
  unfold roundScaled
  dsimp only
  split
  · exact .inl ⟨rfl, by omega⟩
  · exact .inr ⟨rfl, by omega⟩

/-- A ratio and what it is rounded to differ by at most half of the lowest bit. -/
lemma roundScaled_near (hden : 0 < den) (num : Nat) (e : Int) :
    (roundScaled num den e : ℚ) * 2 ^ e ≤ num / den + 2 ^ e / 2 ∧
      (num / den : ℚ) ≤ roundScaled num den e * 2 ^ e + 2 ^ e / 2 := by
  have hpow : (0 : ℚ) < 2 ^ e := by positivity
  have hd : 0 < scaled 2 e den := scaled_pos (by decide) hden e
  have hvalue := scaled_num_div_scaled_den num den e
  have hcases := roundScaled_cases num den e
  have hdivision := Nat.div_add_mod (scaled 2 (-e) num) (scaled 2 e den)
  have hmod := Nat.mod_lt (scaled 2 (-e) num) hd
  generalize scaled 2 (-e) num = n at hvalue hcases hdivision hmod
  generalize scaled 2 e den = d at hd hvalue hcases hdivision hmod
  generalize roundScaled num den e = r at hcases ⊢
  have hnear : 2 * (r * d) ≤ 2 * n + d ∧ 2 * n ≤ 2 * (r * d) + d := by
    have hswap := Nat.mul_comm d (n / d)
    rcases hcases with ⟨rfl, hr⟩ | ⟨rfl, hr⟩
    · omega
    · rw [Nat.add_one_mul (n / d) d]
      omega
  have hd' : (0 : ℚ) < d := by exact_mod_cast hd
  have hscaled : (num / den : ℚ) * d = n * 2 ^ e := by
    rw [div_eq_iff hd'.ne', div_mul_eq_mul_div, eq_div_iff hpow.ne'] at hvalue
    exact hvalue.symm
  obtain ⟨hle, hge⟩ : 2 * (r * d : ℚ) ≤ 2 * n + d ∧ 2 * (n : ℚ) ≤ 2 * (r * d) + d := by
    exact_mod_cast hnear
  constructor
  · refine le_of_mul_le_mul_right ?_ hd'
    linarith [mul_le_mul_of_nonneg_right hle hpow.le]
  · refine le_of_mul_le_mul_right ?_ hd'
    linarith [mul_le_mul_of_nonneg_right hge hpow.le]

/-- Numbers lie between the powers of two that their logarithms name. -/
lemma zpow_log2_le (hnum : 0 < num) (hden : 0 < den) :
    (2 : ℚ) ^ ((num.log2 : Int) - den.log2 - 1) < num / den ∧
      (num / den : ℚ) < 2 ^ ((num.log2 : Int) - den.log2 + 1) := by
  have hnum' : (2 : ℚ) ^ num.log2 ≤ num := by exact_mod_cast Nat.log2_self_le hnum.ne'
  have hnum'' : (num : ℚ) < 2 ^ (num.log2 + 1) := by exact_mod_cast Nat.lt_log2_self
  have hden' : (2 : ℚ) ^ den.log2 ≤ den := by exact_mod_cast Nat.log2_self_le hden.ne'
  have hden'' : (den : ℚ) < 2 ^ (den.log2 + 1) := by exact_mod_cast Nat.lt_log2_self
  have hpos : (0 : ℚ) < den := by exact_mod_cast hden
  have htwo : (2 : ℚ) ≠ 0 := by decide
  constructor
  · rw [lt_div_iff₀ hpos]
    calc (2 : ℚ) ^ ((num.log2 : Int) - den.log2 - 1) * den
        < 2 ^ ((num.log2 : Int) - den.log2 - 1) * 2 ^ (den.log2 + 1) := by gcongr
      _ = 2 ^ num.log2 := by
        rw [← zpow_natCast, ← zpow_add₀ htwo, ← zpow_natCast]
        congr 1
        push_cast
        ring
      _ ≤ num := hnum'
  · rw [div_lt_iff₀ hpos]
    calc (num : ℚ) < 2 ^ (num.log2 + 1) := hnum''
      _ = 2 ^ ((num.log2 : Int) - den.log2 + 1) * 2 ^ den.log2 := by
        rw [← zpow_natCast, ← zpow_natCast _ den.log2, ← zpow_add₀ htwo]
        congr 1
        push_cast
        ring
      _ ≤ 2 ^ ((num.log2 : Int) - den.log2 + 1) * den := by gcongr

lemma scaled_lt_iff (hden : 0 < den) (bound num : Nat) (e : Int) :
    scaled 2 (-e) num < bound * scaled 2 e den ↔ (num / den : ℚ) < bound * 2 ^ e := by
  have hd : (0 : ℚ) < scaled 2 e den := by exact_mod_cast scaled_pos (by decide) hden e
  have hpow : (0 : ℚ) < 2 ^ e := by positivity
  rw [← div_lt_iff₀ hpow, ← scaled_num_div_scaled_den, div_lt_iff₀ hd]
  exact_mod_cast Iff.rfl

lemma cast_significandBound (f : BinaryFormat) (e : Int) :
    (f.significandBound : ℚ) * 2 ^ e = 2 ^ (f.precision + e) := by
  rw [zpow_add₀ two_ne_zero, zpow_natCast, BinaryFormat.significandBound, Nat.pow_eq, Nat.cast_pow,
    Nat.cast_ofNat]

/-- The exponent is high enough for the significand to fit, and no higher than that. -/
lemma exponentNear_spec (f : BinaryFormat) (hnum : 0 < num) (hden : 0 < den) :
    (num / den : ℚ) < f.significandBound * 2 ^ exponentNear f num den ∧
      (exponentNear f num den = f.minExponent ∨
        f.significandBound * 2 ^ exponentNear f num den ≤ 2 * (num / den : ℚ)) := by
  obtain ⟨hlow, hhigh⟩ := zpow_log2_le hnum hden
  have htest := scaled_lt_iff hden f.significandBound num
  rw [exponentNear]
  generalize hnear : max f.minExponent ((num.log2 : Int) - den.log2 - f.precision) = e
  split
  · rename_i hfits
    refine ⟨(htest e).1 hfits, ?_⟩
    by_cases hmin : e = f.minExponent
    · exact .inl hmin
    · refine .inr ?_
      have he : f.precision + e = ((num.log2 : Int) - den.log2 - 1) + 1 := by omega
      rw [cast_significandBound, he, two_zpow_succ]
      linarith
  · rename_i hfits
    rw [htest, not_lt] at hfits
    constructor
    · rw [cast_significandBound]
      refine hhigh.trans_le (zpow_le_zpow_right₀ one_le_two ?_)
      omega
    · rw [two_zpow_succ]
      right
      linarith

/-- A significand and an exponent near a ratio: within half of the lowest bit, and with no higher exponent than
the ratio needs. -/
structure Near (f : BinaryFormat) (v : ℚ) (m : Nat) (e : Int) : Prop where
  le : (m : ℚ) * 2 ^ e ≤ v + 2 ^ e / 2
  ge : v ≤ m * 2 ^ e + 2 ^ e / 2
  exponent : e = f.minExponent ∨ (f.significandBound - 1 / 2) * 2 ^ e ≤ 2 * v

lemma near_zero (f : BinaryFormat) : Near f 0 0 f.minExponent where
  le := by simp; positivity
  ge := by simp; positivity
  exponent := .inl rfl

/-- Rounding gives a value near the ratio, or an infinite one if that is out of range. -/
lemma round_cases (hprecision : 0 < f.precision) (hnum : 0 < num) (hden : 0 < den) (negative : Bool) :
    ∃ m e, Near f (num / den) m e ∧
      round f negative num den = if f.maxExponent < e then .infinite negative else .finite negative m e := by
  obtain ⟨hfits, hexponent⟩ := exponentNear_spec f hnum hden
  obtain ⟨hle, hge⟩ := roundScaled_near hden num (exponentNear f num den)
  rw [round, if_neg hnum.ne']
  dsimp only
  generalize exponentNear f num den = e at *
  generalize roundScaled num den e = m at *
  have hpow : (0 : ℚ) < 2 ^ e := by positivity
  by_cases hcarry : m = f.significandBound
  · -- a significand that does not fit is that of the next power of two
    have hcarried : (f.leadingBit : ℚ) * 2 ^ (e + 1) = m * 2 ^ e := by
      have hbits : f.leadingBit * 2 = m := by
        rw [hcarry, BinaryFormat.leadingBit, BinaryFormat.significandBound, Nat.pow_eq, Nat.pow_eq,
          pow_sub_one_mul hprecision.ne']
      rw [← hbits, two_zpow_succ]
      push_cast
      ring
    refine ⟨f.leadingBit, e + 1, ⟨?_, ?_, .inr ?_⟩, by rw [if_pos hcarry]⟩
    · rw [hcarried, two_zpow_succ]
      linarith
    · rw [hcarried, two_zpow_succ]
      linarith
    · rw [← hcarry, two_zpow_succ]
      linarith
  · exact ⟨m, e, ⟨hle, hge, hexponent.imp_right fun h => by linarith⟩, by rw [if_neg hcarry]⟩

/-- A value that a ratio is rounded to is near it. -/
lemma near_of_round (hprecision : 0 < f.precision) (hden : 0 < den) {sign : Bool}
    (h : round f negative num den = .finite sign m e) : Near f (num / den) m e := by
  rcases Nat.eq_zero_or_pos num with rfl | hnum
  · rw [round, if_pos rfl, zero] at h
    cases h
    rw [Nat.cast_zero, zero_div]
    exact near_zero f
  · obtain ⟨m', e', hnear, hround⟩ := round_cases hprecision hnum hden negative
    rw [hround] at h
    split at h
    · cases h
    · cases h
      exact hnear

/-- A ratio in range is rounded to a value near it. -/
theorem round_finite (hprecision : 0 < f.precision) (hrange : f.minExponent ≤ f.maxExponent) (hden : 0 < den)
    (hv : (num / den : ℚ) < (f.significandBound - 1 / 2) * 2 ^ f.maxExponent) (negative : Bool) :
    ∃ m e, round f negative num den = .finite negative m e ∧ Near f (num / den) m e := by
  rcases Nat.eq_zero_or_pos num with rfl | hnum
  · refine ⟨0, f.minExponent, by rw [round, if_pos rfl, zero], ?_⟩
    rw [Nat.cast_zero, zero_div]
    exact near_zero f
  · obtain ⟨m, e, hnear, hround⟩ := round_cases hprecision hnum hden negative
    refine ⟨m, e, hround.trans (if_neg fun hover => ?_), hnear⟩
    -- a higher exponent is one that the ratio does not need
    have hnext : 2 * (2 : ℚ) ^ f.maxExponent ≤ 2 ^ e := by
      rw [← two_zpow_succ]
      exact zpow_le_zpow_right₀ one_le_two (by omega)
    have hbound : (1 : ℚ) ≤ f.significandBound := by
      exact_mod_cast (Nat.pow_pos (by decide) : 0 < Nat.pow 2 f.precision)
    rcases hnear.exponent with hmin | hneeded
    · omega
    · nlinarith

end Binary

end LayeredCache.Decimal
