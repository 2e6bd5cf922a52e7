import LayeredCache.Proofs.Decimal.Range

/-!
# Canonical values

Rounding gives a value in the one form in which its format holds it (`round_canonical`), and so does every
way to a value that ends with a rounding, such as that from a decimal number
(`toBinaryStepwise_canonical`).
-/

namespace LayeredCache.Decimal

namespace Binary

variable {f : BinaryFormat} {num den : Nat} {negative : Bool}

lemma two_mul_leadingBit (hprecision : 0 < f.precision) : 2 * f.leadingBit = f.significandBound := by
  rw [BinaryFormat.leadingBit, BinaryFormat.significandBound, Nat.pow_eq, Nat.pow_eq, mul_comm,
    pow_sub_one_mul hprecision.ne']

lemma leadingBit_pos (f : BinaryFormat) : 0 < f.leadingBit :=
  Nat.pow_pos (by decide)

lemma minExponent_le_exponentNear (f : BinaryFormat) (num den : Nat) :
    f.minExponent ≤ exponentNear f num den := by
  unfold exponentNear
  dsimp only
  split <;> omega

/-- At the exponent near a ratio, the significand fits but for a carry, and it has its leading bit unless the
exponent is the least. -/
lemma roundScaled_bounds (hprecision : 0 < f.precision) (hnum : 0 < num) (hden : 0 < den) :
    roundScaled num den (exponentNear f num den) ≤ f.significandBound ∧
      (f.leadingBit ≤ roundScaled num den (exponentNear f num den) ∨
        exponentNear f num den = f.minExponent) := by
  obtain ⟨hfits, hexponent⟩ := exponentNear_spec f hnum hden
  obtain ⟨hle, hge⟩ := roundScaled_near hden num (exponentNear f num den)
  have hbits := two_mul_leadingBit hprecision
  generalize exponentNear f num den = e at *
  generalize roundScaled num den e = m at *
  have hpow : (0 : ℚ) < 2 ^ e := by positivity
  constructor
  · have hlt : (m : ℚ) * 2 ^ e < (f.significandBound + 1) * 2 ^ e := by linarith
    have hlt' : (m : ℚ) < f.significandBound + 1 := lt_of_mul_lt_mul_right hlt hpow.le
    have hnat : m < f.significandBound + 1 := by exact_mod_cast hlt'
    omega
  · refine hexponent.symm.imp_left fun hneeded => ?_
    -- half a bit is not enough to make up for a leading bit
    have hle' : (f.significandBound : ℚ) * 2 ^ e ≤ (2 * m + 1) * 2 ^ e := by linarith
    have hle'' : (f.significandBound : ℚ) ≤ 2 * m + 1 := le_of_mul_le_mul_right hle' hpow
    have hnat : f.significandBound ≤ 2 * m + 1 := by exact_mod_cast hle''
    omega

/-- Rounding gives the canonical form of a value. -/
theorem round_canonical (hprecision : 0 < f.precision) (hrange : f.minExponent ≤ f.maxExponent)
    (hden : 0 < den) : (round f negative num den).Canonical f := by
  have hlead := leadingBit_pos f
  have hbits := two_mul_leadingBit hprecision
  rcases Nat.eq_zero_or_pos num with rfl | hnum
  · rw [round, if_pos rfl]
    exact ⟨by omega, le_refl _, hrange, .inr rfl⟩
  · obtain ⟨hbound, hleading⟩ := roundScaled_bounds hprecision hnum hden
    have hmin := minExponent_le_exponentNear f num den
    rw [round, if_neg hnum.ne']
    dsimp only
    generalize exponentNear f num den = e at *
    generalize roundScaled num den e = m at *
    by_cases hcarry : m = f.significandBound
    · rw [if_pos hcarry]
      dsimp only
      split
      · trivial
      · exact ⟨by omega, by omega, by omega, .inl (le_refl _)⟩
    · rw [if_neg hcarry]
      dsimp only
      split
      · trivial
      · exact ⟨by omega, hmin, by omega, hleading⟩

/-! ## Doubles -/

lemma round_double_canonical (hden : 0 < den) : (round .double negative num den).Canonical .double :=
  round_canonical (by decide) (by decide) hden

lemma ofNat_canonical (n : Nat) : (ofNat .double n).Canonical .double :=
  round_double_canonical Nat.one_pos

lemma times_canonical (x y : Binary) : (x.times .double y).Canonical .double := by
  cases x with
  | finite s m e =>
    cases y with
    | finite t n k => exact round_double_canonical (Nat.mul_pos (ratio_snd_pos m e) (ratio_snd_pos n k))
    | _ => trivial
  | _ => trivial

/-- A power of ten is not zero, so that a value can be divided by it. -/
lemma dividedBy_powerOfTen_canonical (x : Binary) {k : Nat} (hk : k < powerLimit) :
    (x.dividedBy .double (powerOfTen (k + 1))).Canonical .double := by
  obtain ⟨n, e, hpower, hfour⟩ := four_le_powerOfTen hk
  have hn : 0 < n := by
    rcases Nat.eq_zero_or_pos n with rfl | hn
    · norm_num at hfour
    · exact hn
  rw [hpower]
  cases x with
  | finite s m k =>
    exact round_double_canonical (Nat.mul_pos (ratio_snd_pos m k) (scaled_pos (by decide) hn e))
  | _ => trivial

end Binary

/-- The value near a decimal number is in its canonical form. -/
theorem toBinaryStepwise_canonical (d : Decimal) : d.toBinaryStepwise.Canonical .double := by
  unfold toBinaryStepwise
  dsimp only
  split
  · split
    · exact Binary.times_canonical ..
    · split
      · exact Binary.ofNat_canonical _
      · trivial
  · exact Binary.dividedBy_powerOfTen_canonical _ (Nat.mod_lt _ (by decide))

end LayeredCache.Decimal
