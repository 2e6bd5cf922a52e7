import LayeredCache.Decimal.Integer
import LayeredCache.Proofs.Decimal.Rounding
import Mathlib.Data.Nat.Digits.Defs

/-!
# Numbers in the range of doubles

Reading a decimal number step by step rounds its coefficient, the power of ten, and their product or
quotient. The steps stay finite as long as the number keeps a small distance from the greatest double, and
every number that a double is written as does so but for those of the three greatest doubles.
-/

namespace LayeredCache.Decimal

namespace Binary

variable {num den m n : Nat} {e k : Int}

/-! ## Doubles -/

lemma significandBound_double : (BinaryFormat.double.significandBound : ℚ) = 2 ^ 53 := by
  norm_num [BinaryFormat.significandBound, BinaryFormat.double]

/-- The middle between the greatest double and the power of two behind it. -/
def doubleLimit : ℚ :=
  (2 ^ 53 - 1 / 2) * 2 ^ (971 : Int)

lemma lt_doubleLimit {n : Nat} (hn : n ≤ (2 ^ 53 - 1) * 2 ^ 971) : (n : ℚ) < doubleLimit := by
  have hpow : (0 : ℚ) < 2 ^ (971 : Int) := by positivity
  have hn' : (n : ℚ) ≤ (2 ^ 53 - 1) * 2 ^ (971 : Int) := by
    have hcast : ((2 : ℚ) ^ 53 - 1) = ((2 ^ 53 - 1 : Nat) : ℚ) := by norm_num
    rw [hcast, show (971 : Int) = ((971 : Nat) : Int) from rfl, zpow_natCast]
    exact_mod_cast hn
  rw [doubleLimit]
  generalize (2 : ℚ) ^ (971 : Int) = pow at hpow hn'
  linarith

lemma lt_of_lt_doubleLimit {n : Nat} (hn : (n : ℚ) < doubleLimit) : n < 2 ^ 1024 := by
  have hpow : (0 : ℚ) < 2 ^ (971 : Int) := by positivity
  have hpowers : (2 : ℚ) ^ 1024 = 2 ^ 53 * 2 ^ (971 : Int) := by
    rw [show (971 : Int) = ((971 : Nat) : Int) from rfl, zpow_natCast, ← pow_add]
  have hn' : (n : ℚ) < 2 ^ 1024 := by
    rw [hpowers]
    refine hn.trans ?_
    rw [doubleLimit]
    gcongr
    norm_num
  exact_mod_cast hn'

/-- The lowest bit of a double is small beside a number near it, or beside 1. -/
lemma Near.lowestBit_le {v : ℚ} (h : Near .double v m e) :
    (2 ^ 53 - 1 / 2) * (2 : ℚ) ^ e ≤ 2 * max v 1 := by
  rcases h.exponent with rfl | hneeded
  · have hmin : BinaryFormat.double.minExponent = -1074 := by decide
    have hsmall : (2 : ℚ) ^ (-1074 : Int) ≤ 2 ^ (-53 : Int) := zpow_le_zpow_right₀ one_le_two (by decide)
    rw [hmin]
    calc (2 ^ 53 - 1 / 2) * (2 : ℚ) ^ (-1074 : Int) ≤ 2 ^ 53 * 2 ^ (-53 : Int) := by gcongr; norm_num
      _ ≤ 2 * 1 := by norm_num
      _ ≤ 2 * max v 1 := by gcongr; exact le_max_right v 1
  · rw [significandBound_double] at hneeded
    exact hneeded.trans (by gcongr; exact le_max_left v 1)

/-- A finite value whose magnitude is at most the bound. -/
def Within (bound : ℚ) (x : Binary) : Prop :=
  ∃ negative m e, x = .finite negative m e ∧ (m : ℚ) * 2 ^ e ≤ bound

lemma Within.mono {a b : ℚ} {x : Binary} (h : Within a x) (hab : a ≤ b) : Within b x := by
  obtain ⟨negative, m, e, hx, hle⟩ := h
  exact ⟨negative, m, e, hx, hle.trans hab⟩

lemma round_double (hden : 0 < den) (hv : (num / den : ℚ) < doubleLimit) (negative : Bool) :
    ∃ m e, round .double negative num den = .finite negative m e ∧ Near .double (num / den) m e := by
  have hmax : BinaryFormat.double.maxExponent = 971 := by decide
  refine round_finite (by decide) (by decide) hden ?_ negative
  rwa [significandBound_double, hmax]

/-- A natural number in range is brought to a double near it. -/
lemma ofNat_near (hn : (n : ℚ) < doubleLimit) :
    ∃ m e, ofNat .double n = .finite false m e ∧ Near .double n m e := by
  have hone : (n : ℚ) / (1 : Nat) = n := by rw [Nat.cast_one, div_one]
  have hround := @round_double n 1 Nat.one_pos (hone.trans_lt hn) false
  rwa [hone] at hround

/-- How much greater a double near a natural number may be. -/
def slack : ℚ :=
  (2 ^ 53 + 1 / 2) / (2 ^ 53 - 1 / 2)

lemma within_ofNat (hn : (n : ℚ) < doubleLimit) : Within (slack * n) (ofNat .double n) := by
  rcases Nat.eq_zero_or_pos n with rfl | hpos
  · exact ⟨false, 0, BinaryFormat.double.minExponent, by rw [ofNat, round, if_pos rfl, zero], by simp⟩
  · obtain ⟨m, e, hround, hnear⟩ := ofNat_near hn
    have hbit := hnear.lowestBit_le
    rw [max_eq_left (by exact_mod_cast hpos)] at hbit
    refine ⟨false, m, e, hround, ?_⟩
    rw [slack, div_mul_eq_mul_div, le_div_iff₀ (by norm_num)]
    linarith [hnear.le]

/-- The product of two finite values is finite if it stays below the limit. -/
lemma times_finite {a b : ℚ} {x y : Binary} (hx : Within a x) (hy : Within b y)
    (hab : a * b < doubleLimit) : ∃ negative m e, x.times .double y = .finite negative m e := by
  obtain ⟨s, m, e, rfl, ha⟩ := hx
  obtain ⟨t, n, k, rfl, hle⟩ := hy
  have hden : 0 < (ratio m e).2 * (ratio n k).2 := Nat.mul_pos (ratio_snd_pos m e) (ratio_snd_pos n k)
  have hvalue :
      (((ratio m e).1 * (ratio n k).1 : Nat) : ℚ) / ((ratio m e).2 * (ratio n k).2 : Nat) < doubleLimit := by
    rw [Nat.cast_mul, Nat.cast_mul, mul_div_mul_comm, ratio_div, ratio_div]
    refine lt_of_le_of_lt ?_ hab
    gcongr
    exact (by positivity : (0 : ℚ) ≤ m * 2 ^ e).trans ha
  obtain ⟨m', e', hround, -⟩ := round_double hden hvalue (s != t)
  exact ⟨_, _, _, hround⟩

/-- Dividing by a number from 4 on keeps a value within a bound that is not too small. -/
lemma within_dividedBy {a : ℚ} {x : Binary} {t : Bool} (hx : Within a x) (ha : 2 ≤ a)
    (hlimit : a < doubleLimit) (hfour : 4 ≤ (n : ℚ) * 2 ^ k) : Within a (x.dividedBy .double (.finite t n k)) := by
  obtain ⟨s, m, e, rfl, hle⟩ := hx
  have hn : 0 < n := by
    rcases Nat.eq_zero_or_pos n with rfl | hn
    · norm_num at hfour
    · exact hn
  have hden : 0 < (ratio m e).2 * (ratio n k).1 :=
    Nat.mul_pos (ratio_snd_pos m e) (scaled_pos (by decide) hn k)
  have hvalue : (((ratio m e).1 * (ratio n k).2 : Nat) : ℚ) / ((ratio m e).2 * (ratio n k).1 : Nat) ≤ a / 4 := by
    rw [Nat.cast_mul, Nat.cast_mul, mul_div_mul_comm, ratio_div, ← inv_div ((ratio n k).1 : ℚ), ratio_div,
      ← div_eq_mul_inv]
    gcongr
  obtain ⟨m', e', hround, hnear⟩ := round_double hden (lt_of_le_of_lt hvalue (by linarith)) (s != t)
  have hbit := hnear.lowestBit_le
  have hmax :
      max (((ratio m e).1 * (ratio n k).2 : Nat) / ((ratio m e).2 * (ratio n k).1 : Nat) : ℚ) 1 ≤ a / 2 :=
    max_le (by linarith) (by linarith)
  refine ⟨_, m', e', hround, hnear.le.trans ?_⟩
  linarith

lemma pow_ten_lt {k : Nat} (hk : k ≤ powerLimit) : ((10 ^ k : Nat) : ℚ) < doubleLimit := by
  refine lt_doubleLimit ((Nat.pow_le_pow_right (by decide) hk).trans ?_)
  have hlimit : 10 ^ powerLimit ≤ (2 ^ 53 - 1) * 2 ^ 971 := by decide +kernel
  exact hlimit

lemma within_powerOfTen {k : Nat} (hk : k ≤ powerLimit) : Within (slack * (10 ^ k : Nat)) (powerOfTen k) :=
  within_ofNat (pow_ten_lt hk)

/-- The double near a power of ten is not much smaller either. -/
lemma four_le_powerOfTen {k : Nat} (hk : k < powerLimit) :
    ∃ n e, powerOfTen (k + 1) = .finite false n e ∧ 4 ≤ (n : ℚ) * 2 ^ e := by
  obtain ⟨n, e, hpower, hnear⟩ := ofNat_near (pow_ten_lt hk)
  have hten : (10 : ℚ) ≤ (10 ^ (k + 1) : Nat) := by
    exact_mod_cast Nat.le_self_pow (Nat.succ_ne_zero k) 10
  have hbit := hnear.lowestBit_le
  rw [max_eq_left (by linarith)] at hbit
  exact ⟨n, e, hpower, by linarith [hnear.ge]⟩

lemma within_divideRepeatedly {a : ℚ} {x : Binary} (hx : Within a x) (ha : 2 ≤ a) (hlimit : a < doubleLimit)
    (n : Nat) : Within a (divideRepeatedly n x) := by
  induction n generalizing x with
  | zero => exact hx
  | succ n ih =>
    rw [divideRepeatedly]
    split
    · exact hx
    · obtain ⟨m, e, hpower, hfour⟩ := four_le_powerOfTen (k := 307) (by decide)
      rw [show powerLimit = 307 + 1 from rfl, hpower]
      exact ih (within_dividedBy hx ha hlimit hfour)

end Binary

/-! ## Decimal numbers -/

open Binary

variable {d : Decimal}

private lemma within_word {n : Nat} (hn : n < wordBound) : Within (2 ^ 65) (ofNat .double n) := by
  have hlimit : (n : ℚ) < doubleLimit :=
    lt_doubleLimit (hn.le.trans (by decide +kernel : wordBound ≤ (2 ^ 53 - 1) * 2 ^ 971))
  refine (within_ofNat hlimit).mono ?_
  have hn' : (n : ℚ) ≤ 2 ^ 64 := by exact_mod_cast hn.le
  rw [slack]
  norm_num
  linarith

/-- Dividing by powers of ten leaves a word finite. -/
lemma toBinaryStepwise_of_neg (hword : d.coefficient < wordBound) (hexp : d.exponent < 0) :
    ∃ negative m e, d.toBinaryStepwise = .finite negative m e := by
  have hlimit : (2 : ℚ) ^ 65 < doubleLimit := by
    exact_mod_cast lt_doubleLimit (by decide +kernel : 2 ^ 65 ≤ (2 ^ 53 - 1) * 2 ^ 971)
  obtain ⟨k, hk⟩ := Int.eq_negSucc_of_lt_zero hexp
  obtain ⟨n, e, hpower, hfour⟩ := four_le_powerOfTen (k := k % powerLimit) (Nat.mod_lt _ (by decide))
  rw [toBinaryStepwise, hk]
  dsimp only
  rw [hpower]
  obtain ⟨negative, m, e, hvalue, -⟩ := within_dividedBy
    (within_divideRepeatedly (within_word hword) (by norm_num) hlimit (k / powerLimit)) (by norm_num) hlimit hfour
  exact ⟨negative, m, e, hvalue⟩

/-- A number below the limit by some of its lowest bits stays finite when a power of ten is multiplied in. -/
lemma toBinaryStepwise_of_nonneg (hexp : 0 ≤ d.exponent)
    (hv : (d.coefficient : ℚ) * 10 ^ d.exponent ≤ (2 ^ 53 - 7 / 2) * 2 ^ (971 : Int)) :
    ∃ negative m e, d.toBinaryStepwise = .finite negative m e := by
  obtain ⟨k, hk⟩ := Int.eq_ofNat_of_zero_le hexp
  rw [hk, zpow_natCast] at hv
  have hbelow : (2 ^ 53 - 7 / 2 : ℚ) * 2 ^ (971 : Int) < doubleLimit := by
    rw [doubleLimit]
    gcongr
    norm_num
  rw [toBinaryStepwise, hk]
  dsimp only
  split
  · rename_i hpower
    have hn : (d.coefficient : ℚ) < doubleLimit :=
      ((le_mul_of_one_le_right (Nat.cast_nonneg _) (one_le_pow₀ (by norm_num))).trans hv).trans_lt hbelow
    refine times_finite (within_ofNat hn) (within_powerOfTen hpower) ?_
    have hslack : slack ^ 2 * (2 ^ 53 - 7 / 2) < 2 ^ 53 - 1 / 2 := by
      rw [slack]
      norm_num
    calc slack * d.coefficient * (slack * (10 ^ k : Nat)) = slack ^ 2 * (d.coefficient * 10 ^ k) := by
          push_cast
          ring
      _ ≤ slack ^ 2 * ((2 ^ 53 - 7 / 2) * 2 ^ (971 : Int)) := by gcongr
      _ = slack ^ 2 * (2 ^ 53 - 7 / 2) * 2 ^ (971 : Int) := by rw [mul_assoc]
      _ < doubleLimit := by
        rw [doubleLimit]
        gcongr
  · rename_i hpower
    rcases Nat.eq_zero_or_pos d.coefficient with hzero | hpos
    · rw [hzero]
      exact ⟨false, 0, BinaryFormat.double.minExponent, rfl⟩
    · -- so high a power of ten is out of range
      have hrange := lt_of_lt_doubleLimit (n := d.coefficient * 10 ^ k) (by
        push_cast
        exact hv.trans_lt hbelow)
      refine absurd hrange (not_lt.2 ?_)
      calc 2 ^ 1024 ≤ 10 ^ (powerLimit + 1) := by decide +kernel
        _ ≤ 10 ^ k := Nat.pow_le_pow_right (by decide) (not_le.1 hpower)
        _ ≤ d.coefficient * 10 ^ k := Nat.le_mul_of_pos_left _ hpos

/-- A word stays finite when it is divided by a power of ten, or left as it is. -/
theorem toBinaryStepwise_of_nonpos (hword : d.coefficient < wordBound) (hexp : d.exponent ≤ 0) :
    ∃ negative m e, d.toBinaryStepwise = .finite negative m e := by
  rcases hexp.lt_or_eq with hneg | hzero
  · exact toBinaryStepwise_of_neg hword hneg
  · refine toBinaryStepwise_of_nonneg hzero.ge ?_
    have hcoefficient : (d.coefficient : ℚ) ≤ 2 ^ 64 := by exact_mod_cast hword.le
    have hpow : (2 : ℚ) ^ (12 : Int) ≤ 2 ^ (971 : Int) := zpow_le_zpow_right₀ one_le_two (by decide)
    rw [hzero, zpow_zero, mul_one]
    refine hcoefficient.trans ?_
    generalize (2 : ℚ) ^ (971 : Int) = pow at hpow
    norm_num at hpow ⊢
    linarith

/-! ## Written numbers -/

/-- A decimal number that a double can be written as: it is hardly greater than the double, and its point is
not far away. -/
structure Writes (d : Decimal) (m : Nat) (e : Int) : Prop where
  le : (d.coefficient : ℚ) * 10 ^ d.exponent ≤ m * 2 ^ e + 2 ^ e / 2
  pos : 0 < d.coefficient
  point : d.point.natAbs ≤ 2048

variable {m : Nat} {e : Int}

/-- A decimal number that is read as a double other than zero is one of them. -/
lemma writes_of_toBinary {negative sign : Bool} (hm : 0 < m)
    (h : d.toBinary .double negative = .finite sign m e) : d.Writes m e := by
  have hexponents : BinaryFormat.double.exponents = 2048 := by decide
  rw [toBinary, hexponents] at h
  split at h
  · cases h
    exact absurd hm (lt_irrefl 0)
  · rename_i hsmall
    obtain ⟨hcoefficient, hlow⟩ := not_or.1 hsmall
    split at h
    · cases h
    · have hnear := near_of_round (by decide) (scaled_pos (by decide) Nat.one_pos _) h
      rw [scaled_div_scaled (by decide)] at hnear
      exact ⟨hnear.ge, Nat.pos_of_ne_zero hcoefficient, by omega⟩

/-- So is the number with all digits of the double. -/
lemma writes_exact (hm : 0 < m) (hbits : m < 2 ^ 53) (hlow : -1074 ≤ e) (hhigh : e ≤ 971) :
    (exact m e).Writes m e where
  le := by
    have hten : (10 : ℚ) ^ (-((-e).toNat : Int)) = 1 / (5 ^ (-e).toNat * 2 ^ (-e).toNat) := by
      rw [zpow_neg, zpow_natCast, ← mul_pow, one_div]
      norm_num
    have hvalue : ((exact m e).coefficient : ℚ) * 10 ^ (exact m e).exponent = m * 2 ^ e := by
      rw [exact, cast_scaled, cast_scaled, hten, ← pow_toNat_div_pow_toNat (two_ne_zero (α := ℚ)) e]
      push_cast
      field_simp
    have hpow : (0 : ℚ) < 2 ^ e := by positivity
    linarith
  pos := scaled_pos (by decide) (scaled_pos (by decide) hm e) (-e)
  point := by
    have hdigits : (exact m e).digits.length ≤ 1100 := by
      refine Nat.toDigits_length 10 _ 1100 (by decide) ?_
      calc (exact m e).coefficient = m * 2 ^ e.toNat * 5 ^ (-e).toNat := rfl
        _ ≤ 2 ^ 53 * 2 ^ 971 * 5 ^ 1074 := by gcongr <;> omega
        _ < 10 ^ 1100 := by decide +kernel
    have hexponent : (exact m e).exponent = -((-e).toNat : Int) := rfl
    rw [Decimal.point, hexponent]
    omega

theorem writes_shortest (tie : Tie) (hm : 0 < m) (hbits : m < 2 ^ 53) (hlow : -1074 ≤ e) (hhigh : e ≤ 971) :
    (shortest .double tie m e).Writes m e := by
  unfold shortest
  dsimp only
  generalize hfound : List.findSome? _ _ = found
  cases found with
  | none => exact writes_exact hm hbits hlow hhigh
  | some d =>
    obtain ⟨k, -, hk⟩ := List.exists_of_findSome?_eq_some hfound
    have hvalue := List.find?_some hk
    exact writes_of_toBinary hm (beq_iff_eq.1 hvalue)

/-! ## Leading digits -/

/-- The number that digits denote behind a prefix. -/
abbrev extend (n : Nat) (ds : List Nat) : Nat :=
  ds.foldl (fun n d => 10 * n + d) n

/-- Written digits denote their number. -/
lemma extend_toDigits (n : Nat) : extend 0 ((Nat.toDigits 10 n).map digitValue) = n := by
  rw [extend, List.foldl_map]
  exact Nat.ofDigitChars_ten_toDigits

lemma le_extend (ds : List Nat) (n : Nat) : n * 10 ^ ds.length ≤ extend n ds := by
  induction ds generalizing n with
  | nil => simp
  | cons d ds ih =>
    calc n * 10 ^ (d :: ds).length = 10 * n * 10 ^ ds.length := by
          rw [List.length_cons, pow_succ]
          ring
      _ ≤ (10 * n + d) * 10 ^ ds.length := Nat.mul_le_mul_right _ (Nat.le_add_right _ _)
      _ ≤ extend n (d :: ds) := ih (10 * n + d)

lemma extend_lt {ds : List Nat} (hds : ∀ d ∈ ds, d < 10) (n : Nat) : extend n ds < (n + 1) * 10 ^ ds.length := by
  induction ds generalizing n with
  | nil => simp
  | cons d ds ih =>
    have hd : d < 10 := hds d (List.mem_cons_self ..)
    calc extend n (d :: ds) < (10 * n + d + 1) * 10 ^ ds.length :=
          ih (fun d hmem => hds d (List.mem_cons_of_mem _ hmem)) (10 * n + d)
      _ ≤ 10 * (n + 1) * 10 ^ ds.length := Nat.mul_le_mul_right _ (by omega)
      _ = (n + 1) * 10 ^ (d :: ds).length := by
          rw [List.length_cons, pow_succ]
          ring

/-- The digits that do not fit make the number no smaller. -/
lemma appendDigits_le (ds : List Nat) (n : Nat) :
    (appendDigits n ds).1 * 10 ^ (appendDigits n ds).2.length ≤ extend n ds := by
  induction ds generalizing n with
  | nil => simp [appendDigits]
  | cons d ds ih =>
    rw [appendDigits]
    split
    · exact ih (10 * n + d)
    · exact le_extend (d :: ds) n

lemma appendDigits_length_le (ds : List Nat) (n : Nat) : (appendDigits n ds).2.length ≤ ds.length := by
  induction ds generalizing n with
  | nil => exact le_rfl
  | cons d ds ih =>
    rw [appendDigits]
    split
    · exact (ih (10 * n + d)).trans (Nat.le_succ _)
    · exact le_rfl

/-- Digits of a number that fits are all appended. -/
lemma appendDigits_of_lt {ds : List Nat} {n : Nat} (h : extend n ds < wordBound) :
    appendDigits n ds = (extend n ds, []) := by
  induction ds generalizing n with
  | nil => rfl
  | cons d ds ih =>
    have hstart : 10 * n + d ≤ extend (10 * n + d) ds :=
      (Nat.le_mul_of_pos_right _ (Nat.pow_pos (by decide))).trans (le_extend ds (10 * n + d))
    rw [appendDigits, if_pos (hstart.trans_lt h), ih h]
    rfl

lemma appendDigits_lt {n : Nat} (hn : n < wordBound) (ds : List Nat) : (appendDigits n ds).1 < wordBound := by
  induction ds generalizing n with
  | nil => exact hn
  | cons d ds ih =>
    rw [appendDigits]
    split
    · rename_i hfits
      exact ih hfits
    · exact hn

/-- As many of the leading digits as fit a word, with the power of ten they stand for. -/
def leading (d : Decimal) : Decimal :=
  let (n, left) := appendDigits 0 (d.digits.map digitValue)
  ⟨n, d.exponent + left.length⟩

lemma leading_le (d : Decimal) :
    (d.leading.coefficient : ℚ) * 10 ^ d.leading.exponent ≤ d.coefficient * 10 ^ d.exponent := by
  have hle := appendDigits_le (d.digits.map digitValue) 0
  rw [digits, extend_toDigits] at hle
  rw [leading, digits]
  dsimp only
  rw [zpow_add₀ (by norm_num), zpow_natCast, mul_left_comm, mul_comm (d.coefficient : ℚ)]
  gcongr
  exact_mod_cast hle

/-- All doubles but the three greatest keep a distance from the limit. -/
private lemma value_le (hbits : m < 2 ^ 53) (hhigh : e ≤ 971) (htop : ¬(e = 971 ∧ 2 ^ 53 - 4 < m)) :
    (m : ℚ) * 2 ^ e + 2 ^ e / 2 ≤ (2 ^ 53 - 7 / 2) * 2 ^ (971 : Int) := by
  have hpow : (0 : ℚ) < 2 ^ e := by positivity
  by_cases he : e = 971
  · have hm : (m : ℚ) ≤ 2 ^ 53 - 4 := by
      have hadd : m + 4 ≤ 2 ^ 53 := by omega
      have hcast : (m : ℚ) + 4 ≤ 2 ^ 53 := by exact_mod_cast hadd
      linarith
    rw [← he]
    nlinarith
  · have hm : (m : ℚ) ≤ 2 ^ 53 := by exact_mod_cast hbits.le
    have hnext : 2 * (2 : ℚ) ^ e ≤ 2 ^ (971 : Int) := by
      rw [← two_zpow_succ]
      exact zpow_le_zpow_right₀ one_le_two (by omega)
    generalize (2 : ℚ) ^ (971 : Int) = pow at *
    nlinarith

/-- The leading digits of a written double are read as a finite value. -/
theorem leading_shortest_finite (hm : 0 < m) (hbits : m < 2 ^ 53) (hlow : -1074 ≤ e) (hhigh : e ≤ 971) :
    ∃ negative m' e', (shortest .double .toEven m e).leading.toBinaryStepwise = .finite negative m' e' := by
  have hwrites := writes_shortest .toEven hm hbits hlow hhigh
  have hword : (shortest .double .toEven m e).leading.coefficient < wordBound := appendDigits_lt (by decide) _
  have hle := (leading_le (shortest .double .toEven m e)).trans hwrites.le
  rcases lt_or_ge (shortest .double .toEven m e).leading.exponent 0 with hneg | hnonneg
  · exact toBinaryStepwise_of_neg hword hneg
  by_cases htop : e = 971 ∧ 2 ^ 53 - 4 < m
  · -- the three greatest doubles come too close to the limit
    obtain ⟨rfl, htop⟩ := htop
    obtain rfl | rfl | rfl : m = 2 ^ 53 - 3 ∨ m = 2 ^ 53 - 2 ∨ m = 2 ^ 53 - 1 := by omega
    · exact ⟨false, 9007199254740989, 971, by decide +kernel⟩
    · exact ⟨false, 9007199254740991, 971, by decide +kernel⟩
    · exact ⟨false, 9007199254740991, 971, by decide +kernel⟩
  · exact toBinaryStepwise_of_nonneg hnonneg (hle.trans (value_le hbits hhigh htop))

end LayeredCache.Decimal
