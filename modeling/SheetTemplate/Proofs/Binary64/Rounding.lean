import Mathlib.Algebra.Order.Field.Basic
import Mathlib.Algebra.Order.Field.Rat
import Mathlib.Algebra.Order.Ring.Abs
import Mathlib.Tactic.Linarith
import Mathlib.Tactic.NormNum
import Mathlib.Tactic.Ring
import SheetTemplate.Binary64.Basic
/-!
How far a rounded quotient is from the exact one: in the range of the normal numbers, by at most one
part in `2 ^ 53`. Products and quotients inherit this, and small whole numbers are exact.
-/
namespace SheetTemplate.Binary64

def magnitude (x : Binary64) : ℚ :=
  x.numerator / x.denominator

/-- A finite number with the given sign and the given magnitude. -/
structure HasValue (x : Binary64) (negative : Bool) (r : ℚ) : Prop where
  finite : x.isFinite = true
  sign : x.isNegative = negative
  value : x.magnitude = r

/-- A finite number with the given sign whose magnitude is a value up to one part in `2 ^ 53`. -/
structure Rounds (x : Binary64) (negative : Bool) (r : ℚ) : Prop where
  finite : x.isFinite = true
  sign : x.isNegative = negative
  error : |x.magnitude - r| ≤ r * 2 ^ (-53 : ℤ)

theorem cast_twoTo (n : ℕ) : ((twoTo n : ℕ) : ℚ) = 2 ^ n :=
  Nat.cast_pow 2 n

theorem twoTo_pos (n : ℕ) : 0 < twoTo n :=
  Nat.pow_pos (by decide)

/-- A power of two as the quotient of two whole powers, one of which is 1. -/
theorem zpow_eq (q : ℤ) : (2 : ℚ) ^ q = (twoTo q.toNat : ℕ) / (twoTo (-q).toNat : ℕ) := by
  rw [cast_twoTo, cast_twoTo]
  rcases Int.le_total 0 q with h | h
  · obtain ⟨n, rfl⟩ := Int.eq_ofNat_of_zero_le h
    simp
  · obtain ⟨n, hn⟩ := Int.eq_ofNat_of_zero_le (Int.neg_nonneg.2 h)
    obtain rfl : q = -(n : ℤ) := by omega
    simp

/-- A bound on a whole number as a bound on its rational value. -/
theorem cast_lt_zpow {n k : ℕ} (h : n < twoTo k) : (n : ℚ) < 2 ^ (k : ℤ) := by
  rw [zpow_natCast, ← cast_twoTo]
  exact_mod_cast h

theorem lt_of_zpow_lt {a b : ℤ} (h : (2 : ℚ) ^ a < 2 ^ b) : a < b :=
  (zpow_lt_zpow_iff_right₀ one_lt_two).1 h

theorem denominator_pos (x : Binary64) : 0 < x.denominator :=
  twoTo_pos _

theorem magnitude_eq (x : Binary64) : x.magnitude = x.significand * 2 ^ x.power := by
  rw [magnitude, numerator, denominator, zpow_eq, Nat.cast_mul, mul_div_assoc]

/-! ## Rounding to a whole number -/

theorem roundDiv_error (num : ℕ) {den : ℕ} (hden : 0 < den) :
    |(roundDiv num den : ℚ) - num / den| ≤ 1 / 2 := by
  have hden' : (0 : ℚ) < den := by exact_mod_cast hden
  have hsplit := Nat.div_add_mod num den
  have hmod := Nat.mod_lt num hden
  have hbounds : 2 * (den * roundDiv num den) ≤ 2 * num + den ∧
      2 * num ≤ 2 * (den * roundDiv num den) + den := by
    unfold roundDiv
    simp only [Bool.or_eq_true, decide_eq_true_eq, Bool.and_eq_true]
    split
    · rw [Nat.mul_add, Nat.mul_one]
      omega
    · omega
  have hlow : (2 : ℚ) * (den * roundDiv num den) ≤ 2 * num + den := by exact_mod_cast hbounds.1
  have hhigh : (2 : ℚ) * num ≤ 2 * (den * roundDiv num den) + den := by exact_mod_cast hbounds.2
  rw [abs_le, le_sub_iff_add_le, sub_le_iff_le_add, ← sub_eq_neg_add]
  constructor
  · rw [sub_le_iff_le_add, div_le_iff₀ hden']
    linarith
  · rw [← sub_le_iff_le_add', le_div_iff₀ hden']
    linarith

theorem zpow_le_div_iff {num den : ℕ} (hden : 0 < den) (e : ℤ) :
    (2 : ℚ) ^ e ≤ num / den ↔ den * twoTo e.toNat ≤ num * twoTo (-e).toNat := by
  have hden' : (0 : ℚ) < den := by exact_mod_cast hden
  have hscale : (0 : ℚ) < (twoTo (-e).toNat : ℕ) := by exact_mod_cast twoTo_pos _
  rw [zpow_eq, div_le_div_iff₀ hscale hden', mul_comm _ (den : ℚ)]
  exact_mod_cast Iff.rfl

/-- A number lies between the powers of two that its binary logarithm names. -/
private theorem log2_bounds {n : ℕ} (h : 0 < n) :
    (2 : ℚ) ^ (n.log2 : ℤ) ≤ n ∧ (n : ℚ) < 2 ^ ((n.log2 : ℤ) + 1) := by
  constructor
  · rw [zpow_natCast]
    exact_mod_cast Nat.log2_self_le (Nat.ne_of_gt h)
  · rw [← Nat.cast_succ, zpow_natCast]
    exact_mod_cast Nat.lt_log2_self

/-- The binary order of a quotient is the exponent of the largest power of two that it reaches. -/
theorem binaryOrder_bounds {num den : ℕ} (hnum : 0 < num) (hden : 0 < den) :
    (2 : ℚ) ^ binaryOrder num den ≤ num / den ∧
      (num : ℚ) / den < 2 ^ (binaryOrder num den + 1) := by
  have htwo : (2 : ℚ) ≠ 0 := two_ne_zero
  have hden' : (0 : ℚ) < den := by exact_mod_cast hden
  obtain ⟨hnumLow, hnumHigh⟩ := log2_bounds hnum
  obtain ⟨hdenLow, hdenHigh⟩ := log2_bounds hden
  have hlow : (2 : ℚ) ^ ((num.log2 : ℤ) - den.log2 - 1) ≤ num / den := by
    rw [sub_sub, zpow_sub₀ htwo]
    exact div_le_div₀ (Nat.cast_nonneg num) hnumLow hden' hdenHigh.le
  have hhigh : (num : ℚ) / den < 2 ^ ((num.log2 : ℤ) - den.log2 + 1) := by
    rw [sub_add_eq_add_sub, zpow_sub₀ htwo]
    exact div_lt_div₀ hnumHigh hdenLow (zpow_pos two_pos _).le (zpow_pos two_pos _)
  unfold binaryOrder
  dsimp only
  split
  · rename_i hreached
    exact ⟨(zpow_le_div_iff hden _).2 hreached, hhigh⟩
  · rename_i hmissed
    rw [← zpow_le_div_iff hden, not_le] at hmissed
    exact ⟨hlow, by rwa [sub_add_cancel]⟩

/-! ## Numbers by their fields -/

section fields
variable (negative : Bool) {fields : ℕ}

theorem toNat_bits_ofFields (h : fields < twoTo 63) :
    (ofFields negative fields).bits.toNat = if negative then twoTo 63 + fields else fields := by
  have hsize : twoTo 63 + twoTo 63 = UInt64.size := rfl
  rw [ofFields, UInt64.toNat_ofNat_of_lt']
  split <;> omega

private theorem exponentBits_ofFields (h : fields < twoTo 63) :
    (ofFields negative fields).exponentBits = fields / twoTo 52 := by
  rw [exponentBits, toNat_bits_ofFields negative h]
  simp only [show twoTo 63 = 9223372036854775808 from rfl,
    show twoTo 52 = 4503599627370496 from rfl, show twoTo 11 = 2048 from rfl] at *
  split <;> omega

private theorem fractionBits_ofFields (h : fields < twoTo 63) :
    (ofFields negative fields).fractionBits = fields % twoTo 52 := by
  rw [fractionBits, toNat_bits_ofFields negative h]
  simp only [show twoTo 63 = 9223372036854775808 from rfl,
    show twoTo 52 = 4503599627370496 from rfl]
  split <;> omega

private theorem isNegative_ofFields (h : fields < twoTo 63) :
    (ofFields negative fields).isNegative = negative := by
  rw [isNegative, toNat_bits_ofFields negative h]
  cases negative with
  | false => simpa using h
  | true => simp

end fields

/-- Fields that a significand is added to stand for that significand, also where it carries into
the exponent. -/
theorem hasValue_ofFields (negative : Bool) {k m : ℕ} (hlow : twoTo 52 ≤ m)
    (hhigh : m ≤ twoTo 53) (hfit : k * twoTo 52 + m < 2047 * twoTo 52) :
    (ofFields negative (k * twoTo 52 + m)).HasValue negative (m * 2 ^ ((k : ℤ) - 1074)) := by
  have hsize : 2047 * twoTo 52 < twoTo 63 := by decide
  have hdouble : twoTo 53 = twoTo 52 * 2 := rfl
  have hpos := twoTo_pos 52
  have hfields := Nat.lt_trans hfit hsize
  have hexponent := exponentBits_ofFields negative hfields
  have hfraction := fractionBits_ofFields negative hfields
  refine ⟨?_, isNegative_ofFields negative hfields, ?_⟩
  · rw [isFinite, hexponent, decide_eq_true_eq]
    exact Nat.ne_of_lt ((Nat.div_lt_iff_lt_mul hpos).2 hfit)
  rw [magnitude_eq, significand, power, hexponent, hfraction]
  rcases Nat.lt_or_eq_of_le hhigh with hless | rfl
  · obtain ⟨f, rfl⟩ := Nat.exists_eq_add_of_le hlow
    have hsplit : k * twoTo 52 + (twoTo 52 + f) = f + twoTo 52 * (k + 1) := by ring
    have hf : f < twoTo 52 := by omega
    rw [hsplit, Nat.add_mul_div_left _ _ hpos, Nat.div_eq_of_lt hf, Nat.add_mul_mod_self_left,
      Nat.mod_eq_of_lt hf, Nat.zero_add, if_neg (by omega), max_eq_left (by omega)]
    congr 2
    push_cast
    ring
  · have hsplit : k * twoTo 52 + twoTo 53 = twoTo 52 * (k + 2) := by rw [hdouble]; ring
    rw [hsplit, Nat.mul_div_cancel_left _ hpos, Nat.mul_mod_right, if_neg (by omega),
      max_eq_left (by omega), hdouble, Nat.add_zero, Nat.cast_mul, mul_assoc,
      show ((k + 2 : ℕ) : ℤ) - 1075 = 1 + ((k : ℤ) - 1074) by push_cast; ring,
      zpow_add₀ two_ne_zero, zpow_one, Nat.cast_two]

/-! ## Quotients in the range of the normal numbers -/

/-- A value that is zero or in the range of the normal numbers, and not in the last of their
binades, where rounding may overflow. -/
def IsNormal (r : ℚ) : Prop :=
  r = 0 ∨ 2 ^ (-1022 : ℤ) ≤ r ∧ r < 2 ^ (1023 : ℤ)

theorem isNormal_of_bounds {r : ℚ} {a b : ℤ} (hlow : 2 ^ a ≤ r) (hhigh : r < 2 ^ b)
    (ha : -1022 ≤ a) (hb : b ≤ 1023) : IsNormal r :=
  .inr ⟨(zpow_le_zpow_right₀ one_le_two ha).trans hlow,
    hhigh.trans_le (zpow_le_zpow_right₀ one_le_two hb)⟩

private theorem binaryOrder_of_isNormal {num den : ℕ} (hnum : 0 < num) (hden : 0 < den)
    (h : IsNormal (num / den)) : -1022 ≤ binaryOrder num den ∧ binaryOrder num den < 1023 := by
  have hnum' : (0 : ℚ) < num := by exact_mod_cast hnum
  have hden' : (0 : ℚ) < den := by exact_mod_cast hden
  obtain ⟨hlow, hhigh⟩ := binaryOrder_bounds hnum hden
  obtain hzero | ⟨hmin, hmax⟩ := h
  · exact absurd hzero (div_pos hnum' hden').ne'
  · have hleft := lt_of_zpow_lt (hmin.trans_lt hhigh)
    have hright := lt_of_zpow_lt (hlow.trans_lt hmax)
    omega

/-- The significand of a quotient before rounding: the quotient in units of a power of two. -/
theorem scaled_eq (num den : ℕ) (q : ℤ) :
    ((num * twoTo (-q).toNat : ℕ) : ℚ) / (den * twoTo q.toNat : ℕ) = num / den / 2 ^ q := by
  rw [zpow_eq, div_div_div_eq, Nat.cast_mul, Nat.cast_mul]

/-- A rounded significand has 53 bits, or is the next power of two. -/
theorem roundDiv_bounds (num : ℕ) {den : ℕ} (hden : 0 < den) {a b : ℕ} (hlow : (a : ℚ) ≤ num / den)
    (hhigh : (num : ℚ) / den < b) : a ≤ roundDiv num den ∧ roundDiv num den ≤ b := by
  obtain ⟨hleft, hright⟩ := abs_le.1 (roundDiv_error num hden)
  constructor
  · have : (a : ℚ) < (roundDiv num den : ℚ) + 1 := by linarith
    exact Nat.lt_succ_iff.1 (by exact_mod_cast this)
  · have : (roundDiv num den : ℚ) < (b : ℚ) + 1 := by linarith
    exact Nat.lt_succ_iff.1 (by exact_mod_cast this)

section ratio
variable (negative : Bool) {num den : ℕ}

/-- The magnitude of a quotient: its significand is rounded in units of a power of two. -/
theorem hasValue_ofRatio (hnum : 0 < num) (hden : 0 < den) (h : IsNormal (num / den)) {q : ℤ}
    (hq : q = binaryOrder num den - 52) :
    (ofRatio negative num den).HasValue negative
      (roundDiv (num * twoTo (-q).toNat) (den * twoTo q.toNat) * 2 ^ q) := by
  obtain ⟨hmin, hmax⟩ := binaryOrder_of_isNormal hnum hden h
  obtain ⟨hlow, hhigh⟩ := binaryOrder_bounds hnum hden
  have hunit : (0 : ℚ) < 2 ^ q := zpow_pos two_pos q
  have hscaledDen : 0 < den * twoTo q.toNat := Nat.mul_pos hden (twoTo_pos _)
  obtain ⟨hsmall, hlarge⟩ := roundDiv_bounds (num * twoTo (-q).toNat) hscaledDen
    (a := twoTo 52) (b := twoTo 53)
    (by
      rw [scaled_eq, cast_twoTo, le_div_iff₀ hunit, ← zpow_natCast, ← zpow_add₀ two_ne_zero]
      rwa [show ((52 : ℕ) : ℤ) + q = binaryOrder num den by push_cast; omega])
    (by
      rw [scaled_eq, cast_twoTo, div_lt_iff₀ hunit, ← zpow_natCast, ← zpow_add₀ two_ne_zero]
      rwa [show ((53 : ℕ) : ℤ) + q = binaryOrder num den + 1 by push_cast; omega])
  obtain ⟨k, hk⟩ := Int.eq_ofNat_of_zero_le (show 0 ≤ q + 1074 by omega)
  have hfit : k * twoTo 52 + roundDiv (num * twoTo (-q).toNat) (den * twoTo q.toNat) <
      2047 * twoTo 52 := by
    have hpos := twoTo_pos 52
    have hdouble : twoTo 53 = 2 * twoTo 52 := rfl
    have hle : k * twoTo 52 ≤ 2044 * twoTo 52 := Nat.mul_le_mul_right _ (by omega)
    omega
  rw [ofRatio, if_neg hnum.ne', ← hq, max_eq_left (by omega)]
  simp only
  rw [hk, Int.toNat_natCast, if_neg (Nat.not_le.2 hfit)]
  have hvalue := hasValue_ofFields negative hsmall hlarge hfit
  rwa [show (k : ℤ) - 1074 = q by omega] at hvalue

theorem hasValue_zero : (zero negative).HasValue negative 0 := by
  have hsignificand : (zero negative).significand = 0 := by cases negative <;> decide
  refine ⟨by cases negative <;> decide, by cases negative <;> decide, ?_⟩
  rw [magnitude_eq, hsignificand, Nat.cast_zero, zero_mul]

theorem ofRatio_rounds (hden : 0 < den) (h : IsNormal (num / den)) :
    (ofRatio negative num den).Rounds negative (num / den) := by
  rcases Nat.eq_zero_or_pos num with rfl | hnum
  · rw [ofRatio, if_pos rfl, Nat.cast_zero, zero_div]
    obtain ⟨hfinite, hsign, hvalue⟩ := hasValue_zero negative
    exact ⟨hfinite, hsign, by rw [hvalue, sub_zero, abs_zero, zero_mul]⟩
  obtain ⟨hfinite, hsign, hvalue⟩ := hasValue_ofRatio negative hnum hden h rfl
  refine ⟨hfinite, hsign, ?_⟩
  rw [hvalue]
  generalize hq : binaryOrder num den - 52 = q
  have hunit : (0 : ℚ) < 2 ^ q := zpow_pos two_pos q
  have herror := roundDiv_error (num * twoTo (-q).toNat)
    (Nat.mul_pos hden (twoTo_pos q.toNat))
  rw [scaled_eq] at herror
  generalize ((roundDiv (num * twoTo (-q).toNat) (den * twoTo q.toNat) : ℕ) : ℚ) = m at herror ⊢
  have hlow : (2 : ℚ) ^ (q + 52) ≤ num / den := by
    rw [← hq, sub_add_cancel]
    exact (binaryOrder_bounds hnum hden).1
  generalize (num : ℚ) / den = r at herror hlow ⊢
  calc |m * 2 ^ q - r| = |m - r / 2 ^ q| * 2 ^ q := by
        rw [← abs_of_pos hunit, ← abs_mul, abs_of_pos hunit, sub_mul, div_mul_cancel₀ _ hunit.ne']
    _ ≤ 1 / 2 * 2 ^ q := mul_le_mul_of_nonneg_right herror hunit.le
    _ = 2 ^ (q + 52) * 2 ^ (-53 : ℤ) := by
        rw [← zpow_add₀ two_ne_zero, show q + 52 + -53 = -1 + q by ring, zpow_add₀ two_ne_zero]
        norm_num
    _ ≤ r * 2 ^ (-53 : ℤ) := mul_le_mul_of_nonneg_right hlow (zpow_pos two_pos _).le

end ratio

/-- A whole number below `2 ^ 53` is exact. -/
theorem hasValue_whole (negative : Bool) {n : ℕ} (h : n < twoTo 53) :
    (ofRatio negative n 1).HasValue negative n := by
  rcases Nat.eq_zero_or_pos n with rfl | hpos
  · rw [ofRatio, if_pos rfl, Nat.cast_zero]
    exact hasValue_zero negative
  have hone : (1 : ℚ) ≤ n := by exact_mod_cast hpos
  have hbelow : (n : ℚ) / (1 : ℕ) < 2 ^ (53 : ℤ) := by
    rw [Nat.cast_one, div_one]
    exact cast_lt_zpow h
  have hnormal : IsNormal ((n : ℚ) / (1 : ℕ)) :=
    isNormal_of_bounds (a := 0) (by rwa [zpow_zero, Nat.cast_one, div_one]) hbelow (by decide)
      (by decide)
  have horder : binaryOrder n 1 < 53 :=
    lt_of_zpow_lt ((binaryOrder_bounds hpos Nat.one_pos).1.trans_lt hbelow)
  obtain ⟨hfinite, hsign, hvalue⟩ := hasValue_ofRatio negative hpos Nat.one_pos hnormal rfl
  refine ⟨hfinite, hsign, ?_⟩
  have hunit : (binaryOrder n 1 - 52).toNat = 0 := Int.toNat_of_nonpos (by omega)
  have hexact (a : ℕ) : roundDiv a (1 * twoTo 0) = a := by
    rw [show 1 * twoTo 0 = 1 from rfl]
    simp [roundDiv, Nat.mod_one]
  have hscale : ((twoTo (-(binaryOrder n 1 - 52)).toNat : ℕ) : ℚ) ≠ 0 := by
    exact_mod_cast (twoTo_pos _).ne'
  rw [hvalue, zpow_eq, hunit, hexact, Nat.cast_mul, mul_assoc, mul_div_cancel₀ _ hscale,
    cast_twoTo, pow_zero, mul_one]

/-! ## Operations on finite numbers -/

section operations
variable {x y : Binary64}

theorem isNaN_of_isFinite (h : x.isFinite = true) : x.isNaN = false := by
  simp_all [isFinite, isNaN]

theorem isInfinite_of_isFinite (h : x.isFinite = true) : x.isInfinite = false := by
  simp_all [isFinite, isInfinite]

private theorem numerator_pos (h : x.magnitude ≠ 0) : 0 < x.numerator := by
  refine Nat.pos_of_ne_zero fun hzero => h ?_
  rw [magnitude, hzero, Nat.cast_zero, zero_div]

private theorem isZero_of_magnitude_ne_zero (h : x.magnitude ≠ 0) : x.isZero = false := by
  have hsignificand : x.significand ≠ 0 := fun hzero =>
    h (by rw [magnitude_eq, hzero, Nat.cast_zero, zero_mul])
  simp [isZero, hsignificand]

theorem mul_rounds (hx : x.isFinite = true) (hy : y.isFinite = true)
    (h : IsNormal (x.magnitude * y.magnitude)) :
    (x.mul y).Rounds (x.isNegative != y.isNegative) (x.magnitude * y.magnitude) := by
  have hratio : x.magnitude * y.magnitude =
      (x.numerator * y.numerator : ℕ) / (x.denominator * y.denominator : ℕ) := by
    rw [magnitude, magnitude, div_mul_div_comm, Nat.cast_mul, Nat.cast_mul]
  simp only [mul, isNaN_of_isFinite hx, isNaN_of_isFinite hy, isInfinite_of_isFinite hx,
    isInfinite_of_isFinite hy, Bool.or_self, Bool.false_eq_true, if_false]
  rw [hratio] at h ⊢
  exact ofRatio_rounds _ (Nat.mul_pos x.denominator_pos y.denominator_pos) h

theorem div_rounds (hx : x.isFinite = true) (hy : y.isFinite = true) (hzero : y.magnitude ≠ 0)
    (h : IsNormal (x.magnitude / y.magnitude)) :
    (x.div y).Rounds (x.isNegative != y.isNegative) (x.magnitude / y.magnitude) := by
  have hratio : x.magnitude / y.magnitude =
      (x.numerator * y.denominator : ℕ) / (x.denominator * y.numerator : ℕ) := by
    rw [magnitude, magnitude, div_div_div_eq, Nat.cast_mul, Nat.cast_mul]
  simp only [div, isNaN_of_isFinite hx, isNaN_of_isFinite hy, isInfinite_of_isFinite hx,
    isInfinite_of_isFinite hy, isZero_of_magnitude_ne_zero hzero, Bool.or_self,
    Bool.false_eq_true, if_false]
  rw [hratio] at h ⊢
  exact ofRatio_rounds _ (Nat.mul_pos x.denominator_pos (numerator_pos hzero)) h

/-- A number without a sign is rounded to the whole number that it is closest to. -/
theorem toNearestInt_eq {m : ℕ} (hsign : x.isNegative = false) (h : |x.magnitude - m| < 1 / 2) :
    x.toNearestInt = m := by
  have hden : (0 : ℚ) < x.denominator := by exact_mod_cast x.denominator_pos
  obtain ⟨hlow, hhigh⟩ := abs_lt.1 h
  rw [magnitude] at hlow hhigh
  have hleft : (m : ℚ) - 1 / 2 < x.numerator / x.denominator := by linarith
  have hright : (x.numerator : ℚ) / x.denominator < m + 1 / 2 := by linarith
  rw [lt_div_iff₀ hden] at hleft
  rw [div_lt_iff₀ hden] at hright
  have hbelow : 2 * x.denominator * m < 2 * x.numerator + x.denominator := by
    have : (2 : ℚ) * x.denominator * m < 2 * x.numerator + x.denominator := by linarith
    exact_mod_cast this
  have habove : 2 * x.numerator + x.denominator < 2 * x.denominator * (m + 1) := by
    have : (2 : ℚ) * x.numerator + x.denominator < 2 * x.denominator * (m + 1) := by linarith
    exact_mod_cast this
  have hquotient : (2 * x.numerator + x.denominator) / (2 * x.denominator) = m :=
    Nat.div_eq_of_lt_le (by rw [Nat.mul_comm]; exact hbelow.le) (by rwa [Nat.mul_comm _ (_ * _)])
  rw [toNearestInt, hsign, hquotient]
  rfl

/-- A number without a sign is not below zero. -/
theorem lt_zero (h : x.isNegative = false) : x.lt (zero false) = false := by
  have hzero : (zero false).signedNumerator = 0 := by decide
  have hnan : (zero false).isNaN = false := by decide
  have hinfinite : (zero false).isInfinite = false := by decide
  have hpositive : 0 ≤ x.signedNumerator := by
    rw [signedNumerator, h]
    exact Int.natCast_nonneg _
  have hproduct : ¬ x.signedNumerator * (zero false).denominator < 0 :=
    Int.not_lt.2 (Int.mul_nonneg hpositive (Int.natCast_nonneg _))
  rw [lt, hnan, hinfinite, h, hzero, Int.zero_mul, decide_eq_false hproduct]
  simp only [Bool.false_and, Bool.false_eq_true, if_false, ite_self]

/-- The unit of rounding below a power of two. -/
private theorem mul_unit_le {r : ℚ} {b : ℤ} (h : r < 2 ^ b) :
    r * 2 ^ (-53 : ℤ) ≤ 2 ^ (b - 53) := by
  rw [sub_eq_add_neg, zpow_add₀ two_ne_zero]
  exact mul_le_mul_of_nonneg_right h.le (zpow_pos two_pos _).le

section back
variable {m n : ℕ}

theorem isNormal_div (hm : m < twoTo 50) (hn : 0 < n) (hn' : n < twoTo 53) :
    IsNormal ((m : ℚ) / n) := by
  have hone : (1 : ℚ) ≤ n := by exact_mod_cast hn
  have hpos : (0 : ℚ) < n := by exact_mod_cast hn
  rcases Nat.eq_zero_or_pos m with rfl | hm'
  · exact .inl (by rw [Nat.cast_zero, zero_div])
  · refine isNormal_of_bounds (a := -53) ?_
      ((div_le_self (Nat.cast_nonneg m) hone).trans_lt (cast_lt_zpow hm)) (by decide) (by decide)
    rw [zpow_neg, ← one_div]
    exact div_le_div₀ (Nat.cast_nonneg m) (by exact_mod_cast hm') hpos (cast_lt_zpow hn').le

/-- A rounded quotient of whole numbers, multiplied back exactly. -/
theorem error_mul_of_rounds_div (hn : 0 < n) (hm : m < twoTo 50)
    (h : x.Rounds false ((m : ℚ) / n)) :
    |x.magnitude * n - m| ≤ 1 / 8 ∧ (m = 0 → x.magnitude * n = 0) := by
  have hpos : (0 : ℚ) < n := by exact_mod_cast hn
  have hscaled : |x.magnitude * n - m| ≤ m * 2 ^ (-53 : ℤ) := by
    have hmul := mul_le_mul_of_nonneg_right h.error hpos.le
    rwa [← abs_of_pos hpos, ← abs_mul, abs_of_pos hpos, sub_mul, div_mul_cancel₀ _ hpos.ne',
      mul_right_comm, div_mul_cancel₀ _ hpos.ne'] at hmul
  constructor
  · exact (hscaled.trans (mul_unit_le (cast_lt_zpow hm))).trans_eq (by norm_num)
  · rintro rfl
    rw [Nat.cast_zero, zero_mul, sub_zero] at hscaled
    exact abs_nonpos_iff.1 hscaled

/-- A whole number divided by another and multiplied back is still closest to itself: both errors
together are below one half. -/
theorem toNearestInt_mul_div (hm : m < twoTo 50) (hn : 0 < n) (hn' : n < twoTo 53)
    (hx : x.HasValue false m) (hy : y.HasValue false n) :
    (x.div y).isNegative = false ∧ ((x.div y).mul y).isFinite = true ∧
      ((x.div y).mul y).toNearestInt = m := by
  obtain ⟨hxFinite, hxSign, hxValue⟩ := hx
  obtain ⟨hyFinite, hySign, hyValue⟩ := hy
  have hnonzero : y.magnitude ≠ 0 := by
    rw [hyValue]
    exact_mod_cast hn.ne'
  have hdiv := div_rounds hxFinite hyFinite hnonzero
    (by rw [hxValue, hyValue]; exact isNormal_div hm hn hn')
  rw [hxSign, hySign, hxValue, hyValue] at hdiv
  obtain ⟨hfirst, hzero⟩ := error_mul_of_rounds_div hn hm hdiv
  obtain ⟨hlow, hhigh⟩ := abs_le.1 hfirst
  have hbelow : (x.div y).magnitude * n < 2 ^ (51 : ℤ) := by
    have hm' := cast_lt_zpow hm
    norm_num only at hm' ⊢
    linarith
  have hproduct : IsNormal ((x.div y).magnitude * y.magnitude) := by
    rw [hyValue]
    rcases Nat.eq_zero_or_pos m with hm' | hm'
    · exact .inl (hzero hm')
    · refine isNormal_of_bounds (a := -1) ?_ hbelow (by decide) (by decide)
      have hone : (1 : ℚ) ≤ m := by exact_mod_cast hm'
      norm_num only
      linarith
  have hmul := mul_rounds hdiv.finite hyFinite hproduct
  rw [hdiv.sign, hySign, hyValue] at hmul
  refine ⟨hdiv.sign, hmul.finite, toNearestInt_eq hmul.sign ?_⟩
  have hsecond : |((x.div y).mul y).magnitude - (x.div y).magnitude * n| ≤ 1 / 4 :=
    (hmul.error.trans (mul_unit_le hbelow)).trans_eq (by norm_num)
  calc |((x.div y).mul y).magnitude - m| ≤
        |((x.div y).mul y).magnitude - (x.div y).magnitude * n| +
          |(x.div y).magnitude * n - m| := abs_sub_le ..
    _ ≤ 1 / 4 + 1 / 8 := add_le_add hsecond hfirst
    _ < 1 / 2 := by norm_num

end back

end operations

end SheetTemplate.Binary64
