import AlgebraSql.Numeric.Double
import AlgebraSql.Proofs.WholeNumbers
import Mathlib.Algebra.Order.Field.Power
import Mathlib.Tactic.Linarith
import Mathlib.Tactic.NormNum

/-!
# Doubles — rounding stays in the format, and whole numbers of 53 digits are written exactly.

The exponent chosen for a quotient leaves it 53 binary digits before the point, or is the least one, where it may
leave fewer.  The nearest whole number then has 53 digits again, or is the power of two with one more, which is
taken as a shorter number with the next exponent.  So a number whose rounding is in range is finite, and its text is
that of its rounding.
-/

namespace AlgebraSql

namespace Binary

/-! ## Quotients -/

/-- Rounding a quotient does not take it below a whole number that it is not below. -/
theorem le_divNearest {n d k : Nat} (hd : 0 < d) (h : k * d ≤ n) : k ≤ divNearest n d := by
  have hfloor : k ≤ n / d := (Nat.le_div_iff_mul_le hd).mpr h
  unfold divNearest
  dsimp only
  split
  · exact hfloor
  · split <;> omega

/-- Rounding a quotient does not take it above a whole number that it is below. -/
theorem divNearest_le {n d k : Nat} (hd : 0 < d) (h : n < k * d) : divNearest n d ≤ k := by
  have hfloor : n / d < k := (Nat.div_lt_iff_lt_mul hd).mpr h
  unfold divNearest
  dsimp only
  split
  · exact hfloor.le
  · split <;> omega

theorem zpow_eq (e : Int) : (2 : ℚ) ^ e = 2 ^ e.toNat / 2 ^ (-e).toNat := by
  rcases le_total 0 e with he | he
  · obtain ⟨k, rfl⟩ := Int.eq_ofNat_of_zero_le he
    simp
  · obtain ⟨k, hk⟩ := Int.eq_ofNat_of_zero_le (neg_nonneg.mpr he)
    obtain rfl : e = -k := by omega
    simp

/-- A power of two is brought to the side where its exponent is not negative. -/
theorem scaled_le_iff (n d : Nat) (e : Int) :
    d * twoTo e.toNat ≤ n * twoTo (-e).toNat ↔ (d : ℚ) * 2 ^ e ≤ n := by
  have hpos : (0 : ℚ) < 2 ^ (-e).toNat := by positivity
  rw [zpow_eq, mul_div_assoc', div_le_iff₀ hpos]
  show d * 2 ^ e.toNat ≤ n * 2 ^ (-e).toNat ↔ _
  exact_mod_cast Iff.rfl

theorem log2_bounds {n : Nat} (hn : 0 < n) : (2 : ℚ) ^ (n.log2 : Int) ≤ n ∧ (n : ℚ) < 2 ^ (n.log2 + 1 : Int) := by
  have hlower : 2 ^ n.log2 ≤ n := Nat.log2_self_le hn.ne'
  have hupper : n < 2 ^ (n.log2 + 1) := Nat.lt_log2_self
  exact ⟨by exact_mod_cast hlower, by exact_mod_cast hupper⟩

variable {n d : Nat}

/-- The exponent for a quotient is 52 below that of its leading digit, unless it is the least one. -/
theorem exists_leadingDigit (hn : 0 < n) (hd : 0 < d) : ∃ lead : Int, exponentFor n d = max (lead - 52) minExponent
    ∧ (d : ℚ) * 2 ^ lead ≤ n ∧ (n : ℚ) < d * 2 ^ (lead + 1) := by
  obtain ⟨hnl, hnu⟩ := log2_bounds hn
  obtain ⟨hdl, hdu⟩ := log2_bounds hd
  have htwo : ∀ k : Int, (0 : ℚ) < 2 ^ k := fun k => by positivity
  have hadd : ∀ j k : Int, (2 : ℚ) ^ (j + k) = 2 ^ j * 2 ^ k := fun j k => zpow_add₀ two_ne_zero j k
  unfold exponentFor
  dsimp only
  set guess : Int := (n.log2 : Int) - d.log2 with hguess
  by_cases hlt : n * twoTo (-guess).toNat < d * twoTo guess.toNat
  · refine ⟨guess - 1, by rw [if_pos hlt], ?_, ?_⟩
    · calc (d : ℚ) * 2 ^ (guess - 1) ≤ 2 ^ (d.log2 + 1 : Int) * 2 ^ (guess - 1) :=
            mul_le_mul_of_nonneg_right hdu.le (htwo _).le
        _ = 2 ^ (n.log2 : Int) := by rw [← hadd]; congr 1; omega
        _ ≤ n := hnl
    · have hbelow := not_le.mpr hlt
      rw [scaled_le_iff, not_le] at hbelow
      rwa [sub_add_cancel]
  · refine ⟨guess, by rw [if_neg hlt], (scaled_le_iff n d guess).mp (not_lt.mp hlt), ?_⟩
    calc (n : ℚ) < 2 ^ (n.log2 + 1 : Int) := hnu
      _ = 2 ^ (d.log2 : Int) * 2 ^ (guess + 1) := by rw [← hadd]; congr 1; omega
      _ ≤ d * 2 ^ (guess + 1) := mul_le_mul_of_nonneg_right hdl (htwo _).le

/-- The exponent for a quotient leaves it at most 53 digits before the point, and no fewer unless it is the least
exponent. -/
theorem exponentFor_traits (hn : 0 < n) (hd : 0 < d) :
    minExponent ≤ exponentFor n d ∧ (n : ℚ) < d * 2 ^ (exponentFor n d + 53)
      ∧ (exponentFor n d = minExponent ∨ (d : ℚ) * 2 ^ (exponentFor n d + 52) ≤ n) := by
  obtain ⟨lead, heq, hlower, hupper⟩ := exists_leadingDigit hn hd
  have hdpos : (0 : ℚ) < d := by exact_mod_cast hd
  have hraise : ∀ {j k : Int}, j ≤ k → (d : ℚ) * 2 ^ j ≤ d * 2 ^ k := fun hjk =>
    mul_le_mul_of_nonneg_left (zpow_le_zpow_right₀ one_le_two hjk) hdpos.le
  rw [heq]
  refine ⟨le_max_right _ _, hupper.trans_le (hraise ?_), ?_⟩
  · have hle : lead - 52 ≤ max (lead - 52) minExponent := le_max_left _ _
    omega
  · rcases max_choice (lead - 52) minExponent with hmax | hmax <;> rw [hmax]
    · exact .inr (by rwa [sub_add_cancel])
    · exact .inl rfl

/-- **`nearest`** — a quotient whose rounding is in range is rounded to a number of the format. -/
theorem inFormat_nearest (hn : 0 < n) (hd : 0 < d) (h : (nearest n d).inRange = true) : (nearest n d).InFormat := by
  obtain ⟨hleast, hupper, hlower⟩ := exponentFor_traits hn hd
  have hlargest : (nearest n d).exponent ≤ maxExponent := by simpa [inRange] using h
  revert hlargest
  unfold nearest
  dsimp only
  set e := exponentFor n d
  have hpos : 0 < d * twoTo e.toNat := Nat.mul_pos hd (Nat.pow_pos two_pos)
  have hmul : ∀ k : Nat, 2 ^ k * (d * twoTo e.toNat) ≤ n * twoTo (-e).toNat ↔ (d : ℚ) * 2 ^ (e + k) ≤ n := by
    intro k
    rw [← mul_assoc, scaled_le_iff, zpow_add₀ two_ne_zero, zpow_natCast]
    push_cast
    rw [mul_comm (2 ^ k : ℚ), mul_assoc, mul_comm (2 ^ k : ℚ)]
  have hshort : divNearest (n * twoTo (-e).toNat) (d * twoTo e.toNat) ≤ 2 ^ 53 :=
    divNearest_le hpos (not_le.mp fun hle => absurd ((hmul 53).mp hle) (not_le_of_gt hupper))
  have hfull : e = minExponent ∨ 2 ^ 52 ≤ divNearest (n * twoTo (-e).toNat) (d * twoTo e.toNat) :=
    hlower.imp_right fun hle => le_divNearest hpos ((hmul 52).mpr hle)
  generalize divNearest (n * twoTo (-e).toNat) (d * twoTo e.toNat) = significand at hshort hfull
  have hpower : ∀ k, twoTo k = 2 ^ k := fun _ => rfl
  rw [normal]
  split
  · have hshorter : twoTo 52 < twoTo 53 := by decide
    exact fun hlargest => ⟨hshorter, .inl le_rfl, hleast.trans (Int.le_add_one le_rfl), hlargest⟩
  · rename_i hne
    exact fun hlargest => ⟨lt_of_le_of_ne hshort hne, hfull.symm, hleast, hlargest⟩

/-- The exact value of a binary number. -/
theorem toRat_exact (b : Binary) : b.exact.toRat = b.significand * 2 ^ b.exponent := by
  have hfive : ∀ k : Nat, (10 : ℚ) ^ k = 5 ^ k * 2 ^ k := fun k => by rw [← mul_pow]; norm_num
  have hvalue : b.exact.toRat
      = 4 * b.significand * (5 ^ (2 - b.exponent).toNat * 2 ^ (b.exponent - 2).toNat) / 10 ^ (2 - b.exponent).toNat := by
    simp [exact, quarter, Decimal.toRat, twoTo]
  have hshift : (2 : ℚ) ^ b.exponent = 4 * 2 ^ (b.exponent - 2) := by
    rw [zpow_sub₀ two_ne_zero]
    norm_num
    ring
  rw [hvalue, hshift, zpow_eq, neg_sub, hfive]
  field_simp

end Binary

/-! ## Rounded numbers -/

namespace Decimal

/-- A size that is not negative has the sign of a number other than zero. -/
theorem signedAs_eq {size a : Decimal} (h : a.mantissa ≠ 0) : size.signedAs a = size.withSign (a.mantissa < 0) := by
  rcases lt_or_gt_of_ne h with hlt | hgt
  · simp [signedAs, withSign, hlt, Int.sign_eq_neg_one_of_neg hlt]
  · simp [signedAs, withSign, hgt.not_gt, Int.sign_eq_one_of_pos hgt]

theorem mantissa_reduce_zero (scale : Nat) : (reduce 0 scale).mantissa = 0 := by
  induction scale with
  | zero => rfl
  | succ scale ih => simpa [reduce] using ih

/-- A size with a sign has its value with the sign. -/
theorem toRat_withSign (negative : Bool) (size : Decimal) :
    (size.withSign negative).toRat = if negative then -size.toRat else size.toRat := by
  cases negative
  · rfl
  · simp [withSign, toRat, neg_div]

/-- The binary size of a whole number of at most 53 binary digits is its exact size. -/
theorem toRat_binarySize_ofInt {n : Int} (h : n.natAbs < 2 ^ 53) : (ofInt n).binarySize.exact.toRat = |(n : ℚ)| := by
  obtain ⟨k, hsize⟩ := binarySize_ofInt h
  rw [Binary.toRat_exact, hsize]
  show ((n.natAbs * 2 ^ k : Nat) : ℚ) * 2 ^ (-(k : Int)) = _
  rw [zpow_neg, zpow_natCast]
  push_cast
  rw [mul_assoc, mul_inv_cancel₀ (by positivity), mul_one, Nat.cast_natAbs, Int.cast_abs]

end Decimal

namespace Double

variable {d e : Decimal}

/-- **`ofDecimal`** — a number other than zero whose rounding is in range becomes a finite number of its size. -/
theorem ofDecimal_of_inRange (hne : d.mantissa ≠ 0) (h : d.binarySize.inRange = true) :
    ∃ held, ofDecimal d = .finite (d.mantissa < 0) d.binarySize held := by
  have hheld : d.binarySize.InFormat :=
    Binary.inFormat_nearest (Int.natAbs_pos.mpr hne) (Nat.pow_pos (by decide)) h
  exact ⟨hheld, by rw [ofDecimal, if_neg hne, dif_pos hheld]⟩

/-- A number in range is written as its rounding. -/
theorem toText_ofDecimal (h : d.rounded? = some e) : (ofDecimal d).toText = e.toText := by
  simp only [Decimal.rounded?] at h
  split at h
  · rename_i hrange
    obtain rfl := Option.some_inj.mp h
    by_cases hzero : d.mantissa = 0
    · have hmantissa : (d.binarySize.shortest.signedAs d).reduced.mantissa = 0 := by
        simp only [Decimal.reduced, Decimal.signedAs, hzero, Int.sign_zero, zero_mul, Decimal.mantissa_reduce_zero]
      have htext : zero.toText = "0" := by decide +kernel
      rw [ofDecimal, if_pos hzero, htext, Decimal.toText, hmantissa]
      rfl
    · obtain ⟨held, heq⟩ := ofDecimal_of_inRange hzero hrange
      rw [heq, toText, written, Decimal.signedAs_eq hzero]
  · cases h

/-- **Whole numbers** of at most 53 binary digits are written exactly. -/
theorem writtenExactly_ofInt {n : Int} (h : n.natAbs < 2 ^ 53) : (ofDecimal (Decimal.ofInt n)).WrittenExactly := by
  by_cases hzero : n = 0
  · subst hzero
    decide +kernel
  · have hne : (Decimal.ofInt n).mantissa ≠ 0 := hzero
    have hrounded := Decimal.rounded?_ofInt h
    have hrange : (Decimal.ofInt n).binarySize.inRange = true := by
      by_contra hout
      rw [Decimal.rounded?] at hrounded
      simp [hout] at hrounded
    obtain ⟨held, heq⟩ := ofDecimal_of_inRange hne hrange
    have hwritten : written ((Decimal.ofInt n).mantissa < 0) (Decimal.ofInt n).binarySize = Decimal.ofInt n := by
      rw [written, ← Decimal.signedAs_eq hne]
      simpa [Decimal.rounded?, hrange] using hrounded
    rw [heq]
    show (written _ _).toRat = _
    rw [hwritten, Decimal.toRat_ofInt, Decimal.toRat_withSign, Decimal.toRat_binarySize_ofInt h]
    by_cases hneg : n < 0
    · have hcast : (n : ℚ) < 0 := by exact_mod_cast hneg
      simp [Decimal.ofInt, hneg, abs_of_neg hcast]
    · have hcast : (0 : ℚ) ≤ n := by exact_mod_cast not_lt.mp hneg
      simp [Decimal.ofInt, hneg, abs_of_nonneg hcast]

end Double

end AlgebraSql
